/-
Reading with less room.

A higher limit never changes what a reading comes to unless the reading ends
because something lies too deep.  The two readings are the same up to there,
with all their misses, since nothing but an opening parenthesis looks at the
room that is left.
-/
import Reckon.Proofs.TokenReading
import Reckon.Reading.Session

namespace Reckon
namespace Reading

/-! ## Readings cut short -/

/-- The first reading ends because something lies too deep, or is the same as
the second. -/
def Cut (r r' : Reading α) : Prop :=
  r = r' ∨ ∃ start next, r.outcome = .tooDeep start next

theorem Cut.refl (r : Reading α) : r.Cut r :=
  .inl rfl

theorem cut_tooDeep (start : Nat) (next : Cursor) (r : Reading α) :
    (tooDeep start next : Reading α).Cut r :=
  .inr ⟨start, next, rfl⟩

theorem Cut.after {r r' : Reading α} (h : r.Cut r') (ms : List Miss) :
    (r.after ms).Cut (r'.after ms) := by
  rcases h with rfl | ⟨start, next, h⟩
  · exact .refl _
  · exact .inr ⟨start, next, h⟩

theorem Cut.map {r r' : Reading α} (h : r.Cut r') (f : α → β) : (r.map f).Cut (r'.map f) := by
  rcases h with rfl | ⟨start, next, h⟩
  · exact .refl _
  · exact .inr ⟨start, next, by rw [Reading.map, h]; rfl⟩

theorem Cut.andThen {r r' : Reading α} (h : r.Cut r') {f f' : α → Cursor → Reading β}
    {g g' : Cursor → Reading β}
    (hfound : ∀ value next, r'.outcome = .found value next → (f value next).Cut (f' value next))
    (hmissing : ∀ next, (g next).Cut (g' next)) : (r.andThen f g).Cut (r'.andThen f' g') := by
  rcases h with rfl | ⟨start, next, h⟩
  · unfold Reading.andThen
    split
    · next value next h => exact (hfound value next h).after _
    · next next h => exact (hmissing next).after _
    · exact .refl _
  · exact .inr ⟨start, next, by rw [Reading.andThen, h]; rfl⟩

/-! ## Readers -/

/-- Wherever it is used, the first reader is cut short or reads the same. -/
def Cuts (r r' : Reader α) : Prop :=
  ∀ c, (r.read c).Cut (r'.read c)

/-- The reader for what stands in parentheses, if there is one. -/
def CutsInner (inner inner' : Option (Reader Node)) : Prop :=
  ∀ r, inner = some r → ∃ r', inner' = some r' ∧ Cuts r r'

section

variable {inner inner' : Option (Reader Node)} (h : CutsInner inner inner') (c : Cursor)

include h

theorem cut_enclosed (rule : Rule) (start : Cursor) (before : List Node) :
    (enclosed inner rule start before c).Cut (enclosed inner' rule start before c) := by
  cases inner with
  | none => exact cut_tooDeep _ _ _
  | some r =>
    obtain ⟨r', rfl, hr⟩ := h r rfl
    exact (hr c).andThen (fun _ _ _ => .refl _) fun _ => .refl _

theorem cut_functionCall : (functionCall inner c).Cut (functionCall inner' c) :=
  (Cut.refl _).andThen
    (fun _ _ _ => (Cut.refl _).andThen (fun _ next _ => cut_enclosed h next _ _ _)
      fun _ => .refl _)
    fun _ => .refl _

theorem cut_primary : (primary inner c).Cut (primary inner' c) :=
  (Cut.refl _).andThen (fun _ _ _ => .refl _) fun _ =>
    (Cut.refl _).andThen (fun _ next _ => cut_enclosed h next _ _ _)
      fun _ => cut_functionCall h _

theorem cut_unary : (unary inner c).Cut (unary inner' c) :=
  (Cut.refl _).andThen
    (fun _ next _ => (cut_primary h next).andThen (fun _ _ _ => .refl _) fun _ => .refl _)
    fun next => (cut_primary h next).andThen (fun _ _ _ => .refl _) fun _ => .refl _

end

/-- The induction is on what is left of the text. -/
theorem cut_tail {operand operand' : Reader (List Node)} (h : Cuts operand operand')
    (ops : List Operation) (c : Cursor) : (tail operand ops c).Cut (tail operand' ops c) := by
  rw [tail_eq, tail_eq]
  refine (Cut.refl _).andThen (fun op next hop => ?_) fun _ => .refl _
  refine (h next).andThen (fun nodes stop hnodes => ?_) fun _ => .refl _
  have hsign := Token.leaves_operator ops c _ _ hop
  have hright := operand'.progress _ _ _ hnodes
  exact (cut_tail h ops stop).map _
termination_by c.rest.length

theorem cut_sequence {operand operand' : Reader (List Node)} (h : Cuts operand operand')
    (rule : Rule) (ops : List Operation) (c : Cursor) :
    (sequence rule operand ops c).Cut (sequence rule operand' ops c) :=
  (h c.skipBlanks).andThen
    (fun _ next _ => (cut_tail h ops next).andThen (fun _ _ _ => .refl _) fun _ => .refl _)
    fun _ => .refl _

theorem cuts_expressionOver {inner inner' : Option (Reader Node)} (h : CutsInner inner inner') :
    Cuts (Reader.expressionOver inner) (Reader.expressionOver inner') := by
  have hterm : Cuts (Reader.termAlone inner) (Reader.termAlone inner') :=
    fun c => (cut_sequence (fun c => cut_unary h c) _ _ c).map _
  exact fun c => cut_sequence hterm _ _ c

theorem cuts_expression {room room' : Nat} (hroom : room ≤ room') :
    Cuts (Reader.expression room) (Reader.expression room') := by
  induction room generalizing room' with
  | zero =>
    cases room' with
    | zero => exact fun _ => .refl _
    | succ room' => exact cuts_expressionOver nofun
  | succ room ih =>
    obtain ⟨room', rfl⟩ := Nat.exists_eq_add_of_lt hroom
    refine cuts_expressionOver fun r hr => ⟨_, rfl, ?_⟩
    rw [← Option.some.inj hr]
    exact ih (by omega)

end Reading

/-! ## Recognizing with a lower limit -/

theorem recognize_eq_or_tooDeep {limit limit' : Int} (hlimit : limit ≤ limit') (t : Text) :
    recognize limit t = recognize limit' t ∨
      ∃ p, recognize limit t = .error (.tooDeep limit p) := by
  have hroom : limit.toNat ≤ limit'.toNat := Int.toNat_le_toNat hlimit
  unfold recognize Session.recognize
  dsimp only
  rcases Reading.cuts_expression hroom (Session.ofText t).cursor with heq | ⟨start, next, h⟩
  · rw [heq]
    generalize (Reader.expression limit'.toNat).read (Session.ofText t).cursor = reading
    obtain ⟨misses, outcome⟩ := reading
    cases outcome with
    | found expression next => exact .inl rfl
    | missing next => exact .inl rfl
    | tooDeep start next => exact .inr ⟨start, rfl⟩
  · rw [h]
    exact .inr ⟨start, rfl⟩

end Reckon
