/-
Asking a session again.

A call leaves a session in a place that depends on how it ends: after an
expression, after the parenthesis that was one too many, or before whatever is
no expression.  It never leaves the text, so it can be asked again from there.
-/
import Reckon.Proofs.Coverage
import Reckon.Proofs.Nesting

namespace Reckon

/-! ## Where nothing is found -/

namespace Reading

/-- A reading that finds nothing goes back to the given cursor. -/
def GivesBack (r : Reading α) (c : Cursor) : Prop :=
  ∀ next, r.outcome = .missing next → next = c

theorem givesBack_found (value : α) (next c : Cursor) : (found value next).GivesBack c := by
  rintro _ ⟨⟩

theorem givesBack_tooDeep (start : Nat) (next c : Cursor) :
    (tooDeep start next : Reading α).GivesBack c := by
  rintro _ ⟨⟩

theorem givesBack_missing (c : Cursor) : (missing c : Reading α).GivesBack c := by
  rintro _ ⟨⟩
  rfl

theorem GivesBack.after {r : Reading α} {c : Cursor} (h : r.GivesBack c) (ms : List Miss) :
    (r.after ms).GivesBack c :=
  h

theorem GivesBack.map {r : Reading α} {c : Cursor} (h : r.GivesBack c) (f : α → β) :
    (r.map f).GivesBack c := by
  obtain ⟨misses, outcome⟩ := r
  cases outcome with
  | found value next => rintro _ ⟨⟩
  | missing next =>
    rintro _ ⟨⟩
    exact h next rfl
  | tooDeep start next => rintro _ ⟨⟩

theorem givesBack_andThen {r : Reading α} {onFound : α → Cursor → Reading β}
    {onMissing : Cursor → Reading β} {c : Cursor}
    (hfound : ∀ value next, r.outcome = .found value next → (onFound value next).GivesBack c)
    (hmissing : ∀ next, r.outcome = .missing next → (onMissing next).GivesBack c) :
    (r.andThen onFound onMissing).GivesBack c := by
  unfold andThen
  split
  · next value next h => exact (hfound value next h).after _
  · next next h => exact (hmissing next h).after _
  · exact (givesBack_tooDeep _ _ c).after _

theorem givesBack_unary (inner : Option (Reader Node)) (c : Cursor) :
    (unary inner c).GivesBack c :=
  givesBack_andThen
    (fun _ _ _ => givesBack_andThen (fun _ _ _ => givesBack_found _ _ _)
      fun _ _ => givesBack_missing c)
    fun _ _ => givesBack_andThen (fun _ _ _ => givesBack_found _ _ _)
      fun _ _ => givesBack_missing c

/-- There is always a row of operators and operands, if only an empty one. -/
theorem givesBack_tail (operand : Reader (List Node)) (ops : List Operation) (c d : Cursor) :
    (tail operand ops c).GivesBack d := by
  rw [tail_eq]
  refine givesBack_andThen (fun op next hop => ?_) fun _ _ => givesBack_found _ _ _
  refine givesBack_andThen (fun nodes stop hnodes => ?_) fun _ _ => givesBack_found _ _ _
  have hsign := Token.leaves_operator ops c _ _ hop
  have hright := operand.progress _ _ _ hnodes
  exact (givesBack_tail operand ops stop d).map _
termination_by c.rest.length

theorem givesBack_sequence {rule : Rule} {operand : Reader (List Node)} {ops : List Operation}
    {c d : Cursor} (h : (operand.read c.skipBlanks).GivesBack d) :
    (sequence rule operand ops c).GivesBack d := by
  refine givesBack_andThen (fun nodes next _ => ?_) fun next hnext => ?_
  · exact givesBack_andThen (fun _ _ _ => givesBack_found _ _ _)
      fun e he => givesBack_tail operand ops next d e he ▸ givesBack_missing e
  · rw [h next hnext]
    exact givesBack_missing d

theorem sequence_skipBlanks (rule : Rule) (operand : Reader (List Node)) (ops : List Operation)
    (c : Cursor) : sequence rule operand ops c.skipBlanks = sequence rule operand ops c := by
  simp [sequence]

end Reading

namespace Reader

open Reading

theorem givesBack_expressionOver (inner : Option (Reader Node)) (c : Cursor) :
    ((expressionOver inner).read c).GivesBack c.skipBlanks := by
  have hunary : ((unary inner).read c.skipBlanks.skipBlanks).GivesBack c.skipBlanks := by
    rw [Cursor.skipBlanks_skipBlanks]
    exact givesBack_unary inner _
  exact givesBack_sequence ((givesBack_sequence hunary).map _)

theorem givesBack_expression (room : Nat) (c : Cursor) :
    ((expression room).read c).GivesBack c.skipBlanks := by
  cases room with
  | zero => exact givesBack_expressionOver _ c
  | succ room => exact givesBack_expressionOver _ c

theorem expression_skipBlanks (room : Nat) (c : Cursor) :
    (expression room).read c.skipBlanks = (expression room).read c := by
  cases room with
  | zero => exact sequence_skipBlanks _ _ _ c
  | succ room => exact sequence_skipBlanks _ _ _ c

end Reader

/-! ## One call -/

/-- The expression at the beginning of a text, read as far as it goes. -/
def Text.leading? (limit : Int) (t : Text) : Option Node :=
  match ((Reader.expression limit.toNat).read (.ofText t)).outcome with
  | .found e _ => some e
  | .missing _ => none
  | .tooDeep _ _ => none

namespace Session

/-- What a session reads when it is asked. -/
def reading (limit : Int) (s : Session) : Reading Node :=
  (Reader.expression limit.toNat).read s.cursor

variable {limit : Int} {s : Session} {e : Node} {d : Cursor}

theorem recognize_of_end (h : (s.reading limit).outcome = .found e d)
    (hrest : d.skipBlanks.rest = []) :
    s.recognize limit =
      (.ok { rule := .equation, text := s.text, start := 0, stop := s.text.length,
             children := [e] },
        { s with cursor := d.skipBlanks,
                 frontier := s.frontier.recordAll (s.reading limit).misses }) := by
  unfold reading at h
  simp [recognize, reading, h, hrest]

theorem recognize_of_more (h : (s.reading limit).outcome = .found e d)
    (hrest : d.skipBlanks.rest ≠ []) :
    s.recognize limit =
      let frontier := s.frontier.recordAll ((s.reading limit).misses ++ [d.miss .endOfInput])
      (.error (unexpected frontier), { s with cursor := d.skipBlanks, frontier }) := by
  unfold reading at h
  obtain ⟨x, rest, hx⟩ := List.exists_cons_of_ne_nil hrest
  simp [recognize, reading, h, hx, Frontier.recordAll_append, Cursor.miss]

theorem recognize_of_missing (h : (s.reading limit).outcome = .missing d) :
    s.recognize limit =
      let frontier := s.frontier.recordAll (s.reading limit).misses
      (.error (unexpected frontier), { s with cursor := s.cursor.skipBlanks, frontier }) := by
  obtain rfl := Reader.givesBack_expression _ _ d h
  unfold reading at h
  simp [recognize, reading, h]

theorem recognize_of_tooDeep {start : Nat} (h : (s.reading limit).outcome = .tooDeep start d) :
    s.recognize limit =
      (.error (.tooDeep limit start),
        { s with cursor := d, frontier := s.frontier.recordAll (s.reading limit).misses }) := by
  unfold reading at h
  simp [recognize, reading, h]

end Session

/-! ## Places in the text -/

section

variable {t : Text} {limit : Nat} {s q : Stage} {c d : Cursor} {xs : List Lexeme}

theorem Run.in_skipBlanks (h : Run limit s c xs q d) (hc : c.In t) : d.skipBlanks.In t := by
  induction h with
  | done hcd => exact hcd ▸ hc.skipBlanks
  | next hstep _ ih => exact ih (hc.takes hstep.takes)

/-- At the end of the text, or where no blank stands. -/
def Text.Stands (t : Text) (p : Nat) : Prop :=
  p ≤ t.length ∧ (p < t.length → t.SolidAt p)

theorem Cursor.In.stands (h : c.In t) : t.Stands c.skipBlanks.pos :=
  ⟨h.skipBlanks.pos_le, h.solidAt_skipBlanks⟩

theorem Tried.stands {m : Miss} (h : Tried limit s c m) (hc : c.In t) : t.Stands m.pos := by
  obtain ⟨_, _, e, hrun, hm, _⟩ := h
  have he := (hrun.in_skipBlanks hc).stands
  rw [Cursor.skipBlanks_skipBlanks] at he
  rw [hm]
  exact he

/-- The parenthesis that is one too many lies in the text, further on. -/
theorem Overrun.in_of_in {start : Nat} (h : Overrun limit s c start d) (hc : c.In t) :
    d.In t ∧ c.pos < d.pos := by
  obtain ⟨_, _, e, _, hrun, hopen, _⟩ := h.step
  have htakes := Cursor.takes_skipBlanks.mpr hopen.takes
  refine ⟨(hrun.in_skipBlanks hc).takes htakes, ?_⟩
  exact Nat.lt_of_le_of_lt (Nat.le_trans c.pos_le_pos_skipBlanks hrun.pos_le) hopen.pos_lt

end

namespace Session

/-- The session has got somewhere in the text. -/
structure In (s : Session) (t : Text) : Prop where
  text_eq : s.text = t
  cursor : s.cursor.In t
  furthest_le : s.frontier.furthest ≤ t.length

theorem in_ofText (t : Text) : (ofText t).In t :=
  ⟨rfl, Cursor.in_ofText t, Nat.zero_le _⟩

section

variable {limit : Int} {s : Session} {t : Text} {e : Node} {d : Cursor}

theorem verdict_reading (limit : Int) (s : Session) :
    Verdict limit.toNat .start s.cursor .finish (Part.row .expression).operators
      (fun v xs d => Spans limit.toNat (.row .expression) s.cursor [v] xs d) (s.reading limit) :=
  readsExpressions_expression limit.toNat limit.toNat 0 s.cursor (Nat.zero_add _)

theorem exists_spans_of_found (h : (s.reading limit).outcome = .found e d) :
    ∃ xs, Spans limit.toNat (.row .expression) s.cursor [e] xs d := by
  have hending := (verdict_reading limit s).ending
  rw [h] at hending
  cases hending with
  | found hspans _ _ => exact ⟨_, hspans⟩

theorem overrun_of_tooDeep {start : Nat} (h : (s.reading limit).outcome = .tooDeep start d) :
    Overrun limit.toNat .start s.cursor start d := by
  have hending := (verdict_reading limit s).ending
  rw [h] at hending
  cases hending with
  | tooDeep hover => exact hover

/-- Where there is no expression, something was looked for. -/
theorem misses_ne_nil_of_missing (h : (s.reading limit).outcome = .missing d) :
    (s.reading limit).misses ≠ [] := by
  have hending := (verdict_reading limit s).ending
  rw [h] at hending
  cases hending with
  | missing hstalled =>
    obtain ⟨_, q, _, _, hall⟩ := hstalled
    obtain ⟨l, hl⟩ := q.exists_expects
    exact List.ne_nil_of_mem (hall l hl)

theorem In.misses_le (h : s.In t) (limit : Int) :
    ∀ m ∈ (s.reading limit).misses, m.pos ≤ t.length :=
  fun m hm => (((verdict_reading limit s).tried m hm).stands h.cursor).1

theorem In.found (h : s.In t) (hfound : (s.reading limit).outcome = .found e d) :
    d.In t ∧ s.cursor.pos < d.pos := by
  obtain ⟨_, hspans⟩ := exists_spans_of_found hfound
  have hd := (hspans.laid h.cursor).2
  exact ⟨hd, h.cursor.pos_lt hd ((Reader.expression limit.toNat).progress _ _ _ hfound)⟩

theorem In.recordAll (h : s.In t) {ms : List Miss} (hms : ∀ m ∈ ms, m.pos ≤ t.length) :
    (s.frontier.recordAll ms).furthest ≤ t.length := by
  rcases Frontier.furthest_recordAll_eq s.frontier ms with heq | ⟨m, hm, heq⟩
  · exact heq ▸ h.furthest_le
  · exact heq ▸ hms m hm

/-- From a session to a later one of the same text. -/
structure Onward (t : Text) (s s' : Session) : Prop where
  within : s'.In t
  pos_le : s.cursor.pos ≤ s'.cursor.pos
  furthest_le : s.frontier.furthest ≤ s'.frontier.furthest

theorem In.onward (h : s.In t) {ms : List Miss} (hms : ∀ m ∈ ms, m.pos ≤ t.length)
    (hd : d.In t) (hpos : s.cursor.pos ≤ d.pos) :
    Onward t s { s with cursor := d, frontier := s.frontier.recordAll ms } :=
  ⟨⟨h.text_eq, hd, h.recordAll hms⟩, hpos, Frontier.furthest_le_recordAll _ _⟩

theorem In.recognize (h : s.In t) (limit : Int) : Onward t s (s.recognize limit).2 := by
  have hms := h.misses_le limit
  cases houtcome : (s.reading limit).outcome with
  | found e d =>
    obtain ⟨hd, hlt⟩ := h.found houtcome
    have hpos := Nat.le_trans (Nat.le_of_lt hlt) d.pos_le_pos_skipBlanks
    by_cases hrest : d.skipBlanks.rest = []
    · rw [recognize_of_end houtcome hrest]
      exact h.onward hms hd.skipBlanks hpos
    · rw [recognize_of_more houtcome hrest]
      refine h.onward (fun m hm => ?_) hd.skipBlanks hpos
      rcases List.mem_append.mp hm with hm | hm
      · exact hms m hm
      · exact List.mem_singleton.mp hm ▸ hd.skipBlanks.pos_le
  | missing d =>
    rw [recognize_of_missing houtcome]
    exact h.onward hms h.cursor.skipBlanks s.cursor.pos_le_pos_skipBlanks
  | tooDeep start d =>
    obtain ⟨hd, hlt⟩ := (overrun_of_tooDeep houtcome).in_of_in h.cursor
    rw [recognize_of_tooDeep houtcome]
    exact h.onward hms hd (Nat.le_of_lt hlt)

end

/-! ## One call after another -/

/-- The session that has read a text for so many calls. -/
def later (limit : Int) (t : Text) : Nat → Session
  | 0 => ofText t
  | n + 1 => ((later limit t n).recognize limit).2

/-- What the call comes to that follows so many others. -/
def answer (limit : Int) (t : Text) (n : Nat) : Except Fault Node :=
  ((later limit t n).recognize limit).1

section

variable (limit : Int) (t : Text)

theorem getElem?_answers_later {m times : Nat} (h : m < times) (n : Nat) :
    (answers limit times (later limit t n))[m]? = some (answer limit t (n + m)) := by
  induction times generalizing m n with
  | zero => omega
  | succ times ih =>
    rw [answers]
    cases m with
    | zero => rfl
    | succ m =>
      rw [List.getElem?_cons_succ, show n + (m + 1) = n + 1 + m by omega]
      exact ih (by omega) (n + 1)

/-- The answers of a session that is asked several times. -/
theorem getElem?_answers {n times : Nat} (h : n < times) :
    (answers limit times (ofText t))[n]? = some (answer limit t n) :=
  (getElem?_answers_later limit t h 0).trans (by rw [Nat.zero_add])

theorem in_later (n : Nat) : (later limit t n).In t := by
  induction n with
  | zero => exact in_ofText t
  | succ n ih => exact (ih.recognize limit).within

theorem onward_later {m n : Nat} (h : m ≤ n) : Onward t (later limit t m) (later limit t n) := by
  induction n, h using Nat.le_induction with
  | base => exact ⟨in_later limit t m, Nat.le_refl _, Nat.le_refl _⟩
  | succ n _ ih =>
    have hstep := (in_later limit t n).recognize limit
    exact ⟨hstep.within, Nat.le_trans ih.pos_le hstep.pos_le,
      Nat.le_trans ih.furthest_le hstep.furthest_le⟩

end

end Session

end Reckon
