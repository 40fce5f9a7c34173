/-
Where a walk ends.

Whatever a walk of a construct comes to, the depth is what it was and the
frontier has not gone back.  What is found is at least a character long, lies in
the text and ends where the walk ends.  Where nothing is found the walk has
gone back to where it began, or to the first character there that is no blank.
All this holds at every depth and for every limit, and the number of calls that
is enough depends on the text alone.
-/
import Reckon.Proofs.Frontiers
import Reckon.Proofs.Walk

namespace Reckon

/-! ## What is found -/

namespace Reading

/-- Whatever the reading finds is as said. -/
def Finds (r : Reading α) (P : α → Cursor → Prop) : Prop :=
  ∀ value next, r.outcome = .found value next → P value next

section

variable {P : α → Cursor → Prop} {Q : β → Cursor → Prop} {r : Reading α}

theorem finds_found {value : α} {next : Cursor} (h : P value next) :
    (found value next).Finds P := by
  rintro _ _ ⟨⟩
  exact h

theorem finds_missing (next : Cursor) : (missing next).Finds P := by
  rintro _ _ ⟨⟩

theorem finds_tooDeep (start : Nat) (next : Cursor) : (tooDeep start next).Finds P := by
  rintro _ _ ⟨⟩

theorem Finds.after (h : r.Finds P) (ms : List Miss) : (r.after ms).Finds P :=
  h

theorem finds_andThen {onFound : α → Cursor → Reading β} {onMissing : Cursor → Reading β}
    (hfound : ∀ value next, r.outcome = .found value next → (onFound value next).Finds Q)
    (hmissing : ∀ next, r.outcome = .missing next → (onMissing next).Finds Q) :
    (r.andThen onFound onMissing).Finds Q := by
  unfold andThen
  split
  · next value next hr => exact (hfound value next hr).after _
  · next next hr => exact (hmissing next hr).after _
  · exact (finds_tooDeep _ _).after _

theorem Finds.map {f : α → β} (h : r.Finds fun value next => Q (f value) next) :
    (r.map f).Finds Q := by
  rw [map_eq_andThen]
  exact finds_andThen (fun _ _ hr => finds_found (h _ _ hr)) fun next _ => finds_missing next

end

end Reading

/-- The cursor stands in the text, just after the node. -/
def Node.EndsAt (t : Text) (n : Node) (c : Cursor) : Prop :=
  c.In t ∧ n.stop = c.pos

def Node.LastEndsAt (t : Text) (ns : List Node) (c : Cursor) : Prop :=
  c.In t ∧ ∃ n, ns.getLast? = some n ∧ n.stop = c.pos

/-! ## Tokens in a text -/

section

variable {t : Text} {c : Cursor}

namespace Token

theorem finds_fixed {spelling : Text} {label : Label} (h : ∀ s, label.Spells s ↔ s = spelling)
    (hc : c.In t) : (fixed spelling label c).Finds fun _ next => next.In t := by
  rcases fixed_cases h c with ⟨d, htakes, heq⟩ | ⟨_, heq⟩
  · rw [heq]
    exact Reading.finds_found (hc.takes htakes)
  · rw [heq]
    exact (Reading.finds_missing _).after _

theorem finds_operator (ops : List Operation) (hc : c.In t) :
    (operator ops c).Finds fun _ next => next.In t := by
  rcases operator_cases ops c with ⟨_, _, _, _, d, _, htakes, _, heq⟩ | ⟨_, heq⟩
  · rw [heq]
    exact (Reading.finds_found (hc.takes htakes)).after _
  · rw [heq]
    exact (Reading.finds_missing _).after _

theorem finds_number (hc : c.In t) : (number c.skipBlanks).Finds (Node.EndsAt t) := by
  rcases number_cases c with ⟨_, _, d, htakes, _, heq⟩ | ⟨_, heq⟩
  · rw [heq]
    exact Reading.finds_found ⟨hc.takes htakes, rfl⟩
  · rw [heq]
    exact (Reading.finds_missing _).after _

theorem finds_functionName (hc : c.In t) :
    (functionName c.skipBlanks).Finds fun _ next => next.In t := by
  rcases functionName_cases c with ⟨_, d, htakes, _, heq⟩ | ⟨_, heq⟩
  · rw [heq]
    exact Reading.finds_found (hc.takes htakes)
  · rw [heq]
    exact (Reading.finds_missing _).after _

end Token

/-! ## Constructs in a text -/

/-- The reader stays in the text. -/
def Reader.Stays (t : Text) (r : Reader α) : Prop :=
  ∀ c : Cursor, c.In t → (r.read c).Finds fun _ next => next.In t

namespace Reading

variable {inner : Option (Reader Node)}

theorem finds_enclosed (hinner : ∀ r ∈ inner, r.Stays t) (rule : Rule) (start : Cursor)
    (before : List Node) (hc : c.In t) :
    (enclosed inner rule start before c).Finds (Node.EndsAt t) := by
  cases inner with
  | none => exact finds_tooDeep _ _
  | some r =>
    refine finds_andThen (fun body next hbody => ?_) fun _ _ => finds_missing _
    have hnext := hinner r rfl c hc _ _ hbody
    refine finds_andThen (fun _ stop hclose => ?_) fun _ _ => finds_missing _
    exact finds_found ⟨Token.finds_fixed Label.spells_closeParen hnext _ _ hclose, rfl⟩

theorem finds_functionCall (hinner : ∀ r ∈ inner, r.Stays t) (hc : c.In t) :
    (functionCall inner c).Finds (Node.EndsAt t) := by
  refine finds_andThen (fun name next hname => ?_) fun _ _ => finds_missing _
  have hnext := Token.finds_functionName hc _ _ hname
  refine finds_andThen (fun _ stop hopen => ?_) fun _ _ => finds_missing _
  exact finds_enclosed hinner _ _ _ (Token.finds_fixed Label.spells_openParen hnext _ _ hopen)

theorem finds_primary (hinner : ∀ r ∈ inner, r.Stays t) (hc : c.In t) :
    (primary inner c).Finds (Node.EndsAt t) := by
  refine finds_andThen (fun _ _ hnumber => ?_) fun _ _ => finds_andThen (fun _ stop hopen => ?_)
    fun _ _ => finds_functionCall hinner hc.skipBlanks
  · exact finds_found (Token.finds_number hc _ _ hnumber)
  · have hstop := Token.finds_fixed Label.spells_openParen hc.skipBlanks _ _ hopen
    exact finds_enclosed hinner _ _ _ hstop

theorem finds_unary (hinner : ∀ r ∈ inner, r.Stays t) (hc : c.In t) :
    (unary inner c).Finds (Node.LastEndsAt t) := by
  refine finds_andThen (fun start next hminus => ?_) fun next hnext => ?_
  · have hnext := Token.finds_fixed Label.spells_unaryMinus hc _ _ hminus
    refine finds_andThen (fun operand stop hoperand => ?_) fun _ _ => finds_missing _
    obtain ⟨hstop, hends⟩ := finds_primary hinner hnext _ _ hoperand
    exact finds_found ⟨hstop, operand, rfl, hends⟩
  · obtain rfl := Token.givesBack_fixed _ _ _ _ hnext
    refine finds_andThen (fun operand stop hoperand => ?_) fun _ _ => finds_missing _
    obtain ⟨hstop, hends⟩ := finds_primary hinner hc.skipBlanks _ _ hoperand
    exact finds_found ⟨hstop, operand, rfl, hends⟩

theorem finds_tail {operand : Reader (List Node)} (hoperand : operand.Stays t)
    (ops : List Operation) {c : Cursor} (hc : c.In t) :
    (tail operand ops c).Finds fun _ next => next.In t := by
  rw [tail_eq]
  refine finds_andThen (fun op next hop => ?_) fun _ _ => finds_found hc
  have hnext := Token.finds_operator ops hc _ _ hop
  refine finds_andThen (fun nodes stop hnodes => ?_) fun _ _ => finds_found hc
  have hsign := Token.leaves_operator ops c _ _ hop
  have hright := operand.progress _ _ _ hnodes
  exact (finds_tail hoperand ops (hoperand next hnext _ _ hnodes)).map
termination_by c.rest.length

theorem finds_sequence {operand : Reader (List Node)} (hoperand : operand.Stays t) (rule : Rule)
    (ops : List Operation) (hc : c.In t) :
    (sequence rule operand ops c).Finds (Node.EndsAt t) := by
  refine finds_andThen (fun nodes next hnodes => ?_) fun _ _ => finds_missing _
  have hnext := hoperand _ hc.skipBlanks _ _ hnodes
  refine finds_andThen (fun more stop hmore => ?_) fun _ _ => finds_missing _
  exact finds_found ⟨finds_tail hoperand ops hnext _ _ hmore, rfl⟩

theorem Finds.last {r : Reading Node} (h : r.Finds (Node.EndsAt t)) :
    (r.map fun node => [node]).Finds (Node.LastEndsAt t) :=
  Finds.map fun node next hr => ⟨(h node next hr).1, node, rfl, (h node next hr).2⟩

/-! ### Going back -/

theorem givesBack_enclosed (inner : Option (Reader Node)) (rule : Rule) (start : Cursor)
    (before : List Node) (c : Cursor) : (enclosed inner rule start before c).GivesBack start := by
  cases inner with
  | none => exact givesBack_tooDeep _ _ _
  | some r =>
    refine givesBack_andThen (fun body next _ => ?_) fun _ _ => givesBack_missing start
    exact givesBack_andThen (fun _ _ _ => givesBack_found _ _ _) fun _ _ => givesBack_missing start

theorem givesBack_functionCall (inner : Option (Reader Node)) (c : Cursor) :
    (functionCall inner c).GivesBack c.skipBlanks := by
  refine givesBack_andThen (fun name next _ => ?_) fun next hname => ?_
  · exact givesBack_andThen (fun _ _ _ => givesBack_enclosed _ _ _ _ _)
      fun _ _ => givesBack_missing _
  · rw [Token.givesBack_functionName _ _ hname]
    exact givesBack_missing _

theorem givesBack_primary (inner : Option (Reader Node)) (c : Cursor) :
    (primary inner c).GivesBack c.skipBlanks := by
  refine givesBack_andThen (fun _ _ _ => givesBack_found _ _ _) fun _ _ => ?_
  refine givesBack_andThen (fun _ _ _ => givesBack_enclosed _ _ _ _ _) fun _ _ => ?_
  rw [functionCall_skipBlanks]
  exact givesBack_functionCall inner c

end Reading

namespace Reader

variable {inner : Option (Reader Node)}

theorem stays_unary (hinner : ∀ r ∈ inner, r.Stays t) : (unary inner).Stays t :=
  fun _ hc ns next h => (Reading.finds_unary hinner hc ns next h).1

theorem stays_termAlone (hinner : ∀ r ∈ inner, r.Stays t) : (termAlone inner).Stays t :=
  fun _ hc ns next h =>
    ((Reading.finds_sequence (stays_unary hinner) _ _ hc).last ns next h).1

theorem stays_expressionOver (hinner : ∀ r ∈ inner, r.Stays t) : (expressionOver inner).Stays t :=
  fun _ hc n next h => (Reading.finds_sequence (stays_termAlone hinner) _ _ hc n next h).1

theorem stays_expression (t : Text) (room : Nat) : (expression room).Stays t := by
  induction room with
  | zero =>
    rw [expression_zero]
    exact stays_expressionOver nofun
  | succ room ih =>
    rw [expression_succ]
    refine stays_expressionOver fun r hr => ?_
    rw [← Option.mem_some_iff.mp hr]
    exact ih

end Reader

end

namespace Walk

theorem stays_innerAt (t : Text) (limit depth : Int) : ∀ r ∈ innerAt limit depth, r.Stays t := by
  intro r hr
  unfold innerAt at hr
  split at hr
  · cases hr
  · rw [← Option.mem_some_iff.mp hr]
    exact Reader.stays_expression t _

/-! ## Procedures -/

namespace Procedure

/-- What the grammar has a name for. -/
def constructs : List Procedure :=
  [.part (.row .expression), .part (.row .term), .part .unary, .part .primary, .functionCall]

theorem mem_constructs {p : Procedure} : p ∈ constructs ↔
    p = .part (.row .expression) ∨ p = .part (.row .term) ∨ p = .part .unary ∨
      p = .part .primary ∨ p = .functionCall := by
  simp [constructs]

/-- Where the walk is if there is nothing to find. -/
def origin : Procedure → Cursor → Cursor
  | .part .unary, c => c
  | _, c => c.skipBlanks

section

variable {p : Procedure} {inner : Option (Reader Node)} {t : Text} {c : Cursor}

theorem finds_reading (hp : p ∈ constructs) (hinner : ∀ r ∈ inner, r.Stays t) (hc : c.In t) :
    (p.reading inner c).Finds (Node.LastEndsAt t) := by
  rcases mem_constructs.mp hp with rfl | rfl | rfl | rfl | rfl
  · exact (Reading.finds_sequence (Reader.stays_termAlone hinner) _ _ hc).last
  · exact (Reading.finds_sequence (Reader.stays_unary hinner) _ _ hc).last
  · exact Reading.finds_unary hinner hc
  · exact (Reading.finds_primary hinner hc).last
  · exact (Reading.finds_functionCall hinner hc).last

theorem leaves_reading (hp : p ∈ constructs) (inner : Option (Reader Node)) (c : Cursor) :
    (p.reading inner c).Leaves c.rest.length := by
  rcases mem_constructs.mp hp with rfl | rfl | rfl | rfl | rfl
  · exact (Reading.leaves_sequence _ _ _ _).map _
  · exact (Reading.leaves_sequence _ _ _ _).map _
  · exact Reading.leaves_unary _ _
  · exact (Reading.leaves_primary _ _).map _
  · exact (Reading.leaves_functionCall _ _).map _

theorem givesBack_reading (hp : p ∈ constructs) (inner : Option (Reader Node)) (c : Cursor) :
    (p.reading inner c).GivesBack (p.origin c) := by
  have hterm : (Reading.sequence .term (.unary inner) Operation.multiplicative
      c.skipBlanks).GivesBack c.skipBlanks := by
    refine Reading.givesBack_sequence ?_
    rw [Cursor.skipBlanks_skipBlanks]
    exact Reading.givesBack_unary inner _
  rcases mem_constructs.mp hp with rfl | rfl | rfl | rfl | rfl
  · exact (Reader.givesBack_expressionOver inner c).map _
  · rw [Reading.sequence_skipBlanks] at hterm
    exact hterm.map _
  · exact Reading.givesBack_unary inner c
  · exact (Reading.givesBack_primary inner c).map _
  · exact (Reading.givesBack_functionCall inner c).map _

end

end Procedure

/-! ## The discipline of a walk -/

/-- What holds of every walk of a construct in a text, from one state to another. -/
structure Disciplined (t : Text) (p : Procedure) (σ : State) (exit : Exit (List Node))
    (τ : State) : Prop where
  depth_eq : τ.depth = σ.depth
  furthest_le : σ.frontier.furthest ≤ τ.frontier.furthest
  found : ∀ ns, exit = .found ns →
    σ.cursor.pos < τ.cursor.pos ∧ τ.cursor.In t ∧ ∃ n, ns.getLast? = some n ∧ n.stop = τ.cursor.pos
  missing : exit = .missing → τ.cursor = p.origin σ.cursor

section

variable {t : Text} {p : Procedure} {σ : State}

theorem disciplined_after (hp : p ∈ Procedure.constructs) (hσ : σ.cursor.In t) (limit : Int) :
    Disciplined t p σ (p.reading (innerAt limit σ.depth) σ.cursor).outcome.exit
      (σ.after (p.reading (innerAt limit σ.depth) σ.cursor)) where
  depth_eq := rfl
  furthest_le := Frontier.furthest_le_recordAll _ _
  found ns h := by
    have hfound := Outcome.eq_of_exit_found h
    obtain ⟨hin, hlast⟩ := Procedure.finds_reading hp (stays_innerAt t limit σ.depth) hσ _ _ hfound
    have hless := Procedure.leaves_reading hp _ _ _ _ hfound
    exact ⟨hσ.pos_lt hin hless, hin, hlast⟩
  missing h := Procedure.givesBack_reading hp _ _ _ (Outcome.eq_of_exit_missing h)

theorem level_le_of_mem_constructs (hp : p ∈ Procedure.constructs) : p.level ≤ 4 := by
  rcases Procedure.mem_constructs.mp hp with rfl | rfl | rfl | rfl | rfl <;> decide

theorem gives_of_mem_constructs (hp : p ∈ Procedure.constructs) (hσ : σ.cursor.In t) (limit : Int)
    {calls : Nat} (hcalls : 6 * t.length + 4 < calls) :
    (run limit calls p).Gives σ (p.reading (innerAt limit σ.depth) σ.cursor) := by
  have hrest := hσ.length_rest_le
  have hlevel := level_le_of_mem_constructs hp
  exact suffices_run limit calls p σ (by omega)

theorem exists_disciplined (hp : p ∈ Procedure.constructs) (hσ : σ.cursor.In t) (limit : Int)
    {calls : Nat} (hcalls : 6 * t.length + 4 < calls) :
    ∃ exit τ, run limit calls p σ = some (exit, τ) ∧ Disciplined t p σ exit τ :=
  ⟨_, _, gives_of_mem_constructs hp hσ limit hcalls, disciplined_after hp hσ limit⟩

/-- However a call of a recognizer ends, with a tree, with a syntax error or in a
parenthesis that is too deep, it gives back the depth that it began at. -/
theorem recognize_disciplined (hσ : σ.cursor.In t) (limit : Int) (u : Text) {calls : Nat}
    (hcalls : 6 * t.length + 4 < calls) :
    ∃ outcome τ, recognize limit calls u σ = some (outcome, τ) ∧ τ.depth = σ.depth ∧
      σ.frontier.furthest ≤ τ.frontier.furthest := by
  obtain ⟨exit, τ, hrun, hdiscipline⟩ :=
    exists_disciplined (Procedure.mem_constructs.mpr (.inl rfl)) hσ limit hcalls
  have hdepth := hdiscipline.depth_eq
  have hfurthest := hdiscipline.furthest_le
  unfold recognize
  rw [hrun]
  cases exit with
  | found children =>
    dsimp only
    split
    · exact ⟨_, _, rfl, hdepth, hfurthest⟩
    · have hrecord := Frontier.furthest_le_recordAll τ.frontier
        [{ pos := τ.cursor.skipBlanks.pos, label := .endOfInput }]
      exact ⟨_, _, rfl, hdepth, Nat.le_trans hfurthest hrecord⟩
  | missing => exact ⟨_, _, rfl, hdepth, hfurthest⟩
  | tooDeep start => exact ⟨_, _, rfl, hdepth, hfurthest⟩

/-- An operator and its operand take two characters at least. -/
theorem two_le_of_operand {limit : Int} {calls : Nat} {l : Layer} {τ τ' : State} {op : Node}
    {ns : List Node} (hcalls : 6 * t.length + 4 < calls) (hσ : σ.cursor.In t)
    (hsign : token (Token.operator l.operators) σ = some (.found op, τ))
    (hright : run limit calls (.part l.operand) τ = some (.found ns, τ')) :
    σ.cursor.pos + 2 ≤ τ'.cursor.pos ∧ τ'.cursor.In t := by
  obtain ⟨hexit, hτ⟩ := Prod.mk.inj (Option.some.inj hsign)
  have hfound := Outcome.eq_of_exit_found hexit
  have hin : τ.cursor.In t := hτ ▸ Token.finds_operator l.operators hσ _ _ hfound
  have hless : τ.cursor.rest.length < σ.cursor.rest.length :=
    hτ ▸ Token.leaves_operator l.operators σ.cursor _ _ hfound
  have hp : Procedure.part l.operand ∈ Procedure.constructs := by
    cases l <;> simp [Procedure.mem_constructs, Layer.operand]
  have hgives := gives_of_mem_constructs hp hin limit hcalls
  obtain ⟨hexit', rfl⟩ := Prod.mk.inj (Option.some.inj (hgives.symm.trans hright))
  obtain ⟨hlt, hin', _⟩ := (disciplined_after hp hin limit).found ns hexit'
  have hlt' := hσ.pos_lt hin hless
  exact ⟨Nat.lt_of_le_of_lt hlt' hlt, hin'⟩

end

/-- A walk of a construct from a place in a text ends, at whatever depth and with
whatever limit, and keeps its discipline.  Where a row goes on, it takes two
characters more at least.  So a call of a recognizer ends at any depth, and gives
the depth back, and the text alone says how many calls inside one another are
enough.  At depth 0 it is a call of a session. -/
theorem walk_disciplined (limit : Int) (t : Text) :
    (∀ p ∈ Procedure.constructs, ∀ σ : State, σ.cursor.In t → ∃ exit τ,
      (∀ calls, 6 * t.length + 4 < calls → run limit calls p σ = some (exit, τ)) ∧
      exit = (p.reading (innerAt limit σ.depth) σ.cursor).outcome.exit ∧
      τ = σ.after (p.reading (innerAt limit σ.depth) σ.cursor) ∧
      Disciplined t p σ exit τ) ∧
    (∀ (l : Layer) (σ τ τ' : State) (op : Node) (ns : List Node) (calls : Nat),
      6 * t.length + 4 < calls → σ.cursor.In t →
      token (Token.operator l.operators) σ = some (.found op, τ) →
      run limit calls (.part l.operand) τ = some (.found ns, τ') →
      σ.cursor.pos + 2 ≤ τ'.cursor.pos ∧ τ'.cursor.In t) ∧
    ∀ (s : Session) (depth : Int) (calls : Nat), s.cursor.In t → 6 * t.length + 4 < calls →
      (∃ outcome τ, recognize limit calls s.text (.ofSession s depth) = some (outcome, τ) ∧
        τ.depth = depth ∧ s.frontier.furthest ≤ τ.frontier.furthest) ∧
      recognize limit calls s.text (.ofSession s 0) =
        some ((s.recognize limit).1, .ofSession (s.recognize limit).2 0) := by
  refine ⟨fun p hp σ hσ => ⟨_, _, fun calls hcalls => gives_of_mem_constructs hp hσ limit hcalls,
    rfl, rfl, disciplined_after hp hσ limit⟩, fun l σ τ τ' op ns calls hcalls hσ hsign hright =>
    two_le_of_operand hcalls hσ hsign hright, fun s depth calls hs hcalls =>
    ⟨recognize_disciplined (σ := .ofSession s depth) hs limit s.text hcalls, recognize_eq ?_⟩⟩
  have hrest := hs.length_rest_le
  omega

/-- Before `2*3*(`, inside three parentheses. -/
def insideThree : State :=
  { cursor := Cursor.ofText ['2', '*', '3', '*', '('], depth := 3, frontier := Frontier.empty }

/-- The first sign of `2*3*(` is taken with what follows it.  The second is given
back, after it was looked behind it. -/
theorem walk_disciplined_insideThree :
    (∃ n τ, (∀ calls, 34 < calls →
        run 4 calls (.part (.row .term)) insideThree = some (.found [n], τ)) ∧
      n.stop = 3 ∧ τ.cursor.pos = 3 ∧ τ.depth = 3 ∧ τ.frontier.furthest = 5) ∧
    (∃ op ns τ τ', token (Token.operator Operation.multiplicative)
        { insideThree with cursor := ⟨1, ['*', '3', '*', '(']⟩ } = some (.found op, τ) ∧
      run 4 35 (.part .unary) τ = some (.found ns, τ') ∧ 1 + 2 ≤ τ'.cursor.pos) ∧
    (∃ outcome τ, recognize 4 35 ['2', '*', '3', '*', '('] insideThree = some (outcome, τ) ∧
      τ.depth = 3) ∧
    recognize 4 35 ['2', '*', '3', '*', '('] { insideThree with depth := 0 } =
      some (((Session.ofText ['2', '*', '3', '*', '(']).recognize 4).1,
        .ofSession ((Session.ofText ['2', '*', '3', '*', '(']).recognize 4).2 0) := by
  obtain ⟨hwalk, hloop, hsession⟩ := walk_disciplined 4 ['2', '*', '3', '*', '(']
  obtain ⟨⟨outcome, τ, hcall, hdepth, _⟩, houtset⟩ :=
    hsession (Session.ofText ['2', '*', '3', '*', '(']) 3 35 (Cursor.in_ofText _) (by decide)
  refine ⟨?_, ?_, ⟨outcome, τ, hcall, hdepth⟩, houtset⟩
  · obtain ⟨exit, τ, hrun, _, _, hdiscipline⟩ := hwalk (.part (.row .term))
      (by simp [Procedure.mem_constructs]) insideThree (Cursor.in_ofText _)
    have hvalue : run 4 35 (.part (.row .term)) insideThree =
        some (.found [⟨.term, ['2', '*', '3'], 0, 3, [⟨.number, ['2'], 0, 1, []⟩,
          ⟨.operator .multiply, ['*'], 1, 2, []⟩, ⟨.number, ['3'], 2, 3, []⟩]⟩],
          ⟨⟨3, ['*', '(']⟩, 3, ⟨5, [.functionName, .openParen, .number, .unaryMinus]⟩⟩) := by
      cbv
    obtain ⟨rfl, rfl⟩ := Prod.mk.inj (Option.some.inj ((hrun 35 (by decide)).symm.trans hvalue))
    obtain ⟨_, _, m, hm, hstop⟩ := hdiscipline.found _ rfl
    obtain rfl := Option.some.inj hm
    exact ⟨_, _, hrun, hstop, rfl, hdiscipline.depth_eq, rfl⟩
  · have hsign : token (Token.operator Operation.multiplicative)
        { insideThree with cursor := ⟨1, ['*', '3', '*', '(']⟩ } =
        some (.found ⟨.operator .multiply, ['*'], 1, 2, []⟩,
          ⟨⟨2, ['3', '*', '(']⟩, 3, Frontier.empty⟩) := by
      cbv
    have hright : run 4 35 (.part .unary) ⟨⟨2, ['3', '*', '(']⟩, 3, Frontier.empty⟩ =
        some (.found [⟨.number, ['3'], 2, 3, []⟩],
          ⟨⟨3, ['*', '(']⟩, 3, ⟨2, [.unaryMinus]⟩⟩) := by
      cbv
    have hin : Cursor.In ⟨1, ['*', '3', '*', '(']⟩ ['2', '*', '3', '*', '('] := ⟨rfl, by decide⟩
    exact ⟨_, _, _, _, hsign, hright, (hloop .term _ _ _ _ _ 35 (by decide) hin hsign hright).1⟩

end Walk

end Reckon
