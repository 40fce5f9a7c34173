/-
Reading with a state.

A reader is told how many more levels of parentheses there may be.  The same is
done here with a state: a cursor that moves and is moved back, a depth that goes
up before an expression in parentheses and down after it, whatever came of it,
and a frontier.  A walk is also told how many of its calls may be inside one
another, and has no answer if there are more.

A walk from a state comes to what the reader for the levels that are left there
comes to.  At most six calls are inside one another before a character is read,
so six for each character that is left and six more are enough.
-/
import Reckon.Proofs.Calls

namespace Reckon

/-! ## Tokens that are missing -/

namespace Token

open Reading

theorem givesBack_fixed (spelling : Text) (label : Label) (c : Cursor) :
    (fixed spelling label c).GivesBack c.skipBlanks := by
  unfold fixed
  dsimp only
  split
  · exact givesBack_found _ _ _
  · exact (givesBack_missing _).after _

theorem givesBack_number (start : Cursor) : (number start).GivesBack start := by
  unfold number
  split
  · exact (givesBack_missing _).after _
  · exact givesBack_found _ _ _

theorem givesBack_functionName (start : Cursor) : (functionName start).GivesBack start := by
  unfold functionName
  split
  · exact givesBack_found _ _ _
  · exact (givesBack_missing _).after _

end Token

/-! ## Readings of something else -/

namespace Reading

theorem map_id (r : Reading α) : r.map id = r := by
  obtain ⟨misses, outcome⟩ := r
  cases outcome <;> rfl

theorem map_andThen (r : Reading α) (f : β → γ) (onFound : α → Cursor → Reading β)
    (onMissing : Cursor → Reading β) :
    (r.andThen onFound onMissing).map f =
      r.andThen (fun value next => (onFound value next).map f)
        (fun next => (onMissing next).map f) := by
  obtain ⟨misses, outcome⟩ := r
  cases outcome <;> rfl

theorem map_eq_andThen (r : Reading α) (f : α → β) :
    r.map f = r.andThen (fun value next => found (f value) next) missing := by
  obtain ⟨misses, outcome⟩ := r
  cases outcome <;> simp [map, andThen, after, found, missing, tooDeep, Outcome.map]

end Reading

/-! ## Walks -/

structure Walk.State where
  cursor : Cursor
  depth : Int
  frontier : Frontier

inductive Walk.Exit (α : Type) where
  | found (value : α)
  | missing
  | tooDeep (start : Nat)

/-- From a state to an exit and the state there, or to no answer. -/
abbrev Walk (α : Type) := Walk.State → Option (Walk.Exit α × Walk.State)

namespace Walk

def found (value : α) : Walk α := fun σ => some (.found value, σ)

def missing : Walk α := fun σ => some (.missing, σ)

/-- A construct that lies too deep ends the whole walk. -/
def andThen (w : Walk α) (onFound : α → Walk β) (onMissing : Walk β) : Walk β := fun σ =>
  match w σ with
  | none => none
  | some (.found value, σ) => onFound value σ
  | some (.missing, σ) => onMissing σ
  | some (.tooDeep start, σ) => some (.tooDeep start, σ)

/-- A walk that depends on where it begins. -/
def here (w : Cursor → Walk α) : Walk α := fun σ => w σ.cursor σ

/-- A walk that begins at a given place. -/
def back (c : Cursor) (w : Walk α) : Walk α := fun σ => w { σ with cursor := c }

/-- A walk that begins after blanks, and depends on where that is. -/
def skipping (w : Cursor → Walk α) : Walk α :=
  here fun c => back c.skipBlanks (w c.skipBlanks)

/-- A walk inside the parenthesis of the construct that begins at `start`.  On
every way out of it the depth goes down again. -/
def inside (limit : Int) (start : Cursor) (w : Walk α) : Walk α := fun σ =>
  if limit ≤ σ.depth then some (.tooDeep start.pos, σ)
  else
    (w { σ with depth := σ.depth + 1 }).map fun (exit, σ) =>
      (exit, { σ with depth := σ.depth - 1 })

end Walk

@[simp] def Outcome.exit : Outcome α → Walk.Exit α
  | .found value _ => .found value
  | .missing _ => .missing
  | .tooDeep start _ => .tooDeep start

@[simp] def Outcome.cursor : Outcome α → Cursor
  | .found _ next => next
  | .missing next => next
  | .tooDeep _ next => next

theorem Outcome.eq_of_exit_found {o : Outcome α} {value : α} (h : o.exit = .found value) :
    o = .found value o.cursor := by
  cases o <;> cases h
  rfl

theorem Outcome.eq_of_exit_missing {o : Outcome α} (h : o.exit = .missing) :
    o = .missing o.cursor := by
  cases o <;> cases h
  rfl

namespace Walk

/-- The state after a reading. -/
def State.after (σ : State) (r : Reading α) : State :=
  { σ with cursor := r.outcome.cursor, frontier := σ.frontier.recordAll r.misses }

/-- A token is read where the walk is. -/
def token (read : Cursor → Reading α) : Walk α := fun σ =>
  some ((read σ.cursor).outcome.exit, σ.after (read σ.cursor))

/-- What there is a walk for: the parts of the grammar, function calls, and what
follows the opening parenthesis of a construct. -/
inductive Procedure where
  | part (p : Part)
  | functionCall
  | enclosed (rule : Rule) (start : Cursor) (before : List Node)

/-- The walk of a procedure, with at most `calls` calls inside one another. -/
def run (limit : Int) : (calls : Nat) → Procedure → Walk (List Node)
  | 0, _ => fun _ => none
  | calls + 1, .part (.row l) =>
    skipping fun start =>
      (run limit calls (.part l.operand)).andThen
        (fun nodes =>
          (run limit calls (.part (.tail l))).andThen
            (fun more => here fun stop => found [start.node l.rule stop (nodes ++ more)])
            missing)
        missing
  | calls + 1, .part (.tail l) =>
    here fun checkpoint =>
      (token (Token.operator l.operators)).andThen
        (fun op =>
          (run limit calls (.part l.operand)).andThen
            (fun nodes =>
              (run limit calls (.part (.tail l))).andThen
                (fun more => found (op :: nodes ++ more))
                missing)
            (back checkpoint (found [])))
        (back checkpoint (found []))
  | calls + 1, .part .unary =>
    here fun checkpoint =>
      (token (Token.fixed ['-'] .unaryMinus)).andThen
        (fun start => here fun next =>
          (run limit calls (.part .primary)).andThen
            (fun operand => found (start.node .unaryMinus next [] :: operand))
            (back checkpoint missing))
        ((run limit calls (.part .primary)).andThen found (back checkpoint missing))
  | calls + 1, .part .primary =>
    skipping fun start =>
      (token Token.number).andThen (fun number => found [number])
        ((token (Token.fixed ['('] .openParen)).andThen
          (fun _ => run limit calls (.enclosed .group start []))
          (run limit calls .functionCall))
  | calls + 1, .functionCall =>
    skipping fun start =>
      (token Token.functionName).andThen
        (fun name =>
          (token (Token.fixed ['('] .openParen)).andThen
            (fun _ => run limit calls (.enclosed .functionCall start [name]))
            (back start missing))
        missing
  | calls + 1, .enclosed rule start before =>
    (inside limit start (run limit calls (.part (.row .expression)))).andThen
      (fun body =>
        (token (Token.fixed [')'] .closeParen)).andThen
          (fun _ => here fun stop => found [start.node rule stop (before ++ body)])
          (back start missing))
      (back start missing)

/-! ## Walks and readings -/

/-- The walk comes to what a reading says. -/
def Gives (w : Walk α) (σ : State) (r : Reading α) : Prop :=
  w σ = some (r.outcome.exit, σ.after r)

section

variable {σ : State} {w : Walk α} {r : Reading α} {c : Cursor}

theorem gives_found (value : α) (h : σ.cursor = c) : (found value).Gives σ (.found value c) := by
  subst h
  rfl

theorem gives_missing (h : σ.cursor = c) : (missing : Walk α).Gives σ (.missing c) := by
  subst h
  rfl

theorem gives_token (read : Cursor → Reading α) (h : σ.cursor = c) :
    (token read).Gives σ (read c) := by
  subst h
  rfl

theorem gives_back (h : w.Gives { σ with cursor := c } r) : (back c w).Gives σ r :=
  h

/-- A walk may say more of what it finds than the reading does. -/
theorem Gives.andThen_map {k : α → γ} {w : Walk γ} (h : w.Gives σ (r.map k)) {f : γ → Walk β}
    {g : Walk β} {onFound : α → Cursor → Reading β} {onMissing : Cursor → Reading β}
    (hfound : ∀ value next τ, r.outcome = .found value next → τ.cursor = next →
      τ.depth = σ.depth → (f (k value)).Gives τ (onFound value next))
    (hmissing : ∀ next τ, r.outcome = .missing next → τ.cursor = next →
      τ.depth = σ.depth → g.Gives τ (onMissing next)) :
    (w.andThen f g).Gives σ (r.andThen onFound onMissing) := by
  obtain ⟨misses, outcome⟩ := r
  unfold Gives at h ⊢
  rw [Walk.andThen, h]
  cases outcome with
  | found value next =>
    refine (hfound value next (σ.after ⟨misses, .found value next⟩) rfl rfl rfl).trans ?_
    simp [State.after, Reading.andThen, Frontier.recordAll_append]
  | missing next =>
    refine (hmissing next (σ.after ⟨misses, .missing next⟩) rfl rfl rfl).trans ?_
    simp [State.after, Reading.andThen, Frontier.recordAll_append]
  | tooDeep start next =>
    simp [State.after, Reading.andThen, Reading.tooDeep, Reading.map, Outcome.map]

theorem Gives.andThen (h : w.Gives σ r) {f : α → Walk β} {g : Walk β}
    {onFound : α → Cursor → Reading β} {onMissing : Cursor → Reading β}
    (hfound : ∀ value next τ, r.outcome = .found value next → τ.cursor = next →
      τ.depth = σ.depth → (f value).Gives τ (onFound value next))
    (hmissing : ∀ next τ, r.outcome = .missing next → τ.cursor = next →
      τ.depth = σ.depth → g.Gives τ (onMissing next)) :
    (w.andThen f g).Gives σ (r.andThen onFound onMissing) := by
  rw [← r.map_id] at h
  exact h.andThen_map hfound hmissing

/-- What is inside a parenthesis is one level deeper. -/
theorem gives_inside {limit : Int} (start : Cursor) (hlimit : ¬ limit ≤ σ.depth)
    (h : w.Gives { σ with depth := σ.depth + 1 } r) : (inside limit start w).Gives σ r := by
  unfold Gives at h ⊢
  rw [inside, if_neg hlimit, h]
  simp [State.after]

end

end Walk

/-! ## What a procedure reads -/

namespace Walk

/-- The reader of the operands of a layer. -/
def operandReader (inner : Option (Reader Node)) : Layer → Reader (List Node)
  | .term => .unary inner
  | .expression => .termAlone inner

/-- The expression in a parenthesis that is opened at a depth, unless that is
too deep. -/
def innerAt (limit depth : Int) : Option (Reader Node) :=
  if limit ≤ depth then none else some (.expression (limit - (depth + 1)).toNat)

theorem expression_eq (limit depth : Int) :
    Reader.expression (limit - depth).toNat = .expressionOver (innerAt limit depth) := by
  unfold innerAt
  split
  · next hle => rw [show (limit - depth).toNat = 0 by omega, Reader.expression_zero]
  · next hlt =>
    rw [show (limit - depth).toNat = (limit - (depth + 1)).toNat + 1 by omega,
      Reader.expression_succ]

namespace Procedure

/-- What a procedure reads, with a reader for what stands in parentheses. -/
def reading (inner : Option (Reader Node)) : Procedure → Cursor → Reading (List Node)
  | .part (.row l), c =>
    (Reading.sequence l.rule (operandReader inner l) l.operators c).map fun node => [node]
  | .part (.tail l), c => Reading.tail (operandReader inner l) l.operators c
  | .part .unary, c => Reading.unary inner c
  | .part .primary, c => (Reading.primary inner c).map fun node => [node]
  | .functionCall, c => (Reading.functionCall inner c).map fun node => [node]
  | .enclosed rule start before, c =>
    (Reading.enclosed inner rule start before c).map fun node => [node]

theorem reading_operand (inner : Option (Reader Node)) (l : Layer) (c : Cursor) :
    (Procedure.part l.operand).reading inner c = (operandReader inner l).read c := by
  cases l <;> rfl

/-- How many calls there may be inside a call before a character is read. -/
def level : Procedure → Nat
  | .part (.tail _) | .functionCall => 0
  | .part .primary => 1
  | .part .unary => 2
  | .part (.row .term) => 3
  | .part (.row .expression) => 4
  | .enclosed _ _ _ => 5

theorem level_operand_lt (l : Layer) :
    (Procedure.part l.operand).level < (Procedure.part (.row l)).level := by
  cases l <;> decide

end Procedure

/-! ## Enough calls -/

/-- So many calls are enough for every walk with a lower bound. -/
def Suffices (limit : Int) (calls : Nat) : Prop :=
  ∀ (p : Procedure) (σ : State), 6 * σ.cursor.rest.length + p.level < calls →
    (run limit calls p).Gives σ (p.reading (innerAt limit σ.depth) σ.cursor)

section

variable {limit depth : Int} {calls : Nat} {σ τ : State} {c : Cursor}

theorem Suffices.gives (h : Suffices limit calls) (p : Procedure) (hcursor : τ.cursor = c)
    (hdepth : τ.depth = depth) (hcalls : 6 * c.rest.length + p.level < calls) :
    (run limit calls p).Gives τ (p.reading (innerAt limit depth) c) := by
  subst hcursor hdepth
  exact h p τ hcalls

theorem suffices_row (h : Suffices limit calls) (l : Layer)
    (hcalls : 6 * σ.cursor.rest.length + (Procedure.part (.row l)).level < calls + 1) :
    (run limit (calls + 1) (.part (.row l))).Gives σ
      ((Procedure.part (.row l)).reading (innerAt limit σ.depth) σ.cursor) := by
  have hskip := σ.cursor.length_rest_skipBlanks_le
  have hlevel := Procedure.level_operand_lt l
  have hfirst : (run limit calls (.part l.operand)).Gives { σ with cursor := σ.cursor.skipBlanks }
      ((Procedure.part l.operand).reading (innerAt limit σ.depth) σ.cursor.skipBlanks) :=
    h.gives _ rfl rfl (by omega)
  rw [Procedure.reading_operand] at hfirst
  rw [run, Procedure.reading, Reading.sequence, Reading.map_andThen]
  refine gives_back (hfirst.andThen (fun nodes next τ hnodes hnext hdepth => ?_)
    fun next τ _ hnext _ => gives_missing hnext)
  have hprogress := (operandReader _ l).progress σ.cursor.skipBlanks _ _ hnodes
  rw [Reading.map_andThen]
  refine (h.gives (.part (.tail l)) hnext hdepth ?_).andThen
    (fun more stop τ _ hstop _ => ?_) fun stop τ _ hstop _ => gives_missing hstop
  · rw [Procedure.level]
    omega
  · subst hstop
    exact gives_found _ rfl

theorem suffices_tail (h : Suffices limit calls) (l : Layer)
    (hcalls : 6 * σ.cursor.rest.length < calls + 1) :
    (run limit (calls + 1) (.part (.tail l))).Gives σ
      ((Procedure.part (.tail l)).reading (innerAt limit σ.depth) σ.cursor) := by
  have hlevel : (Procedure.part l.operand).level ≤ 3 := by cases l <;> decide
  have hback : ∀ τ : State, (back σ.cursor (found ([] : List Node))).Gives τ
      (.found [] σ.cursor) := fun τ => gives_back (gives_found _ rfl)
  rw [run, Procedure.reading, Reading.tail_eq]
  refine (gives_token _ rfl).andThen (fun op next τ hop hnext hdepth => ?_)
    fun next τ _ _ _ => hback τ
  have hsign := Token.leaves_operator l.operators σ.cursor _ _ hop
  have hright := h.gives (.part l.operand) hnext hdepth (by omega)
  rw [Procedure.reading_operand] at hright
  refine hright.andThen (fun nodes stop τ' hnodes hstop hdepth' => ?_) fun _ τ' _ _ _ => hback τ'
  have hprogress := (operandReader _ l).progress next _ _ hnodes
  rw [Reading.map_eq_andThen]
  refine (h.gives (.part (.tail l)) hstop (hdepth'.trans hdepth) ?_).andThen
    (fun more last τ _ hlast _ => gives_found _ hlast) fun last τ _ hlast _ => gives_missing hlast
  rw [Procedure.level]
  omega

theorem suffices_unary (h : Suffices limit calls)
    (hcalls : 6 * σ.cursor.rest.length + 2 < calls + 1) :
    (run limit (calls + 1) (.part .unary)).Gives σ
      ((Procedure.part .unary).reading (innerAt limit σ.depth) σ.cursor) := by
  have hback : ∀ τ : State, (back σ.cursor (missing : Walk (List Node))).Gives τ
      (.missing σ.cursor) := fun τ => gives_back (gives_missing rfl)
  rw [run, Procedure.reading, Reading.unary]
  refine (gives_token _ rfl).andThen (fun start next τ hminus hnext hdepth => ?_)
    fun next τ hminus hnext hdepth => ?_
  · have hsign := Token.leaves_fixed (by decide) _ _ _ _ hminus
    have hoperand := h.gives (.part .primary) hnext hdepth (by rw [Procedure.level]; omega)
    subst hnext
    exact hoperand.andThen_map (fun _ _ _ _ hstop _ => gives_found _ hstop)
      fun _ τ' _ _ _ => hback τ'
  · have hle := Reading.length_le_of_missing_fixed hminus
    have hoperand := h.gives (.part .primary) hnext hdepth (by rw [Procedure.level]; omega)
    exact hoperand.andThen_map (fun _ _ _ _ hstop _ => gives_found _ hstop)
      fun _ τ' _ _ _ => hback τ'

theorem suffices_primary (h : Suffices limit calls)
    (hcalls : 6 * σ.cursor.rest.length + 1 < calls + 1) :
    (run limit (calls + 1) (.part .primary)).Gives σ
      ((Procedure.part .primary).reading (innerAt limit σ.depth) σ.cursor) := by
  have hskip := σ.cursor.length_rest_skipBlanks_le
  rw [run, Procedure.reading, Reading.primary, Reading.map_andThen]
  refine gives_back ((gives_token _ rfl).andThen (fun number next τ _ hnext _ => ?_)
    fun next τ hnumber hnext hdepth => ?_)
  · exact gives_found _ hnext
  · obtain rfl := Token.givesBack_number _ _ hnumber
    rw [Reading.map_andThen]
    refine (gives_token _ hnext).andThen (fun _ stop τ' hopen hstop hdepth' => ?_)
      fun stop τ' hopen hstop hdepth' => ?_
    · have hopens : stop.rest.length < σ.cursor.skipBlanks.rest.length :=
        Token.leaves_fixed (by decide) _ _ _ _ hopen
      refine h.gives (.enclosed _ _ _) hstop (hdepth'.trans hdepth) ?_
      rw [Procedure.level]
      omega
    · have hstay := Token.givesBack_fixed _ _ _ _ hopen
      rw [Cursor.skipBlanks_skipBlanks] at hstay
      refine h.gives .functionCall (hstop.trans hstay) (hdepth'.trans hdepth) ?_
      rw [Procedure.level]
      omega

theorem suffices_functionCall (h : Suffices limit calls)
    (hcalls : 6 * σ.cursor.rest.length < calls + 1) :
    (run limit (calls + 1) .functionCall).Gives σ
      (Procedure.functionCall.reading (innerAt limit σ.depth) σ.cursor) := by
  have hskip := σ.cursor.length_rest_skipBlanks_le
  rw [run, Procedure.reading, Reading.functionCall, Reading.map_andThen]
  refine gives_back ((gives_token _ rfl).andThen (fun name next τ hname hnext hdepth => ?_)
    fun next τ _ hnext _ => gives_missing hnext)
  have hnames : next.rest.length < σ.cursor.skipBlanks.rest.length :=
    Token.leaves_functionName _ _ _ hname
  rw [Reading.map_andThen]
  refine (gives_token _ hnext).andThen (fun _ stop τ' hopen hstop hdepth' => ?_)
    fun _ _ _ _ _ => gives_back (gives_missing rfl)
  have hopens := Token.leaves_fixed (by decide) _ _ _ _ hopen
  refine h.gives (.enclosed _ _ _) hstop (hdepth'.trans hdepth) ?_
  rw [Procedure.level]
  omega

theorem suffices_enclosed (h : Suffices limit calls) (rule : Rule) (start : Cursor)
    (before : List Node) (hcalls : 6 * σ.cursor.rest.length + 5 < calls + 1) :
    (run limit (calls + 1) (.enclosed rule start before)).Gives σ
      ((Procedure.enclosed rule start before).reading (innerAt limit σ.depth) σ.cursor) := by
  by_cases hlimit : limit ≤ σ.depth
  · have hinner : innerAt limit σ.depth = none := if_pos hlimit
    unfold Gives
    rw [hinner, run, Walk.andThen, inside, if_pos hlimit]
    rfl
  · have hinner : innerAt limit σ.depth =
        some (.expressionOver (innerAt limit (σ.depth + 1))) := by
      rw [innerAt, if_neg hlimit, expression_eq]
    have hback : ∀ τ : State, (back start (missing : Walk (List Node))).Gives τ (.missing start) :=
      fun τ => gives_back (gives_missing rfl)
    -- One level deeper the body is read with one level less.
    have hbody : (run limit calls (.part (.row .expression))).Gives
        { σ with depth := σ.depth + 1 } ((Procedure.part (.row .expression)).reading
          (innerAt limit (σ.depth + 1)) σ.cursor) :=
      h.gives _ rfl rfl (by rw [Procedure.level]; omega)
    rw [run, Procedure.reading, hinner]
    simp only [Reading.enclosed, Reading.map_andThen]
    refine (gives_inside start hlimit hbody).andThen_map (fun body next τ _ hnext _ => ?_)
      fun _ τ _ _ _ => hback τ
    refine (gives_token _ hnext).andThen (fun _ stop τ' _ hstop _ => ?_) fun _ τ' _ _ _ => hback τ'
    subst hstop
    exact gives_found _ rfl

/-- The induction is on the calls.  Every call inside this one has a lower level or
comes after a character. -/
theorem suffices_run (limit : Int) (calls : Nat) : Suffices limit calls := by
  induction calls with
  | zero =>
    intro p σ hcalls
    omega
  | succ calls ih =>
    intro p σ hcalls
    cases p with
    | part p =>
      cases p with
      | primary => exact suffices_primary ih hcalls
      | unary => exact suffices_unary ih hcalls
      | tail l => exact suffices_tail ih l hcalls
      | row l => exact suffices_row ih l hcalls
    | functionCall => exact suffices_functionCall ih hcalls
    | enclosed rule start before => exact suffices_enclosed ih rule start before hcalls

end

/-! ## Whole texts -/

/-- A session at a depth. -/
def State.ofSession (s : Session) (depth : Int) : State :=
  { cursor := s.cursor, depth, frontier := s.frontier }

/-- One call of a recognizer.  It goes on from the state that it is in, with the
depth there, and leaves the state that the walk ends in. -/
def recognize (limit : Int) (calls : Nat) (t : Text) (σ : State) :
    Option (Except Fault Node × State) :=
  match run limit calls (.part (.row .expression)) σ with
  | none => none
  | some (.found children, σ) =>
    let σ := { σ with cursor := σ.cursor.skipBlanks }
    match σ.cursor.rest with
    | [] => some (.ok { rule := .equation, text := t, start := 0, stop := t.length, children }, σ)
    | _ :: _ =>
      let frontier := σ.frontier.record { pos := σ.cursor.pos, label := .endOfInput }
      some (.error (Session.unexpected frontier), { σ with frontier })
  | some (.missing, σ) => some (.error (Session.unexpected σ.frontier), σ)
  | some (.tooDeep start, σ) => some (.error (.tooDeep limit start), σ)

/-- At depth 0 a recognizer answers as a session does. -/
theorem recognize_eq {limit : Int} {calls : Nat} {s : Session}
    (hcalls : 6 * s.cursor.rest.length + 4 < calls) :
    recognize limit calls s.text (.ofSession s 0) =
      some ((s.recognize limit).1, .ofSession (s.recognize limit).2 0) := by
  have hrun := suffices_run limit calls (.part (.row .expression)) (.ofSession s 0) hcalls
  have hreading : (Procedure.part (.row .expression)).reading (innerAt limit 0) s.cursor =
      (s.reading limit).map fun node => [node] := by
    have heq := expression_eq limit 0
    rw [Int.sub_zero] at heq
    rw [Session.reading, heq]
    rfl
  dsimp only [State.ofSession] at hrun
  rw [hreading] at hrun
  unfold Gives at hrun
  rw [recognize, State.ofSession, hrun]
  cases houtcome : (s.reading limit).outcome with
  | found e d =>
    by_cases hrest : d.skipBlanks.rest = []
    · rw [Session.recognize_of_end houtcome hrest]
      simp [Reading.map, State.after, State.ofSession, Outcome.map, houtcome, hrest]
    · rw [Session.recognize_of_more houtcome hrest]
      obtain ⟨x, rest, hx⟩ := List.exists_cons_of_ne_nil hrest
      simp [Reading.map, State.after, State.ofSession, Outcome.map, houtcome, hx,
        Frontier.recordAll_append, Cursor.miss]
  | missing d =>
    have hback := Reader.givesBack_expression _ _ d houtcome
    rw [Session.recognize_of_missing houtcome]
    simp [Reading.map, State.after, State.ofSession, Outcome.map, houtcome, hback]
  | tooDeep start d =>
    rw [Session.recognize_of_tooDeep houtcome]
    simp [Reading.map, State.after, State.ofSession, Outcome.map, houtcome]

end Walk
end Reckon
