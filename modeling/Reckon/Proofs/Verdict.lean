/-
What a reading tells about the text.

Whatever a reader finds is a span.  Where it misses something, it has followed
the text as far as lexemes may follow one another, and has looked there for all
that may come next; alternatives that it tries afterwards, further back, change
nothing.  The verdict on a reading says this in a form that the verdicts on the
readers it is made of add up to.
-/
import Reckon.Proofs.TokenReading
import Reckon.Reading.Expression

namespace Reckon

/-! ## Verdicts -/

section

variable (limit : Nat) (s : Stage) (c : Cursor)

/-- Something was looked for where it may come next, and is not there. -/
def Tried (m : Miss) : Prop :=
  ∃ xs q e, Run limit s c xs q e ∧ m = e.miss m.label ∧ q.Expects m.label ∧ e.Lacks m.label

/-- At the end of a run all that may come next was looked for in vain. -/
def Stalled (ms : List Miss) : Prop :=
  ∃ xs q e, Run limit s c xs q e ∧ ∀ l, q.Expects l → e.miss l ∈ ms

/-- A run comes to a parenthesis that must not be opened any more.  The group or
the call to which it belongs begins at `start`, and `next` is just after it. -/
inductive Overrun : Nat → Cursor → Prop
  | group {xs : List Lexeme} {q q' : Stage} {e next : Cursor} :
      Run limit s c xs q e → q.mode ≠ .argument → q.after? .openParen = some q' →
      q.opened = limit → e.Takes ['('] next → Overrun e.skipBlanks.pos next
  | call {xs : List Lexeme} {q q' : Stage} {e e' next : Cursor} {f : Function} :
      Run limit s c xs q e → Step limit q e (.functionName f) q' e' →
      q.opened = limit → e'.Takes ['('] next → Overrun e.skipBlanks.pos next

end

def Settled (ops : List Operation) (ms : List Miss) (d : Cursor) : Prop :=
  ∀ op ∈ ops, d.miss (.operator op) ∈ ms

/-- One of the operators stands after the blanks at a cursor. -/
def Blocked (ops : List Operation) (d : Cursor) : Prop :=
  ∃ op ∈ ops, ∃ t ∈ op.spellings, t <+: d.skipBlanks.rest

/-- The outcome of a reading that begins at a cursor with the given stage and
should end with the stage `q`.  What was found is either followed by none of the
operators that would carry it on, or by one that leads nowhere. -/
inductive Ending (limit : Nat) (s : Stage) (c : Cursor) (q : Stage) (ops : List Operation)
    (P : α → List Lexeme → Cursor → Prop) (ms : List Miss) : Outcome α → Prop
  | found {value : α} {xs : List Lexeme} {d : Cursor} :
      P value xs d → Run limit s c xs q d →
      (Settled ops ms d ∨ Stalled limit s c ms ∧ Blocked ops d) →
      Ending limit s c q ops P ms (.found value d)
  | missing {d : Cursor} : Stalled limit s c ms → Ending limit s c q ops P ms (.missing d)
  | tooDeep {start : Nat} {d : Cursor} :
      Overrun limit s c start d → Ending limit s c q ops P ms (.tooDeep start d)

structure Verdict (limit : Nat) (s : Stage) (c : Cursor) (q : Stage) (ops : List Operation)
    (P : α → List Lexeme → Cursor → Prop) (r : Reading α) : Prop where
  tried : ∀ m ∈ r.misses, Tried limit s c m
  ending : Ending limit s c q ops P r.misses r.outcome

section

variable {limit : Nat} {s s' q q' : Stage} {c c' d : Cursor} {ops ops' : List Operation}
  {ms ms' : List Miss} {xs : List Lexeme}

/-! ### Verdicts from further back -/

theorem Tried.of_run {m : Miss} (hrun : Run limit s c xs s' c') (h : Tried limit s' c' m) :
    Tried limit s c m := by
  obtain ⟨ys, q, e, hrun', hm⟩ := h
  exact ⟨xs ++ ys, q, e, hrun.append hrun', hm⟩

theorem Stalled.of_run (hrun : Run limit s c xs s' c') (h : Stalled limit s' c' ms) :
    Stalled limit s c ms := by
  obtain ⟨ys, q, e, hrun', hall⟩ := h
  exact ⟨xs ++ ys, q, e, hrun.append hrun', hall⟩

theorem Overrun.of_run {start : Nat} (hrun : Run limit s c xs s' c')
    (h : Overrun limit s' c' start d) : Overrun limit s c start d := by
  cases h with
  | group hrun' hmode hafter hlimit hopen =>
    exact .group (hrun.append hrun') hmode hafter hlimit hopen
  | call hrun' hname hlimit hopen => exact .call (hrun.append hrun') hname hlimit hopen

theorem Stalled.mono (h : Stalled limit s c ms) (hsub : ms ⊆ ms') : Stalled limit s c ms' := by
  obtain ⟨xs, q, e, hrun, hall⟩ := h
  exact ⟨xs, q, e, hrun, fun l hl => hsub (hall l hl)⟩

theorem Settled.mono (h : Settled ops ms d) (hsub : ms ⊆ ms') : Settled ops ms' d :=
  fun op hop => hsub (h op hop)

theorem Ending.mono {P : α → List Lexeme → Cursor → Prop} {o : Outcome α}
    (h : Ending limit s c q ops P ms o) (hsub : ms ⊆ ms') : Ending limit s c q ops P ms' o := by
  cases h with
  | found hP hrun hstatus =>
    exact .found hP hrun (hstatus.imp (·.mono hsub) fun h => ⟨h.1.mono hsub, h.2⟩)
  | missing h => exact .missing (h.mono hsub)
  | tooDeep h => exact .tooDeep h

theorem Ending.of_run {P : α → List Lexeme → Cursor → Prop} {o : Outcome α}
    (hrun : Run limit s c xs s' c') (h : Ending limit s' c' q ops P ms o) :
    Ending limit s c q ops (fun v zs d => ∃ ys, zs = xs ++ ys ∧ P v ys d) ms o := by
  cases h with
  | found hP hrun' hstatus =>
    exact .found ⟨_, rfl, hP⟩ (hrun.append hrun') (hstatus.imp id fun h => ⟨h.1.of_run hrun, h.2⟩)
  | missing h => exact .missing (h.of_run hrun)
  | tooDeep h => exact .tooDeep (h.of_run hrun)

variable {P : α → List Lexeme → Cursor → Prop} {P' : β → List Lexeme → Cursor → Prop}
  {r : Reading α}

theorem Verdict.of_run (hrun : Run limit s c xs s' c') (h : Verdict limit s' c' q ops P r) :
    Verdict limit s c q ops (fun v zs d => ∃ ys, zs = xs ++ ys ∧ P v ys d) r :=
  ⟨fun m hm => (h.tried m hm).of_run hrun, h.ending.of_run hrun⟩

theorem Verdict.after (hms : ∀ m ∈ ms, Tried limit s c m) (h : Verdict limit s c q ops P r) :
    Verdict limit s c q ops P (r.after ms) := by
  refine ⟨fun m hm => ?_, h.ending.mono (List.subset_append_right _ _)⟩
  exact (List.mem_append.mp hm).elim (hms m) (h.tried m)

/-! ### Verdicts on compound readings -/

theorem Verdict.found {value : α} (hms : ∀ m ∈ ms, Tried limit s c m) (hP : P value xs d)
    (hrun : Run limit s c xs q d)
    (hstatus : Settled ops ms d ∨ Stalled limit s c ms ∧ Blocked ops d) :
    Verdict limit s c q ops P ((Reading.found value d).after ms) := by
  refine ⟨by simpa [Reading.found] using hms, ?_⟩
  simpa [Reading.found] using Ending.found hP hrun hstatus

theorem Verdict.missing (hms : ∀ m ∈ ms, Tried limit s c m) (h : Stalled limit s c ms) :
    Verdict limit s c q ops P ((Reading.missing d).after ms) := by
  refine ⟨by simpa [Reading.missing] using hms, ?_⟩
  simpa [Reading.missing] using Ending.missing h

theorem Verdict.andThen (h : Verdict limit s c q ops P r) {f : α → Cursor → Reading β}
    {g : Cursor → Reading β}
    (hfound : ∀ v xs d, P v xs d → Run limit s c xs q d →
      (Settled ops r.misses d ∨ Stalled limit s c r.misses ∧ Blocked ops d) →
      Verdict limit s c q' ops' P' ((f v d).after r.misses))
    (hmissing : ∀ d, Stalled limit s c r.misses →
      Verdict limit s c q' ops' P' ((g d).after r.misses)) :
    Verdict limit s c q' ops' P' (r.andThen f g) := by
  obtain ⟨misses, outcome⟩ := r
  obtain ⟨htried, hending⟩ := h
  cases hending with
  | found hP hrun hstatus => exact hfound _ _ _ hP hrun hstatus
  | missing h => exact hmissing _ h
  | tooDeep h =>
    refine ⟨?_, .tooDeep h⟩
    simpa [Reading.andThen, Reading.tooDeep, Reading.after] using htried

theorem Verdict.map {f : α → β} (h : Verdict limit s c q ops P r)
    (hf : ∀ v xs d, P v xs d → P' (f v) xs d) : Verdict limit s c q ops P' (r.map f) := by
  obtain ⟨misses, outcome⟩ := r
  obtain ⟨htried, hending⟩ := h
  refine ⟨htried, ?_⟩
  cases hending with
  | found hP hrun hstatus => exact .found (hf _ _ _ hP) hrun hstatus
  | missing h => exact .missing h
  | tooDeep h => exact .tooDeep h

theorem Verdict.imp (h : Verdict limit s c q ops P r) {P' : α → List Lexeme → Cursor → Prop}
    (himp : ∀ v xs d, P v xs d → P' v xs d) : Verdict limit s c q ops P' r := by
  obtain ⟨misses, outcome⟩ := r
  obtain ⟨htried, hending⟩ := h
  refine ⟨htried, ?_⟩
  cases hending with
  | found hP hrun hstatus => exact .found (himp _ _ _ hP) hrun hstatus
  | missing h => exact .missing h
  | tooDeep h => exact .tooDeep h

theorem tried_miss {l : Label} (hrun : Run limit s c xs q d) (hl : q.Expects l)
    (hlacks : d.Lacks l) : Tried limit s c (d.miss l) :=
  ⟨xs, q, d, hrun, rfl, hl, hlacks⟩

theorem tried_append {m : Miss} (hms : ∀ m ∈ ms, Tried limit s c m) (hm : Tried limit s c m) :
    ∀ m' ∈ ms ++ [m], Tried limit s c m' := by
  intro m' hm'
  rcases List.mem_append.mp hm' with h | h
  · exact hms m' h
  · exact List.mem_singleton.mp h ▸ hm

end

/-! ## Verdicts on the readers -/

section

variable {limit room n : Nat}

theorem Part.mem_operators_expression (op : Operation) :
    op ∈ (Part.row .expression).operators := by
  cases op <;> decide

/-- A reader of expressions with the given room, inside any number of
parentheses that the limit leaves. -/
def ReadsExpressions (limit room : Nat) (r : Reader Node) : Prop :=
  ∀ (n : Nat) (c : Cursor), n + room = limit →
    Verdict limit ⟨.operand, n⟩ c ⟨.complete, n⟩ (Part.row .expression).operators
      (fun v xs d => Spans room (.row .expression) c [v] xs d) (r.read c)

/-- What is read in parentheses has one level less. -/
def Fits (limit : Nat) : Nat → Option (Reader Node) → Prop
  | 0, inner => inner = none
  | room + 1, inner => ∃ r, inner = some r ∧ ReadsExpressions limit room r

open Reading

/-- After an operand inside parentheses operators and a closing parenthesis may
come next. -/
theorem stalled_complete {s : Stage} {c d : Cursor} {xs : List Lexeme} {ms : List Miss}
    (hrun : Run limit s c xs ⟨.complete, n + 1⟩ d)
    (hstatus : Settled (Part.row .expression).operators ms d ∨ Stalled limit s c ms) :
    Stalled limit s c (ms ++ [d.miss .closeParen]) := by
  rcases hstatus with hsettled | hstalled
  · refine ⟨xs, _, d, hrun, fun l hl => ?_⟩
    rcases Stage.of_expects_complete hl with ⟨op, rfl⟩ | ⟨rfl, _⟩ | ⟨_, hn⟩
    · exact List.mem_append_left _ (hsettled op (Part.mem_operators_expression op))
    · exact List.mem_append_right _ List.mem_cons_self
    · exact absurd hn (Nat.succ_ne_zero n)
  · exact hstalled.mono (List.subset_append_left _ _)

theorem verdict_enclosed {inner : Option (Reader Node)} (hfits : Fits limit room inner)
    (hn : n + room = limit) {s q : Stage} {c e c' start : Cursor} {xs : List Lexeme}
    (hrun : Run limit s c xs q e) (hafter : q.after? .openParen = some ⟨.operand, n + 1⟩)
    (hopen : e.Takes ['('] c') (hover : n = limit → Overrun limit s c start.pos c')
    (rule : Rule) (before : List Node) :
    Verdict limit s c ⟨.complete, n⟩ []
      (fun v zs d => ∃ room' body ys c₂, room = room' + 1 ∧
        Spans room' (.row .expression) c' [body] ys c₂ ∧ c₂.Takes [')'] d ∧
        v = start.node rule d (before ++ [body]) ∧
        zs = xs ++ .openParen :: (ys ++ [.closeParen]))
      (enclosed inner rule start before c') := by
  cases room with
  | zero =>
    obtain rfl : inner = none := hfits
    exact ⟨by simp [enclosed, tooDeep], .tooDeep (hover hn)⟩
  | succ room =>
    obtain ⟨r, rfl, hr⟩ := hfits
    have hstep : Step limit q e .openParen ⟨.operand, n + 1⟩ c' :=
      .of_fixed trivial hafter (by simp only; omega) hopen
    have hbody := (hr (n + 1) c' (by omega)).of_run (hrun.append (.single hstep))
    refine hbody.andThen (fun body zs d hP hrun' hstatus => ?_) (fun d hstalled => ?_)
    · obtain ⟨ys, rfl, hspans⟩ := hP
      rcases Token.fixed_cases Label.spells_closeParen d with
        ⟨d', hclose, heq⟩ | ⟨hno, heq⟩
      · have hstep' : Step limit ⟨.complete, n + 1⟩ d .closeParen ⟨.complete, n⟩ d' :=
          .of_fixed trivial rfl (by simp only; omega) hclose
        rw [heq, found_andThen]
        refine .found hbody.tried ⟨room, body, ys, d, rfl, hspans, hclose, rfl, ?_⟩
          (hrun'.append (.single hstep')) (.inl (by simp [Settled]))
        simp
      · rw [heq, after_andThen, missing_andThen, after_after]
        refine .missing (tried_append hbody.tried (tried_miss hrun' ?_ hno))
          (stalled_complete hrun' (hstatus.imp id And.left))
        exact Stage.expects_of_after? rfl
    · exact .missing hbody.tried hstalled

theorem functionCall_skipBlanks (inner : Option (Reader Node)) (c : Cursor) :
    functionCall inner c.skipBlanks = functionCall inner c := by
  simp [functionCall]

theorem primary_skipBlanks (inner : Option (Reader Node)) (c : Cursor) :
    primary inner c.skipBlanks = primary inner c := by
  simp [primary]

/-- The last alternative of an operand: all others were looked for before. -/
theorem verdict_functionCall {inner : Option (Reader Node)} (hfits : Fits limit room inner)
    (hn : n + room = limit) {m : Mode} {c : Cursor} {ms : List Miss}
    (hafter : Stage.after? ⟨m, n⟩ .functionName = some ⟨.argument, n⟩)
    (hms : ∀ m' ∈ ms, Tried limit ⟨m, n⟩ c m')
    (hothers : ∀ l, Stage.Expects ⟨m, n⟩ l → l ≠ .functionName → c.miss l ∈ ms) :
    Verdict limit ⟨m, n⟩ c ⟨.complete, n⟩ [] (fun v xs d => Spans room .primary c [v] xs d)
      ((functionCall inner c).after ms) := by
  unfold functionCall
  dsimp only
  rcases Token.functionName_cases c with ⟨f, d, hname, hlongest, heq⟩ | ⟨hno, heq⟩
  · have hstep : Step limit ⟨m, n⟩ c (.functionName f) ⟨.argument, n⟩ d :=
      .functionName hafter (by simp only; omega) hname hlongest
    rw [heq, found_andThen]
    rcases Token.fixed_cases Label.spells_openParen d with
      ⟨d', hopen, heq⟩ | ⟨hno, heq⟩
    · rw [heq, found_andThen]
      refine .after hms ((verdict_enclosed hfits hn (.single hstep) rfl hopen
        (fun hlimit => ?_) _ _).imp fun v xs d hP => ?_)
      · exact .call (.refl _ _) hstep hlimit hopen
      · obtain ⟨room', body, ys, c₂, rfl, hbody, hclose, rfl, rfl⟩ := hP
        exact .call f hname hopen hbody hclose
    · rw [heq, after_andThen, missing_andThen, after_after]
      refine .missing (tried_append hms (tried_miss (.single hstep) ?_ hno))
        ⟨_, _, d, .single hstep, fun l hl => ?_⟩
      · exact Stage.expects_of_after? rfl
      · obtain rfl := Stage.of_expects_argument hl
        exact List.mem_append_right _ List.mem_cons_self
  · rw [heq, after_andThen, missing_andThen, after_after]
    refine .missing (tried_append hms (tried_miss (.refl _ _) (Stage.expects_of_after? hafter) hno))
      ⟨_, _, c, .refl _ _, fun l hl => ?_⟩
    by_cases hl' : l = .functionName
    · exact List.mem_append_right _ (hl' ▸ List.mem_cons_self)
    · exact List.mem_append_left _ (hothers l hl hl')

/-- Whether a minus sign may come next or not: if so, it was looked for before. -/
theorem verdict_primary {inner : Option (Reader Node)} (hfits : Fits limit room inner)
    (hn : n + room = limit) {m : Mode} (hm : m.IsOperand) {c : Cursor}
    (ms : List Miss) (hms : ∀ m' ∈ ms, Tried limit ⟨m, n⟩ c m')
    (hminus : m = .operand → c.miss .unaryMinus ∈ ms) :
    Verdict limit ⟨m, n⟩ c ⟨.complete, n⟩ [] (fun v xs d => Spans room .primary c [v] xs d)
      ((primary inner c).after ms) := by
  have hnumber := Stage.after?_number hm n
  have hopens := Stage.after?_openParen hm n
  have hnames := Stage.after?_functionName hm n
  unfold primary
  dsimp only
  rcases Token.number_cases c with ⟨digits, hdigits, d, htakes, hlongest, heq⟩ | ⟨hno, heq⟩
  · have hstep : Step limit ⟨m, n⟩ c (.number digits hdigits) ⟨.complete, n⟩ d :=
      .number hnumber (by simp only; omega) htakes hlongest
    rw [heq, found_andThen]
    exact .found hms (.number hdigits htakes) (.single hstep) (.inl (by simp [Settled]))
  · have hms' := tried_append hms
      (tried_miss (.refl _ _) (Stage.expects_of_after? hnumber) hno)
    rw [heq, after_andThen, missing_andThen, after_after]
    rcases Token.fixed_cases Label.spells_openParen
      c.skipBlanks with ⟨d, hopen, heq⟩ | ⟨hno', heq⟩
    · have hopen := Cursor.takes_skipBlanks.mp hopen
      rw [heq, found_andThen]
      refine .after hms' ((verdict_enclosed hfits hn (.refl _ _) hopens hopen
        (fun hlimit => ?_) _ _).imp fun v xs d hP => ?_)
      · refine .group (.refl _ _) ?_ hopens hlimit hopen
        rcases hm with rfl | rfl <;> simp
      · obtain ⟨room', body, ys, c₂, rfl, hbody, hclose, rfl, rfl⟩ := hP
        exact .group hopen hbody hclose
    · have hno' := Cursor.lacks_skipBlanks.mp hno'
      rw [heq, after_andThen, missing_andThen, after_after, functionCall_skipBlanks]
      have hmiss : c.skipBlanks.miss .openParen = c.miss .openParen := by simp [Cursor.miss]
      rw [hmiss]
      refine verdict_functionCall hfits hn hnames (tried_append hms'
        (tried_miss (.refl _ _) (Stage.expects_of_after? hopens) hno')) fun l hl hl' => ?_
      rcases Stage.of_expects_operand hm n hl with rfl | rfl | rfl | ⟨rfl, hmode⟩
      · simp
      · simp
      · exact absurd rfl hl'
      · exact List.mem_append_left _ (List.mem_append_left _ (hminus hmode))

theorem verdict_unary {inner : Option (Reader Node)} (hfits : Fits limit room inner)
    (hn : n + room = limit) (c : Cursor) :
    Verdict limit ⟨.operand, n⟩ c ⟨.complete, n⟩ Part.unary.operators
      (fun ns xs d => Spans room .unary c ns xs d) (unary inner c) := by
  unfold unary
  rcases Token.fixed_cases Label.spells_unaryMinus c with
    ⟨d, hminus, heq⟩ | ⟨hno, heq⟩
  · have hstep : Step limit ⟨.operand, n⟩ c .unaryMinus ⟨.unsigned, n⟩ d :=
      .of_fixed trivial rfl (by simp only; omega) hminus
    have hprimary := (verdict_primary hfits hn (.inr rfl) (c := d) [] (by simp)
      (by simp)).of_run (.single hstep)
    rw [heq, found_andThen]
    refine hprimary.andThen (fun operand xs stop hP hrun hstatus => ?_) fun _ hstalled =>
      .missing hprimary.tried hstalled
    obtain ⟨ys, rfl, hspans⟩ := hP
    exact .found hprimary.tried (.minus hminus hspans) hrun hstatus
  · have htried := tried_miss (.refl ⟨.operand, n⟩ c : Run limit _ c _ _ c)
      (Stage.expects_of_after? rfl) hno
    have hprimary := verdict_primary hfits hn (.inl rfl) (c := c) [c.miss .unaryMinus]
      (fun m hm => List.mem_singleton.mp hm ▸ htried) (fun _ => List.mem_cons_self)
    rw [heq, after_andThen, missing_andThen, primary_skipBlanks, ← after_andThen]
    refine hprimary.andThen (fun operand xs stop hP hrun hstatus => ?_) fun _ hstalled =>
      .missing hprimary.tried hstalled
    exact .found hprimary.tried (.plain hP) hrun hstatus

def ReadsOperands (limit room : Nat) (l : Layer) (r : Reader (List Node)) : Prop :=
  ∀ (n : Nat) (c : Cursor), n + room = limit →
    Verdict limit ⟨.operand, n⟩ c ⟨.complete, n⟩ l.operand.operators
      (fun ns xs d => Spans room l.operand c ns xs d) (r.read c)

theorem map_after (f : α → β) (r : Reading α) (ms : List Miss) :
    (r.map f).after ms = (r.after ms).map f := rfl

theorem tried_misses {s q : Stage} {c d : Cursor} {xs : List Lexeme} {ops : List Operation}
    {ms : List Miss} (hrun : Run limit s c xs q d) (hq : q = ⟨.complete, n⟩)
    (hms : ∀ m ∈ ms, ∃ op ∈ ops, m = d.miss (.operator op) ∧ d.Lacks (.operator op)) :
    ∀ m ∈ ms, Tried limit s c m := by
  intro m hm
  obtain ⟨op, _, rfl, hlacks⟩ := hms m hm
  subst hq
  exact tried_miss hrun (Stage.expects_of_after? rfl) hlacks

/-- After an operand that no operator of the row follows. -/
theorem verdict_tail_ended {l : Layer} {s : Stage} {c c₀ : Cursor} {xs : List Lexeme}
    {ms : List Miss} (hrun : Run limit s c₀ xs ⟨.complete, n⟩ c)
    (hms : ∀ m ∈ ms, Tried limit s c₀ m)
    (hstatus : Settled l.operand.operators ms c ∨
      Stalled limit s c₀ ms ∧ Blocked l.operand.operators c)
    (hnone : ∀ op ∈ l.operators, c.Lacks (.operator op)) :
    Verdict limit s c₀ ⟨.complete, n⟩ (Part.tail l).operators
      (fun ns zs d => ∃ ys, zs = xs ++ ys ∧ Spans room (.tail l) c ns ys d)
      ((Reading.found [] c).after (ms ++ l.operators.map fun op => c.miss (.operator op))) := by
  have hmisses : ∀ m ∈ l.operators.map (fun op => c.miss (.operator op)),
      ∃ op ∈ l.operators, m = c.miss (.operator op) ∧ c.Lacks (.operator op) := by
    intro m hm
    obtain ⟨op, hop, rfl⟩ := List.mem_map.mp hm
    exact ⟨op, hop, rfl, hnone op hop⟩
  have htried : ∀ m ∈ ms ++ l.operators.map (fun op => c.miss (.operator op)),
      Tried limit s c₀ m := by
    intro m hm
    exact (List.mem_append.mp hm).elim (hms m) (tried_misses hrun rfl hmisses m)
  refine .found htried ⟨[], by simp, .done l⟩ hrun ?_
  rw [Part.operators_tail]
  rcases hstatus with hsettled | ⟨hstalled, op, hop, hblocked⟩
  · refine .inl fun op hop => ?_
    rcases List.mem_append.mp hop with hop | hop
    · exact List.mem_append_left _ (hsettled op hop)
    · exact List.mem_append_right _ (List.mem_map.mpr ⟨op, hop, rfl⟩)
  · exact .inr ⟨hstalled.mono (List.subset_append_left _ _), op, List.mem_append_left _ hop,
      hblocked⟩

/-- After an operand that a run has come to.  The induction is on what is left
of the text. -/
theorem verdict_tail {l : Layer} {operand : Reader (List Node)}
    (hoperand : ReadsOperands limit room l operand) (hn : n + room = limit) {s : Stage}
    {c c₀ : Cursor} {xs : List Lexeme} {ms : List Miss} (hrun : Run limit s c₀ xs ⟨.complete, n⟩ c)
    (hms : ∀ m ∈ ms, Tried limit s c₀ m)
    (hstatus : Settled l.operand.operators ms c ∨
      Stalled limit s c₀ ms ∧ Blocked l.operand.operators c) :
    Verdict limit s c₀ ⟨.complete, n⟩ (Part.tail l).operators
      (fun ns zs d => ∃ ys, zs = xs ++ ys ∧ Spans room (.tail l) c ns ys d)
      ((tail operand l.operators c).after ms) := by
  rw [tail_eq]
  rcases Token.operator_cases l.operators c with
    ⟨op, hop, spelling, hspelling, d, signMisses, hsign, hmisses, heq⟩ | ⟨hnone, heq⟩
  · have hprogress := Token.leaves_operator l.operators c _ d (by rw [heq]; rfl)
    have hstep : Step limit ⟨.complete, n⟩ c (.operator op spelling hspelling) ⟨.operand, n⟩ d :=
      .of_fixed trivial rfl (by simp only; omega) hsign
    have htried : ∀ m ∈ ms ++ signMisses, Tried limit s c₀ m := by
      intro m hm
      exact (List.mem_append.mp hm).elim (hms m) (tried_misses hrun rfl hmisses m)
    have hright := ((hoperand n d hn).of_run (hrun.append (.single hstep))).after htried
    rw [heq, after_andThen, found_andThen, after_after, ← after_andThen]
    refine hright.andThen (fun ns zs stop hP hrun' hstatus' => ?_) (fun _ hstalled => ?_)
    · obtain ⟨ys, rfl, hspans⟩ := hP
      have hlength := Nat.lt_of_le_of_lt hspans.suffix.length_le hprogress
      rw [map_after]
      refine (verdict_tail hoperand hn hrun' hright.tried hstatus').map ?_
      intro more zs e hP
      obtain ⟨ws, rfl, hmore⟩ := hP
      refine ⟨.operator op spelling hspelling :: (ys ++ ws), by simp, ?_⟩
      exact .more hop hspelling hsign hspans hmore
    · -- The operator is given back, but what was missing after it remains the
      -- furthest place, so the row counts as blocked there.
      refine .found hright.tried ⟨[], by simp, .done l⟩ hrun (.inr ⟨hstalled, op, ?_, spelling,
        hspelling, hsign.1⟩)
      rw [Part.operators_tail]
      exact List.mem_append_right _ hop
  · rw [heq, after_andThen, missing_andThen, after_after]
    exact verdict_tail_ended hrun hms hstatus hnone
termination_by c.rest.length

theorem verdict_sequence {l : Layer} {operand : Reader (List Node)}
    (hoperand : ReadsOperands limit room l operand) (hn : n + room = limit) (c : Cursor) :
    Verdict limit ⟨.operand, n⟩ c ⟨.complete, n⟩ (Part.row l).operators
      (fun v xs d => Spans room (.row l) c [v] xs d) (sequence l.rule operand l.operators c) := by
  have hfirst := (hoperand n c.skipBlanks hn).of_run
    (.done (Cursor.skipBlanks_skipBlanks c).symm : Run limit ⟨.operand, n⟩ c [] _ c.skipBlanks)
  rw [Part.operators_row]
  refine hfirst.andThen (fun ns xs next hP hrun hstatus => ?_) fun _ hstalled =>
    .missing hfirst.tried hstalled
  obtain ⟨xs, rfl, hspans⟩ := hP
  have htail := verdict_tail hoperand hn hrun hfirst.tried hstatus
  rw [← after_andThen]
  refine htail.andThen (fun more zs stop hP hrun' hstatus' => ?_) fun _ hstalled =>
    .missing htail.tried hstalled
  obtain ⟨ys, rfl, hmore⟩ := hP
  exact .found htail.tried (.row hspans hmore) hrun' hstatus'

theorem readsOperands_term {inner : Option (Reader Node)} (hfits : Fits limit room inner) :
    ReadsOperands limit room .term (Reader.unary inner) :=
  fun _ c hn => verdict_unary hfits hn c

theorem readsOperands_expression {inner : Option (Reader Node)} (hfits : Fits limit room inner) :
    ReadsOperands limit room .expression (Reader.termAlone inner) :=
  fun _ c hn => (verdict_sequence (readsOperands_term hfits) hn c).map fun _ _ _ h => h

theorem readsExpressions_expressionOver {inner : Option (Reader Node)}
    (hfits : Fits limit room inner) :
    ReadsExpressions limit room (Reader.expressionOver inner) :=
  fun _ c hn => verdict_sequence (readsOperands_expression hfits) hn c

theorem readsExpressions_expression (limit room : Nat) :
    ReadsExpressions limit room (Reader.expression room) := by
  induction room with
  | zero => exact readsExpressions_expressionOver rfl
  | succ room ih => exact readsExpressions_expressionOver ⟨_, rfl, ih⟩

end
end Reckon
