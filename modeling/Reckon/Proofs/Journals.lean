/-
Journals over whole sessions.

Handlers may be taken away between any two requests, so the stream handler that
was made last and the one that is attached could come apart.  They do not: a
stream handler that is attached is always the one made last, and there is never
a second one beside it.  Configuring brings a stream handler back where there is
none, and does nothing at all if no level has the given name.
-/
import Reckon.Console

namespace Reckon

/-! ## Levels -/

namespace LevelChoice

/-- The level that is asked for: a number is a level, and eight names have one. -/
inductive Asks : LevelChoice → Int → Prop
  | number (level : Int) : Asks (.number level) level
  | name {t : Text} {level : Int} : (String.ofList t, level) ∈ named → Asks (.name t) level

theorem named_pairwise : named.Pairwise fun entry entry' => entry.1 ≠ entry'.1 := by
  decide

/-- An entry is found if no entry before it has its name. -/
theorem lookup_named {s : String} {level : Int} :
    named.lookup s = some level ↔ (s, level) ∈ named := by
  constructor
  · intro h
    obtain ⟨before, after, hnamed, _⟩ := List.lookup_eq_some_iff.mp h
    rw [hnamed]
    exact List.mem_append_right _ List.mem_cons_self
  · intro h
    obtain ⟨before, after, hnamed⟩ := List.append_of_mem h
    have hpairwise := named_pairwise
    rw [hnamed] at hpairwise ⊢
    refine List.lookup_eq_some_iff.mpr ⟨before, after, rfl, fun entry hentry => ?_⟩
    have hne := (List.pairwise_append.mp hpairwise).2.2 entry hentry _ List.mem_cons_self
    simpa using hne.symm

theorem level?_eq_some {choice : LevelChoice} {level : Int} :
    choice.level? = some level ↔ choice.Asks level := by
  cases choice with
  | number level' =>
    constructor
    · intro h
      rw [← Option.some.inj h]
      exact .number level'
    · intro h
      cases h
      rfl
  | name t =>
    refine Iff.trans lookup_named ⟨.name, fun h => ?_⟩
    cases h with
    | name hmem => exact hmem

end LevelChoice

/-! ## Tidy journals -/

def Handler.isStream : Handler → Bool
  | silent => false
  | stream _ => true

namespace Journal

/-- How a session leaves a journal.  A stream handler that is attached is the one
that was made last. -/
structure Tidy (j : Journal) : Prop where
  handlers : ∃ n, j.handlers ∈ [[], [.silent], [.stream n], [.silent, .stream n]]
  remembered : ∀ n, .stream n ∈ j.handlers → j.remembered? = some (.stream n)

theorem tidy_initial : initial.Tidy where
  handlers := ⟨0, by decide⟩
  remembered n h := by simp [initial] at h

theorem Tidy.clearHandlers {j : Journal} : j.clearHandlers.Tidy where
  handlers := ⟨0, List.mem_cons_self⟩
  remembered n h := by cases h

/-- What configuring does to a journal.  No handler goes or moves, and there is
one stream handler, the one that was made last. -/
structure Configured (level : Int) (j j' : Journal) : Prop where
  level : j'.level = level
  kept : j.handlers <+: j'.handlers
  one : j'.handlers.countP Handler.isStream = 1
  tidy : j'.Tidy

section

variable {j : Journal} {level : Int}

theorem remembered?_eq_stream {h : Handler} (hj : j.remembered? = some h) : ∃ n, h = .stream n := by
  unfold remembered? at hj
  split at hj
  · cases hj
  · cases hj
    exact ⟨_, rfl⟩

theorem attached_eq_true : j.attached = true ↔ ∃ h ∈ j.handlers, j.remembered? = some h := by
  unfold attached
  cases j.remembered? with
  | none => simp
  | some h => simp

/-- The remembered handler is there, so there is nothing to add. -/
theorem Tidy.configured_of_attached (htidy : j.Tidy) (h : j.attached = true) :
    Configured level j { j with level } where
  level := rfl
  kept := List.prefix_rfl
  one := by
    obtain ⟨handler, hmem, hremembered⟩ := attached_eq_true.mp h
    obtain ⟨n, rfl⟩ := remembered?_eq_stream hremembered
    obtain ⟨m, hhandlers⟩ := htidy.handlers
    simp only [List.mem_cons, List.not_mem_nil, or_false] at hhandlers
    rcases hhandlers with hj | hj | hj | hj
    · simp [hj] at hmem
    · simp [hj] at hmem
    · simp [hj, Handler.isStream]
    · simp [hj, Handler.isStream]
  tidy := ⟨htidy.handlers, htidy.remembered⟩

/-- A stream handler that is attached would be remembered. -/
theorem Tidy.not_stream (htidy : j.Tidy) (h : j.attached = false) (n : Nat) :
    .stream n ∉ j.handlers := by
  intro hmem
  have hattached := attached_eq_true.mpr ⟨_, hmem, htidy.remembered n hmem⟩
  rw [h] at hattached
  cases hattached

theorem Tidy.configured_of_not_attached (htidy : j.Tidy) (h : j.attached = false) :
    Configured level j
      { level, handlers := j.handlers ++ [.stream j.made], made := j.made + 1 } := by
  obtain ⟨m, hhandlers⟩ := htidy.handlers
  have hnone := htidy.not_stream h m
  simp only [List.mem_cons, List.not_mem_nil, or_false] at hhandlers
  have hj : j.handlers = [] ∨ j.handlers = [.silent] := by
    rcases hhandlers with hj | hj | hj | hj
    · exact .inl hj
    · exact .inr hj
    · simp [hj] at hnone
    · simp [hj] at hnone
  have hremembered : ∀ n, .stream n ∈ j.handlers ++ [.stream j.made] → n = j.made := by
    intro n hn
    rcases hj with hj | hj
    · simpa [hj] using hn
    · simpa [hj] using hn
  refine ⟨rfl, List.prefix_append _ _, ?_, ⟨j.made, ?_⟩, fun n hn => ?_⟩
  · rcases hj with hj | hj <;> simp [hj, Handler.isStream]
  · rcases hj with hj | hj <;> simp [hj]
  · rw [hremembered n hn]
    rfl

theorem Tidy.configured (htidy : j.Tidy) (choice : LevelChoice) :
    (∃ level j', choice.Asks level ∧ j.configure? choice = some j' ∧ Configured level j j') ∨
      (∀ level, ¬ choice.Asks level) ∧ j.configure? choice = none := by
  unfold configure?
  cases hlevel : choice.level? with
  | none =>
    refine .inr ⟨fun level hasks => ?_, rfl⟩
    rw [LevelChoice.level?_eq_some.mpr hasks] at hlevel
    cases hlevel
  | some level =>
    refine .inl ⟨level, _, LevelChoice.level?_eq_some.mp hlevel, rfl, ?_⟩
    dsimp only
    cases hattached : j.attached with
    | true => exact htidy.configured_of_attached hattached
    | false => exact htidy.configured_of_not_attached hattached

end

end Journal

/-! ## Sessions -/

namespace Console

def Request.IsEvaluation : Request → Prop
  | .configure _ | .clearHandlers => False
  | .evaluate .. | .evaluateResult .. | .evaluateTree .. => True

open Journal

theorem step_configure_some {j j' : Journal} {choice : LevelChoice}
    (h : j.configure? choice = some j') :
    Request.step j (.configure choice) = { answer := .done, journal := j', written := [] } := by
  simp only [Request.step, h]

theorem step_configure_none {j : Journal} {choice : LevelChoice} (h : j.configure? choice = none) :
    Request.step j (.configure choice) =
      { answer := .unknownLevel choice, journal := j, written := [] } := by
  simp only [Request.step, h]

theorem Request.tidy_step {j : Journal} (h : j.Tidy) (request : Request) :
    (request.step j).journal.Tidy := by
  cases request with
  | configure choice =>
    rcases h.configured choice with ⟨_, j', _, hconfigure, hconfigured⟩ | ⟨_, hconfigure⟩
    · rw [step_configure_some hconfigure]
      exact hconfigured.tidy
    · rw [step_configure_none hconfigure]
      exact h
  | clearHandlers => exact Tidy.clearHandlers
  | evaluate settings expression | evaluateResult settings expression => exact h
  | evaluateTree settings expression root => exact h

theorem tidy_run {j : Journal} (h : j.Tidy) (requests : List Request) : (run j requests).Tidy := by
  induction requests generalizing j with
  | nil => exact h
  | cons request requests ih => exact ih (request.tidy_step h)

/-- Whatever was requested before, the journal is tidy, configuring it attaches
one stream handler or changes nothing, and evaluations neither change it nor
depend on it. -/
theorem journal_of_session (requests : List Request) :
    let j := run Journal.initial requests
    j.Tidy ∧
      (∀ choice,
        (∃ level j', choice.Asks level ∧ Configured level j j' ∧
          Request.step j (.configure choice) = { answer := .done, journal := j', written := [] }) ∨
        (∀ level, ¬ choice.Asks level) ∧
          Request.step j (.configure choice) =
            { answer := .unknownLevel choice, journal := j, written := [] }) ∧
      ∀ request : Request, request.IsEvaluation →
        (request.step j).journal = j ∧
          ∀ j', (request.step j').answer = (request.step j).answer := by
  intro j
  have htidy : j.Tidy := tidy_run tidy_initial requests
  refine ⟨htidy, fun choice => ?_, fun request hrequest => ?_⟩
  · rcases htidy.configured choice with
      ⟨level, j', hasks, hconfigure, hconfigured⟩ | ⟨hasks, hconfigure⟩
    · exact .inl ⟨level, j', hasks, hconfigured, step_configure_some hconfigure⟩
    · exact .inr ⟨hasks, step_configure_none hconfigure⟩
  · cases request with
    | configure choice => exact hrequest.elim
    | clearHandlers => exact hrequest.elim
    | evaluate settings expression | evaluateResult settings expression => exact ⟨rfl, fun _ => rfl⟩
    | evaluateTree settings expression root => exact ⟨rfl, fun _ => rfl⟩

/-- A stream handler that was taken away is not attached again. -/
example : run Journal.initial [.configure (.number 10), .clearHandlers,
      .configure (.name ['I', 'N', 'F', 'O'])] =
    { level := 20, handlers := [.stream 1], made := 2 } := by
  decide

end Console
end Reckon
