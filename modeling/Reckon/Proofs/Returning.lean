/-
A recognizer that is asked again.

A recognizer keeps its cursor, its depth and its frontier from one call to the
next.  Each call gives back the depth that it began at, however it ends, so all
of them begin at depth 0.  A session has no depth to keep, and that is why it
answers alike.
-/
import Reckon.Proofs.Discipline
import Reckon.Proofs.Resumption

namespace Reckon
namespace Walk

/-- The state in which a recognizer begins. -/
def State.ofText (t : Text) : State :=
  { cursor := Cursor.ofText t, depth := 0, frontier := Frontier.empty }

/-- The state in which a recognizer is after so many calls. -/
def later (limit : Int) (calls : Nat) (t : Text) : Nat → Option State
  | 0 => some (.ofText t)
  | n + 1 => (later limit calls t n).bind fun σ => (recognize limit calls t σ).map fun p => p.2

section

variable {limit : Int} {calls n : Nat} {t : Text} {σ τ : State} {outcome : Except Fault Node}

theorem later_succ (hσ : later limit calls t n = some σ)
    (hcall : recognize limit calls t σ = some (outcome, τ)) :
    later limit calls t (n + 1) = some τ := by
  rw [later, hσ, Option.bind_some, hcall, Option.map_some]

/-- A recognizer that is in the state of a session goes on as the session does. -/
theorem recognize_of_depth_eq_zero {s : Session} (hs : s.In t) (limit : Int)
    (hdepth : σ.depth = 0) (hσ : σ = .ofSession s σ.depth) (hcalls : 6 * t.length + 4 < calls) :
    recognize limit calls t σ =
      some ((s.recognize limit).1, .ofSession (s.recognize limit).2 0) := by
  have hrest := hs.cursor.length_rest_le
  rw [hσ, hdepth, ← hs.text_eq]
  exact recognize_eq (by omega)

/-- The induction is on the calls.  The depth is carried along by what every call
does to it, and the rest of the state by what a session does at depth 0. -/
theorem exists_later (limit : Int) (t : Text) (hcalls : 6 * t.length + 4 < calls) (n : Nat) :
    ∃ σ, later limit calls t n = some σ ∧ σ.depth = 0 ∧
      σ = .ofSession (Session.later limit t n) σ.depth := by
  induction n with
  | zero => exact ⟨.ofText t, rfl, rfl, rfl⟩
  | succ n ih =>
    obtain ⟨σ, hlater, hdepth, hsession⟩ := ih
    have hs := Session.in_later limit t n
    have hσ : σ.cursor.In t := by
      rw [hsession]
      exact hs.cursor
    obtain ⟨outcome, τ, hcall, hτ, _⟩ := recognize_disciplined hσ limit t hcalls
    have hsame := hcall.symm.trans (recognize_of_depth_eq_zero hs limit hdepth hsession hcalls)
    refine ⟨τ, later_succ hlater hcall, hτ.trans hdepth, ?_⟩
    rw [hτ, hdepth]
    exact congrArg Prod.snd (Option.some.inj hsame)

end

/-- Before each of its calls a recognizer is at depth 0, and the call answers as the
first call of a new recognizer does for what is left of the text.  So it answers
as a session does that is asked as often. -/
theorem resumes (limit : Int) (t : Text) (n : Nat) {calls : Nat}
    (hcalls : 6 * t.length + 4 < calls) :
    ∃ σ outcome τ fresh ρ,
      later limit calls t n = some σ ∧ σ.depth = 0 ∧ σ.cursor.In t ∧
      recognize limit calls t σ = some (outcome, τ) ∧ later limit calls t (n + 1) = some τ ∧
      recognize limit calls (t.drop σ.cursor.pos) (.ofText (t.drop σ.cursor.pos)) =
        some (fresh, ρ) ∧
      Resumed limit t σ.cursor.pos σ.frontier fresh outcome τ.cursor.pos ∧
      fresh = Reckon.recognize limit (t.drop σ.cursor.pos) ∧
      outcome = Session.answer limit t n ∧ σ = .ofSession (Session.later limit t n) 0 ∧
      ∀ times, n < times →
        (Session.answers limit times (Session.ofText t))[n]? = some outcome := by
  obtain ⟨σ, hlater, hdepth, hsession⟩ := exists_later limit t hcalls n
  have hs := Session.in_later limit t n
  have hcall := recognize_of_depth_eq_zero hs limit hdepth hsession hcalls
  rw [hdepth] at hsession
  subst hsession
  have hfresh : recognize limit calls (t.drop (Session.later limit t n).cursor.pos)
      (.ofText (t.drop (Session.later limit t n).cursor.pos)) = _ :=
    recognize_of_depth_eq_zero (Session.in_ofText _) limit rfl rfl
      (by rw [List.length_drop]; omega)
  exact ⟨_, _, _, _, _, hlater, rfl, hs.cursor, hcall, later_succ hlater hcall, hfresh,
    hs.resumed limit, rfl, rfl, rfl, fun _ hn => Session.getElem?_answers limit t hn⟩

/-- After a parenthesis that is too deep, the `1` behind it is an expression. -/
theorem resumes_after_parenthesis :
    ∃ σ root τ, later 0 17 ['(', '1'] 1 = some σ ∧ σ.depth = 0 ∧ σ.cursor.pos = 1 ∧
      recognize 0 17 ['(', '1'] σ = some (.ok root, τ) ∧ τ.cursor.pos = 2 := by
  obtain ⟨σ, outcome, τ, fresh, ρ, hlater, hdepth, _, hcall, _, _, hresumed, hfresh, _⟩ :=
    resumes 0 ['(', '1'] 1 (show 6 * 2 + 4 < 17 by decide)
  have hpos : (later 0 17 ['(', '1'] 1).map (fun σ => σ.cursor.pos) = some 1 := by decide +kernel
  rw [hlater] at hpos
  obtain hpos : σ.cursor.pos = 1 := Option.some.inj hpos
  have hone : (Reckon.recognize 0 ['1']).toOption.isSome = true := by decide +kernel
  rw [hpos] at hresumed hfresh
  obtain rfl : fresh = Reckon.recognize 0 ['1'] := hfresh
  generalize Reckon.recognize 0 ['1'] = fresh at hone hresumed
  generalize hstop : τ.cursor.pos = stop at hresumed
  cases hresumed with
  | tree => exact ⟨σ, _, τ, hlater, hdepth, hpos, hcall, hstop⟩
  | tooDeep _ => cases hone
  | unexpected _ => cases hone

end Walk
end Reckon
