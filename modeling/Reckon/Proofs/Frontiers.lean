/-
What a frontier holds after a row of misses.

The furthest offset is the greatest of all, and the labels are those recorded
there, so only the set of the misses matters.
-/
import Reckon.Reading.Miss

namespace Reckon
namespace Frontier

theorem furthest_record (f : Frontier) (m : Miss) :
    (f.record m).furthest = max f.furthest m.pos := by
  unfold record
  split
  · simp only; omega
  · split
    · simp only; omega
    · omega

theorem mem_expected_record (f : Frontier) (m : Miss) (l : Label) :
    l ∈ (f.record m).expected ↔
      (f.furthest = (f.record m).furthest ∧ l ∈ f.expected) ∨
        m = { pos := (f.record m).furthest, label := l } := by
  obtain ⟨pos, label⟩ := m
  unfold record
  split
  · next h =>
    have hne : f.furthest ≠ pos := Nat.ne_of_lt h
    simp [hne, eq_comm]
  · split
    · next h =>
      obtain rfl : pos = f.furthest := h
      simp [List.mem_insert_iff, or_comm, eq_comm]
    · next h => simp [h]

theorem furthest_le_recordAll (f : Frontier) (ms : List Miss) :
    f.furthest ≤ (f.recordAll ms).furthest := by
  induction ms generalizing f with
  | nil => exact Nat.le_refl _
  | cons m ms ih =>
    have := furthest_record f m
    have := ih (f.record m)
    rw [recordAll_cons]
    omega

theorem pos_le_recordAll {f : Frontier} {ms : List Miss} {m : Miss} (h : m ∈ ms) :
    m.pos ≤ (f.recordAll ms).furthest := by
  induction ms generalizing f with
  | nil => cases h
  | cons m' ms ih =>
    rcases List.mem_cons.mp h with rfl | h
    · have := furthest_record f m
      have := furthest_le_recordAll (f.record m) ms
      rw [recordAll_cons]
      omega
    · exact ih h

theorem furthest_recordAll_eq (f : Frontier) (ms : List Miss) :
    (f.recordAll ms).furthest = f.furthest ∨ ∃ m ∈ ms, (f.recordAll ms).furthest = m.pos := by
  induction ms generalizing f with
  | nil => exact .inl rfl
  | cons m ms ih =>
    rcases ih (f.record m) with h | ⟨m', hm', h⟩
    · rw [recordAll_cons, h, furthest_record]
      rcases Nat.le_total m.pos f.furthest with hle | hle
      · exact .inl (Nat.max_eq_left hle)
      · exact .inr ⟨m, List.mem_cons_self, Nat.max_eq_right hle⟩
    · exact .inr ⟨m', List.mem_cons_of_mem _ hm', h⟩

theorem mem_expected_recordAll (f : Frontier) (ms : List Miss) (l : Label) :
    l ∈ (f.recordAll ms).expected ↔
      (f.furthest = (f.recordAll ms).furthest ∧ l ∈ f.expected) ∨
        { pos := (f.recordAll ms).furthest, label := l } ∈ ms := by
  induction ms generalizing f with
  | nil => simp
  | cons m ms ih =>
    have hle := furthest_record f m
    have hle' := furthest_le_recordAll (f.record m) ms
    rw [recordAll_cons, ih, mem_expected_record]
    constructor
    · intro h
      rcases h with ⟨heq, ⟨heq', hl⟩ | hm⟩ | hmem
      · exact .inl ⟨heq'.trans heq, hl⟩
      · exact .inr (List.mem_cons.mpr (.inl (by rw [← heq]; exact hm.symm)))
      · exact .inr (List.mem_cons_of_mem _ hmem)
    · intro h
      rcases h with ⟨heq, hl⟩ | hmem
      · exact .inl ⟨by omega, .inl ⟨by omega, hl⟩⟩
      · rcases List.mem_cons.mp hmem with hm | hmem
        · have hpos := congrArg Miss.pos hm
          dsimp only at hpos
          have heq : (f.record m).furthest = ((f.record m).recordAll ms).furthest := by omega
          exact .inl ⟨heq, .inr (by rw [heq, hm])⟩
        · exact .inr hmem

theorem labels_congr {f g : Frontier} (h : ∀ l, l ∈ f.expected ↔ l ∈ g.expected) :
    f.labels = g.labels := by
  unfold labels
  simp only [h]

end Frontier
end Reckon
