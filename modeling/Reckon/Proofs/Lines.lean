/-
Lines and columns of a text.

The lines of a text are its pieces between line feeds.  A line begins where all
lines before it end, each with its line feed.  So an offset is known from the
line in which it lies and from its distance to the beginning of that line, and
offsets are in the order of their lines and, within a line, of their columns.
-/
import Mathlib.Algebra.GroupWithZero.Nat
import Reckon.Proofs.Settling

namespace Reckon
namespace Text

/-! ## Lines -/

def lines (t : Text) : List Text :=
  t.splitOn '\n'

/-- The offset at which the line begins that has so many lines before it. -/
def lineStart (t : Text) (before : Nat) : Nat :=
  ((t.lines.take before).map fun piece => piece.length + 1).sum

theorem lines_cons_lineFeed (t : Text) : lines ('\n' :: t) = [] :: lines t := by
  simp [lines, List.splitOn_cons_eq_if_modifyHead]

theorem lines_cons {c : Char} (h : c ≠ '\n') (t : Text) :
    lines (c :: t) = (lines t).modifyHead (c :: ·) := by
  simp [lines, List.splitOn_cons_eq_if_modifyHead, h]

theorem exists_lines_eq_cons (t : Text) : ∃ piece pieces, lines t = piece :: pieces :=
  List.exists_cons_of_ne_nil (List.splitOn_ne_nil '\n' t)

theorem lines_append_lineFeed (t u : Text) : lines (t ++ '\n' :: u) = lines t ++ lines u :=
  List.splitOn_append_cons_self t u

/-- What has no line feed is the beginning of the first line. -/
theorem exists_lines_append {t : Text} (h : '\n' ∉ t) (u : Text) :
    ∃ rest pieces, lines (t ++ u) = (t ++ rest) :: pieces := by
  induction t with
  | nil => exact exists_lines_eq_cons u
  | cons c t ih =>
    obtain ⟨hc, ht⟩ := not_or.mp (mt List.mem_cons.mpr h)
    obtain ⟨rest, pieces, hlines⟩ := ih ht
    exact ⟨rest, pieces, by rw [List.cons_append, lines_cons (Ne.symm hc), hlines]; rfl⟩

theorem length_lines (t : Text) : t.lines.length = t.count '\n' + 1 := by
  induction t with
  | nil => rfl
  | cons c t ih =>
    by_cases hc : c = '\n'
    · subst hc
      rw [lines_cons_lineFeed, List.length_cons, ih, List.count_cons_self]
    · rw [lines_cons hc, List.length_modifyHead, ih, List.count_cons_of_ne hc]

/-- Every line is followed by a line feed but the last one. -/
theorem sum_length_lines (t : Text) :
    (t.lines.map fun piece => piece.length + 1).sum = t.length + 1 := by
  induction t with
  | nil => rfl
  | cons c t ih =>
    by_cases hc : c = '\n'
    · subst hc
      rw [lines_cons_lineFeed, List.map_cons, List.sum_cons, ih]
      simp only [List.length_nil, List.length_cons]
      omega
    · obtain ⟨piece, pieces, hlines⟩ := exists_lines_eq_cons t
      rw [hlines, List.map_cons, List.sum_cons] at ih
      rw [lines_cons hc, hlines, List.modifyHead_cons, List.map_cons, List.sum_cons]
      simp only [List.length_cons]
      omega

/-! ## The last line before an offset -/

theorem lastLineStart_of_not_mem {t : Text} (h : '\n' ∉ t) : lastLineStart t = 0 := by
  have hall : ∀ c ∈ t.reverse, (c != '\n') = true := by
    intro c hc
    exact bne_iff_ne.mpr fun heq => h (heq ▸ List.mem_reverse.mp hc)
  rw [lastLineStart, List.dropWhile_eq_nil_iff.mpr hall]
  rfl

theorem lastLineStart_append {u : Text} (h : '\n' ∉ u) (t : Text) :
    lastLineStart (t ++ '\n' :: u) = t.length + 1 := by
  have hall : ∀ c ∈ u.reverse, (c != '\n') = true := by
    intro c hc
    exact bne_iff_ne.mpr fun heq => h (heq ▸ List.mem_reverse.mp hc)
  rw [lastLineStart, List.reverse_append, List.reverse_cons, List.append_assoc,
    List.dropWhile_append_of_pos hall]
  simp

/-- A text is some whole lines and a piece of one more, with which any text after
it goes on. -/
theorem exists_lastLine (t : Text) :
    ∃ (pieces : List Text) (last : Text), '\n' ∉ last ∧
      (∀ u, lines (t ++ u) = pieces ++ lines (last ++ u)) ∧
      t.count '\n' = pieces.length ∧
      lastLineStart t = (pieces.map fun piece => piece.length + 1).sum ∧
      t.length = lastLineStart t + last.length := by
  by_cases hmem : '\n' ∈ t
  · obtain ⟨last, before, hreverse, hlast⟩ :=
      List.eq_append_cons_of_mem (List.mem_reverse.mpr hmem)
    have ht : t = before.reverse ++ '\n' :: last.reverse := by
      rw [← List.reverse_reverse t, hreverse]
      simp
    have hlast' : '\n' ∉ last.reverse := fun h => hlast (List.mem_reverse.mp h)
    refine ⟨lines before.reverse, last.reverse, hlast', fun u => ?_, ?_, ?_, ?_⟩
    · rw [ht, List.append_assoc, List.cons_append, lines_append_lineFeed]
    · rw [ht, length_lines, List.count_append, List.count_cons_self,
        List.count_eq_zero_of_not_mem hlast']
    · rw [ht, lastLineStart_append hlast', sum_length_lines]
    · rw [ht, lastLineStart_append hlast', List.length_append, List.length_cons]
      omega
  · exact ⟨[], t, hmem, fun u => rfl, List.count_eq_zero_of_not_mem hmem,
      lastLineStart_of_not_mem hmem, by rw [lastLineStart_of_not_mem hmem, Nat.zero_add]⟩

/-! ## Names of offsets -/

/-- The offset is the one with the given line and column, both counted from one.
The column may be the one after the line, where the line feed is or the text
ends. -/
structure Locates (t : Text) (line : Nat) (column p : Int) : Prop where
  line_pos : 1 ≤ line
  line_le : line ≤ t.lines.length
  column_pos : 1 ≤ column
  column_le : ∃ piece, t.lines[line - 1]? = some piece ∧ column ≤ piece.length + 1
  offset : t.lineStart (line - 1) + (column - 1) = p

theorem before_of_nonneg {p : Int} (h : 0 ≤ p) (t : Text) : before t p = t.take p.toNat := by
  rw [before, if_neg (by omega)]

theorem locates {t : Text} {p : Int} (h : 0 ≤ p) (hp : p ≤ t.length) :
    t.Locates (t.line p) (t.column p) p := by
  obtain ⟨pieces, last, hlast, hlines, hcount, hstart, hlength⟩ := exists_lastLine (before t p)
  have hbefore : (before t p).length = p.toNat := by
    rw [before_of_nonneg h, List.length_take]
    omega
  have hcolumn : t.column p = last.length + 1 := by
    rw [column]
    omega
  have hline : t.line p - 1 = pieces.length := by
    rw [line, hcount, Nat.add_sub_cancel]
  obtain ⟨rest, more, hmore⟩ := exists_lines_append hlast (t.drop p.toNat)
  have ht : t.lines = pieces ++ (last ++ rest) :: more := by
    rw [← hmore, ← hlines, before_of_nonneg h, List.take_append_drop]
  refine ⟨Nat.le_add_left _ _, ?_, ?_, ⟨last ++ rest, ?_, ?_⟩, ?_⟩
  · rw [line, hcount, ht, List.length_append, List.length_cons]
    omega
  · rw [hcolumn]
    omega
  · rw [hline, ht, List.getElem?_append_right (Nat.le_refl _), Nat.sub_self]
    rfl
  · rw [hcolumn, List.length_append]
    omega
  · rw [hline, lineStart, ht, List.take_left, ← hstart, hcolumn]
    omega

section

variable {t : Text} {l l' : Nat} {c c' p q : Int}

theorem lineStart_add_le {piece : Text} {k n : Nat} (hpiece : t.lines[k]? = some piece)
    (h : k < n) : t.lineStart k + (piece.length + 1) ≤ t.lineStart n := by
  have hsucc : t.lines.take (k + 1) = t.lines.take k ++ [piece] := by
    rw [List.take_add_one, hpiece]
    rfl
  have htake : t.lines.take n = t.lines.take (k + 1) ++ (t.lines.take n).drop (k + 1) := by
    conv_lhs => rw [← List.take_append_drop (k + 1) (t.lines.take n)]
    rw [List.take_take, Nat.min_eq_left h]
  rw [lineStart, lineStart, htake, hsucc]
  simp only [List.map_append, List.sum_append, List.map_cons, List.map_nil, List.sum_singleton]
  omega

/-- Everything on one line comes before everything on a later one. -/
theorem Locates.lt_of_line_lt (h : t.Locates l c p) (h' : t.Locates l' c' q) (hlt : l < l') :
    p < q := by
  obtain ⟨piece, hpiece, hcolumn⟩ := h.column_le
  have hline := h.line_pos
  have hle := lineStart_add_le hpiece (show l - 1 < l' - 1 by omega)
  have hp := h.offset
  have hq := h'.offset
  have hpos := h'.column_pos
  omega

theorem Locates.lt_iff (h : t.Locates l c p) (h' : t.Locates l' c' q) :
    p < q ↔ l < l' ∨ l = l' ∧ c < c' := by
  rcases Nat.lt_trichotomy l l' with hlt | heq | hgt
  · exact iff_of_true (h.lt_of_line_lt h' hlt) (.inl hlt)
  · subst heq
    have hp := h.offset
    have hq := h'.offset
    omega
  · have hlt := h'.lt_of_line_lt h hgt
    omega

end

end Text

/-! ## Line and column of an offset -/

open Session in
/-- The line and the column of an offset are those where the offset lies among the
lines of the text.  They tell offsets apart and are in the same order, and every
syntax error has them, in a new session and in one that goes on. -/
theorem line_column_determine (t : Text) :
    (∀ p : Int, 0 ≤ p → p ≤ t.length → t.Locates (t.line p) (t.column p) p) ∧
    (∀ p q : Int, 0 ≤ p → p ≤ t.length → 0 ≤ q → q ≤ t.length →
      (t.line p = t.line q → t.column p = t.column q → p = q) ∧
      (p < q ↔ t.line p < t.line q ∨ t.line p = t.line q ∧ t.column p < t.column q)) ∧
    ∀ (limit : Int) (n p : Nat) (expected : List Label),
      answer limit t n = .error (.unexpected p expected) →
      ∃ message labels,
        (Fault.unexpected p expected).failure? t = some (.syntaxError message t p labels) ∧
        p ≤ t.length ∧ t.Locates (t.line p) (t.column p) p := by
  refine ⟨fun p h hp => Text.locates h hp, fun p q h hp h' hq => ⟨fun hline hcolumn => ?_, ?_⟩,
    fun limit n p expected hanswer => ⟨_, _, rfl, ?_⟩⟩
  · rw [← (Text.locates h hp).offset, ← (Text.locates h' hq).offset, hline, hcolumn]
  · exact (Text.locates h hp).lt_iff (Text.locates h' hq)
  · have hwithin := ((in_later limit t n).recognize limit).within.furthest_le
    rw [furthest_of_unexpected hanswer] at hwithin
    exact ⟨hwithin, Text.locates (Int.natCast_nonneg p) (Int.ofNat_le.mpr hwithin)⟩

/-- A factor is missing in the second line, and the line feed ends the first. -/
theorem locates_missing_factor :
    Session.answer 64 "(1\n+ *2".toList 0 =
      .error (.unexpected 5 [.openParen, .functionName, .number, .unaryMinus]) ∧
    Text.Locates "(1\n+ *2".toList 1 3 2 ∧ Text.Locates "(1\n+ *2".toList 2 3 5 ∧
    Text.line "(1\n+ *2".toList 2 < Text.line "(1\n+ *2".toList 5 := by
  have hanswer : Session.answer 64 "(1\n+ *2".toList 0 =
      .error (.unexpected 5 [.openParen, .functionName, .number, .unaryMinus]) := by
    decide +kernel
  obtain ⟨hlocates, horder, herror⟩ := line_column_determine "(1\n+ *2".toList
  obtain ⟨_, _, _, _, hfive⟩ := herror 64 0 5 _ hanswer
  obtain ⟨_, hlt⟩ := horder 2 5 (by decide) (by decide) (by decide) (by decide)
  refine ⟨hanswer, hlocates 2 (by decide) (by decide), hfive, ?_⟩
  -- The columns are the same, so the lines are not.
  exact (hlt.mp (by decide)).resolve_right fun h => absurd h.2 (by decide)

end Reckon
