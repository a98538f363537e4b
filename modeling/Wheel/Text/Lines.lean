import Wheel.Text.Search

/-!
# The lines of a text

`rawLines` cuts a text at its line feeds, and `lines` leaves out a carriage return before one, as
text is usually read by lines. `unlines` puts a line feed behind each line.
-/

namespace Text

/-- What stands between the line feeds, less an empty line at the end. -/
def rawLines (x : List Char) : List (List Char) :=
  (x.splitOn '\n').dropLast ++ ((x.splitOn '\n').getLast?.toList.filter (· ≠ []))

/-- A line without the carriage return at its end. -/
def dropCr (x : List Char) : List Char := if x.getLast? = some '\r' then x.dropLast else x

/-- The lines of a text. One that no line feed ends keeps its carriage return. -/
def lines (x : List Char) : List (List Char) :=
  (x.splitOn '\n').dropLast.map dropCr ++ ((x.splitOn '\n').getLast?.toList.filter (· ≠ []))

def unlines (lines : List (List Char)) : List Char := lines.flatMap (· ++ ['\n'])

theorem dropCr_of_getLast? {x : List Char} (h : x.getLast? ≠ some '\r') : dropCr x = x := if_neg h

theorem length_dropCr_le (x : List Char) : (dropCr x).length ≤ x.length := by
  unfold dropCr
  split
  · simp
  · exact Nat.le_refl _

theorem mem_of_mem_dropCr {c : Char} {x : List Char} (h : c ∈ dropCr x) : c ∈ x := by
  unfold dropCr at h
  split at h
  · exact List.dropLast_subset _ h
  · exact h

/-- A line is left as it is exactly when no carriage return ends it. -/
theorem dropCr_eq_self_iff {x : List Char} : dropCr x = x ↔ x.getLast? ≠ some '\r' := by
  constructor
  · intro h hlast
    rw [dropCr, if_pos hlast] at h
    have hne : x ≠ [] := by
      rintro rfl
      cases hlast
    have hlength := congrArg List.length h
    rw [List.length_dropLast] at hlength
    have hpos := List.length_pos_iff.2 hne
    omega
  · exact dropCr_of_getLast?

theorem splitOn_unlines {ls : List (List Char)} (h : ∀ x ∈ ls, '\n' ∉ x) :
    (unlines ls).splitOn '\n' = ls ++ [[]] := by
  induction ls with
  | nil => rfl
  | cons x ls ih =>
      have hcut := List.splitOn_append_cons_self_of_not_mem (h x (.head _)) (unlines ls)
      rw [ih fun y hy => h y (.tail _ hy)] at hcut
      rw [unlines, List.flatMap_cons, List.append_assoc, List.singleton_append]
      exact hcut

theorem rawLines_unlines {ls : List (List Char)} (h : ∀ x ∈ ls, '\n' ∉ x) :
    rawLines (unlines ls) = ls := by
  rw [rawLines, splitOn_unlines h]
  simp

theorem lines_unlines {ls : List (List Char)} (h : ∀ x ∈ ls, '\n' ∉ x)
    (hcr : ∀ x ∈ ls, x.getLast? ≠ some '\r') : lines (unlines ls) = ls := by
  have hmap : ls.map dropCr = ls :=
    (List.map_congr_left fun x hx => dropCr_of_getLast? (hcr x hx)).trans (List.map_id _)
  rw [lines, splitOn_unlines h]
  simp [hmap]

theorem newline_not_mem_rawLines {t x : List Char} (h : x ∈ rawLines t) : '\n' ∉ x := by
  rcases List.mem_append.1 h with h | h
  · exact not_mem_of_mem_splitOn (List.dropLast_subset _ h)
  · have hlast := (List.mem_filter.1 h).1
    rw [Option.mem_toList] at hlast
    exact not_mem_of_mem_splitOn (List.mem_of_getLast? hlast)

theorem newline_not_mem_lines {t x : List Char} (h : x ∈ lines t) : '\n' ∉ x := by
  rcases List.mem_append.1 h with h | h
  · obtain ⟨y, hy, rfl⟩ := List.mem_map.1 h
    exact fun hn => newline_not_mem_rawLines (List.mem_append_left _ hy) (mem_of_mem_dropCr hn)
  · exact newline_not_mem_rawLines (List.mem_append_right _ h)

/-- When no line that is read ends in a carriage return, each is the raw line without one. -/
theorem lines_eq_map {t : List Char} (h : ∀ x ∈ lines t, x.getLast? ≠ some '\r') :
    lines t = (rawLines t).map dropCr := by
  rw [rawLines, List.map_append, lines]
  congr 1
  refine ((List.map_congr_left fun x hx => ?_).trans (List.map_id _)).symm
  exact dropCr_of_getLast? (h x (List.mem_append_right _ hx))

end Text
