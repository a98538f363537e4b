import Mathlib.Data.List.Basic

/-!
# Walking a path

What a path leads to, by its segments: an empty one and `.` stay, `..` goes up, and any other goes
down to what it names. A path that starts with a slash starts at the root.
-/

namespace Text

/-- One segment of a path, from a place that is given by the names on the way to it. -/
def walkStep (place : List (List Char)) (s : List Char) : List (List Char) :=
  if s = [] ∨ s = ['.'] then place
  else if s = ['.', '.'] then place.dropLast
  else place ++ [s]

def walk (place : List (List Char)) (segments : List (List Char)) : List (List Char) :=
  segments.foldl walkStep place

/-- The place that a path leads to from a directory. -/
def resolve (dir : List (List Char)) (path : List Char) : List (List Char) :=
  walk (if path.head? = some '/' then [] else dir) (path.splitOn '/')

def isNamed (s : List Char) : Bool := s ≠ [] ∧ s ≠ ['.']

/-- A character of what is put together is of a part, or what is put between. -/
theorem mem_of_mem_intercalate {c d : Char} {parts : List (List Char)}
    (h : c ∈ [d].intercalate parts) : c = d ∨ ∃ p ∈ parts, c ∈ p := by
  induction parts with
  | nil => cases h
  | cons p parts ih =>
      cases parts with
      | nil =>
          rw [List.intercalate_singleton] at h
          exact .inr ⟨p, .head _, h⟩
      | cons q parts =>
          rw [List.intercalate_cons_cons, List.mem_append, List.mem_append,
            List.mem_singleton] at h
          rcases h with (h | h) | h
          · exact .inr ⟨p, .head _, h⟩
          · exact .inl h
          · rcases ih h with h | ⟨r, hr, h⟩
            · exact .inl h
            · exact .inr ⟨r, .tail _ hr, h⟩

/-- Without a segment that goes up a walk goes down by what is named. -/
theorem walk_of_notMem {segments : List (List Char)} (h : ['.', '.'] ∉ segments)
    (place : List (List Char)) : walk place segments = place ++ segments.filter isNamed := by
  induction segments generalizing place with
  | nil => rw [List.filter_nil, List.append_nil, walk, List.foldl_nil]
  | cons s segments ih =>
      rw [List.mem_cons, not_or] at h
      have hstep : walk place (s :: segments) = walk (walkStep place s) segments := rfl
      rw [hstep, ih h.2, walkStep]
      by_cases hs : s = [] ∨ s = ['.']
      · rw [if_pos hs, List.filter_cons_of_neg]
        rcases hs with rfl | rfl <;> decide
      · have hnamed : isNamed s = true := by
          rw [not_or] at hs
          exact decide_eq_true hs
        rw [if_neg hs, if_neg (Ne.symm h.1), List.filter_cons_of_pos hnamed, List.append_assoc,
          List.singleton_append]

end Text
