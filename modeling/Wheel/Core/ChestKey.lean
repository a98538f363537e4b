import Wheel.Core.Validate
import Wheel.Text.PathWalk

/-!
# Keys of a chest

A key names a file below the directory of a chest. What `normalizeChestKey` answers is the key with
its named segments only, and `normalizeChestKey_confined` says that this is a spelling of its own for
every file that a key leads to, and that no key that is accepted leads out of the directory.
-/

namespace Wheel

open Text

/-- The named segments of a key. -/
def chestSegments (key : List Char) : List (List Char) := (key.splitOn '/').filter isNamed

variable {key out : List Char}

/-- What an accepted key has. -/
theorem normalizeChestKey_eq_ok (h : normalizeChestKey key = .ok out) :
    key.head? ≠ some '/' ∧ '\\' ∉ key ∧ '\x00' ∉ key ∧ ['.', '.'] ∉ chestSegments key ∧
      chestSegments key ≠ [] ∧ out = ['/'].intercalate (chestSegments key) := by
  unfold normalizeChestKey at h
  split at h
  · cases h
  · rename_i hchars
    simp only [Bool.or_eq_true, decide_eq_true_eq, List.contains_iff_mem, not_or] at hchars
    dsimp only at h
    split at h
    · cases h
    · rename_i hsegments
      simp only [Bool.or_eq_true, List.contains_iff_mem, List.isEmpty_iff, not_or] at hsegments
      cases h
      exact ⟨hchars.1.1, hchars.1.2, hchars.2, hsegments.1, hsegments.2, rfl⟩

theorem normalizeChestKey_of_segments (hhead : key.head? ≠ some '/') (hback : '\\' ∉ key)
    (hnul : '\x00' ∉ key) (hup : ['.', '.'] ∉ chestSegments key) (hne : chestSegments key ≠ []) :
    normalizeChestKey key = .ok (['/'].intercalate (chestSegments key)) := by
  unfold normalizeChestKey
  rw [if_neg]
  · dsimp only
    rw [if_neg]
    · rfl
    · simp only [Bool.or_eq_true, List.contains_iff_mem, List.isEmpty_iff, not_or]
      exact ⟨hup, hne⟩
  · simp only [Bool.or_eq_true, decide_eq_true_eq, List.contains_iff_mem, not_or]
    exact ⟨⟨hhead, hback⟩, hnul⟩

/-- The segments of what is answered are the named segments of the key. -/
theorem splitOn_of_normalizeChestKey (h : normalizeChestKey key = .ok out) :
    out.splitOn '/' = chestSegments key := by
  obtain ⟨-, -, -, -, hne, rfl⟩ := normalizeChestKey_eq_ok h
  refine List.splitOn_intercalate '/' (fun s hs => ?_) hne
  exact not_mem_of_mem_splitOn (List.mem_filter.1 hs).1

theorem isNamed_of_mem {s : List Char} (hs : s ∈ chestSegments key) : isNamed s = true :=
  (List.mem_filter.1 hs).2

/-- A character of what is answered is a slash or one of the key. -/
theorem mem_of_normalizeChestKey (h : normalizeChestKey key = .ok out) {c : Char} (hc : c ∈ out) :
    c = '/' ∨ c ∈ key := by
  obtain ⟨-, -, -, -, -, rfl⟩ := normalizeChestKey_eq_ok h
  rcases mem_of_mem_intercalate hc with hslash | ⟨s, hs, hcs⟩
  · exact .inl hslash
  · exact .inr (mem_of_mem_splitOn (List.mem_filter.1 hs).1 hcs)

/-- What is answered does not start with a slash. -/
theorem head?_of_normalizeChestKey (h : normalizeChestKey key = .ok out) :
    out.head? ≠ some '/' := by
  intro hhead
  obtain ⟨x, rfl⟩ := List.head?_eq_some_iff.1 hhead
  have hsegments := splitOn_of_normalizeChestKey h
  rw [List.splitOn_cons_eq_if_modifyHead, if_pos (by simp)] at hsegments
  have hempty : isNamed [] = true := isNamed_of_mem (hsegments ▸ List.mem_cons_self)
  cases hempty

/-- An accepted key leads down by its named segments. -/
theorem resolve_of_normalizeChestKey (h : normalizeChestKey key = .ok out)
    (dir : List (List Char)) : resolve dir key = dir ++ chestSegments key := by
  obtain ⟨hhead, -, -, hup, -, -⟩ := normalizeChestKey_eq_ok h
  have hnot : ['.', '.'] ∉ key.splitOn '/' := fun hm => hup (List.mem_filter.2 ⟨hm, by decide⟩)
  rw [resolve, if_neg hhead, walk_of_notMem hnot]
  rfl

theorem normalizeChestKey_idempotent (h : normalizeChestKey key = .ok out) :
    normalizeChestKey out = .ok out := by
  obtain ⟨-, hback, hnul, hup, hne, hout⟩ := normalizeChestKey_eq_ok h
  have hsame : chestSegments out = chestSegments key := by
    rw [chestSegments, splitOn_of_normalizeChestKey h]
    exact List.filter_eq_self.2 fun s hs => isNamed_of_mem hs
  have hchars : ∀ c, c ≠ '/' → c ∉ key → c ∉ out := fun c hslash hkey hc =>
    (mem_of_normalizeChestKey h hc).elim hslash hkey
  rw [normalizeChestKey_of_segments (head?_of_normalizeChestKey h) (hchars _ (by decide) hback)
    (hchars _ (by decide) hnul) (by rwa [hsame]) (by rwa [hsame]), hsame, ← hout]

/-- A key is refused, or made a relative path whose segments are names. That path is its own normal
form and leads to the same file, a file is the file of one path only, and no step on the way to it
leaves the directory. -/
theorem normalizeChestKey_confined (key : List Char) :
    (∃ e, normalizeChestKey key = .error e) ∨ ∃ out, normalizeChestKey key = .ok out ∧
      (out.head? ≠ some '/' ∧ ∀ s ∈ out.splitOn '/', s ≠ [] ∧ s ≠ ['.'] ∧ s ≠ ['.', '.']) ∧
      normalizeChestKey out = .ok out ∧
      (∀ dir, resolve dir out = resolve dir key) ∧
      (∀ key' out' dir, normalizeChestKey key' = .ok out' → resolve dir key' = resolve dir key →
        out' = out) ∧
      (∀ dir, resolve dir key ≠ dir ∧
        ∀ segments, segments <+: key.splitOn '/' → dir <+: walk dir segments) := by
  cases h : normalizeChestKey key with
  | error e => exact .inl ⟨e, rfl⟩
  | ok out =>
      obtain ⟨hhead, -, -, hup, hne, hout⟩ := normalizeChestKey_eq_ok h
      refine .inr ⟨out, rfl, ⟨head?_of_normalizeChestKey h, fun s hs => ?_⟩,
        normalizeChestKey_idempotent h, fun dir => ?_, fun key' out' dir h' hsame => ?_,
        fun dir => ⟨?_, fun segments hsegments => ?_⟩⟩
      · rw [splitOn_of_normalizeChestKey h] at hs
        have hnamed : s ≠ [] ∧ s ≠ ['.'] := of_decide_eq_true (isNamed_of_mem hs)
        exact ⟨hnamed.1, hnamed.2, fun he => hup (he ▸ hs)⟩
      · rw [resolve_of_normalizeChestKey h, resolve_of_normalizeChestKey
          (normalizeChestKey_idempotent h), chestSegments, splitOn_of_normalizeChestKey h]
        congr 1
        exact List.filter_eq_self.2 fun s hs => isNamed_of_mem hs
      · rw [resolve_of_normalizeChestKey h, resolve_of_normalizeChestKey h'] at hsame
        rw [hout, (normalizeChestKey_eq_ok h').2.2.2.2.2, List.append_cancel_left hsame]
      · rw [resolve_of_normalizeChestKey h]
        exact fun he => hne (List.append_right_eq_self.1 he)
      · have hnot : ['.', '.'] ∉ segments := fun hm =>
          hup (List.mem_filter.2 ⟨hsegments.subset hm, by decide⟩)
        rw [walk_of_notMem hnot]
        exact List.prefix_append _ _

end Wheel
