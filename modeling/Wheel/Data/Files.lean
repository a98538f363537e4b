import Mathlib

/-!
# Directories of hard links

A `Dir π β` maps paths to links: the inode a path names, and what that inode
holds. Two links with one inode hold the same, and a new file gets an inode no
path names. The operations are those of a POSIX directory, each of which either
happens or fails: `put` replaces or creates a file, `rename` moves a link over
another one, and does nothing when both name one file.
-/

namespace Files

/-- What a path names. -/
structure Link (β : Type*) where
  inode : ℕ
  data : β
  deriving DecidableEq

/-- A directory. -/
structure Dir (π β : Type*) where
  entry : π → Option (Link β)
  next : ℕ
  bound : ∀ p l, entry p = some l → l.inode < next
  same : ∀ p q l m, entry p = some l → entry q = some m → l.inode = m.inode → l = m

namespace Dir

variable {π β : Type*} [DecidableEq π] (d : Dir π β)

/-- The directory without files. -/
def empty : Dir π β := ⟨fun _ => none, 0, nofun, nofun⟩

/-- What a path holds. -/
def data? (p : π) : Option β := (d.entry p).map Link.data

/-- Is there a file at the path? -/
def has (p : π) : Bool := (d.entry p).isSome

/-- Make a path name what another one names, or nothing. -/
def setLink (p : π) (l : Option (Link β)) (hl : ∀ m, l = some m → ∃ q, d.entry q = some m) :
    Dir π β where
  entry := Function.update d.entry p l
  next := d.next
  bound q m hm := by
    rw [Function.update_apply] at hm
    split at hm
    · obtain ⟨q', hq'⟩ := hl m hm
      exact d.bound q' m hq'
    · exact d.bound q m hm
  same q r m n hm hn := by
    have hold : ∀ x k, Function.update d.entry p l x = some k → ∃ y, d.entry y = some k := by
      intro x k hk
      rw [Function.update_apply] at hk
      split at hk
      · exact hl k hk
      · exact ⟨x, hk⟩
    obtain ⟨q', hq'⟩ := hold q m hm
    obtain ⟨r', hr'⟩ := hold r n hn
    exact d.same q' r' m n hq' hr'

/-- Put a new file at a path. -/
def put (p : π) (b : β) : Dir π β where
  entry := Function.update d.entry p (some ⟨d.next, b⟩)
  next := d.next + 1
  bound q m hm := by
    rw [Function.update_apply] at hm
    split at hm
    · cases hm
      exact Nat.lt_succ_self _
    · exact (d.bound q m hm).trans (Nat.lt_succ_self _)
  same q r m n hm hn h := by
    rw [Function.update_apply] at hm hn
    split at hm <;> split at hn
    · cases hm
      cases hn
      rfl
    · cases hm
      exact absurd h.symm (d.bound r n hn).ne
    · cases hn
      exact absurd h (d.bound q m hm).ne
    · exact d.same q r m n hm hn h

/-- Delete a link. -/
def remove (p : π) : Dir π β := d.setLink p none nofun

/-- Make a path name what another one names. -/
def repoint (p q : π) : Dir π β := d.setLink q (d.entry p) fun _ h => ⟨p, h⟩

/-- Make a second link to a file; the new path must be free. -/
def link (p q : π) : Option (Dir π β) :=
  if d.has p && !d.has q then some (d.repoint p q) else none

/-- Do the paths name one file? -/
def sameFile (p q : π) : Bool := (d.entry p).map Link.inode == (d.entry q).map Link.inode

/-- Move a link over another one. -/
def rename (p q : π) : Option (Dir π β) :=
  if !d.has p then none
  else if d.sameFile p q then some d
  else some ((d.repoint p q).remove p)

variable {d}

theorem data?_setLink (p : π) (l : Option (Link β))
    (hl : ∀ m, l = some m → ∃ q, d.entry q = some m) (q : π) :
    (d.setLink p l hl).data? q = if q = p then l.map Link.data else d.data? q := by
  simp only [data?, setLink, Function.update_apply]
  split
  · rfl
  · rfl

theorem data?_repoint (p q r : π) :
    (d.repoint p q).data? r = if r = q then d.data? p else d.data? r :=
  data?_setLink q (d.entry p) _ r

omit [DecidableEq π] in
theorem has_eq_true_iff (p : π) : d.has p = true ↔ d.data? p ≠ none := by
  rw [has, data?]
  cases d.entry p with
  | none => simp
  | some l => simp

omit [DecidableEq π] in
theorem has_eq_false_iff (p : π) : d.has p = false ↔ d.data? p = none := by
  rw [Bool.eq_false_iff, Ne, has_eq_true_iff, not_not]

omit [DecidableEq π] in
/-- One file holds one thing. -/
theorem data?_eq_of_sameFile {p q : π} (h : d.sameFile p q = true) : d.data? p = d.data? q := by
  rw [sameFile, beq_iff_eq] at h
  rw [data?, data?]
  cases hp : d.entry p with
  | none =>
      rw [hp] at h
      rw [Option.map_eq_none_iff.mp h.symm]
  | some l =>
      rw [hp] at h
      obtain ⟨m, hm, hi⟩ := Option.map_eq_some_iff.mp h.symm
      rw [hm, d.same q p m l hm hp hi]

@[simp] theorem data?_put (p : π) (b : β) (q : π) :
    (d.put p b).data? q = if q = p then some b else d.data? q := by
  simp only [data?, put, Function.update_apply]
  split
  · rfl
  · rfl

@[simp] theorem data?_remove (p q : π) :
    (d.remove p).data? q = if q = p then none else d.data? q := data?_setLink p none nofun q

/-- A link can be made of what is there, where nothing is. -/
theorem exists_link {p q : π} (hp : d.data? p ≠ none) (hq : d.data? q = none) :
    ∃ d', d.link p q = some d' := by
  rw [link, (has_eq_true_iff p).mpr hp, (has_eq_false_iff q).mpr hq]
  exact ⟨_, rfl⟩

theorem data?_link {d' : Dir π β} {p q : π} (h : d.link p q = some d') (r : π) :
    d'.data? r = if r = q then d.data? p else d.data? r := by
  rw [link] at h
  split at h
  · cases h
    exact data?_repoint p q r
  · cases h

theorem exists_rename {p : π} (hp : d.data? p ≠ none) (q : π) :
    ∃ d', d.rename p q = some d' := by
  rw [rename, (has_eq_true_iff p).mpr hp]
  cases d.sameFile p q with
  | true => exact ⟨_, rfl⟩
  | false => exact ⟨_, rfl⟩

/-- Whether or not both name one file, the target then holds what was moved. -/
theorem data?_rename_target {d' : Dir π β} {p q : π} (h : d.rename p q = some d') :
    d'.data? q = d.data? p := by
  rw [rename] at h
  split at h
  · cases h
  split at h
  · rename_i hsame
    cases h
    exact (data?_eq_of_sameFile hsame).symm
  · rename_i hsame
    cases h
    have hne : q ≠ p := by
      rintro rfl
      exact hsame (beq_self_eq_true _)
    rw [data?_remove, if_neg hne, data?_repoint, if_pos rfl]

/-- What was moved is gone, unless both name one file. -/
theorem data?_rename_source {d' : Dir π β} {p q : π} (h : d.rename p q = some d') :
    d'.data? p = none ∨ d' = d := by
  rw [rename] at h
  split at h
  · cases h
  split at h
  · cases h
    exact .inr rfl
  · cases h
    exact .inl (by rw [data?_remove, if_pos rfl])

/-- Other paths hold what they held. -/
theorem data?_rename_of_ne {d' : Dir π β} {p q r : π} (h : d.rename p q = some d')
    (hp : r ≠ p) (hq : r ≠ q) : d'.data? r = d.data? r := by
  rw [rename] at h
  split at h
  · cases h
  split at h
  · cases h
    rfl
  · cases h
    rw [data?_remove, if_neg hp, data?_repoint, if_neg hq]

end Dir

end Files
