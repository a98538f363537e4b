import Mathlib

/-!
# Tables with a primary key

A `Keyed key` is a table of rows in the order in which they were inserted, no
two of which have the same `key`. `insert` refuses a taken key, `updateWhere`
and `deleteWhere` act on every row that meets a condition, and `get?` finds the
row of a key. An update must keep keys, so no operation can break the key.
-/

variable {α κ : Type*}

/-- Rows in order of insertion, with distinct keys. -/
structure Keyed (key : α → κ) where
  rows : List α
  nodup : (rows.map key).Nodup

namespace Keyed

variable {key : α → κ}

@[ext] theorem ext {t u : Keyed key} (h : t.rows = u.rows) : t = u := by
  cases t
  cases u
  cases h
  rfl

instance [DecidableEq α] : DecidableEq (Keyed key) := fun t u =>
  decidable_of_iff (t.rows = u.rows) ⟨ext, fun h => h ▸ rfl⟩

/-- The table without rows. -/
def empty : Keyed key := ⟨[], List.nodup_nil⟩

instance : Inhabited (Keyed key) := ⟨empty⟩

theorem map_key_ite {p : α → Bool} {f : α → α} (hf : ∀ a, key (f a) = key a) (x : List α) :
    (x.map fun a => if p a then f a else a).map key = x.map key := by
  rw [List.map_map]
  apply List.map_congr_left
  intro a _
  simp only [Function.comp_apply]
  split
  · exact hf a
  · rfl

/-- Rewrite every row that meets `p` by `f`. -/
def updateWhere (t : Keyed key) (p : α → Bool) (f : α → α) (hf : ∀ a, key (f a) = key a) :
    Keyed key where
  rows := t.rows.map fun a => if p a then f a else a
  nodup := by
    rw [map_key_ite hf]
    exact t.nodup

/-- Delete every row that meets `p`. -/
def deleteWhere (t : Keyed key) (p : α → Bool) : Keyed key where
  rows := t.rows.filter fun a => !p a
  nodup := t.nodup.sublist (List.filter_sublist.map key)

@[simp] theorem rows_updateWhere (t : Keyed key) (p : α → Bool) (f : α → α)
    (hf : ∀ a, key (f a) = key a) :
    (t.updateWhere p f hf).rows = t.rows.map fun a => if p a then f a else a := rfl

@[simp] theorem rows_deleteWhere (t : Keyed key) (p : α → Bool) :
    (t.deleteWhere p).rows = t.rows.filter fun a => !p a := rfl

variable [DecidableEq κ]

/-- The row of a key. -/
def get? (t : Keyed key) (k : κ) : Option α := t.rows.find? fun a => key a = k

/-- Rewrite the row of a key. -/
def modify (t : Keyed key) (k : κ) (f : α → α) (hf : ∀ a, key (f a) = key a) : Keyed key :=
  t.updateWhere (fun a => key a = k) f hf

/-- Add a row at the end, unless its key is taken. -/
def insert (t : Keyed key) (a : α) : Option (Keyed key) :=
  if h : key a ∈ t.rows.map key then none
  else some ⟨t.rows ++ [a], by
    rw [List.map_append]
    exact t.nodup.append (List.nodup_singleton _) (by simpa using h)⟩

theorem get?_eq_some_iff {t : Keyed key} {k : κ} {a : α} :
    t.get? k = some a ↔ a ∈ t.rows ∧ key a = k := by
  constructor
  · intro h
    exact ⟨List.mem_of_find?_eq_some h, by simpa using List.find?_some h⟩
  · rintro ⟨ha, rfl⟩
    cases hb : t.get? (key a) with
    | none =>
        have hnone := List.find?_eq_none.mp hb a ha
        simp at hnone
    | some b =>
        have hkey : key b = key a := by simpa using List.find?_some hb
        rw [List.inj_on_of_nodup_map t.nodup (List.mem_of_find?_eq_some hb) ha hkey]

theorem get?_eq_none_iff {t : Keyed key} {k : κ} :
    t.get? k = none ↔ ∀ a ∈ t.rows, key a ≠ k := by
  simp [get?, List.find?_eq_none]

@[simp] theorem get?_empty (k : κ) : (empty : Keyed key).get? k = none := rfl

theorem get?_key {t : Keyed key} {a : α} (ha : a ∈ t.rows) : t.get? (key a) = some a :=
  get?_eq_some_iff.mpr ⟨ha, rfl⟩

omit [DecidableEq κ] in
/-- A key stands in one place. -/
theorem index_eq_of_key {t : Keyed key} {i j : ℕ} {a b : α} (ha : t.rows[i]? = some a)
    (hb : t.rows[j]? = some b) (hk : key a = key b) : i = j := by
  have hi : i < (t.rows.map key).length := by
    rw [List.length_map]
    exact (List.getElem?_eq_some_iff.mp ha).1
  apply (List.getElem?_inj hi t.nodup).mp
  rw [List.getElem?_map, List.getElem?_map, ha, hb, Option.map_some, Option.map_some, hk]

/-- An update acts on the row of each key. -/
theorem get?_updateWhere (t : Keyed key) (p : α → Bool) (f : α → α)
    (hf : ∀ a, key (f a) = key a) (k : κ) :
    (t.updateWhere p f hf).get? k = (t.get? k).map fun a => if p a then f a else a := by
  have hkey : ∀ a, key (if p a then f a else a) = key a := by
    intro a
    split
    · exact hf a
    · rfl
  rw [get?, rows_updateWhere, List.find?_map]
  congr 1
  rw [get?]
  congr 1
  ext a
  simp [hkey]

/-- Rewriting the row of a key acts on that key only. -/
theorem get?_modify (t : Keyed key) (k : κ) (f : α → α) (hf : ∀ a, key (f a) = key a)
    (k' : κ) :
    (t.modify k f hf).get? k' = if k' = k then (t.get? k').map f else t.get? k' := by
  rw [modify, get?_updateWhere]
  cases ha : t.get? k' with
  | none => simp
  | some a =>
      obtain ⟨-, rfl⟩ := get?_eq_some_iff.mp ha
      simp only [Option.map_some, decide_eq_true_eq]
      split <;> rfl

theorem get?_modify_of_get? {t : Keyed key} {k : κ} {a : α} (h : t.get? k = some a)
    (f : α → α) (hf : ∀ a, key (f a) = key a) (k' : κ) :
    (t.modify k f hf).get? k' = if k' = k then some (f a) else t.get? k' := by
  rw [get?_modify]
  split
  · rename_i hk
    rw [hk, h]
    rfl
  · rfl

/-- A deletion keeps the rows that do not meet its condition. -/
theorem get?_deleteWhere (t : Keyed key) (p : α → Bool) (k : κ) :
    (t.deleteWhere p).get? k = (t.get? k).filter fun a => !p a := by
  ext a
  rw [get?_eq_some_iff, rows_deleteWhere, List.mem_filter, Option.filter_eq_some_iff,
    get?_eq_some_iff]
  tauto

theorem insert_eq_some_iff {t u : Keyed key} {a : α} :
    t.insert a = some u ↔ t.get? (key a) = none ∧ u.rows = t.rows ++ [a] := by
  have hmem : key a ∈ t.rows.map key ↔ t.get? (key a) ≠ none := by
    rw [Ne, get?_eq_none_iff]
    simp
  rw [insert]
  split
  · rename_i h
    simp [hmem.mp h]
  · rename_i h
    have hnone : t.get? (key a) = none := by
      by_contra hne
      exact h (hmem.mpr hne)
    simp only [Option.some.injEq, hnone, true_and]
    constructor
    · rintro rfl
      rfl
    · intro hu
      exact (ext hu).symm

theorem exists_insert {t : Keyed key} {a : α} (h : t.get? (key a) = none) :
    ∃ u, t.insert a = some u := by
  have hmem : key a ∉ t.rows.map key := by
    intro hk
    obtain ⟨b, hb, hkey⟩ := List.mem_map.mp hk
    exact get?_eq_none_iff.mp h b hb hkey
  rw [insert, dif_neg hmem]
  exact ⟨_, rfl⟩

theorem get?_of_insert {t u : Keyed key} {a : α} (h : t.insert a = some u) (k : κ) :
    u.get? k = if key a = k then some a else t.get? k := by
  obtain ⟨hnone, hrows⟩ := insert_eq_some_iff.mp h
  have happ : u.get? k = (t.get? k).or ([a].find? fun a => key a = k) := by
    rw [get?, hrows, List.find?_append]
    rfl
  rw [happ]
  by_cases hk : key a = k
  · subst hk
    simp [hnone]
  · simp [hk]

/-- Give a key a row, whether it had one or not. -/
def put (t : Keyed key) (a : α) : Keyed key where
  rows := (t.deleteWhere fun b => key b = key a).rows ++ [a]
  nodup := by
    rw [List.map_append, List.nodup_append]
    refine ⟨(t.deleteWhere _).nodup, List.nodup_singleton _, ?_⟩
    intro k hk k' hk'
    obtain ⟨b, hb, rfl⟩ := List.mem_map.mp hk
    rw [List.map_singleton, List.mem_singleton] at hk'
    rw [rows_deleteWhere, List.mem_filter] at hb
    rw [hk']
    simpa using hb.2

theorem get?_put (t : Keyed key) (a : α) (k : κ) :
    (t.put a).get? k = if key a = k then some a else t.get? k := by
  have happ : (t.put a).get? k =
      ((t.deleteWhere fun b => key b = key a).get? k).or ([a].find? fun a => key a = k) := by
    rw [get?, put, List.find?_append]
    rfl
  rw [happ, get?_deleteWhere]
  by_cases hk : key a = k
  · subst hk
    cases h : t.get? (key a) with
    | none => simp
    | some b =>
        have hb := (get?_eq_some_iff.mp h).2
        simp [Option.filter_some, hb]
  · cases h : t.get? k with
    | none => simp [hk]
    | some b =>
        have hb := (get?_eq_some_iff.mp h).2
        simp [hk, hb, Ne.symm hk]

end Keyed
