import Wheel.Core.Name
import Wheel.Data.Keyed

/-!
# The store of the host

The host's own record of its projects: their secrets, whether they are supposed to be
running, and the base of the uid range each one owns. The next base comes from a
watermark outside the projects, so deleting a project takes nothing back.
-/

namespace Wheel.Host

structure ProjectRow where
  id : Uuid
  engineSecret : String
  vaultKey : String
  desiredRunning : Bool
  uidBase : Option ℕ
  deriving DecidableEq

structure Store where
  projects : Keyed ProjectRow.id
  /-- The row of the watermark, once it is seeded. -/
  nextUid : Option ℕ

namespace Store

/-- A database without projects. -/
def empty : Store := ⟨Keyed.empty, none⟩

variable (s : Store)

def get (id : Uuid) : Option ProjectRow := s.projects.get? id

/-- The base of the range a project owns. -/
def baseOf (id : Uuid) : Option ℕ := (s.get id).bind fun r => r.uidBase

/-- Rewrite the row of a project, if there is one. -/
def update (id : Uuid) (f : ProjectRow → ProjectRow) (hf : ∀ r, (f r).id = r.id) : Store :=
  { s with projects := s.projects.modify id f hf }

/-- Insert a project, or give the one that is there other secrets. -/
def upsert (id : Uuid) (engineSecret vaultKey : String) : Store :=
  match s.get id with
  | some _ => s.update id (fun r => { r with engineSecret, vaultKey }) (fun _ => rfl)
  | none => { s with projects := s.projects.put ⟨id, engineSecret, vaultKey, false, none⟩ }

def setUidBase (id : Uuid) (base : ℕ) : Store :=
  s.update id (fun r => { r with uidBase := some base }) (fun _ => rfl)

/-- Answer the base of a project's range, and give it one from the watermark first if it
has none. Nothing is written unless the transaction commits. -/
def allocateUid (id : Uuid) (rangeStart stride : UInt32) : Store × Except String ℕ :=
  if stride = 0 then (s, .error "uid stride must be at least 1")
  else
    match s.baseOf id with
    | some base => (s, .ok (base % 2 ^ 32))
    | none =>
        let base := s.nextUid.getD rangeStart.toNat % 2 ^ 32
        let next := base + stride.toNat
        if 2 ^ 32 ≤ next then (s, .error "uid range exhausted")
        else if (s.get id).isNone then
          (s, .error "cannot allocate a uid for an unknown project")
        else if s.projects.rows.any fun r => r.uidBase = some base then
          (s, .error "UNIQUE constraint failed: projects.uid_base")
        else
          ({ s.setUidBase id base with nextUid := some next }, .ok base)

def setDesiredRunning (id : Uuid) (running : Bool) : Store :=
  s.update id (fun r => { r with desiredRunning := running }) (fun _ => rfl)

def delete (id : Uuid) : Store :=
  { s with projects := s.projects.deleteWhere fun r => r.id = id }

/-- The projects that were running when the host last knew. -/
def allDesiredRunning : List ProjectRow := s.projects.rows.filter fun r => r.desiredRunning

variable {s}

@[simp] theorem get_empty (id : Uuid) : empty.get id = none := rfl

theorem get_update (id k : Uuid) (f : ProjectRow → ProjectRow) (hf : ∀ r, (f r).id = r.id) :
    (s.update id f hf).get k = if k = id then (s.get k).map f else s.get k :=
  Keyed.get?_modify s.projects id f hf k

theorem get_upsert (id k : Uuid) (engineSecret vaultKey : String) :
    (s.upsert id engineSecret vaultKey).get k =
      if k = id then
        some { (s.get id).getD ⟨id, engineSecret, vaultKey, false, none⟩ with
          engineSecret, vaultKey }
      else s.get k := by
  unfold upsert
  cases h : s.get id with
  | none =>
      show (s.projects.put _).get? k = _
      rw [Keyed.get?_put]
      simp only [eq_comm (a := id), Option.getD_none]
      rfl
  | some r =>
      rw [get_update]
      by_cases hk : k = id
      · rw [if_pos hk, if_pos hk, hk, h]
        rfl
      · rw [if_neg hk, if_neg hk]

theorem get_delete (id k : Uuid) : (s.delete id).get k = if k = id then none else s.get k := by
  show (s.projects.deleteWhere _).get? k = _
  rw [Keyed.get?_deleteWhere]
  cases hk : s.projects.get? k with
  | none => simp [get, hk]
  | some r =>
      have hid : r.id = k := (Keyed.get?_eq_some_iff.mp hk).2
      by_cases h : k = id
      · simp [h, hid]
      · simp [get, h, hid, hk]

@[simp] theorem nextUid_upsert (id : Uuid) (engineSecret vaultKey : String) :
    (s.upsert id engineSecret vaultKey).nextUid = s.nextUid := by
  unfold upsert
  split <;> rfl

theorem baseOf_upsert (id k : Uuid) (engineSecret vaultKey : String) :
    (s.upsert id engineSecret vaultKey).baseOf k = s.baseOf k := by
  unfold baseOf
  rw [get_upsert]
  by_cases h : k = id
  · subst h
    cases s.get k <;> simp
  · simp [h]

theorem baseOf_setDesiredRunning (id k : Uuid) (running : Bool) :
    (s.setDesiredRunning id running).baseOf k = s.baseOf k := by
  unfold baseOf setDesiredRunning
  rw [get_update]
  by_cases h : k = id
  · subst h
    rw [if_pos rfl]
    cases s.get k <;> rfl
  · simp [h]

theorem baseOf_setUidBase (id k : Uuid) (base : ℕ) :
    (s.setUidBase id base).baseOf k =
      if k = id then if (s.get id).isNone then none else some base else s.baseOf k := by
  unfold baseOf setUidBase
  rw [get_update]
  by_cases h : k = id
  · subst h
    rw [if_pos rfl, if_pos rfl]
    cases s.get k <;> rfl
  · simp [h]

theorem baseOf_delete (id k : Uuid) :
    (s.delete id).baseOf k = if k = id then none else s.baseOf k := by
  unfold baseOf
  rw [get_delete]
  split <;> rfl

/-- What an allocation did: nothing, or it gave the project a range at the watermark and
moved the watermark past it. -/
theorem allocateUid_cases (s : Store) (id : Uuid) (rangeStart stride : UInt32) :
    (∃ e, s.allocateUid id rangeStart stride = (s, .error e)) ∨
      (∃ base, s.baseOf id = some base ∧
        s.allocateUid id rangeStart stride = (s, .ok (base % 2 ^ 32))) ∨
      ∃ base s', s.baseOf id = none ∧ s.allocateUid id rangeStart stride = (s', .ok base) ∧
        0 < stride.toNat ∧ base = s.nextUid.getD rangeStart.toNat % 2 ^ 32 ∧
        base + stride.toNat < 2 ^ 32 ∧ s'.nextUid = some (base + stride.toNat) ∧
        ∀ k, s'.baseOf k = if k = id then some base else s.baseOf k := by
  unfold allocateUid
  by_cases hstride : stride = 0
  · exact .inl ⟨_, if_pos hstride⟩
  rw [if_neg hstride]
  cases hbase : s.baseOf id with
  | some base => exact .inr (.inl ⟨base, rfl, rfl⟩)
  | none =>
      dsimp only
      split
      · exact .inl ⟨_, rfl⟩
      rename_i hfits
      split
      · exact .inl ⟨_, rfl⟩
      rename_i hrow
      split
      · exact .inl ⟨_, rfl⟩
      refine .inr (.inr ⟨_, _, rfl, rfl, ?_, rfl, Nat.lt_of_not_le hfits, rfl, fun k => ?_⟩)
      · exact Nat.pos_of_ne_zero fun h => hstride (UInt32.toNat_inj.mp h)
      · show (s.setUidBase id _).baseOf k = _
        rw [baseOf_setUidBase, if_neg hrow]

end Store

end Wheel.Host
