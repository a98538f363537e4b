import Wheel.Data.Run
import Wheel.Host.Store

/-!
# Whose uids are whose

A base is stored, the width of its range is not: the next base is computed with the
stride of the day, and the sweep in front of a start uses the stride of another day. The
ranges that were issued stand one on the other with no gap (`Stacked`), so they are
disjoint for ever, and a sweep that is wider than its range was reaches into the next one
exactly when there is a next one.
-/

namespace Wheel.Host

/-- A range that was issued: to whom, from where, and how wide. -/
structure Issue where
  project : Uuid
  base : ℕ
  stride : ℕ
  deriving DecidableEq

/-- The first uid behind the range. -/
def Issue.next (i : Issue) : ℕ := i.base + i.stride

def Issue.Contains (i : Issue) (uid : ℕ) : Prop := i.base ≤ uid ∧ uid < i.next

inductive StoreOp where
  | upsert (id : Uuid) (engineSecret vaultKey : String)
  | allocateUid (id : Uuid) (rangeStart stride : UInt32)
  | setDesiredRunning (id : Uuid) (running : Bool)
  | delete (id : Uuid)
  deriving DecidableEq

/-- The range an allocation issues, if it issues one. -/
def issuedBy (s : Store) (id : Uuid) (rangeStart stride : UInt32) : Option Issue :=
  match s.baseOf id, (s.allocateUid id rangeStart stride).2 with
  | none, .ok base => some ⟨id, base, stride.toNat⟩
  | _, _ => none

/-- A store with every range it ever issued, the newest first. -/
structure History where
  store : Store
  issued : List Issue

namespace History

def start : History := ⟨Store.empty, []⟩

def apply (h : History) : StoreOp → History
  | .upsert id engineSecret vaultKey => { h with store := h.store.upsert id engineSecret vaultKey }
  | .allocateUid id rangeStart stride =>
      ⟨(h.store.allocateUid id rangeStart stride).1,
        (issuedBy h.store id rangeStart stride).toList ++ h.issued⟩
  | .setDesiredRunning id running => { h with store := h.store.setDesiredRunning id running }
  | .delete id => { h with store := h.store.delete id }

/-- The history after some operations on an empty store. -/
def after (x : List StoreOp) : History := Run.run apply start x

/-- The last range a project was given. -/
def lastIssue (h : History) (id : Uuid) : Option Issue :=
  h.issued.find? fun i => i.project = id

end History

/-! ## The sweep -/

/-- The range that is swept for a project, under the stride of today. -/
def reapRange (base : ℕ) (stride : UInt32) : ℕ × ℕ :=
  (base, min (base + stride.toNat) (2 ^ 32 - 1))

/-- The processes of a table whose real uid is in the range; a range that starts at uid 0
has none. -/
def leftovers (me : ℤ) (table : List (ℤ × Option ℕ)) (range : ℕ × ℕ) : List (ℤ × Option ℕ) :=
  if range.2 ≤ range.1 ∨ range.1 = 0 then []
  else
    table.filter fun e =>
      e.1 ≠ me && 1 < e.1 && e.2.any fun uid => range.1 ≤ uid && uid < range.2

def leftoverPids (me : ℤ) (table : List (ℤ × Option ℕ)) (range : ℕ × ℕ) : List ℤ :=
  (leftovers me table range).map Prod.fst

theorem mem_leftovers {me : ℤ} {table : List (ℤ × Option ℕ)} {range : ℕ × ℕ}
    {e : ℤ × Option ℕ} :
    e ∈ leftovers me table range ↔
      range.1 ≠ 0 ∧ e ∈ table ∧ e.1 ≠ me ∧ 1 < e.1 ∧
        ∃ uid, e.2 = some uid ∧ range.1 ≤ uid ∧ uid < range.2 := by
  unfold leftovers
  split
  · rename_i hempty
    simp only [List.not_mem_nil, false_iff]
    rintro ⟨hzero, -, -, -, uid, -, hle, hlt⟩
    omega
  · rename_i hrange
    have hzero : range.1 ≠ 0 := fun h => hrange (.inr h)
    rw [List.mem_filter]
    cases e.2 <;> simp [hzero, and_assoc]

/-! ## The ranges stand one on the other -/

/-- The ranges fill what is below `top`, the newest first. -/
def Stacked (top : ℕ) : List Issue → Prop
  | [] => True
  | i :: rest => i.next = top ∧ 0 < i.stride ∧ Stacked i.base rest

theorem Stacked.next_le {top : ℕ} {x : List Issue} (h : Stacked top x) {i : Issue} (hi : i ∈ x) :
    i.next ≤ top ∧ 0 < i.stride := by
  induction x generalizing top with
  | nil => cases hi
  | cons j x ih =>
      obtain ⟨htop, hpos, hrest⟩ := h
      rcases List.mem_cons.mp hi with rfl | hi
      · exact ⟨htop.le, hpos⟩
      · obtain ⟨hle, hipos⟩ := ih hrest hi
        have hj : j.base ≤ j.next := Nat.le_add_right _ _
        exact ⟨by omega, hipos⟩

theorem Stacked.pairwise {top : ℕ} {x : List Issue} (h : Stacked top x) :
    x.Pairwise fun i j => j.next ≤ i.base := by
  induction x generalizing top with
  | nil => exact List.Pairwise.nil
  | cons i x ih => exact List.Pairwise.cons (fun j hj => (h.2.2.next_le hj).1) (ih h.2.2)

/-- No uid is issued twice. -/
theorem Stacked.disjoint {top : ℕ} {x : List Issue} (h : Stacked top x) :
    x.Pairwise fun i j => i.base ≠ j.base ∧ ∀ uid, ¬ (i.Contains uid ∧ j.Contains uid) := by
  refine h.pairwise.imp_of_mem fun {i j} _ hj hij => ⟨?_, fun uid hboth => ?_⟩
  · have hpos := (h.next_le hj).2
    have hnext : j.next = j.base + j.stride := rfl
    omega
  · have hi := hboth.1.1
    have hlt := hboth.2.2
    omega

theorem Stacked.eq_of_contains {top : ℕ} {x : List Issue} (h : Stacked top x) {i j : Issue}
    (hi : i ∈ x) (hj : j ∈ x) {uid : ℕ} (hiuid : i.Contains uid) (hjuid : j.Contains uid) :
    i = j := by
  by_contra hne
  have hsymm : Std.Symm fun i j : Issue =>
      i.base ≠ j.base ∧ ∀ uid, ¬ (i.Contains uid ∧ j.Contains uid) :=
    ⟨fun _ _ h => ⟨h.1.symm, fun uid huid => h.2 uid huid.symm⟩⟩
  exact (h.disjoint.forall hi hj hne).2 uid ⟨hiuid, hjuid⟩

/-- Behind the last range of a project stands the top, or a range of another project. -/
theorem Stacked.after_last {top : ℕ} {x : List Issue} (h : Stacked top x) {id : Uuid} {i : Issue}
    (hi : x.find? (fun i => i.project = id) = some i) :
    i.next = top ∨ ∃ j ∈ x, j.base = i.next ∧ j.project ≠ id := by
  induction x generalizing top with
  | nil => cases hi
  | cons j x ih =>
      obtain ⟨htop, -, hrest⟩ := h
      by_cases hj : j.project = id
      · rw [List.find?_cons_of_pos (by simpa using hj)] at hi
        cases hi
        exact .inl htop
      · rw [List.find?_cons_of_neg (by simpa using hj)] at hi
        rcases ih hrest hi with hnext | ⟨k, hk, hbase, hproject⟩
        · exact .inr ⟨j, List.mem_cons_self, hnext.symm, hj⟩
        · exact .inr ⟨k, List.mem_cons_of_mem _ hk, hbase, hproject⟩

/-- What every history keeps. -/
structure History.Sound (h : History) : Prop where
  unseeded : h.store.nextUid = none → h.issued = []
  stacked : ∀ top, h.store.nextUid = some top → top < 2 ^ 32 ∧ Stacked top h.issued
  owned : ∀ id base, h.store.baseOf id = some base →
    ∃ i, h.lastIssue id = some i ∧ i.base = base

namespace History

theorem sound_start : start.Sound where
  unseeded _ := rfl
  stacked _ h := by cases h
  owned _ _ h := by cases h

/-- An operation that leaves the watermark and gives no project a base keeps the history. -/
theorem Sound.of_store {h : History} (hs : h.Sound) {s : Store}
    (hnext : s.nextUid = h.store.nextUid)
    (hbase : ∀ id base, s.baseOf id = some base → h.store.baseOf id = some base) :
    Sound ⟨s, h.issued⟩ where
  unseeded hn := hs.unseeded (hnext ▸ hn)
  stacked top ht := hs.stacked top (hnext ▸ ht)
  owned id base hb := hs.owned id base (hbase id base hb)

theorem sound_allocateUid {h : History} (hs : h.Sound) (id : Uuid) (rangeStart stride : UInt32) :
    (h.apply (.allocateUid id rangeStart stride)).Sound := by
  show Sound ⟨(h.store.allocateUid id rangeStart stride).1,
    (issuedBy h.store id rangeStart stride).toList ++ h.issued⟩
  rcases h.store.allocateUid_cases id rangeStart stride with
    ⟨e, heq⟩ | ⟨base, hbase, heq⟩ | ⟨base, s', hnone, heq, hpos, hfrom, hfits, hnext, hbases⟩
  · have hissued : issuedBy h.store id rangeStart stride = none := by
      rw [issuedBy, heq]
      cases h.store.baseOf id <;> rfl
    rw [heq, hissued]
    exact hs
  · have hissued : issuedBy h.store id rangeStart stride = none := by
      rw [issuedBy, hbase]
    rw [heq, hissued]
    exact hs
  · have hissued : issuedBy h.store id rangeStart stride = some ⟨id, base, stride.toNat⟩ := by
      rw [issuedBy, hnone, heq]
    rw [heq, hissued]
    refine ⟨fun hn => ?_, fun top ht => ?_, fun k b hb => ?_⟩
    · rw [hnext] at hn
      cases hn
    · rw [hnext] at ht
      cases ht
      refine ⟨hfits, rfl, hpos, ?_⟩
      cases hold : h.store.nextUid with
      | none =>
          rw [hs.unseeded hold]
          trivial
      | some top =>
          obtain ⟨hlt, hstacked⟩ := hs.stacked top hold
          rw [hold, Option.getD_some, Nat.mod_eq_of_lt hlt] at hfrom
          show Stacked base h.issued
          rwa [hfrom]
    · rw [hbases] at hb
      unfold lastIssue
      by_cases hk : k = id
      · subst hk
        rw [if_pos rfl] at hb
        cases hb
        exact ⟨_, List.find?_cons_of_pos (by simp), rfl⟩
      · rw [if_neg hk] at hb
        obtain ⟨i, hi, hib⟩ := hs.owned k b hb
        refine ⟨i, ?_, hib⟩
        rw [Option.toList_some, List.singleton_append, List.find?_cons_of_neg (by simpa using Ne.symm hk)]
        exact hi

theorem sound_apply {h : History} (hs : h.Sound) (op : StoreOp) : (h.apply op).Sound := by
  cases op with
  | upsert id engineSecret vaultKey =>
      refine hs.of_store (Store.nextUid_upsert ..) fun k b hb => ?_
      rwa [Store.baseOf_upsert] at hb
  | allocateUid id rangeStart stride => exact sound_allocateUid hs id rangeStart stride
  | setDesiredRunning id running =>
      refine hs.of_store rfl fun k b hb => ?_
      rwa [Store.baseOf_setDesiredRunning] at hb
  | delete id =>
      refine hs.of_store rfl fun k b hb => ?_
      rw [Store.baseOf_delete] at hb
      split at hb
      · cases hb
      · exact hb

theorem sound_after (x : List StoreOp) : (after x).Sound :=
  Run.invariant_run (I := History.Sound) (fun _ op hs => sound_apply hs op) sound_start x

/-- A project keeps its base through everything but its own deletion. -/
theorem baseOf_apply {h : History} {id : Uuid} {base : ℕ} (hb : h.store.baseOf id = some base)
    {op : StoreOp} (hop : op ≠ .delete id) : (h.apply op).store.baseOf id = some base := by
  cases op with
  | upsert k engineSecret vaultKey =>
      show (h.store.upsert k engineSecret vaultKey).baseOf id = _
      rw [Store.baseOf_upsert, hb]
  | allocateUid k rangeStart stride =>
      show (h.store.allocateUid k rangeStart stride).1.baseOf id = _
      rcases h.store.allocateUid_cases k rangeStart stride with
        ⟨e, heq⟩ | ⟨b, hbase, heq⟩ | ⟨b, s', hnone, heq, -, -, -, -, hbases⟩
      · rw [heq, hb]
      · rw [heq, hb]
      · rw [heq, hbases, if_neg, hb]
        rintro rfl
        rw [hb] at hnone
        cases hnone
  | setDesiredRunning k running =>
      show (h.store.setDesiredRunning k running).baseOf id = _
      rw [Store.baseOf_setDesiredRunning, hb]
  | delete k =>
      show (h.store.delete k).baseOf id = _
      rw [Store.baseOf_delete, if_neg, hb]
      rintro rfl
      exact hop rfl

theorem baseOf_run {h : History} {id : Uuid} {base : ℕ} (hb : h.store.baseOf id = some base)
    {x : List StoreOp} (hx : .delete id ∉ x) :
    (Run.run apply h x).store.baseOf id = some base := by
  induction x generalizing h with
  | nil => exact hb
  | cons op x ih =>
      refine ih (baseOf_apply hb ?_) fun hmem => hx (List.mem_cons_of_mem _ hmem)
      rintro rfl
      exact hx List.mem_cons_self

end History

/-! ## A range for ever -/

/-- No sweep for a project reaches a uid that was issued to another one. -/
def SweptAlone (h : History) (stride : UInt32) : Prop :=
  ∀ id base, h.store.baseOf id = some base → ∀ me table,
    ∀ e ∈ leftovers me table (reapRange base stride), ∀ uid, e.2 = some uid →
      ∀ i ∈ h.issued, i.project ≠ id → ¬ i.Contains uid

/-- What a uid range that belongs to one project for ever comes to, after some operations
and under the stride of today. -/
structure ForEver (x : List StoreOp) (stride : UInt32) : Prop where
  disjoint : (History.after x).issued.Pairwise fun i j =>
    i.base ≠ j.base ∧ ∀ uid, ¬ (i.Contains uid ∧ j.Contains uid)
  fits : ∀ i ∈ (History.after x).issued, 0 < i.stride ∧ i.next < 2 ^ 32
  kept : ∀ y z, x = y ++ z → ∀ id base, (History.after y).store.baseOf id = some base →
    .delete id ∉ z → (History.after x).store.baseOf id = some base
  answered : ∀ id base, (History.after x).store.baseOf id = some base →
    ∀ rangeStart stride, stride ≠ 0 →
      (History.after x).store.allocateUid id rangeStart stride =
        ((History.after x).store, .ok base)
  failed : ∀ id rangeStart stride e,
    ((History.after x).store.allocateUid id rangeStart stride).2 = .error e →
      ((History.after x).store.allocateUid id rangeStart stride).1 = (History.after x).store
  swept : SweptAlone (History.after x) stride

/-- The stride of today is no wider than a project's range, or the range is the newest one,
or nothing is swept because it starts at uid 0. -/
def StrideKept (h : History) (stride : UInt32) : Prop :=
  ∀ id base i, h.store.baseOf id = some base → h.lastIssue id = some i →
    base = 0 ∨ stride.toNat ≤ i.stride ∨ h.store.nextUid = some i.next

instance (i : Issue) (uid : ℕ) : Decidable (i.Contains uid) :=
  inferInstanceAs (Decidable (_ ∧ _))

variable {h : History}

/-- The range a project holds is the last one it was given, and it is below the watermark. -/
theorem History.Sound.held (hs : h.Sound) {id : Uuid} {base : ℕ}
    (hb : h.store.baseOf id = some base) :
    ∃ i top, h.lastIssue id = some i ∧ i.base = base ∧ i ∈ h.issued ∧ i.project = id ∧
      h.store.nextUid = some top ∧ top < 2 ^ 32 ∧ Stacked top h.issued := by
  obtain ⟨i, hi, hbase⟩ := hs.owned id base hb
  have hmem := List.mem_of_find?_eq_some hi
  have hproject := List.find?_some hi
  cases hnext : h.store.nextUid with
  | none =>
      rw [hs.unseeded hnext] at hmem
      cases hmem
  | some top =>
      obtain ⟨hlt, hstacked⟩ := hs.stacked top hnext
      exact ⟨i, top, hi, hbase, hmem, by simpa using hproject, rfl, hlt, hstacked⟩

/-- A sweep reaches nobody else's uids, if and only if the stride is kept. -/
theorem sweptAlone_iff (hs : h.Sound) {stride : UInt32} :
    SweptAlone h stride ↔ StrideKept h stride := by
  constructor
  · intro hswept id base i hb hi
    by_contra hnot
    rw [not_or, not_or] at hnot
    obtain ⟨hzero, hwide, hnewest⟩ := hnot
    obtain ⟨i', top, hi', rfl, -, -, hnext, htop, hstacked⟩ := hs.held hb
    obtain rfl : i' = i := Option.some.inj (hi'.symm.trans hi)
    rcases hstacked.after_last hi with htop' | ⟨j, hj, hjbase, hjproject⟩
    · exact hnewest (htop' ▸ hnext)
    -- the sweep reaches the first uid of the range behind
    have hjnext : j.next = j.base + j.stride := rfl
    have hinext : i'.next = i'.base + i'.stride := rfl
    obtain ⟨hjtop, hjpos⟩ := hstacked.next_le hj
    refine hswept id i'.base hb 0 [(2, some i'.next)] (2, some i'.next) ?_ _ rfl j hj hjproject
      ⟨hjbase.le, by omega⟩
    rw [mem_leftovers]
    refine ⟨hzero, List.mem_singleton_self _, by norm_num, by norm_num, _, rfl, ?_, ?_⟩
    · show i'.base ≤ i'.next
      omega
    · show i'.next < min (i'.base + stride.toNat) (2 ^ 32 - 1)
      omega
  · intro hkept id base hb me table e he uid huid j hj hjproject hcontains
    obtain ⟨i, top, hi, rfl, himem, hiproject, hnext, htop, hstacked⟩ := hs.held hb
    obtain ⟨hzero, -, -, -, uid', huid', hle, hlt⟩ := mem_leftovers.mp he
    obtain rfl : uid' = uid := Option.some.inj (huid'.symm.trans huid)
    have hlt' : uid' < min (i.base + stride.toNat) (2 ^ 32 - 1) := hlt
    have hle' : i.base ≤ uid' := hle
    have hinext : i.next = i.base + i.stride := rfl
    obtain ⟨hcle, hclt⟩ := hcontains
    have hne : i ≠ j := by
      rintro rfl
      exact hjproject hiproject
    have hjtop := (hstacked.next_le hj).1
    have hbelow : uid' < i.next := by
      rcases hkept id i.base i hb hi with h0 | hstride | hnewest
      · exact absurd h0 hzero
      · omega
      · rw [hnext] at hnewest
        have htopi : top = i.next := Option.some.inj hnewest
        omega
    exact hne (hstacked.eq_of_contains himem hj ⟨hle', hbelow⟩ ⟨hcle, hclt⟩)

/-- After any operations, under any stride: a range belongs to one project for ever, if and
only if no project with a range behind its own is swept wider than its range was. -/
theorem forEver_iff (x : List StoreOp) (stride : UInt32) :
    ForEver x stride ↔ StrideKept (History.after x) stride := by
  have hs := History.sound_after x
  constructor
  · exact fun h => (sweptAlone_iff hs).mp h.swept
  · intro h
    refine ⟨?_, fun i hi => ?_, fun y z hx id base hb hz => ?_, fun id base hb r st hst => ?_,
      fun id r st e he => ?_, (sweptAlone_iff hs).mpr h⟩
    · cases hnext : (History.after x).store.nextUid with
      | none =>
          rw [hs.unseeded hnext]
          exact List.Pairwise.nil
      | some top => exact (hs.stacked top hnext).2.disjoint
    · cases hnext : (History.after x).store.nextUid with
      | none =>
          rw [hs.unseeded hnext] at hi
          cases hi
      | some top =>
          obtain ⟨hlt, hstacked⟩ := hs.stacked top hnext
          obtain ⟨hle, hpos⟩ := hstacked.next_le hi
          exact ⟨hpos, hle.trans_lt hlt⟩
    · rw [hx, History.after, Run.run_append]
      exact History.baseOf_run hb hz
    · obtain ⟨i, top, -, rfl, himem, -, -, htop, hstacked⟩ := hs.held hb
      have hlt : i.base < 2 ^ 32 :=
        (Nat.le_add_right _ _).trans_lt ((hstacked.next_le himem).1.trans_lt htop)
      rw [Store.allocateUid, if_neg hst, hb]
      dsimp only
      rw [Nat.mod_eq_of_lt hlt]
    · rcases (History.after x).store.allocateUid_cases id r st with
        ⟨e', heq⟩ | ⟨b, -, heq⟩ | ⟨b, s', -, heq, -⟩
      · rw [heq]
      · rw [heq]
      · rw [heq] at he
        cases he

/-- Two projects get their ranges under a stride of 64, and the host is configured with a
stride of 128 afterwards. -/
def widened : List StoreOp :=
  [.upsert 1 "s" "v", .upsert 2 "s" "v", .allocateUid 1 20000 64, .allocateUid 2 20000 64]

/-- A start of the first project then kills the processes of the second. -/
theorem sweep_reaches_neighbour :
    ¬ ForEver widened 128 ∧
      (History.after widened).store.baseOf 2 = some 20064 ∧
      leftoverPids 1 [(7, some 20064)] (reapRange 20000 128) = [7] := by
  refine ⟨fun h => ?_, by decide +kernel, by decide +kernel⟩
  exact h.swept 1 20000 (by decide +kernel) 1 [(7, some 20064)] (7, some 20064)
    (by decide +kernel) 20064 rfl ⟨2, 20064, 64⟩ (by decide +kernel) (by decide) (by decide)

end Wheel.Host
