import Wheel.Data.Json

/-!
# Merge patches

The merge of RFC 7386 on JSON values. An object stands for the map of its
members; `Canon` says that every object in a value lists its members in strictly
increasing order of their names, so that two canonical values are equal when they
have the same members. A merge of canonical values is canonical, its members are
those of `lookup_mergeMembers`, and merging the same patch once more changes
nothing (`mergePatch_mergePatch`).
-/

namespace Wheel

namespace Json

/-! ## Equality -/

mutual

def beq : Json → Json → Bool
  | null, null => true
  | bool a, bool b => a == b
  | int a, int b => a == b
  | float a, float b => a == b
  | str a, str b => a == b
  | arr x, arr y => beqItems x y
  | obj m, obj n => beqMembers m n
  | _, _ => false

def beqItems : List Json → List Json → Bool
  | [], [] => true
  | a :: x, b :: y => beq a b && beqItems x y
  | _, _ => false

def beqMembers : List (String × Json) → List (String × Json) → Bool
  | [], [] => true
  | (k, a) :: m, (l, b) :: n => k == l && beq a b && beqMembers m n
  | _, _ => false

end

mutual

theorem beq_iff : ∀ a b : Json, beq a b = true ↔ a = b
  | null, b => by cases b <;> simp [beq]
  | bool a, b => by cases b <;> simp [beq]
  | int a, b => by cases b <;> simp [beq]
  | float a, b => by cases b <;> simp [beq]
  | str a, b => by cases b <;> simp [beq]
  | arr x, b => by
      cases b with
      | arr y => simp [beq, beqItems_iff x y]
      | _ => simp [beq]
  | obj m, b => by
      cases b with
      | obj n => simp [beq, beqMembers_iff m n]
      | _ => simp [beq]

theorem beqItems_iff : ∀ x y : List Json, beqItems x y = true ↔ x = y
  | [], [] => by simp [beqItems]
  | [], b :: y => by simp [beqItems]
  | a :: x, [] => by simp [beqItems]
  | a :: x, b :: y => by simp [beqItems, beq_iff a b, beqItems_iff x y]

theorem beqMembers_iff : ∀ m n : List (String × Json), beqMembers m n = true ↔ m = n
  | [], [] => by simp [beqMembers]
  | [], b :: y => by simp [beqMembers]
  | a :: x, [] => by simp [beqMembers]
  | (k, a) :: m, (l, b) :: n => by
      simp [beqMembers, beq_iff a b, beqMembers_iff m n]

end

instance : DecidableEq Json := fun a b => decidable_of_iff _ (beq_iff a b)

/-! ## Members -/

abbrev Members := List (String × Json)

def isNull : Json → Bool
  | null => true
  | _ => false

theorem isNull_iff {a : Json} : a.isNull = true ↔ a = null := by
  cases a <;> simp [isNull]

/-- The members of an object, and none of any other value. -/
def members : Json → Members
  | obj m => m
  | _ => []

def lookup (m : Members) (k : String) : Option Json :=
  (m.find? fun e => e.1 = k).map Prod.snd

/-- Add a member in its place, or give it a new value. -/
def insertMember (k : String) (v : Json) : Members → Members
  | [] => [(k, v)]
  | e :: m =>
      if k < e.1 then (k, v) :: e :: m
      else if k = e.1 then (k, v) :: m
      else e :: insertMember k v m

def eraseMember (k : String) (m : Members) : Members := m.filter fun e => e.1 ≠ k

/-! ## The merge -/

mutual

/-- Merge a patch into a target. -/
def mergePatch (target : Json) : Json → Json
  | obj patch => obj (mergeMembers target.members patch)
  | patch => patch
termination_by structural p => p

/-- Merge the members of a patch one by one; a null removes. -/
def mergeMembers (m : Members) : Members → Members
  | [] => m
  | (k, v) :: patch =>
      mergeMembers
        (if v.isNull then eraseMember k m
          else insertMember k (mergePatch ((lookup m k).getD null) v) m) patch
termination_by structural p => p

end

example (target : Json) : mergePatch target (obj []) = obj target.members := by
  rw [mergePatch, mergeMembers]

@[simp] theorem mergePatch_obj (target : Json) (p : Members) :
    mergePatch target (obj p) = obj (mergeMembers target.members p) := by
  rw [mergePatch]

@[simp] theorem mergeMembers_nil (m : Members) : mergeMembers m [] = m := by
  rw [mergeMembers]

theorem mergeMembers_cons (m : Members) (k : String) (v : Json) (p : Members) :
    mergeMembers m ((k, v) :: p) =
      mergeMembers (if v.isNull then eraseMember k m
        else insertMember k (mergePatch ((lookup m k).getD null) v) m) p := by
  rw [mergeMembers]

/-- Merging a value other than null gives a value other than null. -/
theorem mergePatch_ne_null (target : Json) {v : Json} (h : v ≠ null) :
    mergePatch target v ≠ null := by
  cases v with
  | null => exact absurd rfl h
  | obj p =>
      rw [mergePatch_obj]
      exact fun h => nomatch h
  | _ => simp [mergePatch]

section Lookup

variable {m n p : Members} {k l : String} {v : Json}

@[simp] theorem lookup_nil (k : String) : lookup [] k = none := rfl

theorem lookup_cons (e : String × Json) (m : Members) (k : String) :
    lookup (e :: m) k = if e.1 = k then some e.2 else lookup m k := by
  unfold lookup
  rw [List.find?_cons]
  by_cases h : e.1 = k
  · simp [h]
  · simp [h]

theorem lookup_insertMember (k : String) (v : Json) (m : Members) (l : String) :
    lookup (insertMember k v m) l = if k = l then some v else lookup m l := by
  induction m with
  | nil => rw [insertMember, lookup_cons]
  | cons e m ih =>
      rw [insertMember]
      split
      · rw [lookup_cons]
      split
      · rename_i hke
        rw [lookup_cons, lookup_cons, ← hke]
        split <;> rfl
      · rename_i hke
        rw [lookup_cons, lookup_cons, ih]
        by_cases hel : e.1 = l
        · rw [if_pos hel, if_pos hel, if_neg]
          intro hkl
          exact hke (hkl.trans hel.symm)
        · rw [if_neg hel, if_neg hel]

theorem lookup_eraseMember (k : String) (m : Members) (l : String) :
    lookup (eraseMember k m) l = if k = l then none else lookup m l := by
  induction m with
  | nil => simp [eraseMember]
  | cons e m ih =>
      unfold eraseMember at ih ⊢
      rw [List.filter_cons]
      by_cases hek : e.1 = k
      · rw [if_neg (by simp [hek]), ih, lookup_cons, hek]
        split <;> rfl
      · rw [if_pos (by simp [hek]), lookup_cons, lookup_cons, ih]
        by_cases hel : e.1 = l
        · rw [if_pos hel, if_pos hel, if_neg]
          intro hkl
          exact hek (hel.trans hkl.symm)
        · rw [if_neg hel, if_neg hel]

theorem lookup_eq_none_iff : lookup m k = none ↔ ∀ e ∈ m, e.1 ≠ k := by
  simp [lookup, List.find?_eq_none]

theorem mem_of_lookup (h : lookup m k = some v) : (k, v) ∈ m := by
  obtain ⟨e, he, rfl⟩ := Option.map_eq_some_iff.mp h
  have hk := List.find?_some he
  rw [decide_eq_true_eq] at hk
  rw [← hk]
  exact List.mem_of_find?_eq_some he

/-- The members of a merge: a member the patch does not name stays, a null
removes, and any other value is merged. -/
theorem lookup_mergeMembers (hp : (p.map Prod.fst).Nodup) (m : Members) (k : String) :
    lookup (mergeMembers m p) k =
      match lookup p k with
      | none => lookup m k
      | some v => if v.isNull then none else some (mergePatch ((lookup m k).getD null) v) := by
  induction p generalizing m with
  | nil => rw [mergeMembers_nil, lookup_nil]
  | cons e p ih =>
      obtain ⟨l, w⟩ := e
      rw [List.map_cons, List.nodup_cons] at hp
      rw [mergeMembers_cons, ih hp.2, lookup_cons]
      by_cases hlk : l = k
      · subst hlk
        have hnone : lookup p l = none := by
          rw [lookup_eq_none_iff]
          intro e he hel
          exact hp.1 (List.mem_map.mpr ⟨e, he, hel⟩)
        rw [hnone, if_pos rfl]
        dsimp only
        by_cases hw : w.isNull = true
        · rw [if_pos hw, if_pos hw, lookup_eraseMember, if_pos rfl]
        · rw [if_neg hw, if_neg hw, lookup_insertMember, if_pos rfl]
      · rw [if_neg hlk]
        have hsame : lookup (if w.isNull then eraseMember l m
            else insertMember l (mergePatch ((lookup m l).getD null) w) m) k = lookup m k := by
          split
          · rw [lookup_eraseMember, if_neg hlk]
          · rw [lookup_insertMember, if_neg hlk]
        rw [hsame]

end Lookup

/-! ## Canonical values -/

/-- The members stand in strictly increasing order of their names. -/
def Ascending (m : Members) : Prop := m.Pairwise fun d e => d.1 < e.1

instance (m : Members) : Decidable (Ascending m) :=
  inferInstanceAs (Decidable (m.Pairwise fun d e => d.1 < e.1))

mutual

/-- Every object in the value lists its members in increasing order. -/
def Canon : Json → Prop
  | arr x => CanonItems x
  | obj m => Ascending m ∧ CanonMembers m
  | _ => True

def CanonItems : List Json → Prop
  | [] => True
  | a :: x => Canon a ∧ CanonItems x

def CanonMembers : List (String × Json) → Prop
  | [] => True
  | (_, a) :: m => Canon a ∧ CanonMembers m

end

section Canon

variable {m n p : Members} {k : String} {v : Json}

theorem canonMembers_iff : CanonMembers m ↔ ∀ e ∈ m, Canon e.2 := by
  induction m with
  | nil => simp [CanonMembers]
  | cons e m ih => simp [CanonMembers, ih]

theorem canon_obj_iff : Canon (obj m) ↔ Ascending m ∧ ∀ e ∈ m, Canon e.2 := by
  rw [Canon, canonMembers_iff]

theorem canon_members {j : Json} (h : Canon j) : Ascending j.members ∧ ∀ e ∈ j.members, Canon e.2 := by
  cases j with
  | obj m => exact canon_obj_iff.mp h
  | _ => exact ⟨List.Pairwise.nil, fun e he => nomatch he⟩

theorem canon_lookup (h : ∀ e ∈ m, Canon e.2) : Canon ((lookup m k).getD null) := by
  cases hk : lookup m k with
  | none => simp [Canon]
  | some v => exact h _ (mem_of_lookup hk)

theorem Ascending.nodup (h : Ascending m) : (m.map Prod.fst).Nodup :=
  List.pairwise_map.mpr (h.imp fun hlt => ne_of_lt hlt)

theorem lookup_of_mem (h : Ascending m) (hk : (k, v) ∈ m) : lookup m k = some v := by
  induction m with
  | nil => cases hk
  | cons e m ih =>
      rw [lookup_cons]
      rcases List.mem_cons.mp hk with rfl | hm
      · rw [if_pos rfl]
      · have hlt := List.rel_of_pairwise_cons h hm
        rw [if_neg (ne_of_lt hlt), ih (List.Pairwise.of_cons h) hm]

/-- Two canonical objects with the same members are equal. -/
theorem members_ext (hm : Ascending m) (hn : Ascending n) (h : ∀ k, lookup m k = lookup n k) :
    m = n := by
  have hsub {m n : Members} (hm : Ascending m) (h : ∀ k, lookup m k = lookup n k) :
      ∀ e ∈ m, e ∈ n := by
    intro e he
    apply mem_of_lookup
    rw [← h, lookup_of_mem hm he]
  have hperm : m.Perm n := by
    rw [List.perm_ext_iff_of_nodup hm.nodup.of_map hn.nodup.of_map]
    exact fun e => ⟨hsub hm h e, hsub hn (fun k => (h k).symm) e⟩
  apply hperm.eq_of_pairwise ?_ hm hn
  intro d e _ _ hde hed
  exact absurd (hde.trans hed) (lt_irrefl _)

theorem ascending_insertMember (h : Ascending m) (k : String) (v : Json) :
    Ascending (insertMember k v m) := by
  induction m with
  | nil => exact List.pairwise_singleton _ _
  | cons e m ih =>
      have hcons := List.pairwise_cons.mp h
      rw [insertMember]
      split
      · rename_i hlt
        refine List.pairwise_cons.mpr ⟨?_, h⟩
        intro d hd
        rcases List.mem_cons.mp hd with rfl | hd
        · exact hlt
        · exact hlt.trans (hcons.1 d hd)
      split
      · rename_i hke
        refine List.pairwise_cons.mpr ⟨?_, hcons.2⟩
        intro d hd
        rw [hke]
        exact hcons.1 d hd
      · rename_i hnlt hne
        have hlt : e.1 < k := lt_of_le_of_ne (not_lt.mp hnlt) (Ne.symm hne)
        refine List.pairwise_cons.mpr ⟨?_, ih hcons.2⟩
        intro d hd
        rw [show d = (d.1, d.2) from rfl] at hd
        by_cases hdk : d.1 = k
        · rw [hdk]
          exact hlt
        · have hd' := lookup_of_mem (ih hcons.2) hd
          rw [lookup_insertMember, if_neg (Ne.symm hdk)] at hd'
          exact hcons.1 _ (mem_of_lookup hd')

theorem ascending_eraseMember (h : Ascending m) (k : String) : Ascending (eraseMember k m) :=
  h.sublist List.filter_sublist

theorem mem_insertMember {e : String × Json} (h : e ∈ insertMember k v m) :
    e = (k, v) ∨ e ∈ m := by
  induction m with
  | nil => exact .inl (List.mem_singleton.mp h)
  | cons d m ih =>
      rw [insertMember] at h
      split at h
      · exact List.mem_cons.mp h
      split at h
      · rcases List.mem_cons.mp h with h | h
        · exact .inl h
        · exact .inr (List.mem_cons_of_mem _ h)
      · rcases List.mem_cons.mp h with h | h
        · exact .inr (h ▸ List.mem_cons_self)
        · exact (ih h).imp id (List.mem_cons_of_mem _)

mutual

/-- A merge of canonical values is canonical. -/
theorem canon_mergePatch (s : Json) (hs : Canon s) : ∀ p : Json, Canon p → Canon (mergePatch s p)
  | obj p, hp => by
      have hp' := canon_obj_iff.mp hp
      have hs' := canon_members hs
      rw [mergePatch_obj, canon_obj_iff]
      exact canon_mergeMembers s.members hs'.1 hs'.2 p hp'.2
  | null, hp => by simp [mergePatch, Canon]
  | bool b, hp => by simp [mergePatch, Canon]
  | int i, hp => by simp [mergePatch, Canon]
  | float q, hp => by simp [mergePatch, Canon]
  | str t, hp => by simp [mergePatch, Canon]
  | arr x, hp => by simpa [mergePatch] using hp

theorem canon_mergeMembers (m : Members) (hm : Ascending m) (hc : ∀ e ∈ m, Canon e.2) :
    ∀ p : List (String × Json), (∀ e ∈ p, Canon e.2) →
      Ascending (mergeMembers m p) ∧ ∀ e ∈ mergeMembers m p, Canon e.2
  | [], _ => by
      rw [mergeMembers_nil]
      exact ⟨hm, hc⟩
  | (k, v) :: p, hp => by
      rw [mergeMembers_cons]
      have hv := canon_mergePatch ((lookup m k).getD null) (canon_lookup hc) v
        (hp _ List.mem_cons_self)
      apply canon_mergeMembers _ ?_ ?_ p fun e he => hp e (List.mem_cons_of_mem _ he)
      · split
        · exact ascending_eraseMember hm k
        · exact ascending_insertMember hm k _
      · intro e he
        split at he
        · exact hc e (List.mem_of_mem_filter he)
        · rcases mem_insertMember he with rfl | he
          · exact hv
          · exact hc e he

end

/-- Induction over the members of objects. -/
theorem members_induction {P : Json → Prop} (h : ∀ j : Json, (∀ e ∈ j.members, P e.2) → P j)
    (j : Json) : P j := by
  apply h
  intro e he
  have hlt : sizeOf e.2 < sizeOf j := by
    cases j with
    | obj m =>
        have h₁ := List.sizeOf_lt_of_mem he
        obtain ⟨k, v⟩ := e
        simp only [Prod.mk.sizeOf_spec, members] at h₁
        simp only [obj.sizeOf_spec]
        omega
    | _ => cases he
  exact members_induction h e.2
termination_by sizeOf j

/-- A merge that was made once is not changed when it is made again. -/
theorem mergePatch_mergePatch (s p : Json) (hs : Canon s) (hp : Canon p) :
    mergePatch (mergePatch s p) p = mergePatch s p := by
  induction p using members_induction generalizing s with
  | h p ih =>
    cases p with
    | obj p =>
        have hp' := canon_obj_iff.mp hp
        have hmerged := canon_members (canon_mergePatch s hs _ hp)
        rw [mergePatch_obj, mergePatch_obj, members] at *
        have htwice := canon_mergeMembers _ hmerged.1 hmerged.2 p hp'.2
        congr 1
        apply members_ext htwice.1 hmerged.1
        intro k
        rw [lookup_mergeMembers hp'.1.nodup, lookup_mergeMembers hp'.1.nodup]
        cases hk : lookup p k with
        | none => rfl
        | some v =>
            dsimp only
            split
            · rfl
            · rw [Option.getD_some, ih (k, v) (mem_of_lookup hk) _
                (canon_lookup (canon_members hs).2) (hp'.2 _ (mem_of_lookup hk))]
    | _ => simp [mergePatch]

end Canon

end Json

end Wheel
