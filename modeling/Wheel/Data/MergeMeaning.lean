import Wheel.Data.MergePatch

/-!
# What a merge patch means

`IsMerge target patch result` is the reference: it says member by member what the result of
a patch is, without saying in which order the members are merged. On canonical values it has
exactly one solution, which `mergePatch` computes (`isMerge_iff`). Two consequences follow
the path of a member into nested objects: a member that the patch does not name stays what it
was, and no null of the patch becomes a member.
-/

namespace Wheel

namespace Json

/-- The result of a patch on a target, which may be absent. -/
inductive IsMerge : Option Json → Json → Json → Prop where
  | replace {target : Option Json} {patch : Json} (h : ∀ p, patch ≠ obj p) :
      IsMerge target patch patch
  | object {target : Option Json} {p r : Members} (merged : String → Json)
      (unnamed : ∀ k, lookup p k = none → lookup r k = lookup (target.elim [] members) k)
      (removed : ∀ k, lookup p k = some null → lookup r k = none)
      (named : ∀ k v, lookup p k = some v → v ≠ null → lookup r k = some (merged k))
      (meaning : ∀ k v, lookup p k = some v → v ≠ null →
        IsMerge (lookup (target.elim [] members) k) v (merged k)) :
      IsMerge target (obj p) (obj r)

/-- A value whose objects list their members in order. -/
structure Doc where
  json : Json
  canon : Canon json

/-- The value of a member in nested objects. -/
def at? : List String → Json → Option Json
  | [], v => some v
  | k :: path, v => (lookup v.members k).bind (at? path)

/-- A patch that does not name a member, nor an object around it as a whole. -/
def Unnamed : List String → Json → Prop
  | k :: path, obj p =>
      match lookup p k with
      | none => True
      | some v => Unnamed path v
  | _, _ => False

theorem members_getD (target : Option Json) :
    (target.getD null).members = target.elim [] members := by
  cases target <;> rfl

theorem canon_elim {target : Option Json} (h : ∀ t ∈ target, Canon t) :
    Ascending (target.elim [] members) ∧ ∀ e ∈ target.elim [] members, Canon e.2 := by
  rw [← members_getD]
  apply canon_members
  cases target with
  | none => simp [Canon]
  | some t => exact h t rfl

theorem canon_of_lookup {m : Members} (h : ∀ e ∈ m, Canon e.2) {k : String} {v : Json}
    (hk : lookup m k = some v) : Canon v :=
  h _ (mem_of_lookup hk)

/-- The members of a merge with a target that may be absent. -/
theorem lookup_mergePatch_obj {p : Members} (hp : Ascending p) (target : Option Json)
    (k : String) :
    lookup (mergeMembers (target.getD null).members p) k =
      match lookup p k with
      | none => lookup (target.elim [] members) k
      | some v =>
          if v.isNull then none
          else some (mergePatch ((lookup (target.elim [] members) k).getD null) v) := by
  rw [lookup_mergeMembers hp.nodup, members_getD] <;> rfl

theorem isNull_eq_false {v : Json} (h : v ≠ null) : ¬ v.isNull = true :=
  fun hv => h (isNull_iff.mp hv)

/-- The merge is a result the reference allows. -/
theorem isMerge_mergePatch {patch : Json} (hp : Canon patch) (target : Option Json) :
    IsMerge target patch (mergePatch (target.getD null) patch) := by
  induction patch using members_induction generalizing target with
  | h patch ih =>
      cases patch with
      | obj p =>
          obtain ⟨hasc, hcanon⟩ := canon_obj_iff.mp hp
          rw [mergePatch_obj]
          refine .object (fun k => mergePatch
            ((lookup (target.elim [] members) k).getD null) ((lookup p k).getD null)) ?_ ?_ ?_ ?_
          · intro k hk
            rw [lookup_mergePatch_obj hasc, hk]
          · intro k hk
            rw [lookup_mergePatch_obj hasc, hk]
            rfl
          · intro k v hk hv
            rw [lookup_mergePatch_obj hasc, hk]
            exact if_neg (isNull_eq_false hv)
          · intro k v hk hv
            rw [hk]
            exact ih (k, v) (mem_of_lookup hk) (canon_of_lookup hcanon hk) _
      | _ =>
          simp only [mergePatch]
          exact .replace fun p => nofun

/-- The reference allows no other result. -/
theorem eq_mergePatch_of_isMerge {target : Option Json} {patch result : Json}
    (h : IsMerge target patch result) (ht : ∀ t ∈ target, Canon t) (hp : Canon patch)
    (hr : Canon result) : result = mergePatch (target.getD null) patch := by
  induction h with
  | replace hobj =>
      rename_i patch
      cases patch with
      | obj p => exact absurd rfl (hobj p)
      | _ => simp only [mergePatch]
  | @object target p r merged unnamed removed named meaning ih =>
      obtain ⟨hasc, hcanon⟩ := canon_obj_iff.mp hp
      obtain ⟨hrasc, hrcanon⟩ := canon_obj_iff.mp hr
      obtain ⟨htasc, htcanon⟩ := canon_elim ht
      rw [mergePatch_obj]
      have hmerged := canon_mergeMembers (target.elim [] members) htasc htcanon p hcanon
      rw [← members_getD] at hmerged
      refine congrArg obj (members_ext hrasc hmerged.1 fun k => ?_)
      rw [lookup_mergePatch_obj hasc]
      cases hk : lookup p k with
      | none => exact unnamed k hk
      | some v =>
          by_cases hv : v = null
          · subst hv
            exact removed k hk
          · dsimp only
            rw [if_neg (isNull_eq_false hv), named k v hk hv]
            have hsome := named k v hk hv
            rw [ih k v hk hv (fun t hmem => canon_of_lookup htcanon hmem)
              (canon_of_lookup hcanon hk) (canon_of_lookup hrcanon hsome)]

/-- On canonical values the reference has one result, the merge. -/
theorem isMerge_iff (target : Option Doc) (patch : Doc) (result : Json) :
    IsMerge (target.map Doc.json) patch.json result ∧ Canon result ↔
      result = mergePatch ((target.map Doc.json).getD null) patch.json := by
  have htarget : ∀ t ∈ target.map Doc.json, Canon t := by
    intro t ht
    obtain ⟨d, -, rfl⟩ := Option.map_eq_some_iff.mp ht
    exact d.canon
  constructor
  · rintro ⟨h, hr⟩
    exact eq_mergePatch_of_isMerge h htarget patch.canon hr
  · rintro rfl
    refine ⟨isMerge_mergePatch patch.canon _, canon_mergePatch _ ?_ _ patch.canon⟩
    cases target with
    | none => simp [Canon]
    | some d => exact d.canon

/-! ## Members at a depth -/

theorem at?_null_cons (k : String) (path : List String) : at? (k :: path) null = none := rfl

theorem Unnamed.ne_nil {path : List String} {v : Json} (h : Unnamed path v) : path ≠ [] := by
  rintro rfl
  cases v <;> exact h

theorem at?_getD {path : List String} (hpath : path ≠ []) (v : Option Json) :
    at? path (v.getD null) = v.bind (at? path) := by
  cases v with
  | some v => rfl
  | none =>
      cases path with
      | nil => exact absurd rfl hpath
      | cons k path => rfl

/-- What a patch does not name stays, at every depth. -/
theorem at?_mergePatch_of_unnamed {path : List String} {patch : Json} (hp : Canon patch)
    (h : Unnamed path patch) (target : Json) :
    at? path (mergePatch target patch) = at? path target := by
  induction path generalizing patch target with
  | nil => exact absurd rfl h.ne_nil
  | cons k path ih =>
      cases patch with
      | obj p =>
          obtain ⟨hasc, hcanon⟩ := canon_obj_iff.mp hp
          unfold Unnamed at h
          rw [mergePatch_obj]
          unfold at?
          rw [members, lookup_mergeMembers hasc.nodup]
          cases hk : lookup p k with
          | none => rfl
          | some v =>
              rw [hk] at h
              dsimp only at h ⊢
              have hv : v ≠ null := by
                rintro rfl
                cases path <;> exact h
              rw [if_neg (isNull_eq_false hv), Option.bind_some,
                ih (canon_of_lookup hcanon hk) h, at?_getD h.ne_nil]
      | _ => exact absurd h (by simp [Unnamed])

/-- A member that is null after a merge was null before. -/
theorem at?_eq_null_of_mergePatch {path : List String} (hpath : path ≠ []) {patch : Json}
    (hp : Canon patch) {target : Json} (h : at? path (mergePatch target patch) = some null) :
    at? path target = some null := by
  induction path generalizing patch target with
  | nil => exact absurd rfl hpath
  | cons k path ih =>
      cases patch with
      | obj p =>
          obtain ⟨hasc, hcanon⟩ := canon_obj_iff.mp hp
          rw [mergePatch_obj] at h
          unfold at? at h ⊢
          rw [members, lookup_mergeMembers hasc.nodup] at h
          cases hk : lookup p k with
          | none =>
              rw [hk] at h
              exact h
          | some v =>
              rw [hk] at h
              dsimp only at h
              split at h
              · cases h
              · rename_i hv
                rw [Option.bind_some] at h
                cases path with
                | nil =>
                    exact absurd (Option.some.inj h)
                      (mergePatch_ne_null _ fun hn => hv (isNull_iff.mpr hn))
                | cons l path =>
                    have hrec := ih (List.cons_ne_nil _ _) (canon_of_lookup hcanon hk) h
                    rwa [at?_getD (List.cons_ne_nil _ _)] at hrec
      | _ => simp [mergePatch, at?, members] at h

end Json

end Wheel
