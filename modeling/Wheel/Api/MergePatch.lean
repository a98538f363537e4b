import Wheel.Data.MergeMeaning

/-!
# The merge of the planner and the merge of the engine

The engine merges the `config` of a patch into the node's own, and the planner, which
predicts what will be stored, merges with a function of its own. `merge_patch_meaning` says
that both are the merge of RFC 7386, of which nulls in lists are a part.
-/

namespace Wheel

namespace Api

open Json

/-- The value of the entry of a name, which is null when there was none, changed in place. -/
def modifyEntry (k : String) (f : Json → Json) (m : Members) : Members :=
  insertMember k (f ((lookup m k).getD null)) m

mutual

/-- The planner's merge of a patch into a target. -/
def mergePatch (target : Json) : Json → Json
  | obj patchMap => obj (mergeInto target.members patchMap)
  | patch => patch
termination_by structural p => p

def mergeInto (map : Members) : Members → Members
  | [] => map
  | (k, v) :: patchMap =>
      if v.isNull then mergeInto (eraseMember k map) patchMap
      else mergeInto (modifyEntry k (fun entry => mergePatch entry v) map) patchMap
termination_by structural p => p

end

mutual

/-- The planner merges as the engine does. -/
theorem mergePatch_eq (target : Json) : ∀ p : Json, mergePatch target p = Json.mergePatch target p
  | .obj p => by
      rw [mergePatch, mergePatch_obj, mergeInto_eq _ p]
  | .null => by simp [mergePatch, Json.mergePatch]
  | .bool _ => by simp [mergePatch, Json.mergePatch]
  | .int _ => by simp [mergePatch, Json.mergePatch]
  | .float _ => by simp [mergePatch, Json.mergePatch]
  | .str _ => by simp [mergePatch, Json.mergePatch]
  | .arr _ => by simp [mergePatch, Json.mergePatch]

theorem mergeInto_eq (m : Members) :
    ∀ p : List (String × Json), mergeInto m p = mergeMembers m p
  | [] => by
      rw [mergeInto, mergeMembers_nil]
  | (k, v) :: p => by
      rw [mergeInto, mergeMembers_cons]
      split
      · exact mergeInto_eq _ p
      · rw [mergeInto_eq _ p, modifyEntry, mergePatch_eq _ v]

end

/-- The merge is that of RFC 7386: it is the one result the reference allows; a member that
the patch does not name stays what it was, at every depth; the same patch again changes
nothing; a member that is null was null before; and the planner's merge is the same. -/
theorem merge_patch_meaning (base patch : Doc) :
    (∀ result, IsMerge (some base.json) patch.json result ∧ Canon result ↔
        result = Json.mergePatch base.json patch.json) ∧
      (∀ path, Unnamed path patch.json →
        at? path (Json.mergePatch base.json patch.json) = at? path base.json) ∧
      Json.mergePatch (Json.mergePatch base.json patch.json) patch.json =
        Json.mergePatch base.json patch.json ∧
      (∀ path, path ≠ [] → at? path (Json.mergePatch base.json patch.json) = some null →
        at? path base.json = some null) ∧
      mergePatch base.json patch.json = Json.mergePatch base.json patch.json := by
  refine ⟨fun result => isMerge_iff (some base) patch result, ?_, ?_, ?_, mergePatch_eq _ _⟩
  · exact fun path h => at?_mergePatch_of_unnamed patch.canon h base.json
  · exact mergePatch_mergePatch base.json patch.json base.canon patch.canon
  · exact fun path hpath h => at?_eq_null_of_mergePatch hpath patch.canon h

/-- A list of the patch is stored with the nulls it holds. -/
theorem mergePatch_list_with_null :
    Json.mergePatch (obj []) (obj [("args", arr [null])]) = obj [("args", arr [null])] := by
  decide +kernel

end Api

end Wheel
