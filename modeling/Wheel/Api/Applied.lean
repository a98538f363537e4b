import Wheel.Api.Apply

/-!
# What an apply leaves behind

However the engine answers, an apply accounts for every step of its plan: once, as
landed or as failed. `Accounting` is this for the steps that are behind it, and a loop of
`execute` moves its own steps over, one by one. A node is deleted only after a past in
which everything else landed, and a wire is only put between nodes that are on the board.
-/

namespace Wheel.Api.Apply

open Concurrency (Performed Program)

/-! ## The calls of a plan -/

/-- Did the engine do what it was asked for? -/
def Succeeded : Performed Request.Answer → Prop
  | ⟨.createNode _ _ _, a⟩ => ∃ id, a = .ok id
  | ⟨.patchConfig _ _, a⟩ => a = .ok ()
  | ⟨.addWire _ _ _, a⟩ => ∃ warning, a = .ok warning
  | ⟨.deleteNode _, a⟩ => a = .ok ()
  | ⟨.deleteWire _ _ _, a⟩ => a = .ok ()

def Request.IsDelete : Request → Prop
  | .deleteNode _ => True
  | _ => False

/-- The ids by name once the engine has answered. -/
def Ids.after (ids : Ids) : List (Performed Request.Answer) → Ids
  | [] => ids
  | ⟨.createNode name _ _, .ok id⟩ :: x => Function.update (Ids.after ids x) name (some id)
  | _ :: x => Ids.after ids x

/-- The call for a wire to remove, if both ends are on the board. -/
def Ids.unwireCall (ids : Ids) (w : EmittedWire) : Option Request :=
  (ids.ends w).map fun e => .deleteWire e.1 e.2 w.wireType

/-- The call for a wire to add, if both ends are on the board. -/
def Ids.wireCall (ids : Ids) (w : EmittedWire) : Option Request :=
  (ids.ends w).map fun e => .addWire e.1 e.2 w.wireType

def EmittedNode.call (n : EmittedNode) : Request := .createNode n.name n.config n.position

def PatchNode.call (n : PatchNode) : Request := .patchConfig n.id (.obj [("config", n.config)])

def DeleteNode.call (n : DeleteNode) : Request := .deleteNode n.id

/-- The calls a plan asks for, with the ids before it and after the creations. A wire
with an end that is not on the board has none. -/
def Plan.calls (p : Plan) (before after : Ids) : List (Option Request) :=
  p.deleteWires.map before.unwireCall ++ p.createNodes.map (fun n => some n.call) ++
    p.patchNodes.map (fun n => some n.call) ++ p.createWires.map after.wireCall ++
    p.deleteNodes.map (fun n => some n.call)

/-- Every one of the calls was made, and every one that was made succeeded. -/
def Made (calls : List (Option Request)) (x : List (Performed Request.Answer)) : Prop :=
  x.reverse.map (fun q => some q.1) = calls ∧ ∀ q ∈ x, Succeeded q

/-- The steps of a plan. -/
def Plan.steps (p : Plan) : List Step :=
  p.deleteWires.map .removeWire ++ p.createNodes.map (fun n => .createNode n.name) ++
    p.patchNodes.map (fun n => .patchNode n.name) ++ p.createWires.map .createWire ++
    p.deleteNodes.map (fun n => .removeNode n.name)

/-- The steps a report speaks of, landed or failed. -/
def ApplyReport.steps (r : ApplyReport) : List Step :=
  r.deletedWires.map .removeWire ++ r.createdNodes.map .createNode ++
    r.patchedNodes.map .patchNode ++ r.createdWires.map .createWire ++
    r.deletedNodes.map .removeNode ++ r.failures.map Failure.step

/-- The node was there or was created, and was not deleted since. -/
def OnBoard (existing : ExistingBoard) (x : List (Performed Request.Answer)) (id : Uuid) : Prop :=
  ((∃ name n, existing.get? name = some n ∧ n.id = id) ∨
    ∃ name config position, ⟨.createNode name config position, .ok id⟩ ∈ x) ∧
  ∀ a, ⟨.deleteNode id, a⟩ ∉ x

/-- A node is deleted only if everything but deletions succeeded, and a wire is only added
between two nodes that are on the board. -/
def Allowed (existing : ExistingBoard) (x : List (Performed Request.Answer)) : Request → Prop
  | .deleteNode _ => ∀ q ∈ x, ¬ q.1.IsDelete → Succeeded q
  | .addWire s t _ => OnBoard existing x s ∧ OnBoard existing x t
  | _ => True

/-! ## One step -/

/-- A call that was not made is missing. -/
theorem not_made_of_length_lt {calls : List (Option Request)}
    {x : List (Performed Request.Answer)} (h : x.length < calls.length) : ¬ Made calls x := by
  rintro ⟨rfl, -⟩
  simp at h

theorem made_append_of_succeeded {calls : List (Option Request)}
    {x : List (Performed Request.Answer)} {q : Performed Request.Answer} (hq : Succeeded q) :
    Made (calls ++ [some q.1]) (q :: x) ↔ Made calls x := by
  unfold Made
  rw [List.reverse_cons, List.map_append, List.map_singleton, List.append_left_inj,
    List.forall_mem_cons]
  exact and_congr_right fun _ => and_iff_right hq

theorem made_cons_of_not_succeeded {calls : List (Option Request)}
    {x : List (Performed Request.Answer)} {q : Performed Request.Answer} (hq : ¬ Succeeded q) :
    ¬ Made calls (q :: x) :=
  fun h => hq (h.2 q List.mem_cons_self)

/-- The report speaks once of every step that is behind the apply, and has no failure
exactly if their calls were made and succeeded. -/
structure Accounting (done : List Step) (calls : List (Option Request))
    (x : List (Performed Request.Answer)) (r : ApplyReport) : Prop where
  steps : r.steps.Perm done
  failures : r.failures = [] ↔ Made calls x
  length : x.length ≤ calls.length

section Accounting

variable {done : List Step} {calls : List (Option Request)}
  {x : List (Performed Request.Answer)} {r r' : ApplyReport} {q : Performed Request.Answer}
  {s : Step}

theorem ApplyReport.steps_fail (r : ApplyReport) (s : Step) (e : String) :
    (r.fail s e).steps = r.steps ++ [s] := by
  simp [ApplyReport.steps, ApplyReport.fail]

/-- A step without a call, or whose call is not made, has failed. -/
theorem Accounting.skipped (h : Accounting done calls x r) (c : Option Request) (e : String) :
    Accounting (done ++ [s]) (calls ++ [c]) x (r.fail s e) where
  steps := by
    rw [ApplyReport.steps_fail]
    exact h.steps.append_right [s]
  failures := by
    constructor
    · intro hf
      exact absurd hf (by simp [ApplyReport.fail])
    · intro hm
      refine absurd hm (not_made_of_length_lt ?_)
      rw [List.length_append]
      exact Nat.lt_succ_of_le h.length
  length := by
    rw [List.length_append]
    exact h.length.trans (Nat.le_add_right _ _)

theorem Accounting.failed (h : Accounting done calls x r) (hq : ¬ Succeeded q) (e : String) :
    Accounting (done ++ [s]) (calls ++ [some q.1]) (q :: x) (r.fail s e) where
  steps := by
    rw [ApplyReport.steps_fail]
    exact h.steps.append_right [s]
  failures := by
    constructor
    · intro hf
      exact absurd hf (by simp [ApplyReport.fail])
    · intro hm
      exact absurd hm (made_cons_of_not_succeeded hq)
  length := by
    rw [List.length_append]
    exact Nat.succ_le_succ h.length

theorem Accounting.landed (h : Accounting done calls x r) (hq : Succeeded q)
    (hsteps : r'.steps.Perm (r.steps ++ [s])) (hfailures : r'.failures = r.failures) :
    Accounting (done ++ [s]) (calls ++ [some q.1]) (q :: x) r' where
  steps := hsteps.trans (h.steps.append_right [s])
  failures := by
    rw [hfailures, made_append_of_succeeded hq]
    exact h.failures
  length := by
    rw [List.length_append]
    exact Nat.succ_le_succ h.length

/-- The accounting before the deletions: nothing is deleted yet, and `ids` is up to date. -/
structure Building (existing : ExistingBoard) (ids : Ids) (done : List Step)
    (calls : List (Option Request)) (x : List (Performed Request.Answer))
    (r : ApplyReport) : Prop extends Accounting done calls x r where
  quiet : ∀ q ∈ x, ¬ q.1.IsDelete
  ids : existing.ids.after x = ids

variable {existing : ExistingBoard} {ids : Ids}

theorem Building.skipped (h : Building existing ids done calls x r) (e : String) :
    Building existing ids (done ++ [s]) (calls ++ [none]) x (r.fail s e) where
  toAccounting := h.toAccounting.skipped none e
  quiet := h.quiet
  ids := h.ids

theorem Building.failed (h : Building existing ids done calls x r) (hq : ¬ Succeeded q)
    (hquiet : ¬ q.1.IsDelete) (hids : existing.ids.after (q :: x) = existing.ids.after x)
    (e : String) :
    Building existing ids (done ++ [s]) (calls ++ [some q.1]) (q :: x) (r.fail s e) where
  toAccounting := h.toAccounting.failed hq e
  quiet := List.forall_mem_cons.mpr ⟨hquiet, h.quiet⟩
  ids := hids.trans h.ids

theorem Building.landed (h : Building existing ids done calls x r) (hq : Succeeded q)
    (hquiet : ¬ q.1.IsDelete) (hsteps : r'.steps.Perm (r.steps ++ [s]))
    (hfailures : r'.failures = r.failures) {ids' : Ids}
    (hids : existing.ids.after (q :: x) = ids') :
    Building existing ids' (done ++ [s]) (calls ++ [some q.1]) (q :: x) r' where
  toAccounting := h.toAccounting.landed hq hsteps hfailures
  quiet := List.forall_mem_cons.mpr ⟨hquiet, h.quiet⟩
  ids := hids

/-- Every id the apply knows is that of a node on the board. -/
theorem Ids.after_cases {x : List (Performed Request.Answer)} {name : String} {id : Uuid}
    (h : existing.ids.after x name = some id) :
    (∃ name n, existing.get? name = some n ∧ n.id = id) ∨
      ∃ name config position, ⟨.createNode name config position, .ok id⟩ ∈ x := by
  induction x with
  | nil =>
      obtain ⟨n, hn, hid⟩ := Option.map_eq_some_iff.mp h
      exact .inl ⟨name, n, hn, hid⟩
  | cons q x ih =>
      have hlater : existing.ids.after x name = some id →
          (∃ name n, existing.get? name = some n ∧ n.id = id) ∨
            ∃ name config position, ⟨.createNode name config position, .ok id⟩ ∈ q :: x := by
        intro hx
        rcases ih hx with hold | ⟨name, config, position, hmem⟩
        · exact .inl hold
        · exact .inr ⟨name, config, position, List.mem_cons_of_mem _ hmem⟩
      rcases q with ⟨i, a⟩
      cases i with
      | createNode created config position =>
          cases a with
          | ok new =>
              by_cases hname : name = created
              · subst hname
                rw [Ids.after, Function.update_self] at h
                cases h
                exact .inr ⟨name, config, position, List.mem_cons_self⟩
              · rw [Ids.after, Function.update_of_ne hname] at h
                exact hlater h
          | error e => exact hlater h
      | _ => exact hlater h

theorem Building.onBoard (h : Building existing ids done calls x r) {name : String} {id : Uuid}
    (hid : ids name = some id) : OnBoard existing x id := by
  rw [← h.ids] at hid
  refine ⟨Ids.after_cases hid, fun a hmem => ?_⟩
  exact h.quiet _ hmem trivial

end Accounting

/-! ## The loops -/

/-- Two reports speak of the same steps if they speak of each as often. -/
theorem ApplyReport.perm_steps {r r' : ApplyReport} {s : Step}
    (h : ∀ t, r'.steps.count t = r.steps.count t + [s].count t) :
    r'.steps.Perm (r.steps ++ [s]) := by
  rw [List.perm_iff_count]
  intro t
  rw [List.count_append]
  exact h t

theorem map_cons_append {α β : Type} (x : List β) (f : α → β) (a : α) (y : List α) :
    x ++ (a :: y).map f = x ++ [f a] ++ y.map f := by
  simp

section Loops

variable {existing : ExistingBoard} {ids : Ids} {done : List Step} {calls : List (Option Request)}
  {x : List (Performed Request.Answer)} {r : ApplyReport}

theorem obeys_unwire {ws : List EmittedWire} (h : Building existing ids done calls x r) :
    (unwire ids ws r).Obeys (Allowed existing)
      (Building existing ids (done ++ ws.map .removeWire) (calls ++ ws.map ids.unwireCall)) x := by
  induction ws generalizing done calls x r with
  | nil => simpa [unwire] using h
  | cons w ws ih =>
      rw [map_cons_append, map_cons_append]
      unfold unwire Ids.unwireCall
      cases hends : ids.ends w with
      | none => exact ih (h.skipped _)
      | some e =>
          refine ⟨trivial, fun a => ?_⟩
          cases a with
          | ok u =>
              refine ih (h.landed (q := ⟨.deleteWire e.1 e.2 w.wireType, .ok u⟩) rfl not_false
                ?_ ?_ h.ids)
              · refine ApplyReport.perm_steps fun t => ?_
                simp only [ApplyReport.steps, List.map_append, List.count_append, List.map_cons,
                  List.map_nil]
                omega
              · rfl
          | error m =>
              exact ih (h.failed (q := ⟨.deleteWire e.1 e.2 w.wireType, .error m⟩) nofun not_false
                rfl m)

theorem obeys_create {ns : List EmittedNode} (h : Building existing ids done calls x r) :
    (create ns ids r).Obeys (Allowed existing)
      (fun y a => Building existing a.1 (done ++ ns.map fun n => .createNode n.name)
        (calls ++ ns.map fun n => some n.call) y a.2) x := by
  induction ns generalizing ids done calls x r with
  | nil => simpa [create] using h
  | cons n ns ih =>
      simp only [map_cons_append]
      refine ⟨trivial, fun a => ?_⟩
      cases a with
      | ok id =>
          have hids : existing.ids.after
              (⟨.createNode n.name n.config n.position, .ok id⟩ :: x) =
                Function.update ids n.name (some id) := by
            rw [Ids.after, h.ids]
          refine ih (h.landed (q := ⟨.createNode n.name n.config n.position, .ok id⟩) ⟨id, rfl⟩
            not_false ?_ ?_ hids)
          · refine ApplyReport.perm_steps fun t => ?_
            simp only [ApplyReport.steps, List.map_append, List.count_append, List.map_cons,
              List.map_nil]
            omega
          · rfl
      | error m =>
          exact ih (h.failed (q := ⟨.createNode n.name n.config n.position, .error m⟩) nofun
            not_false rfl m)

theorem obeys_patch {ns : List PatchNode} (h : Building existing ids done calls x r) :
    (patch ns r).Obeys (Allowed existing)
      (Building existing ids (done ++ ns.map fun n => .patchNode n.name)
        (calls ++ ns.map fun n => some n.call)) x := by
  induction ns generalizing done calls x r with
  | nil => simpa [patch] using h
  | cons n ns ih =>
      rw [map_cons_append, map_cons_append]
      refine ⟨trivial, fun a => ?_⟩
      cases a with
      | ok u =>
          refine ih (h.landed (q := ⟨.patchConfig n.id (.obj [("config", n.config)]), .ok u⟩) rfl
            not_false ?_ ?_ h.ids)
          · refine ApplyReport.perm_steps fun t => ?_
            simp only [ApplyReport.steps, List.map_append, List.count_append, List.map_cons,
              List.map_nil]
            omega
          · rfl
      | error m =>
          exact ih (h.failed (q := ⟨.patchConfig n.id (.obj [("config", n.config)]), .error m⟩)
            nofun not_false rfl m)

theorem obeys_wire {ws : List EmittedWire} (h : Building existing ids done calls x r) :
    (wire ids ws r).Obeys (Allowed existing)
      (Building existing ids (done ++ ws.map .createWire) (calls ++ ws.map ids.wireCall)) x := by
  induction ws generalizing done calls x r with
  | nil => simpa [wire] using h
  | cons w ws ih =>
      rw [map_cons_append, map_cons_append]
      unfold wire Ids.wireCall
      cases hends : ids.ends w with
      | none => exact ih (h.skipped _)
      | some e =>
          have hboard : OnBoard existing x e.1 ∧ OnBoard existing x e.2 := by
            unfold Ids.ends at hends
            split at hends
            · rename_i s t hs ht
              cases hends
              exact ⟨h.onBoard hs, h.onBoard ht⟩
            · cases hends
          refine ⟨hboard, fun a => ?_⟩
          cases a with
          | ok warning =>
              refine ih (h.landed (q := ⟨.addWire e.1 e.2 w.wireType, .ok warning⟩)
                ⟨warning, rfl⟩ not_false ?_ ?_ h.ids)
              · refine ApplyReport.perm_steps fun t => ?_
                simp only [ApplyReport.steps, List.map_append, List.count_append, List.map_cons,
                  List.map_nil]
                omega
              · rfl
          | error m =>
              exact ih (h.failed (q := ⟨.addWire e.1 e.2 w.wireType, .error m⟩) nofun not_false
                rfl m)

/-- The deletions, once everything else has succeeded. -/
theorem obeys_delete {ns : List DeleteNode} (h : Accounting done calls x r)
    (hids : existing.ids.after x = ids) (hx : ∀ q ∈ x, ¬ q.1.IsDelete → Succeeded q) :
    (delete ns r).Obeys (Allowed existing)
      (fun y r' => Accounting (done ++ ns.map fun n => .removeNode n.name)
        (calls ++ ns.map fun n => some n.call) y r' ∧ existing.ids.after y = ids) x := by
  induction ns generalizing done calls x r with
  | nil => simpa [delete] using ⟨h, hids⟩
  | cons n ns ih =>
      simp only [map_cons_append]
      refine ⟨hx, fun a => ?_⟩
      have hlater : ∀ q ∈ (⟨.deleteNode n.id, a⟩ : Performed Request.Answer) :: x,
          ¬ q.1.IsDelete → Succeeded q :=
        List.forall_mem_cons.mpr ⟨fun hno => (hno trivial).elim, hx⟩
      cases a with
      | ok u =>
          refine ih (h.landed (q := ⟨.deleteNode n.id, .ok u⟩) rfl ?_ ?_) hids hlater
          · refine ApplyReport.perm_steps fun t => ?_
            simp only [ApplyReport.steps, List.map_append, List.count_append, List.map_cons,
              List.map_nil]
            omega
          · rfl
      | error m => exact ih (h.failed (q := ⟨.deleteNode n.id, .error m⟩) nofun m) hids hlater

/-- Without the deletions, each of them is a failure. -/
theorem accounting_keep (ns : List DeleteNode) (h : Accounting done calls x r) :
    Accounting (done ++ ns.map fun n => .removeNode n.name)
      (calls ++ ns.map fun n => some n.call) x (keep ns r) := by
  induction ns generalizing done calls r with
  | nil => simpa [keep] using h
  | cons n ns ih =>
      rw [map_cons_append, map_cons_append]
      exact ih (h.skipped (some n.call) _)

end Loops

/-- However the engine answers, an apply deletes a node only if everything before the
deletions succeeded and adds a wire only between nodes that are on the board; its report
speaks of every step of the plan once; and the apply is complete exactly if every call of
the plan was made and succeeded. -/
theorem execute_accounts (plan : Plan) (existing : ExistingBoard) :
    (execute plan existing).Obeys (Allowed existing)
      (fun x r => r.steps.Perm plan.steps ∧
        (r.isComplete = true ↔ Made (plan.calls existing.ids (existing.ids.after x)) x)) [] := by
  have hstart : Building existing existing.ids [] [] [] {} :=
    { steps := List.Perm.refl _
      failures := by simp [Made]
      length := Nat.le_refl _
      quiet := fun q hq => (List.not_mem_nil hq).elim
      ids := rfl }
  unfold execute
  refine Program.Obeys.bind (obeys_unwire hstart) fun x₁ r₁ h₁ => ?_
  refine Program.Obeys.bind (obeys_create h₁) fun x₂ a₂ h₂ => ?_
  refine Program.Obeys.bind (obeys_patch h₂) fun x₃ r₃ h₃ => ?_
  refine Program.Obeys.bind (obeys_wire h₃) fun x₄ r₄ h₄ => ?_
  split
  · rename_i hnone
    have hmade := h₄.failures.mp (List.isEmpty_iff.mp hnone)
    refine (obeys_delete h₄.toAccounting h₄.ids fun q hq _ => hmade.2 q hq).mono
      (fun _ _ hi => hi) ?_
    rintro x r ⟨h, hids⟩
    rw [hids]
    exact ⟨h.steps, List.isEmpty_iff.trans h.failures⟩
  · have h := accounting_keep plan.deleteNodes h₄.toAccounting
    change _ ∧ _
    rw [h₄.ids]
    exact ⟨h.steps, List.isEmpty_iff.trans h.failures⟩

end Wheel.Api.Apply
