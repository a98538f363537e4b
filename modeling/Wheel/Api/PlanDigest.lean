import Wheel.Api.Consent

/-!
# What a plan's digest binds

The digest is taken of the names of the nodes to create, of the patches and the
deletions without the ids they go to, and of the wires by name. What `execute`
sends besides is bound by nothing: the configuration and the position of a node it
creates, and the ids that names stand for on the board it is run against.
-/

namespace Wheel.Api.Apply

open Concurrency

/-! ## The digest -/

def wireTypeStr : WireType → String
  | .read => "read"
  | .write => "write"
  | .send => "send"

def EmittedWire.toJson (w : EmittedWire) : Json :=
  .obj [("from", .str w.source), ("to", .str w.target), ("type", .str (wireTypeStr w.wireType))]

def PatchNode.toJson (n : PatchNode) : Json :=
  .obj [("config", n.config), ("fields", .arr (n.fields.map .str)), ("name", .str n.name),
    ("replaced_arrays", .arr (n.replacedArrays.map .str))]

def DeleteNode.toJson (n : DeleteNode) : Json :=
  .obj [("name", .str n.name), ("type", .str n.nodeType.asStr),
    ("wires", .arr (n.wires.map EmittedWire.toJson))]

/-- What the digest is taken of. -/
def Plan.shape (p : Plan) : Json :=
  .obj [("create_nodes", .arr (p.createNodes.map fun n => .str n.name)),
    ("create_wires", .arr (p.createWires.map EmittedWire.toJson)),
    ("delete_nodes", .arr (p.deleteNodes.map DeleteNode.toJson)),
    ("delete_wires", .arr (p.deleteWires.map EmittedWire.toJson)),
    ("patch_nodes", .arr (p.patchNodes.map PatchNode.toJson))]

/-- The digest, by a hash and by the text of a JSON value. -/
def Plan.digest (sha256 : String → String) (print : Json → String) (p : Plan) : String :=
  sha256 (print p.shape)

theorem wireTypeStr_injective : Function.Injective wireTypeStr := by
  intro a b h
  cases a <;> cases b <;> first | rfl | (revert h; decide)

theorem nodeTypeStr_injective : Function.Injective NodeType.asStr := by
  intro a b h
  cases a <;> cases b <;> first | rfl | (revert h; decide)

theorem EmittedWire.toJson_injective : Function.Injective EmittedWire.toJson := by
  intro a b h
  simp only [toJson, Json.obj.injEq, List.cons.injEq, Prod.mk.injEq, Json.str.injEq, true_and,
    and_true] at h
  obtain ⟨hs, ht, hty⟩ := h
  cases a
  cases b
  cases hs
  cases ht
  cases wireTypeStr_injective hty
  rfl

theorem str_injective : Function.Injective Json.str := fun _ _ h => by cases h; rfl

/-- Plans of one shape agree in all but what the digest leaves out. -/
structure SameShape (p q : Plan) : Prop where
  createNodes : p.createNodes.map EmittedNode.name = q.createNodes.map EmittedNode.name
  patchNodes : (p.patchNodes.map fun n => (n.name, n.config)) =
    q.patchNodes.map fun n => (n.name, n.config)
  createWires : p.createWires = q.createWires
  deleteWires : p.deleteWires = q.deleteWires
  deleteNodes : p.deleteNodes.map DeleteNode.name = q.deleteNodes.map DeleteNode.name

theorem sameShape_of_shape_eq {p q : Plan} (h : p.shape = q.shape) : SameShape p q := by
  simp only [Plan.shape, Json.obj.injEq, List.cons.injEq, Prod.mk.injEq, Json.arr.injEq, true_and,
    and_true] at h
  obtain ⟨hcn, hcw, hdn, hdw, hpn⟩ := h
  constructor
  · apply str_injective.list_map
    rw [List.map_map, List.map_map]
    exact hcn
  · have hproj := congrArg (List.map fun j => (Json.lookup j.members "name", Json.lookup j.members "config")) hpn
    simp only [List.map_map] at hproj
    have hinj : Function.Injective fun e : String × Json => (some (Json.str e.1), some e.2) := by
      intro a b hab
      cases a
      cases b
      cases hab
      rfl
    apply hinj.list_map
    simp only [List.map_map]
    exact hproj
  · exact EmittedWire.toJson_injective.list_map hcw
  · exact EmittedWire.toJson_injective.list_map hdw
  · have hproj := congrArg (List.map fun j => Json.lookup j.members "name") hdn
    simp only [List.map_map] at hproj
    have hinj : Function.Injective fun e : String => some (Json.str e) := by
      intro a b hab
      cases hab
      rfl
    apply hinj.list_map
    simp only [List.map_map]
    exact hproj

/-! ## The calls of an apply -/

/-- An engine: what it answers to a call, after the calls before it. -/
abbrev Client := List (Performed Request.Answer) → (q : Request) → q.Answer

def Request.isOk : (q : Request) → q.Answer → Bool
  | .createNode _ _ _, a => Except.isOk a
  | .patchConfig _ _, a => Except.isOk a
  | .addWire _ _ _, a => Except.isOk a
  | .deleteNode _, a => Except.isOk a
  | .deleteWire _ _ _, a => Except.isOk a

section Calls

variable (client : Client)

/-- The calls that a plan makes, in order. -/
def calls (plan : Plan) (existing : ExistingBoard) : List Request :=
  (((execute plan existing).runWith client []).1.map Sigma.fst).reverse

/-- Make some calls whatever is answered. -/
def askAll : List (Performed Request.Answer) → List Request → List (Performed Request.Answer)
  | x, [] => x
  | x, q :: qs => askAll (⟨q, client x q⟩ :: x) qs

/-- All of the calls are accepted. -/
def lands : List (Performed Request.Answer) → List Request → Bool
  | _, [] => true
  | x, q :: qs => q.isOk (client x q) && lands (⟨q, client x q⟩ :: x) qs

def createRequest (n : EmittedNode) : Request := .createNode n.name n.config n.position

def patchRequest (n : PatchNode) : Request := .patchConfig n.id (.obj [("config", n.config)])

def deleteRequest (n : DeleteNode) : Request := .deleteNode n.id

def unwireRequests (ids : Ids) (ws : List EmittedWire) : List Request :=
  ws.filterMap fun w => (ids.ends w).map fun e => .deleteWire e.1 e.2 w.wireType

def wireRequests (ids : Ids) (ws : List EmittedWire) : List Request :=
  ws.filterMap fun w => (ids.ends w).map fun e => .addWire e.1 e.2 w.wireType

/-- Note the id that the engine has given to a name, if it has. -/
def Ids.assign (ids : Ids) (name : String) : Except String Uuid → Ids
  | .ok id => Function.update ids name (some id)
  | .error _ => ids

/-- The ids by name, once the nodes are created. -/
def createdIds : List (Performed Request.Answer) → List EmittedNode → Ids → Ids
  | _, [], ids => ids
  | x, n :: ns, ids =>
      createdIds (⟨createRequest n, client x (createRequest n)⟩ :: x) ns
        (ids.assign n.name (client x (createRequest n)))

variable {client} {x : List (Performed Request.Answer)} {r : ApplyReport} {ids jds : Ids}

theorem map_fst_askAll (qs : List Request) :
    ((askAll client x qs).map Sigma.fst).reverse = (x.map Sigma.fst).reverse ++ qs := by
  induction qs generalizing x with
  | nil => rw [askAll, List.append_nil]
  | cons q qs ih => rw [askAll, ih, List.map_cons, List.reverse_cons, List.append_assoc]; rfl

@[simp] theorem failures_fail (step : Step) (error : String) :
    (r.fail step error).failures ≠ [] := by
  simp [ApplyReport.fail]

theorem unwire_spec (ws : List EmittedWire) :
    ((unwire ids ws r).runWith client x).1 = askAll client x (unwireRequests ids ws) ∧
    (((unwire ids ws r).runWith client x).2.failures = [] ↔
      r.failures = [] ∧ (unwireRequests ids ws).length = ws.length ∧
        lands client x (unwireRequests ids ws) = true) := by
  induction ws generalizing x r with
  | nil => simp [unwire, unwireRequests, askAll, lands]
  | cons w ws ih =>
      unfold unwire unwireRequests
      rw [List.filterMap_cons]
      cases he : ids.ends w with
      | none =>
          have hle : (unwireRequests ids ws).length ≤ ws.length := List.length_filterMap_le _ _
          refine ⟨ih.1, ?_⟩
          dsimp only [Option.map_none]
          rw [ih.2]
          constructor
          · exact fun h => absurd h.1 (failures_fail _ _)
          · rintro ⟨-, hlen, -⟩
            rw [List.length_cons] at hlen
            change (unwireRequests ids ws).length = _ at hlen
            omega
      | some e =>
          dsimp only [Option.map_some]
          change _ = askAll client x (_ :: unwireRequests ids ws) ∧ (_ ↔ _ ∧
            (_ :: unwireRequests ids ws).length = _ ∧ lands client x (_ :: unwireRequests ids ws) = _)
          rw [askAll, lands, Program.perform_bind, Program.runWith_act]
          cases ha : client x (.deleteWire e.1 e.2 w.wireType) with
          | ok a =>
              dsimp only
              refine ⟨ih.1, ?_⟩
              rw [ih.2]
              simp [Request.isOk, Except.isOk, Except.toBool]
          | error a =>
              dsimp only
              refine ⟨ih.1, ?_⟩
              rw [ih.2]
              simp [Request.isOk, Except.isOk, Except.toBool]

theorem create_spec (ns : List EmittedNode) :
    ((create ns ids r).runWith client x).1 = askAll client x (ns.map createRequest) ∧
    ((create ns ids r).runWith client x).2.1 = createdIds client x ns ids ∧
    (((create ns ids r).runWith client x).2.2.failures = [] ↔
      r.failures = [] ∧ lands client x (ns.map createRequest) = true) := by
  induction ns generalizing x ids r with
  | nil => simp [create, askAll, createdIds, lands]
  | cons n ns ih =>
      unfold create
      rw [List.map_cons, askAll, createdIds, lands, Program.perform_bind, Program.runWith_act]
      unfold createRequest
      cases ha : client x (.createNode n.name n.config n.position) with
      | ok a =>
          dsimp only
          refine ⟨ih.1, ih.2.1, ?_⟩
          rw [ih.2.2]
          simp only [Request.isOk, Except.isOk, Except.toBool, Bool.true_and]
          rfl
      | error a =>
          dsimp only
          refine ⟨ih.1, ih.2.1, ?_⟩
          rw [ih.2.2]
          simp [Request.isOk, Except.isOk, Except.toBool]

theorem patch_spec (ns : List PatchNode) :
    ((patch ns r).runWith client x).1 = askAll client x (ns.map patchRequest) ∧
    (((patch ns r).runWith client x).2.failures = [] ↔
      r.failures = [] ∧ lands client x (ns.map patchRequest) = true) := by
  induction ns generalizing x r with
  | nil => simp [patch, askAll, lands]
  | cons n ns ih =>
      unfold patch
      rw [List.map_cons, askAll, lands, Program.perform_bind, Program.runWith_act]
      unfold patchRequest
      cases ha : client x (.patchConfig n.id (.obj [("config", n.config)])) with
      | ok a =>
          dsimp only
          refine ⟨ih.1, ?_⟩
          rw [ih.2]
          simp only [Request.isOk, Except.isOk, Except.toBool, Bool.true_and]
          rfl
      | error a =>
          dsimp only
          refine ⟨ih.1, ?_⟩
          rw [ih.2]
          simp [Request.isOk, Except.isOk, Except.toBool]

theorem wire_spec (ws : List EmittedWire) :
    ((wire ids ws r).runWith client x).1 = askAll client x (wireRequests ids ws) ∧
    (((wire ids ws r).runWith client x).2.failures = [] ↔
      r.failures = [] ∧ (wireRequests ids ws).length = ws.length ∧
        lands client x (wireRequests ids ws) = true) := by
  induction ws generalizing x r with
  | nil => simp [wire, wireRequests, askAll, lands]
  | cons w ws ih =>
      unfold wire wireRequests
      rw [List.filterMap_cons]
      cases he : ids.ends w with
      | none =>
          have hle : (wireRequests ids ws).length ≤ ws.length := List.length_filterMap_le _ _
          refine ⟨ih.1, ?_⟩
          dsimp only [Option.map_none]
          rw [ih.2]
          constructor
          · exact fun h => absurd h.1 (failures_fail _ _)
          · rintro ⟨-, hlen, -⟩
            rw [List.length_cons] at hlen
            change (wireRequests ids ws).length = _ at hlen
            omega
      | some e =>
          dsimp only [Option.map_some]
          change _ = askAll client x (_ :: wireRequests ids ws) ∧ (_ ↔ _ ∧
            (_ :: wireRequests ids ws).length = _ ∧ lands client x (_ :: wireRequests ids ws) = _)
          rw [askAll, lands, Program.perform_bind, Program.runWith_act]
          cases ha : client x (.addWire e.1 e.2 w.wireType) with
          | ok a =>
              dsimp only
              refine ⟨ih.1, ?_⟩
              rw [ih.2]
              simp [Request.isOk, Except.isOk, Except.toBool]
          | error a =>
              dsimp only
              refine ⟨ih.1, ?_⟩
              rw [ih.2]
              simp [Request.isOk, Except.isOk, Except.toBool]

theorem delete_spec (ns : List DeleteNode) :
    ((delete ns r).runWith client x).1 = askAll client x (ns.map deleteRequest) ∧
    (((delete ns r).runWith client x).2.failures = [] ↔
      r.failures = [] ∧ lands client x (ns.map deleteRequest) = true) := by
  induction ns generalizing x r with
  | nil => simp [delete, askAll, lands]
  | cons n ns ih =>
      unfold delete
      rw [List.map_cons, askAll, lands, Program.perform_bind, Program.runWith_act]
      unfold deleteRequest
      cases ha : client x (.deleteNode n.id) with
      | ok a =>
          dsimp only
          refine ⟨ih.1, ?_⟩
          rw [ih.2]
          simp only [Request.isOk, Except.isOk, Except.toBool, Bool.true_and]
          rfl
      | error a =>
          dsimp only
          refine ⟨ih.1, ?_⟩
          rw [ih.2]
          simp [Request.isOk, Except.isOk, Except.toBool]

variable (client)

/-- The calls of a plan before the wires: those to unwire, to create and to patch. -/
def firstRequests (plan : Plan) (existing : ExistingBoard) : List Request :=
  unwireRequests existing.ids plan.deleteWires ++ plan.createNodes.map createRequest ++
    plan.patchNodes.map patchRequest

/-- The calls for the new wires, which the ids of the created nodes decide. -/
def lastRequests (plan : Plan) (existing : ExistingBoard) : List Request :=
  wireRequests
    (createdIds client (askAll client [] (unwireRequests existing.ids plan.deleteWires))
      plan.createNodes existing.ids)
    plan.createWires

/-- Nothing failed before the deletions. -/
def AllLanded (plan : Plan) (existing : ExistingBoard) : Prop :=
  (unwireRequests existing.ids plan.deleteWires).length = plan.deleteWires.length ∧
    (lastRequests client plan existing).length = plan.createWires.length ∧
    lands client [] (firstRequests plan existing ++ lastRequests client plan existing) = true

variable {client}

theorem askAll_append (qs qs' : List Request) :
    askAll client x (qs ++ qs') = askAll client (askAll client x qs) qs' := by
  induction qs generalizing x with
  | nil => rfl
  | cons q qs ih => rw [List.cons_append, askAll, ih, askAll]

theorem lands_append (qs qs' : List Request) :
    lands client x (qs ++ qs') = (lands client x qs && lands client (askAll client x qs) qs') := by
  induction qs generalizing x with
  | nil => rfl
  | cons q qs ih => rw [List.cons_append, lands, ih, lands, askAll, Bool.and_assoc]

open Classical in
/-- The calls of a plan: to unwire, create, patch and wire, and to delete if all
of these have landed. -/
theorem calls_eq (plan : Plan) (existing : ExistingBoard) :
    calls client plan existing =
      firstRequests plan existing ++ lastRequests client plan existing ++
        if AllLanded client plan existing then plan.deleteNodes.map deleteRequest else [] := by
  obtain ⟨u, hu⟩ : ∃ u, (unwire existing.ids plan.deleteWires {}).runWith client [] = u := ⟨_, rfl⟩
  obtain ⟨c, hc⟩ : ∃ c, (create plan.createNodes existing.ids u.2).runWith client u.1 = c :=
    ⟨_, rfl⟩
  obtain ⟨p, hp⟩ : ∃ p, (patch plan.patchNodes c.2.2).runWith client c.1 = p := ⟨_, rfl⟩
  obtain ⟨w, hw⟩ : ∃ w, (wire c.2.1 plan.createWires p.2).runWith client p.1 = w := ⟨_, rfl⟩
  have hrun : (execute plan existing).runWith client [] =
      (if w.2.failures.isEmpty then delete plan.deleteNodes w.2
        else pure (keep plan.deleteNodes w.2) : Apply ApplyReport).runWith client w.1 := by
    unfold execute
    rw [Program.runWith_bind, hu, Program.runWith_bind, hc, Program.runWith_bind, hp,
      Program.runWith_bind, hw]
  have hus := @unwire_spec client [] {} existing.ids plan.deleteWires
  have hcs := @create_spec client u.1 u.2 existing.ids plan.createNodes
  have hps := @patch_spec client c.1 c.2.2 plan.patchNodes
  have hws := @wire_spec client p.1 p.2 c.2.1 plan.createWires
  rw [hu] at hus
  rw [hc] at hcs
  rw [hp] at hps
  rw [hw] at hws
  have hids : c.2.1 = createdIds client
      (askAll client [] (unwireRequests existing.ids plan.deleteWires)) plan.createNodes
      existing.ids := by
    rw [hcs.2.1, hus.1]
  have hpast : w.1 = askAll client []
      (firstRequests plan existing ++ lastRequests client plan existing) := by
    rw [hws.1, hps.1, hcs.1, hus.1, hids]
    simp only [firstRequests, lastRequests, askAll_append]
  have hlanded : w.2.failures = [] ↔ AllLanded client plan existing := by
    rw [hws.2, hps.2, hcs.2.2, hus.2, hps.1, hcs.1, hus.1, hids]
    simp only [AllLanded, firstRequests, lastRequests, lands_append, askAll_append,
      Bool.and_eq_true]
    tauto
  unfold calls
  rw [hrun]
  by_cases hfail : w.2.failures = []
  · rw [if_pos (hlanded.mp hfail), if_pos (by simpa using hfail), (delete_spec _).1, hpast,
      ← askAll_append, map_fst_askAll]
    rfl
  · rw [if_neg (fun h => hfail (hlanded.mpr h)), if_neg (by simpa using hfail)]
    change ((w.1.map Sigma.fst)).reverse = _
    rw [hpast, map_fst_askAll, List.append_nil]
    rfl

end Calls

/-! ## When one digest means one sequence of calls -/

/-- The ids a board has for the ends of wires, with the type of each wire. -/
def Ids.targets (ids : Ids) (ws : List EmittedWire) : List ((Uuid × Uuid) × WireType) :=
  ws.filterMap fun w => (ids.ends w).map fun e => (e, w.wireType)

/-- The nodes to create are the same, and what the plans patch, wire, unwire and
delete has the same ids on the two boards. A deletion is not reached when a wire
to remove has lost an end. -/
structure SameTargets (p : Plan) (existing : ExistingBoard) (q : Plan)
    (existing' : ExistingBoard) : Prop where
  created : (p.createNodes.map fun n => (n.name, n.config, n.position)) =
    q.createNodes.map fun n => (n.name, n.config, n.position)
  patched : p.patchNodes.map PatchNode.id = q.patchNodes.map PatchNode.id
  unwired : existing.ids.targets p.deleteWires = existing'.ids.targets q.deleteWires
  wired : ∀ w ∈ p.createWires, ∀ name ∈ [w.source, w.target],
    name ∉ p.createNodes.map EmittedNode.name → existing.ids name = existing'.ids name
  deleted : (existing.ids.targets p.deleteWires).length = p.deleteWires.length →
    p.deleteNodes.map DeleteNode.id = q.deleteNodes.map DeleteNode.id

section SameCalls

variable {client : Client} {ids jds : Ids} {p q : Plan} {existing existing' : ExistingBoard}

theorem unwireRequests_eq (ids : Ids) (ws : List EmittedWire) :
    unwireRequests ids ws = (ids.targets ws).map fun t => .deleteWire t.1.1 t.1.2 t.2 := by
  simp only [unwireRequests, Ids.targets, List.map_filterMap, Option.map_map]
  rfl

theorem createRequests_eq_iff {ns ms : List EmittedNode} :
    ns.map createRequest = ms.map createRequest ↔
      (ns.map fun n => (n.name, n.config, n.position)) =
        ms.map fun n => (n.name, n.config, n.position) := by
  have hinj : Function.Injective fun t : String × NodeConfig × Position =>
      Request.createNode t.1 t.2.1 t.2.2 := by
    intro a b h
    injection h with h1 h2 h3
    exact Prod.ext h1 (Prod.ext h2 h3)
  rw [← hinj.list_map.eq_iff, List.map_map, List.map_map]
  rfl

theorem assign_congr {name key : String} {a : Except String Uuid} (h : ids name = jds name) :
    ids.assign key a name = jds.assign key a name := by
  cases a with
  | ok id =>
      by_cases hk : name = key
      · rw [hk, Ids.assign, Ids.assign, Function.update_self, Function.update_self]
      · rw [Ids.assign, Ids.assign, Function.update_of_ne hk, Function.update_of_ne hk, h]
  | error e => exact h

theorem createdIds_congr {ns ms : List EmittedNode} {x : List (Performed Request.Answer)}
    (h : ns.map createRequest = ms.map createRequest) {name : String}
    (hname : ids name = jds name) :
    createdIds client x ns ids name = createdIds client x ms jds name := by
  induction ns generalizing ms x ids jds with
  | nil =>
      cases ms with
      | nil => exact hname
      | cons m ms => cases h
  | cons n ns ih =>
      cases ms with
      | nil => cases h
      | cons m ms =>
          rw [List.map_cons, List.map_cons, List.cons.injEq] at h
          obtain ⟨hq, h⟩ := h
          cases n
          cases m
          injection hq with h1 h2 h3
          subst h1 h2 h3
          exact ih h (assign_congr hname)

theorem wireRequests_congr {ws : List EmittedWire}
    (h : ∀ w ∈ ws, ∀ name ∈ [w.source, w.target], ids name = jds name) :
    wireRequests ids ws = wireRequests jds ws := by
  apply List.filterMap_congr
  intro w hw
  have hends : ids.ends w = jds.ends w := by
    unfold Ids.ends
    rw [h w hw w.source (by simp), h w hw w.target (by simp)]
  rw [hends]

/-- A node that is created is not on the board. -/
theorem ids_eq_none_of_created {board : EmittedBoard} {policy : ApplyPolicy} {name : String}
    (hp : validate board existing policy = .ok p)
    (hname : name ∈ p.createNodes.map EmittedNode.name) : existing.ids name = none := by
  obtain ⟨-, -, -, -, rfl⟩ := validate_eq_ok_iff.mp hp
  obtain ⟨n, hn, rfl⟩ := List.mem_map.mp hname
  have hnone := (List.mem_filter.mp hn).2
  rw [Option.isNone_iff_eq_none] at hnone
  rw [ExistingBoard.ids, hnone]
  rfl

/-- Plans of one shape and with the same targets make the same calls. -/
theorem calls_eq_of_sameTargets {board board' : EmittedBoard} {policy policy' : ApplyPolicy}
    (hp : validate board existing policy = .ok p) (hq : validate board' existing' policy' = .ok q)
    (hs : SameShape p q) (h : SameTargets p existing q existing') :
    calls client p existing = calls client q existing' := by
  have hcreate := createRequests_eq_iff.mpr h.created
  have hunwire : unwireRequests existing.ids p.deleteWires =
      unwireRequests existing'.ids q.deleteWires := by
    rw [unwireRequests_eq, unwireRequests_eq, h.unwired]
  have hpatch : p.patchNodes.map patchRequest = q.patchNodes.map patchRequest := by
    have hzip (l : List PatchNode) : l.map patchRequest =
        List.zipWith (fun id e => Request.patchConfig id (.obj [("config", e.2)]))
          (l.map PatchNode.id) (l.map fun n => (n.name, n.config)) := by
      induction l with
      | nil => rfl
      | cons n l ih => rw [List.map_cons, ih]; rfl
    rw [hzip, hzip, h.patched, hs.patchNodes]
  have hfirst : firstRequests p existing = firstRequests q existing' := by
    rw [firstRequests, firstRequests, hunwire, hcreate, hpatch]
  have hlast : lastRequests client p existing = lastRequests client q existing' := by
    rw [lastRequests, lastRequests, hunwire, ← hs.createWires]
    apply wireRequests_congr
    intro w hw name hname
    apply createdIds_congr hcreate
    by_cases hc : name ∈ p.createNodes.map EmittedNode.name
    · rw [ids_eq_none_of_created hp hc, ids_eq_none_of_created hq (hs.createNodes ▸ hc)]
    · exact h.wired w hw name hname hc
  have hlanded : AllLanded client p existing ↔ AllLanded client q existing' := by
    rw [AllLanded, AllLanded, hunwire, hlast, hfirst, hs.deleteWires, hs.createWires]
  rw [calls_eq, calls_eq, hfirst, hlast]
  congr 1
  by_cases hl : AllLanded client p existing
  · rw [if_pos hl, if_pos (hlanded.mp hl)]
    have hlen : (existing.ids.targets p.deleteWires).length = p.deleteWires.length := by
      have h1 := hl.1
      rwa [unwireRequests_eq, List.length_map] at h1
    have hids := congrArg (List.map Request.deleteNode) (h.deleted hlen)
    rw [List.map_map, List.map_map] at hids
    exact hids
  · rw [if_neg hl, if_neg (fun h => hl (hlanded.mpr h))]

/-! ### The client that accepts everything -/

/-- A client that accepts every call, and gives every node one id. -/
def accepting : Client
  | _, .createNode _ _ _ => .ok 0
  | _, .patchConfig _ _ => .ok ()
  | _, .addWire _ _ _ => .ok none
  | _, .deleteNode _ => .ok ()
  | _, .deleteWire _ _ _ => .ok ()

theorem lands_accepting (x : List (Performed Request.Answer)) (qs : List Request) :
    lands accepting x qs = true := by
  induction qs generalizing x with
  | nil => rfl
  | cons q qs ih =>
      rw [lands, ih, Bool.and_true]
      cases q <;> rfl

theorem createdIds_accepting (x : List (Performed Request.Answer)) (ns : List EmittedNode)
    (ids : Ids) (name : String) :
    createdIds accepting x ns ids name =
      if name ∈ ns.map EmittedNode.name then some 0 else ids name := by
  induction ns generalizing x ids with
  | nil => simp [createdIds]
  | cons n ns ih =>
      rw [createdIds, ih, List.map_cons]
      by_cases hm : name ∈ ns.map EmittedNode.name
      · rw [if_pos hm, if_pos (List.mem_cons_of_mem _ hm)]
      rw [if_neg hm]
      change Function.update ids n.name (some 0) name = _
      by_cases hn : name = n.name
      · rw [hn, Function.update_self, if_pos List.mem_cons_self]
      · rw [Function.update_of_ne hn, if_neg]
        intro h
        exact (List.mem_cons.mp h).elim hn hm

/-- An emitted wire of a legal board leads from and to a node that exists or is
created. -/
theorem ends_of_createWires {board : EmittedBoard} {policy : ApplyPolicy} {w : EmittedWire}
    (hp : validate board existing policy = .ok p) (hw : w ∈ p.createWires) :
    ∀ name ∈ [w.source, w.target],
      name ∈ p.createNodes.map EmittedNode.name ∨ (existing.ids name).isSome := by
  obtain ⟨-, hill, -, -, rfl⟩ := validate_eq_ok_iff.mp hp
  have hrefused : wireRefusals board existing w = [] := by
    rw [List.eq_nil_iff_forall_not_mem]
    intro r hr
    have hmem : r ∈ illegal board existing := by
      simp only [illegal, List.mem_append, List.mem_flatMap]
      exact .inl (.inr ⟨w, List.mem_of_mem_filter hw, hr⟩)
    rw [hill] at hmem
    cases hmem
  have htype : ∀ name, (typeOf board existing name).isSome →
      name ∈ (createNodes board existing).map EmittedNode.name ∨
        (existing.ids name).isSome := by
    intro name h
    unfold typeOf at h
    cases hg : existing.get? name with
    | some present =>
        right
        rw [ExistingBoard.ids, hg]
        rfl
    | none =>
        left
        rw [hg] at h
        have h' : ((board.nodes.reverse.find? fun n => n.name = name).map
            EmittedNode.nodeType).isSome = true := h
        rw [Option.isSome_map] at h'
        obtain ⟨n, hn⟩ := Option.isSome_iff_exists.mp h'
        have hmem := List.mem_of_find?_eq_some hn
        have hname := List.find?_some hn
        rw [decide_eq_true_eq] at hname
        refine List.mem_map.mpr ⟨n, List.mem_filter.mpr ⟨List.mem_reverse.mp hmem, ?_⟩, hname⟩
        rw [hname, hg]
        rfl
  unfold wireRefusals at hrefused
  split at hrefused
  · cases hrefused
  split at hrefused
  · cases hrefused
  split at hrefused
  · rename_i s t hs ht
    intro name hname
    simp only [List.mem_cons, List.not_mem_nil, or_false] at hname
    rcases hname with rfl | rfl
    · exact htype _ (by rw [hs]; rfl)
    · exact htype _ (by rw [ht]; rfl)
  · cases hrefused
  · cases hrefused

theorem ends_of_wireRequests_eq {ws : List EmittedWire}
    (hi : ∀ w ∈ ws, ∀ name ∈ [w.source, w.target], (ids name).isSome)
    (hj : ∀ w ∈ ws, ∀ name ∈ [w.source, w.target], (jds name).isSome)
    (h : wireRequests ids ws = wireRequests jds ws) :
    ∀ w ∈ ws, ∀ name ∈ [w.source, w.target], ids name = jds name := by
  have hends {ids : Ids} {w : EmittedWire}
      (h : ∀ name ∈ [w.source, w.target], (ids name).isSome) :
      ∃ s t, ids w.source = some s ∧ ids w.target = some t := by
    obtain ⟨s, hs⟩ := Option.isSome_iff_exists.mp (h w.source (by simp))
    obtain ⟨t, ht⟩ := Option.isSome_iff_exists.mp (h w.target (by simp))
    exact ⟨s, t, hs, ht⟩
  induction ws with
  | nil => exact fun w hw => nomatch hw
  | cons w ws ih =>
      obtain ⟨s, t, hs, ht⟩ := hends (hi w List.mem_cons_self)
      obtain ⟨s', t', hs', ht'⟩ := hends (hj w List.mem_cons_self)
      simp only [wireRequests, List.filterMap_cons, Ids.ends, hs, ht, hs', ht', Option.map_some,
        List.cons.injEq, Request.addWire.injEq] at h
      obtain ⟨⟨rfl, rfl, -⟩, h⟩ := h
      have hrest := ih (fun v hv => hi v (List.mem_cons_of_mem _ hv))
        (fun v hv => hj v (List.mem_cons_of_mem _ hv)) h
      intro v hv name hname
      rcases List.mem_cons.mp hv with rfl | hv
      · simp only [List.mem_cons, List.not_mem_nil, or_false] at hname
        rcases hname with rfl | rfl
        · rw [hs, hs']
        · rw [ht, ht']
      · exact hrest v hv name hname

/-- Every end of a new wire is known once everything is created. -/
theorem isSome_createdIds {board : EmittedBoard} {policy : ApplyPolicy}
    (hp : validate board existing policy = .ok p) (x : List (Performed Request.Answer)) :
    ∀ w ∈ p.createWires, ∀ name ∈ [w.source, w.target],
      (createdIds accepting x p.createNodes existing.ids name).isSome := by
  intro w hw name hname
  rw [createdIds_accepting]
  split
  · rfl
  · rename_i hc
    exact (ends_of_createWires hp hw name hname).resolve_left hc

theorem length_wireRequests {ws : List EmittedWire}
    (h : ∀ w ∈ ws, ∀ name ∈ [w.source, w.target], (ids name).isSome) :
    (wireRequests ids ws).length = ws.length := by
  induction ws with
  | nil => rfl
  | cons w ws ih =>
      obtain ⟨s, hs⟩ := Option.isSome_iff_exists.mp (h w List.mem_cons_self w.source (by simp))
      obtain ⟨t, ht⟩ := Option.isSome_iff_exists.mp (h w List.mem_cons_self w.target (by simp))
      have hrest := ih fun v hv => h v (List.mem_cons_of_mem _ hv)
      simp only [wireRequests, List.filterMap_cons, Ids.ends, hs, ht, Option.map_some,
        List.length_cons] at hrest ⊢
      rw [hrest]

theorem wireRequests_eq (ids : Ids) (ws : List EmittedWire) :
    wireRequests ids ws = (ids.targets ws).map fun t => .addWire t.1.1 t.1.2 t.2 := by
  simp only [wireRequests, Ids.targets, List.map_filterMap, Option.map_map]
  rfl

def Request.unwired : Request → Option ((Uuid × Uuid) × WireType)
  | .deleteWire s t ty => some ((s, t), ty)
  | _ => none

def Request.created : Request → Option (String × NodeConfig × Position)
  | .createNode n c p => some (n, c, p)
  | _ => none

def Request.patched : Request → Option Uuid
  | .patchConfig id _ => some id
  | _ => none

def Request.wired : Request → Option ((Uuid × Uuid) × WireType)
  | .addWire s t ty => some ((s, t), ty)
  | _ => none

def Request.deleted : Request → Option Uuid
  | .deleteNode id => some id
  | _ => none

/-- The ids by name once everything is created, when everything is accepted. -/
def acceptedIds (p : Plan) (existing : ExistingBoard) : Ids :=
  createdIds accepting (askAll accepting [] (unwireRequests existing.ids p.deleteWires))
    p.createNodes existing.ids

open Classical in
theorem filterMap_calls {δ : Type} (g : Request → Option δ) (p : Plan)
    (existing : ExistingBoard) :
    (calls accepting p existing).filterMap g =
      (existing.ids.targets p.deleteWires).filterMap (fun t => g (.deleteWire t.1.1 t.1.2 t.2)) ++
      p.createNodes.filterMap (fun n => g (createRequest n)) ++
      p.patchNodes.filterMap (fun n => g (patchRequest n)) ++
      ((acceptedIds p existing).targets p.createWires).filterMap
        (fun t => g (.addWire t.1.1 t.1.2 t.2)) ++
      if AllLanded accepting p existing then p.deleteNodes.filterMap (fun n => g (deleteRequest n))
      else [] := by
  have hdel : (if AllLanded accepting p existing then p.deleteNodes.map deleteRequest
      else []).filterMap g = if AllLanded accepting p existing then
        p.deleteNodes.filterMap (fun n => g (deleteRequest n)) else [] := by
    split
    · rw [List.filterMap_map]
      rfl
    · rfl
  rw [calls_eq, firstRequests, lastRequests, wireRequests_eq, acceptedIds]
  nth_rewrite 1 [unwireRequests_eq]
  simp only [List.filterMap_append, List.filterMap_map, hdel]
  rfl

open Classical in
/-- The calls of each kind, of the client that accepts everything. -/
theorem kinds_of_calls (p : Plan) (existing : ExistingBoard) :
    (calls accepting p existing).filterMap Request.unwired = existing.ids.targets p.deleteWires ∧
    (calls accepting p existing).filterMap Request.created =
      (p.createNodes.map fun n => (n.name, n.config, n.position)) ∧
    (calls accepting p existing).filterMap Request.patched = p.patchNodes.map PatchNode.id ∧
    (calls accepting p existing).filterMap Request.wired =
      (acceptedIds p existing).targets p.createWires ∧
    (calls accepting p existing).filterMap Request.deleted =
      if AllLanded accepting p existing then p.deleteNodes.map DeleteNode.id else [] := by
  simp only [filterMap_calls, createRequest, patchRequest, deleteRequest, Request.unwired,
    Request.created, Request.patched, Request.wired, Request.deleted, List.filterMap_none,
    List.filterMap_eq_map', ite_self, List.append_nil, List.nil_append]
  exact ⟨List.map_id _, trivial, trivial, List.map_id _, trivial⟩

/-- Plans that make the same calls of the client that accepts everything have the
same targets. -/
theorem sameTargets_of_calls_eq {board board' : EmittedBoard} {policy policy' : ApplyPolicy}
    (hp : validate board existing policy = .ok p) (hq : validate board' existing' policy' = .ok q)
    (hs : SameShape p q) (h : calls accepting p existing = calls accepting q existing') :
    SameTargets p existing q existing' := by
  classical
  obtain ⟨hu, hc, hpa, hw, hd⟩ := kinds_of_calls p existing
  obtain ⟨hu', hc', hpa', hw', hd'⟩ := kinds_of_calls q existing'
  rw [h] at hu hc hpa hw hd
  have hunwired := hu.symm.trans hu'
  have hwired : wireRequests (acceptedIds p existing) p.createWires =
      wireRequests (acceptedIds q existing') p.createWires := by
    nth_rewrite 2 [hs.createWires]
    rw [wireRequests_eq, wireRequests_eq, ← hw, ← hw']
  have hlanded (p : Plan) (existing : ExistingBoard) {board policy}
      (hp : validate board existing policy = .ok p)
      (hlen : (existing.ids.targets p.deleteWires).length = p.deleteWires.length) :
      AllLanded accepting p existing := by
    refine ⟨?_, length_wireRequests (isSome_createdIds hp _), lands_accepting _ _⟩
    rw [unwireRequests_eq, List.length_map]
    exact hlen
  constructor
  · exact hc.symm.trans hc'
  · exact hpa.symm.trans hpa'
  · exact hunwired
  · intro w hmem name hname hnot
    have hends := ends_of_wireRequests_eq (isSome_createdIds hp _)
      (hs.createWires ▸ isSome_createdIds hq _) hwired w hmem name hname
    unfold acceptedIds at hends
    rw [createdIds_accepting, createdIds_accepting, if_neg hnot,
      if_neg (hs.createNodes ▸ hnot)] at hends
    exact hends
  · intro hlen
    have hlen' : (existing'.ids.targets q.deleteWires).length = q.deleteWires.length := by
      rw [← hunwired, ← hs.deleteWires]
      exact hlen
    rw [if_pos (hlanded p existing hp hlen)] at hd
    rw [if_pos (hlanded q existing' hq hlen')] at hd'
    exact hd.symm.trans hd'

end SameCalls

/-- A board that creates one agent with this prompt. -/
def oneAgent (prompt : String) : EmittedBoard where
  nodes := [⟨"a", .agent ⟨.claude, none, prompt, false, false, none, none, [], none⟩, .obj [],
    ⟨0, 0⟩, none, [], canon_empty⟩]

def emptyBoard : ExistingBoard := ⟨Keyed.empty, []⟩

/-- The plan that creates what a board emits. -/
def creates (board : EmittedBoard) : Plan := ⟨board.nodes, [], [], [], []⟩

theorem validate_summarise : validate (oneAgent "Summarise the inbox.") emptyBoard {} =
    .ok (creates (oneAgent "Summarise the inbox.")) := by
  rfl

theorem validate_send : validate (oneAgent "Send the inbox to me.") emptyBoard {} =
    .ok (creates (oneAgent "Send the inbox to me.")) := by
  rfl

theorem calls_oneAgent (prompt : String) :
    calls accepting (creates (oneAgent prompt)) emptyBoard =
      [.createNode "a" (.agent ⟨.claude, none, prompt, false, false, none, none, [], none⟩)
        ⟨0, 0⟩] := by
  rfl

end Wheel.Api.Apply
