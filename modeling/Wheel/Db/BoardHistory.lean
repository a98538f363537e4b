import Wheel.Data.Run
import Wheel.Db.Board

/-!
# Histories of the board

An operation is applied to a board whether it succeeds or not. `NodesAfter` says
once what an operation can do to the nodes: nothing, write one node that passed its
checks, or delete one. The invariants of the nodes are read off it.
-/

namespace Wheel

/-- An operation on the board, or on the rows of one of its table nodes. -/
inductive BoardOp where
  | create (node : Node)
  | update (node : Node)
  | delete (id : Uuid)
  | ensureTables
  | putRow (id : Uuid) (key : String) (value : Json)
  | getRow (id : Uuid) (key : String)
  | deleteRow (id : Uuid) (key : String)

namespace Board

variable (lite : Sqlite) (allowHosts : List String) (b : Board)

/-- The name and the columns of a table node. -/
def tableNode (id : Uuid) : Option (NodeName × TableConfig) :=
  (b.get id).bind fun n => n.config.asTable.map fun cfg => (n.name, cfg)

/-- Run an operation on the table of a node. -/
def onTable {α : Type} (id : Uuid) (f : NodeName → TableConfig → Tables.Outcome α) : Board :=
  match b.tableNode id with
  | some (name, cfg) => b.withTables (f name cfg).1
  | none => b

def apply : BoardOp → Board
  | .create node => (b.createWith lite node allowHosts).1
  | .update node => (b.updateWith lite node allowHosts).1
  | .delete id => (b.delete id).1
  | .ensureTables => b.ensureTables lite
  | .putRow id key value => b.onTable id fun name cfg => Tables.putRow lite b.tables name cfg key value
  | .getRow id key => b.onTable id fun name cfg => Tables.getRow lite b.tables name cfg key
  | .deleteRow id key => b.onTable id fun name _ => Tables.deleteRow b.tables name key

/-- What an operation did to the nodes. -/
inductive NodesAfter (b b' : Board) : Prop
  | same (h : b'.nodes = b.nodes)
  | written (node : Node) (hpath : checkEndpointPathUnique b node = .ok ())
      (hname : ∀ n ∈ b.nodes.rows, n.name = node.name → n.id = node.id)
      (hget : ∀ id, b'.get id = if id = node.id then some node else b.get id)
  | deleted (id : Uuid) (hget : ∀ k, b'.get k = if k = id then none else b.get k)

variable {lite : Sqlite} {allowHosts : List String} {b b' : Board} {node : Node}

theorem get_eq_some_iff {id : Uuid} {n : Node} :
    b.get id = some n ↔ n ∈ b.nodes.rows ∧ n.id = id := Keyed.get?_eq_some_iff

theorem get_id {n : Node} (hn : n ∈ b.nodes.rows) : b.get n.id = some n := Keyed.get?_key hn

@[simp] theorem get_withTables (ts : SqlTables) (id : Uuid) :
    (b.withTables ts).get id = b.get id := rfl

theorem get_deleteRow (id k : Uuid) :
    (b.deleteRow id).get k = if k = id then none else b.get k := by
  show (b.nodes.deleteWhere _).get? k = _
  rw [Keyed.get?_deleteWhere]
  cases hk : b.nodes.get? k with
  | none => simp [get, hk]
  | some n =>
      obtain ⟨-, rfl⟩ := Keyed.get?_eq_some_iff.mp hk
      by_cases hid : n.id = id
      · simp [hid, Option.filter]
      · simp [hid, Option.filter, get, hk]

/-- A row is inserted where its id and its name are free. -/
theorem insertRow_eq_some (h : b.insertRow node = some b') :
    b.get node.id = none ∧ (∀ n ∈ b.nodes.rows, n.name ≠ node.name) ∧
      (∀ id, b'.get id = if id = node.id then some node else b.get id) ∧
      b'.nodes.rows = b.nodes.rows ++ [node] ∧ b'.wires = b.wires ∧ b'.values = b.values ∧
      b'.tables = b.tables := by
  unfold insertRow at h
  split at h
  · cases h
  · rename_i hname
    obtain ⟨nodes, hinsert, rfl⟩ := Option.map_eq_some_iff.mp h
    obtain ⟨hnone, hrows⟩ := Keyed.insert_eq_some_iff.mp hinsert
    refine ⟨hnone, by simpa using hname, fun id => ?_, hrows, rfl, rfl, rfl⟩
    exact (Keyed.get?_of_insert hinsert id).trans (if_congr eq_comm rfl rfl)

/-- Deleting an inserted row leaves the nodes that were there. -/
theorem nodes_deleteRow_of_insertRow (h : b.insertRow node = some b') :
    (b'.deleteRow node.id).nodes = b.nodes := by
  obtain ⟨hnone, -, -, hrows, -⟩ := insertRow_eq_some h
  apply Keyed.ext
  show (b'.nodes.rows.filter _) = _
  rw [hrows, List.filter_append, List.filter_eq_self.mpr fun n hn => ?_]
  · simp
  · have hne := Keyed.get?_eq_none_iff.mp hnone n hn
    simpa using hne

theorem checks_of_createWith :
    (b.createWith lite node allowHosts).1 = b ∨
      (checkEndpointPathUnique b node = .ok () ∧ ∃ b', b.insertRow node = some b' ∧
        b.createWith lite node allowHosts = b'.createStorage lite node) := by
  unfold createWith
  cases validateConfigWith node.config allowHosts with
  | error e => exact .inl rfl
  | ok _ =>
      cases hpath : checkEndpointPathUnique b node with
      | error e => exact .inl rfl
      | ok _ =>
          cases checkFallbackVault b node with
          | error e => exact .inl rfl
          | ok _ =>
              cases hrow : b.insertRow node with
              | none => exact .inl rfl
              | some b' => exact .inr ⟨rfl, b', rfl, rfl⟩

theorem nodes_createStorage (b : Board) (node : Node) :
    (b.createStorage lite node).1.nodes = b.nodes ∨
      (b.createStorage lite node).1.nodes = (b.deleteRow node.id).nodes := by
  unfold createStorage
  split
  · exact .inl rfl
  · split
    · exact .inr rfl
    · dsimp only
      split
      · exact .inr rfl
      · exact .inl rfl

theorem nodesAfter_createWith :
    NodesAfter b (b.createWith lite node allowHosts).1 := by
  have hchecks := @checks_of_createWith lite allowHosts b node
  rcases hchecks with h | ⟨hpath, b', hrow, h⟩
  · exact .same (congrArg nodes h)
  · rw [h]
    obtain ⟨hnone, hname, hget, -⟩ := insertRow_eq_some hrow
    rcases @nodes_createStorage lite b' node with hn | hn
    · refine .written node hpath (fun n hn hnn => absurd hnn (hname n hn)) fun id => ?_
      rw [get, hn]
      exact hget id
    · exact .same (hn.trans (nodes_deleteRow_of_insertRow hrow))

theorem nodes_updateStorage : (b.updateStorage lite node).1.nodes = b.nodes := by
  unfold updateStorage
  dsimp only
  split
  · split <;> rfl
  · rfl
  · split <;> rfl
  · rfl

theorem nodesAfter_writeRow (hpath : checkEndpointPathUnique b node = .ok ()) :
    NodesAfter b (b.writeRow node).1 := by
  unfold writeRow
  split
  · exact .same rfl
  · rename_i hsome
    split
    · exact .same rfl
    · rename_i hheld
      refine .written node hpath (nameHeld_eq_false_iff.mp (by simpa using hheld)) fun id => ?_
      show (b.nodes.modify node.id (overwrite node) (overwrite_id node)).get? id = _
      rw [Keyed.get?_modify]
      by_cases hid : id = node.id
      · subst hid
        rw [if_pos rfl, if_pos rfl]
        cases hn : b.nodes.get? node.id with
        | none => simp [get, hn] at hsome
        | some n =>
            obtain ⟨-, hnid⟩ := Keyed.get?_eq_some_iff.mp hn
            cases node
            cases n
            cases hnid
            rfl
      · rw [if_neg hid, if_neg hid]
        rfl

theorem checks_of_updateWith :
    (b.updateWith lite node allowHosts).1 = b ∨
      (checkEndpointPathUnique b node = .ok () ∧
        b.updateWith lite node allowHosts =
          match (b.updateStorage lite node).2 with
          | .error e => ((b.updateStorage lite node).1, .error e)
          | .ok () => (b.updateStorage lite node).1.writeRow node) := by
  unfold updateWith
  cases hcheck : checkUpdate b node allowHosts with
  | error e => exact .inl rfl
  | ok _ =>
      refine .inr ⟨?_, rfl⟩
      unfold checkUpdate at hcheck
      cases hvalid : validateConfigWith node.config allowHosts with
      | error e =>
          rw [hvalid] at hcheck
          cases hcheck
      | ok _ =>
          cases hpath : checkEndpointPathUnique b node with
          | error e =>
              rw [hvalid, hpath] at hcheck
              cases hcheck
          | ok _ => rfl

theorem checkEndpointPathUnique_congr (h : b'.nodes = b.nodes) :
    checkEndpointPathUnique b' node = checkEndpointPathUnique b node := by
  unfold checkEndpointPathUnique list
  rw [h]

theorem NodesAfter.of_nodes_eq {b₁ b₂ : Board} (h : b₁.nodes = b.nodes) (h' : NodesAfter b₁ b₂) :
    NodesAfter b b₂ := by
  have hget : ∀ id, b₁.get id = b.get id := fun id => by rw [get, get, h]
  cases h' with
  | same hs => exact .same (hs.trans h)
  | written node hpath hname hg =>
      refine .written node ((checkEndpointPathUnique_congr h).symm.trans hpath) (h ▸ hname) fun id => ?_
      rw [hg, hget]
  | deleted id hg =>
      refine .deleted id fun k => ?_
      rw [hg, hget]

theorem nodesAfter_updateWith : NodesAfter b (b.updateWith lite node allowHosts).1 := by
  have hchecks := @checks_of_updateWith lite allowHosts b node
  rcases hchecks with h | ⟨hpath, h⟩
  · exact .same (congrArg nodes h)
  · have hnodes := @nodes_updateStorage lite b node
    rw [h]
    cases (b.updateStorage lite node).2 with
    | error e => exact .same hnodes
    | ok _ =>
        exact .of_nodes_eq hnodes
          (nodesAfter_writeRow ((checkEndpointPathUnique_congr hnodes).trans hpath))

theorem nodes_dropStorage (id : Uuid) : (b.dropStorage id).1.nodes = b.nodes := by
  unfold dropStorage
  split <;> rfl

theorem nodesAfter_delete (id : Uuid) : NodesAfter b (b.delete id).1 := by
  have hnodes := nodes_dropStorage (b := b) id
  unfold delete
  dsimp only
  cases (b.dropStorage id).2 with
  | error e => exact .same hnodes
  | ok _ =>
      refine .deleted id fun k => ?_
      show ((b.dropStorage id).1.deleteRow id).get k = _
      rw [get_deleteRow, get, hnodes]
      rfl

theorem nodes_onTable {α : Type} (id : Uuid) (f : NodeName → TableConfig → Tables.Outcome α) :
    (b.onTable id f).nodes = b.nodes := by
  unfold onTable
  split <;> rfl

/-- An operation does nothing to the nodes, writes one or deletes one. -/
theorem nodesAfter_apply (op : BoardOp) : NodesAfter b (b.apply lite allowHosts op) := by
  cases op with
  | create node => exact nodesAfter_createWith
  | update node => exact nodesAfter_updateWith
  | delete id => exact nodesAfter_delete id
  | ensureTables => exact .same rfl
  | putRow id key value => exact .same (nodes_onTable id _)
  | getRow id key => exact .same (nodes_onTable id _)
  | deleteRow id key => exact .same (nodes_onTable id _)

end Board

end Wheel
