import Wheel.Core.State
import Wheel.Db.Tables

/-!
# The board in the database

The nodes, with distinct ids, their wires, the values of the vaults, the state of
the agents, and the sqlite tables behind the table nodes.
-/

namespace Wheel

/-- A wire, stored once. -/
structure WireRow where
  source : Uuid
  target : Uuid
  wireType : WireType
  grantedBy : Option Uuid
  deriving DecidableEq

/-- A value a vault holds. -/
structure VaultValue where
  node : Uuid
  key : String
  value : String
  expiresAt : Option Timestamp
  deriving DecidableEq

def WireType.asStr : WireType → String
  | .read => "read"
  | .write => "write"
  | .send => "send"

/-- The database of one project, as far as it is the board. -/
structure Board where
  nodes : Keyed Node.id
  wires : List WireRow
  values : List VaultValue
  status : Uuid → Option AgentStatus
  tables : SqlTables

namespace Board

/-- A board without nodes. -/
def empty : Board := ⟨Keyed.empty, [], [], fun _ => none, fun _ => none⟩

variable (b : Board)

/-- The node of an id. -/
def get (id : Uuid) : Option Node := b.nodes.get? id

/-- The node of a name. -/
def getByName (name : NodeName) : Option Node := b.nodes.rows.find? fun n => n.name = name

/-- Every node of the board, in the order of the names. -/
def list : List Node := b.nodes.rows.mergeSort fun n m => n.name.raw ≤ m.name.raw

/-- The wires that start at a node. -/
def wiresFrom (id : Uuid) : List Wire :=
  ((b.wires.filter fun w => w.source = id).map fun w => ⟨w.target, w.wireType⟩).mergeSort
    fun v w => v.target.toNat < w.target.toNat ||
      (v.target = w.target && v.wireType.asStr ≤ w.wireType.asStr)

/-- The wires that end at a node, with their types. -/
def wiresTo (id : Uuid) : List (Uuid × WireType) :=
  ((b.wires.filter fun w => w.target = id).map fun w => (w.source, w.wireType)).mergeSort
    fun v w => v.1.toNat < w.1.toNat || (v.1 = w.1 && v.2.asStr ≤ w.2.asStr)

/-- Another node holds the name. -/
def nameHeld (id : Uuid) (name : NodeName) : Bool :=
  b.nodes.rows.any fun n => n.id ≠ id && n.name = name

/-- Delete the row of a node; the schema cascades to its wires, values and state. -/
def deleteRow (id : Uuid) : Board where
  nodes := b.nodes.deleteWhere fun n => n.id = id
  wires := (b.wires.filter fun w => w.source ≠ id && w.target ≠ id).map fun w =>
    { w with grantedBy := w.grantedBy.filter fun g => g ≠ id }
  values := b.values.filter fun v => v.node ≠ id
  status := Function.update b.status id none
  tables := b.tables

variable {b : Board}

theorem mem_list {n : Node} : n ∈ b.list ↔ n ∈ b.nodes.rows := List.mem_mergeSort

theorem mem_wiresFrom {id : Uuid} {w : Wire} :
    w ∈ b.wiresFrom id ↔ ∃ r ∈ b.wires, r.source = id ∧ r.target = w.target ∧
      r.wireType = w.wireType := by
  unfold wiresFrom
  rw [List.mem_mergeSort, List.mem_map]
  constructor
  · rintro ⟨r, hr, rfl⟩
    obtain ⟨hr, hid⟩ := List.mem_filter.mp hr
    exact ⟨r, hr, by simpa using hid, rfl, rfl⟩
  · rintro ⟨r, hr, hid, htarget, htype⟩
    refine ⟨r, List.mem_filter.mpr ⟨hr, by simpa using hid⟩, ?_⟩
    rw [htarget, htype]

theorem nameHeld_eq_false_iff {id : Uuid} {name : NodeName} :
    b.nameHeld id name = false ↔ ∀ n ∈ b.nodes.rows, n.name = name → n.id = id := by
  unfold nameHeld
  rw [List.any_eq_false]
  constructor
  · intro h n hn hname
    by_contra hid
    exact h n hn (by simp [hid, hname])
  · intro h n hn hheld
    obtain ⟨hid, hname⟩ := Bool.and_eq_true_iff.mp hheld
    exact of_decide_eq_true hid (h n hn (of_decide_eq_true hname))

end Board

end Wheel
