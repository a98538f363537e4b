import Wheel.Api.Ingress
import Wheel.Db.BoardHistory
import Mathlib

/-!
# What an operation does to a board

`Effect` says once what an operation can do to the nodes and the wires: keep the nodes, write one
that was checked, delete one with its wires, or store a wire that the matrix allows. Two invariants
are read off it: wires join nodes that may be joined, and endpoints have their addresses for
themselves.
-/

namespace Wheel

/-- What a wire is stored under. -/
def WireRow.key (w : WireRow) : Uuid × Uuid × WireType := (w.source, w.target, w.wireType)

namespace Board

def wireKeys (b : Board) : List (Uuid × Uuid × WireType) := b.wires.map WireRow.key

/-- Two nodes of the board may be joined by a wire. -/
def Joins (b : Board) (k : Uuid × Uuid × WireType) : Prop :=
  ∃ n m, b.get k.1 = some n ∧ b.get k.2.1 = some m ∧
    checkWire k.1 n.nodeType k.2.1 m.nodeType k.2.2 = .ok ()

/-- What an operation did, where `P` holds of the node that it writes. -/
inductive Effect (P : Node → Prop) (b b' : Board) : Prop
  | kept (hget : ∀ id, b'.get id = b.get id) (hkeys : (wireKeys b').Sublist (wireKeys b))
  | written (node : Node) (hnode : P node) (hpath : checkEndpointPathUnique b node = .ok ())
      (hget : ∀ id, b'.get id = if id = node.id then some node else b.get id)
      (hkeys : (wireKeys b').Sublist (wireKeys b))
  | deleted (id : Uuid) (hget : ∀ k, b'.get k = if k = id then none else b.get k)
      (hkeys : (wireKeys b').Sublist (wireKeys b))
      (hends : ∀ k ∈ wireKeys b', k.1 ≠ id ∧ k.2.1 ≠ id)
  | wired (k : Uuid × Uuid × WireType) (hget : ∀ id, b'.get id = b.get id) (hjoins : Joins b k)
      (hnew : k ∉ wireKeys b) (hkeys : wireKeys b' = wireKeys b ++ [k])

theorem Effect.refl {P : Node → Prop} {b : Board} : Effect P b b :=
  .kept (fun _ => rfl) (List.Sublist.refl _)

/-- What is no node and no wire does not count. -/
theorem Effect.of_eq {P : Node → Prop} {b b' : Board} (hnodes : b'.nodes = b.nodes)
    (hwires : b'.wires = b.wires) : Effect P b b' := by
  refine .kept (fun id => by rw [get, get, hnodes]) ?_
  rw [wireKeys, hwires]
  exact List.Sublist.refl _

theorem Effect.mono {P Q : Node → Prop} {b b' : Board} (h : Effect P b b')
    (hPQ : ∀ n, P n → Q n) : Effect Q b b' := by
  cases h with
  | kept hget hkeys => exact .kept hget hkeys
  | written node hnode hpath hget hkeys => exact .written node (hPQ node hnode) hpath hget hkeys
  | deleted id hget hkeys hends => exact .deleted id hget hkeys hends
  | wired k hget hjoins hnew hkeys => exact .wired k hget hjoins hnew hkeys

/-- Only the nodes and the wires of a board count. -/
theorem Effect.congr {P : Node → Prop} {b₁ b b' : Board} (hnodes : b₁.nodes = b.nodes)
    (hwires : b₁.wires = b.wires) (h : Effect P b₁ b') : Effect P b b' := by
  have hget : ∀ id, b₁.get id = b.get id := fun id => by rw [get, get, hnodes]
  have hkeys : wireKeys b₁ = wireKeys b := congrArg (List.map WireRow.key) hwires
  have hjoins : ∀ k, Joins b₁ k ↔ Joins b k := fun k => by simp only [Joins, hget]
  cases h with
  | kept hg hk => exact .kept (fun id => (hg id).trans (hget id)) (hkeys ▸ hk)
  | written node hnode hpath hg hk =>
      refine .written node hnode ((checkEndpointPathUnique_congr hnodes).symm.trans hpath)
        (fun id => ?_) (hkeys ▸ hk)
      rw [hg, hget]
  | deleted id hg hk hends =>
      refine .deleted id (fun k => ?_) (hkeys ▸ hk) hends
      rw [hg, hget]
  | wired k hg hj hnew hk =>
      exact .wired k (fun id => (hg id).trans (hget id)) ((hjoins k).1 hj) (hkeys ▸ hnew)
        (hkeys ▸ hk)

variable {lite : Sqlite} {allowHosts : List String} {b : Board} {node : Node}

/-! ## Nodes -/

theorem wireKeys_deleteRow (id : Uuid) : wireKeys (b.deleteRow id) =
    (wireKeys b).filter fun k => k.1 ≠ id && k.2.1 ≠ id := by
  rw [wireKeys, wireKeys, deleteRow, List.map_map, List.filter_map]
  rfl

theorem effect_deleteRow {P : Node → Prop} (id : Uuid) : Effect P b (b.deleteRow id) := by
  refine .deleted id (get_deleteRow id) ?_ fun k hk => ?_
  · rw [wireKeys_deleteRow]
    exact List.filter_sublist
  · rw [wireKeys_deleteRow] at hk
    simpa using (List.mem_filter.1 hk).2

theorem effect_createWith : Effect (· = node) b (b.createWith lite node allowHosts).1 := by
  have hchecks := @checks_of_createWith lite allowHosts b node
  rcases hchecks with h | ⟨hpath, b', hrow, h⟩
  · rw [h]
    exact .refl
  · rw [h]
    obtain ⟨hnone, hname, hget, hrows, hwires, -⟩ := insertRow_eq_some hrow
    have hnodes := nodes_deleteRow_of_insertRow hrow
    have hwritten : ∀ ts, Effect (· = node) b (b'.withTables ts) := fun ts =>
      .written node rfl hpath hget (by rw [wireKeys, withTables, hwires]; exact .refl _)
    have hundone : ∀ ts, Effect (· = node) b ((b'.withTables ts).deleteRow node.id) := by
      intro ts
      refine .kept (fun id => ?_) ?_
      · show ((b'.deleteRow node.id).nodes).get? id = _
        rw [hnodes]
        rfl
      · rw [wireKeys_deleteRow, wireKeys, withTables, hwires]
        exact List.filter_sublist
    unfold createStorage
    split
    · exact hwritten b'.tables
    · split
      · exact hundone b'.tables
      · dsimp only
        split
        · exact hundone _
        · exact hwritten _

theorem get_writeRow (id : Uuid) : (b.writeRow node).1.get id =
    if id = node.id ∧ (b.get node.id).isSome ∧ b.nameHeld node.id node.name = false
      then some node else b.get id := by
  unfold writeRow
  split
  · next hnone => rw [if_neg fun h => by simp_all]
  · next hsome =>
      split
      · next hheld => rw [if_neg fun h => by simp_all]
      · next hfree =>
          show (b.nodes.modify node.id (overwrite node) (overwrite_id node)).get? id = _
          have hsome' : (b.get node.id).isSome = true := by
            cases hn : b.get node.id with
            | none => simp [hn] at hsome
            | some n => rfl
          rw [Keyed.get?_modify]
          simp only [hsome', hfree, and_true]
          by_cases hid : id = node.id
          · subst hid
            rw [if_pos rfl, if_pos rfl]
            obtain ⟨n, hn⟩ := Option.isSome_iff_exists.1 hsome'
            obtain ⟨-, hnid⟩ := get_eq_some_iff.1 hn
            rw [← get, hn]
            cases node
            cases n
            cases hnid
            rfl
          · rw [if_neg hid, if_neg hid]
            rfl

theorem wires_updateStorage : (b.updateStorage lite node).1.wires = b.wires := by
  unfold updateStorage
  dsimp only
  split
  · split <;> rfl
  · rfl
  · split <;> rfl
  · rfl

/-- An update writes the node, where there is one with its id. -/
theorem effect_updateWith :
    Effect (fun n => n = node ∧ (b.get node.id).isSome = true) b
      (b.updateWith lite node allowHosts).1 := by
  have hchecks := @checks_of_updateWith lite allowHosts b node
  rcases hchecks with h | ⟨hpath, h⟩
  · rw [h]
    exact .refl
  · have hnodes := @nodes_updateStorage lite b node
    have hwires := @wires_updateStorage lite b node
    have hget : ∀ id, (b.updateStorage lite node).1.get id = b.get id :=
      fun id => by rw [get, get, hnodes]
    rw [h]
    cases (b.updateStorage lite node).2 with
    | error e => exact .kept hget (by rw [wireKeys, wireKeys, hwires])
    | ok _ =>
        refine .congr hnodes hwires ?_
        generalize (b.updateStorage lite node).1 = b₁ at *
        have hkeys : wireKeys (b₁.writeRow node).1 = wireKeys b₁ := by
          unfold writeRow
          split
          · rfl
          · split <;> rfl
        by_cases hw : (b₁.get node.id).isSome = true ∧ b₁.nameHeld node.id node.name = false
        · refine .written node ⟨rfl, (hget node.id) ▸ hw.1⟩
            ((checkEndpointPathUnique_congr hnodes).trans hpath) (fun id => ?_)
            (hkeys ▸ List.Sublist.refl _)
          rw [get_writeRow]
          simp only [hw, and_true]
        · refine .kept (fun id => ?_) (hkeys ▸ List.Sublist.refl _)
          rw [get_writeRow, if_neg fun hall => hw hall.2]

theorem effect_delete {P : Node → Prop} (id : Uuid) : Effect P b (b.delete id).1 := by
  have hnodes := nodes_dropStorage (b := b) id
  have hwires : (b.dropStorage id).1.wires = b.wires := by
    unfold dropStorage
    split <;> rfl
  unfold delete
  dsimp only
  cases (b.dropStorage id).2 with
  | error e => exact .congr hnodes hwires .refl
  | ok _ => exact .congr hnodes hwires (effect_deleteRow id)

/-! ## Wires -/

theorem insertWire_eq_some {w : WireRow} {b' : Board} (h : b.insertWire w = some b') :
    b' = b ∧ w.key ∈ wireKeys b ∨ b' = { b with wires := b.wires ++ [w] } ∧ w.key ∉ wireKeys b := by
  have hmem : (b.wires.any fun r => r.source = w.source && r.target = w.target &&
      r.wireType = w.wireType) = true ↔ w.key ∈ wireKeys b := by
    rw [List.any_eq_true, wireKeys, List.mem_map]
    simp [WireRow.key, and_assoc]
  unfold insertWire at h
  split at h
  · next hthere => exact .inl ⟨(Option.some_inj.1 h).symm, hmem.1 hthere⟩
  · next hnew =>
      split at h
      · cases h
      · exact .inr ⟨(Option.some_inj.1 h).symm, fun hkey => hnew (hmem.2 hkey)⟩

theorem effect_addWire {P : Node → Prop} (source target : Uuid) (ty : WireType)
    (grantedBy : Option Uuid) : Effect P b (b.addWire source target ty grantedBy).1 := by
  unfold addWire
  cases hs : b.get source with
  | none => exact .refl
  | some n =>
      cases ht : b.get target with
      | none => exact .refl
      | some m =>
          cases hcheck : checkWire source n.nodeType target m.nodeType ty with
          | error e =>
              simp only [hcheck]
              exact .refl
          | ok _ =>
              simp only [hcheck]
              split
              · exact .refl
              · cases hrow : b.insertWire ⟨source, target, ty, grantedBy⟩ with
                | none => exact .refl
                | some b' =>
                    rcases insertWire_eq_some hrow with ⟨rfl, -⟩ | ⟨rfl, hnew⟩
                    · exact .refl
                    · refine .wired (source, target, ty) (fun _ => rfl) ⟨n, m, hs, ht, hcheck⟩ hnew ?_
                      rw [wireKeys, List.map_append]
                      rfl

theorem effect_removeWire {P : Node → Prop} (source target : Uuid) (ty : WireType) :
    Effect P b (b.removeWire source target ty).1 :=
  .kept (fun _ => rfl) (List.filter_sublist.map _)

/-! ## Invariants -/

/-- Every stored wire joins nodes that may be joined, and is stored once. -/
structure Wired (b : Board) : Prop where
  joins : ∀ k ∈ wireKeys b, Joins b k
  nodup : (wireKeys b).Nodup

/-- The types of the nodes that an operation leaves there are as they were. -/
def KeepsTypes (b b' : Board) : Prop :=
  ∀ id n n', b.get id = some n → b'.get id = some n' → n'.nodeType = n.nodeType

theorem Joins.of_keepsTypes {b' : Board} {k : Uuid × Uuid × WireType} (h : Joins b k)
    (htypes : KeepsTypes b b') (hsource : (b'.get k.1).isSome = true)
    (htarget : (b'.get k.2.1).isSome = true) : Joins b' k := by
  obtain ⟨n, m, hn, hm, hcheck⟩ := h
  obtain ⟨n', hn'⟩ := Option.isSome_iff_exists.1 hsource
  obtain ⟨m', hm'⟩ := Option.isSome_iff_exists.1 htarget
  refine ⟨n', m', hn', hm', ?_⟩
  rw [htypes _ n n' hn hn', htypes _ m m' hm hm', hcheck]

/-- An operation that writes a node with the type it has keeps all types. -/
theorem keepsTypes_of_effect {P : Node → Prop} {b' : Board} (h : Effect P b b')
    (htype : ∀ node, P node → ∀ n, b.get node.id = some n → node.nodeType = n.nodeType) :
    KeepsTypes b b' := by
  intro id n n' hn hn'
  cases h with
  | kept hget =>
      rw [hget, hn] at hn'
      rw [Option.some_inj.1 hn']
  | written node hnode hpath hget =>
      rw [hget] at hn'
      split at hn'
      · next hid =>
          obtain rfl := Option.some_inj.1 hn'
          exact htype node hnode n (hid ▸ hn)
      · rw [hn] at hn'
        rw [Option.some_inj.1 hn']
  | deleted k hget =>
      rw [hget] at hn'
      split at hn'
      · cases hn'
      · rw [hn] at hn'
        rw [Option.some_inj.1 hn']
  | wired k hget =>
      rw [hget, hn] at hn'
      rw [Option.some_inj.1 hn']

theorem Wired.of_effect {P : Node → Prop} {b' : Board} (hb : Wired b) (h : Effect P b b')
    (htypes : KeepsTypes b b') : Wired b' := by
  have hends : ∀ {k}, Joins b k → (b.get k.1).isSome = true ∧ (b.get k.2.1).isSome = true := by
    rintro k ⟨n, m, hn, hm, -⟩
    exact ⟨hn ▸ rfl, hm ▸ rfl⟩
  cases h with
  | kept hget hkeys =>
      refine ⟨fun k hk => ?_, hb.nodup.sublist hkeys⟩
      have hj := hb.joins k (hkeys.subset hk)
      exact hj.of_keepsTypes htypes ((hget _).symm ▸ (hends hj).1) ((hget _).symm ▸ (hends hj).2)
  | written node hnode hpath hget hkeys =>
      refine ⟨fun k hk => ?_, hb.nodup.sublist hkeys⟩
      have hj := hb.joins k (hkeys.subset hk)
      have hsome : ∀ id, (b.get id).isSome = true → (b'.get id).isSome = true := by
        intro id hid
        rw [hget]
        split
        · rfl
        · exact hid
      exact hj.of_keepsTypes htypes (hsome _ (hends hj).1) (hsome _ (hends hj).2)
  | deleted id hget hkeys hne =>
      refine ⟨fun k hk => ?_, hb.nodup.sublist hkeys⟩
      have hj := hb.joins k (hkeys.subset hk)
      refine hj.of_keepsTypes htypes ?_ ?_
      · rw [hget, if_neg (hne k hk).1]
        exact (hends hj).1
      · rw [hget, if_neg (hne k hk).2]
        exact (hends hj).2
  | wired k hget hjoins hnew hkeys =>
      constructor
      · intro l hl
        have hj : Joins b l := by
          rw [hkeys, List.mem_append, List.mem_singleton] at hl
          rcases hl with hl | rfl
          · exact hb.joins l hl
          · exact hjoins
        exact hj.of_keepsTypes htypes ((hget _).symm ▸ (hends hj).1) ((hget _).symm ▸ (hends hj).2)
      · rw [hkeys]
        exact hb.nodup.append (List.nodup_singleton k) (by simpa using hnew)

/-- The node has its address for itself. -/
theorem of_checkEndpointPathUnique {cfg : EndpointConfig}
    (h : checkEndpointPathUnique b node = .ok ()) (hcfg : node.config = .endpoint cfg) {n : Node}
    {other : EndpointConfig} (hn : n ∈ b.nodes.rows) (hother : n.config = .endpoint other)
    (hmethod : other.method = cfg.method) (hpath : other.path = cfg.path) : n.id = node.id := by
  unfold checkEndpointPathUnique at h
  rw [hcfg] at h
  simp only [NodeConfig.asEndpoint] at h
  cases hfind : b.list.find? (conflicts node cfg) with
  | some conflict =>
      rw [hfind] at h
      cases h
  | none =>
      have hmem : n ∈ b.list := (List.mergeSort_perm _ _).mem_iff.2 hn
      have hno := List.find?_eq_none.1 hfind n hmem
      by_contra hid
      exact hno (by simp [conflicts, hid, hother, NodeConfig.asEndpoint, hmethod, hpath])

theorem uniqueAddresses_of_effect {P : Node → Prop} {b' : Board} (hb : UniqueAddresses b)
    (h : Effect P b b') : UniqueAddresses b' := by
  intro n n' cfg cfg' hn hn' hc hc' hmethod hpath
  have hg := get_id hn
  have hg' := get_id hn'
  have hold : ∀ {m}, b.get m.id = some m → m ∈ b.nodes.rows := fun hm => (get_eq_some_iff.1 hm).1
  cases h with
  | kept hget =>
      rw [hget] at hg hg'
      exact hb n n' cfg cfg' (hold hg) (hold hg') hc hc' hmethod hpath
  | deleted id hget =>
      rw [hget] at hg hg'
      split at hg
      · cases hg
      · split at hg'
        · cases hg'
        · exact hb n n' cfg cfg' (hold hg) (hold hg') hc hc' hmethod hpath
  | wired k hget =>
      rw [hget] at hg hg'
      exact hb n n' cfg cfg' (hold hg) (hold hg') hc hc' hmethod hpath
  | written node hnode hunique hget =>
      rw [hget] at hg hg'
      split at hg
      · next hid =>
          obtain rfl := Option.some_inj.1 hg
          split at hg'
          · exact Option.some_inj.1 hg'
          · next hid' =>
              exact absurd (of_checkEndpointPathUnique hunique hc (hold hg') hc' hmethod.symm
                hpath.symm) hid'
      · next hid =>
          split at hg'
          · obtain rfl := Option.some_inj.1 hg'
            exact absurd (of_checkEndpointPathUnique hunique hc' (hold hg) hc hmethod hpath) hid
          · exact hb n n' cfg cfg' (hold hg) (hold hg') hc hc' hmethod hpath

end Board

end Wheel
