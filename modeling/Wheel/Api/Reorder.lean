import Wheel.Api.Consent
import Wheel.Data.UpToOrder

/-!
# A board in another order

Two boards are the same if one lists what the other lists, in any order, and spells the
ids of existing nodes in any of their textual forms. Whether a board is accepted, and its
plan up to order, is the same for both if every id on them is recognised: no nested wire
leads to an id that two nodes carry, and an id of an existing node is spelled as it is
displayed where the board relies on it. Otherwise a nested wire leads to the last node
that carries its id, and nowhere if its id is only another spelling.
-/

namespace Wheel

namespace Uuid

/-- The textual forms of an id, in lower case. -/
def forms (id : Uuid) : List (List Char) :=
  [id.display.toList, id.hexDigits 0 32, '\x7b' :: id.display.toList ++ ['\x7d'],
    "urn:uuid:".toList ++ id.display.toList]

/-- The text is a form of the id. -/
def Spells (t : String) (id : Uuid) : Prop := t.toList.map Char.toLower ∈ id.forms

instance (t : String) (id : Uuid) : Decidable (Spells t id) :=
  inferInstanceAs (Decidable (_ ∈ _))

theorem length_display (id : Uuid) : id.display.toList.length = 36 := by
  simp [display, length_hexDigits]

/-- A text is a form of one id at most. -/
theorem eq_of_spells {t : String} {id id' : Uuid} (h : Spells t id) (h' : Spells t id') :
    id = id' := by
  have hdisplay : id.display.toList = id'.display.toList → id = id' :=
    fun heq => display_injective (String.toList_injective heq)
  have hsimple : id.hexDigits 0 32 = id'.hexDigits 0 32 → id = id' := by
    intro heq
    apply eq_of_nibble_eq
    exact fun k hk => nibble_eq_of_hexDigits_eq heq (Nat.zero_le _) (by omega)
  have hurn : "urn:uuid:".toList.length = 9 := rfl
  have hlengths := And.intro (length_display id) (length_display id')
  have hdigits := And.intro (length_hexDigits id 0 32) (length_hexDigits id' 0 32)
  unfold Spells at h h'
  unfold forms at h h'
  generalize t.toList.map Char.toLower = x at h h'
  generalize "urn:uuid:".toList = urn at h h' hurn
  generalize id.display.toList = d at *
  generalize id'.display.toList = d' at *
  generalize id.hexDigits 0 32 = s at *
  generalize id'.hexDigits 0 32 = s' at *
  simp only [List.mem_cons, List.not_mem_nil, or_false] at h h'
  -- forms of different kinds differ in length
  have hkind : ∀ y, x = y → x.length = y.length := fun y hy => congrArg List.length hy
  rcases h with h | h | h | h <;> rcases h' with h' | h' | h' | h'
  case inl.inl => exact hdisplay (h.symm.trans h')
  case inr.inl.inr.inl => exact hsimple (h.symm.trans h')
  case inr.inr.inl.inr.inr.inl =>
    exact hdisplay (List.append_cancel_right (List.cons.inj (h.symm.trans h')).2)
  case inr.inr.inr.inr.inr.inr => exact hdisplay (List.append_cancel_left (h.symm.trans h'))
  all_goals
    have hl := hkind _ h
    rw [hkind _ h'] at hl
    simp [hlengths, hdigits, hurn] at hl

theorem spells_display (id : Uuid) : Spells id.display id := by
  have hdigit : ∀ n : Fin 16, (hexDigit n).toLower = hexDigit n := by decide
  have hdigits : ∀ i n, (id.hexDigits i n).map Char.toLower = id.hexDigits i n := by
    intro i n
    unfold hexDigits
    rw [List.map_map]
    refine List.map_congr_left fun k _ => ?_
    exact hdigit ⟨id.nibble (i + k), Nat.mod_lt _ (by decide)⟩
  have hhyphen : Char.toLower '-' = '-' := rfl
  have hlower : id.display.toList.map Char.toLower = id.display.toList := by
    simp only [display, String.toList_ofList, List.map_append, List.map_cons, hdigits, hhyphen]
  unfold Spells
  rw [hlower]
  exact List.mem_cons_self

end Uuid

namespace Api.Apply

/-! ## Boards up to order -/

/-- The text names an existing node. -/
def NamesExisting (existing : ExistingBoard) (t : String) (e : String × ExistingNode) : Prop :=
  e ∈ existing.nodes.rows ∧ Uuid.Spells t e.2.id

/-- Two texts are the same id: they are equal, or forms of the id of an existing node. -/
def SameId (existing : ExistingBoard) (t t' : String) : Prop :=
  t = t' ∨ ∃ e, NamesExisting existing t e ∧ NamesExisting existing t' e

structure SameNested (existing : ExistingBoard) (w w' : NestedWire) : Prop where
  target : SameId existing w.target w'.target
  wireType : w.wireType = w'.wireType

/-- The same node, its nested wires in any order. -/
structure SameNode (existing : ExistingBoard) (n n' : EmittedNode) : Prop where
  name : n.name = n'.name
  config : n.config = n'.config
  rawConfig : n.rawConfig = n'.rawConfig
  position : n.position = n'.position
  id : Option.Rel (SameId existing) n.id n'.id
  wires : UpToOrder (SameNested existing) n.wires n'.wires

/-- The same board, everything in it in any order. -/
structure SameBoard (existing : ExistingBoard) (b b' : EmittedBoard) : Prop where
  nodes : UpToOrder (SameNode existing) b.nodes b'.nodes
  wires : b.wires.Perm b'.wires
  removeNodes : b.remove.nodes.Perm b'.remove.nodes
  removeWires : b.remove.wires.Perm b'.remove.wires

/-- The same plan, everything in it in any order. -/
structure SamePlan (existing : ExistingBoard) (p p' : Plan) : Prop where
  createNodes : UpToOrder (SameNode existing) p.createNodes p'.createNodes
  patchNodes : p.patchNodes.Perm p'.patchNodes
  createWires : p.createWires.Perm p'.createWires
  deleteWires : p.deleteWires.Perm p'.deleteWires
  deleteNodes : p.deleteNodes.Perm p'.deleteNodes

/-- Both are refused, or both are accepted with the same plan. -/
def Agree (existing : ExistingBoard) :
    Except (List Refusal) Plan → Except (List Refusal) Plan → Prop
  | .ok p, .ok p' => SamePlan existing p p'
  | .error _, .error _ => True
  | _, _ => False

/-- The text, as an id, names the node: an emitted one that carries it, or an existing one
whose id it spells. -/
def Names (board : EmittedBoard) (existing : ExistingBoard) (t name : String) : Prop :=
  (∃ n ∈ board.nodes, n.id = some t ∧ n.name = name) ∨
    ∃ e, NamesExisting existing t e ∧ e.1 = name

/-- The ids on the board are recognised: two nodes that carry the id of a nested wire are
one, a node with the id of an existing node has its name or the id as it is displayed, and
a nested wire to an existing node has the id as it is displayed or as a node carries it. -/
structure Recognised (board : EmittedBoard) (existing : ExistingBoard) : Prop where
  unambiguous : ∀ n ∈ board.nodes, ∀ w ∈ n.wires, ∀ m ∈ board.nodes, ∀ m' ∈ board.nodes,
    m.id = some w.target → m'.id = some w.target → m.name = m'.name
  nodes : ∀ n ∈ board.nodes, ∀ t, n.id = some t → ∀ e, NamesExisting existing t e →
    t = e.2.id.display ∨ n.name = e.1
  wires : ∀ n ∈ board.nodes, ∀ w ∈ n.wires, ∀ e, NamesExisting existing w.target e →
    w.target = e.2.id.display ∨ ∃ m ∈ board.nodes, m.id = some w.target

variable {existing : ExistingBoard} {board board' : EmittedBoard}

theorem SameId.symm {t t' : String} (h : SameId existing t t') : SameId existing t' t := by
  rcases h with rfl | ⟨e, he, he'⟩
  · exact .inl rfl
  · exact .inr ⟨e, he', he⟩

theorem SameNode.refl (n : EmittedNode) : SameNode existing n n where
  name := rfl
  config := rfl
  rawConfig := rfl
  position := rfl
  id := by
    cases n.id with
    | none => exact .none
    | some t => exact .some (.inl rfl)
  wires := (UpToOrder.of_perm (.refl _)).mono fun w _ w' _ hw => hw ▸ ⟨.inl rfl, rfl⟩

theorem SameNode.symm {n n' : EmittedNode} (h : SameNode existing n n') :
    SameNode existing n' n where
  name := h.name.symm
  config := h.config.symm
  rawConfig := h.rawConfig.symm
  position := h.position.symm
  id := by
    have hid := h.id
    revert hid
    generalize n.id = a
    generalize n'.id = b
    intro hid
    cases hid with
    | none => exact .none
    | some hs => exact .some hs.symm
  wires := h.wires.symm.mono fun w _ w' _ hw => ⟨hw.target.symm, hw.wireType.symm⟩

theorem SameBoard.symm (h : SameBoard existing board board') :
    SameBoard existing board' board where
  nodes := h.nodes.symm.mono fun _ _ _ _ hn => SameNode.symm hn
  wires := h.wires.symm
  removeNodes := h.removeNodes.symm
  removeWires := h.removeWires.symm

theorem SameNode.id_eq_some {n n' : EmittedNode} (h : SameNode existing n n') {t : String}
    (hid : n.id = some t) : ∃ t', n'.id = some t' ∧ SameId existing t t' := by
  have hrel := h.id
  rw [hid] at hrel
  revert hrel
  generalize n'.id = b
  intro hrel
  cases hrel with
  | some hs => exact ⟨_, rfl, hs⟩

/-! ## Where an id leads to -/

theorem names_of_nameOf {t name : String} (h : existing.nameOf t = some name) :
    ∃ e, NamesExisting existing t e ∧ e.1 = name := by
  obtain ⟨e, he, rfl⟩ := Option.map_eq_some_iff.mp h
  have hid : e.2.id.display = t := by simpa using List.find?_some he
  exact ⟨e, ⟨List.mem_of_find?_eq_some he, hid ▸ Uuid.spells_display _⟩, rfl⟩

/-- A node that carries the id of an existing node has its name. -/
def Settled (board : EmittedBoard) (existing : ExistingBoard) : Prop :=
  ∀ n ∈ board.nodes, ∀ t, n.id = some t → ∀ e, NamesExisting existing t e → n.name = e.1

theorem nodeRefusals_eq_nil {n : EmittedNode} (h : illegal board existing = [])
    (hn : n ∈ board.nodes) : nodeRefusals existing n = [] := by
  simp only [illegal, List.append_eq_nil_iff, List.flatMap_eq_nil_iff] at h
  exact h.1.1.1.1.1.2 n hn

section Ids

variable (hids : (existing.nodes.rows.map fun e => e.2.id).Nodup)

include hids

theorem eq_of_namesExisting {t : String} {e e' : String × ExistingNode}
    (h : NamesExisting existing t e) (h' : NamesExisting existing t e') : e = e' :=
  List.inj_on_of_nodup_map hids h.1 h'.1 (Uuid.eq_of_spells h.2 h'.2)

theorem nameOf_display {e : String × ExistingNode} (he : e ∈ existing.nodes.rows) :
    existing.nameOf e.2.id.display = some e.1 := by
  cases hf : existing.nodes.rows.find? fun e' => e'.2.id.display = e.2.id.display with
  | none => exact absurd (decide_eq_true rfl) (List.find?_eq_none.mp hf e he)
  | some e' =>
      have hid : e'.2.id.display = e.2.id.display := by simpa using List.find?_some hf
      have heq := List.inj_on_of_nodup_map hids (List.mem_of_find?_eq_some hf) he
        (Uuid.display_injective hid)
      unfold ExistingBoard.nameOf
      rw [hf, heq]
      rfl

theorem settled_of_illegal (h : illegal board existing = []) (hr : Recognised board existing) :
    Settled board existing := by
  intro n hn t ht e he
  rcases hr.nodes n hn t ht e he with rfl | hname
  · have href := (List.append_eq_nil_iff.mp (nodeRefusals_eq_nil h hn)).2
    rw [ht] at href
    dsimp only at href
    rw [nameOf_display hids he.1] at href
    by_contra hne
    simp [Ne.symm hne] at href
  · exact hname

theorem Settled.of_same (h : Settled board existing) (hb : SameBoard existing board board') :
    Settled board' existing := by
  intro n' hn' t' ht' e he
  obtain ⟨n, hn, hs⟩ := hb.nodes.exists_left hn'
  obtain ⟨t, ht, hsame⟩ := hs.symm.id_eq_some ht'
  rw [← hs.name]
  rcases hsame with rfl | ⟨e', he', hnames⟩
  · exact h n hn _ ht e he
  · rw [eq_of_namesExisting hids he he']
    exact h n hn t ht e' hnames

/-- A nested wire to an existing node leads to its name. -/
theorem targetOf_existing (h : Settled board existing) (hr : Recognised board existing)
    {n : EmittedNode} (hn : n ∈ board.nodes) {w : NestedWire} (hw : w ∈ n.wires)
    {e : String × ExistingNode} (he : NamesExisting existing w.target e) :
    targetOf board existing w.target = some e.1 := by
  unfold targetOf byId
  cases hf : board.nodes.reverse.find? fun m => m.id = some w.target with
  | some m =>
      have hm := List.mem_reverse.mp (List.mem_of_find?_eq_some hf)
      have hid : m.id = some w.target := by simpa using List.find?_some hf
      rw [Option.map_some, h m hm _ hid e he]
      rfl
  | none =>
      rcases hr.wires n hn w hw e he with hdisplay | ⟨m, hm, hid⟩
      · rw [hdisplay, nameOf_display hids he.1]
        rfl
      · exact absurd (decide_eq_true hid)
          (List.find?_eq_none.mp hf m (List.mem_reverse.mpr hm))

/-- The same nested wire leads to the same node on both boards. -/
theorem targetOf_congr (h : Settled board existing) (hb : SameBoard existing board board')
    (hr : Recognised board existing) (hr' : Recognised board' existing) {n n' : EmittedNode}
    (hn : n ∈ board.nodes) (hn' : n' ∈ board'.nodes) {w w' : NestedWire} (hw : w ∈ n.wires)
    (hw' : w' ∈ n'.wires) (hs : SameNested existing w w') :
    targetOf board existing w.target = targetOf board' existing w'.target := by
  by_cases hnames : ∃ e, NamesExisting existing w.target e ∧ NamesExisting existing w'.target e
  · obtain ⟨e, he, he'⟩ := hnames
    rw [targetOf_existing hids h hr hn hw he,
      targetOf_existing hids (h.of_same hids hb) hr' hn' hw' he']
  · have htarget : w.target = w'.target := hs.target.resolve_right hnames
    rw [← htarget] at hnames ⊢
    have hsame : ∀ m m', SameNode existing m m' →
        (decide (m.id = some w.target) = decide (m'.id = some w.target)) := by
      intro m m' hm
      rw [decide_eq_decide]
      constructor
      · intro hid
        obtain ⟨t, ht, rfl | ⟨e, he, -⟩⟩ := hm.id_eq_some hid
        · exact ht
        · exact absurd ⟨e, he, he⟩ hnames
      · intro hid
        obtain ⟨t, ht, rfl | ⟨e, he, -⟩⟩ := hm.symm.id_eq_some hid
        · exact ht
        · exact absurd ⟨e, he, he⟩ hnames
    have hbyId : byId board w.target = byId board' w.target := by
      refine hb.nodes.find?_reverse hsame (fun m m' hm => hm.name) fun m hm m' hm' hp hp' => ?_
      exact hr.unambiguous n hn w hw m hm m' hm' (of_decide_eq_true hp) (of_decide_eq_true hp')
    unfold targetOf
    rw [hbyId]

end Ids

/-! ## The refusals -/

theorem duplicateNames_eq_nil_iff {seen : List String} {x : List EmittedNode} :
    duplicateNames seen x = [] ↔
      (x.map EmittedNode.name).Nodup ∧ ∀ n ∈ x, n.name ∉ seen := by
  induction x generalizing seen with
  | nil => simp [duplicateNames]
  | cons n x ih =>
      rw [duplicateNames, List.append_eq_nil_iff, ih, List.map_cons, List.nodup_cons,
        List.forall_mem_cons]
      have hfirst : (if n.name ∈ seen then [Refusal.duplicateNodeName n.name] else []) = [] ↔
          n.name ∉ seen := by
        split <;> simp [*]
      have hrest : (∀ m ∈ x, m.name ∉ n.name :: seen) ↔
          n.name ∉ x.map EmittedNode.name ∧ ∀ m ∈ x, m.name ∉ seen := by
        simp only [List.mem_cons, not_or, List.mem_map, not_exists, not_and]
        exact forall₂_and
      rw [hfirst, hrest]
      tauto

theorem nodup_of_illegal (h : illegal board existing = []) :
    (board.nodes.map EmittedNode.name).Nodup := by
  simp only [illegal, List.append_eq_nil_iff] at h
  exact (duplicateNames_eq_nil_iff.mp h.1.1.1.1.1.1).1

/-- A node that has the name, the configuration and a settled id of one that is not
refused is not refused. -/
theorem nodeRefusals_of_same {n n' : EmittedNode} (h : nodeRefusals existing n = [])
    (hs : SameNode existing n n')
    (hid : ∀ t, n'.id = some t → ∀ e, NamesExisting existing t e → n'.name = e.1) :
    nodeRefusals existing n' = [] := by
  unfold nodeRefusals nameCheck EmittedNode.nodeType at h ⊢
  rw [hs.name, hs.config] at h
  rw [List.append_eq_nil_iff] at h ⊢
  refine ⟨h.1, ?_⟩
  split
  · rename_i t ht
    split
    · rename_i name hname
      obtain ⟨e, he, rfl⟩ := names_of_nameOf hname
      rw [if_neg (not_not.mpr (hid t ht e he).symm)]
    · rfl
  · rfl

namespace SameBoard

section Order

variable (h : SameBoard existing board board')

include h

theorem names_perm : (board.nodes.map EmittedNode.name).Perm
    (board'.nodes.map EmittedNode.name) :=
  h.nodes.map fun _ _ hn => hn.name

theorem typeOf (hnames : (board.nodes.map EmittedNode.name).Nodup) (name : String) :
    typeOf board existing name = Apply.typeOf board' existing name := by
  unfold Apply.typeOf
  congr 1
  funext _
  refine h.nodes.find?_reverse (fun a b hs => ?_) (fun a b hs => ?_) fun m hm m' hm' hp hp' => ?_
  · rw [hs.name]
  · rw [EmittedNode.nodeType, EmittedNode.nodeType, hs.config]
  · have heq : m.name = m'.name :=
      (of_decide_eq_true hp).trans (of_decide_eq_true hp').symm
    rw [List.inj_on_of_nodup_map hnames hm hm' heq]

theorem removedNodes : (removedNodes board existing).Perm (removedNodes board' existing) :=
  h.removeNodes.filter _

theorem mem_removedNodes (name : String) :
    name ∈ Apply.removedNodes board existing ↔ name ∈ Apply.removedNodes board' existing :=
  h.removedNodes.mem_iff

theorem removalRefusals :
    Apply.removalRefusals board existing = Apply.removalRefusals board' existing := by
  funext name
  have hany : (board.nodes.any fun n => n.name = name) =
      board'.nodes.any fun n => n.name = name := by
    have hmem := h.names_perm.mem_iff (a := name)
    rw [Bool.eq_iff_iff]
    simpa [List.mem_map] using hmem
  unfold Apply.removalRefusals
  rw [hany]

theorem wireRefusals (hnames : (board.nodes.map EmittedNode.name).Nodup) :
    Apply.wireRefusals board existing = Apply.wireRefusals board' existing := by
  funext w
  unfold Apply.wireRefusals
  simp only [h.mem_removedNodes, h.typeOf hnames]

theorem patchNodes : (patchNodes board existing).Perm (patchNodes board' existing) := by
  refine h.nodes.filterMap fun n n' hn => ?_
  unfold patchOf
  rw [hn.name, hn.rawConfig]

theorem createNodes :
    UpToOrder (SameNode existing) (createNodes board existing) (createNodes board' existing) :=
  h.nodes.filter fun n n' hn => by rw [hn.name]

theorem deleteNodes : (deleteNodes board existing).Perm (deleteNodes board' existing) :=
  h.removedNodes.filterMap _

theorem deleteWires : (deleteWires board existing).Perm (deleteWires board' existing) := by
  have hcascaded : isCascaded board existing = isCascaded board' existing := by
    funext w
    unfold isCascaded
    simp only [h.mem_removedNodes]
  unfold Apply.deleteWires
  rw [hcascaded]
  exact h.removeWires.filter _

theorem unconsented_perm (policy : ApplyPolicy) :
    (unconsented board existing policy).Perm (unconsented board' existing policy) := by
  unfold unconsented
  refine (List.Perm.append ?_ ?_).append ?_
  · split
    · exact .refl _
    · exact h.patchNodes.map _
  · split
    · exact .refl _
    · exact h.deleteNodes.map _
  · split
    · exact .refl _
    · exact h.deleteWires.map _

theorem nodeCount : nodeCount board = nodeCount board' := by
  unfold Apply.nodeCount
  rw [h.nodes.length_eq, h.removeNodes.length_eq]

theorem wireCount : wireCount board = wireCount board' := by
  have hnested : (board.nodes.map fun n => n.wires.length).Perm
      (board'.nodes.map fun n => n.wires.length) :=
    h.nodes.map fun n n' hn => hn.wires.length_eq
  unfold Apply.wireCount
  rw [h.wires.length_eq, h.removeWires.length_eq, hnested.sum_eq]

end Order

section Legal

variable (h : SameBoard existing board board')
  (hids : (existing.nodes.rows.map fun e => e.2.id).Nodup) (hr : Recognised board existing)
  (hr' : Recognised board' existing) (hill : illegal board existing = [])

include h hids hr hr' hill

theorem flattenWires_fst :
    (flattenWires board existing).1.Perm (flattenWires board' existing).1 := by
  have hsettled := settled_of_illegal hids hill hr
  refine h.nodes.mem.flatMap fun n n' hn => ?_
  refine hn.2.2.wires.mem.filterMap fun w w' hw => ?_
  rw [targetOf_congr hids hsettled h hr hr' hn.1 hn.2.1 hw.1 hw.2.1 hw.2.2, hn.2.2.name,
    hw.2.2.wireType]

theorem flattenWires_snd : (flattenWires board' existing).2 = [] := by
  have hsettled := settled_of_illegal hids hill hr
  have hnone : (flattenWires board existing).2 = [] := by
    simp only [illegal, List.append_eq_nil_iff] at hill
    exact hill.1.1.1.2
  simp only [flattenWires, List.flatMap_eq_nil_iff, List.filterMap_eq_nil_iff] at hnone ⊢
  intro n' hn' w' hw'
  obtain ⟨n, hn, hs⟩ := h.nodes.exists_left hn'
  obtain ⟨w, hw, hsw⟩ := hs.wires.exists_left hw'
  have hone := hnone n hn w hw
  rw [targetOf_congr hids hsettled h hr hr' hn hn' hw hw' hsw] at hone
  split at hone
  · rfl
  · cases hone

theorem emittedWires : (emittedWires board existing).Perm (emittedWires board' existing) :=
  (h.flattenWires_fst hids hr hr' hill).append h.wires

theorem createWires : (createWires board existing).Perm (createWires board' existing) :=
  (h.emittedWires hids hr hr' hill).filter _

/-- A board is legal in every order. -/
theorem illegal_of_same : illegal board' existing = [] := by
  have hsettled := (settled_of_illegal hids hill hr).of_same hids h
  have hnames := nodup_of_illegal hill
  have hflat := h.flattenWires_snd hids hr hr' hill
  have hemitted := h.emittedWires hids hr hr' hill
  have hself := fun n (hn : n ∈ board.nodes) => nodeRefusals_eq_nil hill hn
  simp only [illegal, List.append_eq_nil_iff, List.flatMap_eq_nil_iff] at hill ⊢
  obtain ⟨⟨⟨⟨⟨⟨hdup, -⟩, htype⟩, -⟩, hremove⟩, hwire⟩, hunwire⟩ := hill
  refine ⟨⟨⟨⟨⟨⟨?_, ?_⟩, ?_⟩, hflat⟩, ?_⟩, ?_⟩, ?_⟩
  · exact duplicateNames_eq_nil_iff.mpr
      ⟨h.names_perm.nodup_iff.mp hnames, fun _ _ => List.not_mem_nil⟩
  · intro n' hn'
    obtain ⟨n, hn, hs⟩ := h.nodes.exists_left hn'
    exact nodeRefusals_of_same (hself n hn) hs (hsettled n' hn')
  · intro n' hn'
    obtain ⟨n, hn, hs⟩ := h.nodes.exists_left hn'
    have hone := htype n hn
    unfold typeRefusals EmittedNode.nodeType at hone ⊢
    rw [← hs.name, ← hs.config]
    exact hone
  · intro name hname
    rw [← h.removalRefusals]
    exact hremove name (h.removeNodes.mem_iff.mpr hname)
  · intro w hw
    rw [← h.wireRefusals hnames]
    exact hwire w (hemitted.mem_iff.mpr hw)
  · intro w hw
    exact hunwire w (h.removeWires.mem_iff.mpr hw)

theorem unwired_perm (policy : ApplyPolicy) :
    (unwired board existing policy).Perm (unwired board' existing policy) := by
  unfold unwired
  split
  · exact .refl _
  · exact (h.createWires hids hr hr' hill).filterMap _

end Legal

/-- Both boards are refused, or both have the same plan. -/
theorem agree (h : SameBoard existing board board')
    (hids : (existing.nodes.rows.map fun e => e.2.id).Nodup) (hr : Recognised board existing)
    (hr' : Recognised board' existing) (policy : ApplyPolicy) :
    Agree existing (validate board existing policy) (validate board' existing policy) := by
  have hillegal : illegal board existing = [] ↔ illegal board' existing = [] :=
    ⟨h.illegal_of_same hids hr hr', h.symm.illegal_of_same hids hr' hr⟩
  have hunconsented : unconsented board existing policy = [] ↔
      unconsented board' existing policy = [] := by
    rw [← List.perm_nil, ← List.perm_nil]
    exact ⟨(h.unconsented_perm policy).symm.trans, (h.unconsented_perm policy).trans⟩
  by_cases hill : illegal board existing = []
  · have hunwired : unwired board existing policy = [] ↔ unwired board' existing policy = [] := by
      have hp := h.unwired_perm hids hr hr' hill policy
      rw [← List.perm_nil, ← List.perm_nil]
      exact ⟨hp.symm.trans, hp.trans⟩
    unfold validate
    simp only [h.nodeCount, h.wireCount, hillegal, hunconsented, hunwired, ne_eq]
    split
    · exact trivial
    · split
      · exact trivial
      · split
        · exact trivial
        · split
          · exact trivial
          · exact ⟨h.createNodes, h.patchNodes, h.createWires hids hr hr' hill, h.deleteWires,
              h.deleteNodes⟩
  · have hill' := mt hillegal.mpr hill
    unfold validate
    simp only [h.nodeCount, h.wireCount, if_pos hill, if_pos hill', ne_eq]
    split
    · exact trivial
    · exact trivial

end SameBoard

def ctxNode (name : String) (id : Option String) : EmittedNode :=
  ⟨name, .ctx ⟨"m"⟩, .obj [], ⟨0, 0⟩, id, [], canon_empty⟩

/-- An agent that reads what an id names. -/
def reader (id : String) : EmittedNode :=
  ⟨"a", .agent ⟨.claude, none, "p", false, false, none, none, [], none⟩, .obj [], ⟨0, 0⟩, none,
    [⟨id, .read⟩], canon_empty⟩

def noBoard : ExistingBoard := ⟨Keyed.empty, []⟩

/-- Two nodes with the id that an agent reads. -/
def twins : EmittedBoard := { nodes := [ctxNode "x" (some "k"), ctxNode "y" (some "k"), reader "k"] }

def twinsSwapped : EmittedBoard :=
  { nodes := [ctxNode "y" (some "k"), ctxNode "x" (some "k"), reader "k"] }

/-- A board on which a node is that an agent is to read. -/
def oneCtx : ExistingBoard := ⟨⟨[("x", ⟨0xab#128, .ctx, .obj [], canon_empty⟩)], by simp⟩, []⟩

/-- An agent that is to read it, by its id in either spelling. -/
def readsLower : EmittedBoard := { nodes := [reader "00000000-0000-0000-0000-0000000000ab"] }

def readsUpper : EmittedBoard := { nodes := [reader "00000000-0000-0000-0000-0000000000AB"] }

end Api.Apply

end Wheel
