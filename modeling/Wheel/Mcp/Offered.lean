import Wheel.Mcp.Bridge

/-!
# What is offered and what is called

A tool that is offered should call itself: no other tool goes by its name, an operation
is forwarded as the node and the operation its name was built from, and every built-in
tool has a route of its own. For a board with distinct names and valid tools that
depends on the names of the wired tool nodes alone (`callsItself_iff`).
-/

namespace Wheel

namespace Mcp

/-- Every tool the caller is offered calls itself over the bridge. -/
structure CallsItself (updates : Bool) (b : Board) (me : Caller) : Prop where
  distinct : ((mcpTools updates b me).map toolName).Nodup
  operation : ∀ p ∈ me.reachable b, ∀ op ∈ listedOf p, ∀ args,
    routeFor (op.mcpName p.1.name.raw) args = some (operationRoute p.1.name.raw op.id args)
  builtin : ∀ t ∈ builtins (me.reachable b) ++ [updateTool], ∀ args, ∃ r,
    routeFor (toolName t) args = some r ∧ ∀ node op args', r ≠ operationRoute node op args'
  own : ∀ t ∈ builtins (me.reachable b) ++ [updateTool],
    ∀ t' ∈ builtins (me.reachable b) ++ [updateTool], toolName t ≠ toolName t' →
      ∃ args, routeFor (toolName t) args ≠ routeFor (toolName t') args

/-! ## The built-in tools -/

theorem routeFor_builtin {name : String} (h : name ∈ builtinNames ++ ["update"])
    (args : Json) : routeFor name args = builtinRoute name args := by
  have hnone : ∀ name ∈ builtinNames ++ ["update"],
      Text.splitFirst ['_', '_'] name.toList = none := by decide
  rw [routeFor, hnone name h]

theorem builtinRoute_isSome {name : String} (h : name ∈ builtinNames ++ ["update"])
    (args : Json) : (builtinRoute name args).isSome := by
  simp only [builtinNames, List.cons_append, List.nil_append, List.mem_cons,
    List.not_mem_nil, or_false] at h
  rcases h with rfl | rfl | rfl | rfl | rfl | rfl | rfl | rfl | rfl | rfl | rfl | rfl | rfl |
    rfl | rfl
  case inr.inr.inr.inr.inr.inr.inr.inr.inr.inr.inr.inr.inr.inr =>
    simp only [builtinRoute]
    split <;> rfl
  all_goals rfl

/-- With no arguments no two built-in tools are forwarded alike. -/
theorem builtinRoute_injOn :
    ((builtinNames ++ ["update"]).map fun name => builtinRoute name (.obj [])).Nodup := by
  decide +kernel

theorem toolName_mem {reachable : List (Node × WireType)} {t : Json}
    (ht : t ∈ builtins reachable ++ [updateTool]) :
    toolName t ∈ builtinNames ++ ["update"] := by
  have hmem := List.mem_map_of_mem (f := toolName) ht
  rwa [List.map_append, map_toolName_builtins] at hmem

/-! ## The operations -/

theorem mem_listedOf {p : Node × WireType} {op : ToolOperation} (h : op ∈ listedOf p) :
    (p.2 = .read ∨ p.2 = .write) ∧ ∃ cfg, p.1.config = .tool cfg ∧ op ∈ cfg.operations := by
  unfold listedOf at h
  split at h
  · rename_i hwire
    refine ⟨hwire, ?_⟩
    split at h
    · rename_i cfg hcfg
      exact ⟨cfg, hcfg, (List.mem_filter.mp h).1⟩
    · cases h
  · cases h

theorem listedOf_read_eq_write (n : Node) : listedOf (n, .read) = listedOf (n, .write) := rfl

/-- The ids of the operations listed for one node are distinct. -/
theorem ids_listedOf {p : Node × WireType} {allowHosts : List String}
    (hvalid : ∀ cfg, p.1.config = .tool cfg → validateTool cfg allowHosts = .ok ()) :
    ((listedOf p).map fun op => op.id).Nodup := by
  unfold listedOf
  split
  · split
    · rename_i cfg hcfg
      exact (ids_of_validateTool (hvalid cfg hcfg)).sublist (List.filter_sublist.map _)
    · exact List.nodup_nil
  · exact List.nodup_nil

theorem mcpName_injective {op op' : ToolOperation} {name : String}
    (h : op.mcpName name = op'.mcpName name) : op.id = op'.id := by
  have hlist := congrArg String.toList h
  rw [toList_mcpName, toList_mcpName] at hlist
  simpa [String.toList_inj] using hlist

/-- The names of operations of separable nodes tell the node and the operation. -/
theorem mcpName_inj {op op' : ToolOperation} {name name' : NodeName} (hn : Separable name)
    (hn' : Separable name') (h : op.mcpName name.raw = op'.mcpName name'.raw) :
    name = name' ∧ op.id = op'.id := by
  have hsplit : Text.splitFirst ['_', '_'] (op.mcpName name.raw).toList =
      some (name.raw.toList, op.id.toList) := splitFirst_mcpName_iff.mpr hn
  rw [h, splitFirst_mcpName_iff.mpr hn'] at hsplit
  obtain ⟨hname, hid⟩ := Prod.mk.inj (Option.some.inj hsplit)
  exact ⟨NodeName.ext_raw (String.toList_inj.mp hname.symm), String.toList_inj.mp hid.symm⟩

variable {b : Board} {me : Caller}

/-- What the board checks before it stores a tool. -/
def ValidTools (b : Board) (allowHosts : List String) : Prop :=
  ∀ n ∈ b.nodes.rows, ∀ cfg, n.config = .tool cfg → validateTool cfg allowHosts = .ok ()

theorem mem_reachable {p : Node × WireType} (h : p ∈ me.reachable b) : p.1 ∈ b.nodes.rows := by
  obtain ⟨w, -, hw⟩ := List.mem_filterMap.mp h
  obtain ⟨n, hget, rfl⟩ := Option.map_eq_some_iff.mp hw
  exact (Keyed.get?_eq_some_iff.mp hget).1

theorem nodup_reachable (hwires : me.wires.Nodup) : (me.reachable b).Nodup := by
  refine hwires.filterMap fun v w p hv hw => ?_
  obtain ⟨n, hn, hpn⟩ := Option.map_eq_some_iff.mp hv
  obtain ⟨m, hm, hpm⟩ := Option.map_eq_some_iff.mp hw
  obtain ⟨hnm, htype⟩ := Prod.mk.inj (hpn.trans hpm.symm)
  have htarget : v.target = w.target := by
    rw [← (Keyed.get?_eq_some_iff.mp hn).2, ← (Keyed.get?_eq_some_iff.mp hm).2, hnm]
  cases v
  cases w
  simp_all

/-- The names of the operations listed over all reachable nodes are distinct, when the
nodes are separable and none is reached twice. -/
theorem nodup_operationNames {allowHosts : List String}
    (hname : ∀ n ∈ b.nodes.rows, ∀ m ∈ b.nodes.rows, n.name = m.name → n = m)
    (hwires : me.wires.Nodup)
    (hvalid : ValidTools b allowHosts)
    (hsep : ∀ p ∈ me.reachable b, listedOf p ≠ [] → Separable p.1.name)
    (honce : ∀ n, (n, .read) ∈ me.reachable b → (n, .write) ∈ me.reachable b →
      listedOf (n, .read) = []) :
    ((me.reachable b).flatMap operationNames).Nodup := by
  rw [List.nodup_flatMap]
  constructor
  · intro p hp
    have hids := ids_listedOf (hvalid p.1 (mem_reachable hp))
    rw [operationNames, List.nodup_map_iff_inj_on (hids.of_map _)]
    intro op hop op' hop' heq
    exact List.inj_on_of_nodup_map hids hop hop' (mcpName_injective heq)
  · refine (nodup_reachable hwires).imp_of_mem fun {p q} hp hq hne => ?_
    intro name hnp hnq
    obtain ⟨op, hop, rfl⟩ := List.mem_map.mp hnp
    obtain ⟨op', hop', heq⟩ := List.mem_map.mp hnq
    obtain ⟨hnames, -⟩ := mcpName_inj (hsep q hq (List.ne_nil_of_mem hop'))
      (hsep p hp (List.ne_nil_of_mem hop)) heq
    -- the two are one node, so they are reached over wires of different types
    have hnode := hname q.1 (mem_reachable hq) p.1 (mem_reachable hp) hnames
    obtain ⟨n, w⟩ := p
    obtain ⟨m, v⟩ := q
    obtain rfl : m = n := hnode
    obtain ⟨hw, -⟩ := mem_listedOf hop
    obtain ⟨hv, -⟩ := mem_listedOf hop'
    rcases hw with rfl | rfl <;> rcases hv with rfl | rfl
    · exact hne rfl
    · exact List.ne_nil_of_mem hop (honce m hp hq)
    · exact List.ne_nil_of_mem hop' (honce m hq hp)
    · exact hne rfl

/-- The built-in names hold no `__`, so no operation of a separable node takes one. -/
theorem nodup_mcpTools {updates : Bool}
    (hsep : ∀ p ∈ me.reachable b, listedOf p ≠ [] → Separable p.1.name)
    (hops : ((me.reachable b).flatMap operationNames).Nodup) :
    ((mcpTools updates b me).map toolName).Nodup := by
  have hbuiltin : ∀ name ∈ builtinNames ++ ["update"],
      name ∉ (me.reachable b).flatMap operationNames := by
    intro name hmem hop
    obtain ⟨p, hp, hop⟩ := List.mem_flatMap.mp hop
    obtain ⟨op, hlisted, rfl⟩ := List.mem_map.mp hop
    have hroute : routeFor (op.mcpName p.1.name.raw) .null = _ :=
      routeFor_mcpName_iff.mpr (hsep p hp (List.ne_nil_of_mem hlisted)) .null
    rw [routeFor_builtin hmem] at hroute
    exact builtinRoute_ne_operationRoute _ _ _ _ _ hroute
  have hnames : (builtinNames ++ ["update"]).Nodup := by decide
  rw [map_toolName_mcpTools, List.append_assoc]
  refine hnames.of_append_left.append ?_ ?_
  · refine hops.append (by cases updates <;> simp) fun name hop hupdate => ?_
    cases updates with
    | false => cases hupdate
    | true => exact hbuiltin name (List.mem_append_right _ hupdate) hop
  · intro name hmem hrest
    rcases List.mem_append.mp hrest with hop | hupdate
    · exact hbuiltin name (List.mem_append_left _ hmem) hop
    · cases updates with
      | false => cases hupdate
      | true => exact List.disjoint_of_nodup_append hnames hmem hupdate

/-- On a board with distinct names and valid tools every offered tool calls itself, if
and only if the name of every wired node with an operation neither has two underscores
in a row nor ends in one, and none of these nodes is wired both ways. -/
theorem callsItself_iff {updates : Bool} {allowHosts : List String}
    (hname : ∀ n ∈ b.nodes.rows, ∀ m ∈ b.nodes.rows, n.name = m.name → n = m)
    (hwires : me.wires.Nodup)
    (hvalid : ValidTools b allowHosts) :
    CallsItself updates b me ↔
      (∀ p ∈ me.reachable b, listedOf p ≠ [] → Separable p.1.name) ∧
        ∀ n, (n, .read) ∈ me.reachable b → (n, .write) ∈ me.reachable b →
          listedOf (n, .read) = [] := by
  constructor
  · intro h
    constructor
    · intro p hp hne
      obtain ⟨op, hop⟩ := List.exists_mem_of_ne_nil _ hne
      exact routeFor_mcpName_iff.mp (h.operation p hp op hop)
    · intro n hread hwrite
      by_contra hne
      obtain ⟨op, hop⟩ := List.exists_mem_of_ne_nil _ hne
      have hnodup := h.distinct
      rw [map_toolName_mcpTools] at hnodup
      have hpair := (List.nodup_flatMap.mp hnodup.of_append_left.of_append_right).2
      have hsymm : Std.Symm (Function.onFun List.Disjoint operationNames) :=
        ⟨fun _ _ hd => hd.symm⟩
      exact hpair.forall hread hwrite (by simp) (List.mem_map_of_mem hop)
        (List.mem_map_of_mem hop)
  · rintro ⟨hsep, honce⟩
    refine ⟨?_, fun p hp op hop => ?_, fun t ht args => ?_, fun t ht t' ht' hne => ?_⟩
    · exact nodup_mcpTools hsep (nodup_operationNames hname hwires hvalid hsep honce)
    · exact routeFor_mcpName_iff.mpr (hsep p hp (List.ne_nil_of_mem hop))
    · rw [routeFor_builtin (toolName_mem ht)]
      obtain ⟨r, hr⟩ := Option.isSome_iff_exists.mp (builtinRoute_isSome (toolName_mem ht) args)
      refine ⟨r, hr, fun node op args' heq => ?_⟩
      exact builtinRoute_ne_operationRoute _ args node op args' (heq ▸ hr)
    · refine ⟨.obj [], fun heq => hne ?_⟩
      rw [routeFor_builtin (toolName_mem ht), routeFor_builtin (toolName_mem ht')] at heq
      exact List.inj_on_of_nodup_map builtinRoute_injOn (toolName_mem ht) (toolName_mem ht') heq

/-! ## Two tools of one name -/

/-- A tool node with one operation. -/
def toolNode (id : Uuid) (name : NodeName) (opId : String) : Node where
  id := id
  name := name
  position := ⟨0, 0⟩
  config := .tool {
    kind := .http
    source := ⟨.manual, "", 0⟩
    baseUrl := "https://api.example.com"
    operations := [⟨opId, .get, "/", none, true, []⟩] }

/-- A board of two tool nodes. -/
def twoTools (n m : Node) (h : ([n, m].map Node.id).Nodup) : Board :=
  { Board.empty with nodes := ⟨[n, m], h⟩ }

/-- An agent wired to both. -/
def wiredToBoth : Caller where
  node := ⟨0, ⟨"agent", rfl⟩, ⟨0, 0⟩, .agent ⟨.claude, none, "", false, false, none, none, [], none⟩⟩
  wires := [⟨1, .read⟩, ⟨2, .read⟩]

theorem validTools_pair {id id' : Uuid} {name name' : NodeName} {op op' : String} (h)
    (hop : validateTool ⟨.http, ⟨.manual, "", 0⟩, "https://api.example.com",
      [⟨op, .get, "/", none, true, []⟩]⟩ [] = .ok ())
    (hop' : validateTool ⟨.http, ⟨.manual, "", 0⟩, "https://api.example.com",
      [⟨op', .get, "/", none, true, []⟩]⟩ [] = .ok ()) :
    ValidTools (twoTools (toolNode id name op) (toolNode id' name' op') h) [] := by
  intro n hn cfg hcfg
  rcases List.mem_pair.mp hn with rfl | rfl
  · cases hcfg
    exact hop
  · cases hcfg
    exact hop'

theorem callsItself_jira :
    CallsItself true (twoTools (toolNode 1 ⟨"jira", rfl⟩ "get_issue")
      (toolNode 2 ⟨"git_hub", rfl⟩ "_list") (by decide)) wiredToBoth := by
  refine (callsItself_iff ?_ (by decide)
    (validTools_pair _ (by decide +kernel) (by decide +kernel))).mpr ⟨?_, ?_⟩
  · intro n hn m hm h
    rcases List.mem_pair.mp hn with rfl | rfl <;> rcases List.mem_pair.mp hm with rfl | rfl
    · rfl
    · exact absurd (congrArg NodeName.raw h) (by decide)
    · exact absurd (congrArg NodeName.raw h) (by decide)
    · rfl
  · intro p hp _
    have hp' : p ∈ [(toolNode 1 ⟨"jira", rfl⟩ "get_issue", WireType.read),
      (toolNode 2 ⟨"git_hub", rfl⟩ "_list", WireType.read)] := hp
    rcases List.mem_pair.mp hp' with rfl | rfl <;> decide
  · intro n _ hwrite
    have hp' : (n, WireType.write) ∈ [(toolNode 1 ⟨"jira", rfl⟩ "get_issue", WireType.read),
      (toolNode 2 ⟨"git_hub", rfl⟩ "_list", WireType.read)] := hwrite
    simp at hp'

/-- The operation `c` of the node `a__b` and the operation `b__c` of the node `a` are
offered under one name, and calling it always calls the second. -/
theorem calls_other_node :
    let b := twoTools (toolNode 1 ⟨"a", rfl⟩ "b__c") (toolNode 2 ⟨"a__b", rfl⟩ "c") (by decide)
    ValidTools b [] ∧ ¬ CallsItself false b wiredToBoth ∧
      (toolNodeOperations (wiredToBoth.reachable b)).map toolName = ["a__b__c", "a__b__c"] ∧
        ∀ args, routeFor "a__b__c" args = some (operationRoute "a" "b__c" args) := by
  intro b
  have hnames : (toolNodeOperations (wiredToBoth.reachable b)).map toolName =
      ["a__b__c", "a__b__c"] := by decide +kernel
  refine ⟨validTools_pair _ (by decide +kernel) (by decide +kernel), fun h => ?_, hnames,
    fun args => rfl⟩
  have hdistinct := h.distinct
  rw [mcpTools, toolsFor, List.map_append, List.map_append, hnames] at hdistinct
  exact absurd hdistinct.of_append_left.of_append_right (by decide)

end Mcp

end Wheel
