import Wheel.Db.BoardHistory

/-!
# The endpoint a request reaches

`matchEndpoint` looks through the nodes of the board, path first and then method.
Every stored endpoint has its method and path for itself, so each is reached at its
own address in whatever order the nodes are listed. Only the answer to a wrong method
depends on the order: it names one of the methods stored for the path, and two
endpoints may share a path.
-/

namespace Wheel

open Board

structure MatchedEndpoint where
  id : Uuid
  name : NodeName
  config : EndpointConfig
  deriving DecidableEq

inductive Matched where
  | endpoint (e : MatchedEndpoint)
  | wrongMethod (m : HttpMethod)
  | none
  deriving DecidableEq

/-- Find the endpoint node that serves a path, remembering another method of it. -/
def matchNodes (path : String) (method : HttpMethod) : Option HttpMethod → List Node → Matched
  | some m, [] => .wrongMethod m
  | none, [] => .none
  | wrong, n :: nodes =>
      match n.config.asEndpoint with
      | none => matchNodes path method wrong nodes
      | some cfg =>
          if cfg.path ≠ path then matchNodes path method wrong nodes
          else if cfg.method = method then .endpoint ⟨n.id, n.name, cfg⟩
          else matchNodes path method (some cfg.method) nodes

def matchEndpoint (b : Board) (path : String) (method : HttpMethod) : Matched :=
  matchNodes path method none b.list

/-- The endpoint node of an address, as a request finds it. -/
def answers (path : String) (method : HttpMethod) (n : Node) : Option MatchedEndpoint :=
  (n.config.asEndpoint.filter fun cfg => cfg.path = path && cfg.method = method).map
    fun cfg => ⟨n.id, n.name, cfg⟩

/-- The method of an endpoint node at a path. -/
def methodAt (path : String) (n : Node) : Option HttpMethod :=
  (n.config.asEndpoint.filter fun cfg => cfg.path = path).map (·.method)

/-- No two endpoints have the same method and path. -/
def UniqueAddresses (b : Board) : Prop :=
  ∀ n n' cfg cfg', n ∈ b.nodes.rows → n' ∈ b.nodes.rows → n.config = .endpoint cfg →
    n'.config = .endpoint cfg' → cfg.method = cfg'.method → cfg.path = cfg'.path → n = n'

/-! ## What is found -/

section Match

variable {path : String} {method : HttpMethod}

theorem matchNodes_cons (wrong : Option HttpMethod) (n : Node) (l : List Node) :
    matchNodes path method wrong (n :: l) =
      match n.config.asEndpoint with
      | none => matchNodes path method wrong l
      | some cfg =>
          if cfg.path ≠ path then matchNodes path method wrong l
          else if cfg.method = method then .endpoint ⟨n.id, n.name, cfg⟩
          else matchNodes path method (some cfg.method) l := by
  cases wrong <;> rfl

/-- The first endpoint at the address is found, and else the last method of the path is named. -/
theorem matchNodes_eq (wrong : Option HttpMethod) (l : List Node) :
    matchNodes path method wrong l =
      match l.findSome? (answers path method) with
      | some e => .endpoint e
      | none =>
          match (l.filterMap (methodAt path)).getLast?.or wrong with
          | some m => .wrongMethod m
          | none => .none := by
  induction l generalizing wrong with
  | nil => cases wrong <;> rfl
  | cons n l ih =>
      rw [matchNodes_cons]
      cases hc : n.config.asEndpoint with
      | none =>
          have ha : answers path method n = none := by rw [answers, hc]; rfl
          have hm : methodAt path n = none := by rw [methodAt, hc]; rfl
          rw [List.findSome?_cons, ha, List.filterMap_cons, hm]
          exact ih wrong
      | some cfg =>
          by_cases hpath : cfg.path = path
          · by_cases hmethod : cfg.method = method
            · have ha : answers path method n = some ⟨n.id, n.name, cfg⟩ := by
                simp [answers, hc, Option.filter, hpath, hmethod]
              rw [List.findSome?_cons, ha]
              simp [hpath, hmethod]
            · have ha : answers path method n = none := by
                simp [answers, hc, Option.filter, hmethod]
              have hm : methodAt path n = some cfg.method := by
                simp [methodAt, hc, Option.filter, hpath]
              rw [List.findSome?_cons, ha, List.filterMap_cons, hm, List.getLast?_cons]
              simp only [hpath, hmethod, ne_eq, not_true_eq_false, if_false]
              rw [ih]
              cases (l.filterMap (methodAt path)).getLast? <;> rfl
          · have ha : answers path method n = none := by
              simp [answers, hc, Option.filter, hpath]
            have hm : methodAt path n = none := by
              simp [methodAt, hc, Option.filter, hpath]
            rw [List.findSome?_cons, ha, List.filterMap_cons, hm]
            simp only [hpath, ne_eq, not_false_eq_true, if_true]
            exact ih wrong

theorem answers_eq_some_iff {n : Node} {e : MatchedEndpoint} :
    answers path method n = some e ↔ ∃ cfg, n.config = .endpoint cfg ∧ cfg.path = path ∧
      cfg.method = method ∧ e = ⟨n.id, n.name, cfg⟩ := by
  unfold answers
  rw [Option.map_eq_some_iff]
  constructor
  · rintro ⟨cfg, hcfg, rfl⟩
    obtain ⟨hsome, hat⟩ := Option.filter_eq_some_iff.1 hcfg
    rw [Bool.and_eq_true, decide_eq_true_eq, decide_eq_true_eq] at hat
    exact ⟨cfg, NodeConfig.asEndpoint_eq_some_iff.1 hsome, hat.1, hat.2, rfl⟩
  · rintro ⟨cfg, hcfg, hpath, hmethod, rfl⟩
    refine ⟨cfg, Option.filter_eq_some_iff.2 ⟨NodeConfig.asEndpoint_eq_some_iff.2 hcfg, ?_⟩, rfl⟩
    simp [hpath, hmethod]

theorem methodAt_eq_some_iff {n : Node} {m : HttpMethod} :
    methodAt path n = some m ↔
      ∃ cfg, n.config = .endpoint cfg ∧ cfg.path = path ∧ cfg.method = m := by
  unfold methodAt
  rw [Option.map_eq_some_iff]
  constructor
  · rintro ⟨cfg, hcfg, rfl⟩
    obtain ⟨hsome, hat⟩ := Option.filter_eq_some_iff.1 hcfg
    exact ⟨cfg, NodeConfig.asEndpoint_eq_some_iff.1 hsome, by simpa using hat, rfl⟩
  · rintro ⟨cfg, hcfg, hpath, rfl⟩
    refine ⟨cfg, Option.filter_eq_some_iff.2 ⟨NodeConfig.asEndpoint_eq_some_iff.2 hcfg, ?_⟩, rfl⟩
    simp [hpath]

/-- What a request reaches among nodes whose endpoints have their addresses for themselves, in
whatever order the nodes are listed. -/
theorem matchNodes_of_unique {l : List Node} {b : Board} (hb : UniqueAddresses b)
    (hl : l.Perm b.nodes.rows) :
    (∀ e, matchNodes path method none l = .endpoint e ↔
      ∃ n ∈ b.nodes.rows, answers path method n = some e) ∧
    (matchNodes path method none l = .none ↔ ∀ n ∈ b.nodes.rows, methodAt path n = none) ∧
    ∀ m, matchNodes path method none l = .wrongMethod m →
      ∃ n ∈ b.nodes.rows, methodAt path n = some m := by
  have hone : ∀ {n n' e e'}, n ∈ b.nodes.rows → n' ∈ b.nodes.rows →
      answers path method n = some e → answers path method n' = some e' → e = e' := by
    intro n n' e e' hn hn' he he'
    obtain ⟨cfg, hc, hp, hm, rfl⟩ := answers_eq_some_iff.1 he
    obtain ⟨cfg', hc', hp', hm', rfl⟩ := answers_eq_some_iff.1 he'
    obtain rfl := hb n n' cfg cfg' hn hn' hc hc' (hm.trans hm'.symm) (hp.trans hp'.symm)
    rw [hc] at hc'
    cases hc'
    rfl
  have hat : ∀ {n e}, answers path method n = some e → methodAt path n = some method := by
    intro n e he
    obtain ⟨cfg, hc, hp, hm, -⟩ := answers_eq_some_iff.1 he
    exact methodAt_eq_some_iff.2 ⟨cfg, hc, hp, hm⟩
  rw [matchNodes_eq, Option.or_none]
  cases hfind : l.findSome? (answers path method) with
  | some e =>
      obtain ⟨n, hn, he⟩ := List.exists_of_findSome?_eq_some hfind
      have hmem := hl.mem_iff.1 hn
      refine ⟨fun e' => ?_, ?_, fun m h => (nomatch h)⟩
      · constructor
        · intro h
          exact ⟨n, hmem, he.trans (congrArg some (Matched.endpoint.inj h))⟩
        · rintro ⟨n', hn', he'⟩
          rw [hone hmem hn' he he']
      · constructor
        · intro h
          cases h
        · intro h
          have hnone := hat he
          rw [h n hmem] at hnone
          cases hnone
  | none =>
      have hno : ∀ n ∈ b.nodes.rows, answers path method n = none :=
        fun n hn => List.findSome?_eq_none_iff.1 hfind n (hl.mem_iff.2 hn)
      have hnot : ∀ e, ¬∃ n ∈ b.nodes.rows, answers path method n = some e := by
        rintro e ⟨n, hn, he⟩
        rw [hno n hn] at he
        cases he
      cases hlast : (l.filterMap (methodAt path)).getLast? with
      | some m =>
          obtain ⟨n, hn, hm⟩ := List.mem_filterMap.1 (List.mem_of_getLast? hlast)
          have hmem := hl.mem_iff.1 hn
          refine ⟨fun e => ⟨fun h => (nomatch h), fun h => absurd h (hnot e)⟩,
            ⟨fun h => (nomatch h), fun h => ?_⟩, fun m' h => ?_⟩
          · rw [h n hmem] at hm
            cases hm
          · obtain rfl := Matched.wrongMethod.inj h
            exact ⟨n, hmem, hm⟩
      | none =>
          have hnil : l.filterMap (methodAt path) = [] := List.getLast?_eq_none_iff.1 hlast
          refine ⟨fun e => ⟨fun h => (nomatch h), fun h => absurd h (hnot e)⟩,
            ⟨fun _ n hn => ?_, fun _ => ?_⟩, fun m h => (nomatch h)⟩
          · exact List.filterMap_eq_nil_iff.1 hnil n (hl.mem_iff.2 hn)
          · rfl

end Match

end Wheel
