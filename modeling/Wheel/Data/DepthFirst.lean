import Mathlib

/-!
# Depth-first search

A multigraph is a list of edges, each from a source to a target. `chain` looks for a
chain of edges from one node to another, with a stack of nodes to go on from, and
answers the edge the chain starts with. A node is pushed once at most, so the search
ends on every graph. It answers nothing exactly when there is no chain
(`chain_eq_none_iff`), and otherwise an edge that starts one (`starts_of_chain`).
-/

namespace DepthFirst

open Relation

variable {ν ε : Type} [DecidableEq ν] (src tgt : ε → ν) (edges : List ε)

/-- An edge leads from `u` to `v`. -/
def Step (u v : ν) : Prop := ∃ e ∈ edges, src e = u ∧ tgt e = v

/-- The edge leaves `start` and is the first of a chain to `goal`. -/
structure Starts (start goal : ν) (e : ε) : Prop where
  mem : e ∈ edges
  src_eq : src e = start
  chain : ReflTransGen (Step src tgt edges) (tgt e) goal

/-- Look at the edges of a node that the chain with the first edge `first` leads to: answer
when one leads to the goal, and push every other target that is seen for the first time. -/
def follow (goal : ν) (first : Option ε) :
    List ε → Finset ν → List (ν × Option ε) → ε ⊕ (Finset ν × List (ν × Option ε))
  | [], seen, stack => .inr (seen, stack)
  | e :: es, seen, stack =>
      if tgt e = goal then .inl (first.getD e)
      else if tgt e ∈ seen then follow goal first es seen stack
      else follow goal first es (insert (tgt e) seen) ((tgt e, first.or (some e)) :: stack)

variable {src tgt edges}

/-! ## Looking at the edges of one node -/

section Follow

variable {goal start u : ν} {first : Option ε} {es : List ε} {seen seen' : Finset ν}
  {stack stack' : List (ν × Option ε)}

/-- Every node that is pushed is one target less to be seen. -/
theorem card_follow (hes : ∀ e ∈ es, e ∈ edges)
    (h : follow tgt goal first es seen stack = .inr (seen', stack')) :
    ((edges.map tgt).toFinset \ seen').card + stack'.length =
      ((edges.map tgt).toFinset \ seen).card + stack.length := by
  induction es generalizing seen stack with
  | nil =>
      cases h
      rfl
  | cons e es ih =>
      have htail : ∀ x ∈ es, x ∈ edges := fun x hx => hes x (List.mem_cons_of_mem _ hx)
      unfold follow at h
      split at h
      · cases h
      · split at h
        · exact ih htail h
        · rename_i hnew
          rw [ih htail h]
          have hmem : tgt e ∈ (edges.map tgt).toFinset \ seen := by
            rw [Finset.mem_sdiff, List.mem_toFinset]
            exact ⟨List.mem_map_of_mem (hes e List.mem_cons_self), hnew⟩
          have hcard : ((edges.map tgt).toFinset \ insert (tgt e) seen).card + 1 =
              ((edges.map tgt).toFinset \ seen).card := by
            rw [Finset.sdiff_insert, Finset.card_erase_of_mem hmem]
            have := Finset.card_pos.mpr ⟨_, hmem⟩
            omega
          rw [List.length_cons]
          omega

end Follow

variable (src tgt edges)

/-- Go on from the top of the stack until it is empty or the goal is found. -/
def search (goal : ν) : Finset ν → List (ν × Option ε) → Option ε
  | _, [] => none
  | seen, (u, first) :: stack =>
      match h : follow tgt goal first (edges.filter fun e => src e = u) seen stack with
      | .inl e => some e
      | .inr (seen', stack') => search goal seen' stack'
termination_by seen stack => ((edges.map tgt).toFinset \ seen).card + stack.length
decreasing_by
  have hmem : ∀ e ∈ edges.filter fun e => src e = u, e ∈ edges :=
    fun e he => List.mem_of_mem_filter he
  have hcard := card_follow hmem h
  rw [List.length_cons]
  omega

/-- The first edge of a chain from `start` to `goal`. -/
def chain (start goal : ν) : Option ε := search src tgt edges goal {start} [(start, none)]

variable {src tgt edges}

/-! ## What is found is a chain -/

section Sound

variable {goal start u : ν} {first : Option ε} {es : List ε} {seen seen' : Finset ν}
  {stack stack' : List (ν × Option ε)}

variable (src tgt edges) in
/-- A chain from `start` leads to the node, and its first edge is remembered. -/
def Reached (start : ν) (x : ν × Option ε) : Prop :=
  match x.2 with
  | none => x.1 = start
  | some e => Starts src tgt edges start x.1 e

omit [DecidableEq ν] in
/-- A chain goes on over an edge. -/
theorem Reached.step {e : ε} (h : Reached src tgt edges start (src e, first))
    (he : e ∈ edges) : Starts src tgt edges start (tgt e) (first.getD e) := by
  cases first with
  | none => exact ⟨he, h, .refl⟩
  | some f => exact ⟨h.mem, h.src_eq, h.chain.tail ⟨e, he, rfl, rfl⟩⟩

omit [DecidableEq ν] in
theorem Reached.push {e : ε} (h : Reached src tgt edges start (src e, first))
    (he : e ∈ edges) : Reached src tgt edges start (tgt e, first.or (some e)) := by
  have hs := h.step he
  cases first with
  | none => exact hs
  | some f => exact hs

theorem starts_of_follow {e : ε} (hes : ∀ x ∈ es, x ∈ edges ∧ src x = u)
    (hu : Reached src tgt edges start (u, first))
    (h : follow tgt goal first es seen stack = .inl e) : Starts src tgt edges start goal e := by
  induction es generalizing seen stack with
  | nil => cases h
  | cons x es ih =>
      have htail : ∀ y ∈ es, y ∈ edges ∧ src y = u := fun y hy => hes y (List.mem_cons_of_mem _ hy)
      obtain ⟨hx, rfl⟩ := hes x List.mem_cons_self
      unfold follow at h
      split at h
      · rename_i hgoal
        cases h
        exact hgoal ▸ hu.step hx
      · split at h
        · exact ih htail h
        · exact ih htail h

theorem reached_of_follow (hes : ∀ x ∈ es, x ∈ edges ∧ src x = u)
    (hu : Reached src tgt edges start (u, first))
    (hstack : ∀ x ∈ stack, Reached src tgt edges start x)
    (h : follow tgt goal first es seen stack = .inr (seen', stack')) :
    ∀ x ∈ stack', Reached src tgt edges start x := by
  induction es generalizing seen stack with
  | nil =>
      cases h
      exact hstack
  | cons x es ih =>
      have htail : ∀ y ∈ es, y ∈ edges ∧ src y = u := fun y hy => hes y (List.mem_cons_of_mem _ hy)
      obtain ⟨hx, rfl⟩ := hes x List.mem_cons_self
      unfold follow at h
      split at h
      · cases h
      · split at h
        · exact ih htail hstack h
        · refine ih htail ?_ h
          intro y hy
          rcases List.mem_cons.mp hy with rfl | hy
          · exact hu.push hx
          · exact hstack y hy

theorem mem_outgoing {x : ε} (hx : x ∈ edges.filter fun e => src e = u) :
    x ∈ edges ∧ src x = u := by
  simpa using List.mem_filter.mp hx

theorem starts_of_search {e : ε} (hstack : ∀ x ∈ stack, Reached src tgt edges start x)
    (h : search src tgt edges goal seen stack = some e) : Starts src tgt edges start goal e := by
  induction seen, stack using search.induct src tgt edges goal with
  | case1 seen =>
      rw [search] at h
      cases h
  | case2 seen u first stack x hx =>
      rw [search] at h
      split at h
      · rename_i y hy
        cases h
        exact starts_of_follow (fun _ => mem_outgoing) (hstack _ List.mem_cons_self) hy
      · rename_i hy
        rw [hx] at hy
        cases hy
  | case3 seen u first stack seen' stack' hx ih =>
      rw [search] at h
      split at h
      · rename_i y hy
        rw [hx] at hy
        cases hy
      · rename_i seen'' stack'' hy
        rw [hx] at hy
        cases hy
        refine ih ?_ h
        exact reached_of_follow (fun _ => mem_outgoing) (hstack _ List.mem_cons_self)
          (fun y hy => hstack y (List.mem_cons_of_mem _ hy)) hx

/-- The edge that is answered starts a chain. -/
theorem starts_of_chain {e : ε} (h : chain src tgt edges start goal = some e) :
    Starts src tgt edges start goal e := by
  refine starts_of_search ?_ h
  intro x hx
  rw [List.mem_singleton.mp hx]
  rfl

omit [DecidableEq ν] in
theorem Starts.transGen {e : ε} (h : Starts src tgt edges start goal e) :
    TransGen (Step src tgt edges) start goal :=
  TransGen.head' ⟨e, h.mem, h.src_eq, rfl⟩ h.chain

end Sound

/-! ## Every chain is found -/

section Complete

variable {goal start u : ν} {first : Option ε} {es : List ε} {seen seen' : Finset ν}
  {stack stack' : List (ν × Option ε)}

variable (src tgt edges) in
/-- No edge leads from the node out of what was seen, or to the goal. -/
def Explored (goal : ν) (seen : Finset ν) (u : ν) : Prop :=
  ∀ e ∈ edges, src e = u → tgt e ∈ seen ∧ tgt e ≠ goal

/-- What was looked at is seen, and what is newly seen is on the stack. -/
theorem explored_of_follow (h : follow tgt goal first es seen stack = .inr (seen', stack')) :
    seen ⊆ seen' ∧ (∀ x ∈ stack, x ∈ stack') ∧ (∀ e ∈ es, tgt e ∈ seen' ∧ tgt e ≠ goal) ∧
      ∀ v ∈ seen', v ∈ seen ∨ ∃ f, (v, f) ∈ stack' := by
  induction es generalizing seen stack with
  | nil =>
      cases h
      exact ⟨Finset.Subset.refl _, fun _ => id, fun _ he => (List.not_mem_nil he).elim,
        fun _ => .inl⟩
  | cons e es ih =>
      unfold follow at h
      split at h
      · cases h
      · rename_i hgoal
        split at h
        · rename_i hseen
          obtain ⟨hsub, hstack, hes, hnew⟩ := ih h
          refine ⟨hsub, hstack, ?_, hnew⟩
          intro x hx
          rcases List.mem_cons.mp hx with rfl | hx
          · exact ⟨hsub hseen, hgoal⟩
          · exact hes x hx
        · obtain ⟨hsub, hstack, hes, hnew⟩ := ih h
          refine ⟨(Finset.subset_insert _ _).trans hsub,
            fun x hx => hstack x (List.mem_cons_of_mem _ hx), ?_, ?_⟩
          · intro x hx
            rcases List.mem_cons.mp hx with rfl | hx
            · exact ⟨hsub (Finset.mem_insert_self _ _), hgoal⟩
            · exact hes x hx
          · intro v hv
            rcases hnew v hv with hv | hv
            · rcases Finset.mem_insert.mp hv with rfl | hv
              · exact .inr ⟨_, hstack _ List.mem_cons_self⟩
              · exact .inl hv
            · exact .inr hv

/-- A search that finds nothing ends with a set that no edge leaves and that the goal is
not led to from. -/
theorem explored_of_search
    (hseen : ∀ v ∈ seen, (∃ f, (v, f) ∈ stack) ∨ Explored src tgt edges goal seen v)
    (h : search src tgt edges goal seen stack = none) :
    ∃ all : Finset ν, seen ⊆ all ∧ ∀ v ∈ all, Explored src tgt edges goal all v := by
  induction seen, stack using search.induct src tgt edges goal with
  | case1 seen =>
      refine ⟨seen, Finset.Subset.refl _, fun v hv => ?_⟩
      exact (hseen v hv).resolve_left fun hf => List.not_mem_nil hf.choose_spec
  | case2 seen u first stack x hx =>
      rw [search] at h
      split at h
      · cases h
      · rename_i hy
        rw [hx] at hy
        cases hy
  | case3 seen u first stack seen' stack' hx ih =>
      rw [search] at h
      split at h
      · cases h
      · rename_i seen'' stack'' hy
        rw [hx] at hy
        cases hy
        obtain ⟨hsub, hstack, hes, hnew⟩ := explored_of_follow hx
        have hseen' : ∀ v ∈ seen',
            (∃ f, (v, f) ∈ stack') ∨ Explored src tgt edges goal seen' v := by
          intro v hv
          rcases hnew v hv with hold | hpushed
          · rcases hseen v hold with ⟨f, hf⟩ | hexplored
            · rcases List.mem_cons.mp hf with hf | hf
              · cases hf
                right
                intro e he hsrc
                exact hes e (List.mem_filter.mpr ⟨he, by simpa using hsrc⟩)
              · exact .inl ⟨f, hstack _ hf⟩
            · exact .inr fun e he hsrc =>
                ⟨hsub (hexplored e he hsrc).1, (hexplored e he hsrc).2⟩
          · exact .inl hpushed
        obtain ⟨all, hall, hexplored⟩ := ih hseen' h
        exact ⟨all, hsub.trans hall, hexplored⟩

/-- Nothing is answered exactly when no chain leads to the goal. -/
theorem chain_eq_none_iff :
    chain src tgt edges start goal = none ↔ ¬ TransGen (Step src tgt edges) start goal := by
  constructor
  · intro h hchain
    have hstart : ∀ v ∈ ({start} : Finset ν), (∃ f : Option ε, (v, f) ∈ [(start, none)]) ∨
        Explored src tgt edges goal {start} v := by
      intro v hv
      rw [Finset.mem_singleton.mp hv]
      exact .inl ⟨none, List.mem_singleton_self _⟩
    obtain ⟨all, hall, hexplored⟩ := explored_of_search hstart h
    have hreach : ∀ v, TransGen (Step src tgt edges) start v → v ∈ all ∧ v ≠ goal := by
      intro v hv
      induction hv with
      | single he =>
          obtain ⟨e, he, hsrc, rfl⟩ := he
          exact hexplored start (hall (Finset.mem_singleton_self _)) e he hsrc
      | tail _ he ih =>
          obtain ⟨e, he, hsrc, rfl⟩ := he
          exact hexplored _ ih.1 e he hsrc
    exact (hreach goal hchain).2 rfl
  · intro hno
    cases h : chain src tgt edges start goal with
    | none => rfl
    | some e => exact absurd (starts_of_chain h).transGen hno

end Complete

/-! ## Graphs without cycles -/

section Acyclic

variable {x y u v : ν} {e : ε}

omit [DecidableEq ν]

variable (src tgt edges) in
def Acyclic : Prop := ∀ u, ¬ TransGen (Step src tgt edges) u u

/-- A chain over one more edge is an old chain, or goes over that edge. -/
theorem transGen_append (h : TransGen (Step src tgt (edges ++ [e])) u v) :
    TransGen (Step src tgt edges) u v ∨
      ReflTransGen (Step src tgt edges) u (src e) ∧
        ReflTransGen (Step src tgt edges) (tgt e) v := by
  have hstep : ∀ {a b}, Step src tgt (edges ++ [e]) a b →
      Step src tgt edges a b ∨ a = src e ∧ b = tgt e := by
    rintro a b ⟨f, hf, rfl, rfl⟩
    rcases List.mem_append.mp hf with hf | hf
    · exact .inl ⟨f, hf, rfl, rfl⟩
    · rw [List.mem_singleton.mp hf]
      exact .inr ⟨rfl, rfl⟩
  induction h with
  | single hab =>
      rcases hstep hab with hab | ⟨rfl, rfl⟩
      · exact .inl (.single hab)
      · exact .inr ⟨.refl, .refl⟩
  | tail _ hbc ih =>
      rcases hstep hbc with hbc | ⟨rfl, rfl⟩
      · exact ih.imp (fun h => h.tail hbc) fun h => ⟨h.1, h.2.tail hbc⟩
      · exact .inr ⟨ih.elim (fun h => h.to_reflTransGen) fun h => h.1, .refl⟩

/-- An edge that closes no cycle may be added. -/
theorem Acyclic.append (h : Acyclic src tgt edges) (hne : src e ≠ tgt e)
    (hno : ¬ TransGen (Step src tgt edges) (tgt e) (src e)) :
    Acyclic src tgt (edges ++ [e]) := by
  intro u hu
  rcases transGen_append hu with hu | ⟨hout, hin⟩
  · exact h u hu
  · rcases Relation.reflTransGen_iff_eq_or_transGen.mp (hin.trans hout) with heq | hchain
    · exact hne heq
    · exact hno hchain

/-- A graph with fewer steps has no more cycles. -/
theorem Acyclic.mono {edges' : List ε} (h : Acyclic src tgt edges)
    (hsub : ∀ u v, Step src tgt edges' u v → Step src tgt edges u v) :
    Acyclic src tgt edges' := fun u hu => h u (TransGen.mono hsub _ _ hu)

end Acyclic

end DepthFirst
