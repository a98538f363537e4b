import Wheel.Core.Validate
import Wheel.Data.UpToOrder

/-!
# Importing a specification again

`mergeOperations` folds a freshly imported list of operations into the operations a node
already has. Operations are matched by their method and path and parameters by their place and
name, the first match counting, and what is matched keeps its id, its switch and its fills.
`reimportKeeps_iff` says when nothing that an operator took from the agent is handed back
without a word.
-/

namespace Wheel

namespace Api.ToolRoutes

/-- A path without the slashes it ends in, in lower case. -/
def normalise (path : String) : List Char :=
  let p := (path.toList.rdropWhile (· = '/')).map Char.toLower
  if p = [] then ['/'] else p

/-- Two operations are the same one if they address the same thing. -/
def sameOperation (a b : ToolOperation) : Bool :=
  a.method = b.method && normalise a.path = normalise b.path

/-- Two params are the same field if they are in the same place with the same name. -/
def sameParam (a b : ToolParam) : Bool :=
  a.location = b.location && a.name.toList.map Char.toLower = b.name.toList.map Char.toLower

/-- A fill an operator deliberately took away from the agent. -/
structure Unpinned where
  op : String
  param : String
  was : String
  deriving DecidableEq

structure Merged where
  operations : List ToolOperation
  added : List String
  removed : List String
  unpinned : List Unpinned

def isPinned (f : Fill) : Bool := f.mode = .vault || f.mode = .static

def fillModeName (f : Fill) : String :=
  match f.mode with
  | .vault => "vault"
  | .static => "static"
  | .hidden => "hidden"
  | .agent => "agent"

def unpin (old : ToolOperation) (prev : ToolParam) : Unpinned :=
  ⟨old.id, prev.name, fillModeName prev.fill⟩

/-- A parameter with the fill it had. -/
def keepFill (old : ToolOperation) (p : ToolParam) : ToolParam :=
  match old.params.find? (sameParam · p) with
  | some prev => { p with fill := prev.fill }
  | none => p

/-- Identity and configuration survive; shape follows the spec. -/
def carry (old op : ToolOperation) : ToolOperation :=
  { op with id := old.id, enabled := old.enabled, params := op.params.map (keepFill old) }

/-- Fold in one operation of the fresh list. -/
def mergeStep (existing : List ToolOperation) (m : Merged) (op : ToolOperation) : Merged :=
  match existing.find? (sameOperation · op) with
  | some old =>
      let op := carry old op
      { m with
        operations := m.operations ++ [op]
        unpinned := m.unpinned ++
          ((old.params.filter fun q => isPinned q.fill).filter fun prev =>
            !op.params.any (sameParam prev ·)).map (unpin old) }
  | none => { m with operations := m.operations ++ [op], added := m.added ++ [op.id] }

/-- Report an operation that is gone, and its pins with it. -/
def removeStep (m : Merged) (old : ToolOperation) : Merged :=
  if m.operations.any (sameOperation old ·) then m
  else
    { m with
      removed := m.removed ++ [old.id]
      unpinned := m.unpinned ++ (old.params.filter fun q => isPinned q.fill).map (unpin old) }

/-- Fold a freshly parsed spec into the operations a node already has. -/
def mergeOperations (existing fresh : List ToolOperation) : Merged :=
  existing.foldl removeStep (fresh.foldl (mergeStep existing) ⟨[], [], [], []⟩)

/-! ## What is matched -/

/-- What operations are matched by. -/
def address (op : ToolOperation) : ToolMethod × List Char := (op.method, normalise op.path)

/-- What parameters are matched by. -/
def place (p : ToolParam) : ParamLocation × List Char :=
  (p.location, p.name.toList.map Char.toLower)

theorem sameOperation_iff {a b : ToolOperation} :
    sameOperation a b = true ↔ address a = address b := by
  simp [sameOperation, address]

theorem sameParam_iff {a b : ToolParam} : sameParam a b = true ↔ place a = place b := by
  simp [sameParam, place]

@[simp] theorem place_keepFill (old : ToolOperation) (p : ToolParam) :
    place (keepFill old p) = place p := by
  rw [keepFill]
  split <;> rfl

@[simp] theorem address_carry (old op : ToolOperation) : address (carry old op) = address op := rfl

/-- The existing operation that a fresh one is matched with. -/
def former (existing : List ToolOperation) (op : ToolOperation) : Option ToolOperation :=
  existing.find? (sameOperation · op)

theorem former_congr {existing : List ToolOperation} {a b : ToolOperation}
    (h : address a = address b) : former existing a = former existing b := by
  have hsame : (sameOperation · a) = (sameOperation · b) := by
    funext o
    rw [Bool.eq_iff_iff, sameOperation_iff, sameOperation_iff, h]
  rw [former, former, hsame]

theorem mem_of_former {existing : List ToolOperation} {op old : ToolOperation}
    (h : former existing op = some old) : old ∈ existing ∧ address old = address op :=
  ⟨List.mem_of_find?_eq_some h, sameOperation_iff.1 (List.find?_some (p := (sameOperation · op)) h)⟩

theorem former_eq_none_iff {existing : List ToolOperation} {op : ToolOperation} :
    former existing op = none ↔ ∀ old ∈ existing, address old ≠ address op := by
  rw [former, List.find?_eq_none]
  exact forall₂_congr fun old _ => not_congr sameOperation_iff

/-- The parameter of an operation that a parameter gets its fill from. -/
def formerParam (old : ToolOperation) (p : ToolParam) : Option ToolParam :=
  old.params.find? (sameParam · p)

theorem formerParam_congr {old : ToolOperation} {p q : ToolParam} (h : place p = place q) :
    formerParam old p = formerParam old q := by
  have hsame : (sameParam · p) = (sameParam · q) := by
    funext o
    rw [Bool.eq_iff_iff, sameParam_iff, sameParam_iff, h]
  rw [formerParam, formerParam, hsame]

theorem mem_of_formerParam {old : ToolOperation} {p q : ToolParam}
    (h : formerParam old p = some q) : q ∈ old.params ∧ place q = place p :=
  ⟨List.mem_of_find?_eq_some h, sameParam_iff.1 (List.find?_some (p := (sameParam · p)) h)⟩

theorem exists_formerParam {old : ToolOperation} {p q : ToolParam} (hq : q ∈ old.params)
    (h : place q = place p) : ∃ r, formerParam old p = some r := by
  rw [← Option.isSome_iff_exists, formerParam, List.find?_isSome]
  exact ⟨q, hq, sameParam_iff.2 h⟩

/-! ## The merge in one piece -/

/-- What becomes of a fresh operation. -/
def merged (existing : List ToolOperation) (op : ToolOperation) : ToolOperation :=
  match former existing op with
  | some old => carry old op
  | none => op

@[simp] theorem address_merged (existing : List ToolOperation) (op : ToolOperation) :
    address (merged existing op) = address op := by
  rw [merged]
  split <;> rfl

theorem operations_foldl_mergeStep (existing fresh : List ToolOperation) (m : Merged) :
    (fresh.foldl (mergeStep existing) m).operations =
      m.operations ++ fresh.map (merged existing) := by
  induction fresh generalizing m with
  | nil => simp
  | cons op fresh ih =>
      rw [List.foldl_cons, ih, List.map_cons, mergeStep, merged, former]
      split <;> simp

theorem operations_foldl_removeStep (olds : List ToolOperation) (m : Merged) :
    (olds.foldl removeStep m).operations = m.operations := by
  induction olds generalizing m with
  | nil => rfl
  | cons old olds ih =>
      rw [List.foldl_cons, ih, removeStep]
      split <;> rfl

theorem operations_mergeOperations (existing fresh : List ToolOperation) :
    (mergeOperations existing fresh).operations = fresh.map (merged existing) := by
  rw [mergeOperations, operations_foldl_removeStep, operations_foldl_mergeStep, List.nil_append]

/-- The pins of an operation that a fresh one has no field for. -/
def Dropped (old op : ToolOperation) : Prop :=
  ∃ q ∈ old.params, isPinned q.fill = true ∧ ∀ p ∈ op.params, place q ≠ place p

theorem unpinned_mergeStep (existing : List ToolOperation) (m : Merged) (op : ToolOperation) :
    (mergeStep existing m op).unpinned = [] ↔
      m.unpinned = [] ∧ ∀ old, former existing op = some old → ¬ Dropped old op := by
  have hkept : ∀ old q, (carry old op).params.any (sameParam q ·) = true ↔
      ∃ p ∈ op.params, place q = place p := by
    intro old q
    rw [List.any_eq_true]
    constructor
    · rintro ⟨p, hp, hsame⟩
      rcases List.mem_map.1 hp with ⟨p', hp', rfl⟩
      exact ⟨p', hp', (sameParam_iff.1 hsame).trans (place_keepFill _ _)⟩
    · rintro ⟨p, hp, hplace⟩
      exact ⟨keepFill old p, List.mem_map_of_mem hp,
        sameParam_iff.2 (hplace.trans (place_keepFill _ _).symm)⟩
  rw [mergeStep, ← former]
  cases hformer : former existing op with
  | none => simp
  | some old =>
      dsimp only
      rw [List.append_eq_nil_iff, List.map_eq_nil_iff, List.filter_filter, List.filter_eq_nil_iff]
      refine and_congr_right fun _ => ?_
      constructor
      · rintro h _ ⟨⟩ ⟨q, hq, hpin, hdrop⟩
        refine h q hq ?_
        rw [Bool.and_eq_true, Bool.not_eq_true', hpin, ← Bool.not_eq_true, hkept]
        exact ⟨fun ⟨p, hp, hplace⟩ => hdrop p hp hplace, rfl⟩
      · intro h q hq hbad
        rw [Bool.and_eq_true, Bool.not_eq_true', ← Bool.not_eq_true, hkept] at hbad
        exact h old rfl ⟨q, hq, hbad.2, fun p hp hplace => hbad.1 ⟨p, hp, hplace⟩⟩

theorem unpinned_foldl_mergeStep (existing fresh : List ToolOperation) (m : Merged) :
    (fresh.foldl (mergeStep existing) m).unpinned = [] ↔
      m.unpinned = [] ∧
        ∀ op ∈ fresh, ∀ old, former existing op = some old → ¬ Dropped old op := by
  induction fresh generalizing m with
  | nil => simp
  | cons op fresh ih =>
      rw [List.foldl_cons, ih, unpinned_mergeStep, List.forall_mem_cons, and_assoc]

/-- An operation of which nothing was pinned, or that is still there. -/
def Noticed (operations : List ToolOperation) (old : ToolOperation) : Prop :=
  (∃ q ∈ old.params, isPinned q.fill = true) → ∃ op ∈ operations, address old = address op

theorem unpinned_foldl_removeStep (olds : List ToolOperation) (m : Merged) :
    (olds.foldl removeStep m).unpinned = [] ↔
      m.unpinned = [] ∧ ∀ old ∈ olds, Noticed m.operations old := by
  induction olds generalizing m with
  | nil => simp
  | cons old olds ih =>
      have hstep : (removeStep m old).unpinned = [] ↔
          m.unpinned = [] ∧ Noticed m.operations old := by
        have hthere : m.operations.any (sameOperation old ·) = true ↔
            ∃ op ∈ m.operations, address old = address op := by
          rw [List.any_eq_true]
          exact exists_congr fun op => and_congr_right fun _ => sameOperation_iff
        unfold removeStep Noticed
        split
        · rename_i h
          exact (and_iff_left fun _ => hthere.1 h).symm
        · rename_i h
          rw [hthere] at h
          dsimp only
          rw [List.append_eq_nil_iff, List.map_eq_nil_iff, List.filter_eq_nil_iff]
          refine and_congr_right fun _ => ?_
          simp only [h, imp_false, not_exists, not_and]
      have hops : (removeStep m old).operations = m.operations := by
        rw [removeStep]
        split <;> rfl
      rw [List.foldl_cons, ih, hstep, hops, List.forall_mem_cons, and_assoc]

/-- Nothing is reported when every pin has a field to stay on. -/
theorem unpinned_eq_nil_iff (existing fresh : List ToolOperation) :
    (mergeOperations existing fresh).unpinned = [] ↔
      (∀ op ∈ fresh, ∀ old, former existing op = some old → ¬ Dropped old op) ∧
        ∀ old ∈ existing, Noticed fresh old := by
  have hnoticed : ∀ old, Noticed (fresh.map (merged existing)) old ↔ Noticed fresh old := by
    intro old
    simp [Noticed]
  rw [mergeOperations, unpinned_foldl_removeStep, unpinned_foldl_mergeStep,
    operations_foldl_mergeStep, List.nil_append]
  simp only [true_and, hnoticed]

/-! ## What is accepted -/

/-- A fill that a node may have. -/
def FillOk (f : Fill) : Prop := validateFill "" f = .ok ()

theorem validateFill_eq_ok_iff (field : String) (f : Fill) :
    validateFill field f = .ok () ↔ FillOk f := by
  unfold FillOk validateFill
  cases f.mode with
  | static => by_cases h : f.value.isNone <;> simp [h]
  | vault => by_cases h : (f.vaultRef.bind Fill.parseVaultRef).isNone <;> simp [h]
  | agent => simp
  | hidden => simp

theorem validateFills_eq_ok_iff {op : ToolOperation} {ps : List ToolParam} :
    validateFills op ps = .ok () ↔ ∀ p ∈ ps, FillOk p.fill := by
  induction ps with
  | nil => simp [validateFills]
  | cons p ps ih =>
      rw [List.forall_mem_cons, ← ih, ← validateFill_eq_ok_iff (op.id ++ "." ++ p.name),
        validateFills]
      cases validateFill (op.id ++ "." ++ p.name) p.fill with
      | error e =>
          constructor
          · intro h
            cases h
          · rintro ⟨⟨⟩, -⟩
      | ok _ => exact (and_iff_right rfl).symm

/-- An operation that a tool may have, whatever the others are. -/
structure OperationOk (op : ToolOperation) : Prop where
  id : validateOperationId op.id = true
  path : op.path.toList.head? = some '/'
  traversal : hasTraversal op.path.toList = false
  fills : ∀ p ∈ op.params, FillOk p.fill

theorem validateOperations_cons_iff {seen : List String} {op : ToolOperation}
    {ops : List ToolOperation} :
    validateOperations seen (op :: ops) = .ok () ↔
      OperationOk op ∧ op.id ∉ seen ∧ validateOperations (op.id :: seen) ops = .ok () := by
  rw [validateOperations]
  by_cases hid : validateOperationId op.id = true
  swap
  · rw [if_pos (by simp [hid])]
    exact ⟨fun h => (by cases h), fun h => absurd h.1.id hid⟩
  by_cases hseen : op.id ∈ seen
  · simp only [hid, hseen, if_true]
    exact ⟨fun h => (by cases h), fun h => absurd trivial h.2.1⟩
  by_cases hpath : op.path.toList.head? = some '/'
  swap
  · simp only [hid, hseen, hpath, if_false, ne_eq, not_false_eq_true, if_true]
    exact ⟨fun h => (by cases h), fun h => absurd h.1.path hpath⟩
  by_cases htrav : hasTraversal op.path.toList = true
  · simp only [hid, hseen, hpath, htrav, if_false, ne_eq, not_true, if_true]
    exact ⟨fun h => (by cases h), fun h => absurd h.1.traversal (by simp [htrav])⟩
  have hok : OperationOk op ↔ validateFills op op.params = .ok () :=
    ⟨fun h => validateFills_eq_ok_iff.2 h.fills, fun h =>
      ⟨hid, hpath, by simpa using htrav, validateFills_eq_ok_iff.1 h⟩⟩
  rw [hok]
  simp only [hid, hseen, hpath, htrav, if_false, ne_eq, not_true, Bool.not_true,
    Bool.false_eq_true, not_false_eq_true, true_and]
  cases validateFills op op.params with
  | error e => exact ⟨fun h => (by cases h), fun h => (by cases h.1)⟩
  | ok _ => exact (and_iff_right rfl).symm

theorem validateOperations_eq_ok_iff {seen : List String} {ops : List ToolOperation} :
    validateOperations seen ops = .ok () ↔
      (∀ op ∈ ops, OperationOk op) ∧ (ops.map fun op => op.id).Nodup ∧
        ∀ op ∈ ops, op.id ∉ seen := by
  induction ops generalizing seen with
  | nil => simp [validateOperations]
  | cons op ops ih =>
      rw [validateOperations_cons_iff, ih]
      have hnew : (∀ o ∈ ops, o.id ∉ op.id :: seen) ↔
          op.id ∉ ops.map (fun o => o.id) ∧ ∀ o ∈ ops, o.id ∉ seen := by
        simp only [List.mem_cons, not_or, List.mem_map, not_exists, not_and, forall_and]
      rw [hnew, List.forall_mem_cons, List.forall_mem_cons, List.map_cons, List.nodup_cons]
      constructor
      · rintro ⟨hop, hseen, hops, hnodup, hne, hrest⟩
        exact ⟨⟨hop, hops⟩, ⟨hne, hnodup⟩, hseen, hrest⟩
      · rintro ⟨⟨hop, hops⟩, ⟨hne, hnodup⟩, hseen, hrest⟩
        exact ⟨hop, hseen, hops, hnodup, hne, hrest⟩

/-! ## What an operator set survives -/

/-- What an operator took from the agent is still taken from it. -/
structure Kept (existing operations : List ToolOperation) : Prop where
  pins : ∀ old ∈ existing, ∀ q ∈ old.params, q.fill.mode ≠ .agent →
    ∃ op ∈ operations, address op = address old ∧ op.id = old.id ∧
      ∃ p ∈ op.params, place p = place q ∧ p.fill = q.fill
  agents : ∀ old ∈ existing, ∀ op ∈ operations, address op = address old →
    ∀ p ∈ op.params, p.fill.mode = .agent →
      (∃ q ∈ old.params, place q = place p ∧ q.fill.mode = .agent) ∨
        ∀ q ∈ old.params, place q ≠ place p
  enabled : ∀ old ∈ existing, old.enabled = false → ∀ op ∈ operations,
    address op = address old → op.enabled = false
  ids : (operations.map fun op => op.id).Nodup

/-- Two fresh operations that end up with one id: both have the address of one existing
operation, or one that is new has the id of one that is kept, or both are new. -/
def Clash (existing : List ToolOperation) (f g : ToolOperation) : Prop :=
  match former existing f, former existing g with
  | some _, some _ => address f = address g
  | some old, none => old.id = g.id
  | none, some old => f.id = old.id
  | none, none => f.id = g.id

/-- A fresh list that everything an operator set has a place in. -/
structure Carries (existing fresh : List ToolOperation) : Prop where
  hidden : ∀ old ∈ existing, ∀ q ∈ old.params, q.fill.mode = .hidden →
    ∃ op ∈ fresh, address op = address old ∧ ∃ p ∈ op.params, place p = place q
  first : ∀ old ∈ existing, (∃ q ∈ old.params, q.fill.mode ≠ .agent) →
    former existing old = some old
  alone : ∀ old ∈ existing, ∀ q ∈ old.params, q.fill.mode ≠ .agent →
    ∀ r, formerParam old q = some r → r.fill = q.fill
  disabled : ∀ old ∈ existing, old.enabled = false → (∃ op ∈ fresh, address op = address old) →
    ∀ o, former existing old = some o → o.enabled = false
  ids : fresh.Pairwise fun f g => ¬ Clash existing f g

section kept

variable {existing fresh : List ToolOperation}

theorem exists_former {old op : ToolOperation} (hold : old ∈ existing)
    (h : address op = address old) : ∃ o, former existing op = some o := by
  rw [← Option.isSome_iff_exists, former, List.find?_isSome]
  exact ⟨old, hold, sameOperation_iff.2 h.symm⟩

theorem eq_of_id (hids : (existing.map fun op => op.id).Nodup) {a b : ToolOperation}
    (ha : a ∈ existing) (hb : b ∈ existing) (h : a.id = b.id) : a = b :=
  List.inj_on_of_nodup_map hids ha hb h

theorem fill_keepFill {old : ToolOperation} {p r : ToolParam} (h : formerParam old p = some r) :
    (keepFill old p).fill = r.fill := by
  rw [keepFill, ← formerParam, h]

theorem keepFill_of_none {old : ToolOperation} {p : ToolParam} (h : formerParam old p = none) :
    keepFill old p = p := by
  rw [keepFill, ← formerParam, h]

theorem merged_of_former {old op : ToolOperation} (h : former existing op = some old) :
    merged existing op = carry old op := by
  rw [merged, h]

/-- Two fresh operations get one id exactly when they clash. -/
theorem id_merged_eq_iff (hids : (existing.map fun op => op.id).Nodup) (f g : ToolOperation) :
    (merged existing f).id = (merged existing g).id ↔ Clash existing f g := by
  unfold merged Clash
  cases hf : former existing f with
  | none =>
      cases former existing g with
      | none => rfl
      | some o => rfl
  | some o =>
      cases hg : former existing g with
      | none => rfl
      | some o' =>
          obtain ⟨hmem, haddress⟩ := mem_of_former hf
          obtain ⟨hmem', haddress'⟩ := mem_of_former hg
          constructor
          · intro h
            rw [← haddress, ← haddress', eq_of_id hids hmem hmem' h]
          · intro h
            rw [former_congr h, hg] at hf
            rw [Option.some.inj hf]
            rfl

theorem carries_of_kept (hids : (existing.map fun op => op.id).Nodup)
    (h : Kept existing (fresh.map (merged existing))) : Carries existing fresh := by
  have hpins : ∀ old ∈ existing, ∀ q ∈ old.params, q.fill.mode ≠ .agent →
      ∃ op ∈ fresh, address op = address old ∧ former existing op = some old ∧
        ∃ p ∈ op.params, place p = place q ∧ (keepFill old p).fill = q.fill := by
    intro old hold q hq hmode
    rcases h.pins old hold q hq hmode with ⟨m, hm, haddress, hid, p, hp, hplace, hfill⟩
    rcases List.mem_map.1 hm with ⟨op, hop, rfl⟩
    rw [address_merged] at haddress
    rcases exists_former hold haddress with ⟨o, ho⟩
    rw [merged_of_former ho] at hid hp
    obtain rfl : o = old := eq_of_id hids (mem_of_former ho).1 hold hid
    rcases List.mem_map.1 hp with ⟨p', hp', rfl⟩
    rw [place_keepFill] at hplace
    exact ⟨op, hop, haddress, ho, p', hp', hplace, hfill⟩
  constructor
  · intro old hold q hq hmode
    rcases hpins old hold q hq (by simp [hmode]) with ⟨op, hop, haddress, -, p, hp, hplace, -⟩
    exact ⟨op, hop, haddress, p, hp, hplace⟩
  · rintro old hold ⟨q, hq, hmode⟩
    rcases hpins old hold q hq hmode with ⟨op, -, haddress, hformer, -⟩
    rw [← former_congr haddress, hformer]
  · intro old hold q hq hmode r hr
    rcases hpins old hold q hq hmode with ⟨op, -, -, -, p, -, hplace, hfill⟩
    rw [← hfill, fill_keepFill (formerParam_congr hplace ▸ hr)]
  · rintro old hold hoff ⟨op, hop, haddress⟩ o ho
    have hsame := h.enabled old hold hoff _ (List.mem_map_of_mem hop)
      ((address_merged existing op).trans haddress)
    rw [merged_of_former ((former_congr haddress).trans ho)] at hsame
    exact hsame
  · have hnodup := h.ids
    rw [List.map_map, List.Nodup, List.pairwise_map] at hnodup
    exact hnodup.imp fun hne hclash => hne ((id_merged_eq_iff hids _ _).2 hclash)

theorem kept_of_carries (hids : (existing.map fun op => op.id).Nodup)
    (hreported : (mergeOperations existing fresh).unpinned = []) (h : Carries existing fresh) :
    Kept existing (fresh.map (merged existing)) := by
  obtain ⟨hdropped, hnoticed⟩ := (unpinned_eq_nil_iff existing fresh).1 hreported
  constructor
  · intro old hold q hq hmode
    have hfirst := h.first old hold ⟨q, hq, hmode⟩
    obtain ⟨op, hop, haddress, p, hp, hplace⟩ : ∃ op ∈ fresh, address op = address old ∧
        ∃ p ∈ op.params, place p = place q := by
      by_cases hpin : isPinned q.fill = true
      · rcases hnoticed old hold ⟨q, hq, hpin⟩ with ⟨op, hop, haddress⟩
        have hkept := hdropped op hop old ((former_congr haddress.symm).trans hfirst)
        rw [Dropped] at hkept
        push Not at hkept
        rcases hkept q hq hpin with ⟨p, hp, hplace⟩
        exact ⟨op, hop, haddress.symm, p, hp, hplace.symm⟩
      · refine h.hidden old hold q hq ?_
        unfold isPinned at hpin
        cases hm : q.fill.mode <;> simp_all
    have hformer := (former_congr haddress).trans hfirst
    rcases exists_formerParam hq hplace.symm with ⟨r, hr⟩
    refine ⟨_, List.mem_map_of_mem hop, (address_merged _ _).trans haddress, ?_⟩
    rw [merged_of_former hformer]
    refine ⟨rfl, keepFill old p, List.mem_map_of_mem hp, (place_keepFill _ _).trans hplace, ?_⟩
    rw [fill_keepFill hr]
    exact h.alone old hold q hq hmode r ((formerParam_congr hplace).symm.trans hr)
  · intro old hold m hm haddress p hp hagent
    rcases List.mem_map.1 hm with ⟨op, hop, rfl⟩
    rw [address_merged] at haddress
    by_cases hall : ∃ q ∈ old.params, q.fill.mode ≠ .agent
    · rw [merged_of_former ((former_congr haddress).trans (h.first old hold hall))] at hp
      rcases List.mem_map.1 hp with ⟨p', hp', rfl⟩
      cases hr : formerParam old p' with
      | none =>
          refine .inr fun q hq hplace => ?_
          rcases exists_formerParam hq (hplace.trans (place_keepFill old p')) with ⟨r, hr'⟩
          rw [hr] at hr'
          cases hr'
      | some r =>
          obtain ⟨hmem, hplace⟩ := mem_of_formerParam hr
          rw [fill_keepFill hr] at hagent
          exact .inl ⟨r, hmem, hplace.trans (place_keepFill old p').symm, hagent⟩
    · push Not at hall
      by_cases hsame : ∃ q ∈ old.params, place q = place p
      · rcases hsame with ⟨q, hq, hplace⟩
        exact .inl ⟨q, hq, hplace, hall q hq⟩
      · push Not at hsame
        exact .inr hsame
  · intro old hold hoff m hm haddress
    rcases List.mem_map.1 hm with ⟨op, hop, rfl⟩
    rw [address_merged] at haddress
    rcases exists_former hold haddress with ⟨o, ho⟩
    rw [merged_of_former ho]
    exact h.disabled old hold hoff ⟨op, hop, haddress⟩ o ((former_congr haddress).symm.trans ho)
  · rw [List.map_map, List.Nodup, List.pairwise_map]
    exact h.ids.imp fun hne heq => hne ((id_merged_eq_iff hids _ _).1 heq)

end kept

/-! ## The document the operations came from -/

/-- A parameter that differs from an imported one in its fill only. -/
def SameField (p q : ToolParam) : Prop := { q with fill := p.fill } = p

/-- An operation that differs from an imported one in its id, its switch and its fills only. -/
structure SameShape (e f : ToolOperation) : Prop where
  method : e.method = f.method
  path : e.path = f.path
  summary : e.summary = f.summary
  params : List.Forall₂ SameField e.params f.params

/-- The operations came from the document. -/
def CameFrom (existing fresh : List ToolOperation) : Prop := List.Forall₂ SameShape existing fresh

/-- No operation and no parameter stands behind another one that it is matched with. -/
structure Plain (existing : List ToolOperation) : Prop where
  addresses : (existing.map address).Nodup
  params : ∀ op ∈ existing, ∀ p ∈ op.params, ∀ r, formerParam op p = some r → r.fill = p.fill

section same

variable {existing fresh : List ToolOperation}

/-- A list is the image of another one when each element is the image of its partner. -/
theorem map_eq_of_forall₂ {α β : Type} {R : α → β → Prop} {g : β → α} {x : List α} {y : List β}
    (h : List.Forall₂ R x y) (hg : ∀ a ∈ x, ∀ b, R a b → g b = a) : y.map g = x := by
  induction h with
  | nil => rfl
  | @cons a b x y hab _ ih =>
      rw [List.map_cons, hg a (.head _) b hab, ih fun c hc => hg c (.tail _ hc)]

theorem exists_partner {α β : Type} {R : α → β → Prop} {x : List α} {y : List β}
    (h : List.Forall₂ R x y) : ∀ a ∈ x, ∃ b ∈ y, R a b := fun _ =>
  UpToOrder.exists_right ⟨y, h, .refl y⟩

theorem exists_preimage {α β : Type} {R : α → β → Prop} {g : β → α} {x : List α} {y : List β}
    (h : List.Forall₂ R x y) (hg : y.map g = x) : ∀ a ∈ x, ∃ b ∈ y, R a b ∧ g b = a := by
  rw [← hg, List.forall₂_map_left_iff, List.forall₂_same] at h
  rw [← hg]
  intro a ha
  rcases List.mem_map.1 ha with ⟨b, hb, rfl⟩
  exact ⟨b, hb, h b hb, rfl⟩

theorem SameField.place_eq {p q : ToolParam} (h : SameField p q) : place p = place q := by
  rw [← h]
  rfl

theorem SameShape.address_eq {e f : ToolOperation} (h : SameShape e f) :
    address e = address f := by
  rw [address, address, h.method, h.path]

/-- An operation is carried over to itself when no parameter of it is shadowed. -/
theorem carry_eq_self_iff {e f : ToolOperation} (h : SameShape e f) :
    carry e f = e ↔ ∀ p ∈ e.params, ∀ r, formerParam e p = some r → r.fill = p.fill := by
  have hcarry : carry e f = e ↔ f.params.map (keepFill e) = e.params := by
    constructor
    · intro he
      exact congrArg ToolOperation.params he
    · intro hp
      rw [carry, hp, ← h.method, ← h.path, ← h.summary]
  rw [hcarry]
  constructor
  · intro hp p hmem r hr
    rw [← hp] at hmem
    rcases List.mem_map.1 hmem with ⟨p', -, rfl⟩
    rw [formerParam_congr (place_keepFill e p')] at hr
    exact (fill_keepFill hr).symm
  · intro hall
    refine map_eq_of_forall₂ h.params fun p hp q hq => ?_
    rcases exists_formerParam hp hq.place_eq with ⟨r, hr⟩
    have hfill := hall p hp r ((formerParam_congr hq.place_eq).trans hr)
    rw [keepFill, ← formerParam, hr]
    dsimp only
    rw [hfill]
    exact hq

theorem operations_eq_self_iff (hids : (existing.map fun op => op.id).Nodup)
    (h : CameFrom existing fresh) :
    fresh.map (merged existing) = existing ↔ Plain existing := by
  constructor
  · intro heq
    have hself : ∀ e ∈ existing, ∃ f ∈ fresh, SameShape e f ∧ former existing e = some e ∧
        carry e f = e := by
      intro e he
      rcases exists_preimage h heq e he with ⟨f, hf, hshape, hmerged⟩
      rcases exists_former he hshape.address_eq.symm with ⟨o, ho⟩
      rw [merged_of_former ho] at hmerged
      obtain rfl : o = e :=
        eq_of_id hids (mem_of_former ho).1 he (show (carry o f).id = e.id by rw [hmerged])
      exact ⟨f, hf, hshape, (former_congr hshape.address_eq).trans ho, hmerged⟩
    constructor
    · refine List.Nodup.map_on ?_ hids.of_map
      intro a ha b hb hab
      rcases hself a ha with ⟨-, -, -, hfa, -⟩
      rcases hself b hb with ⟨-, -, -, hfb, -⟩
      rw [former_congr hab, hfb] at hfa
      exact (Option.some.inj hfa).symm
    · intro e he
      rcases hself e he with ⟨f, -, hshape, -, hcarry⟩
      exact (carry_eq_self_iff hshape).1 hcarry
  · intro hplain
    refine map_eq_of_forall₂ h fun e he f hshape => ?_
    rcases exists_former he hshape.address_eq.symm with ⟨o, ho⟩
    obtain ⟨hmem, haddress⟩ := mem_of_former ho
    obtain rfl : o = e :=
      List.inj_on_of_nodup_map hplain.addresses hmem he (haddress.trans hshape.address_eq.symm)
    rw [merged_of_former ho]
    exact (carry_eq_self_iff hshape).2 (hplain.params o he)

/-- Importing the document again reports nothing when it changes nothing. -/
theorem unpinned_of_plain (h : CameFrom existing fresh) (hplain : Plain existing) :
    (mergeOperations existing fresh).unpinned = [] := by
  rw [unpinned_eq_nil_iff]
  constructor
  · rintro f hf old hformer ⟨q, hq, -, hdrop⟩
    obtain ⟨hold, haddress⟩ := mem_of_former hformer
    rcases exists_partner h.flip f hf with ⟨e, he, hshape⟩
    obtain rfl : e = old := List.inj_on_of_nodup_map hplain.addresses he hold
      ((SameShape.address_eq hshape).trans haddress.symm)
    rcases exists_partner (SameShape.params hshape) q hq with ⟨p, hp, hfield⟩
    exact hdrop p hp hfield.place_eq
  · intro old hold _
    rcases exists_partner h old hold with ⟨f, hf, hshape⟩
    exact ⟨f, hf, hshape.address_eq⟩

end same

/-! ## What a re-import keeps -/

/-- A vault or static parameter is reported: a fresh operation of its address has no field for
it, or there is none of its address. -/
def Reported (existing fresh : List ToolOperation) : Prop :=
  (∃ op ∈ fresh, ∃ old, former existing op = some old ∧ Dropped old op) ∨
    ∃ old ∈ existing, ¬ Noticed fresh old

theorem unpinned_ne_nil_iff {existing fresh : List ToolOperation} :
    (mergeOperations existing fresh).unpinned ≠ [] ↔ Reported existing fresh := by
  rw [ne_eq, unpinned_eq_nil_iff, Reported, not_and_or]
  push Not
  rfl

/-- What a re-import promises about what an operator set. -/
structure ReimportKeeps (cfg : ToolConfig) (allowHosts : List String)
    (fresh : List ToolOperation) : Prop where
  kept : (mergeOperations cfg.operations fresh).unpinned = [] →
    Kept cfg.operations (mergeOperations cfg.operations fresh).operations
  accepted : (mergeOperations cfg.operations fresh).unpinned = [] →
    (∀ op ∈ fresh, OperationOk op) →
      validateTool { cfg with operations := (mergeOperations cfg.operations fresh).operations }
        allowHosts = .ok ()
  same : CameFrom cfg.operations fresh →
    (mergeOperations cfg.operations fresh).operations = cfg.operations ∧
      (mergeOperations cfg.operations fresh).unpinned = []

theorem validateTool_operations_iff {cfg : ToolConfig} {allowHosts : List String}
    (h : validateTool cfg allowHosts = .ok ()) (ops : List ToolOperation) :
    validateTool { cfg with operations := ops } allowHosts = .ok () ↔
      validateOperations [] ops = .ok () := by
  unfold validateTool at h ⊢
  dsimp only
  split at h
  · cases h
  · dsimp only at h ⊢
    split at h
    · cases h
    · rename_i hallowed
      rw [if_neg hallowed]

theorem operationOk_merged {existing : List ToolOperation} {op : ToolOperation}
    (hold : ∀ o ∈ existing, OperationOk o) (h : OperationOk op) :
    OperationOk (merged existing op) := by
  unfold merged
  cases hformer : former existing op with
  | none => exact h
  | some old =>
      have hok := hold old (mem_of_former hformer).1
      refine ⟨hok.id, h.path, h.traversal, ?_⟩
      intro p hp
      rcases List.mem_map.1 hp with ⟨p', hp', rfl⟩
      cases hr : formerParam old p' with
      | none =>
          rw [keepFill_of_none hr]
          exact h.fills p' hp'
      | some r =>
          rw [fill_keepFill hr]
          exact hok.fills r (mem_of_formerParam hr).1

/-- A re-import keeps what an operator set exactly when a pin that has no place is reported or
everything has its place, and no operation or parameter is matched with another one of the same
document. -/
theorem reimportKeeps_iff {cfg : ToolConfig} {allowHosts : List String}
    (h : validateTool cfg allowHosts = .ok ()) (fresh : List ToolOperation) :
    ReimportKeeps cfg allowHosts fresh ↔
      (Reported cfg.operations fresh ∨ Carries cfg.operations fresh) ∧
        (CameFrom cfg.operations fresh → Plain cfg.operations) := by
  have hids := ids_of_validateTool h
  have hops := (validateOperations_eq_ok_iff.1 ((validateTool_operations_iff h _).1 h)).1
  constructor
  · intro hkeeps
    refine ⟨?_, fun hcame => ?_⟩
    · by_cases hreported : (mergeOperations cfg.operations fresh).unpinned = []
      · have hkept := hkeeps.kept hreported
        rw [operations_mergeOperations] at hkept
        exact .inr (carries_of_kept hids hkept)
      · exact .inl (unpinned_ne_nil_iff.1 hreported)
    · have hsame := (hkeeps.same hcame).1
      rw [operations_mergeOperations] at hsame
      exact (operations_eq_self_iff hids hcame).1 hsame
  · rintro ⟨hcases, hplain⟩
    have hkept : (mergeOperations cfg.operations fresh).unpinned = [] →
        Kept cfg.operations (fresh.map (merged cfg.operations)) := fun hreported =>
      kept_of_carries hids hreported
        (hcases.resolve_left fun hlost => unpinned_ne_nil_iff.2 hlost hreported)
    constructor
    · intro hreported
      rw [operations_mergeOperations]
      exact hkept hreported
    · intro hreported hfresh
      rw [operations_mergeOperations, validateTool_operations_iff h, validateOperations_eq_ok_iff]
      refine ⟨?_, (hkept hreported).ids, fun _ _ => List.not_mem_nil⟩
      intro op hop
      rcases List.mem_map.1 hop with ⟨f, hf, rfl⟩
      exact operationOk_merged hops (hfresh f hf)
    · intro hcame
      rw [operations_mergeOperations]
      exact ⟨(operations_eq_self_iff hids hcame).2 (hplain hcame),
        unpinned_of_plain hcame (hplain hcame)⟩

/-- A tool with one operation, of which one field is hidden. -/
def tracedTool : ToolConfig where
  kind := .http
  source := ⟨.openapi, "", 0⟩
  baseUrl := "https://api.example.com"
  operations := [⟨"list", .get, "/items", none, true,
    [⟨"trace", .query, false, none, none, { mode := .hidden }⟩]⟩]

/-- The same specification later: the hidden field has another name, and another operation has
the id. -/
def tracedAgain : List ToolOperation :=
  [⟨"items", .get, "/items/", none, true, [⟨"debug", .query, false, none, none, {}⟩]⟩,
    ⟨"list", .get, "/lists", none, true, []⟩]

theorem reimportKeeps_traced : ReimportKeeps tracedTool [] tracedTool.operations := by
  have hformer : ∀ old ∈ tracedTool.operations, ∀ o,
      former tracedTool.operations old = some o → o = old := fun old hold o ho =>
    (List.mem_singleton.1 (mem_of_former ho).1).trans (List.mem_singleton.1 hold).symm
  have hparam : ∀ old ∈ tracedTool.operations, ∀ q ∈ old.params, ∀ r,
      formerParam old q = some r → r = q := by
    intro old hold q hq r hr
    have hmem := (mem_of_formerParam hr).1
    rw [List.mem_singleton.1 hold] at hq hmem
    exact (List.mem_singleton.1 hmem).trans (List.mem_singleton.1 hq).symm
  refine (reimportKeeps_iff rfl _).2 ⟨.inr ⟨?_, ?_, ?_, ?_, List.pairwise_singleton _ _⟩, fun _ =>
    ⟨List.nodup_singleton _, fun old hold q hq r hr => by rw [hparam old hold q hq r hr]⟩⟩
  · exact fun old hold q hq _ => ⟨old, hold, rfl, q, hq, rfl⟩
  · intro old hold _
    rcases exists_former hold rfl with ⟨o, ho⟩
    rw [ho, hformer old hold o ho]
  · exact fun old hold q hq _ r hr => by rw [hparam old hold q hq r hr]
  · exact fun old hold hoff _ o ho => hformer old hold o ho ▸ hoff

/-- The import gives the field to the agent and one id to two operations, and says nothing. -/
theorem not_reimportKeeps_traced :
    validateTool tracedTool [] = .ok () ∧ ¬ ReimportKeeps tracedTool [] tracedAgain := by
  refine ⟨rfl, fun h => ?_⟩
  have hids := (h.kept (by decide +kernel)).ids
  exact absurd hids (by decide +kernel)

end Api.ToolRoutes

end Wheel
