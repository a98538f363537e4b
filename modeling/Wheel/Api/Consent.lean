import Wheel.Api.Apply

/-!
# What consent would unblock

A refused apply is answered with the flags that, together, should let the same
board through. `validate` judges the new wires only after everything else is
permitted, so the flags are complete unless the new wires and something before
them lack their consent at once (`consent_iff`).
-/

namespace Wheel.Api.Apply

/-! ## The answer to a refusal -/

/-- What is gone for good when a node of this type is. -/
def destroys : NodeType → String
  | .table => "its rows are dropped and cannot be recovered"
  | .vault => "the secrets it holds are destroyed"
  | .chest => "the files it holds are destroyed"
  | .agent => "its messages, logs and stored credential go with it"
  | .ctx => "the markdown it injects is lost"
  | .script => "its source is lost"
  | .endpoint => "its public URL stops answering"
  | .mcp | .tool => "the agents wired to it lose that capability"

structure DeleteConsent where
  name : String
  nodeType : NodeType
  destroys : String
  deriving DecidableEq

structure Consent where
  wouldModify : List String := []
  wouldWire : List EmittedWire := []
  wouldDelete : List DeleteConsent := []
  wouldUnwire : List EmittedWire := []
  grant : List String := []
  deriving DecidableEq

namespace Consent

/-- Note what one refusal would take; a refusal that no consent lifts ends it. -/
def note (c : Consent) : Refusal → Option Consent
  | .patchNotPermitted name => some { c with wouldModify := c.wouldModify ++ [name] }
  | .wireTouchesExistingNode s t ty _ =>
      some { c with wouldWire := c.wouldWire ++ [⟨s, t, ty⟩] }
  | .deleteNotPermitted name ty =>
      some { c with wouldDelete := c.wouldDelete ++ [⟨name, ty, destroys ty⟩] }
  | .unwireNotPermitted s t ty =>
      some { c with wouldUnwire := c.wouldUnwire ++ [⟨s, t, ty⟩] }
  | _ => none

/-- The flags for what was noted. -/
def flags (c : Consent) : List String :=
  (if c.wouldModify = [] then [] else ["allow_patch"]) ++
    (if c.wouldWire = [] then [] else ["allow_wire"]) ++
    (if c.wouldDelete = [] then [] else ["allow_delete"]) ++
    (if c.wouldUnwire = [] then [] else ["allow_unwire"])

def of (refusals : List Refusal) : Option Consent := do
  let c ← refusals.foldlM note {}
  if c.flags = [] then none else some { c with grant := c.flags }

end Consent

/-- A policy with the flags of a grant. -/
def ApplyPolicy.allowing (p : ApplyPolicy) (grant : List String) : ApplyPolicy where
  allowPatch := p.allowPatch || decide ("allow_patch" ∈ grant)
  allowWire := p.allowWire || decide ("allow_wire" ∈ grant)
  allowDelete := p.allowDelete || decide ("allow_delete" ∈ grant)
  allowUnwire := p.allowUnwire || decide ("allow_unwire" ∈ grant)

/-! ## The noted refusals -/

namespace Refusal

def isPatch : Refusal → Bool
  | .patchNotPermitted _ => true
  | _ => false

def isWire : Refusal → Bool
  | .wireTouchesExistingNode _ _ _ _ => true
  | _ => false

def isDelete : Refusal → Bool
  | .deleteNotPermitted _ _ => true
  | _ => false

def isUnwire : Refusal → Bool
  | .unwireNotPermitted _ _ _ => true
  | _ => false

/-- A refusal that a consent lifts. -/
def isConsent (r : Refusal) : Bool := r.isPatch || r.isWire || r.isDelete || r.isUnwire

end Refusal

section Note

variable {c c' : Consent} {r : Refusal} {l : List Refusal}

theorem note_eq_none_iff : c.note r = none ↔ r.isConsent = false := by
  cases r <;> simp [Consent.note, Refusal.isConsent, Refusal.isPatch, Refusal.isWire,
    Refusal.isDelete, Refusal.isUnwire]

/-- What is noted of each kind of refusal. -/
theorem note_eq_some (h : c.note r = some c') :
    (c'.wouldModify = [] ↔ c.wouldModify = [] ∧ r.isPatch = false) ∧
    (c'.wouldWire = [] ↔ c.wouldWire = [] ∧ r.isWire = false) ∧
    (c'.wouldDelete = [] ↔ c.wouldDelete = [] ∧ r.isDelete = false) ∧
    (c'.wouldUnwire = [] ↔ c.wouldUnwire = [] ∧ r.isUnwire = false) := by
  cases r <;> simp only [Consent.note, Option.some.injEq, reduceCtorEq] at h <;> subst h <;>
    simp [Refusal.isPatch, Refusal.isWire, Refusal.isDelete, Refusal.isUnwire]

theorem foldlM_note (h : l.foldlM Consent.note c = some c') :
    (c'.wouldModify = [] ↔ c.wouldModify = [] ∧ ∀ r ∈ l, r.isPatch = false) ∧
    (c'.wouldWire = [] ↔ c.wouldWire = [] ∧ ∀ r ∈ l, r.isWire = false) ∧
    (c'.wouldDelete = [] ↔ c.wouldDelete = [] ∧ ∀ r ∈ l, r.isDelete = false) ∧
    (c'.wouldUnwire = [] ↔ c.wouldUnwire = [] ∧ ∀ r ∈ l, r.isUnwire = false) := by
  induction l generalizing c with
  | nil =>
      cases h
      simp
  | cons r l ih =>
      rw [List.foldlM_cons] at h
      obtain ⟨d, hd, h⟩ := Option.bind_eq_some_iff.mp h
      obtain ⟨h1, h2, h3, h4⟩ := note_eq_some hd
      obtain ⟨i1, i2, i3, i4⟩ := ih h
      simp only [i1, i2, i3, i4, h1, h2, h3, h4, List.forall_mem_cons, and_assoc, and_self]

theorem foldlM_note_eq_none (h : r ∈ l) (hr : r.isConsent = false) :
    l.foldlM Consent.note c = none := by
  induction l generalizing c with
  | nil => cases h
  | cons s l ih =>
      rw [List.foldlM_cons]
      rcases List.mem_cons.mp h with rfl | h
      · rw [note_eq_none_iff.mpr hr]
        rfl
      · cases c.note s with
        | none => rfl
        | some d => exact ih h

theorem exists_foldlM_note (h : ∀ r ∈ l, r.isConsent = true) (c : Consent) :
    ∃ c', l.foldlM Consent.note c = some c' := by
  induction l generalizing c with
  | nil => exact ⟨c, rfl⟩
  | cons r l ih =>
      rw [List.foldlM_cons]
      cases hr : c.note r with
      | none =>
          rw [note_eq_none_iff, h r List.mem_cons_self] at hr
          cases hr
      | some d => exact ih (fun s hs => h s (List.mem_cons_of_mem _ hs)) d

theorem mem_flags (c : Consent) :
    ("allow_patch" ∈ c.flags ↔ c.wouldModify ≠ []) ∧ ("allow_wire" ∈ c.flags ↔ c.wouldWire ≠ []) ∧
    ("allow_delete" ∈ c.flags ↔ c.wouldDelete ≠ []) ∧
    ("allow_unwire" ∈ c.flags ↔ c.wouldUnwire ≠ []) := by
  unfold Consent.flags
  by_cases h1 : c.wouldModify = [] <;> by_cases h2 : c.wouldWire = [] <;>
    by_cases h3 : c.wouldDelete = [] <;> by_cases h4 : c.wouldUnwire = [] <;>
    simp [h1, h2, h3, h4]

/-- A consent that is offered names a flag exactly for the kinds of refusals it
was made of. -/
theorem mem_grant (h : Consent.of l = some c) :
    ("allow_patch" ∈ c.grant ↔ ∃ r ∈ l, r.isPatch = true) ∧
    ("allow_wire" ∈ c.grant ↔ ∃ r ∈ l, r.isWire = true) ∧
    ("allow_delete" ∈ c.grant ↔ ∃ r ∈ l, r.isDelete = true) ∧
    ("allow_unwire" ∈ c.grant ↔ ∃ r ∈ l, r.isUnwire = true) := by
  obtain ⟨d, hd, h⟩ := Option.bind_eq_some_iff.mp h
  have hgrant : c.grant = d.flags := by
    split at h
    · cases h
    · cases h
      rfl
  obtain ⟨h1, h2, h3, h4⟩ := foldlM_note hd
  obtain ⟨g1, g2, g3, g4⟩ := mem_flags d
  rw [hgrant, g1, g2, g3, g4, Ne, Ne, Ne, Ne, h1, h2, h3, h4]
  simp

/-- Refusals that consents lift are answered with a consent. -/
theorem exists_consent (h : ∀ r ∈ l, r.isConsent = true) (hl : l ≠ []) :
    ∃ c, Consent.of l = some c := by
  obtain ⟨d, hd⟩ := exists_foldlM_note h {}
  obtain ⟨r, hr⟩ := List.exists_mem_of_ne_nil l hl
  have hflags : d.flags ≠ [] := by
    intro hnil
    obtain ⟨g1, g2, g3, g4⟩ := mem_flags d
    obtain ⟨h1, h2, h3, h4⟩ := foldlM_note hd
    simp only [hnil, List.not_mem_nil, false_iff, not_not] at g1 g2 g3 g4
    have hc := h r hr
    simp only [Refusal.isConsent, (h1.mp g1).2 r hr, (h2.mp g2).2 r hr, (h3.mp g3).2 r hr,
      (h4.mp g4).2 r hr, Bool.or_self, Bool.false_eq_true] at hc
  refine ⟨{ d with grant := d.flags }, ?_⟩
  unfold Consent.of
  rw [hd]
  exact if_neg hflags

end Note

/-! ## What a stage of `validate` refuses -/

section Stages

variable {board : EmittedBoard} {existing : ExistingBoard} {policy : ApplyPolicy}

theorem isConsent_duplicateNames {r : Refusal} {seen : List String} {x : List EmittedNode}
    (h : r ∈ duplicateNames seen x) : r.isConsent = false := by
  induction x generalizing seen with
  | nil => cases h
  | cons n x ih =>
      rcases List.mem_append.mp h with h | h
      · split at h
        · rw [List.mem_singleton.mp h]
          rfl
        · cases h
      · exact ih h

theorem isConsent_nodeRefusals {r : Refusal} {n : EmittedNode} (h : r ∈ nodeRefusals existing n) :
    r.isConsent = false := by
  simp only [nodeRefusals, List.mem_append] at h
  rcases h with ((h | h) | h) | h
  · split at h
    · rw [List.mem_singleton.mp h]
      rfl
    · cases h
  · split at h
    · rw [List.mem_singleton.mp h]
      rfl
    · cases h
  · split at h
    · split at h
      · rw [List.mem_singleton.mp h]
        rfl
      · cases h
    · cases h
  · split at h
    · split at h
      · split at h
        · rw [List.mem_singleton.mp h]
          rfl
        · cases h
      · cases h
    · cases h

theorem isConsent_wireRefusals {r : Refusal} {w : EmittedWire}
    (h : r ∈ wireRefusals board existing w) : r.isConsent = false := by
  unfold wireRefusals at h
  split at h
  · rw [List.mem_singleton.mp h]
    rfl
  split at h
  · rw [List.mem_singleton.mp h]
    rfl
  split at h
  · split at h
    · rw [List.mem_singleton.mp h]
      rfl
    · cases h
  · rw [List.mem_singleton.mp h]
    rfl
  · rw [List.mem_singleton.mp h]
    rfl

/-- No consent makes a board legal. -/
theorem isConsent_illegal {r : Refusal} (h : r ∈ illegal board existing) : r.isConsent = false := by
  simp only [illegal, List.mem_append, List.mem_flatMap] at h
  rcases h with (((((h | ⟨n, -, h⟩) | ⟨n, -, h⟩) | h) | ⟨n, -, h⟩) | ⟨w, -, h⟩) | ⟨w, -, h⟩
  · exact isConsent_duplicateNames h
  · exact isConsent_nodeRefusals h
  · unfold typeRefusals at h
    split at h
    · split at h
      · rw [List.mem_singleton.mp h]
        rfl
      · cases h
    · cases h
  · simp only [flattenWires, List.mem_flatMap, List.mem_filterMap] at h
    obtain ⟨n, -, w, -, h⟩ := h
    split at h
    · cases h
    · cases h
      rfl
  · rcases List.mem_append.mp h with h | h
    · split at h
      · rw [List.mem_singleton.mp h]
        rfl
      · cases h
    · split at h
      · rw [List.mem_singleton.mp h]
        rfl
      · cases h
  · exact isConsent_wireRefusals h
  · unfold removeWireRefusals at h
    split at h
    · cases h
    · rw [List.mem_singleton.mp h]
      rfl

theorem unconsented_eq_nil_iff : unconsented board existing policy = [] ↔
    (policy.allowPatch = true ∨ patchNodes board existing = []) ∧
    (policy.allowDelete = true ∨ deleteNodes board existing = []) ∧
    (policy.allowUnwire = true ∨ deleteWires board existing = []) := by
  unfold unconsented
  cases policy.allowPatch <;> cases policy.allowDelete <;> cases policy.allowUnwire <;>
    simp [and_assoc]

/-- The second stage refuses what a consent other than that to wires lifts. -/
theorem isConsent_unconsented {r : Refusal} (h : r ∈ unconsented board existing policy) :
    r.isConsent = true ∧ r.isWire = false := by
  simp only [unconsented, List.mem_append] at h
  rcases h with (h | h) | h
  all_goals
    split at h
    · cases h
    · obtain ⟨a, -, rfl⟩ := List.mem_map.mp h
      exact ⟨rfl, rfl⟩

theorem unwired_eq_nil_iff : unwired board existing policy = [] ↔
    policy.allowWire = true ∨ ∀ w ∈ createWires board existing, touched existing w = [] := by
  unfold unwired
  cases policy.allowWire with
  | true => simp
  | false => simp [List.filterMap_eq_nil_iff]

/-- The third stage refuses what a consent to wires lifts. -/
theorem isWire_unwired {r : Refusal} (h : r ∈ unwired board existing policy) :
    r.isWire = true := by
  unfold unwired at h
  split at h
  · cases h
  · obtain ⟨w, -, h⟩ := List.mem_filterMap.mp h
    split at h
    · cases h
    · cases h
      rfl

/-- The flags of a consent to the refusals of the second stage permit what it
refused, and nothing about wires. -/
theorem unconsented_allowing {c : Consent}
    (h : Consent.of (unconsented board existing policy) = some c) :
    unconsented board existing (policy.allowing c.grant) = [] ∧
      (policy.allowing c.grant).allowWire = policy.allowWire := by
  obtain ⟨hp, hw, hd, hu⟩ := mem_grant h
  constructor
  · rw [unconsented_eq_nil_iff]
    simp only [ApplyPolicy.allowing, Bool.or_eq_true, decide_eq_true_eq, hp, hd, hu]
    refine ⟨?_, ?_, ?_⟩
    · by_cases ha : policy.allowPatch = true
      · exact .inl (.inl ha)
      by_cases hn : patchNodes board existing = []
      · exact .inr hn
      obtain ⟨p, hmem⟩ := List.exists_mem_of_ne_nil _ hn
      refine .inl (.inr ⟨.patchNotPermitted p.name, ?_, rfl⟩)
      rw [unconsented, if_neg ha]
      exact List.mem_append_left _ (List.mem_append_left _ (List.mem_map_of_mem hmem))
    · by_cases ha : policy.allowDelete = true
      · exact .inl (.inl ha)
      by_cases hn : deleteNodes board existing = []
      · exact .inr hn
      obtain ⟨d, hmem⟩ := List.exists_mem_of_ne_nil _ hn
      refine .inl (.inr ⟨.deleteNotPermitted d.name d.nodeType, ?_, rfl⟩)
      rw [unconsented, if_neg ha]
      exact List.mem_append_left _ (List.mem_append_right _ (List.mem_map_of_mem hmem))
    · by_cases ha : policy.allowUnwire = true
      · exact .inl (.inl ha)
      by_cases hn : deleteWires board existing = []
      · exact .inr hn
      obtain ⟨w, hmem⟩ := List.exists_mem_of_ne_nil _ hn
      refine .inl (.inr ⟨.unwireNotPermitted w.source w.target w.wireType, ?_, rfl⟩)
      rw [unconsented, if_neg ha]
      exact List.mem_append_right _ (List.mem_map_of_mem hmem)
  · have hnot : "allow_wire" ∉ c.grant := by
      rw [hw]
      rintro ⟨r, hr, hrw⟩
      rw [(isConsent_unconsented hr).2] at hrw
      cases hrw
    simp [ApplyPolicy.allowing, hnot]

/-- Every stage of `validate` passes. -/
theorem validate_eq_ok_iff {plan : Plan} : validate board existing policy = .ok plan ↔
    ¬ (maxNodes < nodeCount board ∨ maxWires < wireCount board) ∧ illegal board existing = [] ∧
    unconsented board existing policy = [] ∧ unwired board existing policy = [] ∧
    plan = { createNodes := createNodes board existing
             patchNodes := patchNodes board existing
             createWires := createWires board existing
             deleteWires := deleteWires board existing
             deleteNodes := deleteNodes board existing } := by
  unfold validate
  split
  · rename_i h
    constructor
    · exact fun hv => nomatch hv
    · exact fun hv => absurd h hv.1
  rename_i hsize
  split
  · rename_i h
    constructor
    · exact fun hv => nomatch hv
    · exact fun hv => absurd hv.2.1 h
  rename_i hill
  split
  · rename_i h
    constructor
    · exact fun hv => nomatch hv
    · exact fun hv => absurd hv.2.2.1 h
  rename_i hun
  split
  · rename_i h
    constructor
    · exact fun hv => nomatch hv
    · exact fun hv => absurd hv.2.2.2.1 h
  rename_i hw
  constructor
  · intro hv
    injection hv with hv
    exact ⟨hsize, not_not.mp hill, not_not.mp hun, not_not.mp hw, hv.symm⟩
  · rintro ⟨-, -, -, -, rfl⟩
    rfl

/-! ## Consent is sound, and complete but for one case -/

/-- A plan does only what the policy permits. -/
structure Permitted (existing : ExistingBoard) (policy : ApplyPolicy) (plan : Plan) : Prop where
  patch : plan.patchNodes ≠ [] → policy.allowPatch = true
  wire : ∀ w ∈ plan.createWires,
    (existing.get? w.source).isSome ∨ (existing.get? w.target).isSome → policy.allowWire = true
  delete : plan.deleteNodes ≠ [] → policy.allowDelete = true
  unwire : plan.deleteWires ≠ [] → policy.allowUnwire = true

theorem permitted_of_validate {plan : Plan} (h : validate board existing policy = .ok plan) :
    Permitted existing policy plan := by
  obtain ⟨-, -, hc, hw, rfl⟩ := validate_eq_ok_iff.mp h
  obtain ⟨h1, h2, h3⟩ := unconsented_eq_nil_iff.mp hc
  constructor
  · exact fun h => h1.resolve_right h
  · intro w hw' hex
    rcases unwired_eq_nil_iff.mp hw with hw | hw
    · exact hw
    · exfalso
      have hnil := hw w hw'
      simp only [touched, List.filter_eq_nil_iff, List.mem_cons, List.not_mem_nil, or_false,
        forall_eq_or_imp, forall_eq] at hnil
      exact hex.elim hnil.1 hnil.2
  · exact fun h => h2.resolve_right h
  · exact fun h => h3.resolve_right h

variable (board existing policy)

/-- A consent that is offered lets the same board through. -/
def ConsentComplete : Prop :=
  ∀ refusals c, validate board existing policy = .error refusals →
    Consent.of refusals = some c →
    ∃ plan, validate board existing (policy.allowing c.grant) = .ok plan

/-- Some patch, deletion or unwiring lacks its consent. -/
def LacksConsent : Prop :=
  policy.allowPatch = false ∧ patchNodes board existing ≠ [] ∨
    policy.allowDelete = false ∧ deleteNodes board existing ≠ [] ∨
    policy.allowUnwire = false ∧ deleteWires board existing ≠ []

/-- A legal board in which a change lacks its consent while a new wire attaches to
an existing node without the consent to that. -/
def IsMasked : Prop :=
  ¬ (maxNodes < nodeCount board ∨ maxWires < wireCount board) ∧ illegal board existing = [] ∧
    LacksConsent board existing policy ∧ policy.allowWire = false ∧
    ∃ w ∈ createWires board existing, touched existing w ≠ []

instance : Decidable (LacksConsent board existing policy) :=
  inferInstanceAs (Decidable
    (policy.allowPatch = false ∧ patchNodes board existing ≠ [] ∨
      policy.allowDelete = false ∧ deleteNodes board existing ≠ [] ∨
      policy.allowUnwire = false ∧ deleteWires board existing ≠ []))

instance : Decidable (IsMasked board existing policy) :=
  inferInstanceAs (Decidable
    (¬ (maxNodes < nodeCount board ∨ maxWires < wireCount board) ∧ illegal board existing = [] ∧
      LacksConsent board existing policy ∧ policy.allowWire = false ∧
      ∃ w ∈ createWires board existing, touched existing w ≠ []))

variable {board existing policy}

theorem isMasked_iff : IsMasked board existing policy ↔
    ¬ (maxNodes < nodeCount board ∨ maxWires < wireCount board) ∧ illegal board existing = [] ∧
      unconsented board existing policy ≠ [] ∧ unwired board existing policy ≠ [] := by
  simp only [IsMasked, LacksConsent, ne_eq, unconsented_eq_nil_iff, unwired_eq_nil_iff,
    not_and_or, not_or, Bool.not_eq_true, not_forall, exists_prop]

theorem consentComplete_of_not_isMasked (h : ¬ IsMasked board existing policy) :
    ConsentComplete board existing policy := by
  intro refusals c hv hc
  unfold validate at hv
  split at hv
  · cases hv
    cases hc
  rename_i hsize
  split at hv
  · rename_i hill
    cases hv
    obtain ⟨r, hr⟩ := List.exists_mem_of_ne_nil _ hill
    obtain ⟨d, hd, -⟩ := Option.bind_eq_some_iff.mp hc
    rw [foldlM_note_eq_none hr (isConsent_illegal hr)] at hd
    cases hd
  rename_i hill
  rw [not_not] at hill
  split at hv
  · rename_i hun
    cases hv
    have hwired : unwired board existing policy = [] := by
      by_contra hw
      exact h (isMasked_iff.mpr ⟨hsize, hill, hun, hw⟩)
    obtain ⟨hnil, hsame⟩ := unconsented_allowing hc
    refine ⟨_, validate_eq_ok_iff.mpr ⟨hsize, hill, hnil, ?_, rfl⟩⟩
    rw [unwired_eq_nil_iff, hsame, ← unwired_eq_nil_iff]
    exact hwired
  rename_i hun
  rw [not_not] at hun
  split at hv
  · rename_i hw
    cases hv
    refine ⟨_, validate_eq_ok_iff.mpr ⟨hsize, hill, ?_, ?_, rfl⟩⟩
    · rw [unconsented_eq_nil_iff] at hun ⊢
      simp only [ApplyPolicy.allowing, Bool.or_eq_true]
      exact ⟨hun.1.imp .inl id, hun.2.1.imp .inl id, hun.2.2.imp .inl id⟩
    · rw [unwired_eq_nil_iff]
      left
      obtain ⟨r, hr⟩ := List.exists_mem_of_ne_nil _ hw
      have hmem := (mem_grant hc).2.1.mpr ⟨r, hr, isWire_unwired hr⟩
      simp [ApplyPolicy.allowing, hmem]
  · cases hv

theorem not_isMasked_of_consentComplete (h : ConsentComplete board existing policy) :
    ¬ IsMasked board existing policy := by
  intro hm
  obtain ⟨hsize, hill, hun, hw⟩ := isMasked_iff.mp hm
  have hv : validate board existing policy = .error (unconsented board existing policy) := by
    rw [validate, if_neg hsize, if_neg (not_not.mpr hill), if_pos hun]
  obtain ⟨c, hc⟩ := exists_consent (fun r hr => (isConsent_unconsented hr).1) hun
  obtain ⟨plan, hplan⟩ := h _ c hv hc
  obtain ⟨-, -, -, hnil, -⟩ := validate_eq_ok_iff.mp hplan
  rw [unwired_eq_nil_iff, (unconsented_allowing hc).2, ← unwired_eq_nil_iff] at hnil
  exact hw hnil

/-- A plan does only what is permitted; and the consent that is offered lets the
board through exactly when no other change hides a new wire that lacks its own. -/
theorem consent_iff (board : EmittedBoard) (existing : ExistingBoard) (policy : ApplyPolicy) :
    ((∀ plan, validate board existing policy = .ok plan → Permitted existing policy plan) ∧
      ConsentComplete board existing policy) ↔ ¬ IsMasked board existing policy := by
  constructor
  · exact fun h => not_isMasked_of_consentComplete h.2
  · exact fun h => ⟨fun plan hv => permitted_of_validate hv, consentComplete_of_not_isMasked h⟩

end Stages

/-! ## A board whose consent falls short -/

/-- A claude agent with nothing but its prompt. -/
def plainAgent : NodeConfig :=
  .agent ⟨.claude, none, "hi", false, false, none, none, [], none⟩

theorem canon_prompt (t : String) : Json.Canon (.obj [("system_prompt", .str t)]) := by
  simp [Json.Canon, Json.CanonMembers, Json.Ascending]

/-- An agent and a context, not wired. -/
def agentAndCtx : ExistingBoard where
  nodes := ⟨[("a", ⟨1, .agent, .obj [("system_prompt", .str "hi")], canon_prompt "hi"⟩),
    ("c", ⟨2, .ctx, .null, by simp [Json.Canon]⟩)], by decide⟩
  wires := []

/-- The agent with another prompt, and the context wired to it. -/
def improved : EmittedBoard where
  nodes := [⟨"a", plainAgent, .obj [("system_prompt", .str "ho")], ⟨0, 0⟩, none, [],
    canon_prompt "ho"⟩]
  wires := [⟨"c", "a", .send⟩]

/-- The consent to the patch is not the consent to the wire. -/
theorem consent_incomplete : ¬ ∀ board existing policy,
    (∀ plan, validate board existing policy = .ok plan → Permitted existing policy plan) ∧
      ConsentComplete board existing policy := by
  intro h
  have hm : IsMasked improved agentAndCtx {} := by decide +kernel
  exact not_isMasked_of_consentComplete (h improved agentAndCtx {}).2 hm

end Wheel.Api.Apply
