import Wheel.Db.Messages

/-!
# What happens to the rows of the message table

Rows are never deleted and never move: an operation changes the rows where they
stand and adds new ones at the end, in the queue. `Evolves R` says this of two
tables, where `R` relates a row to what became of it. Every operation but the
advance to `delivered` keeps a row out of `delivered` that was not there, and no
operation lets a row leave `undeliverable`.
-/

namespace Wheel

/-- A turn was started on the row. -/
def MessageRow.Started (r : MessageRow) : Prop :=
  r.state = .delivered ∨ r.state = .consumed

namespace Messages

/-- `r'` is what became of `r`: the columns of its address are the same, and a
row that was set aside stays so. -/
structure Follows (r r' : MessageRow) : Prop where
  id : r'.id = r.id
  toId : r'.toId = r.toId
  fromKind : r'.fromKind = r.fromKind
  final : r.state = .undeliverable → r'.state = .undeliverable

/-- `r'` became of `r` and no turn was started on it in between. -/
structure Kept (r r' : MessageRow) : Prop extends Follows r r' where
  delivered : r'.state = .delivered → r.state = .delivered
  started : r'.Started → r.Started

/-- The rows of `t` became the first rows of `t'`, and no turn was started on the others. -/
structure Evolves (R : MessageRow → MessageRow → Prop) (t t' : MessageTable) : Prop where
  old : ∀ {i : ℕ} {r}, t.rows[i]? = some r → ∃ r', t'.rows[i]? = some r' ∧ R r r'
  new : ∀ {i : ℕ} {r'}, t.rows[i]? = none → t'.rows[i]? = some r' → ¬ r'.Started

theorem Follows.refl (r : MessageRow) : Follows r r := ⟨rfl, rfl, rfl, fun h => h⟩

theorem Follows.trans {r r' r'' : MessageRow} (h : Follows r r') (h' : Follows r' r'') :
    Follows r r'' :=
  ⟨h'.id.trans h.id, h'.toId.trans h.toId, h'.fromKind.trans h.fromKind,
    fun hr => h'.final (h.final hr)⟩

theorem Kept.refl (r : MessageRow) : Kept r r := ⟨.refl r, id, id⟩

theorem Kept.trans {r r' r'' : MessageRow} (h : Kept r r') (h' : Kept r' r'') : Kept r r'' :=
  ⟨h.toFollows.trans h'.toFollows, fun hr => h.delivered (h'.delivered hr),
    fun hr => h.started (h'.started hr)⟩

/-- A write of the state column that starts no turn. -/
theorem Kept.of_state {r r' : MessageRow} (hid : r'.id = r.id) (hto : r'.toId = r.toId)
    (hfrom : r'.fromKind = r.fromKind)
    (hstate : r'.state = r.state ∨ r.state = .delivered ∧ r'.state ≠ .undeliverable ∧
      r'.state ≠ .delivered ∨ r'.state = .undeliverable) : Kept r r' := by
  refine ⟨⟨hid, hto, hfrom, ?_⟩, ?_, ?_⟩
  · rcases hstate with h | ⟨h, -, -⟩ | h
    · rw [h]
      exact id
    · rw [h]
      intro h'
      cases h'
    · exact fun _ => h
  · rcases hstate with h | ⟨-, -, h⟩ | h
    · rw [h]
      exact id
    · exact fun h' => absurd h' h
    · rw [h]
      intro h'
      cases h'
  · unfold MessageRow.Started
    rcases hstate with h | ⟨h, -, -⟩ | h
    · rw [h]
      exact id
    · exact fun _ => .inl h
    · rw [h]
      rintro (h' | h') <;> cases h'

/-! ## The rules -/

theorem not_started_of_queued {r : MessageRow} (h : r.state = .queued) : ¬ r.Started := by
  unfold MessageRow.Started
  simp [h]

section Evolves

variable {R : MessageRow → MessageRow → Prop} {t t' t'' : MessageTable}

theorem Evolves.mono {S : MessageRow → MessageRow → Prop} (h : ∀ r r', R r r' → S r r')
    (ht : Evolves R t t') : Evolves S t t' where
  old hr := (ht.old hr).imp fun r' hr' => ⟨hr'.1, h _ r' hr'.2⟩
  new := ht.new

theorem Evolves.refl (h : ∀ r, R r r) (t : MessageTable) : Evolves R t t where
  old hr := ⟨_, hr, h _⟩
  new hr hr' := by
    rw [hr] at hr'
    cases hr'

/-- Two changes make one. -/
theorem Evolves.trans (h : Evolves Kept t t') (h' : Evolves Kept t' t'') :
    Evolves Kept t t'' where
  old hr := by
    obtain ⟨r', hr', hk⟩ := h.old hr
    obtain ⟨r'', hr'', hk'⟩ := h'.old hr'
    exact ⟨r'', hr'', hk.trans hk'⟩
  new {i r''} hr hr'' := by
    cases hr' : t'.rows[i]? with
    | none => exact h'.new hr' hr''
    | some r' =>
        obtain ⟨q, hq, hk⟩ := h'.old hr'
        rw [hr''] at hq
        obtain rfl := Option.some.inj hq
        exact fun hs => h.new hr hr' (hk.started hs)

theorem evolves_updateWhere (hrefl : ∀ r, R r r) {p : MessageRow → Bool}
    {f : MessageRow → MessageRow} {hf : ∀ r, (f r).id = r.id}
    (h : ∀ r ∈ t.rows, p r = true → R r (f r)) : Evolves R t (t.updateWhere p f hf) where
  old {i r} hr := by
    refine ⟨if p r then f r else r, ?_, ?_⟩
    · rw [Keyed.rows_updateWhere, List.getElem?_map, hr]
      rfl
    · split
      · rename_i hp
        exact h r (List.mem_of_getElem? hr) hp
      · exact hrefl r
  new {i r'} hr hr' := by
    rw [Keyed.rows_updateWhere, List.getElem?_map, hr] at hr'
    cases hr'

theorem evolves_modify (hrefl : ∀ r, R r r) {id : Uuid} {f : MessageRow → MessageRow}
    {hf : ∀ r, (f r).id = r.id} (h : ∀ r, t.get? id = some r → R r (f r)) :
    Evolves R t (t.modify id f hf) := by
  apply evolves_updateWhere hrefl
  intro r hr hid
  exact h r (Keyed.get?_eq_some_iff.mpr ⟨hr, by simpa using hid⟩)

theorem evolves_insert (hrefl : ∀ r, R r r) {row : MessageRow} (h : t.insert row = some t')
    (hrow : row.state = .queued) : Evolves R t t' := by
  obtain ⟨-, hrows⟩ := Keyed.insert_eq_some_iff.mp h
  constructor
  · intro i r hr
    refine ⟨r, ?_, hrefl r⟩
    rw [hrows, List.getElem?_append_left (List.getElem?_eq_some_iff.mp hr).1, hr]
  · intro i r' hr hr'
    rw [hrows, List.getElem?_append_right (List.getElem?_eq_none_iff.mp hr)] at hr'
    obtain rfl := List.mem_singleton.mp (List.mem_of_getElem? hr')
    exact not_started_of_queued hrow

/-- What became of the row of an id. -/
theorem Evolves.get? (h : Evolves Follows t t') {id : Uuid} {r : MessageRow}
    (hr : t.get? id = some r) : ∃ r', t'.get? id = some r' ∧ Follows r r' := by
  obtain ⟨hmem, hid⟩ := Keyed.get?_eq_some_iff.mp hr
  obtain ⟨i, hi⟩ := List.mem_iff_getElem?.mp hmem
  obtain ⟨r', hr', hf⟩ := h.old hi
  exact ⟨r', Keyed.get?_eq_some_iff.mpr ⟨List.mem_of_getElem? hr', hf.id.trans hid⟩, hf⟩

/-- Where a row on which a turn was started comes from. -/
theorem Evolves.of_started (h : Evolves R t t') {r' : MessageRow} (hr' : r' ∈ t'.rows)
    (hs : r'.Started) : ∃ r ∈ t.rows, R r r' := by
  obtain ⟨i, hi⟩ := List.mem_iff_getElem?.mp hr'
  cases hr : t.rows[i]? with
  | none => exact absurd hs (h.new hr hi)
  | some r =>
      obtain ⟨q, hq, hR⟩ := h.old hr
      rw [hi] at hq
      obtain rfl := Option.some.inj hq
      exact ⟨r, List.mem_of_getElem? hr, hR⟩

end Evolves

theorem Evolves.follows {t t' : MessageTable} (h : Evolves Kept t t') : Evolves Follows t t' :=
  h.mono fun _ _ hk => hk.toFollows

/-- The message is there, and it is addressed to the agent. -/
def Addressed (t : MessageTable) (m a : Uuid) : Prop := ∃ r, t.get? m = some r ∧ r.toId = a

/-- A message is addressed to one agent. -/
theorem Addressed.unique {t : MessageTable} {m a b : Uuid} (h : Addressed t m a)
    (h' : Addressed t m b) : a = b := by
  obtain ⟨r, hr, rfl⟩ := h
  obtain ⟨r', hr', rfl⟩ := h'
  rw [hr] at hr'
  cases hr'
  rfl

theorem Addressed.evolves {t t' : MessageTable} {m a : Uuid} (h : Addressed t m a)
    (he : Evolves Follows t t') : Addressed t' m a := by
  obtain ⟨r, hr, hto⟩ := h
  obtain ⟨r', hr', hf⟩ := he.get? hr
  exact ⟨r', hr', hf.toId.trans hto⟩

/-! ## The operations -/

variable (t : MessageTable)

theorem evolves_enqueue {t t' : MessageTable} {row : MessageRow}
    (h : enqueue t row = some t') : Evolves Kept t t' :=
  evolves_insert Kept.refl h rfl

/-- A write that leaves the address and the state of every row. -/
theorem evolves_of_state_eq {p : MessageRow → Bool} {f : MessageRow → MessageRow}
    {hf : ∀ r, (f r).id = r.id} (hto : ∀ r, (f r).toId = r.toId)
    (hfrom : ∀ r, (f r).fromKind = r.fromKind) (hstate : ∀ r, (f r).state = r.state) :
    Evolves Kept t (t.updateWhere p f hf) :=
  evolves_updateWhere Kept.refl fun r _ _ =>
    .of_state (hf r) (hto r) (hfrom r) (.inl (hstate r))

theorem evolves_requestNotification (id : Uuid) : Evolves Kept t (requestNotification t id) := by
  apply evolves_of_state_eq <;> exact fun _ => rfl

theorem evolves_claimNotification (id : Uuid) : Evolves Kept t (claimNotification t id).1 := by
  apply evolves_of_state_eq <;> exact fun _ => rfl

theorem evolves_setLastError (id : Uuid) (err : String) :
    Evolves Kept t (setLastError t id err) := by
  apply evolves_of_state_eq <;> exact fun _ => rfl

theorem evolves_quarantine (id : Uuid) (reason : String) :
    Evolves Kept t (quarantine t id reason) := by
  apply evolves_modify Kept.refl
  exact fun r _ => .of_state rfl rfl rfl (.inr (.inr rfl))

theorem kept_requeueRow {r : MessageRow} (hr : r.state = .delivered) (reason : String) :
    Kept r (requeueRow reason r) :=
  .of_state rfl rfl rfl (.inr (.inl ⟨hr, nofun, nofun⟩))

theorem evolves_requeueUndelivered (id : Uuid) (reason : String) :
    Evolves Kept t (requeueUndelivered t id reason) := by
  apply evolves_updateWhere Kept.refl
  exact fun r _ hr => kept_requeueRow (by simp_all) reason

theorem evolves_requeueAllUndelivered (node : Uuid) (reason : String) :
    Evolves Kept t (requeueAllUndelivered t node reason) := by
  apply evolves_updateWhere Kept.refl
  exact fun r _ hr => kept_requeueRow (by simp_all) reason

theorem evolves_consumeAllDeliveredAsInterrupted (node : Uuid) (reason : String)
    (now : Timestamp) :
    Evolves Kept t (consumeAllDeliveredAsInterrupted t node reason now) := by
  apply evolves_updateWhere Kept.refl
  exact fun r _ hr => .of_state rfl rfl rfl (.inr (.inl ⟨by simp_all, nofun, nofun⟩))

/-- What `advance` writes. -/
theorem advance_eq_ok {t t' : MessageTable} {id : Uuid} {next : MessageState}
    {now : Timestamp} (h : advance t id next now = .ok t') :
    ∃ r f, ∃ hf : ∀ r, (f r).id = r.id, t.get? id = some r ∧
      r.state.canAdvanceTo next = true ∧ t' = t.modify id f hf ∧
      (∀ r, (f r).toId = r.toId ∧ (f r).fromKind = r.fromKind ∧ (f r).state = next) := by
  unfold advance at h
  split at h
  · cases h
  · rename_i r hr
    split at h
    · cases h
    · rename_i hcan
      split at h
      · obtain rfl := Except.ok.inj h
        exact ⟨r, _, _, hr, by simpa using hcan, rfl, fun _ => ⟨rfl, rfl, rfl⟩⟩
      · obtain rfl := Except.ok.inj h
        exact ⟨r, _, _, hr, by simpa using hcan, rfl, fun _ => ⟨rfl, rfl, rfl⟩⟩
      · cases h
      · cases h

theorem evolves_advance_consumed {t t' : MessageTable} {id : Uuid} {now : Timestamp}
    (h : advance t id .consumed now = .ok t') : Evolves Kept t t' := by
  obtain ⟨r, f, hf, hr, hcan, rfl, hfields⟩ := advance_eq_ok h
  apply evolves_modify Kept.refl
  intro q hq
  rw [hr] at hq
  obtain rfl := Option.some.inj hq
  obtain ⟨hto, hfrom, hstate⟩ := hfields r
  refine .of_state (hf r) hto hfrom (.inr (.inl ⟨?_, by rw [hstate]; decide, by rw [hstate]; decide⟩))
  exact (MessageState.canAdvanceTo_consumed_iff _).mp hcan

theorem evolves_markError (id : Uuid) (err : String) (now : Timestamp) :
    Evolves Kept t (markError t id err now) := by
  unfold markError
  have hadv : Evolves Kept t (advanceOrKeep t id .consumed now) := by
    unfold advanceOrKeep
    split
    · rename_i t' h
      exact evolves_advance_consumed h
    · exact .refl Kept.refl t
  exact hadv.trans (by apply evolves_of_state_eq <;> exact fun _ => rfl)

theorem evolves_complete (id : Uuid) (result : Option String) (now : Timestamp) :
    Evolves Kept t (complete t id result now).1 := by
  unfold complete
  split
  · exact .refl Kept.refl t
  · rename_i t' h
    exact (evolves_advance_consumed h).trans
      (by apply evolves_of_state_eq <;> exact fun _ => rfl)

theorem evolves_requeueForLimit (id : Uuid) (reason : String) (cap : ℕ) :
    Evolves Kept t (requeueForLimit t id reason cap).1 := by
  unfold requeueForLimit
  split
  · exact .refl Kept.refl t
  · rename_i r hr
    split
    · exact .refl Kept.refl t
    · rename_i hs
      split
      · exact .refl Kept.refl t
      · apply evolves_modify Kept.refl
        · intro q hq
          rw [hr] at hq
          obtain rfl := Option.some.inj hq
          exact .of_state rfl rfl rfl (.inr (.inl ⟨by simpa using hs, nofun, nofun⟩))
        · exact fun _ => rfl

/-- An advance to `delivered` touches the row of its id only. -/
theorem evolves_advanceOrKeep_delivered (id : Uuid) (now : Timestamp) :
    Evolves (fun r r' => Follows r r' ∧ (r.id ≠ id → r' = r)) t
      (advanceOrKeep t id .delivered now) := by
  have hrefl : ∀ r : MessageRow, Follows r r ∧ (r.id ≠ id → r = r) :=
    fun r => ⟨.refl r, fun _ => rfl⟩
  unfold advanceOrKeep
  split
  · rename_i t' h
    obtain ⟨r, f, hf, hr, hcan, rfl, hfields⟩ := advance_eq_ok h
    apply evolves_modify hrefl
    intro q hq
    rw [hr] at hq
    obtain rfl := Option.some.inj hq
    obtain ⟨hto, hfrom, hstate⟩ := hfields r
    refine ⟨⟨hf r, hto, hfrom, ?_⟩, ?_⟩
    · intro hu
      rw [hu] at hcan
      cases hcan
    · exact fun hne => absurd (Keyed.get?_eq_some_iff.mp hr).2 hne
  · exact .refl hrefl t

/-! ## Messages that are not delivered -/

/-- No row of the id is `delivered`. -/
def Cleared (t : MessageTable) (id : Uuid) : Prop :=
  ∀ r ∈ t.rows, r.id = id → r.state ≠ .delivered

section Cleared

variable {t t' : MessageTable} {id : Uuid}

theorem cleared_of_get? (h : ∀ r, t.get? id = some r → r.state ≠ .delivered) : Cleared t id :=
  fun r hr hid => h r (Keyed.get?_eq_some_iff.mpr ⟨hr, hid⟩)

theorem Cleared.evolves (h : Cleared t id) (he : Evolves Kept t t') : Cleared t' id := by
  intro r' hr' hid hs
  obtain ⟨r, hr, hk⟩ := he.of_started hr' (.inl hs)
  exact h r hr (hk.id ▸ hid) (hk.delivered hs)

/-- A row that was rewritten to another state is not delivered. -/
theorem cleared_modify {f : MessageRow → MessageRow} {hf : ∀ r, (f r).id = r.id}
    (h : ∀ r, (f r).state ≠ .delivered) : Cleared (t.modify id f hf) id := by
  apply cleared_of_get?
  intro r' hr'
  rw [Keyed.get?_modify, if_pos rfl, Option.map_eq_some_iff] at hr'
  obtain ⟨r, -, rfl⟩ := hr'
  exact h r

/-- A message that cannot be consumed is not delivered. -/
theorem cleared_of_advance_error {now : Timestamp} {e : StateError}
    (h : advance t id .consumed now = .error e) : Cleared t id := by
  apply cleared_of_get?
  intro r hr hs
  have hcan := (MessageState.canAdvanceTo_consumed_iff r.state).mpr hs
  rw [advance, hr] at h
  simp [hcan] at h

theorem cleared_of_advance_ok {now : Timestamp} (h : advance t id .consumed now = .ok t') :
    Cleared t' id := by
  obtain ⟨r, f, hf, -, -, rfl, hfields⟩ := advance_eq_ok h
  apply cleared_modify
  intro q
  rw [(hfields q).2.2]
  decide

theorem cleared_markError (t : MessageTable) (id : Uuid) (err : String) (now : Timestamp) :
    Cleared (markError t id err now) id := by
  have hadv : Cleared (advanceOrKeep t id .consumed now) id := by
    unfold advanceOrKeep
    split
    · rename_i t' h
      exact cleared_of_advance_ok h
    · rename_i e h
      exact cleared_of_advance_error h
  exact hadv.evolves (by apply evolves_of_state_eq <;> exact fun _ => rfl)

theorem cleared_complete (t : MessageTable) (id : Uuid) (result : Option String)
    (now : Timestamp) : Cleared (complete t id result now).1 id := by
  unfold complete
  split
  · rename_i e h
    exact cleared_of_advance_error h
  · rename_i t' h
    exact (cleared_of_advance_ok h).evolves
      (by apply evolves_of_state_eq <;> exact fun _ => rfl)

/-- A guarded write leaves no row that the guard would let through. -/
theorem not_delivered_updateWhere {p : MessageRow → Bool} {f : MessageRow → MessageRow}
    {hf : ∀ r, (f r).id = r.id} (h : ∀ r, (f r).state ≠ .delivered) {r' : MessageRow}
    (hr' : r' ∈ (t.updateWhere p f hf).rows) (hs : r'.state = .delivered) : p r' = false := by
  rw [Keyed.rows_updateWhere, List.mem_map] at hr'
  obtain ⟨r, -, rfl⟩ := hr'
  split at hs
  · exact absurd hs (h r)
  · rename_i hp
    rw [if_neg hp]
    simpa using hp

theorem cleared_requeueUndelivered (t : MessageTable) (id : Uuid) (reason : String) :
    Cleared (requeueUndelivered t id reason) id := by
  intro r' hr' hid hs
  have hp := not_delivered_updateWhere (fun r => by simp [requeueRow]) hr' hs
  simp [hid, hs] at hp

theorem requeueAllUndelivered_cleared (t : MessageTable) (node : Uuid) (reason : String)
    {r' : MessageRow} (hr' : r' ∈ (requeueAllUndelivered t node reason).rows)
    (hto : r'.toId = node) : r'.state ≠ .delivered := by
  intro hs
  have hp := not_delivered_updateWhere (fun r => by simp [requeueRow]) hr' hs
  simp [hto, hs] at hp

theorem consumeAllDeliveredAsInterrupted_cleared (t : MessageTable) (node : Uuid)
    (reason : String) (now : Timestamp) {r' : MessageRow}
    (hr' : r' ∈ (consumeAllDeliveredAsInterrupted t node reason now).rows)
    (hto : r'.toId = node) : r'.state ≠ .delivered := by
  intro hs
  have hp := not_delivered_updateWhere (fun r => by simp) hr' hs
  simp [hto, hs] at hp

theorem cleared_requeueForLimit {reason : String} {cap done : ℕ}
    (h : requeueForLimit t id reason cap = (t', .requeued done)) : Cleared t' id := by
  unfold requeueForLimit at h
  split at h
  · cases h
  · split at h
    · cases h
    · split at h
      · cases h
      · cases h
        exact cleared_modify fun r => by simp [requeueRow]

theorem cleared_of_notDelivered {reason : String} {cap : ℕ}
    (h : requeueForLimit t id reason cap = (t', .notDelivered)) : Cleared t' id := by
  unfold requeueForLimit at h
  split at h
  · rename_i hnone
    cases h
    exact cleared_of_get? fun r hr => by rw [hnone] at hr; cases hr
  · rename_i r hr
    split at h
    · rename_i hs
      cases h
      refine cleared_of_get? fun q hq => ?_
      rw [hr] at hq
      obtain rfl := Option.some.inj hq
      exact hs
    · split at h <;> cases h

end Cleared

/-! ## Who waits -/

/-- Of the agents for whom no message was queued, one is for those in `P` at most. -/
def Waits (P : Uuid → Prop) (t t' : MessageTable) : Prop :=
  ∀ a, hasQueued t' a = true → hasQueued t a = true ∨ P a

section Waits

variable {P : Uuid → Prop} {t t' t'' : MessageTable}

theorem hasQueued_iff {a : Uuid} :
    hasQueued t a = true ↔ ∃ r ∈ t.rows, r.toId = a ∧ r.state = .queued := by
  simp [hasQueued]

theorem Waits.refl (P : Uuid → Prop) (t : MessageTable) : Waits P t t := fun _ h => .inl h

theorem Waits.trans (h : Waits P t t') (h' : Waits P t' t'') : Waits P t t'' := by
  intro a ha
  rcases h' a ha with ha | ha
  · exact h a ha
  · exact .inr ha

theorem Waits.mono {Q : Uuid → Prop} (hPQ : ∀ a, P a → Q a) (h : Waits P t t') :
    Waits Q t t' := fun a ha => (h a ha).imp_right (hPQ a)

/-- A write that queues only rows of agents in `P`. -/
theorem waits_updateWhere {p : MessageRow → Bool} {f : MessageRow → MessageRow}
    {hf : ∀ r, (f r).id = r.id} (hto : ∀ r, (f r).toId = r.toId)
    (h : ∀ r ∈ t.rows, p r = true → (f r).state = .queued → r.state = .queued ∨ P r.toId) :
    Waits P t (t.updateWhere p f hf) := by
  intro a ha
  obtain ⟨r', hr', hra, hs⟩ := hasQueued_iff.mp ha
  rw [Keyed.rows_updateWhere, List.mem_map] at hr'
  obtain ⟨r, hr, rfl⟩ := hr'
  split at hra
  · rename_i hp
    rw [if_pos hp] at hs
    rw [hto] at hra
    subst hra
    rcases h r hr hp hs with hq | hP
    · exact .inl (hasQueued_iff.mpr ⟨r, hr, rfl, hq⟩)
    · exact .inr hP
  · rename_i hp
    rw [if_neg hp] at hs
    exact .inl (hasQueued_iff.mpr ⟨r, hr, hra, hs⟩)

/-- A write that queues nothing. -/
theorem waits_of_not_queued {p : MessageRow → Bool} {f : MessageRow → MessageRow}
    {hf : ∀ r, (f r).id = r.id} (hto : ∀ r, (f r).toId = r.toId)
    (h : ∀ r, (f r).state = .queued → r.state = .queued) :
    Waits P t (t.updateWhere p f hf) :=
  waits_updateWhere hto fun r _ _ hs => .inl (h r hs)

theorem waits_enqueue {row : MessageRow} (h : enqueue t row = some t') (hP : P row.toId) :
    Waits P t t' := by
  obtain ⟨-, hrows⟩ := Keyed.insert_eq_some_iff.mp h
  intro a ha
  obtain ⟨r, hr, hra, hs⟩ := hasQueued_iff.mp ha
  rw [hrows, List.mem_append, List.mem_singleton] at hr
  rcases hr with hr | rfl
  · exact .inl (hasQueued_iff.mpr ⟨r, hr, hra, hs⟩)
  · exact .inr (hra ▸ hP)

theorem waits_advanceOrKeep (id : Uuid) {next : MessageState} (hnext : next ≠ .queued)
    (now : Timestamp) : Waits P t (advanceOrKeep t id next now) := by
  unfold advanceOrKeep
  split
  · rename_i t' h
    obtain ⟨r, f, hf, -, -, rfl, hfields⟩ := advance_eq_ok h
    apply waits_of_not_queued (fun r => (hfields r).1)
    intro r hs
    rw [(hfields r).2.2] at hs
    exact absurd hs hnext
  · exact .refl P t

theorem waits_markError (id : Uuid) (err : String) (now : Timestamp) :
    Waits P t (markError t id err now) := by
  have hadv := waits_advanceOrKeep (P := P) (t := t) id (nofun : MessageState.consumed ≠ .queued) now
  refine hadv.trans ?_
  apply waits_of_not_queued
  case h => exact fun _ hs => hs
  all_goals exact fun _ => rfl

theorem waits_complete (id : Uuid) (result : Option String) (now : Timestamp) :
    Waits P t (complete t id result now).1 := by
  have hadv := waits_advanceOrKeep (P := P) (t := t) id (nofun : MessageState.consumed ≠ .queued) now
  unfold advanceOrKeep at hadv
  unfold complete
  split
  · exact .refl P t
  · rename_i t' h
    rw [h] at hadv
    refine hadv.trans ?_
    apply waits_of_not_queued
    case h => exact fun _ hs => hs
    all_goals exact fun _ => rfl

theorem waits_requestNotification (id : Uuid) : Waits P t (requestNotification t id) := by
  apply waits_of_not_queued
  case h => exact fun _ hs => hs
  all_goals exact fun _ => rfl

theorem waits_claimNotification (id : Uuid) : Waits P t (claimNotification t id).1 := by
  apply waits_of_not_queued
  case h => exact fun _ hs => hs
  all_goals exact fun _ => rfl

theorem waits_setLastError (id : Uuid) (err : String) : Waits P t (setLastError t id err) := by
  apply waits_of_not_queued
  case h => exact fun _ hs => hs
  all_goals exact fun _ => rfl

theorem waits_quarantine (id : Uuid) (reason : String) :
    Waits P t (quarantine t id reason) := by
  apply waits_of_not_queued
  case h => exact fun _ hs => nomatch hs
  all_goals exact fun _ => rfl

/-- The agent of a message is the one it is addressed to. -/
theorem Addressed.toId_eq {id a : Uuid} (h : Addressed t id a) {r : MessageRow}
    (hr : r ∈ t.rows) (hid : r.id = id) : r.toId = a := by
  obtain ⟨q, hq, hto⟩ := h
  rw [← hid, Keyed.get?_key hr] at hq
  obtain rfl := Option.some.inj hq
  exact hto

theorem waits_requeueUndelivered {id a : Uuid} (ha : Addressed t id a) (hP : P a)
    (reason : String) : Waits P t (requeueUndelivered t id reason) := by
  apply waits_updateWhere
  case h =>
    intro r hr hp _
    simp only [decide_eq_true_eq] at hp
    exact .inr (ha.toId_eq hr hp.1 ▸ hP)
  all_goals exact fun _ => rfl

theorem waits_requeueAllUndelivered {node : Uuid} (reason : String)
    (hP : (∃ r ∈ t.rows, r.toId = node ∧ r.state = .delivered) → P node) :
    Waits P t (requeueAllUndelivered t node reason) := by
  apply waits_updateWhere
  case h =>
    intro r hr hp _
    simp only [decide_eq_true_eq] at hp
    obtain ⟨rfl, hs⟩ := hp
    exact .inr (hP ⟨r, hr, rfl, hs⟩)
  all_goals exact fun _ => rfl

theorem waits_requeueForLimit {id a : Uuid} (ha : Addressed t id a) (hP : P a)
    (reason : String) (cap : ℕ) : Waits P t (requeueForLimit t id reason cap).1 := by
  unfold requeueForLimit
  split
  · exact .refl P t
  · split
    · exact .refl P t
    · split
      · exact .refl P t
      · apply waits_updateWhere
        case h =>
          intro r hr hp _
          exact .inr (ha.toId_eq hr (by simpa using hp) ▸ hP)
        all_goals exact fun _ => rfl

end Waits

/-! ## The pick -/

section Pick

variable {t : MessageTable} {agent : Uuid} {consecutiveUser : ℕ} {now : Timestamp}
  {row : MessageRow}

/-- The picked message is the first of the normal lane, or the first of the user
lane; the latter only while nobody in the normal lane waits or within the burst. -/
theorem nextForDelivery_cases (h : nextForDelivery t agent consecutiveUser now = some row) :
    oldestNormal t agent = some row ∨ userFirst t agent = some row ∧
      (oldestNormal t agent = none ∨ consecutiveUser < userLaneBurst) := by
  unfold nextForDelivery at h
  split at h
  · rename_i m hm
    split at h
    · obtain rfl := Option.some.inj h
      exact .inl hm
    · rename_i hno
      rcases Option.or_eq_some_iff.mp h with hu | ⟨-, hu⟩
      · exact .inr ⟨hu, .inr (by simp_all)⟩
      · obtain rfl := Option.some.inj hu
        exact .inl hm
  · rename_i hm
    exact .inr ⟨h, .inl hm⟩

theorem of_oldestNormal (h : oldestNormal t agent = some row) :
    row ∈ t.rows ∧ row.toId = agent ∧ row.state = .queued ∧ row.fromKind ≠ .user := by
  have hp := List.find?_some h
  simp only [decide_eq_true_eq] at hp
  exact ⟨List.mem_of_find?_eq_some h, hp⟩

theorem of_userFirst (h : userFirst t agent = some row) :
    row ∈ t.rows ∧ row.toId = agent ∧ row.state = .queued ∧ row.fromKind = .user := by
  have hp := List.find?_some h
  simp only [decide_eq_true_eq] at hp
  exact ⟨List.mem_of_find?_eq_some h, hp⟩

/-- The picked message is a queued message of the agent. -/
theorem mem_of_nextForDelivery (h : nextForDelivery t agent consecutiveUser now = some row) :
    row ∈ t.rows ∧ row.toId = agent ∧ row.state = .queued := by
  rcases nextForDelivery_cases h with hn | ⟨hu, -⟩
  · obtain ⟨hmem, hto, hs, -⟩ := of_oldestNormal hn
    exact ⟨hmem, hto, hs⟩
  · obtain ⟨hmem, hto, hs, -⟩ := of_userFirst hu
    exact ⟨hmem, hto, hs⟩

/-- While a message is queued for the agent, one is picked. -/
theorem exists_nextForDelivery (h : hasQueued t agent = true) (n : ℕ) (now : Timestamp) :
    ∃ row, nextForDelivery t agent n now = some row := by
  obtain ⟨r, hr, hto, hs⟩ := hasQueued_iff.mp h
  unfold nextForDelivery
  cases hn : oldestNormal t agent with
  | some m =>
      dsimp only
      split
      · exact ⟨m, rfl⟩
      · cases userFirst t agent with
        | some u => exact ⟨u, rfl⟩
        | none => exact ⟨m, rfl⟩
  | none =>
      have hnormal := List.find?_eq_none.mp hn r hr
      apply Option.isSome_iff_exists.mp
      apply List.find?_isSome.mpr
      refine ⟨r, hr, ?_⟩
      simp_all

/-- While somebody in the normal lane waits, a user-lane message is only picked
within the burst. -/
theorem lt_userLaneBurst_of_pick
    (h : nextForDelivery t agent consecutiveUser now = some row) (hrow : row.fromKind = .user)
    {r : MessageRow} (hr : r ∈ t.rows) (hto : r.toId = agent) (hs : r.state = .queued)
    (hfrom : r.fromKind ≠ .user) : consecutiveUser < userLaneBurst := by
  rcases nextForDelivery_cases h with hn | ⟨-, hnone | hlt⟩
  · exact absurd hrow (of_oldestNormal hn).2.2.2
  · have hno := List.find?_eq_none.mp hnone r hr
    simp [hto, hs, hfrom] at hno
  · exact hlt

/-- The first match of a search stands at or before every match. -/
theorem exists_le_of_find? {l : List MessageRow} {p : MessageRow → Bool} {q : MessageRow}
    (h : l.find? p = some q) {i : ℕ} {r : MessageRow} (hr : l[i]? = some r)
    (hp : p r = true) : ∃ k ≤ i, l[k]? = some q := by
  obtain ⟨-, k, hk, rfl, hfirst⟩ := List.find?_eq_some_iff_getElem.mp h
  refine ⟨k, ?_, List.getElem?_eq_getElem hk⟩
  by_contra hlt
  obtain ⟨hi, rfl⟩ := List.getElem?_eq_some_iff.mp hr
  have hno := hfirst i (by omega)
  rw [hp] at hno
  cases hno

/-- No message of its lane that arrived before the picked one is queued. -/
theorem not_queued_of_pick (h : nextForDelivery t agent consecutiveUser now = some row)
    {i j : ℕ} {r q : MessageRow} (hij : i < j) (hr : t.rows[i]? = some r)
    (hq : t.rows[j]? = some q) (hid : q.id = row.id) (hto : r.toId = agent)
    (hlane : r.fromKind = .user ↔ row.fromKind = .user) : r.state ≠ .queued := by
  intro hs
  have hk : ∃ k ≤ i, t.rows[k]? = some row := by
    rcases nextForDelivery_cases h with hn | ⟨hu, -⟩
    · apply exists_le_of_find? hn hr
      have hnot := (of_oldestNormal hn).2.2.2
      simp [hto, hs, hlane, hnot]
    · apply exists_le_of_find? hu hr
      have huser := (of_userFirst hu).2.2.2
      simp [hto, hs, hlane, huser]
  obtain ⟨k, hki, hk⟩ := hk
  have hjk := Keyed.index_eq_of_key hq hk hid
  omega

end Pick

end Messages

end Wheel
