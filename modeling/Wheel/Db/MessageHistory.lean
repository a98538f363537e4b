import Wheel.Data.Run
import Wheel.Db.Messages

/-!
# Histories of the message table

A history is a sequence of the table's operations, on any messages and in any
order. `HistoryOk` is the contract of the message states over a whole history:
states move forward or from `delivered` back to `queued`, a terminal state is
final, and a message becomes an error only in the step that consumes it.

Two operations write a row whatever its state is. `history_ok_iff` says that
they are the only way to leave the contract: a history keeps it exactly when
`quarantine` is never called on a consumed message and `markError` is only
called on a delivered message or on one that is an error already.
-/

namespace Wheel

open Messages

/-- An operation of the message table. -/
inductive MessageOp where
  | enqueue (id : Uuid) (sender : MessageSender) (target : Uuid) (body sha256 : String)
      (replyTo : Option Uuid) (onBehalfOf : Option String) (now : Timestamp)
  | advance (id : Uuid) (next : MessageState) (now : Timestamp)
  | markError (id : Uuid) (err : String) (now : Timestamp)
  | requeueUndelivered (id : Uuid) (reason : String)
  | requeueAllUndelivered (node : Uuid) (reason : String)
  | consumeAllDeliveredAsInterrupted (node : Uuid) (reason : String) (now : Timestamp)
  | requeueForLimit (id : Uuid) (reason : String) (cap : ℕ)
  | complete (id : Uuid) (result : Option String) (now : Timestamp)
  | requestNotification (id : Uuid)
  | claimNotification (id : Uuid)
  | quarantine (id : Uuid) (reason : String)
  | setLastError (id : Uuid) (err : String)

/-- The table after an operation; one that is refused leaves the table as it is. -/
def MessageOp.apply (t : MessageTable) : MessageOp → MessageTable
  | .enqueue id sender target body sha256 replyTo onBehalfOf now =>
      (Messages.enqueue t
        (newRow id sender target body sha256 replyTo onBehalfOf now)).getD t
  | .advance id next now => advanceOrKeep t id next now
  | .markError id err now => Messages.markError t id err now
  | .requeueUndelivered id reason => Messages.requeueUndelivered t id reason
  | .requeueAllUndelivered node reason => Messages.requeueAllUndelivered t node reason
  | .consumeAllDeliveredAsInterrupted node reason now =>
      Messages.consumeAllDeliveredAsInterrupted t node reason now
  | .requeueForLimit id reason cap => (Messages.requeueForLimit t id reason cap).1
  | .complete id result now => (Messages.complete t id result now).1
  | .requestNotification id => Messages.requestNotification t id
  | .claimNotification id => (Messages.claimNotification t id).1
  | .quarantine id reason => Messages.quarantine t id reason
  | .setLastError id err => Messages.setLastError t id err

/-! ## The contract -/

/-- The changes of state the contract knows, and no change. -/
def MessageState.MayBecome (s s' : MessageState) : Prop :=
  s' = s ∨ s.canAdvanceTo s' = true ∨ s = .delivered ∧ s' = .queued

instance (s s' : MessageState) : Decidable (s.MayBecome s') :=
  inferInstanceAs (Decidable (_ ∨ _))

/-- The states a message never leaves. -/
def MessageState.IsTerminal (s : MessageState) : Prop := s = .consumed ∨ s = .undeliverable

/-- What one operation may do to the row of a message. -/
structure RowChangeOk (r r' : MessageRow) : Prop where
  state : r.state.MayBecome r'.state
  error : r.isError = false → r'.isError = true → r.state ≠ .consumed ∧ r'.state = .consumed

/-- An operation does to every row what it may. -/
def StepOk (t : MessageTable) (op : MessageOp) : Prop :=
  ∀ id r r', t.get? id = some r → (op.apply t).get? id = some r' → RowChangeOk r r'

/-- The contract over a history. -/
structure HistoryOk (t : MessageTable) (ops : List MessageOp) : Prop where
  changes : Run.Always MessageOp.apply StepOk t ops
  terminal : ∀ x y, ops = x ++ y → ∀ id r, (Run.run MessageOp.apply t x).get? id = some r →
    r.state.IsTerminal → ∃ r', (Run.run MessageOp.apply t ops).get? id = some r' ∧
      r'.state = r.state ∧ (r'.isError = true → r.isError = true)

/-- The two operations that do not look at the state are called on messages
whose state allows what they write. -/
def MessageOp.Lawful (t : MessageTable) : MessageOp → Prop
  | .quarantine id _ => ∀ r, t.get? id = some r → r.state ≠ .consumed
  | .markError id _ _ => ∀ r, t.get? id = some r → r.state = .delivered ∨ r.isError = true
  | _ => True

/-! ## One row -/

theorem RowChangeOk.refl (r : MessageRow) : RowChangeOk r r :=
  ⟨.inl rfl, fun h h' => by rw [h] at h'; cases h'⟩

/-- Columns besides the state and the flag do not matter. -/
theorem RowChangeOk.congr {r r' r'' : MessageRow} (h : RowChangeOk r r')
    (hs : r''.state = r'.state) (he : r''.isError = r'.isError) : RowChangeOk r r'' := by
  constructor
  · rw [hs]
    exact h.state
  · rw [hs, he]
    exact h.error

/-- A row that keeps its flag need only change its state lawfully. -/
theorem RowChangeOk.of_state {r r' : MessageRow} (hs : r.state.MayBecome r'.state)
    (he : r'.isError = r.isError) : RowChangeOk r r' :=
  ⟨hs, fun h h' => by rw [he, h] at h'; cases h'⟩

/-- A terminal row keeps its state. -/
theorem RowChangeOk.terminal {r r' : MessageRow} (h : RowChangeOk r r')
    (hr : r.state.IsTerminal) : r'.state = r.state := by
  rcases h.state with hs | hs | ⟨hs, -⟩
  · exact hs
  · rcases hr with hr | hr <;> rw [hr] at hs <;> cases hs' : r'.state <;> rw [hs'] at hs <;>
      cases hs
  · rcases hr with hr | hr <;> rw [hr] at hs <;> cases hs

/-! ## One operation -/

/-- Every row of the table is still there and was changed as it may be. -/
def RowsOk (t t' : MessageTable) : Prop :=
  ∀ id r, t.get? id = some r → ∃ r', t'.get? id = some r' ∧ RowChangeOk r r'

theorem RowsOk.refl (t : MessageTable) : RowsOk t t :=
  fun _ r hr => ⟨r, hr, .refl r⟩

theorem rowsOk_updateWhere {t : MessageTable} {p : MessageRow → Bool}
    {f : MessageRow → MessageRow} {hf : ∀ r, (f r).id = r.id}
    (h : ∀ r, p r = true → RowChangeOk r (f r)) : RowsOk t (t.updateWhere p f hf) := by
  intro id r hr
  refine ⟨if p r then f r else r, by rw [Keyed.get?_updateWhere, hr]; rfl, ?_⟩
  split
  · rename_i hp
    exact h r hp
  · exact .refl r

theorem rowsOk_modify {t : MessageTable} {id : Uuid} {f : MessageRow → MessageRow}
    {hf : ∀ r, (f r).id = r.id} (h : ∀ r, t.get? id = some r → RowChangeOk r (f r)) :
    RowsOk t (t.modify id f hf) := by
  intro k r hr
  rw [Keyed.get?_modify, hr]
  split
  · rename_i hk
    exact ⟨f r, rfl, h r (hk ▸ hr)⟩
  · exact ⟨r, rfl, .refl r⟩

/-- What `advance` does when it does something. -/
theorem get?_of_advance {t t' : MessageTable} {id : Uuid} {next : MessageState}
    {now : Timestamp} (h : advance t id next now = .ok t') :
    ∃ r r', t.get? id = some r ∧ r.state.canAdvanceTo next = true ∧ r'.state = next ∧
      r'.isError = r.isError ∧ ∀ k, t'.get? k = if k = id then some r' else t.get? k := by
  unfold advance at h
  split at h
  · cases h
  · rename_i r hr
    split at h
    · cases h
    · rename_i hcan
      have hcan : r.state.canAdvanceTo next = true := by simpa using hcan
      split at h
      · obtain rfl := Except.ok.inj h
        exact ⟨r, { r with state := .delivered, deliveredAt := some now }, hr, hcan, rfl, rfl,
          Keyed.get?_modify_of_get? hr _ _⟩
      · obtain rfl := Except.ok.inj h
        exact ⟨r, { r with state := .consumed, consumedAt := some now }, hr, hcan, rfl, rfl,
          Keyed.get?_modify_of_get? hr _ _⟩
      · cases h
      · cases h

/-- `advance` succeeds wherever the contract has a timestamp for the step. -/
theorem exists_advance_consumed {t : MessageTable} {id : Uuid} {r : MessageRow}
    (hr : t.get? id = some r) (hs : r.state = .delivered) (now : Timestamp) :
    ∃ t', advance t id .consumed now = .ok t' := by
  have hcan := (MessageState.canAdvanceTo_consumed_iff r.state).mpr hs
  rw [advance, hr]
  simp [hcan]

theorem rowsOk_of_advance {t t' : MessageTable} {id : Uuid} {next : MessageState}
    {now : Timestamp} (h : advance t id next now = .ok t') : RowsOk t t' := by
  obtain ⟨r, r', hr, hcan, hstate, herr, hget⟩ := get?_of_advance h
  intro k q hq
  rw [hget k]
  split
  · rename_i hk
    rw [hk, hr] at hq
    obtain rfl := Option.some.inj hq
    exact ⟨r', rfl, .of_state (.inr (.inl (hstate ▸ hcan))) herr⟩
  · exact ⟨q, hq, .refl q⟩

theorem rowsOk_advanceOrKeep (t : MessageTable) (id : Uuid) (next : MessageState)
    (now : Timestamp) : RowsOk t (advanceOrKeep t id next now) := by
  rw [advanceOrKeep]
  split
  · rename_i t' h
    exact rowsOk_of_advance h
  · exact .refl t

/-- Returning a row to the queue is lawful for the rows the guard lets through. -/
theorem rowChangeOk_requeueRow {r : MessageRow} (hr : r.state = .delivered) (reason : String) :
    RowChangeOk r (requeueRow reason r) :=
  .of_state (.inr (.inr ⟨hr, rfl⟩)) rfl

/-- The row `markError` writes. -/
theorem get?_markError {t : MessageTable} {id : Uuid} {r : MessageRow}
    (hr : t.get? id = some r) (err : String) (now : Timestamp) :
    ∃ r', (markError t id err now).get? id = some r' ∧ r'.isError = true ∧
      r'.state = if r.state = .delivered then .consumed else r.state := by
  rw [markError, Keyed.get?_modify, if_pos rfl, advanceOrKeep]
  by_cases hs : r.state = .delivered
  · obtain ⟨t', ht'⟩ := exists_advance_consumed hr hs now
    obtain ⟨-, r', -, -, hstate, -, hget⟩ := get?_of_advance ht'
    rw [ht']
    simp only [hget id, if_true, Option.map_some]
    exact ⟨_, rfl, rfl, by simp [hs, hstate]⟩
  · have herr : ∃ e, advance t id .consumed now = .error e := by
      have hcan : r.state.canAdvanceTo .consumed = false :=
        Bool.eq_false_iff.mpr fun h => hs ((MessageState.canAdvanceTo_consumed_iff _).mp h)
      rw [advance, hr]
      simp [hcan]
    obtain ⟨e, he⟩ := herr
    rw [he]
    simp only [hr, Option.map_some]
    exact ⟨_, rfl, rfl, by simp [hs]⟩

theorem rowsOk_enqueue (t : MessageTable) (row : MessageRow) :
    RowsOk t ((Messages.enqueue t row).getD t) := by
  intro k r hr
  refine ⟨r, ?_, .refl r⟩
  cases hins : Messages.enqueue t row with
  | none => exact hr
  | some t' =>
      obtain ⟨hnone, -⟩ := Keyed.insert_eq_some_iff.mp hins
      rw [Option.getD_some, Keyed.get?_of_insert hins, if_neg, hr]
      rintro rfl
      rw [hr] at hnone
      cases hnone

theorem get?_markError_of_ne {t : MessageTable} {id k : Uuid} (hk : k ≠ id) (err : String)
    (now : Timestamp) : (markError t id err now).get? k = t.get? k := by
  rw [markError, Keyed.get?_modify, if_neg hk, advanceOrKeep]
  split
  · rename_i t' ht'
    obtain ⟨_, _, -, -, -, -, hget⟩ := get?_of_advance ht'
    rw [hget, if_neg hk]
  · rfl

theorem rowsOk_markError {t : MessageTable} {id : Uuid}
    (h : ∀ r, t.get? id = some r → r.state = .delivered ∨ r.isError = true) (err : String)
    (now : Timestamp) : RowsOk t (markError t id err now) := by
  intro k r hr
  by_cases hk : k = id
  · subst hk
    obtain ⟨r', hr', herr, hstate⟩ := get?_markError hr err now
    refine ⟨r', hr', ?_, ?_⟩
    · rw [hstate]
      split
      · rename_i hs
        rw [hs]
        decide
      · exact .inl rfl
    · intro hno _
      rcases h r hr with hs | hs
      · simp [hstate, hs]
      · rw [hs] at hno
        cases hno
  · rw [get?_markError_of_ne hk]
    exact ⟨r, hr, .refl r⟩

theorem rowsOk_requeueUndelivered (t : MessageTable) (id : Uuid) (reason : String) :
    RowsOk t (requeueUndelivered t id reason) := by
  apply rowsOk_updateWhere
  intro r hr
  exact rowChangeOk_requeueRow (by simp_all) reason

theorem rowsOk_requeueAllUndelivered (t : MessageTable) (node : Uuid) (reason : String) :
    RowsOk t (requeueAllUndelivered t node reason) := by
  apply rowsOk_updateWhere
  intro r hr
  exact rowChangeOk_requeueRow (by simp_all) reason

/-- A write that touches neither the state nor the flag. -/
theorem rowsOk_modify_of_eq {t : MessageTable} {id : Uuid} {f : MessageRow → MessageRow}
    {hf : ∀ r, (f r).id = r.id} (hs : ∀ r, (f r).state = r.state)
    (he : ∀ r, (f r).isError = r.isError) : RowsOk t (t.modify id f hf) :=
  rowsOk_modify fun r _ => .of_state (.inl (hs r)) (he r)

theorem rowsOk_requestNotification (t : MessageTable) (id : Uuid) :
    RowsOk t (requestNotification t id) := by
  apply rowsOk_modify_of_eq
  · exact fun _ => rfl
  · exact fun _ => rfl

theorem rowsOk_setLastError (t : MessageTable) (id : Uuid) (err : String) :
    RowsOk t (setLastError t id err) := by
  apply rowsOk_modify_of_eq
  · exact fun _ => rfl
  · exact fun _ => rfl

theorem rowsOk_claimNotification (t : MessageTable) (id : Uuid) :
    RowsOk t (claimNotification t id).1 := by
  unfold claimNotification
  dsimp only
  apply rowsOk_updateWhere
  intro r _
  exact .of_state (.inl rfl) rfl

theorem rowsOk_consumeAllDeliveredAsInterrupted (t : MessageTable) (node : Uuid)
    (reason : String) (now : Timestamp) :
    RowsOk t (consumeAllDeliveredAsInterrupted t node reason now) := by
  apply rowsOk_updateWhere
  intro r hr
  have hs : r.state = .delivered := by simp_all
  exact ⟨.inr (.inl (by rw [hs]; rfl)), fun _ _ => ⟨by simp [hs], rfl⟩⟩

theorem rowsOk_requeueForLimit (t : MessageTable) (id : Uuid) (reason : String) (cap : ℕ) :
    RowsOk t (requeueForLimit t id reason cap).1 := by
  unfold requeueForLimit
  split
  · exact .refl t
  · rename_i r hr
    split
    · exact .refl t
    · rename_i hs
      split
      · exact .refl t
      · dsimp only
        apply rowsOk_modify
        intro q hq
        rw [hr] at hq
        obtain rfl := Option.some.inj hq
        exact (rowChangeOk_requeueRow (not_not.mp hs) reason).congr rfl rfl

theorem rowsOk_complete (t : MessageTable) (id : Uuid) (result : Option String)
    (now : Timestamp) : RowsOk t (complete t id result now).1 := by
  unfold complete
  split
  · exact .refl t
  · rename_i t' ht'
    intro k r hr
    obtain ⟨r', hr', hok⟩ := rowsOk_of_advance ht' k r hr
    rw [Keyed.get?_modify, hr']
    split
    · exact ⟨_, rfl, hok.congr rfl rfl⟩
    · exact ⟨r', rfl, hok⟩

theorem rowsOk_quarantine {t : MessageTable} {id : Uuid}
    (h : ∀ r, t.get? id = some r → r.state ≠ .consumed) (reason : String) :
    RowsOk t (quarantine t id reason) := by
  apply rowsOk_modify
  intro r hr
  refine .of_state ?_ rfl
  change r.state.MayBecome .undeliverable
  cases hs : r.state with
  | queued => decide
  | delivered => decide
  | consumed => exact absurd hs (h r hr)
  | undeliverable => decide

/-- A lawful operation changes every row as it may. -/
theorem rowsOk_apply {t : MessageTable} {op : MessageOp} (h : op.Lawful t) :
    RowsOk t (op.apply t) := by
  cases op with
  | enqueue id sender target body sha256 replyTo onBehalfOf now => exact rowsOk_enqueue t _
  | advance id next now => exact rowsOk_advanceOrKeep t id next now
  | markError id err now => exact rowsOk_markError h err now
  | requeueUndelivered id reason => exact rowsOk_requeueUndelivered t id reason
  | requeueAllUndelivered node reason => exact rowsOk_requeueAllUndelivered t node reason
  | consumeAllDeliveredAsInterrupted node reason now =>
      exact rowsOk_consumeAllDeliveredAsInterrupted t node reason now
  | requeueForLimit id reason cap => exact rowsOk_requeueForLimit t id reason cap
  | complete id result now => exact rowsOk_complete t id result now
  | requestNotification id => exact rowsOk_requestNotification t id
  | claimNotification id => exact rowsOk_claimNotification t id
  | quarantine id reason => exact rowsOk_quarantine h reason
  | setLastError id err => exact rowsOk_setLastError t id err

/-- One operation keeps the contract exactly when it is lawful. -/
theorem stepOk_iff_lawful (t : MessageTable) (op : MessageOp) : StepOk t op ↔ op.Lawful t := by
  constructor
  · intro h
    cases op with
    | markError id err now =>
        intro r hr
        obtain ⟨r', hr', herr, hstate⟩ := get?_markError hr err now
        have hchange := (h id r r' hr hr').error
        by_contra hno
        obtain ⟨hs, hflag⟩ := not_or.mp hno
        obtain ⟨hs', hconsumed⟩ := hchange (by simpa using hflag) herr
        rw [hstate, if_neg hs] at hconsumed
        exact hs' hconsumed
    | quarantine id reason =>
        intro r hr hs
        have hget : (Messages.quarantine t id reason).get? id = some _ :=
          (Keyed.get?_modify_of_get? hr _ _ id).trans (if_pos rfl)
        have hstate := (h id r _ hr hget).state
        rw [hs] at hstate
        change MessageState.consumed.MayBecome .undeliverable at hstate
        revert hstate
        decide
    | enqueue => trivial
    | advance => trivial
    | requeueUndelivered => trivial
    | requeueAllUndelivered => trivial
    | consumeAllDeliveredAsInterrupted => trivial
    | requeueForLimit => trivial
    | complete => trivial
    | requestNotification => trivial
    | claimNotification => trivial
    | setLastError => trivial
  · intro h id r r' hr hr'
    obtain ⟨q, hq, hok⟩ := rowsOk_apply h id r hr
    rw [hr'] at hq
    obtain rfl := Option.some.inj hq
    exact hok

/-! ## Whole histories -/

/-- Under the contract a terminal row keeps its state and, once consumed, its flag. -/
theorem get?_run_of_terminal {t : MessageTable} {ops : List MessageOp} {id : Uuid}
    {r : MessageRow} (h : Run.Always MessageOp.apply MessageOp.Lawful t ops)
    (hr : t.get? id = some r) (hs : r.state.IsTerminal) :
    ∃ r', (Run.run MessageOp.apply t ops).get? id = some r' ∧ r'.state = r.state ∧
      (r'.isError = true → r.isError = true) := by
  induction ops generalizing t r with
  | nil => exact ⟨r, hr, rfl, fun h => h⟩
  | cons op ops ih =>
      obtain ⟨q, hq, hok⟩ := rowsOk_apply h.1 id r hr
      have hqs : q.state = r.state := hok.terminal hs
      obtain ⟨r', hr', hstate, herr⟩ := ih h.2 hq (hqs ▸ hs)
      refine ⟨r', hr', hstate.trans hqs, ?_⟩
      intro hflag
      by_contra hno
      obtain ⟨hne, hconsumed⟩ := hok.error (by simpa using hno) (herr hflag)
      exact hne (hqs ▸ hconsumed)

/-- A history keeps the contract exactly when all its operations are lawful. -/
theorem history_ok_iff (t : MessageTable) (ops : List MessageOp) :
    HistoryOk t ops ↔ Run.Always MessageOp.apply MessageOp.Lawful t ops := by
  constructor
  · intro h
    exact (Run.always_congr stepOk_iff_lawful t ops).mp h.changes
  · intro h
    refine ⟨(Run.always_congr stepOk_iff_lawful t ops).mpr h, ?_⟩
    rintro x y rfl id r hr hs
    rw [Run.run_append]
    exact get?_run_of_terminal (Run.always_append.mp h).2 hr hs

/-- Enqueue, deliver, consume without error, and set aside. -/
def quarantineConsumed : List MessageOp :=
  [.enqueue 1 .user 2 "hello" "" none none 0, .advance 1 .delivered 1, .complete 1 none 2,
    .quarantine 1 "body cannot be encoded"]

/-- A consumed message can be set aside, so not every history keeps the contract. -/
theorem history_not_always_ok : ¬ ∀ ops, HistoryOk Keyed.empty ops := by
  intro h
  have hlast := (h quarantineConsumed).changes.2.2.2.1
  have hchange := (hlast 1 _ _ rfl rfl).state
  revert hchange
  decide

end Wheel
