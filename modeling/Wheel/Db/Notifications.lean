import Wheel.Db.MessageHistory
import Wheel.Db.MessageRows

/-!
# Completion notifications in the message table

A notification about a message is a row of the engine's own that answers it.
`Counted` says that the notifications about a message are the ones its row
accounts for: one, to the agent that sent it, once the column says that it was
sent, and none before. `Announced` adds that a settled message owes none. The
statements of the engine keep the first, and the second but for those that settle
a message which is owed a notification.
-/

namespace Wheel

namespace Messages

/-- The row is a notification about message `m`. -/
def IsNote (m : Uuid) (r : MessageRow) : Prop := r.fromKind = .system ∧ r.replyTo = some m

instance (m : Uuid) (r : MessageRow) : Decidable (IsNote m r) := by
  unfold IsNote
  infer_instance

/-- To whom the notifications about `m` went. -/
def notes (t : MessageTable) (m : Uuid) : List Uuid :=
  (t.rows.filter fun r => IsNote m r).map (·.toId)

/-- The node a message came from. -/
def senderOf (r : MessageRow) : Option Uuid :=
  match r.fromKind with
  | .node => r.fromId
  | .user | .system => none

/-- The notifications a row accounts for. -/
def announced (r : MessageRow) : List Uuid :=
  if r.notify = 2 then (senderOf r).toList else []

/-- The notifications about `m` are those its row accounts for. -/
structure Counted (m : Uuid) (t : MessageTable) : Prop where
  notes : notes t m = (t.get? m).elim [] announced
  notify : ∀ q ∈ t.get? m, q.notify ≤ 2

/-- And it is owed none once it is settled. -/
structure Announced (m : Uuid) (t : MessageTable) : Prop extends Counted m t where
  settled : ∀ q ∈ t.get? m, q.state.IsTerminal → q.notify ≠ 1

/-- `r'` has the columns of `r` that a notification depends on. -/
structure SameNote (r r' : MessageRow) : Prop where
  fromKind : r'.fromKind = r.fromKind
  fromId : r'.fromId = r.fromId
  toId : r'.toId = r.toId
  replyTo : r'.replyTo = r.replyTo
  notify : r'.notify = r.notify

variable {m : Uuid} {t t' : MessageTable}

/-! ## Updates -/

theorem notes_updateWhere {p : MessageRow → Bool} {f : MessageRow → MessageRow}
    (hf : ∀ r, (f r).id = r.id) (hkind : ∀ r, (f r).fromKind = r.fromKind)
    (hto : ∀ r, (f r).toId = r.toId) (hreply : ∀ r, (f r).replyTo = r.replyTo) :
    notes (t.updateWhere p f hf) m = notes t m := by
  unfold notes
  rw [Keyed.rows_updateWhere, List.filter_map, List.map_map]
  have hnote : ∀ r : MessageRow, IsNote m (if p r then f r else r) ↔ IsNote m r := by
    intro r
    unfold IsNote
    split
    · rw [hkind, hreply]
    · exact Iff.rfl
  congr 1
  · funext r
    simp only [Function.comp_apply]
    split
    · exact hto r
    · rfl
  · congr 1
    funext r
    exact decide_eq_decide.mpr (hnote r)

theorem SameNote.announced {r r' : MessageRow} (h : SameNote r r') :
    announced r' = announced r := by
  unfold Messages.announced senderOf
  rw [h.fromKind, h.fromId, h.notify]

section updateWhere

variable {p : MessageRow → Bool} {f : MessageRow → MessageRow}

theorem Counted.updateWhere (h : Counted m t) (hf : ∀ r, (f r).id = r.id)
    (hl : ∀ r, SameNote r (f r)) : Counted m (t.updateWhere p f hf) := by
  constructor
  · rw [notes_updateWhere hf (fun r => (hl r).fromKind) (fun r => (hl r).toId)
      (fun r => (hl r).replyTo), h.notes, Keyed.get?_updateWhere]
    cases t.get? m with
    | none => rfl
    | some q =>
        simp only [Option.map_some, Option.elim_some]
        split
        · exact (hl q).announced.symm
        · rfl
  · intro q' hq'
    rw [Keyed.get?_updateWhere] at hq'
    obtain ⟨q, hq, rfl⟩ := Option.map_eq_some_iff.mp hq'
    split
    · rw [(hl q).notify]
      exact h.notify q hq
    · exact h.notify q hq

/-- A statement that settles no message owed a notification. -/
theorem Announced.updateWhere (h : Announced m t) (hf : ∀ r, (f r).id = r.id)
    (hl : ∀ r, SameNote r (f r))
    (hs : ∀ q ∈ t.get? m, p q = true → (f q).state.IsTerminal →
      q.state.IsTerminal ∨ q.notify ≠ 1) : Announced m (t.updateWhere p f hf) where
  toCounted := h.toCounted.updateWhere hf hl
  settled := by
    intro q' hq' hterm
    rw [Keyed.get?_updateWhere] at hq'
    obtain ⟨q, hq, rfl⟩ := Option.map_eq_some_iff.mp hq'
    cases hp : p q with
    | false =>
        simp only [hp, Bool.false_eq_true, if_false] at hterm ⊢
        exact h.settled q hq hterm
    | true =>
        simp only [hp, if_true] at hterm ⊢
        rw [(hl q).notify]
        rcases hs q hq hp hterm with hold | hn
        · exact h.settled q hq hold
        · exact hn

end updateWhere

/-- A statement that leaves the row of the message. -/
theorem Announced.of_get? (h : Announced m t) (hc : Counted m t')
    (hg : t'.get? m = t.get? m) : Announced m t' where
  toCounted := hc
  settled := by
    rw [hg]
    exact h.settled

/-! ## The statements -/

theorem notes_of_insert {row : MessageRow} (h : t.insert row = some t') :
    notes t' m = notes t m ++ if IsNote m row then [row.toId] else [] := by
  obtain ⟨-, hrows⟩ := Keyed.insert_eq_some_iff.mp h
  unfold notes
  rw [hrows, List.filter_append, List.map_append]
  congr 1
  by_cases hn : IsNote m row <;> simp [hn]

theorem announced_enqueue (h : Announced m t) {row : MessageRow}
    (he : enqueue t row = some t') (hn : ¬ IsNote m row) (hrow : row.notify = 0) :
    Announced m t' := by
  have hnotes : notes t' m = notes t m := by
    rw [notes_of_insert he, if_neg, List.append_nil]
    exact hn
  obtain ⟨hfresh, -⟩ := Keyed.insert_eq_some_iff.mp he
  have hget := Keyed.get?_of_insert he m
  by_cases hid : row.id = m
  · have hnone : t.get? m = none := hid ▸ hfresh
    rw [if_pos hid] at hget
    have hcount := h.notes
    rw [hnone] at hcount
    refine ⟨⟨?_, ?_⟩, ?_⟩
    · rw [hnotes, hcount, hget]
      show [] = announced _
      rw [announced, if_neg]
      show row.notify ≠ 2
      rw [hrow]
      decide
    · intro q hq
      rw [hget] at hq
      cases hq
      show row.notify ≤ 2
      omega
    · intro q hq hterm
      rw [hget] at hq
      cases hq
      rcases hterm with hterm | hterm <;> cases hterm
  · rw [if_neg hid] at hget
    exact h.of_get? ⟨by rw [hnotes, hget, h.notes], hget ▸ h.notify⟩ hget

theorem exists_enqueue {row : MessageRow} (h : t.get? row.id = none) :
    ∃ t', enqueue t row = some t' := Keyed.exists_insert h

theorem get?_of_enqueue {row : MessageRow} (he : enqueue t row = some t') :
    t'.get? row.id = some { row with state := .queued } :=
  (Keyed.get?_of_insert he row.id).trans (if_pos rfl)

theorem get?_of_enqueue_of_ne {row : MessageRow} (he : enqueue t row = some t') {k : Uuid}
    (hk : row.id ≠ k) : t'.get? k = t.get? k :=
  (Keyed.get?_of_insert he k).trans (if_neg hk)

/-- Every row of `t'` was one of `t`, and has its columns a notification depends on. -/
def Carries (t t' : MessageTable) : Prop := ∀ k, ∀ q' ∈ t'.get? k, ∃ q ∈ t.get? k, SameNote q q'

theorem SameNote.refl (r : MessageRow) : SameNote r r := ⟨rfl, rfl, rfl, rfl, rfl⟩

theorem SameNote.trans {r r' r'' : MessageRow} (h : SameNote r r') (h' : SameNote r' r'') :
    SameNote r r'' :=
  ⟨h'.fromKind.trans h.fromKind, h'.fromId.trans h.fromId, h'.toId.trans h.toId,
    h'.replyTo.trans h.replyTo, h'.notify.trans h.notify⟩

theorem Carries.refl (t : MessageTable) : Carries t t := fun _ q hq => ⟨q, hq, .refl q⟩

theorem Carries.trans {t'' : MessageTable} (h : Carries t t') (h' : Carries t' t'') :
    Carries t t'' := by
  intro k q'' hq''
  obtain ⟨q', hq', hs'⟩ := h' k q'' hq''
  obtain ⟨q, hq, hs⟩ := h k q' hq'
  exact ⟨q, hq, hs.trans hs'⟩

theorem carries_updateWhere {p : MessageRow → Bool} {f : MessageRow → MessageRow}
    (hf : ∀ r, (f r).id = r.id) (hl : ∀ r, SameNote r (f r)) :
    Carries t (t.updateWhere p f hf) := by
  intro k q' hq'
  rw [Keyed.get?_updateWhere] at hq'
  obtain ⟨q, hq, rfl⟩ := Option.map_eq_some_iff.mp hq'
  refine ⟨q, hq, ?_⟩
  split
  · exact hl q
  · exact .refl q

theorem carries_advance {id : Uuid} {now : Timestamp}
    (ha : advance t id .consumed now = .ok t') : Carries t t' := by
  unfold advance at ha
  cases hr : t.get? id with
  | none =>
      rw [hr] at ha
      cases ha
  | some r =>
      rw [hr] at ha
      dsimp only at ha
      split at ha
      · cases ha
      · cases ha
        exact carries_updateWhere (fun _ => by rfl) fun _ => ⟨rfl, rfl, rfl, rfl, rfl⟩

theorem carries_markError (id : Uuid) (err : String) (now : Timestamp) :
    Carries t (markError t id err now) := by
  have hadv : Carries t (advanceOrKeep t id .consumed now) := by
    unfold advanceOrKeep
    cases ha : advance t id .consumed now with
    | ok t' => exact carries_advance ha
    | error e => exact .refl t
  exact hadv.trans (carries_updateWhere (fun _ => by rfl) fun _ => ⟨rfl, rfl, rfl, rfl, rfl⟩)

theorem carries_complete (id : Uuid) (result : Option String) (now : Timestamp) :
    Carries t (complete t id result now).1 := by
  unfold complete
  cases ha : advance t id .consumed now with
  | ok t' =>
      exact (carries_advance ha).trans
        (carries_updateWhere (fun _ => by rfl) fun _ => ⟨rfl, rfl, rfl, rfl, rfl⟩)
  | error e => exact .refl t

theorem counted_advance {id : Uuid} {next : MessageState} {now : Timestamp} (h : Counted m t)
    (ha : advance t id next now = .ok t') : Counted m t' := by
  unfold advance at ha
  cases hr : t.get? id with
  | none =>
      rw [hr] at ha
      cases ha
  | some r =>
      rw [hr] at ha
      dsimp only at ha
      split at ha
      · cases ha
      · cases next with
        | delivered =>
            cases ha
            exact h.updateWhere (fun _ => by rfl) fun _ => ⟨rfl, rfl, rfl, rfl, rfl⟩
        | consumed =>
            cases ha
            exact h.updateWhere (fun _ => by rfl) fun _ => ⟨rfl, rfl, rfl, rfl, rfl⟩
        | queued => cases ha
        | undeliverable => cases ha

theorem counted_advanceOrKeep (h : Counted m t) (id : Uuid) (next : MessageState)
    (now : Timestamp) : Counted m (advanceOrKeep t id next now) := by
  unfold advanceOrKeep
  cases ha : advance t id next now with
  | ok t' => exact counted_advance h ha
  | error e => exact h

theorem counted_markError (h : Counted m t) (id : Uuid) (err : String) (now : Timestamp) :
    Counted m (markError t id err now) :=
  (counted_advanceOrKeep h id .consumed now).updateWhere (fun _ => by rfl) fun _ => ⟨rfl, rfl, rfl, rfl, rfl⟩

theorem counted_complete (h : Counted m t) (id : Uuid) (result : Option String)
    (now : Timestamp) : Counted m (complete t id result now).1 := by
  unfold complete
  cases ha : advance t id .consumed now with
  | ok t' => exact (counted_advance h ha).updateWhere (fun _ => by rfl) fun _ => ⟨rfl, rfl, rfl, rfl, rfl⟩
  | error e => exact h

theorem counted_quarantine (h : Counted m t) (id : Uuid) (reason : String) :
    Counted m (quarantine t id reason) :=
  h.updateWhere (fun _ => by rfl) fun _ => ⟨rfl, rfl, rfl, rfl, rfl⟩

theorem get?_complete_of_ne {id k : Uuid} (hk : k ≠ id) (result : Option String)
    (now : Timestamp) : (complete t id result now).1.get? k = t.get? k := by
  unfold complete
  cases ha : advance t id .consumed now with
  | error e => rfl
  | ok t' =>
      dsimp only
      rw [Keyed.get?_modify, if_neg hk]
      obtain ⟨r, f, hf, -, -, rfl, -⟩ := advance_eq_ok ha
      rw [Keyed.get?_modify, if_neg hk]

theorem announced_advance {id : Uuid} {now : Timestamp} (h : Announced m t)
    (ha : advance t id .consumed now = .ok t')
    (hid : id = m → ∀ q ∈ t.get? m, q.state = .delivered → q.notify ≠ 1) : Announced m t' := by
  unfold advance at ha
  cases hr : t.get? id with
  | none =>
      rw [hr] at ha
      cases ha
  | some r =>
      rw [hr] at ha
      dsimp only at ha
      split at ha
      · cases ha
      · rename_i hcan
        cases ha
        refine h.updateWhere (fun _ => by rfl) (fun _ => ⟨rfl, rfl, rfl, rfl, rfl⟩) ?_
        intro q hq hp _
        have hqid : q.id = id := by simpa using hp
        obtain rfl : id = m := hqid.symm.trans (Keyed.get?_eq_some_iff.mp hq).2
        obtain rfl : r = q := Option.some.inj (hr.symm.trans hq)
        have hdel := (MessageState.canAdvanceTo_consumed_iff r.state).mp (by simpa using hcan)
        exact .inr (hid rfl r hr hdel)

/-- A message marked as failed is settled only when it was delivered. -/
theorem announced_markError (h : Announced m t) {id : Uuid} (err : String) (now : Timestamp)
    (hid : id = m → ∀ q ∈ t.get? m, q.state = .delivered → q.notify ≠ 1) :
    Announced m (markError t id err now) := by
  have hadv : Announced m (advanceOrKeep t id .consumed now) := by
    unfold advanceOrKeep
    cases ha : advance t id .consumed now with
    | ok t' => exact announced_advance h ha hid
    | error e => exact h
  exact hadv.updateWhere (fun _ => by rfl) (fun _ => ⟨rfl, rfl, rfl, rfl, rfl⟩)
    fun q _ _ hterm => .inl hterm

theorem announced_requeueRow (h : Announced m t) {p : MessageRow → Bool} (reason : String) :
    Announced m (t.updateWhere p (requeueRow reason) fun _ => rfl) :=
  h.updateWhere (fun _ => by rfl) (fun _ => ⟨rfl, rfl, rfl, rfl, rfl⟩)
    fun q _ _ hterm => by rcases hterm with hterm | hterm <;> cases hterm

theorem announced_consumeAll (h : Announced m t) {node : Uuid} (reason : String)
    (now : Timestamp)
    (hn : ∀ q ∈ t.get? m, q.toId = node → q.state = .delivered → q.notify ≠ 1) :
    Announced m (consumeAllDeliveredAsInterrupted t node reason now) := by
  refine h.updateWhere (fun _ => by rfl) (fun _ => ⟨rfl, rfl, rfl, rfl, rfl⟩) ?_
  intro q hq hp _
  have hp : q.toId = node ∧ q.state = .delivered := by simpa using hp
  exact .inr (hn q hq hp.1 hp.2)

theorem announced_requeueForLimit (h : Announced m t) (id : Uuid) (reason : String) (cap : ℕ) :
    Announced m (requeueForLimit t id reason cap).1 := by
  unfold requeueForLimit
  split
  · exact h
  · split
    · exact h
    · split
      · exact h
      · refine h.updateWhere (fun _ => by rfl) (fun _ => ⟨rfl, rfl, rfl, rfl, rfl⟩) ?_
        rintro q - - (hterm | hterm) <;> cases hterm

/-- Past the cap the row is left to be settled. -/
theorem requeueForLimit_of_capReached {id : Uuid} {reason : String} {cap done : ℕ}
    (h : requeueForLimit t id reason cap = (t', .capReached done)) : t' = t := by
  unfold requeueForLimit at h
  split at h
  · cases h
  · split at h
    · cases h
    · split at h
      · cases h
        rfl
      · cases h

theorem announced_setLastError (h : Announced m t) (id : Uuid) (err : String) :
    Announced m (setLastError t id err) :=
  h.updateWhere (fun _ => by rfl) (fun _ => ⟨rfl, rfl, rfl, rfl, rfl⟩)
    fun q _ _ hterm => .inl hterm

theorem announced_deliver (h : Announced m t) (id : Uuid) (now : Timestamp) :
    Announced m (advanceOrKeep t id .delivered now) := by
  unfold advanceOrKeep
  cases ha : advance t id .delivered now with
  | error e => exact h
  | ok t' =>
      unfold advance at ha
      cases hr : t.get? id with
      | none =>
          rw [hr] at ha
          cases ha
      | some r =>
          rw [hr] at ha
          dsimp only at ha
          split at ha
          · cases ha
          · cases ha
            refine h.updateWhere (fun _ => by rfl) (fun _ => ⟨rfl, rfl, rfl, rfl, rfl⟩) ?_
            rintro q - - (hterm | hterm) <;> cases hterm

/-! ## The notification column -/

/-- A notification may be asked for before the message is settled, and once. -/
theorem announced_requestNotification (h : Announced m t) {id : Uuid}
    (hid : id = m → ∀ q ∈ t.get? m, q.notify ≠ 2 ∧ ¬ q.state.IsTerminal) :
    Announced m (requestNotification t id) := by
  have hnotes : notes (requestNotification t id) m = notes t m :=
    notes_updateWhere (fun _ => by rfl) (fun _ => rfl) (fun _ => rfl) fun _ => rfl
  have hget : (requestNotification t id).get? m =
      if m = id then (t.get? m).map fun r => { r with notify := 1 } else t.get? m := by
    rw [requestNotification, Keyed.get?_modify]
  by_cases hm : m = id
  · rw [if_pos hm] at hget
    have hcount := h.notes
    cases hq : t.get? m with
    | none =>
        rw [hq] at hget
        rw [hq] at hcount
        exact ⟨⟨by rw [hnotes, hget, hcount]; rfl, by rw [hget]; exact fun _ => nofun⟩,
          by rw [hget]; exact fun _ => nofun⟩
    | some q =>
        obtain ⟨hn, hterm⟩ := hid hm.symm q hq
        rw [hq] at hget hcount
        have hempty : notes t m = [] := by
          rw [hcount]
          show announced q = []
          rw [announced, if_neg hn]
        refine ⟨⟨?_, ?_⟩, ?_⟩
        · rw [hnotes, hget, hempty]
          rfl
        · intro q' hq'
          rw [hget] at hq'
          cases hq'
          exact Nat.le_succ 1
        · intro q' hq' hterm'
          rw [hget] at hq'
          cases hq'
          exact absurd hterm' hterm
  · rw [if_neg hm] at hget
    exact h.of_get? ⟨by rw [hnotes, hget, h.notes], by rw [hget]; exact h.notify⟩ hget

/-- A claim by someone who does not notify has to find nothing to claim. -/
theorem announced_claimNotification (h : Announced m t) {id : Uuid}
    (hid : id = m → ∀ q ∈ t.get? m, q.notify ≠ 1) :
    Announced m (claimNotification t id).1 := by
  have hnotes : notes (claimNotification t id).1 m = notes t m :=
    notes_updateWhere (fun _ => by rfl) (fun _ => rfl) (fun _ => rfl) fun _ => rfl
  have hget : (claimNotification t id).1.get? m = t.get? m := by
    unfold claimNotification
    dsimp only
    rw [Keyed.get?_updateWhere]
    cases hq : t.get? m with
    | none => rfl
    | some q =>
        have hno : ¬ (q.id = id ∧ q.notify = 1) := by
          rintro ⟨hqid, hn⟩
          exact hid (hqid.symm.trans (Keyed.get?_eq_some_iff.mp hq).2) q hq hn
        simp [hno]
  exact h.of_get? ⟨by rw [hnotes, hget, h.notes], by rw [hget]; exact h.notify⟩ hget

end Messages

end Wheel
