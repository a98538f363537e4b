import Wheel.Db.MessageRows

/-!
# Which messages are queued again

`StaysOut m` says of two tables that message `m`, if it was there and not queued,
is not queued now. Every statement of the engine has this property but the three
that return a delivered message to the queue, and those have it of every message
they do not return.
-/

namespace Wheel

namespace Messages

/-- The message waits to be delivered. -/
def IsQueued (t : MessageTable) (m : Uuid) : Prop := ∃ r ∈ t.get? m, r.state = .queued

/-- The message is still there, and was not queued in between. -/
def StaysOut (m : Uuid) (t t' : MessageTable) : Prop :=
  (t.get? m).isSome = true → (t'.get? m).isSome = true ∧ (IsQueued t' m → IsQueued t m)

variable {m : Uuid} {t t' t'' : MessageTable}

theorem StaysOut.refl (m : Uuid) (t : MessageTable) : StaysOut m t t := fun h => ⟨h, id⟩

theorem StaysOut.trans (h : StaysOut m t t') (h' : StaysOut m t' t'') : StaysOut m t t'' := by
  intro hs
  obtain ⟨hs', hq⟩ := h hs
  obtain ⟨hs'', hq'⟩ := h' hs'
  exact ⟨hs'', hq ∘ hq'⟩

/-- An update that returns no message `m` to the queue. -/
theorem staysOut_updateWhere {p : MessageRow → Bool} {f : MessageRow → MessageRow}
    (hf : ∀ r, (f r).id = r.id)
    (hs : ∀ q ∈ t.get? m, p q = true → (f q).state = .queued → q.state = .queued) :
    StaysOut m t (t.updateWhere p f hf) := by
  intro hsome
  obtain ⟨q, hq⟩ := Option.isSome_iff_exists.mp hsome
  have hget := Keyed.get?_updateWhere t p f hf m
  rw [hq, Option.map_some] at hget
  refine ⟨by rw [hget]; rfl, ?_⟩
  rintro ⟨r, hr, hstate⟩
  obtain rfl := Option.some.inj (hget.symm.trans hr)
  refine ⟨q, hq, ?_⟩
  cases hp : p q with
  | true =>
      rw [hp, if_pos rfl] at hstate
      exact hs q hq hp hstate
  | false =>
      rw [hp] at hstate
      exact hstate

theorem staysOut_enqueue {row : MessageRow} (he : enqueue t row = some t') :
    StaysOut m t t' := by
  intro hsome
  obtain ⟨q, hq⟩ := Option.isSome_iff_exists.mp hsome
  have hne : row.id ≠ m := by
    rintro rfl
    obtain ⟨hnone, -⟩ := Keyed.insert_eq_some_iff.mp he
    rw [show t.get? row.id = none from hnone] at hq
    cases hq
  have hget : t'.get? m = t.get? m := (Keyed.get?_of_insert he m).trans (if_neg hne)
  unfold IsQueued
  rw [hget]
  exact ⟨hsome, id⟩

theorem staysOut_advance {id : Uuid} {next : MessageState} {now : Timestamp}
    (hnext : next ≠ .queued) (ha : advance t id next now = .ok t') : StaysOut m t t' := by
  obtain ⟨r, f, hf, -, -, rfl, hfields⟩ := advance_eq_ok ha
  refine staysOut_updateWhere hf fun q _ _ hs => ?_
  rw [(hfields q).2.2] at hs
  exact absurd hs hnext

theorem staysOut_advanceOrKeep (id : Uuid) {next : MessageState} (hnext : next ≠ .queued)
    (now : Timestamp) : StaysOut m t (advanceOrKeep t id next now) := by
  unfold advanceOrKeep
  cases ha : advance t id next now with
  | ok t' => exact staysOut_advance hnext ha
  | error e => exact .refl m t

/-- A message whose delivery was recorded is not queued. -/
theorem not_isQueued_deliver (m : Uuid) (now : Timestamp) :
    ¬ IsQueued (advanceOrKeep t m .delivered now) m := by
  rintro ⟨r, hr, hs⟩
  unfold advanceOrKeep at hr
  cases ha : advance t m .delivered now with
  | ok t' =>
      obtain ⟨r', f, hf, hr', -, rfl, hfields⟩ := advance_eq_ok ha
      rw [ha, show (t.modify m f hf).get? m = _ from Keyed.get?_modify_of_get? hr' f hf m,
        if_pos rfl] at hr
      obtain rfl := Option.some.inj hr
      rw [(hfields r').2.2] at hs
      cases hs
  | error err =>
      rw [ha] at hr
      unfold advance at ha
      rw [show t.get? m = some r from hr] at ha
      simp [hs, MessageState.canAdvanceTo] at ha

theorem staysOut_markError (id : Uuid) (err : String) (now : Timestamp) :
    StaysOut m t (markError t id err now) :=
  (staysOut_advanceOrKeep id (nofun : MessageState.consumed ≠ .queued) now).trans
    (staysOut_updateWhere (fun _ => by rfl) fun _ _ _ hs => hs)

theorem staysOut_complete (id : Uuid) (result : Option String) (now : Timestamp) :
    StaysOut m t (complete t id result now).1 := by
  unfold complete
  cases ha : advance t id .consumed now with
  | ok t' =>
      exact (staysOut_advance (nofun : MessageState.consumed ≠ .queued) ha).trans
        (staysOut_updateWhere (fun _ => by rfl) fun _ _ _ hs => hs)
  | error e => exact .refl m t

theorem staysOut_requestNotification (id : Uuid) : StaysOut m t (requestNotification t id) :=
  staysOut_updateWhere (fun _ => by rfl) fun _ _ _ hs => hs

theorem staysOut_claimNotification (id : Uuid) : StaysOut m t (claimNotification t id).1 :=
  staysOut_updateWhere (fun _ => by rfl) fun _ _ _ hs => hs

theorem staysOut_setLastError (id : Uuid) (err : String) : StaysOut m t (setLastError t id err) :=
  staysOut_updateWhere (fun _ => by rfl) fun _ _ _ hs => hs

theorem staysOut_quarantine (id : Uuid) (reason : String) :
    StaysOut m t (quarantine t id reason) :=
  staysOut_updateWhere (fun _ => by rfl) fun _ _ _ hs => by cases hs

theorem staysOut_consumeAll (node : Uuid) (reason : String) (now : Timestamp) :
    StaysOut m t (consumeAllDeliveredAsInterrupted t node reason now) :=
  staysOut_updateWhere (fun _ => by rfl) fun _ _ _ hs => by cases hs

theorem staysOut_requeueUndelivered {id : Uuid} (hid : id ≠ m) (reason : String) :
    StaysOut m t (requeueUndelivered t id reason) := by
  refine staysOut_updateWhere (fun _ => by rfl) fun q hq hp _ => ?_
  have hp : q.id = id ∧ q.state = .delivered := by simpa using hp
  exact absurd (hp.1.symm.trans (Keyed.get?_eq_some_iff.mp hq).2) hid

theorem staysOut_requeueAllUndelivered {node : Uuid}
    (h : ∀ q ∈ t.get? m, q.toId = node → q.state ≠ .delivered) (reason : String) :
    StaysOut m t (requeueAllUndelivered t node reason) := by
  refine staysOut_updateWhere (fun _ => by rfl) fun q hq hp _ => ?_
  have hp : q.toId = node ∧ q.state = .delivered := by simpa using hp
  exact absurd hp.2 (h q hq hp.1)

theorem staysOut_requeueForLimit {id : Uuid} (hid : id ≠ m) (reason : String) (cap : ℕ) :
    StaysOut m t (requeueForLimit t id reason cap).1 := by
  unfold requeueForLimit
  split
  · exact .refl m t
  · split
    · exact .refl m t
    · split
      · exact .refl m t
      · refine staysOut_updateWhere (fun _ => by rfl) fun q hq hp _ => ?_
        have hp : q.id = id := by simpa using hp
        exact absurd (hp.symm.trans (Keyed.get?_eq_some_iff.mp hq).2) hid

end Messages

end Wheel
