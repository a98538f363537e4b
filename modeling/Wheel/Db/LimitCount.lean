import Wheel.Db.MessageHistory
import Wheel.Db.MessageRows

/-!
# The count of limit requeues

`limitRequeues` is written by one operation: `requeueForLimit` adds one to it when it
returns the message to the queue, which it does below the cap only. `Performs` says of two
tables that the second comes from the first by operations of a kind, which is how a section
of the engine is bound to what its operations do.
-/

namespace Wheel

namespace Messages

/-- The table `t'` comes from `t` by operations that meet `P`. -/
def Performs (P : MessageOp → Prop) (t t' : MessageTable) : Prop :=
  ∃ ops, (∀ op ∈ ops, P op) ∧ Run.run MessageOp.apply t ops = t'

variable {P : MessageOp → Prop} {t t' t'' : MessageTable} {m : Uuid}

theorem Performs.refl (P : MessageOp → Prop) (t : MessageTable) : Performs P t t :=
  ⟨[], fun _ hop => (List.not_mem_nil hop).elim, rfl⟩

theorem Performs.one {op : MessageOp} (h : P op) (t : MessageTable) : Performs P t (op.apply t) :=
  ⟨[op], fun _ hop => (List.mem_singleton.mp hop) ▸ h, rfl⟩

theorem Performs.trans (h : Performs P t t') (h' : Performs P t' t'') : Performs P t t'' := by
  obtain ⟨ops, hops, rfl⟩ := h
  obtain ⟨ops', hops', rfl⟩ := h'
  refine ⟨ops ++ ops', fun op hop => ?_, Run.run_append _ _ _ _⟩
  exact (List.mem_append.mp hop).elim (hops op) (hops' op)

theorem Performs.mono {Q : MessageOp → Prop} (hPQ : ∀ op, P op → Q op) (h : Performs P t t') :
    Performs Q t t' := by
  obtain ⟨ops, hops, hrun⟩ := h
  exact ⟨ops, fun op hop => hPQ op (hops op hop), hrun⟩

/-- What every operation of the kind preserves is preserved. -/
theorem Performs.induct {R : MessageTable → MessageTable → Prop} (hrefl : ∀ t, R t t)
    (htrans : ∀ t t' t'', R t t' → R t' t'' → R t t'') (hone : ∀ op, P op → ∀ t, R t (op.apply t))
    (h : Performs P t t') : R t t' := by
  obtain ⟨ops, hops, rfl⟩ := h
  induction ops generalizing t with
  | nil => exact hrefl t
  | cons op ops ih =>
      refine htrans _ _ _ (hone op (hops op List.mem_cons_self) t) ?_
      exact ih fun op' hop => hops op' (List.mem_cons_of_mem _ hop)

/-- How often the message was requeued because of a limit. -/
def limitCount (t : MessageTable) (m : Uuid) : ℕ := ((t.get? m).map (·.limitRequeues)).getD 0

theorem limitCount_of_get? {q : MessageRow} (h : t.get? m = some q) :
    limitCount t m = q.limitRequeues := by
  unfold limitCount
  rw [h]
  rfl

theorem limitCount_updateWhere {p : MessageRow → Bool} {f : MessageRow → MessageRow}
    (hf : ∀ r, (f r).id = r.id) (h : ∀ r, (f r).limitRequeues = r.limitRequeues) :
    limitCount (t.updateWhere p f hf) m = limitCount t m := by
  unfold limitCount
  rw [Keyed.get?_updateWhere]
  cases t.get? m with
  | none => rfl
  | some q =>
      simp only [Option.map_some, Option.getD_some]
      split
      · exact h q
      · rfl

theorem limitCount_modify_of_ne {id : Uuid} (h : m ≠ id) {f : MessageRow → MessageRow}
    (hf : ∀ r, (f r).id = r.id) : limitCount (t.modify id f hf) m = limitCount t m := by
  unfold limitCount
  rw [Keyed.get?_modify, if_neg h]

theorem limitCount_enqueue {row : MessageRow} (hrow : row.limitRequeues = 0)
    (h : enqueue t row = some t') : limitCount t' m = limitCount t m := by
  unfold limitCount
  rw [Keyed.get?_of_insert h m]
  split
  · rename_i hm
    obtain ⟨hnone, -⟩ := Keyed.insert_eq_some_iff.mp h
    have hget : t.get? m = none := hm ▸ hnone
    rw [hget]
    exact hrow
  · rfl

theorem limitCount_advance {id : Uuid} {next : MessageState} {now : Timestamp}
    (h : advance t id next now = .ok t') : limitCount t' m = limitCount t m := by
  unfold advance at h
  split at h
  · cases h
  · split at h
    · cases h
    · cases next <;> cases h
      · exact limitCount_updateWhere (fun _ => by rfl) fun _ => by rfl
      · exact limitCount_updateWhere (fun _ => by rfl) fun _ => by rfl

theorem limitCount_advanceOrKeep (id : Uuid) (next : MessageState) (now : Timestamp) :
    limitCount (advanceOrKeep t id next now) m = limitCount t m := by
  unfold advanceOrKeep
  cases h : advance t id next now with
  | ok t' => exact limitCount_advance h
  | error e => rfl

theorem limitCount_complete (id : Uuid) (result : Option String) (now : Timestamp) :
    limitCount (complete t id result now).1 m = limitCount t m := by
  unfold complete
  cases h : advance t id .consumed now with
  | ok t' =>
      refine Eq.trans ?_ (limitCount_advance h)
      exact limitCount_updateWhere (fun _ => by rfl) fun _ => by rfl
  | error e => rfl

end Messages

open Messages

/-- The operation returns messages to the queue because of a limit. -/
def MessageOp.isLimit : MessageOp → Bool
  | .requeueForLimit _ _ _ => true
  | _ => false

namespace Messages

variable {t t' : MessageTable} {m : Uuid}

/-- Every other operation keeps the count of a message. -/
theorem limitCount_apply {op : MessageOp} (h : op.isLimit = false) (t : MessageTable) :
    limitCount (op.apply t) m = limitCount t m := by
  cases op with
  | enqueue id sender target body sha256 replyTo onBehalfOf now =>
      unfold MessageOp.apply
      dsimp only
      cases he : Messages.enqueue t (newRow id sender target body sha256 replyTo onBehalfOf now) with
      | none => rfl
      | some t' => exact limitCount_enqueue rfl he
  | advance id next now => exact limitCount_advanceOrKeep id next now
  | markError id err now =>
      refine Eq.trans ?_ (limitCount_advanceOrKeep id .consumed now)
      exact limitCount_updateWhere (fun _ => by rfl) fun _ => by rfl
  | requeueUndelivered id reason => exact limitCount_updateWhere (fun _ => by rfl) fun _ => by rfl
  | requeueAllUndelivered node reason => exact limitCount_updateWhere (fun _ => by rfl) fun _ => by rfl
  | consumeAllDeliveredAsInterrupted node reason now => exact limitCount_updateWhere (fun _ => by rfl) fun _ => by rfl
  | requeueForLimit id reason cap => cases h
  | complete id result now => exact limitCount_complete id result now
  | requestNotification id => exact limitCount_updateWhere (fun _ => by rfl) fun _ => by rfl
  | claimNotification id => exact limitCount_updateWhere (fun _ => by rfl) fun _ => by rfl
  | quarantine id reason => exact limitCount_updateWhere (fun _ => by rfl) fun _ => by rfl
  | setLastError id err => exact limitCount_updateWhere (fun _ => by rfl) fun _ => by rfl

theorem limitCount_performs (h : Performs (fun op => op.isLimit = false) t t') :
    limitCount t' m = limitCount t m :=
  h.induct (R := fun t t' => limitCount t' m = limitCount t m) (fun _ => rfl)
    (fun _ _ _ h h' => h'.trans h) fun _ hop t => limitCount_apply hop t

/-- What a limit does to the row of the message it is about. -/
theorem get?_requeueForLimit {q : MessageRow} (h : t.get? m = some q) (hs : q.state = .delivered)
    (reason : String) {cap : ℕ} (hcap : q.limitRequeues < cap) :
    ∃ t', requeueForLimit t m reason cap = (t', .requeued (q.limitRequeues + 1)) ∧
      ∃ r, t'.get? m = some r ∧ r.state = .queued ∧ r.limitRequeues = q.limitRequeues + 1 := by
  unfold requeueForLimit
  rw [h]
  dsimp only
  rw [if_neg (not_not.mpr hs), if_neg (Nat.not_le.mpr hcap)]
  exact ⟨_, rfl, _, (Keyed.get?_modify_of_get? h _ _ m).trans (if_pos rfl), rfl, rfl⟩

theorem requeueForLimit_capReached {q : MessageRow} (h : t.get? m = some q)
    (hs : q.state = .delivered) (reason : String) {cap : ℕ} (hcap : cap ≤ q.limitRequeues) :
    requeueForLimit t m reason cap = (t, .capReached q.limitRequeues) := by
  unfold requeueForLimit
  rw [h]
  dsimp only
  rw [if_neg (not_not.mpr hs), if_pos hcap]

theorem requeueForLimit_notDelivered (h : ∀ q ∈ t.get? m, q.state ≠ .delivered)
    (reason : String) (cap : ℕ) : requeueForLimit t m reason cap = (t, .notDelivered) := by
  unfold requeueForLimit
  cases hq : t.get? m with
  | none => rfl
  | some q =>
      dsimp only
      rw [if_pos (h q hq)]

theorem limitCount_requeueForLimit_of_ne {id : Uuid} (h : m ≠ id) (reason : String) (cap : ℕ) :
    limitCount (requeueForLimit t id reason cap).1 m = limitCount t m := by
  unfold requeueForLimit
  split
  · rfl
  · split
    · rfl
    · split
      · rfl
      · exact limitCount_modify_of_ne h fun _ => by rfl

end Messages

end Wheel
