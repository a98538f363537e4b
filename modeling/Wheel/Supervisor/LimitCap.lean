import Wheel.Db.LimitCount
import Wheel.Supervisor.Frame

/-!
# Limit requeues are bounded

A message whose turn ended on a closed usage window goes back to the queue, at most
`Quota.maxLimitRequeues` times: its row counts them, no other section writes the count, and
neither does a restart of the engine. So in every run, of one engine process after the
other, `limit_requeues_bounded` bounds how often a limit returns a message, and with it how
often its turn is started, next to the returns for other reasons; past the cap the message
is consumed with an error.
-/

namespace Wheel

namespace Supervisor

open Concurrency Messages

/-! ## What a section does, in operations of the table -/

/-- An operation that returns nothing because of a limit. -/
def Uncounted (op : MessageOp) : Prop := op.isLimit = false

theorem performs_one (op : MessageOp) (h : op.isLimit = false) (t : MessageTable) :
    Performs Uncounted t (op.apply t) :=
  Performs.one h t

variable (s : Engine) (a : Uuid) (o : Oracle)

theorem performs_enqueue {P : MessageOp → Prop} {t t' : MessageTable}
    (hP : ∀ id sender target body sha256 replyTo onBehalfOf now,
      P (.enqueue id sender target body sha256 replyTo onBehalfOf now))
    {id : Uuid} {sender : MessageSender} {target : Uuid} {body sha256 : String}
    {replyTo : Option Uuid} {onBehalfOf : Option String} {now : Timestamp}
    (h : enqueue t (newRow id sender target body sha256 replyTo onBehalfOf now) = some t') :
    Performs P t t' := by
  have hone := Performs.one (hP id sender target body sha256 replyTo onBehalfOf now) t
  unfold MessageOp.apply at hone
  dsimp only at hone
  rw [h] at hone
  exact hone

theorem performs_markError (t : MessageTable) (mid : Uuid) (err : String) (now : Timestamp) :
    Performs Uncounted t (markError t mid err now) :=
  performs_one (.markError mid err now) rfl t

/-- The operations of a notification: one row is added, one column of another is written. -/
def IsNotice : MessageOp → Prop
  | .enqueue _ _ _ _ _ _ _ _ => True
  | .claimNotification _ => True
  | _ => False

theorem notice_notifySender (t : MessageTable) (mid : Uuid) :
    Performs IsNotice t (notifySender t mid o).1 := by
  have hclaim : Performs IsNotice t (claimNotification t mid).1 :=
    Performs.one (show IsNotice (.claimNotification mid) from trivial) t
  unfold notifySender
  dsimp only
  split
  · exact .refl _ t
  · split
    · split
      · split
        · exact hclaim
        · split
          · rename_i t' ht'
            exact hclaim.trans (performs_enqueue (fun _ _ _ _ _ _ _ _ => trivial) ht')
          · exact hclaim
      · exact hclaim
    · exact hclaim

theorem performs_notifySender (t : MessageTable) (mid : Uuid) :
    Performs Uncounted t (notifySender t mid o).1 := by
  refine (notice_notifySender o t mid).mono fun op hop => ?_
  cases op with
  | enqueue id sender target body sha256 replyTo onBehalfOf now => rfl
  | claimNotification id => rfl
  | _ => exact hop.elim

theorem performs_settle (t : MessageTable) (mid : Uuid) (ended : TurnEnd) (text : Option String) :
    Performs Uncounted t (settle t mid ended text o).1 := by
  cases ended with
  | needsAuth => exact performs_one (.requeueUndelivered mid _) rfl t
  | taskError => exact (performs_markError t mid _ _).trans (performs_notifySender o _ mid)
  | completed =>
      have hcomplete : Performs Uncounted t (complete t mid text o.now).1 :=
        performs_one (.complete mid text o.now) rfl t
      exact hcomplete.trans (performs_notifySender o _ mid)
  | limited signal => exact .refl _ t

theorem performs_markInterrupted (t : MessageTable) (stopping : List (Uuid × Option Uuid)) :
    Performs Uncounted t (markInterrupted t stopping o) := by
  unfold markInterrupted
  generalize stopping.filterMap Prod.snd = mids
  induction mids generalizing t with
  | nil => exact .refl _ t
  | cons mid mids ih => exact (performs_markError t mid _ _).trans (ih _)

theorem performs_enqueueMessage (m : NewMessage) :
    Performs Uncounted s.messages (enqueueMessage s m o).1.messages := by
  unfold enqueueMessage
  split
  · exact .refl _ _
  · rename_i t ht
    dsimp only [Engine.setMessages_messages]
    split
    · have hrequest : Performs Uncounted t (requestNotification t m.id) :=
        performs_one (.requestNotification m.id) rfl t
      exact (performs_enqueue (fun _ _ _ _ _ _ _ _ => rfl) ht).trans hrequest
    · exact performs_enqueue (fun _ _ _ _ _ _ _ _ => rfl) ht

theorem performs_reapSettle (initialised diagnosed : Bool) :
    Performs Uncounted s.messages (reapSettle s a initialised diagnosed o).1.messages := by
  rw [messages_reapSettle]
  split
  · exact performs_one (.consumeAllDeliveredAsInterrupted a _ _) rfl _
  · exact performs_one (.requeueAllUndelivered a _) rfl _

theorem performs_resumeEnqueue :
    Performs Uncounted s.messages (resumeEnqueue s a o).1.messages := by
  rw [messages_resumeEnqueue]
  split
  · exact .refl _ _
  · cases ht : enqueue s.messages (noteRow o a none) with
    | none => exact .refl _ _
    | some t => exact performs_enqueue (fun _ _ _ _ _ _ _ _ => rfl) ht

/-- No section but the one that requeues a limited turn returns a message for it. -/
theorem performs_act {c : Section Instr Phase Uuid}
    (h : ∀ t signal overBudget, c ≠ .first (.requeueLimited t signal overBudget)) :
    Performs Uncounted s.messages (machine.act c s o).1.messages := by
  by_cases hp : isPlain c = true
  · rw [(sameBut_act s o hp).messages]
    exact .refl _ _
  cases c with
  | first i =>
      change Performs Uncounted s.messages (exec i s o).1.messages
      cases i with
      | enqueue m => exact performs_enqueueMessage s o m
      | take a why => exact (messages_takeSlot s a o why).symm ▸ .refl _ _
      | interruptSettle a mid => exact performs_markError s.messages mid _ _
      | requeueInterrupted a mid => exact performs_one (.requeueUndelivered mid _) rfl _
      | event rd ev => exact (messages_onEvent s o rd ev).symm ▸ .refl _ _
      | settleTurn t ended overBudget =>
          rw [show (exec (.settleTurn t ended overBudget) s o).1.messages = _ from
            messages_settleTurn s o t ended overBudget]
          unfold settleFinished
          split
          · exact .refl _ _
          · exact performs_settle o s.messages _ ended t.text
      | requeueLimited t signal overBudget => exact absurd rfl (h t signal overBudget)
      | reapSettle a initialised diagnosed =>
          exact performs_reapSettle s a o initialised diagnosed
      | resumeEnqueue a => exact performs_resumeEnqueue s a o
      | shutdownTake slots stopping =>
          exact (messages_shutdownTake s slots stopping).symm ▸ .refl _ _
      | shutdownSettle stopping => exact performs_markInterrupted o s.messages stopping
      | _ => first | exact .refl _ _ | exact absurd rfl hp
  | later a p =>
      change Performs Uncounted s.messages (proceed a p s o).1.messages
      cases p with
      | startSpawn next => exact (messages_startSpawn s a o next).symm ▸ .refl _ _
      | pumpQuarantine mid =>
          have hquarantine : Performs Uncounted s.messages (quarantine s.messages mid setAside) :=
            performs_one (.quarantine mid setAside) rfl _
          exact hquarantine.trans (performs_notifySender o _ mid)
      | pumpWrite row =>
          unfold proceed pumpWrite
          dsimp only
          split
          · exact performs_one (.setLastError row.id _) rfl _
          · exact .refl _ _
      | pumpAdvance mid =>
          exact performs_one (.advance mid .delivered o.now) rfl _
      | _ => exact absurd rfl hp

/-! ## A limited turn -/

/-- The message was consumed with an error. -/
def Failed (t : MessageTable) (m : Uuid) : Prop :=
  ∃ q ∈ t.get? m, q.state = .consumed ∧ q.isError = true

variable {m : Uuid}

/-- A notification leaves the messages that stand settled as they are. -/
theorem failed_notice {op : MessageOp} (hop : IsNotice op) {t : MessageTable} (h : Failed t m) :
    Failed (op.apply t) m := by
  obtain ⟨q, hq, hfailed⟩ := h
  cases op with
  | enqueue id sender target body sha256 replyTo onBehalfOf now =>
      unfold MessageOp.apply
      dsimp only
      cases he : Messages.enqueue t (newRow id sender target body sha256 replyTo onBehalfOf now) with
      | none => exact ⟨q, hq, hfailed⟩
      | some t' =>
          obtain ⟨hnone, -⟩ := Keyed.insert_eq_some_iff.mp he
          refine ⟨q, ?_, hfailed⟩
          rw [Option.getD_some, Keyed.get?_of_insert he, if_neg]
          · exact hq
          · rintro rfl
            rw [Option.mem_def.mp hq] at hnone
            cases hnone
  | claimNotification id =>
      change Failed (claimNotification t id).1 m
      unfold Failed claimNotification
      dsimp only
      rw [Keyed.get?_updateWhere, Option.mem_def.mp hq]
      refine ⟨_, rfl, ?_⟩
      dsimp only
      split
      · exact hfailed
      · exact hfailed
  | _ => exact hop.elim

theorem failed_notifySender {t : MessageTable} (mid : Uuid) (h : Failed t m) :
    Failed (notifySender t mid o).1 m :=
  (notice_notifySender o t mid).induct (R := fun t t' => Failed t m → Failed t' m)
    (fun _ h => h) (fun _ _ _ h h' => h' ∘ h) (fun _ hop _ h => failed_notice hop h) h

/-- Of the other messages a limited turn counts nothing. -/
theorem limitCount_requeueWithinCap_of_ne (t : MessageTable) {finished : Option Uuid}
    (h : finished ≠ some m) : limitCount (requeueWithinCap t finished o).1 m = limitCount t m := by
  unfold requeueWithinCap
  cases finished with
  | none => rfl
  | some mid =>
      have hm : m ≠ mid := fun hm => h (congrArg some hm.symm)
      have hlimit := limitCount_requeueForLimit_of_ne (t := t) hm rateLimitedReason
        Quota.maxLimitRequeues
      dsimp only
      split
      · rename_i t' done hr
        rw [hr] at hlimit
        exact hlimit
      · rename_i t' done hr
        rw [hr] at hlimit
        refine Eq.trans ?_ hlimit
        exact limitCount_performs
          ((performs_markError t' mid _ o.now).trans (performs_notifySender o _ mid))
      · rename_i t' hr
        rw [hr] at hlimit
        exact hlimit

/-- Below the cap the message goes back to the queue and is counted. -/
theorem requeueWithinCap_below {t : MessageTable} {q : MessageRow} (h : t.get? m = some q)
    (hs : q.state = .delivered) (hcap : q.limitRequeues < Quota.maxLimitRequeues) :
    ∃ r ∈ (requeueWithinCap t (some m) o).1.get? m,
      r.state = .queued ∧ r.limitRequeues = q.limitRequeues + 1 := by
  obtain ⟨t', ht', r, hr, hrow⟩ := get?_requeueForLimit h hs rateLimitedReason hcap
  unfold requeueWithinCap
  dsimp only
  rw [ht']
  exact ⟨r, hr, hrow⟩

/-- From the cap on the message is consumed with an error, and not counted. -/
theorem requeueWithinCap_reached {t : MessageTable} {q : MessageRow} (h : t.get? m = some q)
    (hs : q.state = .delivered) (hcap : Quota.maxLimitRequeues ≤ q.limitRequeues) :
    Failed (requeueWithinCap t (some m) o).1 m ∧
      limitCount (requeueWithinCap t (some m) o).1 m = limitCount t m := by
  unfold requeueWithinCap
  dsimp only
  rw [requeueForLimit_capReached h hs rateLimitedReason hcap]
  obtain ⟨r, hr, he, hstate⟩ := get?_markError h (limitCapReason q.limitRequeues) o.now
  rw [if_pos hs] at hstate
  constructor
  · exact failed_notifySender o m ⟨r, hr, hstate, he⟩
  · exact limitCount_performs
      ((performs_markError t m _ o.now).trans (performs_notifySender o _ m))

/-- A message that is not delivered is left as it is. -/
theorem requeueWithinCap_notDelivered {t : MessageTable}
    (h : ∀ q ∈ t.get? m, q.state ≠ .delivered) : (requeueWithinCap t (some m) o).1 = t := by
  unfold requeueWithinCap
  dsimp only
  rw [requeueForLimit_notDelivered h]

/-! ## Runs across restarts -/

/-- An engine process goes on, or another one takes over the board, with nothing in memory
of the tasks and the slots of the one before. -/
inductive LifeEvent where
  | engine (e : Event)
  | restart (s : Engine)

def lifeStep (p : State) : LifeEvent → State
  | .engine e => p.step machine e
  | .restart s => Pool.idle (s.setMessages p.shared.messages)

/-- The message is there and in one of the states. -/
def stands (t : MessageTable) (m : Uuid) (f : MessageState → Bool) : Bool :=
  (t.get? m).any fun q => f q.state

/-- The step settles a turn on the message that a closed usage window ended. -/
def limitTurn (m : Uuid) (p : State) : LifeEvent → Bool
  | .engine e =>
      match p.due machine e with
      | some (.first (.requeueLimited t _ _), _, _, _) => t.finished = some m
      | _ => false
  | .restart _ => false

/-- The step returns the message to the queue because of a closed usage window. -/
def limitReturn (m : Uuid) (p : State) (e : LifeEvent) : Bool :=
  limitTurn m p e && stands p.shared.messages m (· = .delivered) &&
    stands (lifeStep p e).shared.messages m (· = .queued)

/-- The step returns the message to the queue for another reason. -/
def otherReturn (m : Uuid) (p : State) (e : LifeEvent) : Bool :=
  !limitReturn m p e && stands p.shared.messages m (· ≠ .queued) &&
    stands (lifeStep p e).shared.messages m (· = .queued)

/-- The step records the delivery of the message: its turn starts. -/
def started (m : Uuid) (p : State) (e : LifeEvent) : Bool :=
  !stands p.shared.messages m (· = .delivered) &&
    stands (lifeStep p e).shared.messages m (· = .delivered)

/-- What a step does to a message with respect to the cap. -/
structure LimitOk (m : Uuid) (p : State) (e : LifeEvent) : Prop where
  /-- The count goes up with a return of its own, and never changes otherwise. -/
  counted : limitCount (lifeStep p e).shared.messages m =
    limitCount p.shared.messages m + (limitReturn m p e).toNat
  /-- Below the cap a limited turn returns the message. -/
  returned : limitTurn m p e = true → stands p.shared.messages m (· = .delivered) = true →
    limitCount p.shared.messages m < Quota.maxLimitRequeues → limitReturn m p e = true
  /-- From the cap on it consumes the message with an error. -/
  failed : limitTurn m p e = true → stands p.shared.messages m (· = .delivered) = true →
    Quota.maxLimitRequeues ≤ limitCount p.shared.messages m →
      Failed (lifeStep p e).shared.messages m

/-- What a step does to the messages: one section of the engine acts on them, or none. -/
theorem lifeStep_messages (m : Uuid) (p : State) (e : LifeEvent) :
    (limitTurn m p e = false ∧ (lifeStep p e).shared.messages = p.shared.messages) ∨
      ∃ c o, (lifeStep p e).shared.messages = (machine.act c p.shared o).1.messages ∧
        (limitTurn m p e = true ↔
          ∃ t signal overBudget, c = .first (.requeueLimited t signal overBudget) ∧
            t.finished = some m) := by
  cases e with
  | restart s => exact .inl ⟨rfl, rfl⟩
  | engine e =>
      change (limitTurn m p (.engine e) = false ∧
        (p.step machine e).shared.messages = p.shared.messages) ∨ _
      rcases Pool.step_cases machine p e with ⟨c, tasks, rest, o, hd, hs⟩ | ⟨hd, hs⟩
      · right
        refine ⟨c, o, ?_, ?_⟩
        · change (p.step machine e).shared.messages = _
          rw [hs, Pool.shared_place]
        · unfold limitTurn
          dsimp only
          rw [hd]
          split
          · rename_i t signal overBudget _ _ _ heq
            obtain ⟨rfl, -⟩ := Prod.mk.inj (Option.some.inj heq)
            rw [decide_eq_true_iff]
            constructor
            · exact fun h => ⟨t, signal, overBudget, rfl, h⟩
            · rintro ⟨t', signal', overBudget', hc, h⟩
              cases hc
              exact h
          · rename_i hne
            constructor
            · intro h
              cases h
            · rintro ⟨t, signal, overBudget, rfl, -⟩
              exact absurd rfl (hne t signal overBudget tasks rest o)
      · left
        constructor
        · unfold limitTurn
          dsimp only
          rw [hd]
        · rcases hs with ⟨t, rfl, hs⟩ | hs
          · rw [hs]
          · rw [hs]

theorem stands_of_mem {t : MessageTable} {q : MessageRow} (h : q ∈ t.get? m)
    (f : MessageState → Bool) : stands t m f = f q.state := by
  unfold stands
  rw [Option.mem_def.mp h]
  rfl

theorem exists_of_stands {t : MessageTable} {f : MessageState → Bool}
    (h : stands t m f = true) : ∃ q ∈ t.get? m, f q.state = true :=
  Option.any_eq_true _ _ |>.mp h

theorem limitReturn_eq_false {p : State} {e : LifeEvent} (h : limitTurn m p e = false) :
    limitReturn m p e = false := by
  unfold limitReturn
  rw [h]
  rfl

/-- A step that is no limited turn on the message counts nothing for it. -/
theorem limitOk_of_not_limitTurn {p : State} {e : LifeEvent} (h : limitTurn m p e = false)
    (hcount : limitCount (lifeStep p e).shared.messages m = limitCount p.shared.messages m) :
    LimitOk m p e where
  counted := by
    rw [hcount, limitReturn_eq_false h]
    rfl
  returned hl := absurd hl (by rw [h]; exact Bool.false_ne_true)
  failed hl := absurd hl (by rw [h]; exact Bool.false_ne_true)

/-- A limited turn on the message returns it, consumes it, or finds it settled. -/
theorem limitOk_of_limitTurn {p : State} {e : LifeEvent} (h : limitTurn m p e = true)
    (hafter : (lifeStep p e).shared.messages =
      (requeueWithinCap p.shared.messages (some m) o).1) : LimitOk m p e := by
  by_cases hq : ∃ q ∈ p.shared.messages.get? m, q.state = .delivered
  · obtain ⟨q, hq, hs⟩ := hq
    have hcount := limitCount_of_get? (Option.mem_def.mp hq)
    have hbefore : stands p.shared.messages m (· = .delivered) = true := by
      rw [stands_of_mem hq, hs]
      rfl
    by_cases hcap : q.limitRequeues < Quota.maxLimitRequeues
    · obtain ⟨r, hr, hqueued, hlimit⟩ := requeueWithinCap_below o hq hs hcap
      rw [← hafter] at hr
      have hreturn : limitReturn m p e = true := by
        unfold limitReturn
        rw [h, hbefore, stands_of_mem hr, hqueued]
        rfl
      constructor
      · rw [limitCount_of_get? hr, hlimit, hcount, hreturn]
        rfl
      · exact fun _ _ _ => hreturn
      · intro _ _ hle
        rw [hcount] at hle
        exact absurd hcap (Nat.not_lt.mpr hle)
    · obtain ⟨hfailed, hkept⟩ := requeueWithinCap_reached o hq hs (Nat.not_lt.mp hcap)
      rw [← hafter] at hfailed hkept
      have hreturn : limitReturn m p e = false := by
        obtain ⟨r, hr, hconsumed, -⟩ := hfailed
        unfold limitReturn
        rw [stands_of_mem hr, hconsumed]
        exact Bool.and_false _
      constructor
      · rw [hkept, hreturn]
        rfl
      · intro _ _ hlt
        rw [hcount] at hlt
        exact absurd hlt hcap
      · exact fun _ _ _ => hfailed
  · have hnone : stands p.shared.messages m (· = .delivered) = false := by
      rw [Bool.eq_false_iff]
      intro hd
      obtain ⟨q, hmem, hs⟩ := exists_of_stands hd
      exact hq ⟨q, hmem, of_decide_eq_true hs⟩
    rw [requeueWithinCap_notDelivered o fun q hmem hs => hq ⟨q, hmem, hs⟩] at hafter
    have hreturn : limitReturn m p e = false := by
      unfold limitReturn
      rw [hnone, Bool.and_false]
      rfl
    constructor
    · rw [hafter, hreturn]
      rfl
    · intro _ hd
      rw [hnone] at hd
      cases hd
    · intro _ hd
      rw [hnone] at hd
      cases hd

theorem limitOk (m : Uuid) (p : State) (e : LifeEvent) : LimitOk m p e := by
  rcases lifeStep_messages m p e with ⟨hl, hs⟩ | ⟨c, o, hs, hl⟩
  · exact limitOk_of_not_limitTurn hl (by rw [hs])
  · cases h : limitTurn m p e with
    | true =>
        obtain ⟨t, signal, overBudget, rfl, hfin⟩ := hl.mp h
        apply limitOk_of_limitTurn o h
        rw [hs, ← hfin]
        rfl
    | false =>
        apply limitOk_of_not_limitTurn h
        rw [hs]
        by_cases hc : ∃ t signal overBudget, c = .first (.requeueLimited t signal overBudget)
        · obtain ⟨t, signal, overBudget, rfl⟩ := hc
          apply limitCount_requeueWithinCap_of_ne
          intro hfin
          rw [hl.mpr ⟨t, signal, overBudget, rfl, hfin⟩] at h
          cases h
        · refine limitCount_performs (performs_act p.shared o ?_)
          exact fun t signal overBudget h => hc ⟨t, signal, overBudget, h⟩

/-- Delivery is recorded of a queued message. -/
theorem stands_of_advanceOrKeep {t : MessageTable} {mid : Uuid} {now : Timestamp}
    (h : stands t m (· ≠ .queued) = true)
    (hd : stands (advanceOrKeep t mid .delivered now) m (· = .delivered) = true) :
    stands t m (· = .delivered) = true := by
  unfold advanceOrKeep at hd
  split at hd
  · rename_i t' ha
    obtain ⟨r, r', hr, hcan, -, -, hget⟩ := get?_of_advance ha
    by_cases hm : m = mid
    · subst hm
      rw [stands_of_mem hr] at h
      cases hs : r.state with
      | queued =>
          rw [hs] at h
          cases h
      | _ =>
          rw [hs] at hcan
          cases hcan
    · unfold stands at hd ⊢
      rw [hget, if_neg hm] at hd
      exact hd
  · exact hd

/-- A section finds a message delivered, or records the delivery of a queued one. -/
theorem stands_of_act {c : Section Instr Phase Uuid}
    (h : stands s.messages m (· ≠ .queued) = true)
    (hd : stands (machine.act c s o).1.messages m (· = .delivered) = true) :
    stands s.messages m (· = .delivered) = true := by
  by_cases hc : ∀ a mid, c ≠ .later a (.pumpAdvance mid)
  · obtain ⟨q', hq', hs⟩ := exists_of_stands hd
    obtain ⟨hmem, hid⟩ := Keyed.get?_eq_some_iff.mp (Option.mem_def.mp hq')
    obtain ⟨q, hq, hkept⟩ :=
      (messages_act s o hc).of_started hmem (.inl (of_decide_eq_true hs))
    have hget : q ∈ s.messages.get? m :=
      Keyed.get?_eq_some_iff.mpr ⟨hq, hkept.id.symm.trans hid⟩
    rw [stands_of_mem hget]
    exact decide_eq_true (hkept.delivered (of_decide_eq_true hs))
  · push Not at hc
    obtain ⟨a, mid, rfl⟩ := hc
    exact stands_of_advanceOrKeep h hd

/-- A message whose turn starts was waiting, or it was not there. -/
theorem started_eq_false {p : State} {e : LifeEvent}
    (h : stands p.shared.messages m (· ≠ .queued) = true) : started m p e = false := by
  unfold started
  rw [Bool.and_eq_false_imp]
  intro hbefore
  rw [Bool.eq_false_iff]
  intro hd
  rcases lifeStep_messages m p e with ⟨-, hs⟩ | ⟨c, o, hs, -⟩
  · rw [hs] at hd
    rw [hd] at hbefore
    cases hbefore
  · rw [hs] at hd
    rw [stands_of_act p.shared o h hd] at hbefore
    cases hbefore

/-- Whether a message may still have a turn started without a return to the queue. -/
def turnsLeft (m : Uuid) (p : State) : ℕ := (!stands p.shared.messages m (· ≠ .queued)).toNat

/-- A message that is there stays there. -/
theorem isSome_lifeStep {p : State} {e : LifeEvent}
    (h : (p.shared.messages.get? m).isSome = true) :
    ((lifeStep p e).shared.messages.get? m).isSome = true := by
  obtain ⟨q, hq⟩ := Option.isSome_iff_exists.mp h
  rcases lifeStep_messages m p e with ⟨-, hs⟩ | ⟨c, o, hs, -⟩
  · rw [hs]
    exact h
  · obtain ⟨q', hq', -⟩ := (follows_act p.shared o c).get? hq
    rw [hs, hq']
    rfl

theorem isSome_of_stands {t : MessageTable} {f : MessageState → Bool}
    (h : stands t m f = true) : (t.get? m).isSome = true := by
  obtain ⟨q, hq, -⟩ := exists_of_stands h
  exact Option.isSome_of_mem hq

theorem queued_of_not_out {t : MessageTable} (hsome : (t.get? m).isSome = true)
    (h : stands t m (· ≠ .queued) = false) : stands t m (· = .queued) = true := by
  obtain ⟨q, hq⟩ := Option.isSome_iff_exists.mp hsome
  rw [stands_of_mem hq] at h ⊢
  rw [decide_eq_false_iff_not, not_not] at h
  exact decide_eq_true h

theorem not_delivered_of_not_out {t : MessageTable} (h : stands t m (· ≠ .queued) = false) :
    stands t m (· = .delivered) = false := by
  rw [Bool.eq_false_iff]
  intro hd
  obtain ⟨q, hq, hs⟩ := exists_of_stands hd
  rw [stands_of_mem hq, of_decide_eq_true hs] at h
  cases h

/-- A turn uses up the one that is left, and only a return to the queue restores it. -/
theorem turnsLeft_lifeStep (m : Uuid) (p : State) (e : LifeEvent) :
    turnsLeft m (lifeStep p e) + (started m p e).toNat ≤
      turnsLeft m p + (limitReturn m p e || otherReturn m p e).toNat := by
  cases hout : stands p.shared.messages m (· ≠ .queued) with
  | true =>
      rw [started_eq_false hout]
      cases hout' : stands (lifeStep p e).shared.messages m (· ≠ .queued) with
      | true =>
          unfold turnsLeft
          rw [hout']
          exact Nat.zero_le _
      | false =>
          have hqueued := queued_of_not_out (isSome_lifeStep (isSome_of_stands hout)) hout'
          have hreturn : (limitReturn m p e || otherReturn m p e) = true := by
            unfold otherReturn
            rw [hout, hqueued, Bool.and_true, Bool.and_true, Bool.or_not_self]
          rw [hreturn]
          exact Nat.le_add_left_of_le (Bool.toNat_le _)
  | false =>
      cases hout' : stands (lifeStep p e).shared.messages m (· ≠ .queued) with
      | true =>
          unfold turnsLeft
          rw [hout, hout', show (!true).toNat = 0 from rfl, Nat.zero_add]
          exact Nat.le_add_right_of_le (Bool.toNat_le _)
      | false =>
          have hnot : started m p e = false := by
            unfold started
            rw [Bool.and_eq_false_imp]
            exact fun _ => not_delivered_of_not_out hout'
          unfold turnsLeft
          rw [hout, hout', hnot]
          exact Nat.le_add_right _ _

/-- A limited turn returns the message below the cap only. -/
theorem limitCount_lt_of_limitReturn {p : State} {e : LifeEvent}
    (h : limitReturn m p e = true) :
    limitCount p.shared.messages m < Quota.maxLimitRequeues := by
  unfold limitReturn at h
  rw [Bool.and_eq_true, Bool.and_eq_true] at h
  obtain ⟨⟨hturn, hbefore⟩, hafter⟩ := h
  by_contra hcap
  obtain ⟨q, hq, hs, -⟩ := (limitOk m p e).failed hturn hbefore (Nat.not_lt.mp hcap)
  rw [stands_of_mem hq, hs] at hafter
  cases hafter

/-- How many more returns the count allows. -/
def returnsLeft (m : Uuid) (p : State) : ℕ :=
  Quota.maxLimitRequeues - limitCount p.shared.messages m

theorem returnsLeft_lifeStep (m : Uuid) (p : State) (e : LifeEvent) :
    returnsLeft m (lifeStep p e) + (limitReturn m p e).toNat ≤ returnsLeft m p + false.toNat := by
  have hcounted := (limitOk m p e).counted
  unfold returnsLeft
  rw [hcounted]
  cases h : limitReturn m p e with
  | false => exact Nat.le_refl _
  | true =>
      have hlt := limitCount_lt_of_limitReturn h
      rw [show true.toNat = 1 from rfl, show false.toNat = 0 from rfl]
      omega

theorem count_limitReturn_le (m : Uuid) (p : State) (x : List LifeEvent) :
    Run.count lifeStep (limitReturn m) p x ≤ Quota.maxLimitRequeues := by
  have hcount := Run.count_add_le (returnsLeft_lifeStep m) p x
  rw [Run.count_eq_zero (P := fun _ _ => false) (fun _ _ => rfl)] at hcount
  have hleft : returnsLeft m p ≤ Quota.maxLimitRequeues := Nat.sub_le _ _
  omega

theorem count_started_le (m : Uuid) (p : State) (x : List LifeEvent) :
    Run.count lifeStep (started m) p x ≤ 1 +
      (Run.count lifeStep (limitReturn m) p x + Run.count lifeStep (otherReturn m) p x) := by
  have hcount := Run.count_add_le (turnsLeft_lifeStep m) p x
  have hsplit : Run.count lifeStep (fun p e => limitReturn m p e || otherReturn m p e) p x ≤
      Run.count lifeStep (limitReturn m) p x + Run.count lifeStep (otherReturn m) p x :=
    Run.count_le_add (fun _ _ h => (Bool.or_eq_true _ _).mp h) p x
  have hleft : turnsLeft m p ≤ 1 := Bool.toNat_le _
  omega

/-- Limit requeues are bounded in every run, across restarts and returns of other kinds:
each is counted, at the cap a limited turn consumes the message with an error, and next to
the returns of other kinds at most one turn more than the cap is started. -/
theorem limit_requeues_bounded (t : MessageTable) (m : Uuid) (x : List LifeEvent) :
    Run.Always lifeStep (LimitOk m) (Pool.idle (Engine.fresh t)) x ∧
      Run.count lifeStep (limitReturn m) (Pool.idle (Engine.fresh t)) x ≤
        Quota.maxLimitRequeues ∧
      Run.count lifeStep (started m) (Pool.idle (Engine.fresh t)) x ≤
        Quota.maxLimitRequeues + 1 +
          Run.count lifeStep (otherReturn m) (Pool.idle (Engine.fresh t)) x := by
  have hreturns := count_limitReturn_le m (Pool.idle (Engine.fresh t)) x
  refine ⟨?_, hreturns, ?_⟩
  · exact Run.always_of_forall_mem fun p e _ => limitOk m p e
  · have hstarted := count_started_le m (Pool.idle (Engine.fresh t)) x
    omega

end Supervisor

end Wheel
