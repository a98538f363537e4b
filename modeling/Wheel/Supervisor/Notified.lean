import Wheel.Db.Notifications
import Wheel.Supervisor.Frame

/-!
# One completion notification

A message may ask for a notification when it is settled. The sections that end a
turn or set a message aside claim it and enqueue it, and the column they claim
goes from asked to sent once. An interrupt, a shutdown and an exit during a
shutdown settle a message without a claim. `one_notification` says of a message
that no such section settles it while it is owed a notification, and that nobody
asks for it again once it is sent or settled: at most one notification about it is
ever enqueued, and exactly one, to its sender, once it is settled.
`interrupt_announces_nothing` has the run in which an interrupt settles it.
-/

namespace Wheel

namespace Supervisor

open Concurrency Messages

variable {m : Uuid} {t : MessageTable} {o : Oracle} {mid : Uuid} {q : MessageRow}

/-- The sender of the message is an agent that still exists, and the id of the
notification is a new one, when it is claimed. -/
def Reaches (m : Uuid) (t : MessageTable) (o : Oracle) : Prop :=
  ∀ q ∈ t.get? m, q.notify = 1 → (senderOf q).isSome = true →
    o.senderIsAgent = true ∧ t.get? o.noteId = none

/-- The message can be settled by a section that notifies nobody. -/
def Unowed (m : Uuid) (t : MessageTable) : Prop :=
  ∀ q ∈ t.get? m, q.state = .delivered → q.notify ≠ 1

/-- What a section has to find so that message `m` is announced: who settles it
without a notification finds that none is owed, and nobody but the engine answers
it in the engine's name. -/
def Announces (m : Uuid) (p : State) (c : Section Instr Phase Uuid) (o : Oracle) : Prop :=
  match c with
  | .first (.enqueue n) => n.sender = .system → n.replyTo ≠ some m
  | .first (.settleTurn t _ _) => t.finished = some m → Reaches m p.shared.messages o
  | .first (.requeueLimited t _ _) => t.finished = some m → Reaches m p.shared.messages o
  | .later _ (.pumpQuarantine mid) => mid = m → Reaches m p.shared.messages o
  | .first (.interruptSettle _ mid) => mid = m → Unowed m p.shared.messages
  | .first (.reapSettle a _ _) => p.shared.closing = true →
      ∀ q ∈ p.shared.messages.get? m, q.toId = a → q.state = .delivered → q.notify ≠ 1
  | .first (.shutdownSettle stopping) =>
      some m ∈ stopping.map Prod.snd → Unowed m p.shared.messages
  | _ => True

instance : Decidable (Reaches m t o) := by
  unfold Reaches
  infer_instance

instance : Decidable (Unowed m t) := by
  unfold Unowed
  infer_instance

instance (p : State) (c : Section Instr Phase Uuid) : Decidable (Announces m p c o) := by
  apply Section.casesOn (motive := fun c => Decidable (Announces m p c o)) c
  · intro i
    apply Instr.casesOn (motive := fun i => Decidable (Announces m p (.first i) o)) i <;>
      intros <;> dsimp only [Announces] <;> infer_instance
  · intro a h
    apply Phase.casesOn (motive := fun h => Decidable (Announces m p (.later a h) o)) h <;>
      intros <;> dsimp only [Announces] <;> infer_instance

/-- The engine goes on, or somebody asks for or claims a notification. -/
inductive NotifyEvent where
  | engine (e : Event)
  | request (id : Uuid)
  | claim (id : Uuid)

def notifyStep (p : State) : NotifyEvent → State
  | .engine e => p.step machine e
  | .request id =>
      { p with shared := p.shared.setMessages (requestNotification p.shared.messages id) }
  | .claim id =>
      { p with shared := p.shared.setMessages (claimNotification p.shared.messages id).1 }

/-- The condition on a step: a notification is asked for before the message is
settled and notified, and whoever claims it apart from the engine finds none. -/
def KeepsPromise (m : Uuid) (p : State) : NotifyEvent → Prop
  | .engine e => p.Meets machine (fun _ => True) (Announces m) e
  | .request id => id = m → ∀ q ∈ p.shared.messages.get? m,
      q.notify ≠ 2 ∧ ¬ q.state.IsTerminal
  | .claim id => id = m → ∀ q ∈ p.shared.messages.get? m, q.notify ≠ 1

instance (p : State) (e : NotifyEvent) : Decidable (KeepsPromise m p e) := by
  apply NotifyEvent.casesOn (motive := fun e => Decidable (KeepsPromise m p e)) e <;>
    intros <;> dsimp only [KeepsPromise, MessageState.IsTerminal] <;> infer_instance

/-! ## Claiming -/

theorem claimed_iff : (claimNotification t mid).2 = true ↔ ∃ q ∈ t.get? mid, q.notify = 1 := by
  unfold claimNotification
  dsimp only
  rw [List.any_eq_true]
  constructor
  · rintro ⟨r, hr, hp⟩
    have hp : r.id = mid ∧ r.notify = 1 := by simpa using hp
    exact ⟨r, Keyed.get?_eq_some_iff.mpr ⟨hr, hp.1⟩, hp.2⟩
  · rintro ⟨q, hq, hn⟩
    obtain ⟨hmem, hid⟩ := Keyed.get?_eq_some_iff.mp hq
    exact ⟨q, hmem, by simp [hid, hn]⟩

theorem notifySender_of_unclaimed (h : ∀ q ∈ t.get? mid, q.notify ≠ 1) :
    notifySender t mid o = (t, none) := by
  have hcl : (claimNotification t mid).2 = false := by
    rw [Bool.eq_false_iff, Ne, claimed_iff]
    rintro ⟨q, hq, hn⟩
    exact h q hq hn
  unfold notifySender
  dsimp only
  rw [hcl]
  rfl

theorem get?_claimNotification (hq : t.get? mid = some q) (hn : q.notify = 1) :
    (claimNotification t mid).1.get? mid = some { q with notify := 2 } := by
  unfold claimNotification
  dsimp only
  rw [Keyed.get?_updateWhere, hq]
  simp [(Keyed.get?_eq_some_iff.mp hq).2, hn]

theorem notifySender_of_claimed (hq : t.get? mid = some q) (hn : q.notify = 1) :
    (notifySender t mid o).1 =
      match senderOf q with
      | some sender =>
          if o.senderIsAgent then
            (enqueue (claimNotification t mid).1 (noteRow o sender (some mid))).getD
              (claimNotification t mid).1
          else (claimNotification t mid).1
      | none => (claimNotification t mid).1 := by
  have hcl : (claimNotification t mid).2 = true := claimed_iff.mpr ⟨q, hq, hn⟩
  have hget := get?_claimNotification hq hn
  unfold notifySender senderOf
  dsimp only
  rw [hcl, hget]
  dsimp only [Bool.not_true, Bool.false_eq_true, if_false]
  cases q.fromKind with
  | user => rfl
  | system => rfl
  | node =>
      cases q.fromId with
      | none => rfl
      | some sender =>
          cases o.senderIsAgent with
          | false => rfl
          | true =>
              dsimp only [Bool.not_true, Bool.false_eq_true, if_false]
              cases enqueue (claimNotification t mid).1 (noteRow o sender (some mid)) <;> rfl

theorem announced_of_sent (hq : t.get? m = some q) (hn : q.notify = 2)
    (hnotes : notes t m = (senderOf q).toList) : Announced m t := by
  refine ⟨⟨?_, fun r hr => ?_⟩, fun r hr _ => ?_⟩
  · rw [hnotes, hq, Option.elim_some, announced, if_pos hn]
  · obtain rfl : q = r := Option.some.inj (hq.symm.trans hr)
    exact hn.le
  · obtain rfl : q = r := Option.some.inj (hq.symm.trans hr)
    rw [hn]
    exact Nat.succ_ne_self 1

/-- A claimed notification is enqueued, if there is an agent it goes to. -/
theorem announced_of_claimed (hc : Counted m t) (hq : t.get? m = some q) (hn : q.notify = 1)
    (ho : Reaches m t o) : Announced m (notifySender t m o).1 := by
  have hget := get?_claimNotification hq hn
  have hnotes : notes (claimNotification t m).1 m = [] := by
    have hsame : notes (claimNotification t m).1 m = notes t m :=
      notes_updateWhere (fun _ => by rfl) (fun _ => rfl) (fun _ => rfl) fun _ => rfl
    rw [hsame, hc.notes, hq, Option.elim_some, announced, if_neg]
    rw [hn]
    exact Nat.succ_ne_self 1 ∘ Eq.symm
  rw [notifySender_of_claimed hq hn]
  cases hs : senderOf q with
  | none =>
      refine announced_of_sent hget rfl ?_
      rw [hnotes, show senderOf { q with notify := 2 } = senderOf q from rfl, hs]
      rfl
  | some sender =>
      obtain ⟨hagent, hfresh⟩ := ho q hq hn (by rw [hs]; rfl)
      dsimp only
      rw [hagent, if_pos rfl]
      have hid : (claimNotification t m).1.get? o.noteId = none := by
        unfold claimNotification
        dsimp only
        rw [Keyed.get?_updateWhere, hfresh]
        rfl
      have hne : o.noteId ≠ m := by
        rintro rfl
        rw [hq] at hfresh
        cases hfresh
      obtain ⟨t', he⟩ : ∃ t', enqueue (claimNotification t m).1
          (noteRow o sender (some m)) = some t' := exists_enqueue hid
      rw [he]
      refine announced_of_sent ((get?_of_enqueue_of_ne he hne).trans hget) rfl ?_
      rw [show senderOf { q with notify := 2 } = senderOf q from rfl, hs]
      exact (notes_of_insert he).trans (by rw [hnotes]; exact if_pos ⟨rfl, rfl⟩)

/-- What a section settles, it announces. -/
theorem announced_notifySender (hc : Counted m t) (hother : mid ≠ m → Announced m t)
    (ho : mid = m → Reaches m t o) : Announced m (notifySender t mid o).1 := by
  by_cases hn : ∃ q ∈ t.get? mid, q.notify = 1
  swap
  · push Not at hn
    rw [notifySender_of_unclaimed hn]
    by_cases hm : mid = m
    · subst hm
      exact ⟨hc, fun q hq _ => hn q hq⟩
    · exact hother hm
  obtain ⟨q, hq, hn⟩ := hn
  by_cases hm : mid = m
  · subst hm
    exact announced_of_claimed hc hq hn (ho rfl)
  have hclaim : Announced m (claimNotification t mid).1 :=
    announced_claimNotification (hother hm) fun h => absurd h hm
  have hrow : ∀ sender, ¬ IsNote m (noteRow o sender (some mid)) := by
    rintro sender ⟨-, hreply⟩
    exact hm (Option.some.inj hreply)
  rw [notifySender_of_claimed hq hn]
  cases senderOf q with
  | none => exact hclaim
  | some sender =>
      dsimp only
      split
      · cases he : enqueue (claimNotification t mid).1 (noteRow o sender (some mid)) with
        | none => exact hclaim
        | some t' => exact announced_enqueue hclaim he (hrow sender) rfl
      · exact hclaim

/-! ## The sections -/

theorem Reaches.carries {t' : MessageTable} (h : Reaches m t o) (hc : Carries t t') :
    Reaches m t' o := by
  intro q' hq' hn hs
  obtain ⟨q, hq, hsame⟩ := hc m q' hq'
  have hsender : senderOf q' = senderOf q := by
    unfold senderOf
    rw [hsame.fromKind, hsame.fromId]
  obtain ⟨hagent, hfresh⟩ := h q hq (hsame.notify ▸ hn) (hsender ▸ hs)
  refine ⟨hagent, ?_⟩
  cases hid : t'.get? o.noteId with
  | none => rfl
  | some r =>
      obtain ⟨r', hr', -⟩ := hc o.noteId r hid
      rw [hfresh] at hr'
      cases hr'

theorem announced_settle (h : Announced m t) (ended : TurnEnd) (text : Option String)
    (ho : mid = m → Reaches m t o) : Announced m (settle t mid ended text o).1 := by
  cases ended with
  | limited signal => exact h
  | needsAuth => exact announced_requeueRow h _
  | taskError =>
      refine announced_notifySender (counted_markError h.toCounted mid _ _) (fun hm => ?_)
        fun hm => (ho hm).carries (carries_markError mid _ _)
      exact announced_markError h _ _ fun hmid => absurd hmid hm
  | completed =>
      refine announced_notifySender (counted_complete h.toCounted mid _ _) (fun hm => ?_)
        fun hm => (ho hm).carries (carries_complete mid _ _)
      exact h.of_get? (counted_complete h.toCounted mid _ _)
        (get?_complete_of_ne (Ne.symm hm) _ _)

theorem announced_requeueWithinCap (h : Announced m t) {finished : Option Uuid}
    (ho : finished = some m → Reaches m t o) :
    Announced m (requeueWithinCap t finished o).1 := by
  unfold requeueWithinCap
  cases finished with
  | none => exact h
  | some mid =>
      have hlimit := announced_requeueForLimit h mid rateLimitedReason Quota.maxLimitRequeues
      dsimp only
      split
      · rename_i t' done hr
        rw [hr] at hlimit
        exact hlimit
      · rename_i t' done hr
        obtain rfl := requeueForLimit_of_capReached hr
        refine announced_notifySender (counted_markError h.toCounted mid _ _) (fun hm => ?_)
          fun hm => (ho (congrArg some hm)).carries (carries_markError mid _ _)
        exact announced_markError h _ _ fun hmid => absurd hmid hm
      · rename_i t' hr
        rw [hr] at hlimit
        exact hlimit

theorem unowed_markError (h : Unowed m t) (mid : Uuid) (err : String) (now : Timestamp) :
    Unowed m (markError t mid err now) := by
  intro q hq hs
  by_cases hm : m = mid
  · subst hm
    obtain ⟨hmem, hid⟩ := Keyed.get?_eq_some_iff.mp hq
    exact absurd hs (cleared_markError t m err now q hmem hid)
  · rw [get?_markError_of_ne hm] at hq
    exact h q hq hs

theorem announced_markInterrupted (h : Announced m t) {stopping : List (Uuid × Option Uuid)}
    (hm : some m ∈ stopping.map Prod.snd → Unowed m t) :
    Announced m (markInterrupted t stopping o) := by
  have hmem : m ∈ stopping.filterMap Prod.snd → Unowed m t := by
    intro hin
    obtain ⟨x, hx, hmid⟩ := List.mem_filterMap.mp hin
    exact hm (List.mem_map.mpr ⟨x, hx, hmid⟩)
  unfold markInterrupted
  generalize stopping.filterMap Prod.snd = mids at hmem
  clear hm
  induction mids generalizing t with
  | nil => exact h
  | cons mid mids ih =>
      rw [List.foldl_cons]
      refine ih (announced_markError h _ _ fun hid => ?_) fun hin => ?_
      · exact hmem (hid ▸ List.mem_cons_self)
      · exact unowed_markError (hmem (List.mem_cons_of_mem _ hin)) mid _ _

variable {p : State} {c : Section Instr Phase Uuid}

theorem announced_first (h : Announced m p.shared.messages) {i : Instr}
    (hc : Announces m p (.first i) o) : Announced m (exec i p.shared o).1.messages := by
  by_cases hp : i.isPlain = true
  · rw [(sameBut_exec p.shared o i hp).messages]
    exact h
  cases i with
  | enqueue n =>
      show Announced m (enqueueMessage p.shared n o).1.messages
      unfold enqueueMessage
      split
      · exact h
      · rename_i t ht
        have hnote : ¬ IsNote m (newRow n.id n.sender n.target n.body n.sha256 n.replyTo
            n.onBehalfOf o.now) := by
          rintro ⟨hkind, hreply⟩
          refine hc ?_ hreply
          cases hs : n.sender with
          | system => rfl
          | user =>
              rw [newRow, hs] at hkind
              cases hkind
          | node id name nodeType =>
              rw [newRow, hs] at hkind
              cases hkind
        have ht' := announced_enqueue h ht hnote rfl
        dsimp only [Engine.setMessages_messages]
        split
        · refine announced_requestNotification ht' fun hid q hq => ?_
          obtain rfl := hid
          cases (get?_of_enqueue ht).symm.trans hq
          refine ⟨nofun, ?_⟩
          rintro (hterm | hterm) <;> cases hterm
        · exact ht'
  | take a why => exact (messages_takeSlot p.shared a o why).symm ▸ h
  | interruptSettle a mid => exact announced_markError h _ _ hc
  | requeueInterrupted a mid => exact announced_requeueRow h _
  | event rd ev => exact (messages_onEvent p.shared o rd ev).symm ▸ h
  | settleTurn t ended overBudget =>
      rw [show (exec (.settleTurn t ended overBudget) p.shared o).1.messages = _ from
        messages_settleTurn p.shared o t ended overBudget]
      unfold settleFinished
      split
      · exact h
      · rename_i mid hfin
        exact announced_settle h ended t.text fun hm => hc (hfin.trans (congrArg some hm))
  | requeueLimited t signal overBudget => exact announced_requeueWithinCap h hc
  | reapSettle a initialised diagnosed =>
      rw [show (exec (.reapSettle a initialised diagnosed) p.shared o).1.messages = _ from
        messages_reapSettle p.shared a o initialised diagnosed]
      split
      · rename_i hclosing
        exact announced_consumeAll h _ _ (hc hclosing)
      · exact announced_requeueRow h _
  | resumeEnqueue a =>
      rw [show (exec (.resumeEnqueue a) p.shared o).1.messages = _ from
        messages_resumeEnqueue p.shared a o]
      split
      · exact h
      · cases ht : enqueue p.shared.messages (noteRow o a none) with
        | none => exact h
        | some t => exact announced_enqueue h ht (fun hn => nomatch hn.2) rfl
  | shutdownTake slots stopping =>
      exact (messages_shutdownTake p.shared slots stopping).symm ▸ h
  | shutdownSettle stopping => exact announced_markInterrupted h hc
  | _ => first | exact h | exact absurd rfl hp

theorem announced_later (h : Announced m p.shared.messages) {a : Uuid} {ph : Phase}
    (hc : Announces m p (.later a ph) o) : Announced m (proceed a ph p.shared o).1.messages := by
  cases ph with
  | startSpawn next => exact (messages_startSpawn p.shared a o next).symm ▸ h
  | pumpQuarantine mid =>
      refine announced_notifySender (counted_quarantine h.toCounted mid _) (fun hm => ?_)
        fun hm => (hc hm).carries ?_
      · refine h.of_get? (counted_quarantine h.toCounted mid _) ?_
        rw [quarantine, Keyed.get?_modify, if_neg (Ne.symm hm)]
      · exact carries_updateWhere (fun _ => by rfl) fun _ => ⟨rfl, rfl, rfl, rfl, rfl⟩
  | pumpWrite row =>
      show Announced m (pumpWrite p.shared a row o).1.messages
      unfold pumpWrite
      split
      · exact announced_setLastError h row.id _
      · exact h
  | pumpAdvance mid => exact announced_deliver h mid o.now
  | _ =>
      rw [(sameBut_proceed p.shared a o _ rfl).messages]
      exact h

theorem announced_act (h : Announced m p.shared.messages) (hc : Announces m p c o) :
    Announced m (machine.act c p.shared o).1.messages := by
  cases c with
  | first i => exact announced_first h hc
  | later a ph => exact announced_later h hc

/-! ## The runs -/

theorem announced_step (h : Announced m p.shared.messages) {e : NotifyEvent}
    (he : KeepsPromise m p e) : Announced m (notifyStep p e).shared.messages := by
  cases e with
  | engine e =>
      show Announced m (p.step machine e).shared.messages
      rcases Pool.step_cases machine p e with ⟨c, tasks, rest, o, hd, hs⟩ | ⟨-, ⟨t, rfl, hs⟩ | hs⟩
      · rw [hs, Pool.shared_place]
        exact announced_act h (he.due hd)
      · rw [hs]
        exact h
      · rw [hs]
        exact h
  | request id => exact announced_requestNotification h he
  | claim id => exact announced_claimNotification h he

/-- In every run in which nobody settles the message without a notification while
it is owed one, and nobody asks for or claims one out of turn: at most one
notification about it is ever enqueued, and once it is settled exactly one was, to
its sender, if it asked for one. -/
theorem one_notification {s : Engine} (hs : Announced m s.messages) {x : List NotifyEvent}
    (hx : Run.Always notifyStep (KeepsPromise m) (Pool.idle s) x) :
    (notes (Run.run notifyStep (Pool.idle s) x).shared.messages m).length ≤ 1 ∧
      ∀ q sender, (Run.run notifyStep (Pool.idle s) x).shared.messages.get? m = some q →
        q.notify ≠ 0 → q.state.IsTerminal → senderOf q = some sender →
          notes (Run.run notifyStep (Pool.idle s) x).shared.messages m = [sender] := by
  have h : Announced m (Run.run notifyStep (Pool.idle s) x).shared.messages :=
    Run.invariant (I := fun p => Announced m p.shared.messages)
      (fun _ _ hp he => announced_step hp he) hs hx
  constructor
  · rw [h.notes]
    cases (Run.run notifyStep (Pool.idle s) x).shared.messages.get? m with
    | none => exact Nat.zero_le 1
    | some q =>
        show (announced q).length ≤ 1
        unfold announced
        split
        · cases senderOf q <;> simp
        · exact Nat.zero_le 1
  · intro q sender hq hasked hterm hsender
    have hle := h.notify q hq
    have hne := h.settled q hq hterm
    have htwo : q.notify = 2 := by omega
    rw [h.notes, hq, Option.elim_some, announced, if_pos htwo, hsender]
    rfl

/-- Agent 5 asks agent 1 to work, and to be told when it is done. -/
def askedWork : NewMessage :=
  { work with sender := .node 5 ⟨"lead", by decide⟩ .agent, notify := true }

/-- The message is enqueued, the agent is started, and the message is written to
its child. -/
def askedDelivered : List NotifyEvent :=
  .engine (.call (Call.enqueue askedWork).task) :: (workDelivered.drop 1).map .engine

/-- Its turn ends. -/
def askedDone : List NotifyEvent :=
  askedDelivered ++
    [.engine (.run 1 resultPrinted), .engine (.run 3 {}), .engine (.run 3 {}),
      .engine (.run 3 { noteId := 9 })]

theorem one_notification_askedDone :
    notes (Run.run notifyStep (Pool.idle (Engine.fresh Keyed.empty)) askedDone).shared.messages
      2 = [5] := by
  have hrow : ((Run.run notifyStep (Pool.idle (Engine.fresh Keyed.empty))
      askedDone).shared.messages.get? 2).map (fun q => (q.notify, q.state, senderOf q)) =
        some (2, .consumed, some 5) := by
    decide +kernel
  obtain ⟨q, hq, hcols⟩ := Option.map_eq_some_iff.mp hrow
  injection hcols with hasked hcols
  injection hcols with hstate hsender
  have hstart : Announced 2 (Engine.fresh Keyed.empty).messages :=
    ⟨⟨rfl, fun _ => nofun⟩, fun _ => nofun⟩
  have hkept : Run.Always notifyStep (KeepsPromise 2) (Pool.idle (Engine.fresh Keyed.empty))
      askedDone := by
    decide +kernel
  have hne : q.notify ≠ 0 := by
    rw [hasked]
    exact Nat.succ_ne_zero 1
  exact (one_notification hstart hkept).2 q 5 hq hne (.inl hstate) hsender

/-- Its turn is interrupted. -/
def askedInterrupted : List NotifyEvent :=
  askedDelivered ++
    [.engine (.call (Call.interrupt 1).task), .engine (.run 4 {}), .engine (.resume 1 {}),
      .engine (.run 4 {})]

/-- An interrupted message is settled, and its sender is told nothing. -/
theorem interrupt_announces_nothing :
    ((Run.run notifyStep (Pool.idle (Engine.fresh Keyed.empty))
        askedInterrupted).shared.messages.get? 2).map
      (fun q => (q.state, q.notify, senderOf q)) = some (.consumed, 1, some 5) ∧
    notes (Run.run notifyStep (Pool.idle (Engine.fresh Keyed.empty))
      askedInterrupted).shared.messages 2 = [] := by
  constructor <;> decide +kernel

end Supervisor

end Wheel
