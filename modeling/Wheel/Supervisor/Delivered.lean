import Wheel.Supervisor.InFlight

/-!
# No stranded delivery

A `delivered` message is one whose turn can still end: it is in flight in the
live child of its agent, or a section that waits to run settles it. Some of
those who take a child out of its slot settle what it was running: an interrupt,
a recycle, the reaper and a shutdown. The others, a stop, a park, a cleared
context, the api-key-only kill and the halts after a limit or an auth failure,
settle nothing. `no_stranded_delivery` is the invariant over every interleaving
in which these never take a child in the middle of a turn, and
`stop_strands_delivery` a run in which a stop does.
-/

namespace Wheel

open Concurrency Messages

namespace Supervisor

/-- A section that settles message `m` of agent `a`. -/
def Instr.Settles (a m : Uuid) : Instr → Prop
  | .recordSpend t => t.finished = some m
  | .settleTurn t ended _ => t.finished = some m ∧ ended.isLimited = false
  | .requeueLimited t _ _ => t.finished = some m
  | .interruptSettle _ mid => mid = m
  | .requeueInterrupted _ mid => mid = m
  | .reapStatus b _ => b = a
  | .reapSettle b _ _ => b = a
  | .shutdownTake _ stopping => some m ∈ stopping.map Prod.snd
  | .shutdownSettle stopping => some m ∈ stopping.map Prod.snd
  | _ => False

theorem lawfulBEq_inFlight : LawfulBEq (Option Uuid) := inferInstance

instance (a m : Uuid) (i : Instr) : Decidable (i.Settles a m) := by
  have := lawfulBEq_inFlight
  apply Instr.casesOn (motive := fun i => Decidable (i.Settles a m)) i <;>
    intros <;> dsimp only [Instr.Settles] <;> infer_instance

/-- The takers that settle the message of the child they took. -/
def Taking.settles : Taking → Bool
  | .interrupt | .recycle | .exit _ _ => true
  | _ => false

/-- A phase that settles message `m` of agent `a`. -/
def Phase.Settles (a m k : Uuid) : Phase → Prop
  | .killing why mid => why.settles = true ∧ mid = some m ∧ k = a
  | _ => False

/-- A section that waits to run settles the message. -/
def SettledSoon (p : State) (a m : Uuid) : Prop :=
  (∃ i, p.Has i ∧ i.Settles a m) ∨ ∃ k h, p.holder k = some h ∧ h.Settles a m k

/-- Every delivered message is in flight in its agent's live child, or about to
be settled. -/
def NoStranded (p : State) : Prop :=
  ∀ r ∈ p.shared.messages.rows, r.state = .delivered →
    p.shared.inFlight r.toId = some r.id ∨ SettledSoon p r.toId r.id

/-- Who takes a child without settling its message finds it between turns. -/
def TakesBetweenTurns (p : State) (c : Section Instr Phase Uuid) (o : Oracle) : Prop :=
  match c with
  | .first (.take a why) =>
      why.settles = false → ∀ r, p.shared.slots a = some r →
        why.admits p.shared a r o = true → r.inFlight = none
  | _ => True

instance (p : State) (c : Section Instr Phase Uuid) (o : Oracle) :
    Decidable (TakesBetweenTurns p c o) := by
  apply Section.casesOn (motive := fun c => Decidable (TakesBetweenTurns p c o)) c
  · intro i
    apply Instr.casesOn (motive := fun i => Decidable (TakesBetweenTurns p (.first i) o)) i <;>
      intros <;> dsimp only [TakesBetweenTurns] <;> infer_instance
  · exact fun _ _ => instDecidableTrue

/-! ## The outline -/

/-- What the holder of a slot lock relies on. -/
def SlotFacts (a : Uuid) (h : Phase) (s : Engine) : Prop :=
  match h with
  | .startPrepare _ _ | .startStarting _ | .startSpawn _ => s.slots a = none
  | .pumpStatus | .pumpPick => s.inFlight a = none
  | .pumpWrite row =>
      s.inFlight a = none ∧ (s.slots a).isSome ∧ Addressed s.messages row.id a
  | .pumpAdvance mid => s.inFlight a = some mid ∧ Addressed s.messages mid a
  | _ => True

/-- A message is owed a settlement when it is delivered and not in flight. -/
def Unsettled (s : Engine) (x : Uuid × Uuid) : Prop :=
  ∃ r ∈ s.messages.rows, r.id = x.2 ∧ r.toId = x.1 ∧ r.state = .delivered ∧
    s.inFlight x.1 ≠ some x.2

def deliveredOutline : Outline Engine Instr Phase Uuid (Uuid × Uuid) where
  holds a h s := SlotFacts a h s
  owes s _ x := Unsettled s x
  pays i x := i.Settles x.1 x.2
  paysHeld k h x := h.Settles x.1 x.2 k

theorem noStranded_of_valid {p : State} (h : deliveredOutline.Valid p) : NoStranded p := by
  intro r hr hs
  by_cases hfl : p.shared.inFlight r.toId = some r.id
  · exact .inl hfl
  · exact .inr (h.paid (r.toId, r.id) ⟨r, hr, rfl, rfl, hs, hfl⟩)

variable {s : Engine} {o : Oracle} {c : Section Instr Phase Uuid}

theorem inFlight_act_of_ne {a : Uuid} (h : machine.lockOf c ≠ some a) :
    (machine.act c s o).1.inFlight a = s.inFlight a := by
  unfold Engine.inFlight
  rw [slots_act_of_ne s o h]

/-- What a holder relies on is stable under the sections of others. -/
theorem slotFacts_of_ne {a : Uuid} {h : Phase} (hl : machine.lockOf c ≠ some a)
    (hf : SlotFacts a h s) : SlotFacts a h (machine.act c s o).1 := by
  unfold SlotFacts at hf ⊢
  rw [slots_act_of_ne s o hl, inFlight_act_of_ne hl]
  have he := follows_act s o c
  cases h with
  | pumpWrite row => exact ⟨hf.1, hf.2.1, hf.2.2.evolves he⟩
  | pumpAdvance mid => exact ⟨hf.1, hf.2.evolves he⟩
  | _ => exact hf

theorem inFlight_eq_none_of_slots {a : Uuid} (h : s.slots a = none) : s.inFlight a = none := by
  rw [Engine.inFlight, h]
  rfl

/-- What a phase relies on holds when it is entered. -/
theorem slotFacts_of_enters {p : State} (hv : deliveredOutline.Valid p) {k : Uuid} {h : Phase}
    {tasks : List (List Instr)} {rest : List Instr} {e : Event}
    (hd : p.due machine e = some (c, tasks, rest, o)) (he : Enters p.shared o c k h) :
    SlotFacts k h (machine.act c p.shared o).1 := by
  have hold : ∀ h', c = .later k h' → SlotFacts k h' p.shared := by
    rintro h' rfl
    exact hv.holds k h' (Pool.holder_of_due_later hd)
  cases he with
  | prepare hc hs hn =>
      show SlotFacts k _ (startRetake p.shared k _ _).1
      rw [startRetake_fst]
      exact hs
  | starting =>
      have hs : p.shared.slots k = none := hold _ rfl
      unfold SlotFacts
      dsimp only
      rw [(sameBut_act p.shared o (c := .later k _) rfl).slots]
      exact hs
  | spawn => exact hold _ rfl
  | status hs hr hc =>
      show SlotFacts k _ (pumpGate p.shared k).1
      rw [pumpGate_fst]
      show p.shared.inFlight k = none
      rw [Engine.inFlight, hs]
      exact hr
  | pick hs =>
      have hf : p.shared.inFlight k = none := hold _ rfl
      unfold SlotFacts
      dsimp only
      unfold Engine.inFlight at hf ⊢
      rw [(sameBut_act p.shared o (c := .later k .pumpStatus) rfl).slots]
      exact hf
  | quarantine hs hr => trivial
  | write hs hr =>
      have hf : p.shared.inFlight k = none := hold _ rfl
      obtain ⟨hmem, hto, -⟩ := mem_of_nextForDelivery hr
      show SlotFacts k _ (pumpPick p.shared k o).1
      rw [pumpPick_fst]
      exact ⟨hf, by rw [hs]; rfl, _, Keyed.get?_key hmem, hto⟩
  | advance hw =>
      obtain ⟨-, hsome, haddr⟩ : SlotFacts k (.pumpWrite _) p.shared := hold _ rfl
      obtain ⟨r, hr⟩ := Option.isSome_iff_exists.mp hsome
      show SlotFacts k _ (pumpWrite p.shared k _ o).1
      rw [pumpWrite, hw]
      refine ⟨?_, haddr⟩
      show ((Function.update p.shared.slots k _) k).bind (·.inFlight) = _
      rw [Function.update_self, hr]
      rfl
  | running => trivial
  | killing hs hr => trivial
  | stopping hs => trivial

/-! ## Settling -/

theorem cleared_settle (t : MessageTable) (mid : Uuid) {ended : TurnEnd}
    (h : ended.isLimited = false) (text : Option String) :
    Cleared (settle t mid ended text o).1 mid := by
  cases ended with
  | completed =>
      exact (cleared_complete t mid text o.now).evolves (evolves_notifySender o _ mid)
  | taskError =>
      exact (cleared_markError t mid _ o.now).evolves (evolves_notifySender o _ mid)
  | needsAuth => exact cleared_requeueUndelivered t mid _
  | limited signal => cases h

theorem cleared_requeueWithinCap (t : MessageTable) (mid : Uuid) :
    Cleared (requeueWithinCap t (some mid) o).1 mid := by
  unfold requeueWithinCap
  dsimp only
  split
  · rename_i t' done h
    exact cleared_requeueForLimit h
  · rename_i t' done h
    exact (cleared_markError t' mid _ o.now).evolves (evolves_notifySender o _ mid)
  · rename_i t' h
    exact cleared_of_notDelivered h

theorem cleared_markInterrupted (t : MessageTable) {stopping : List (Uuid × Option Uuid)}
    {mid : Uuid} (h : some mid ∈ stopping.map Prod.snd) :
    Cleared (markInterrupted t stopping o) mid := by
  have hmem : mid ∈ stopping.filterMap Prod.snd := by
    obtain ⟨x, hx, hmid⟩ := List.mem_map.mp h
    exact List.mem_filterMap.mpr ⟨x, hx, hmid⟩
  unfold markInterrupted
  generalize stopping.filterMap Prod.snd = mids at hmem
  induction mids generalizing t with
  | nil => cases hmem
  | cons m mids ih =>
      rw [List.foldl_cons]
      by_cases hm : mid ∈ mids
      · exact ih _ hm
      · obtain rfl : mid = m := by simpa [hm] using hmem
        have hcl := cleared_markError t mid interruptedByShutdown o.now
        have hev := evolves_markInterrupted o (markError t mid interruptedByShutdown o.now)
          (mids.map fun m => (m, some m))
        unfold markInterrupted at hev
        rw [List.filterMap_map] at hev
        simpa using hcl.evolves hev

theorem settlement_settles {t : Turn} {overBudget : Bool} {a m : Uuid}
    (h : t.finished = some m) : (settlement t overBudget).Settles a m := by
  unfold settlement
  split
  · exact h
  · exact ⟨h, rfl⟩
  · exact ⟨h, rfl⟩
  · exact ⟨h, rfl⟩

/-- What the sections an `Instr` leaves to be done settle. -/
def LeavesSettling (nx : Leaves) (a m : Uuid) : Prop := ∃ i, nx.Adds i ∧ i.Settles a m

theorem leavesSettling_of_head {i : Instr} {l : List Instr} {a m : Uuid} {nx : Leaves}
    (hnx : nx.follow = i :: l) (h : i.Settles a m) : LeavesSettling nx a m :=
  ⟨i, .inl (by rw [hnx]; exact List.mem_cons_self), h⟩

/-- A section that settles a message has settled it, or leaves it to the next one. -/
theorem settles_exec {i : Instr} {a m : Uuid} (h : i.Settles a m) {r : MessageRow}
    (hr : r ∈ (exec i s o).1.messages.rows) (hid : r.id = m) (hto : r.toId = a)
    (hs : r.state = .delivered) : LeavesSettling (exec i s o).2 a m := by
  cases i with
  | recordSpend t => exact leavesSettling_of_head rfl (settlement_settles h)
  | settleTurn t ended overBudget =>
      have hmsg := messages_settleTurn s o t ended overBudget
      rw [settleFinished, h.1] at hmsg
      rw [show (exec (.settleTurn t ended overBudget) s o).1.messages = _ from hmsg] at hr
      exact absurd hs (cleared_settle s.messages m h.2 t.text r hr hid)
  | requeueLimited t signal overBudget =>
      have hcl := cleared_requeueWithinCap (o := o) s.messages m
      rw [← h] at hcl
      exact absurd hs (hcl r hr hid)
  | interruptSettle b mid =>
      cases h
      exact absurd hs (cleared_markError s.messages m interruptedByUser o.now r hr hid)
  | requeueInterrupted b mid =>
      cases h
      exact absurd hs
        (cleared_requeueUndelivered s.messages m restartedOntoRenewedLogin r hr hid)
  | reapStatus b initialised => exact leavesSettling_of_head rfl h
  | reapSettle b initialised diagnosed =>
      rw [show (exec (.reapSettle b initialised diagnosed) s o).1.messages = _ from
        messages_reapSettle s b o initialised diagnosed] at hr
      cases h
      split at hr
      · exact absurd hs (consumeAllDeliveredAsInterrupted_cleared _ _ _ _ hr hto)
      · exact absurd hs (requeueAllUndelivered_cleared _ _ _ hr hto)
  | shutdownTake slots stopping =>
      show LeavesSettling (shutdownTake s slots stopping).2 a m
      unfold shutdownTake
      split
      · exact leavesSettling_of_head rfl h
      · split
        · exact leavesSettling_of_head rfl h
        · refine leavesSettling_of_head rfl ?_
          rw [Instr.Settles, List.map_append]
          exact List.mem_append_left _ h
  | shutdownSettle stopping =>
      exact absurd hs (cleared_markInterrupted s.messages h r hr hid)
  | _ => exact h.elim

/-- A holder that settles a message leaves it to a section that does. -/
theorem settles_proceed {k a m : Uuid} {h : Phase} (hh : h.Settles a m k) :
    LeavesSettling (proceed k h s o).2 a m := by
  cases h with
  | killing why mid =>
      obtain ⟨hwhy, rfl, rfl⟩ := hh
      cases why with
      | interrupt => exact leavesSettling_of_head rfl rfl
      | recycle => exact leavesSettling_of_head rfl rfl
      | exit run initialised => exact leavesSettling_of_head rfl rfl
      | _ => cases hwhy
  | _ => exact hh.elim

/-! ## What takes a message out of flight -/

theorem inFlight_setSlot_self (a : Uuid) (r : Option Running) :
    (s.setSlot a r).inFlight a = r.bind (·.inFlight) := by
  rw [Engine.inFlight, setSlot_slots_self]

/-- A handled event takes a message out of flight only when it ends the turn. -/
theorem leavesSettling_of_onEvent {rd : Reader} {ev : HarnessEvent} {m : Uuid}
    (hfl : s.inFlight rd.agent = some m)
    (hfl' : (onEvent s rd ev o).1.inFlight rd.agent ≠ some m) :
    LeavesSettling (onEvent s rd ev o).2 rd.agent m := by
  unfold onEvent at hfl' ⊢
  cases ev with
  | init sessionId =>
      refine absurd ?_ hfl'
      show (onInit s rd.agent sessionId).inFlight rd.agent = some m
      rw [Engine.inFlight, onInit_slots, Function.update_self,
        bind_inFlight_map (seeSession sessionId) fun _ => rfl]
      exact hfl
  | text sessionId text => exact absurd hfl hfl'
  | unknown => exact absurd hfl hfl'
  | result sessionId isError text turns costUsd =>
      dsimp only at hfl' ⊢
      split at hfl'
      · exact absurd hfl hfl'
      · rename_i hmatch
        rw [if_neg hmatch]
        exact leavesSettling_of_head rfl hfl
  | rateLimit sessionId status window utilization resetsAt =>
      refine absurd ?_ hfl'
      dsimp only
      split
      · exact hfl
      · dsimp only
        split
        · rw [inFlight_setSlot_self, bind_inFlight_map (seeLimit _) fun _ => rfl]
          exact hfl
        · exact hfl

/-- A message leaves flight only with a debt to settle it. -/
theorem settled_of_leaves_flight {p : State} (hv : deliveredOutline.Valid p)
    {tasks : List (List Instr)} {rest : List Instr} {e : Event}
    (hd : p.due machine e = some (c, tasks, rest, o)) (hc : TakesBetweenTurns p c o)
    {a m : Uuid} (hfl : p.shared.inFlight a = some m)
    (hfl' : (machine.act c p.shared o).1.inFlight a ≠ some m) :
    LeavesSettling (machine.act c p.shared o).2 a m ∨
      ∃ k h, machine.lockOf c = some k ∧ (machine.act c p.shared o).2.hold = some h ∧
        h.Settles a m k := by
  have hl : machine.lockOf c = some a := by
    by_contra hne
    exact hfl' (by rw [inFlight_act_of_ne hne, hfl])
  by_cases hp : isPlain c = true
  · refine absurd ?_ hfl'
    unfold Engine.inFlight at hfl ⊢
    rw [(sameBut_act p.shared o hp).slots, hfl]
  obtain ⟨r, hr, hrm⟩ := inFlight_eq_some_iff.mp hfl
  cases c with
  | first i =>
      cases i with
      | take b why =>
          obtain rfl : b = a := Option.some.inj hl
          change (takeSlot p.shared b why o).1.inFlight b ≠ some m at hfl'
          show LeavesSettling (takeSlot p.shared b why o).2 b m ∨ ∃ k h, some b = some k ∧
            (takeSlot p.shared b why o).2.hold = some h ∧ h.Settles b m k
          by_cases hadm : why.admits p.shared b r o = true
          · refine .inr ⟨b, .killing why r.inFlight, rfl, ?_, ?_, hrm, rfl⟩
            · rw [takeSlot, hr]
              dsimp only
              rw [if_pos hadm]
            · by_contra hno
              have hnone := hc (Bool.eq_false_iff.mpr hno) r hr hadm
              rw [hnone] at hrm
              cases hrm
          · refine absurd ?_ hfl'
            rw [takeSlot, hr]
            dsimp only
            rw [if_neg hadm]
            exact hfl
      | event rd ev =>
          obtain rfl : rd.agent = a := Option.some.inj hl
          exact .inl (leavesSettling_of_onEvent hfl hfl')
      | shutdownTake slots stopping =>
          cases slots with
          | nil => cases hl
          | cons b slots =>
              obtain rfl : b = a := Option.some.inj hl
              left
              show LeavesSettling (shutdownTake p.shared (b :: slots) stopping).2 b m
              unfold shutdownTake
              dsimp only
              rw [hr]
              refine leavesSettling_of_head rfl ?_
              rw [Instr.Settles, hrm, List.map_append]
              exact List.mem_append_right _ List.mem_cons_self
      | _ => first | exact absurd rfl hp | cases hl
  | later k h =>
      obtain rfl : k = a := Option.some.inj hl
      have hf : SlotFacts k h p.shared := hv.holds k h (Pool.holder_of_due_later hd)
      cases h with
      | startSpawn next =>
          rw [show p.shared.slots k = none from hf] at hr
          cases hr
      | pumpWrite row =>
          rw [hf.1] at hfl
          cases hfl
      | pumpQuarantine mid => exact absurd hfl hfl'
      | pumpAdvance mid => exact absurd hfl hfl'
      | _ => exact absurd rfl hp

/-! ## The invariant -/

/-- The row a delivered row was before the section, unless the section delivered it. -/
theorem unsettled_before {p : State} (hv : deliveredOutline.Valid p)
    {tasks : List (List Instr)} {rest : List Instr} {e : Event}
    (hd : p.due machine e = some (c, tasks, rest, o)) {r' : MessageRow}
    (hr' : r' ∈ (machine.act c p.shared o).1.messages.rows) (hs : r'.state = .delivered)
    (hfl : (machine.act c p.shared o).1.inFlight r'.toId ≠ some r'.id) :
    ∃ r ∈ p.shared.messages.rows, r.id = r'.id ∧ r.toId = r'.toId ∧ r.state = .delivered := by
  by_cases hadv : ∀ a mid, c ≠ .later a (.pumpAdvance mid)
  · obtain ⟨r, hr, hk⟩ := (messages_act p.shared o hadv).of_started hr' (.inl hs)
    exact ⟨r, hr, hk.id.symm, hk.toId.symm, hk.delivered hs⟩
  · push Not at hadv
    obtain ⟨a, mid, rfl⟩ := hadv
    obtain ⟨hmid, q, hq, hto⟩ : SlotFacts a (.pumpAdvance mid) p.shared :=
      hv.holds a _ (Pool.holder_of_due_later hd)
    have he := evolves_advanceOrKeep_delivered p.shared.messages mid o.now
    obtain ⟨r, hr, hf, hsame⟩ := he.of_started hr' (.inl hs)
    by_cases hid : r.id = mid
    · have hrq : p.shared.messages.get? mid = some r := Keyed.get?_eq_some_iff.mpr ⟨hr, hid⟩
      rw [hq] at hrq
      obtain rfl := Option.some.inj hrq
      refine absurd ?_ hfl
      rw [hf.toId, hto, hf.id, hid]
      exact hmid
    · have hsame := hsame hid
      subst hsame
      exact ⟨r', hr, rfl, rfl, hs⟩

theorem delivered_keeps {p : State} (hv : deliveredOutline.Valid p)
    {tasks : List (List Instr)} {rest : List Instr} {e : Event}
    (hd : p.due machine e = some (c, tasks, rest, o)) (hc : TakesBetweenTurns p c o) :
    deliveredOutline.Keeps p.holder c (machine.lockOf c) p.shared (machine.act c p.shared o) where
  inv := trivial
  stable _ _ := trivial
  added _ _ := trivial
  others k h hl _ hf := slotFacts_of_ne hl hf
  kept k h hl hh := slotFacts_of_enters hv hd (enters_act p.shared o hl hh)
  paid x hx := by
    obtain ⟨a, m⟩ := x
    obtain ⟨r', hr', hid, hto, hs, hfl'⟩ := hx
    dsimp only at hid hto hfl'
    subst hid hto
    obtain ⟨r, hr, hid, hto, hdel⟩ := unsettled_before hv hd hr' hs hfl'
    by_cases hfl : p.shared.inFlight r'.toId = some r'.id
    · exact .inr (settled_of_leaves_flight hv hd hc hfl hfl')
    · by_cases hpay : deliveredOutline.paysBy c (r'.toId, r'.id)
      · cases c with
        | first i => exact .inr (.inl (settles_exec hpay hr' rfl rfl hs))
        | later k h => exact .inr (.inl (settles_proceed hpay))
      · exact .inl ⟨⟨r, hr, hid, hto, hdel, hfl⟩, hpay⟩

theorem deliveredRule : deliveredOutline.Rule machine (fun _ => True) TakesBetweenTurns where
  call _ _ _ _ := trivial
  keeps hv hd hc := delivered_keeps hv hd hc

/-- The agent is stopped in the middle of its turn. -/
def workStopped : List Event :=
  workDelivered ++ [.call (Call.stop 1).task, .run 4 {}, .run 4 {}, .resume 1 {}]

/-- In every run in which whoever takes a child without settling its message
finds it between turns, every delivered message is in flight in its agent's live
child or about to be settled. -/
theorem no_stranded_delivery {s : Engine}
    (hrows : ∀ r ∈ s.messages.rows, r.state ≠ .delivered) {x : List Event}
    (hx : Run.Always (Pool.step machine)
      (Pool.Meets machine (fun _ => True) TakesBetweenTurns) (Pool.idle s) x) :
    NoStranded (Run.run (Pool.step machine) (Pool.idle s) x) := by
  apply noStranded_of_valid
  refine deliveredRule.run ?_ hx
  apply Outline.valid_idle trivial
  rintro x ⟨r, hr, -, -, hs, -⟩
  exact hrows r hr hs

theorem no_stranded_delivery_workDelivered :
    NoStranded (Run.run (Pool.step machine) (Pool.idle (Engine.fresh Keyed.empty))
      workDelivered) :=
  no_stranded_delivery (by decide) (by decide +kernel)

/-- A stop in the middle of a turn leaves the message delivered for ever: no
child runs it and no section settles it. -/
theorem stop_strands_delivery :
    ¬ NoStranded (Run.run (Pool.step machine) (Pool.idle (Engine.fresh Keyed.empty))
      workStopped) := by
  intro h
  have hrow : ∃ r ∈ (Run.run (Pool.step machine) (Pool.idle (Engine.fresh Keyed.empty))
      workStopped).shared.messages.rows, r.id = 2 ∧ r.toId = 1 ∧ r.state = .delivered := by
    decide +kernel
  have hslot : (Run.run (Pool.step machine) (Pool.idle (Engine.fresh Keyed.empty))
      workStopped).shared.inFlight 1 = none := by
    decide +kernel
  have htasks : ∀ t ∈ (Run.run (Pool.step machine) (Pool.idle (Engine.fresh Keyed.empty))
      workStopped).tasks, ∀ i ∈ t, ¬ i.Settles 1 2 := by
    decide +kernel
  have hheld : ∀ k, (Run.run (Pool.step machine) (Pool.idle (Engine.fresh Keyed.empty))
      workStopped).held k = none :=
    Pool.held_eq_none_of_only (a := 1) (fun _ => rfl) (by decide +kernel) rfl
  obtain ⟨r, hr, hid, hto, hs⟩ := hrow
  rcases h r hr hs with hfl | ⟨i, ⟨t, ht, hi⟩ | ⟨k, x, t, hk, -⟩, hset⟩ | ⟨k, x, hk, -⟩
  · rw [hto, hslot] at hfl
    cases hfl
  · rw [hto, hid] at hset
    exact htasks t ht i hi hset
  · rw [hheld k] at hk
    cases hk
  · rw [Pool.holder, hheld k] at hk
    cases hk

end Supervisor

end Wheel
