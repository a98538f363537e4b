import Wheel.Supervisor.Frame

/-!
# What a section can do

Four relations say it once for every section, and the invariants case on them:
`Enters`, which phases a section enters with the slot lock kept; `Brings`, which
sections other than the ordinary ones it leaves to be done; `SlotAfter`, what
becomes of an agent's slot; and `Writes`, which status it writes.
-/

namespace Wheel

namespace Supervisor

open Concurrency Messages

variable (s : Engine) (a : Uuid) (o : Oracle)

/-! ## Entering a phase -/

/-- The section `c`, executed in `s`, keeps the lock of the agent for the phase. -/
inductive Enters (s : Engine) (o : Oracle) : Section Instr Phase Uuid → Uuid → Phase → Prop
  | prepare {b next n} (hc : s.closing = false) (hs : s.slots b = none) (hn : s.stops b = n) :
      Enters s o (.first (.startRetake b next n)) b (.startPrepare next n)
  | starting {b next n} :
      Enters s o (.later b (.startPrepare next n)) b (.startStarting next)
  | spawn {b next} : Enters s o (.later b (.startStarting next)) b (.startSpawn next)
  | status {b r} (hs : s.slots b = some r) (hr : r.inFlight = none) (hc : s.closing = false) :
      Enters s o (.first (.pump b)) b .pumpStatus
  | pick {b} (hs : s.status b ≠ .needsAuth) : Enters s o (.later b .pumpStatus) b .pumpPick
  | quarantine {b r row} (hs : s.slots b = some r)
      (hr : nextForDelivery s.messages b r.consecutiveUser o.now = some row) :
      Enters s o (.later b .pumpPick) b (.pumpQuarantine row.id)
  | write {b r row} (hs : s.slots b = some r)
      (hr : nextForDelivery s.messages b r.consecutiveUser o.now = some row) :
      Enters s o (.later b .pumpPick) b (.pumpWrite row)
  | advance {b row} (hw : o.writeError = none) :
      Enters s o (.later b (.pumpWrite row)) b (.pumpAdvance row.id)
  | running {b mid} : Enters s o (.later b (.pumpAdvance mid)) b .pumpRunning
  | killing {b why r} (hs : s.slots b = some r) (hr : why.admits s b r o = true) :
      Enters s o (.first (.take b why)) b (.killing why r.inFlight)
  | stopping {b} (hs : s.slots b = none) :
      Enters s o (.first (.take b .stop)) b (.killing .stop none)

theorem enters_exec {i : Instr} {k : Uuid} {h : Phase} (hk : lock i = some k)
    (hh : (exec i s o).2.hold = some h) : Enters s o (.first i) k h := by
  cases i with
  | startRetake a next n =>
      cases hk
      change (startRetake s k next n).2.hold = some h at hh
      unfold startRetake at hh
      split at hh
      · cases hh
      · rename_i hc
        split at hh
        · cases hh
        · rename_i hs
          split at hh
          · cases hh
          · rename_i hn
            cases hh
            exact .prepare (by simpa using hc) (by simpa using hs) (by simpa using hn)
  | pump a =>
      cases hk
      change (pumpGate s k).2.hold = some h at hh
      unfold pumpGate at hh
      split at hh
      · cases hh
      · rename_i r hs
        split at hh
        · cases hh
        · rename_i hr
          split at hh
          · cases hh
          · rename_i hc
            cases hh
            exact .status hs (by simpa using hr) (by simpa using hc)
  | take a why =>
      cases hk
      change (takeSlot s k why o).2.hold = some h at hh
      unfold takeSlot at hh
      split at hh
      · rename_i hs
        cases why <;> cases hh
        exact .stopping hs
      · rename_i r hs
        split at hh
        · rename_i hr
          cases hh
          exact .killing hs hr
        · cases hh
  | startCheck a next n =>
      change (startCheck s a next n).2.hold = some h at hh
      unfold startCheck at hh
      split at hh
      · cases hh
      · split at hh <;> cases hh
  | event rd ev =>
      change (onEvent s rd ev o).2.hold = some h at hh
      unfold onEvent at hh
      dsimp only at hh
      cases ev with
      | init sessionId => cases hh
      | text sessionId text => cases hh
      | unknown => cases hh
      | result sessionId isError text turns costUsd =>
          dsimp only at hh
          split at hh <;> cases hh
      | rateLimit sessionId status window utilization resetsAt =>
          dsimp only at hh
          split at hh <;> cases hh
  | shutdownTake slots stopping =>
      change (shutdownTake s slots stopping).2.hold = some h at hh
      unfold shutdownTake at hh
      split at hh
      · cases hh
      · split at hh <;> cases hh
  | wedgeCheck a run => cases hh
  | adoptCheck a => cases hh
  | _ => cases hk

theorem enters_proceed {k : Uuid} {p h : Phase} (hh : (proceed k p s o).2.hold = some h) :
    Enters s o (.later k p) k h := by
  cases p with
  | startPrepare next n =>
      unfold proceed at hh
      dsimp only at hh
      split at hh
      · cases hh
      · split at hh
        · cases hh
        · split at hh
          · cases hh
          · cases hh
            exact .starting
  | startStarting next =>
      cases hh
      exact .spawn
  | startSpawn next =>
      change (startSpawn s k next o).2.hold = some h at hh
      unfold startSpawn at hh
      split at hh <;> cases hh
  | pumpStatus =>
      unfold proceed at hh
      dsimp only at hh
      split at hh
      · cases hh
      · rename_i hs
        cases hh
        exact .pick hs
  | pumpPick =>
      change (pumpPick s k o).2.hold = some h at hh
      unfold pumpPick at hh
      split at hh
      · cases hh
      · rename_i r hs
        split at hh
        · cases hh
        · rename_i row hr
          split at hh
          · cases hh
            exact .write hs hr
          · cases hh
            exact .quarantine hs hr
  | pumpQuarantine mid => cases hh
  | pumpWrite row =>
      change (pumpWrite s k row o).2.hold = some h at hh
      unfold pumpWrite at hh
      split at hh
      · cases hh
      · rename_i hw
        cases hh
        exact .advance hw
  | pumpAdvance mid =>
      cases hh
      exact .running
  | pumpRunning => cases hh
  | killing why mid => cases why <;> cases hh

/-- A phase is only entered as `Enters` says. -/
theorem enters_act {c : Section Instr Phase Uuid} {k : Uuid} {h : Phase}
    (hk : machine.lockOf c = some k) (hh : (machine.act c s o).2.hold = some h) :
    Enters s o c k h := by
  cases c with
  | first i => exact enters_exec s o hk hh
  | later a p =>
      cases hk
      exact enters_proceed s o hh

/-! ## What a section leaves to be done -/

/-- The sections that carry no output of a child, no message to settle and no store
of a flag, and that belong to no shutdown. -/
def Instr.isOrdinary : Instr → Bool
  | .readLine _ | .event _ _ | .recordSpend _ | .settleTurn _ _ _ | .requeueLimited _ _ _
  | .interruptSettle _ _ | .requeueInterrupted _ _ | .setStatus _ .parked
  | .shutdownUnpause | .shutdownClose | .shutdownDrain | .shutdownTake _ _
  | .shutdownSettle _ | .pauseMark | .pauseClose | .resumeSwap | .resumeOpen => false
  | _ => true

def OnlyOrdinary (nx : Leaves) : Prop := ∀ i, nx.Adds i → i.isOrdinary = true

theorem onlyOrdinary_of_follow {nx : Leaves} (hs : nx.spawn = [])
    (h : nx.follow.all Instr.isOrdinary = true) : OnlyOrdinary nx := by
  rintro i (hi | ⟨t, ht, -⟩)
  · exact List.all_eq_true.mp h i hi
  · rw [hs] at ht
    cases ht

theorem onlyOrdinary_nil (h : Option Phase) : OnlyOrdinary { hold := h } :=
  onlyOrdinary_of_follow rfl rfl

theorem all_instrs (next : AfterStart) : (next.instrs a).all Instr.isOrdinary = true := by
  cases next <;> rfl

theorem all_deliverTo (sender : Option Uuid) :
    (deliverTo sender).all Instr.isOrdinary = true := by
  cases sender <;> rfl

theorem all_afterSettle (t : Turn) (ended : TurnEnd) (overBudget : Bool) :
    (afterSettle t ended overBudget).all Instr.isOrdinary = true := by
  unfold afterSettle
  split
  · rfl
  · split
    · rfl
    · split <;> rfl

/-- The sections that leave others than ordinary ones. -/
def isSource : Section Instr Phase Uuid → Bool
  | .first (.readLine _) | .first (.event _ _) | .first (.recordSpend _)
  | .first .shutdownDrain | .first (.shutdownTake _ _) | .first (.shutdownSettle _)
  | .first .resumeSwap | .later _ (.startSpawn _) | .later _ (.killing _ _) => true
  | _ => false

theorem onlyOrdinary_exec {i : Instr} (h : isSource (.first i) = false) :
    OnlyOrdinary (exec i s o).2 := by
  cases i with
  | enqueue m =>
      show OnlyOrdinary (enqueueMessage s m o).2
      unfold enqueueMessage
      split
      · exact onlyOrdinary_nil none
      · exact onlyOrdinary_of_follow rfl rfl
  | deliver a =>
      show OnlyOrdinary { follow := if s.pausedForUpdate then [] else [.deliverRead a] }
      split <;> exact onlyOrdinary_of_follow rfl rfl
  | deliverRead a =>
      show OnlyOrdinary (deliverRead s a).2
      unfold deliverRead
      split <;> exact onlyOrdinary_of_follow rfl rfl
  | startCheck a next n =>
      show OnlyOrdinary (startCheck s a next n).2
      unfold startCheck
      split
      · exact onlyOrdinary_nil none
      · split
        · exact onlyOrdinary_of_follow rfl (all_instrs a next)
        · exact onlyOrdinary_of_follow rfl rfl
  | startGate a next n =>
      show OnlyOrdinary (startGate s a next n o).2
      unfold startGate
      split
      · exact onlyOrdinary_nil none
      · split
        · exact onlyOrdinary_of_follow rfl (all_instrs a next)
        · exact onlyOrdinary_of_follow rfl rfl
  | startRetake a next n =>
      show OnlyOrdinary (startRetake s a next n).2
      unfold startRetake
      split
      · exact onlyOrdinary_nil none
      · split
        · exact onlyOrdinary_of_follow rfl (all_instrs a next)
        · split
          · exact onlyOrdinary_of_follow rfl (all_instrs a next)
          · exact onlyOrdinary_nil _
  | wedgeCheck a run =>
      show OnlyOrdinary { follow := if (s.slots a).any (fun r => r.runId = run) then
        [.wedgeSettle a] else [] }
      split <;> exact onlyOrdinary_of_follow rfl rfl
  | pump a =>
      show OnlyOrdinary (pumpGate s a).2
      unfold pumpGate
      split
      · exact onlyOrdinary_nil none
      · split
        · exact onlyOrdinary_nil none
        · split
          · exact onlyOrdinary_nil none
          · exact onlyOrdinary_nil _
  | take a why =>
      show OnlyOrdinary (takeSlot s a why o).2
      unfold takeSlot
      split
      · cases why <;> exact onlyOrdinary_of_follow rfl rfl
      · split <;> exact onlyOrdinary_nil _
  | recycle a =>
      show OnlyOrdinary { follow := if s.closing then [] else [.take a .recycle] }
      split <;> exact onlyOrdinary_of_follow rfl rfl
  | afterAuthFailure a gen =>
      show OnlyOrdinary { follow := if gen.isSome && o.recovers then [.recycle a]
        else parkNeedsAuth a }
      split <;> exact onlyOrdinary_of_follow rfl rfl
  | adoptCheck a =>
      show OnlyOrdinary { follow := if _ then [.recycle a] else [] }
      split <;> exact onlyOrdinary_of_follow rfl rfl
  | resumeIfBlocked a =>
      show OnlyOrdinary (if s.status a = .needsAuth then
        (s.setStatus a .parked, { follow := [.deliver a] }) else (s, {}) : Engine × Leaves).2
      split <;> exact onlyOrdinary_of_follow rfl rfl
  | afterTurn a isError gen =>
      show OnlyOrdinary { follow := if !isError && gen.isSome && o.stale then [.recycle a]
        else [.pump a] }
      split <;> exact onlyOrdinary_of_follow rfl rfl
  | settleTurn t ended overBudget =>
      refine onlyOrdinary_of_follow rfl ?_
      show (deliverTo _ ++ afterSettle t ended overBudget).all _ = true
      rw [List.all_append, all_deliverTo, all_afterSettle]
      rfl
  | requeueLimited t signal overBudget =>
      refine onlyOrdinary_of_follow rfl ?_
      show (deliverTo _ ++ _).all _ = true
      rw [List.all_append, all_deliverTo]
      rfl
  | limitPlan a signal onFallback strikes overBudget now =>
      show OnlyOrdinary (limitPlan s a signal onFallback strikes overBudget now o).2
      unfold limitPlan
      split
      · exact onlyOrdinary_nil none
      · dsimp only
        split <;> exact onlyOrdinary_of_follow rfl rfl
  | limitPark a resetsAt resume =>
      rintro i (hi | ⟨t, ht, hi⟩)
      · cases hi
      · obtain rfl := List.mem_singleton.mp ht
        obtain rfl := List.mem_singleton.mp hi
        rfl
  | resumeDue a =>
      show OnlyOrdinary (resumeDue s a o).2
      unfold resumeDue
      dsimp only
      split <;> exact onlyOrdinary_of_follow rfl rfl
  | resumeDeliver =>
      refine onlyOrdinary_of_follow rfl ?_
      show ((recipientsWithQueued s.messages).map _).all _ = true
      rw [List.all_map, List.all_eq_true]
      exact fun _ _ => rfl
  | _ => first | exact onlyOrdinary_of_follow rfl rfl | cases h

theorem onlyOrdinary_proceed {h : Phase} (hp : isSource (.later a h) = false) :
    OnlyOrdinary (proceed a h s o).2 := by
  cases h with
  | startPrepare next n =>
      unfold proceed
      dsimp only
      split
      · exact onlyOrdinary_nil none
      · split
        · exact onlyOrdinary_of_follow rfl (all_instrs a next)
        · split
          · exact onlyOrdinary_nil none
          · exact onlyOrdinary_nil _
  | pumpStatus =>
      unfold proceed
      dsimp only
      split <;> exact onlyOrdinary_nil _
  | pumpPick =>
      show OnlyOrdinary (pumpPick s a o).2
      unfold pumpPick
      split
      · exact onlyOrdinary_nil none
      · split
        · exact onlyOrdinary_nil none
        · split <;> exact onlyOrdinary_nil _
  | pumpQuarantine mid =>
      rintro i (hi | ⟨t, ht, hi⟩)
      · cases hi
      · obtain ⟨j, hj, rfl⟩ := List.mem_map.mp ht
        obtain rfl := List.mem_singleton.mp hi
        exact List.all_eq_true.mp (all_deliverTo _) i hj
  | pumpWrite row =>
      show OnlyOrdinary (pumpWrite s a row o).2
      unfold pumpWrite
      split <;> exact onlyOrdinary_nil _
  | startSpawn next => cases hp
  | killing why mid => cases hp
  | _ => exact onlyOrdinary_nil _

/-- Only a few sections leave others than ordinary ones to be done. -/
theorem onlyOrdinary_act {c : Section Instr Phase Uuid} (h : isSource c = false) :
    OnlyOrdinary (machine.act c s o).2 := by
  cases c with
  | first i => exact onlyOrdinary_exec s o h
  | later a p => exact onlyOrdinary_proceed s a o h

/-- The section `c`, executed in `s`, leaves the section `i` to be done, which is
not an ordinary one. -/
inductive Brings (s : Engine) (o : Oracle) : Section Instr Phase Uuid → Instr → Prop
  | line {rd ev} : Brings s o (.first (.readLine rd)) (.event rd ev)
  | lines {rd initialised} :
      Brings s o (.first (.readLine rd)) (.readLine { rd with initialised })
  | spend {rd sessionId isError text turns costUsd}
      (hs : sessionMatches ((s.slots rd.agent).bind (·.sessionId)) sessionId = true) :
      Brings s o (.first (.event rd (.result sessionId isError text turns costUsd)))
        (.recordSpend (turnOf rd (s.slots rd.agent) isError text turns costUsd))
  | settlement {t overBudget} :
      Brings s o (.first (.recordSpend t)) (settlement t overBudget)
  | drain {slots stopping} :
      Brings s o (.first .shutdownDrain) (.shutdownTake slots stopping)
  | shut {slots slots' stopping stopping'} :
      Brings s o (.first (.shutdownTake slots stopping)) (.shutdownTake slots' stopping')
  | shutdown {slots stopping} :
      Brings s o (.first (.shutdownTake slots stopping)) (.shutdownSettle stopping)
  | settled {stopping b} :
      Brings s o (.first (.shutdownSettle stopping)) (.setStatus b .parked)
  | reopen (hp : s.pausedForUpdate = true) : Brings s o (.first .resumeSwap) .resumeOpen
  | reader {b next} (ho : o.spawns = true) :
      Brings s o (.later b (.startSpawn next)) (.readLine ⟨b, s.nextRun, o.ephemeral, false⟩)
  | interrupted {b mid} :
      Brings s o (.later b (.killing .interrupt (some mid))) (.interruptSettle b mid)
  | recycled {b mid} :
      Brings s o (.later b (.killing .recycle (some mid))) (.requeueInterrupted b mid)

theorem ordinary_or_brings {nx : Leaves} {c : Section Instr Phase Uuid}
    (hs : nx.spawn = []) (h : ∀ i ∈ nx.follow, i.isOrdinary = true ∨ Brings s o c i) {i : Instr}
    (hi : nx.Adds i) : i.isOrdinary = true ∨ Brings s o c i := by
  rcases hi with hi | ⟨t, ht, -⟩
  · exact h i hi
  · rw [hs] at ht
    cases ht

theorem brings_onEvent (rd : Reader) (ev : HarnessEvent) {i : Instr}
    (hi : (onEvent s rd ev o).2.Adds i) :
    i.isOrdinary = true ∨ Brings s o (.first (.event rd ev)) i := by
  cases ev with
  | init sessionId => exact .inl (onlyOrdinary_of_follow rfl rfl i hi)
  | text sessionId text => exact .inl (onlyOrdinary_nil none i hi)
  | unknown => exact .inl (onlyOrdinary_nil none i hi)
  | result sessionId isError text turns costUsd =>
      unfold onEvent at hi
      dsimp only at hi
      split at hi
      · exact .inl (onlyOrdinary_nil none i hi)
      · rename_i hm
        refine ordinary_or_brings s o rfl ?_ hi
        intro j hj
        obtain rfl := List.mem_singleton.mp hj
        exact .inr (.spend (by simpa using hm))
  | rateLimit sessionId status window utilization resetsAt =>
      unfold onEvent at hi
      dsimp only at hi
      split at hi
      · exact .inl (onlyOrdinary_nil none i hi)
      · exact .inl (onlyOrdinary_of_follow rfl rfl i hi)

theorem brings_readLine (rd : Reader) {i : Instr} (hi : (exec (.readLine rd) s o).2.Adds i) :
    i.isOrdinary = true ∨ Brings s o (.first (.readLine rd)) i := by
  unfold exec at hi
  dsimp only at hi
  split at hi
  · exact .inl (onlyOrdinary_of_follow rfl rfl i hi)
  · refine ordinary_or_brings s o rfl ?_ hi
    intro j hj
    rcases List.mem_cons.mp hj with rfl | hj
    · exact .inr .line
    · obtain rfl := List.mem_singleton.mp hj
      exact .inr .lines

theorem brings_shutdownTake (slots : List Uuid) (stopping : List (Uuid × Option Uuid))
    {i : Instr} (hi : (shutdownTake s slots stopping).2.Adds i) :
    i.isOrdinary = true ∨ Brings s o (.first (.shutdownTake slots stopping)) i := by
  unfold shutdownTake at hi
  split at hi
  · refine ordinary_or_brings s o rfl ?_ hi
    intro j hj
    obtain rfl := List.mem_singleton.mp hj
    exact .inr .shutdown
  · split at hi
    · refine ordinary_or_brings s o rfl ?_ hi
      intro j hj
      obtain rfl := List.mem_singleton.mp hj
      exact .inr .shut
    · refine ordinary_or_brings s o rfl ?_ hi
      intro j hj
      obtain rfl := List.mem_singleton.mp hj
      exact .inr .shut

theorem brings_startSpawn (next : AfterStart) {i : Instr}
    (hi : (startSpawn s a next o).2.Adds i) :
    i.isOrdinary = true ∨ Brings s o (.later a (.startSpawn next)) i := by
  unfold startSpawn at hi
  split at hi
  · exact .inl (onlyOrdinary_nil none i hi)
  · rename_i ho
    rcases hi with hi | ⟨t, ht, hi⟩
    · exact .inl (List.all_eq_true.mp (all_instrs a next) i hi)
    · simp only [List.mem_cons, List.not_mem_nil, or_false] at ht
      rcases ht with rfl | rfl
      · obtain rfl := List.mem_singleton.mp hi
        exact .inr (.reader (by simpa using ho))
      · obtain rfl := List.mem_singleton.mp hi
        exact .inl rfl

theorem brings_killing (why : Taking) (mid : Option Uuid) {i : Instr}
    (hi : (proceed a (.killing why mid) s o).2.Adds i) :
    i.isOrdinary = true ∨ Brings s o (.later a (.killing why mid)) i := by
  cases why with
  | interrupt =>
      cases mid with
      | none => exact .inl (onlyOrdinary_of_follow rfl rfl i hi)
      | some mid =>
          refine ordinary_or_brings s o rfl ?_ hi
          intro j hj
          obtain rfl := List.mem_singleton.mp hj
          exact .inr .interrupted
  | recycle =>
      cases mid with
      | none => exact .inl (onlyOrdinary_of_follow rfl rfl i hi)
      | some mid =>
          refine ordinary_or_brings s o rfl ?_ hi
          intro j hj
          obtain rfl := List.mem_singleton.mp hj
          exact .inr .recycled
  | _ => exact .inl (onlyOrdinary_of_follow rfl rfl i hi)

/-- What a section leaves to be done is ordinary, or as `Brings` says. -/
theorem brings_act {c : Section Instr Phase Uuid} {i : Instr}
    (hi : (machine.act c s o).2.Adds i) : i.isOrdinary = true ∨ Brings s o c i := by
  by_cases hsrc : isSource c = false
  · exact .inl (onlyOrdinary_act s o hsrc i hi)
  cases c with
  | first j =>
      cases j with
      | readLine rd => exact brings_readLine s o rd hi
      | event rd ev => exact brings_onEvent s o rd ev hi
      | recordSpend t =>
          refine ordinary_or_brings s o rfl ?_ hi
          intro j hj
          obtain rfl := List.mem_singleton.mp hj
          exact .inr .settlement
      | shutdownDrain =>
          refine ordinary_or_brings s o rfl ?_ hi
          intro j hj
          obtain rfl := List.mem_singleton.mp hj
          exact .inr .drain
      | shutdownTake slots stopping => exact brings_shutdownTake s o slots stopping hi
      | shutdownSettle stopping =>
          refine ordinary_or_brings s o rfl ?_ hi
          intro j hj
          obtain ⟨x, -, rfl⟩ := List.mem_map.mp hj
          exact .inr .settled
      | resumeSwap =>
          by_cases hp : s.pausedForUpdate = true
          · refine ordinary_or_brings s o rfl ?_ hi
            intro j hj
            simp only [hp, exec, if_true, List.mem_cons, List.not_mem_nil, or_false,
              machine] at hj
            rcases hj with rfl | rfl
            · exact .inr (.reopen hp)
            · exact .inl rfl
          · refine .inl (onlyOrdinary_of_follow rfl ?_ i hi)
            simp [hp, exec, machine]
      | _ => exact absurd rfl hsrc
  | later b h =>
      cases h with
      | startSpawn next => exact brings_startSpawn s b o next hi
      | killing why mid => exact brings_killing s b o why mid hi
      | _ => exact absurd rfl hsrc

/-! ## What becomes of a slot -/

/-- The content of the agent's slot after the section `c`, executed in `s`. -/
inductive SlotAfter (s : Engine) (o : Oracle) :
    Section Instr Phase Uuid → Uuid → Option Running → Prop
  | same {c b} : SlotAfter s o c b (s.slots b)
  | taken {b why} : SlotAfter s o (.first (.take b why)) b none
  | shut {b slots stopping} :
      SlotAfter s o (.first (.shutdownTake (b :: slots) stopping)) b none
  | named {rd sessionId} :
      SlotAfter s o (.first (.event rd (.init sessionId))) rd.agent
        ((s.slots rd.agent).map (seeSession sessionId))
  | ended {rd sessionId isError text turns costUsd} :
      SlotAfter s o (.first (.event rd (.result sessionId isError text turns costUsd))) rd.agent
        ((s.slots rd.agent).map (afterResult turns costUsd))
  | limited {rd sessionId status window utilization resetsAt} :
      SlotAfter s o
        (.first (.event rd (.rateLimit sessionId status window utilization resetsAt))) rd.agent
        ((s.slots rd.agent).map (seeLimit ⟨resetsAt, window⟩))
  | written {b row} (hw : o.writeError = none) :
      SlotAfter s o (.later b (.pumpWrite row)) b ((s.slots b).map (afterWrite row))
  | spawned {b next} (ho : o.spawns = true) :
      SlotAfter s o (.later b (.startSpawn next)) b (some (spawned s o))

theorem SlotAfter.of_eq {c : Section Instr Phase Uuid} {b : Uuid} {x : Option Running}
    (h : x = s.slots b) : SlotAfter s o c b x := h ▸ .same

theorem slotAfter_onEvent (rd : Reader) (ev : HarnessEvent) :
    SlotAfter s o (.first (.event rd ev)) rd.agent ((onEvent s rd ev o).1.slots rd.agent) := by
  cases ev with
  | init sessionId =>
      rw [show (onEvent s rd (.init sessionId) o).1.slots rd.agent = _ from
        congrFun (onInit_slots s rd.agent sessionId) rd.agent, Function.update_self]
      exact .named
  | text sessionId text => exact .same
  | unknown => exact .same
  | result sessionId isError text turns costUsd =>
      unfold onEvent
      dsimp only
      split
      · exact .same
      · rw [setSlot_slots_self]
        exact .ended
  | rateLimit sessionId status window utilization resetsAt =>
      unfold onEvent
      dsimp only
      split
      · exact .same
      · dsimp only
        split
        · rw [setSlot_slots_self]
          exact .limited
        · exact .same

/-- A section changes a slot only as `SlotAfter` says. -/
theorem slotAfter_act (c : Section Instr Phase Uuid) (b : Uuid) :
    SlotAfter s o c b ((machine.act c s o).1.slots b) := by
  by_cases hl : machine.lockOf c = some b
  swap
  · exact .of_eq s o (slots_act_of_ne s o hl)
  by_cases hp : isPlain c = true
  · exact .of_eq s o (congrFun (sameBut_act s o hp).slots b)
  cases c with
  | first i =>
      cases i with
      | take a why =>
          obtain rfl : a = b := Option.some.inj hl
          show SlotAfter s o _ a ((takeSlot s a why o).1.slots a)
          unfold takeSlot
          split
          · exact .same
          · split
            · rw [setSlot_slots_self]
              exact .taken
            · exact .same
      | event rd ev =>
          obtain rfl : rd.agent = b := Option.some.inj hl
          exact slotAfter_onEvent s o rd ev
      | shutdownTake slots stopping =>
          cases slots with
          | nil => cases hl
          | cons a slots =>
              obtain rfl : a = b := Option.some.inj hl
              show SlotAfter s o _ a ((shutdownTake s (a :: slots) stopping).1.slots a)
              unfold shutdownTake
              dsimp only
              split
              · exact .same
              · rw [setSlot_slots_self]
                exact .shut
      | _ => first | exact absurd rfl hp | cases hl
  | later a h =>
      obtain rfl : a = b := Option.some.inj hl
      cases h with
      | startSpawn next =>
          show SlotAfter s o _ a ((startSpawn s a next o).1.slots a)
          unfold startSpawn
          split
          · exact .same
          · rename_i ho
            rw [show ({ s.setSlot a (some (spawned s o)) with nextRun := s.nextRun + 1 } :
              Engine).slots a = _ from setSlot_slots_self s a _]
            exact .spawned (by simpa using ho)
      | pumpWrite row =>
          show SlotAfter s o _ a ((pumpWrite s a row o).1.slots a)
          unfold pumpWrite
          split
          · exact .same
          · rename_i hw
            rw [show ({ s.setSlot a ((s.slots a).map (afterWrite row)) with
              written := s.written ++ [⟨a, row⟩] } : Engine).slots a = _ from
              setSlot_slots_self s a _]
            exact .written hw
      | pumpQuarantine mid => exact .same
      | pumpAdvance mid => exact .same
      | _ => exact absurd rfl hp

/-- What was written to the children after a section. -/
theorem written_act (c : Section Instr Phase Uuid) :
    (machine.act c s o).1.written = s.written ∨
      ∃ b row, c = .later b (.pumpWrite row) ∧ o.writeError = none ∧
        (machine.act c s o).1.written = s.written ++ [⟨b, row⟩] := by
  by_cases hr : keepsRecord c = false
  · exact .inl (sameRecords_act s o hr).written
  cases c with
  | first i =>
      cases i with
      | event rd ev => exact .inl (sameRecords_onEvent s o rd ev).written
      | _ => first | exact .inl rfl | exact absurd rfl hr
  | later b p =>
      cases p with
      | startSpawn next => exact .inl (sameRecords_startSpawn s b o next).written
      | pumpWrite row =>
          show (pumpWrite s b row o).1.written = s.written ∨ _
          cases hw : o.writeError with
          | some e => exact .inl (by rw [pumpWrite, hw]; rfl)
          | none =>
              refine .inr ⟨b, row, rfl, rfl, ?_⟩
              show (pumpWrite s b row o).1.written = _
              rw [pumpWrite, hw]
      | _ => exact absurd rfl hr

/-! ## The status of an agent -/

/-- The section `c`, executed in `s`, writes the agent's status. -/
inductive Writes (s : Engine) (o : Oracle) :
    Section Instr Phase Uuid → Uuid → AgentStatus → Prop
  | parkThenDeliver {b} : Writes s o (.first (.parkThenDeliver b)) b .parked
  | startGate {b next n st} (hl : o.loads = true) (hr : o.refusal = some st) :
      Writes s o (.first (.startGate b next n)) b (if st = .needsAuth then .needsAuth else .error)
  | wedgeSettle {b} (hs : s.status b = .starting) : Writes s o (.first (.wedgeSettle b)) b .error
  | setStatus {b st} : Writes s o (.first (.setStatus b st)) b st
  | resumeIfBlocked {b} (hs : s.status b = .needsAuth) :
      Writes s o (.first (.resumeIfBlocked b)) b .parked
  | init {rd sessionId} :
      Writes s o (.first (.event rd (.init sessionId))) rd.agent
        (if ((s.slots rd.agent).bind (·.inFlight)).isSome then .running else .idle)
  | settleTurn {t ended} :
      Writes s o (.first (.settleTurn t ended false)) t.agent (statusAfter ended)
  | limitPlan {b signal onFallback strikes now} :
      Writes s o (.first (.limitPlan b signal onFallback strikes true now)) b .budgetExhausted
  | limitPark {b resetsAt resume} :
      Writes s o (.first (.limitPark b resetsAt resume)) b .rateLimited
  | reapSettle {b initialised} :
      Writes s o (.first (.reapSettle b initialised false)) b (exitStatus initialised o.output)
  | startStarting {b next} : Writes s o (.later b (.startStarting next)) b .starting
  | pumpRunning {b} : Writes s o (.later b .pumpRunning) b .running
  | park {b mid} : Writes s o (.later b (.killing .park mid)) b .parked
  | stop {b mid} : Writes s o (.later b (.killing .stop mid)) b .stopped

/-- A status is written, after what leaves it alone. -/
theorem writes_setStatus {c : Section Instr Phase Uuid} {s' : Engine} {x : Uuid}
    {st : AgentStatus} (b : Uuid) (hs : s'.status b = s.status b) (h : Writes s o c x st) :
    (s'.setStatus x st).status b = s.status b ∨ Writes s o c b ((s'.setStatus x st).status b) := by
  rw [Engine.status_setStatus]
  split
  · rename_i hb
    exact .inr (hb ▸ h)
  · exact .inl hs

theorem writes_onEvent (rd : Reader) (ev : HarnessEvent) (b : Uuid) :
    (onEvent s rd ev o).1.status b = s.status b ∨
      Writes s o (.first (.event rd ev)) b ((onEvent s rd ev o).1.status b) := by
  unfold onEvent
  cases ev with
  | init sessionId => exact writes_setStatus s o b (Engine.status_setState _ _ _ fun _ => rfl) .init
  | result sessionId isError text turns costUsd =>
      dsimp only
      split <;> exact .inl rfl
  | rateLimit sessionId status window utilization resetsAt =>
      dsimp only
      split
      · exact .inl rfl
      · dsimp only
        split <;> exact .inl rfl
  | _ => exact .inl rfl

theorem writes_exec (i : Instr) (b : Uuid) :
    (exec i s o).1.status b = s.status b ∨
      Writes s o (.first i) b ((exec i s o).1.status b) := by
  cases i with
  | enqueue m =>
      show (enqueueMessage s m o).1.status b = _ ∨ Writes s o _ b ((enqueueMessage s m o).1.status b)
      unfold enqueueMessage
      split <;> exact .inl rfl
  | deliverRead a =>
      exact .inl (by rw [show exec _ s o = deliverRead s a from rfl, deliverRead_fst])
  | parkThenDeliver a => exact writes_setStatus s o b rfl .parkThenDeliver
  | startCheck a next n =>
      exact .inl (by rw [show exec _ s o = startCheck s a next n from rfl, startCheck_fst])
  | startGate a next n =>
      show (startGate s a next n o).1.status b = _ ∨
        Writes s o _ b ((startGate s a next n o).1.status b)
      unfold startGate
      split
      · exact .inl rfl
      · rename_i hl
        split
        · rename_i hr
          exact writes_setStatus s o b rfl (.startGate (by simpa using hl) hr)
        · exact .inl rfl
  | startRetake a next n =>
      exact .inl (by rw [show exec _ s o = startRetake s a next n from rfl, startRetake_fst])
  | wedgeSettle a =>
      show Engine.status (if _ then _ else _) b = _ ∨
        Writes s o _ b (Engine.status (if _ then _ else _) b)
      split
      · rename_i h
        exact writes_setStatus s o b rfl (.wedgeSettle h.1)
      · exact .inl rfl
  | pump a => exact .inl (by rw [show exec _ s o = pumpGate s a from rfl, pumpGate_fst])
  | take a why =>
      show (takeSlot s a why o).1.status b = _ ∨ Writes s o _ b ((takeSlot s a why o).1.status b)
      unfold takeSlot
      split
      · exact .inl rfl
      · split <;> exact .inl rfl
  | setStatus a st => exact writes_setStatus s o b rfl .setStatus
  | clearSession a =>
      exact .inl (Engine.status_setState s a b (f := fun x => { x with sessionId := none })
        fun _ => rfl)
  | resumeIfBlocked a =>
      show Engine.status (Prod.fst (if _ then _ else _)) b = _ ∨
        Writes s o _ b (Engine.status (Prod.fst (if _ then _ else _)) b)
      split
      · rename_i h
        exact writes_setStatus s o b rfl (.resumeIfBlocked h)
      · exact .inl rfl
  | readLine rd =>
      unfold exec
      dsimp only
      split <;> exact .inl rfl
  | event rd ev => exact writes_onEvent s o rd ev b
  | recordSpend t =>
      show (addSpend s t.agent t.spend).status b = _ ∨
        Writes s o _ b ((addSpend s t.agent t.spend).status b)
      unfold addSpend
      split
      · exact .inl rfl
      · exact .inl (Engine.status_setState _ _ _ fun _ => rfl)
  | settleTurn t ended overBudget =>
      show (settleTurn s t ended overBudget o).1.status b = _ ∨
        Writes s o _ b ((settleTurn s t ended overBudget o).1.status b)
      cases overBudget with
      | true => exact .inl rfl
      | false => exact writes_setStatus s o b rfl .settleTurn
  | limitPlan a signal onFallback strikes overBudget now =>
      show (limitPlan s a signal onFallback strikes overBudget now o).1.status b = _ ∨
        Writes s o _ b ((limitPlan s a signal onFallback strikes overBudget now o).1.status b)
      cases overBudget with
      | true => exact writes_setStatus s o b rfl .limitPlan
      | false =>
          left
          unfold limitPlan
          dsimp only
          split
          · contradiction
          · split <;> rfl
  | limitFallback a resume =>
      exact .inl (Engine.status_setState s a b
        (f := fun x => { x with fallbackUntil := some resume }) fun _ => rfl)
  | limitPark a resetsAt resume =>
      have hkeep : (limitPark s a resetsAt resume).1.status b =
          (s.setStatus a .rateLimited).status b :=
        Engine.status_setState (s.setStatus a .rateLimited) a b
          (f := fun x => { x with resetsAt := resetsAt, resumeAt := some resume }) fun _ => rfl
      show (limitPark s a resetsAt resume).1.status b = _ ∨
        Writes s o _ b ((limitPark s a resetsAt resume).1.status b)
      rw [hkeep]
      exact writes_setStatus s o b rfl .limitPark
  | setQuota a quota =>
      exact .inl (Engine.status_setState s a b (f := fun x => { x with quota := some quota })
        fun _ => rfl)
  | reapSettle a initialised diagnosed =>
      have hsession : ∀ t : MessageTable, Engine.status (if initialised then s.setMessages t
          else (s.setMessages t).setState a fun x => { x with sessionId := none }) b =
          s.status b := by
        intro t
        split
        · rfl
        · exact Engine.status_setState _ _ _ fun _ => rfl
      show (reapSettle s a initialised diagnosed o).1.status b = _ ∨
        Writes s o _ b ((reapSettle s a initialised diagnosed o).1.status b)
      cases diagnosed with
      | true => exact .inl (hsession _)
      | false => exact writes_setStatus s o b (hsession _) .reapSettle
  | resumeDue a => exact .inl (by rw [show exec _ s o = resumeDue s a o from rfl, resumeDue_fst])
  | resumeEnqueue a =>
      show (resumeEnqueue s a o).1.status b = _ ∨
        Writes s o _ b ((resumeEnqueue s a o).1.status b)
      unfold resumeEnqueue
      dsimp only
      split <;> exact .inl rfl
  | shutdownTake slots stopping =>
      show (shutdownTake s slots stopping).1.status b = _ ∨
        Writes s o _ b ((shutdownTake s slots stopping).1.status b)
      unfold shutdownTake
      split
      · exact .inl rfl
      · split <;> exact .inl rfl
  | _ => exact .inl rfl

theorem writes_proceed (k : Uuid) (h : Phase) (b : Uuid) :
    (proceed k h s o).1.status b = s.status b ∨
      Writes s o (.later k h) b ((proceed k h s o).1.status b) := by
  cases h with
  | startPrepare next n =>
      unfold proceed
      dsimp only
      split
      · exact .inl rfl
      · split
        · exact .inl rfl
        · split <;> exact .inl rfl
  | startStarting next => exact writes_setStatus s o b rfl .startStarting
  | startSpawn next =>
      show (startSpawn s k next o).1.status b = _ ∨
        Writes s o _ b ((startSpawn s k next o).1.status b)
      unfold startSpawn
      split <;> exact .inl rfl
  | pumpStatus =>
      unfold proceed
      dsimp only
      split <;> exact .inl rfl
  | pumpPick => exact .inl (by rw [show proceed k _ s o = pumpPick s k o from rfl, pumpPick_fst])
  | pumpWrite row =>
      show (pumpWrite s k row o).1.status b = _ ∨
        Writes s o _ b ((pumpWrite s k row o).1.status b)
      unfold pumpWrite
      split <;> exact .inl rfl
  | pumpRunning => exact writes_setStatus s o b rfl .pumpRunning
  | killing why mid =>
      cases why with
      | park => exact writes_setStatus s o b rfl .park
      | stop => exact writes_setStatus s o b rfl .stop
      | _ => exact .inl rfl
  | _ => exact .inl rfl

/-- A section changes a status only as `Writes` says. -/
theorem writes_act (c : Section Instr Phase Uuid) (b : Uuid) :
    (machine.act c s o).1.status b = s.status b ∨
      Writes s o c b ((machine.act c s o).1.status b) := by
  cases c with
  | first i => exact writes_exec s o i b
  | later k h => exact writes_proceed s o k h b

end Supervisor

end Wheel
