import Wheel.Update.Gate

/-!
# The state in memory and the state on disk

`StateStore.update` changes the state in memory and then writes it. A write that fails
leaves the file as it was and the change in memory, so the two agree over a run exactly when
every change whose write fails changes nothing (`memory_is_disk_iff`).
-/

namespace Wheel

namespace Update

/-- The state in memory, and what `state.json` holds. -/
structure StateStore where
  memory : State
  disk : State

namespace StateStore

/-- `open` reads the file; without one the state is empty. -/
def opened (disk : State) : StateStore := ⟨disk, disk⟩

/-- Change and persist in one step. `written` says whether the file was replaced. -/
def update {α : Type*} (f : State → State × α) (written : Bool) (s : StateStore) :
    StateStore × Option α :=
  let out := f s.memory
  if written then (⟨out.1, out.1⟩, some out.2) else (⟨out.1, s.disk⟩, none)

/-- Read what is in memory. -/
def read {α : Type*} (f : State → α) (s : StateStore) : α := f s.memory

end StateStore

inductive RequestOutcome where
  | nothingToDo
  | blocked (reason : BlockReason)
  | notRecorded
  | accepted
  | alreadyRequested
  deriving DecidableEq

/-- Why a requester other than the operator is refused. -/
def requestRefusal (s : State) (now : ℕ) (status : Status) : Option BlockReason :=
  if s.suspended now then some .suspended
  else
    match status with
    | .candidate c =>
        (c.block.filter fun b => b = .notFastForward ∨ b = .dirtyCheckout).or
          (if c.touchesCi then some .ciDefinitionChanged else none)
    | _ => none

/-- What `request` changes, and whether its requester is the one that waits. -/
def putRequest (requester : Requester) (now : ℕ) (s : State) : State × Bool :=
  match s.request with
  | some existing =>
      if existing.requester = .operator ∨ requester ≠ .operator then (s, false)
      else ({ s with request := some ⟨requester, now⟩ }, true)
  | none => ({ s with request := some ⟨requester, now⟩ }, true)

/-- Record a request. -/
def StateStore.request (requester : Requester) (status : Status) (now : ℕ) (written : Bool)
    (s : StateStore) : StateStore × RequestOutcome :=
  if status = .upToDate then (s, .nothingToDo)
  else
    match if requester = .operator then none
      else s.read fun s => requestRefusal s now status with
    | some reason => (s, .blocked reason)
    | none =>
        match s.update (putRequest requester now) written with
        | (s', none) => (s', .notRecorded)
        | (s', some fresh) => (s', if fresh then .accepted else .alreadyRequested)

/-! ## Runs of changes -/

/-- A call of `update`: what it does to the state, and whether its write succeeds. -/
structure Update where
  change : State → State
  written : Bool

def StateStore.step (s : StateStore) (u : Update) : StateStore :=
  (s.update (fun s => (u.change s, ())) u.written).1

@[simp] theorem StateStore.memory_step (s : StateStore) (u : Update) :
    (s.step u).memory = u.change s.memory := by
  unfold StateStore.step StateStore.update
  cases u.written <;> rfl

theorem StateStore.disk_step (s : StateStore) (u : Update) :
    (s.step u).disk = if u.written then u.change s.memory else s.disk := by
  unfold StateStore.step StateStore.update
  cases u.written <;> rfl

/-- The call left in memory what is on disk. -/
def StateStore.Agrees (s : StateStore) : Prop := s.memory = s.disk

/-- From agreement, a call keeps it exactly when it is written or changes nothing. -/
theorem StateStore.agrees_step_iff {s : StateStore} (h : s.Agrees) (u : Update) :
    (s.step u).Agrees ↔ (u.written = false → u.change s.memory = s.memory) := by
  unfold StateStore.Agrees at h ⊢
  rw [StateStore.memory_step, StateStore.disk_step]
  cases u.written with
  | true => simp
  | false => simp [h]

/-- After every call that reports an error, the memory holds what was persisted last: over a
run this is so exactly when no call changes anything that it does not write. -/
theorem memory_is_disk_iff (disk : State) (updates : List Update) :
    Run.Always StateStore.step (fun s u => u.written = false → (s.step u).Agrees)
        (.opened disk) updates ↔
      Run.Always StateStore.step (fun s u => u.written = false → u.change s.memory = s.memory)
        (.opened disk) updates := by
  have hgeneral : ∀ s : StateStore, s.Agrees →
      (Run.Always StateStore.step (fun s u => u.written = false → (s.step u).Agrees) s updates ↔
        Run.Always StateStore.step (fun s u => u.written = false → u.change s.memory = s.memory)
          s updates) := by
    induction updates with
    | nil => exact fun _ _ => Iff.rfl
    | cons u updates ih =>
        intro s hs
        have hstep := StateStore.agrees_step_iff hs u
        have hhead : (u.written = false → (s.step u).Agrees) ↔ (s.step u).Agrees := by
          refine ⟨fun h => ?_, fun h _ => h⟩
          cases hw : u.written with
          | true => exact hstep.mpr fun hf => absurd (hw.symm.trans hf) Bool.noConfusion
          | false => exact h hw
        constructor
        · rintro ⟨h, hrest⟩
          have hagrees := hhead.mp h
          exact ⟨hstep.mp hagrees, (ih _ hagrees).mp hrest⟩
        · rintro ⟨h, hrest⟩
          have hagrees := hstep.mpr h
          exact ⟨hhead.mpr hagrees, (ih _ hagrees).mpr hrest⟩
  exact hgeneral _ rfl

/-- Then every state on the way holds what was persisted, and so does all that is read. -/
theorem agrees_run {disk : State} {updates : List Update}
    (h : Run.Always StateStore.step (fun s u => u.written = false → u.change s.memory = s.memory)
      (.opened disk) updates) : (Run.run StateStore.step (.opened disk) updates).Agrees :=
  Run.invariant (I := StateStore.Agrees)
    (fun _ u hs hc => (StateStore.agrees_step_iff hs u).mpr hc) rfl h

/-! ## Requests -/

theorem memory_update {α : Type*} (f : State → State × α) (written : Bool) (s : StateStore) :
    (s.update f written).1.memory = (f s.memory).1 := by
  unfold StateStore.update
  cases written <;> rfl

theorem isSome_requestRefusal (s : State) (now : ℕ) {status : Status}
    (h : status ≠ .upToDate) :
    (requestRefusal s now status).isSome = refusesRequest s now status := by
  unfold requestRefusal refusesRequest
  cases status with
  | upToDate => exact absurd rfl h
  | unknown => cases s.suspended now <;> rfl
  | candidate c =>
      dsimp only
      rcases c with ⟨target, components, commits, touchesCi, block⟩
      cases s.suspended now <;> cases touchesCi <;> cases block with
      | none => rfl
      | some b => cases b <;> rfl

theorem ask_eq (s : State) (requester : Requester) (status : Status) (now : ℕ) :
    s.ask requester status now =
      if status = .upToDate then s
      else if requester ≠ Requester.operator ∧ refusesRequest s now status = true then s
      else (putRequest requester now s).1 := by
  unfold State.ask putRequest
  cases s.request with
  | none => rfl
  | some existing =>
      dsimp only
      rw [apply_ite Prod.fst]

/-- A request asks of the state in memory, whether or not it is recorded. -/
theorem memory_request (requester : Requester) (status : Status) (now : ℕ) (written : Bool)
    (s : StateStore) :
    (s.request requester status now written).1.memory = s.memory.ask requester status now := by
  rw [ask_eq]
  unfold StateStore.request
  by_cases hstatus : status = .upToDate
  · rw [if_pos hstatus, if_pos hstatus]
  · rw [if_neg hstatus, if_neg hstatus]
    have hchanged : (match s.update (putRequest requester now) written with
        | (s', none) => (s', RequestOutcome.notRecorded)
        | (s', some fresh) =>
            (s', if fresh then RequestOutcome.accepted else .alreadyRequested)).1.memory =
          (putRequest requester now s.memory).1 := by
      rw [← memory_update (putRequest requester now) written s]
      rcases s.update (putRequest requester now) written with ⟨s', out⟩
      cases out <;> rfl
    by_cases hoperator : requester = .operator
    · rw [if_pos hoperator, if_neg fun h => h.1 hoperator]
      exact hchanged
    · rw [if_neg hoperator, ← isSome_requestRefusal s.memory now hstatus]
      unfold StateStore.read
      dsimp only
      cases requestRefusal s.memory now status with
      | none =>
          rw [if_neg fun h => Bool.false_ne_true h.2]
          exact hchanged
      | some reason =>
          exact (if_pos ⟨hoperator, rfl⟩).symm

/-- A request that could not be recorded is due in memory, and not on disk. -/
theorem unrecorded_request_is_due :
    let c : Candidate := ⟨"bbbbbbb", [.core], 1, false, none⟩
    let s := (StateStore.opened {}).request (.agent 1 2 "pm") (.candidate c) 5 false
    s.2 = .notRecorded ∧ ¬ s.1.Agrees ∧
      dueFor updaterOfA s.1.memory 5 c = some (.agent 1 2 "pm") ∧
      dueFor updaterOfA s.1.disk 5 c = none := by
  refine ⟨by decide +kernel, ?_, by decide +kernel, by decide +kernel⟩
  unfold StateStore.Agrees
  decide +kernel

end Update

end Wheel
