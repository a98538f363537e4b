import Wheel.Db.MessageHistory

/-!
# The rule of delivery, twice

The rule that picks the next message is written as a function over candidates, which takes the
oldest of a lane by the time of its creation, and as two queries over the message table, which
take the first by the order of arrival. `nextForDelivery_eq_nextMessage` says that both pick the
same message from every table whose messages were enqueued under a clock that does not go back,
however they were requeued since.
-/

namespace Wheel

open Messages

/-! ## The first of the least -/

/-- The first element with the least key. -/
def minByKey {α : Type} (key : α → ℤ) : List α → Option α
  | [] => none
  | x :: l => some (l.foldl (fun m y => if key y < key m then y else m) x)

/-- Where keys do not go down the first element is the least. -/
theorem minByKey_of_pairwise {α : Type} {key : α → ℤ} {l : List α}
    (h : l.Pairwise fun x y => key x ≤ key y) : minByKey key l = l.head? := by
  cases l with
  | nil => rfl
  | cons x l =>
      rw [List.pairwise_cons] at h
      have hkeep : ∀ y ∈ l, key x ≤ key y := h.1
      clear h
      rw [minByKey, List.head?_cons]
      congr 1
      induction l with
      | nil => rfl
      | cons y l ih =>
          rw [List.foldl_cons, if_neg (not_lt.2 (hkeep y (.head _)))]
          exact ih fun z hz => hkeep z (.tail _ hz)

/-! ## The specification -/

/-- Which lane a queued message is in. -/
inductive Lane where
  | user
  | normal
  deriving DecidableEq, Repr

structure Candidate where
  id : Uuid
  lane : Lane
  createdAt : Timestamp
  deriving DecidableEq

def maxConsecutiveUser : ℕ := 3

def normalPromoteAfterSecs : ℤ := 60

/-- The oldest candidate of a lane. -/
def oldestIn (queued : List Candidate) (lane : Lane) : Option Candidate :=
  minByKey Candidate.createdAt (queued.filter fun c => c.lane = lane)

/-- Choose the next message to deliver. -/
def nextMessage (queued : List Candidate) (consecutiveUser : ℕ) (now : Timestamp) :
    Option Candidate :=
  if queued.isEmpty then none
  else
    let user := oldestIn queued .user
    let normal := oldestIn queued .normal
    match normal with
    | some n =>
        if normalPromoteAfterSecs ≤ wholeSeconds (now - n.createdAt) then some n
        else if maxConsecutiveUser ≤ consecutiveUser then some n
        else user.or normal
    | none => user.or normal

/-! ## The candidates of a table -/

/-- The candidate that a row is. -/
def MessageRow.candidate (r : MessageRow) : Candidate :=
  ⟨r.id, if r.fromKind = .user then .user else .normal, r.createdAt⟩

/-- What is queued for an agent, in the order of arrival. -/
def candidates (t : MessageTable) (agent : Uuid) : List Candidate :=
  (t.rows.filter fun r => r.toId = agent ∧ r.state = .queued).map MessageRow.candidate

/-- The times of creation, in the order of arrival. -/
def createdTimes (t : MessageTable) : List Timestamp := t.rows.map MessageRow.createdAt

/-- The clock at an operation that enqueues. -/
def MessageOp.enqueuedAt : MessageOp → Option Timestamp
  | .enqueue _ _ _ _ _ _ _ now => some now
  | _ => none

/-- The messages were enqueued under a clock that does not go back. -/
def EnqueuedInOrder (ops : List MessageOp) : Prop :=
  (ops.filterMap MessageOp.enqueuedAt).Pairwise (· ≤ ·)

variable {t : MessageTable} {agent : Uuid}

theorem lane_candidate (r : MessageRow) :
    (r.candidate.lane = .user ↔ r.fromKind = .user) ∧
      (r.candidate.lane = .normal ↔ r.fromKind ≠ .user) := by
  unfold MessageRow.candidate
  by_cases h : r.fromKind = .user <;> simp [h]

/-- The oldest of a lane is the first of its rows. -/
theorem oldestIn_candidates (h : (createdTimes t).Pairwise (· ≤ ·)) (lane : Lane) :
    oldestIn (candidates t agent) lane =
      (t.rows.find? fun r => (decide (r.toId = agent ∧ r.state = .queued)) &&
        decide (r.candidate.lane = lane)).map MessageRow.candidate := by
  have hsorted : t.rows.Pairwise fun r r' => r.createdAt ≤ r'.createdAt := List.pairwise_map.1 h
  have hlane : (candidates t agent).filter (fun c => c.lane = lane) =
      (t.rows.filter fun r => (decide (r.toId = agent ∧ r.state = .queued)) &&
        decide (r.candidate.lane = lane)).map MessageRow.candidate := by
    rw [candidates, List.filter_map, List.filter_filter]
    congr 1
    refine List.filter_congr fun r _ => ?_
    exact Bool.and_comm _ _
  rw [oldestIn, hlane, minByKey_of_pairwise, List.head?_map, List.head?_filter]
  rw [List.pairwise_map]
  exact hsorted.sublist List.filter_sublist

theorem oldestIn_user (h : (createdTimes t).Pairwise (· ≤ ·)) :
    oldestIn (candidates t agent) .user = (userFirst t agent).map MessageRow.candidate := by
  rw [oldestIn_candidates h, userFirst]
  congr 2
  funext r
  rw [← Bool.decide_and, decide_eq_decide, (lane_candidate r).1, and_assoc]

theorem oldestIn_normal (h : (createdTimes t).Pairwise (· ≤ ·)) :
    oldestIn (candidates t agent) .normal = (oldestNormal t agent).map MessageRow.candidate := by
  rw [oldestIn_candidates h, oldestNormal]
  congr 2
  funext r
  rw [← Bool.decide_and, decide_eq_decide, (lane_candidate r).2, and_assoc]

/-- Both rules pick the same from a table whose times do not go back. -/
theorem nextForDelivery_of_sorted (h : (createdTimes t).Pairwise (· ≤ ·)) (agent : Uuid)
    (consecutiveUser : ℕ) (now : Timestamp) :
    (nextForDelivery t agent consecutiveUser now).map MessageRow.candidate =
      nextMessage (candidates t agent) consecutiveUser now := by
  have huser : oldestIn (candidates t agent) .user = _ := oldestIn_user h
  have hnormal : oldestIn (candidates t agent) .normal = _ := oldestIn_normal h
  unfold nextForDelivery nextMessage
  split
  · -- a normal message is queued
    rename_i m hm
    rw [hm] at hnormal
    have hqueued : (candidates t agent).isEmpty = false := by
      cases hc : candidates t agent with
      | nil =>
          rw [hc] at hnormal
          cases hnormal
      | cons c l => rfl
    rw [hqueued, if_neg Bool.false_ne_true, hnormal, huser]
    dsimp only [Option.map_some]
    by_cases hpromoted : promoteAfterSecs ≤ wholeSeconds (now - m.createdAt)
    · rw [if_pos (.inl hpromoted), if_pos (show normalPromoteAfterSecs ≤
        wholeSeconds (now - m.candidate.createdAt) from hpromoted)]
      rfl
    · rw [if_neg (show ¬ normalPromoteAfterSecs ≤ wholeSeconds (now - m.candidate.createdAt) from
        hpromoted)]
      by_cases hburst : userLaneBurst ≤ consecutiveUser
      · rw [if_pos (.inr hburst), if_pos (show maxConsecutiveUser ≤ consecutiveUser from hburst)]
        rfl
      · rw [if_neg (not_or.2 ⟨hpromoted, hburst⟩),
          if_neg (show ¬ maxConsecutiveUser ≤ consecutiveUser from hburst), Option.map_or]
        rfl
  · -- the normal lane is empty
    rename_i hm
    rw [hm] at hnormal
    rw [hnormal, huser, Option.map_none]
    dsimp only
    rw [Option.or_none]
    split
    · rename_i hempty
      rw [List.isEmpty_iff.1 hempty] at huser
      exact huser.symm
    · rfl

/-! ## The order of arrival over histories -/

theorem createdTimes_updateWhere {p : MessageRow → Bool} {f : MessageRow → MessageRow}
    (hf : ∀ r, (f r).id = r.id) (h : ∀ r, (f r).createdAt = r.createdAt) :
    createdTimes (t.updateWhere p f hf) = createdTimes t := by
  rw [createdTimes, Keyed.rows_updateWhere, List.map_map]
  refine List.map_congr_left fun r _ => ?_
  dsimp only [Function.comp]
  split
  · exact h r
  · rfl

theorem createdTimes_modify {id : Uuid} {f : MessageRow → MessageRow}
    (hf : ∀ r, (f r).id = r.id) (h : ∀ r, (f r).createdAt = r.createdAt) :
    createdTimes (t.modify id f hf) = createdTimes t :=
  createdTimes_updateWhere hf h

theorem createdTimes_advanceOrKeep (id : Uuid) (next : MessageState) (now : Timestamp) :
    createdTimes (advanceOrKeep t id next now) = createdTimes t := by
  unfold advanceOrKeep advance
  cases t.get? id with
  | none => rfl
  | some r =>
      dsimp only
      cases hcan : r.state.canAdvanceTo next with
      | false => rfl
      | true =>
          cases next with
          | delivered => exact createdTimes_updateWhere _ fun _ => rfl
          | consumed => exact createdTimes_updateWhere _ fun _ => rfl
          | _ => rfl

/-- No operation changes when a message was created, and a new one is created at its clock. -/
theorem createdTimes_apply (op : MessageOp) :
    (createdTimes (op.apply t)).Sublist (createdTimes t ++ op.enqueuedAt.toList) := by
  have hsame : ∀ {l : List Timestamp}, createdTimes (op.apply t) = l → l = createdTimes t →
      (createdTimes (op.apply t)).Sublist (createdTimes t ++ op.enqueuedAt.toList) := by
    rintro l rfl h
    rw [h]
    exact List.sublist_append_left _ _
  cases op with
  | enqueue id sender target body sha256 replyTo onBehalfOf now =>
      change (createdTimes ((enqueue t _).getD t)).Sublist _
      cases hrow : enqueue t (newRow id sender target body sha256 replyTo onBehalfOf now) with
      | none => exact List.sublist_append_left _ _
      | some t' =>
          obtain ⟨-, hrows⟩ := Keyed.insert_eq_some_iff.mp hrow
          rw [Option.getD_some, createdTimes, hrows, List.map_append]
          exact .refl _
  | advance id next now => exact hsame rfl (createdTimes_advanceOrKeep id next now)
  | markError id err now =>
      refine hsame rfl ?_
      change createdTimes (markError t id err now) = _
      rw [markError, createdTimes_modify _ (fun r => by rfl), createdTimes_advanceOrKeep]
  | requeueForLimit id reason cap =>
      refine hsame rfl ?_
      change createdTimes (requeueForLimit t id reason cap).1 = _
      unfold requeueForLimit
      split
      · rfl
      · split_ifs
        · rfl
        · rfl
        · apply createdTimes_modify <;> exact fun _ => rfl
  | complete id result now =>
      refine hsame rfl ?_
      have hadvance := createdTimes_advanceOrKeep (t := t) id .consumed now
      change createdTimes (complete t id result now).1 = _
      unfold complete
      unfold advanceOrKeep at hadvance
      split
      · rfl
      · rename_i t' ht'
        rw [ht'] at hadvance
        dsimp only at hadvance ⊢
        rw [createdTimes_modify _ (fun r => by rfl), hadvance]
  | _ =>
      refine hsame rfl ?_
      apply createdTimes_updateWhere <;> exact fun _ => rfl

theorem createdTimes_run (t : MessageTable) (ops : List MessageOp) :
    (createdTimes (Run.run MessageOp.apply t ops)).Sublist
      (createdTimes t ++ ops.filterMap MessageOp.enqueuedAt) := by
  induction ops generalizing t with
  | nil =>
      rw [Run.run_nil, List.filterMap_nil, List.append_nil]
  | cons op ops ih =>
      have hstep := (createdTimes_apply (t := t) op).append_right
        (ops.filterMap MessageOp.enqueuedAt)
      rw [Run.run_cons]
      refine (ih (op.apply t)).trans (hstep.trans ?_)
      rw [List.append_assoc, List.filterMap_cons]
      cases op.enqueuedAt with
      | none => exact .refl _
      | some now => exact .refl _

/-- The database picks the message that the specification picks, from every table whose times of
creation do not go back, and from every table that a history leads to which enqueues under a clock
that does not go back. -/
theorem nextForDelivery_eq_nextMessage (agent : Uuid) (consecutiveUser : ℕ) (now : Timestamp) :
    (∀ t : MessageTable, (createdTimes t).Pairwise (· ≤ ·) →
      (nextForDelivery t agent consecutiveUser now).map MessageRow.candidate =
        nextMessage (candidates t agent) consecutiveUser now) ∧
    (∀ ops : List MessageOp, EnqueuedInOrder ops →
      let t := Run.run MessageOp.apply Keyed.empty ops
      (nextForDelivery t agent consecutiveUser now).map MessageRow.candidate =
        nextMessage (candidates t agent) consecutiveUser now) := by
  constructor
  · exact fun t h => nextForDelivery_of_sorted h agent consecutiveUser now
  · intro ops h
    exact nextForDelivery_of_sorted (h.sublist (createdTimes_run Keyed.empty ops)) agent
      consecutiveUser now

/-- A message that was delivered and requeued goes before a later one of its lane. -/
def requeuedQueue : List MessageOp :=
  [.enqueue 1 .system 9 "first" "" none none 5, .enqueue 2 .system 9 "second" "" none none 5,
    .enqueue 3 .user 9 "third" "" none none 6, .advance 1 .delivered 7,
    .requeueUndelivered 1 "interrupted"]

theorem nextForDelivery_requeued :
    (nextForDelivery (Run.run MessageOp.apply Keyed.empty requeuedQueue) 9 3 8).map
        MessageRow.candidate =
      nextMessage (candidates (Run.run MessageOp.apply Keyed.empty requeuedQueue) 9) 3 8 :=
  (nextForDelivery_eq_nextMessage 9 3 8).2 requeuedQueue (by unfold EnqueuedInOrder; decide)

end Wheel
