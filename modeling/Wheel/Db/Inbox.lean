import Wheel.Data.Window
import Wheel.Db.Messages
import Wheel.Text.Rfc3339

/-!
# The inbox of a node

`inbox` asks for the messages to a node whose stored creation is greater, as text, than that
of the timestamp it is given. Texts of one second whose fractions begin alike are not in the
order of their instants, so the answer is the messages created later exactly when `limit` of
them come before the first such message (`inbox_eq_iff`).
-/

namespace Wheel

namespace Messages

open Text

/-- The beginning of the year 0. -/
def yearZero : Timestamp := -(719528 * 86400 * 10 ^ 9)

/-- An instant, counted from the beginning of the year 0. -/
def instant (t : Timestamp) : ℕ := (t - yearZero).toNat

/-- The text of a timestamp, which fails unless its year has four digits. -/
def toRfc3339 (t : Timestamp) : Option (List Char) :=
  if yearZero ≤ t ∧ hasFourDigitYear (instant t) = true then some (rfc3339 (instant t)) else none

/-- The text in which the creation of a row is stored. -/
def storedCreation (r : MessageRow) : List Char := (toRfc3339 r.createdAt).getD []

/-- What the statement selects. -/
def createdAfter (t : MessageTable) (node : Uuid) (since : List Char) (limit : ℕ) :
    List MessageRow :=
  (t.rows.filter fun r => r.toId = node ∧ since < storedCreation r).take limit

/-- The messages received by a node. Without a text of the timestamp the call panics. -/
def inbox (t : MessageTable) (node : Uuid) (since : Option Timestamp) (limit : ℕ) :
    Option (List MessageRow) :=
  match since with
  | none => some (createdAfter t node "0000-01-01T00:00:00Z".toList limit)
  | some s => (toRfc3339 s).map fun text => createdAfter t node text limit

/-! ## The reference -/

/-- A message to the node, created after the timestamp. -/
def isLater (node : Uuid) (since : Option Timestamp) (r : MessageRow) : Bool :=
  r.toId = node ∧ since.getD yearZero < r.createdAt

/-- The messages created after the timestamp, in the order of their arrival. -/
def laterMessages (t : MessageTable) (node : Uuid) (since : Option Timestamp) (limit : ℕ) :
    List MessageRow :=
  (t.rows.filter (isLater node since)).take limit

/-- Every row was stored with a text of its creation. -/
def Stored (t : MessageTable) : Prop := ∀ r ∈ t.rows, (toRfc3339 r.createdAt).isSome = true

theorem toRfc3339_isSome_iff (t : Timestamp) :
    (toRfc3339 t).isSome = true ↔ yearZero ≤ t ∧ hasFourDigitYear (instant t) = true := by
  unfold toRfc3339
  split
  · rename_i h
    exact ⟨fun _ => h, fun _ => rfl⟩
  · rename_i h
    exact ⟨fun hf => absurd hf Bool.false_ne_true, fun ht => absurd ht h⟩

theorem toRfc3339_eq {t : Timestamp} (h : (toRfc3339 t).isSome = true) :
    toRfc3339 t = some (rfc3339 (instant t)) :=
  if_pos ((toRfc3339_isSome_iff t).mp h)

theorem instant_lt_iff {s t : Timestamp} (hs : yearZero ≤ s) : instant s < instant t ↔ s < t := by
  have hnonneg : 0 ≤ s - yearZero := sub_nonneg.mpr hs
  unfold instant
  rw [Int.lt_toNat, Int.toNat_of_nonneg hnonneg]
  exact sub_lt_sub_iff_right _

theorem rfc3339_yearZero : toRfc3339 yearZero = some "0000-01-01T00:00:00Z".toList := by
  decide +kernel

/-- Without a timestamp the inbox starts at the year 0. -/
theorem inbox_eq (t : MessageTable) (node : Uuid) (since : Option Timestamp) (limit : ℕ) :
    inbox t node since limit =
      (toRfc3339 (since.getD yearZero)).map fun text => createdAfter t node text limit := by
  cases since with
  | none =>
      rw [Option.getD_none, rfc3339_yearZero]
      rfl
  | some s => rfl

/-- The answer is the messages created after the timestamp, exactly when the timestamp has a
text and `limit` of them arrived before any whose creation overlaps with the timestamp. -/
theorem inbox_eq_iff {t : MessageTable} (ht : Stored t) (node : Uuid) (since : Option Timestamp)
    (limit : ℕ) :
    inbox t node since limit = some (laterMessages t node since limit) ↔
      (toRfc3339 (since.getD yearZero)).isSome = true ∧
        ∀ a r b, t.rows = a ++ r :: b → r.toId = node →
          Overlap (instant (since.getD yearZero)) (instant r.createdAt) →
            limit ≤ (a.filter (isLater node since)).length := by
  rw [inbox_eq]
  cases hs : toRfc3339 (since.getD yearZero) with
  | none => simp
  | some text =>
      have hsome : (toRfc3339 (since.getD yearZero)).isSome = true := by rw [hs]; rfl
      obtain ⟨hzero, hyear⟩ := (toRfc3339_isSome_iff _).mp hsome
      obtain rfl : text = rfc3339 (instant (since.getD yearZero)) :=
        Option.some.inj (hs.symm.trans (toRfc3339_eq hsome))
      rw [Option.map_some, Option.some.injEq, Option.isSome_some,
        and_iff_right rfl]
      unfold createdAfter laterMessages
      rw [Page.take_filter_eq_iff]
      refine forall₄_congr fun a r b hrows => ?_
      have hr : r ∈ t.rows := hrows ▸ List.mem_append_right _ List.mem_cons_self
      have hcreated := (toRfc3339_isSome_iff _).mp (ht r hr)
      have horder := rfc3339_lt_iff hyear hcreated.2
      rw [instant_lt_iff hzero] at horder
      have htext : storedCreation r = rfc3339 (instant r.createdAt) := by
        unfold storedCreation
        rw [toRfc3339_eq (ht r hr)]
        rfl
      have hdiffer : decide (r.toId = node ∧
            rfc3339 (instant (since.getD yearZero)) < storedCreation r) ≠ isLater node since r ↔
          r.toId = node ∧ Overlap (instant (since.getD yearZero)) (instant r.createdAt) := by
        unfold isLater
        rw [htext, ne_eq, decide_eq_decide]
        by_cases hnode : r.toId = node
        · simp only [hnode, true_and]
          rw [horder, not_not]
        · simp only [hnode, false_and, not_true_eq_false]
      rw [hdiffer, and_imp]

/-- A table with one message to the node 1. -/
def oneMessage (createdAt : Timestamp) : MessageTable where
  rows := [newRow 7 .user 1 "hello" "" none none createdAt]
  nodup := List.nodup_singleton _

theorem inbox_next_second :
    inbox (oneMessage (10 ^ 9)) 1 (some 500000000) 10 =
      some (laterMessages (oneMessage (10 ^ 9)) 1 (some 500000000) 10) := by
  refine (inbox_eq_iff ?_ 1 (some 500000000) 10).mpr ⟨by decide +kernel, ?_⟩
  · intro r hr
    rw [List.mem_singleton.mp hr]
    decide +kernel
  · intro a r b hrows _ ho
    have hr : r ∈ (oneMessage (10 ^ 9)).rows :=
      hrows ▸ List.mem_append_right _ List.mem_cons_self
    rw [List.mem_singleton.mp hr] at ho
    exact absurd ho (by decide +kernel)

/-- A message created fifty milliseconds after half a second is not later than that, as text. -/
theorem inbox_misses_message :
    inbox (oneMessage 550000000) 1 (some 500000000) 10 = some [] ∧
      laterMessages (oneMessage 550000000) 1 (some 500000000) 10 =
        (oneMessage 550000000).rows := by
  decide +kernel

end Messages

end Wheel
