import Mathlib

/-!
# What is kept of a script's output

The output of a script is read to its end and kept up to a cap. `readCapped_eq` says that what is
kept is what was written, up to the cap, however the output is cut into reads, and that it is
called truncated exactly when something was left out.
-/

namespace Wheel

namespace ScriptOutput

/-- How many bytes one read can return. -/
def chunkSize : ℕ := 8192

/-- What a read returns. A read of no bytes is the end of the output. -/
inductive Read where
  | ok (bytes : List UInt8)
  | err
  deriving DecidableEq, Repr

structure Captured where
  buf : List UInt8
  truncated : Bool
  deriving DecidableEq, Repr

namespace Captured

def empty : Captured := ⟨[], false⟩

/-- Keep of a chunk what fits. -/
def push (c : Captured) (cap : ℕ) (chunk : List UInt8) : Captured :=
  if c.buf.length < cap then
    let take := min (cap - c.buf.length) chunk.length
    ⟨c.buf ++ chunk.take take, if take < chunk.length then true else c.truncated⟩
  else { c with truncated := true }

end Captured

/-- Read until nothing is read. The reads that are left are not made. -/
def readLoop (cap : ℕ) (c : Captured) : List Read → Captured × List Read
  | [] => (c, [])
  | .err :: reads => (c, reads)
  | .ok [] :: reads => (c, reads)
  | .ok (b :: chunk) :: reads => readLoop cap (c.push cap (b :: chunk)) reads

/-- Drain a pipe to a capped buffer. -/
def readCapped (cap : ℕ) (reads : List Read) : Captured × List Read := readLoop cap .empty reads

/-- An output, cut into reads. -/
structure Output where
  chunks : List (List UInt8)
  nonempty : ∀ chunk ∈ chunks, chunk ≠ []
  fits : ∀ chunk ∈ chunks, chunk.length ≤ chunkSize

namespace Output

/-- The bytes that were written. -/
def bytes (o : Output) : List UInt8 := o.chunks.flatten

/-- The reads of the output, to its end. -/
def reads (o : Output) : List Read := o.chunks.map .ok ++ [.ok []]

end Output

/-- The capture of all that was read so far. -/
def Captures (cap : ℕ) (c : Captured) (read : List UInt8) : Prop :=
  c.buf = read.take cap ∧ c.truncated = decide (cap < read.length)

theorem captures_empty (cap : ℕ) : Captures cap .empty [] := by
  simp [Captures, Captured.empty]

/-- A chunk that is read is captured. -/
theorem Captures.push {cap : ℕ} {c : Captured} {read chunk : List UInt8} (h : Captures cap c read)
    (hchunk : chunk ≠ []) : Captures cap (c.push cap chunk) (read ++ chunk) := by
  obtain ⟨hbuf, htruncated⟩ := h
  have hpos := List.length_pos_iff.2 hchunk
  have hlength : c.buf.length = min cap read.length := by rw [hbuf, List.length_take]
  unfold Captured.push
  by_cases hroom : c.buf.length < cap
  · -- all that was read is in the buffer
    have hread : read.length < cap := by omega
    have hall : read.take cap = read := List.take_of_length_le (by omega)
    rw [if_pos hroom]
    dsimp only
    have hkept : chunk.take (min (cap - c.buf.length) chunk.length) =
        chunk.take (cap - read.length) := by
      rw [hlength, min_eq_right (by omega : read.length ≤ cap), List.take_eq_take_iff]
      omega
    refine ⟨?_, ?_⟩
    · rw [hkept, hbuf, hall, List.take_append, hall]
    · rw [List.length_append]
      split
      · exact (decide_eq_true (by omega)).symm
      · rw [htruncated, decide_eq_decide]
        omega
  · -- the buffer is full
    have hread : cap ≤ read.length := by omega
    rw [if_neg hroom]
    refine ⟨?_, (decide_eq_true ?_).symm⟩
    · rw [List.take_append_of_le_length hread]
      exact hbuf
    · rw [List.length_append]
      omega

/-- The loop captures every chunk and stops at the end of the output. -/
theorem readLoop_chunks {cap : ℕ} {c : Captured} {read : List UInt8} (h : Captures cap c read)
    {chunks : List (List UInt8)} (hchunks : ∀ chunk ∈ chunks, chunk ≠ []) (rest : List Read) :
    ∃ c', readLoop cap c (chunks.map .ok ++ .ok [] :: rest) = (c', rest) ∧
      Captures cap c' (read ++ chunks.flatten) := by
  induction chunks generalizing c read with
  | nil =>
      rw [List.flatten_nil, List.append_nil]
      exact ⟨c, rfl, h⟩
  | cons chunk chunks ih =>
      obtain ⟨b, x, rfl⟩ := List.exists_cons_of_ne_nil (hchunks chunk (.head _))
      obtain ⟨c', hloop, hc⟩ := ih (h.push (hchunks _ (.head _))) fun y hy => hchunks y (.tail _ hy)
      rw [List.append_assoc] at hc
      exact ⟨c', hloop, hc⟩

/-- However an output is cut into reads, it is kept up to the cap, called truncated exactly when it
is longer, and read to its end. -/
theorem readCapped_eq (cap : ℕ) (o : Output) :
    readCapped cap o.reads = (⟨o.bytes.take cap, decide (cap < o.bytes.length)⟩, []) := by
  obtain ⟨c, hloop, hbuf, htruncated⟩ := readLoop_chunks (captures_empty cap) o.nonempty []
  rw [readCapped, Output.reads, hloop]
  cases c
  cases hbuf
  cases htruncated
  rfl

example : readCapped 3 [.ok [1, 2], .ok [3], .ok [4], .ok []] = (⟨[1, 2, 3], true⟩, []) := by
  decide

end ScriptOutput

end Wheel
