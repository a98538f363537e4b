import Wheel.Data.Files
import Wheel.Update.State

/-!
# Installing a build, and putting the previous one back

An update replaces the two binaries file by file. The swap of one binary is five
operations: the build is copied beside the live file and made executable, the
file kept from the last update is removed, the live file is kept in its place,
and the copy is renamed over the live file. `rollback` renames whatever file was
kept over its live file. `Swapping` says where the swap of one binary stands
after some of its operations, and `run_swapOps` that each operation takes it one
further.
-/

namespace Wheel

namespace Update

open Files

/-- The binaries an update replaces together. -/
inductive Binary where
  | wheeld
  | wheel
  deriving DecidableEq, Repr

def binaries : List Binary := [.wheeld, .wheel]

/-- A binary: the commit it was built from, its bytes and its mode. -/
structure Exe where
  build : String
  bytes : List UInt8
  mode : ℕ
  deriving DecidableEq

/-- The paths of the directory of binaries. -/
inductive Path where
  /-- The binary itself. -/
  | live (name : Binary)
  /-- The build that is about to replace it, in `.<name>.new`. -/
  | fresh (name : Binary)
  /-- What the last swap replaced, in `<name>.prev`. -/
  | prev (name : Binary)
  deriving DecidableEq

/-- The directory of binaries. No other path names a file at a fresh path, so a
write to it replaces the file. -/
abbrev BinDir := Dir Path Exe

/-- A build, by the binaries it left. -/
structure Staged where
  binary : Binary → Exe

inductive FileOp where
  | copy (image : Exe) (target : Path)
  | setMode (path : Path) (mode : ℕ)
  | removeFile (path : Path)
  | hardLink (source target : Path)
  | rename (source target : Path)
  deriving DecidableEq

namespace FileOp

/-- What an operation does; nothing when it cannot be done. -/
def run (d : BinDir) : FileOp → Option BinDir
  | .copy image target => some (d.put target image)
  | .setMode path mode => (d.data? path).map fun image => d.put path { image with mode := mode }
  | .removeFile path => some (d.remove path)
  | .hardLink source target => d.link source target
  | .rename source target => d.rename source target

/-- What is left of an operation that fails; a copy may leave a part of a file. -/
def fail (d : BinDir) (debris : Option Exe) : FileOp → BinDir
  | .copy _ target => debris.elim d (d.put target)
  | _ => d

end FileOp

/-- The operation of a list that fails, and what it leaves. -/
abbrev Fault := ℕ × Option Exe

/-- Run a list of operations up to the one that fails. -/
def perform : Option Fault → List FileOp → BinDir → BinDir × Bool
  | _, [], d => (d, true)
  | some (0, debris), op :: _, d => (op.fail d debris, false)
  | fault, op :: ops, d =>
      match op.run d with
      | none => (d, false)
      | some d' => perform (fault.map fun f => (f.1 - 1, f.2)) ops d'

/-- The mode of an executable. -/
def exeMode : ℕ := 0o755

/-- The operations that replace one binary. -/
def swapOps (staged : Staged) (b : Binary) : List FileOp :=
  [.copy (staged.binary b) (.fresh b), .setMode (.fresh b) exeMode, .removeFile (.prev b),
    .hardLink (.live b) (.prev b), .rename (.fresh b) (.live b)]

/-- The operations of a swap. -/
def swap (staged : Staged) : List FileOp := binaries.flatMap (swapOps staged)

/-- Rename a kept binary over its live file, if there is one, and count it. -/
def restore (r : BinDir × ℕ) (b : Binary) : BinDir × ℕ :=
  if r.1.has (.prev b) then ((r.1.rename (.prev b) (.live b)).getD r.1, r.2 + 1) else r

/-- Put back what the last swap replaced; an error when there is nothing. -/
def rollback (d : BinDir) : BinDir × Bool :=
  let r := binaries.foldl restore (d, 0)
  (r.1, r.2 != 0)

/-! ## The swap of one binary -/

/-- The binary a path belongs to. -/
def Path.name : Path → Binary
  | .live b | .fresh b | .prev b => b

variable {staged : Staged} {b : Binary} {d d' : BinDir}

/-- What the swap of a binary installs. -/
def Staged.installed (staged : Staged) (b : Binary) : Exe :=
  { staged.binary b with mode := exeMode }

/-- Where the swap of `b`, begun in `d`, stands after `j` of its operations. -/
structure Swapping (staged : Staged) (b : Binary) (d d' : BinDir) (j : ℕ) : Prop where
  live : d'.data? (.live b) =
    if j < 5 then d.data? (.live b) else some (staged.installed b)
  prev : d'.data? (.prev b) =
    if j < 3 then d.data? (.prev b) else if j = 3 then none else d.data? (.live b)
  fresh : 0 < j → j < 5 → d'.data? (.fresh b) =
    some (if j = 1 then staged.binary b else staged.installed b)
  others : ∀ q : Path, q.name ≠ b → d'.data? q = d.data? q

theorem Swapping.zero (staged : Staged) (b : Binary) (d : BinDir) : Swapping staged b d d 0 where
  live := rfl
  prev := rfl
  fresh h := absurd h (lt_irrefl 0)
  others _ _ := rfl

/-- A binary that is there can be swapped: each operation succeeds and takes the
swap one further. -/
theorem Swapping.step {j : ℕ} {op : FileOp} (h : Swapping staged b d d' j)
    (hlive : d.data? (.live b) ≠ none) (hop : (swapOps staged b)[j]? = some op) :
    ∃ e, op.run d' = some e ∧ Swapping staged b d e (j + 1) := by
  match j, hop with
  | 0, hop =>
      cases hop
      refine ⟨_, rfl, ?_, ?_, fun _ _ => ?_, fun q hq => ?_⟩
      · simpa using h.live
      · simpa using h.prev
      · simp
      · have hne : q ≠ .fresh b := fun hq' => hq (by rw [hq']; rfl)
        rw [Dir.data?_put, if_neg hne, h.others q hq]
  | 1, hop =>
      cases hop
      have hfresh : d'.data? (.fresh b) = some (staged.binary b) := h.fresh (by omega) (by omega)
      refine ⟨d'.put (.fresh b) (staged.installed b), ?_, ?_, ?_, fun _ _ => ?_, fun q hq => ?_⟩
      · rw [FileOp.run, hfresh]
        rfl
      · simpa using h.live
      · simpa using h.prev
      · simp
      · have hne : q ≠ .fresh b := fun hq' => hq (by rw [hq']; rfl)
        rw [Dir.data?_put, if_neg hne, h.others q hq]
  | 2, hop =>
      cases hop
      have hfresh : d'.data? (.fresh b) = some (staged.installed b) := h.fresh (by omega) (by omega)
      refine ⟨_, rfl, ?_, ?_, fun _ _ => ?_, fun q hq => ?_⟩
      · simpa using h.live
      · simp
      · simpa using hfresh
      · have hne : q ≠ .prev b := fun hq' => hq (by rw [hq']; rfl)
        rw [Dir.data?_remove, if_neg hne, h.others q hq]
  | 3, hop =>
      cases hop
      have hl : d'.data? (.live b) = d.data? (.live b) := h.live
      have hp : d'.data? (.prev b) = none := h.prev
      have hfresh : d'.data? (.fresh b) = some (staged.installed b) := h.fresh (by omega) (by omega)
      obtain ⟨e, he⟩ := Dir.exists_link (by rw [hl]; exact hlive) hp
      refine ⟨e, he, ?_, ?_, fun _ _ => ?_, fun q hq => ?_⟩
      · rw [Dir.data?_link he, if_neg nofun, hl]
        rfl
      · rw [Dir.data?_link he, if_pos rfl, hl]
        rfl
      · rw [Dir.data?_link he, if_neg nofun, hfresh]
        rfl
      · have hne : q ≠ .prev b := fun hq' => hq (by rw [hq']; rfl)
        rw [Dir.data?_link he, if_neg hne, h.others q hq]
  | 4, hop =>
      cases hop
      have hfresh : d'.data? (.fresh b) = some (staged.installed b) := h.fresh (by omega) (by omega)
      have hp : d'.data? (.prev b) = d.data? (.live b) := h.prev
      obtain ⟨e, he⟩ := Dir.exists_rename (by rw [hfresh]; exact Option.some_ne_none _)
        (Path.live b)
      refine ⟨e, he, ?_, ?_, fun _ h5 => absurd h5 (lt_irrefl 5), fun q hq => ?_⟩
      · rw [Dir.data?_rename_target he, hfresh]
        rfl
      · rw [Dir.data?_rename_of_ne he (r := Path.prev b) nofun nofun, hp]
        rfl
      · have hne : q ≠ .fresh b := fun hq' => hq (by rw [hq']; rfl)
        have hne' : q ≠ .live b := fun hq' => hq (by rw [hq']; rfl)
        rw [Dir.data?_rename_of_ne he hne hne', h.others q hq]
  | j + 5, hop => cases hop

/-- An operation that fails leaves the swap where it stood, but for the copy. -/
theorem Swapping.fail {j : ℕ} {op : FileOp} (h : Swapping staged b d d' j)
    (hop : (swapOps staged b)[j]? = some op) (debris : Option Exe) :
    (∀ q : Path, q ≠ .fresh b → (op.fail d' debris).data? q = d'.data? q) := by
  intro q hq
  match j, hop with
  | 0, hop =>
      cases hop
      cases debris with
      | none => rfl
      | some e => exact (Dir.data?_put _ _ q).trans (if_neg hq)
  | 1, hop | 2, hop | 3, hop | 4, hop =>
      cases hop
      rfl
  | j + 5, hop => cases hop

/-- What a rollback would make of the live file: once the swap removed what was
kept before, that is the file the swap began with. -/
theorem Swapping.kept {j : ℕ} (h : Swapping staged b d d' j) (hlive : d.data? (.live b) ≠ none) :
    (d'.data? (.prev b)).or (d'.data? (.live b)) =
      if 2 < j then d.data? (.live b) else (d.data? (.prev b)).or (d.data? (.live b)) := by
  obtain ⟨e, he⟩ := Option.ne_none_iff_exists'.mp hlive
  rw [h.prev, h.live]
  rcases Nat.lt_or_ge j 3 with hj | hj
  · rw [if_pos hj, if_pos (by omega), if_neg (by omega)]
  · rw [if_neg (by omega), if_pos (show 2 < j from hj), he]
    rcases eq_or_ne j 3 with rfl | hne
    · rfl
    · rw [if_neg hne, Option.some_or]

/-! ## Lists of operations -/

/-- The fault of the list that is left when `n` operations were done. -/
def later (n : ℕ) (fault : Option Fault) : Option Fault := fault.map fun f => (f.1 - n, f.2)

@[simp] theorem later_later (m n : ℕ) (fault : Option Fault) :
    later n (later m fault) = later (m + n) fault := by
  cases fault with
  | none => rfl
  | some f => simp [later, Nat.sub_sub]

theorem perform_cons {op : FileOp} {ops : List FileOp} {e : BinDir} {fault : Option Fault}
    (hf : ∀ f ∈ fault, 0 < f.1) (h : op.run d = some e) :
    perform fault (op :: ops) d = perform (later 1 fault) ops e := by
  match fault, hf with
  | none, _ => simp [perform, h, later]
  | some (0, _), hf => exact absurd (hf _ rfl) (lt_irrefl 0)
  | some (_ + 1, _), _ => simp [perform, h, later]

/-- An operation of the swap of `b` fails after those before it were done. -/
theorem Swapping.perform_within {j : ℕ} (h : Swapping staged b d d' j) (k : ℕ)
    (debris : Option Exe) (rest : List FileOp) (hlive : d.data? (.live b) ≠ none)
    (hk : j + k < 5) :
    ∃ e op, (swapOps staged b)[j + k]? = some op ∧ Swapping staged b d e (j + k) ∧
      perform (some (k, debris)) ((swapOps staged b).drop j ++ rest) d' =
        (op.fail e debris, false) := by
  have hj : j < (swapOps staged b).length := by
    show j < 5
    omega
  have hget := List.getElem?_eq_getElem hj
  rw [List.drop_eq_getElem_cons hj]
  induction k generalizing j d' with
  | zero => exact ⟨d', _, hget, h, rfl⟩
  | succ k ih =>
      obtain ⟨e, he, hs⟩ := h.step hlive hget
      have hj' : j + 1 < (swapOps staged b).length := by
        show j + 1 < 5
        omega
      obtain ⟨e', op, hop, hs', hp⟩ := ih hs (by omega) hj' (List.getElem?_eq_getElem hj')
      refine ⟨e', op, ?_, ?_, ?_⟩
      · rw [← hop, Nat.add_right_comm, Nat.add_assoc]
      · rw [Nat.add_right_comm, Nat.add_assoc] at hs'
        exact hs'
      · rw [List.cons_append, perform_cons (by simp) he, List.drop_eq_getElem_cons hj']
        exact hp

/-- The swap of `b` is done before the operation that fails, if any does. -/
theorem Swapping.perform_beyond {j : ℕ} (h : Swapping staged b d d' j) (fault : Option Fault)
    (rest : List FileOp) (hlive : d.data? (.live b) ≠ none) (hj : j ≤ 5)
    (hf : ∀ f ∈ fault, 5 - j ≤ f.1) :
    ∃ e, Swapping staged b d e 5 ∧
      perform fault ((swapOps staged b).drop j ++ rest) d' =
        perform (later (5 - j) fault) rest e := by
  obtain ⟨n, hn⟩ : ∃ n, j + n = 5 := ⟨5 - j, by omega⟩
  induction n generalizing j d' fault with
  | zero =>
      obtain rfl : j = 5 := hn
      refine ⟨d', h, ?_⟩
      have hlater : later (5 - 5) fault = fault := by cases fault <;> rfl
      rw [hlater]
      rfl
  | succ n ih =>
      have hlen : j < (swapOps staged b).length := by
        show j < 5
        omega
      obtain ⟨e, he, hs⟩ := h.step hlive (List.getElem?_eq_getElem hlen)
      have hf' : ∀ f ∈ later 1 fault, 5 - (j + 1) ≤ f.1 := by
        intro f hmem
        obtain ⟨g, hg, rfl⟩ := Option.mem_map.mp hmem
        have := hf g hg
        simp only
        omega
      obtain ⟨e', hs', hp⟩ := ih hs (later 1 fault) (by omega) hf' (by omega)
      refine ⟨e', hs', ?_⟩
      rw [List.drop_eq_getElem_cons hlen, List.cons_append, perform_cons ?_ he, hp, later_later]
      · congr 2
        omega
      · intro f hmem
        have := hf f hmem
        omega

/-! ## The rollback -/

theorem data?_restore (r : BinDir × ℕ) (b : Binary) :
    (restore r b).1.data? (.live b) =
      (r.1.data? (.prev b)).or (r.1.data? (.live b)) := by
  rw [restore]
  cases hp : r.1.has (.prev b) with
  | false => rw [if_neg nofun, (Dir.has_eq_false_iff _).mp hp, Option.none_or]
  | true =>
      have hne := (Dir.has_eq_true_iff _).mp hp
      obtain ⟨e, he⟩ := Dir.exists_rename hne (.live b)
      rw [if_pos rfl, he, Option.getD_some, Dir.data?_rename_target he]
      obtain ⟨x, hx⟩ := Option.ne_none_iff_exists'.mp hne
      rw [hx, Option.some_or]

/-- Restoring one binary leaves the other alone. -/
theorem data?_restore_of_ne (r : BinDir × ℕ) {b : Binary} {q : Path} (hq : q.name ≠ b) :
    (restore r b).1.data? q = r.1.data? q := by
  rw [restore]
  cases hp : r.1.has (.prev b) with
  | false => rw [if_neg nofun]
  | true =>
      obtain ⟨e, he⟩ := Dir.exists_rename ((Dir.has_eq_true_iff _).mp hp) (.live b)
      rw [if_pos rfl, he, Option.getD_some]
      exact Dir.data?_rename_of_ne he (fun h => hq (by rw [h]; rfl))
        (fun h => hq (by rw [h]; rfl))

/-- Restoring keeps nothing new. -/
theorem prev_of_restore {r : BinDir × ℕ} {b c : Binary} {e : Exe}
    (h : (restore r b).1.data? (.prev c) = some e) : r.1.data? (.prev c) = some e := by
  rcases eq_or_ne c b with rfl | hne
  · rw [restore] at h
    cases hp : r.1.has (.prev c) with
    | false =>
        rw [hp, if_neg nofun] at h
        exact h
    | true =>
        obtain ⟨d, hd⟩ := Dir.exists_rename ((Dir.has_eq_true_iff _).mp hp) (.live c)
        rw [hp, if_pos rfl, hd, Option.getD_some] at h
        rcases Dir.data?_rename_source hd with hnone | rfl
        · rw [hnone] at h
          cases h
        · exact h
  · rwa [data?_restore_of_ne r (q := .prev c) hne] at h

/-- A rollback puts back what was kept. -/
theorem data?_rollback (d : BinDir) (b : Binary) :
    (rollback d).1.data? (.live b) = (d.data? (.prev b)).or (d.data? (.live b)) := by
  show (restore (restore (d, 0) .wheeld) .wheel).1.data? (.live b) = _
  cases b with
  | wheeld =>
      rw [data?_restore_of_ne _ (b := .wheel) (q := .live .wheeld) nofun, data?_restore]
  | wheel =>
      rw [data?_restore, data?_restore_of_ne _ (b := .wheeld) (q := .prev .wheel) nofun,
        data?_restore_of_ne _ (b := .wheeld) (q := .live .wheel) nofun]

end Update

end Wheel
