import Wheel.Data.Window
import Wheel.Db.Tables
import Wheel.Text.Like

/-!
# The keys of a table that start with a prefix

`listKeys` asks sqlite for the keys that are like the escaped prefix and a `%`. The escaping
is right, but LIKE ignores the case of ASCII letters, and an offset of 2^63 or more wraps
around to a negative one, which is none. `listedKeys_eq_iff` says for which tables and
arguments the answer is nevertheless the window of the keys that literally start with the
prefix.
-/

namespace Wheel

namespace Tables

open Text Page

def maxRows : ℕ := 10000

/-- A prefix is a literal, not a pattern. -/
def escapeLike (x : List Char) : List Char :=
  replace ['_'] ['\\', '_'] (replace ['%'] ['\\', '%'] (replace ['\\'] ['\\', '\\'] x))

/-- The offset sqlite reads: a negative one is none. -/
def sqlOffset (offset : ℕ) : ℕ := (BitVec.ofNat 64 offset).toInt.toNat

/-- The keys of a table that meet a condition, in order. -/
def keysWhere (t : SqlTable) (p : String → Bool) : List String :=
  ((t.rows.rows.map SqlRow.key).filter p).insertionSort (· ≤ ·)

/-- What the statement selects. -/
def listedKeys (t : SqlTable) (pre : Option String) (limit offset : ℕ) : List String :=
  let pattern := escapeLike (pre.getD "").toList ++ ['%']
  window (sqlOffset offset) (min limit maxRows)
    (keysWhere t fun k => like '\\' pattern k.toList)

variable (lite : Sqlite)

/-- Row keys, optionally by prefix. -/
def listKeys (ts : SqlTables) (name : NodeName) (cfg : TableConfig) (pre : Option String)
    (limit offset : ℕ) : Outcome (List String) :=
  let r := ensure lite ts name cfg
  match r.2, tableName name with
  | .error e, _ => (r.1, .error e)
  | _, .error e => (r.1, .error e)
  | .ok (), .ok table =>
      match r.1 table with
      | none => (r.1, .error ("no such table: " ++ table))
      | some t => (r.1, .ok (listedKeys t pre limit offset))

/-! ## The reference -/

/-- The key starts with the prefix, byte for byte. -/
def startsWith (pre : Option String) (k : String) : Bool :=
  (pre.getD "").toList.isPrefixOf k.toList

/-- The key starts with the prefix when the case of ASCII letters is ignored. -/
def startsFolded (pre : Option String) (k : String) : Bool :=
  startsWithCI (pre.getD "").toList k.toList

def prefixedKeys (t : SqlTable) (pre : Option String) (limit offset : ℕ) : List String :=
  window offset (min limit maxRows) (keysWhere t (startsWith pre))

theorem escapeLike_eq (x : List Char) : escapeLike x = likeEscaped '\\' x := by
  unfold escapeLike
  rw [replace_singleton, replace_singleton, replace_singleton, List.flatMap_assoc,
    List.flatMap_assoc]
  refine congrArg (fun f => x.flatMap f) (funext fun c => ?_)
  by_cases hesc : c = '\\'
  · subst hesc
    rfl
  · by_cases hmany : c = '%'
    · subst hmany
      rfl
    · by_cases hone : c = '_'
      · subst hone
        rfl
      · simp [hesc, hmany, hone]

theorem listedKeys_eq (t : SqlTable) (pre : Option String) (limit offset : ℕ) :
    listedKeys t pre limit offset =
      window (sqlOffset offset) (min limit maxRows) (keysWhere t (startsFolded pre)) := by
  unfold listedKeys startsFolded
  refine congrArg (fun p => window _ _ (keysWhere t p)) (funext fun k => ?_)
  rw [escapeLike_eq, like_escaped (by decide)]

theorem startsFolded_of_startsWith {pre : Option String} {k : String}
    (h : startsWith pre k = true) : startsFolded pre k = true := by
  unfold startsWith at h
  unfold startsFolded startsWithCI
  obtain ⟨x, hx⟩ := List.isPrefixOf_iff_prefix.mp h
  rw [← hx, List.take_left]
  exact beq_self_eq_true _

theorem sqlOffset_le (offset : ℕ) : sqlOffset offset ≤ offset := by
  have hmod : offset % 2 ^ 64 ≤ offset := Nat.mod_le _ _
  unfold sqlOffset BitVec.toInt
  rw [BitVec.toNat_ofNat]
  split <;> omega

theorem keysWhere_eq_filter {p q : String → Bool} (h : ∀ k, q k = true → p k = true)
    (t : SqlTable) : keysWhere t q = (keysWhere t p).filter q := by
  unfold keysWhere
  rw [← insertionSort_filter, List.filter_filter]
  refine congrArg _ (List.filter_congr fun k _ => ?_)
  cases hq : q k with
  | false => rfl
  | true => rw [h k hq, Bool.and_true]

theorem nodup_keysWhere (p : String → Bool) (t : SqlTable) : (keysWhere t p).Nodup :=
  (List.perm_insertionSort _ _).nodup_iff.mpr (t.rows.nodup.filter p)

/-- The answer is the window of the keys that start with the prefix, exactly when nothing is
asked for, or no more keys than the offset start with the prefix when case is ignored, or the
offset fits and all such keys up to the end of the window literally start with it. -/
theorem listedKeys_eq_iff (t : SqlTable) (pre : Option String) (limit offset : ℕ) :
    listedKeys t pre limit offset = prefixedKeys t pre limit offset ↔
      min limit maxRows = 0 ∨ (keysWhere t (startsFolded pre)).length ≤ sqlOffset offset ∨
        (sqlOffset offset = offset ∧
          ∀ k ∈ (keysWhere t (startsFolded pre)).take (offset + min limit maxRows),
            startsWith pre k = true) := by
  rw [listedKeys_eq, prefixedKeys, keysWhere_eq_filter (fun _ => startsFolded_of_startsWith) t]
  exact window_filter_eq_iff (nodup_keysWhere _ t) (sqlOffset_le offset)

theorem listKeys_eq {ts : SqlTables} {name : NodeName} {cfg : TableConfig} {table : String}
    {t : SqlTable} (hname : tableName name = .ok table) (h : (ensure lite ts name cfg).2 = .ok ())
    (ht : (ensure lite ts name cfg).1 table = some t) (pre : Option String) (limit offset : ℕ) :
    (listKeys lite ts name cfg pre limit offset).2 = .ok (listedKeys t pre limit offset) := by
  unfold listKeys
  dsimp only
  rw [h, hname]
  dsimp only
  rw [ht]

/-- A table with one key. -/
def oneKey (key : String) : SqlTable where
  columns := []
  rows := ⟨[⟨key, fun _ => .null⟩], List.nodup_singleton _⟩

/-- The prefix `user` finds the key `USER1`. -/
theorem listedKeys_folds :
    listedKeys (oneKey "USER1") (some "user") 10 0 = ["USER1"] ∧
      prefixedKeys (oneKey "USER1") (some "user") 10 0 = [] := by
  decide +kernel

end Tables

end Wheel
