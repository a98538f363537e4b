import Mathlib

/-!
# The segments of a URL path

How a parser of the URL standard reads what follows the authority of a `http` address: what
is at the end and not shown is trimmed, tabs and line breaks are skipped, the path ends where
a query or a fragment starts, and slashes of both kinds end a segment. A dot of a dot segment
may be percent-encoded. `readSegments_eq` reads the segments one by one.
-/

namespace Text

def isSlash (c : Char) : Bool := c = '/' || c = '\\'

def startsQuery (c : Char) : Bool := c = '?' || c = '#'

/-- The control characters and the blank, which are trimmed at the end. -/
def isTrimmed (c : Char) : Bool := c.toNat ≤ 32

def isSkipped (c : Char) : Bool := c = '\t' || c = '\n' || c = '\r'

/-- The segments of a text that follows the authority. -/
def readSegments (x : List Char) : List (List Char) :=
  (((x.rdropWhile isTrimmed).filter fun c => !isSkipped c).takeWhile
    fun c => !startsQuery c).splitOnP isSlash

/-- The spellings of a dot. -/
def dotSpellings : List (List Char) := [['.'], ['%', '2', 'e'], ['%', '2', 'E']]

/-- The spellings of two dots. -/
def twoDotSpellings : List (List Char) :=
  dotSpellings.flatMap fun x => dotSpellings.map fun y => x ++ y

/-- A dot segment, in any spelling. -/
def isDots (s : List Char) : Bool := dotSpellings.contains s || twoDotSpellings.contains s

/-! ## Cutting a text -/

/-- A text has no character of a kind, or there is a first one. -/
theorem forall_or_exists_first (p : Char → Bool) (x : List Char) :
    (∀ c ∈ x, p c = false) ∨
      ∃ a d b, x = a ++ d :: b ∧ (∀ c ∈ a, p c = false) ∧ p d = true := by
  induction x with
  | nil => exact .inl fun _ h => (List.not_mem_nil h).elim
  | cons c x ih =>
      cases hc : p c with
      | true => exact .inr ⟨[], c, x, rfl, fun _ h => (List.not_mem_nil h).elim, hc⟩
      | false =>
          rcases ih with h | ⟨a, d, b, rfl, ha, hd⟩
          · exact .inl (List.forall_mem_cons.mpr ⟨hc, h⟩)
          · exact .inr ⟨c :: a, d, b, rfl, List.forall_mem_cons.mpr ⟨hc, ha⟩, hd⟩

/-- What holds of texts without a character of a kind, and holds of a text when it holds of
what follows the first one, holds of every text. -/
theorem cut_induction (p : Char → Bool) {motive : List Char → Prop}
    (none : ∀ x, (∀ c ∈ x, p c = false) → motive x)
    (first : ∀ a d b, (∀ c ∈ a, p c = false) → p d = true → motive b → motive (a ++ d :: b))
    (x : List Char) : motive x := by
  induction hn : x.length using Nat.strong_induction_on generalizing x with
  | _ n ih =>
      rcases forall_or_exists_first p x with h | ⟨a, d, b, rfl, ha, hd⟩
      · exact none x h
      · refine first a d b ha hd (ih b.length ?_ b rfl)
        rw [← hn, List.length_append, List.length_cons]
        omega

theorem rdropWhile_append_cons {p : Char → Bool} {d : Char} (hd : p d = false)
    (a b : List Char) : (a ++ d :: b).rdropWhile p = a ++ d :: b.rdropWhile p := by
  induction b using List.reverseRecOn with
  | nil =>
      rw [List.rdropWhile_concat_neg _ _ _ (Bool.eq_false_iff.mp hd), List.rdropWhile_nil]
  | append_singleton b c ih =>
      rw [← List.cons_append, ← List.append_assoc, List.rdropWhile_concat, List.rdropWhile_concat,
        ih]
      split
      · rfl
      · rw [List.append_assoc, List.cons_append]

theorem takeWhile_append_cons {p : Char → Bool} {a : List Char} (ha : ∀ c ∈ a, p c = true)
    {d : Char} (hd : p d = false) (b : List Char) : (a ++ d :: b).takeWhile p = a := by
  rw [List.takeWhile_append_of_pos ha, List.takeWhile_cons, hd]
  exact List.append_nil a

/-! ## Reading segment by segment -/

/-- A segment as it is read; what stands at the end of the text is trimmed. -/
def readPart (last : Bool) (s : List Char) : List Char :=
  (if last then s.rdropWhile isTrimmed else s).filter fun c => !isSkipped c

def readParts (last : Bool) : List (List Char) → List (List Char)
  | [] => []
  | [s] => [readPart last s]
  | s :: t :: ss => readPart false s :: readParts last (t :: ss)

/-- The segments as they stand in the text. -/
def rawSegments (x : List Char) : List (List Char) :=
  (x.takeWhile fun c => !startsQuery c).splitOnP isSlash

/-- The text is a path to its end. -/
def isPath (x : List Char) : Bool := x.all fun c => !startsQuery c

theorem readParts_cons (last : Bool) (s : List Char) {ss : List (List Char)} (h : ss ≠ []) :
    readParts last (s :: ss) = readPart false s :: readParts last ss := by
  cases ss with
  | nil => exact absurd rfl h
  | cons t ss => rfl

theorem getElem?_readParts (last : Bool) (ss : List (List Char)) (i : ℕ) :
    (readParts last ss)[i]? =
      ss[i]?.map (readPart (last && decide (i + 1 = ss.length))) := by
  induction ss generalizing i with
  | nil => simp [readParts]
  | cons s ss ih =>
      cases ss with
      | nil => cases i <;> simp [readParts]
      | cons t ss =>
          rw [readParts_cons last s (List.cons_ne_nil t ss)]
          cases i with
          | zero => simp
          | succ i => simpa using ih i

theorem length_readParts (last : Bool) (ss : List (List Char)) :
    (readParts last ss).length = ss.length := by
  induction ss with
  | nil => rfl
  | cons s ss ih =>
      cases ss with
      | nil => rfl
      | cons t ss => rw [readParts_cons last s (List.cons_ne_nil t ss), List.length_cons, ih]; rfl

theorem isSkipped_of_isSlash {d : Char} (h : isSlash d = true) : isSkipped d = false := by
  simp only [isSlash, Bool.or_eq_true, decide_eq_true_eq] at h
  rcases h with rfl | rfl <;> decide

theorem isTrimmed_of_isSlash {d : Char} (h : isSlash d = true) : isTrimmed d = false := by
  simp only [isSlash, Bool.or_eq_true, decide_eq_true_eq] at h
  rcases h with rfl | rfl <;> decide

theorem isSkipped_of_startsQuery {d : Char} (h : startsQuery d = true) : isSkipped d = false := by
  simp only [startsQuery, Bool.or_eq_true, decide_eq_true_eq] at h
  rcases h with rfl | rfl <;> decide

theorem isTrimmed_of_startsQuery {d : Char} (h : startsQuery d = true) : isTrimmed d = false := by
  simp only [startsQuery, Bool.or_eq_true, decide_eq_true_eq] at h
  rcases h with rfl | rfl <;> decide

theorem filter_append_cons {d : Char} (hd : isSkipped d = false) (a b : List Char) :
    ((a ++ d :: b).filter fun c => !isSkipped c) =
      (a.filter fun c => !isSkipped c) ++ d :: b.filter fun c => !isSkipped c := by
  rw [List.filter_append, List.filter_cons, hd]
  rfl

/-- What is trimmed and skipped leaves the slashes where they are. -/
theorem splitOnP_readPart (last : Bool) (x : List Char) :
    (readPart last x).splitOnP isSlash = readParts last (x.splitOnP isSlash) := by
  induction x using cut_induction isSlash with
  | none x h =>
      rw [List.splitOnP_eq_singleton h, readParts]
      refine List.splitOnP_eq_singleton fun c hc => h c ?_
      have hmem := List.mem_of_mem_filter hc
      split at hmem
      · exact (List.rdropWhile_prefix _ _).subset hmem
      · exact hmem
  | first a d b ha hd ih =>
      have hcut : readPart last (a ++ d :: b) = readPart false a ++ d :: readPart last b := by
        unfold readPart
        cases last with
        | true =>
            rw [if_pos rfl, if_pos rfl, rdropWhile_append_cons (isTrimmed_of_isSlash hd),
              filter_append_cons (isSkipped_of_isSlash hd)]
            rfl
        | false => exact filter_append_cons (isSkipped_of_isSlash hd) a b
      have hread : ∀ c ∈ readPart false a, isSlash c = false :=
        fun c hc => ha c (List.mem_of_mem_filter hc)
      rw [hcut, List.splitOnP_append_cons_of_forall_mem hread d hd, ih,
        List.splitOnP_append_cons_of_forall_mem ha d hd,
        readParts_cons last a (List.splitOnP_ne_nil _ b)]

theorem readSegments_eq (x : List Char) :
    readSegments x = readParts (isPath x) (rawSegments x) := by
  rcases forall_or_exists_first startsQuery x with h | ⟨a, d, b, rfl, ha, hd⟩
  · have hpath : isPath x = true := by
      unfold isPath
      rw [List.all_eq_true]
      exact fun c hc => by rw [h c hc]; rfl
    have hread : ∀ c ∈ readPart true x, (!startsQuery c) = true := by
      intro c hc
      rw [h c ((List.rdropWhile_prefix _ _).subset (List.mem_of_mem_filter hc))]
      rfl
    have hraw : (x.takeWhile fun c => !startsQuery c) = x := by
      rw [List.takeWhile_eq_self_iff]
      exact fun c hc => by rw [h c hc]; rfl
    rw [hpath, rawSegments, hraw, ← splitOnP_readPart]
    exact congrArg _ (List.takeWhile_eq_self_iff.mpr hread)
  · have hpath : isPath (a ++ d :: b) = false := by
      unfold isPath
      rw [List.all_append, List.all_cons, hd]
      simp
    have hraw : ((a ++ d :: b).takeWhile fun c => !startsQuery c) = a :=
      takeWhile_append_cons (fun c hc => by rw [ha c hc]; rfl) (by rw [hd]; rfl) b
    rw [hpath, rawSegments, hraw, ← splitOnP_readPart, readSegments,
      rdropWhile_append_cons (isTrimmed_of_startsQuery hd),
      filter_append_cons (isSkipped_of_startsQuery hd), takeWhile_append_cons]
    · rfl
    · intro c hc
      rw [ha c (List.mem_of_mem_filter hc)]
      rfl
    · rw [hd]
      rfl

end Text
