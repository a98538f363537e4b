import Mathlib
import Wheel.Text.Utf8

/-!
# Escaping a tag

`escape tag x` puts a backslash after every `<` of `x` that starts `<tag` or
`</tag`, ASCII case ignored. What it returns is `Inserted` from `x`, it is
`Clean` for the tag, and escaping a clean text changes nothing. A clean text
starts neither form of the tag, whatever neutral text is written behind it.
-/

namespace Text

/-- A text without one leading slash. -/
def dropSlash : List Char → List Char
  | '/' :: x => x
  | x => x

/-- Escape both forms of a tag. -/
def escape (tag : List Char) : List Char → List Char
  | [] => []
  | c :: x =>
      if c = '<' ∧ startsWithCI tag (dropSlash x) then '<' :: '\\' :: escape tag x
      else c :: escape tag x

/-- `y` is `x` with one backslash inserted after some of its `<` characters. -/
inductive Inserted : List Char → List Char → Prop
  | nil : Inserted [] []
  | keep (c : Char) {x y : List Char} : Inserted x y → Inserted (c :: x) (c :: y)
  | mark {x y : List Char} : Inserted x y → Inserted ('<' :: x) ('<' :: '\\' :: y)

/-- No `<` of the text is followed by the tag, with or without a slash. -/
def Clean (tag : List Char) : List Char → Prop
  | [] => True
  | c :: x => (c = '<' → startsWithCI tag (dropSlash x) = false) ∧ Clean tag x

/-- A tag name: not empty, and made of ASCII letters. -/
def IsTag (tag : List Char) : Prop :=
  tag ≠ [] ∧ ∀ c ∈ tag, c.isAlpha = true

/-- A name that can be escaped: not empty, and without the characters of the escape. -/
structure IsMark (tag : List Char) : Prop where
  nonempty : tag ≠ []
  angle : '<' ∉ tag
  slash : '/' ∉ tag
  backslash : '\\' ∉ tag

theorem isAlpha_iff (c : Char) :
    c.isAlpha = true ↔ (65 ≤ c.toNat ∧ c.toNat ≤ 90) ∨ (97 ≤ c.toNat ∧ c.toNat ≤ 122) := by
  simp only [Char.isAlpha, Char.isUpper, Char.isLower, Bool.or_eq_true, Bool.and_eq_true,
    decide_eq_true_eq, UInt32.le_iff_toNat_le, ge_iff_le]
  exact Iff.rfl

theorem isAscii_of_isAlpha {c : Char} (h : c.isAlpha = true) : IsAscii c := by
  have hc := (isAlpha_iff c).mp h
  unfold IsAscii
  omega

theorem isAlpha_toLower (c : Char) : c.toLower.isAlpha = c.isAlpha := by
  rw [Bool.eq_iff_iff, isAlpha_iff, isAlpha_iff, toNat_toLower]
  split <;> omega

theorem toLower_ne_of_isAlpha {c d : Char} (hc : c.isAlpha = true)
    (hd : d.isAlpha = false) : d.toLower ≠ c.toLower := by
  intro h
  have hcd := isAlpha_toLower d
  rw [h, isAlpha_toLower, hc, hd] at hcd
  cases hcd

/-- Of the characters, only `d` itself folds to a `d` that is no letter. -/
theorem toLower_ne_of_ne {c d : Char} (hd : d.isAlpha = false) (h : c ≠ d) :
    c.toLower ≠ d.toLower := by
  intro hcd
  have hd' : ¬ d.isAlpha = true := by simp [hd]
  rw [isAlpha_iff] at hd'
  have hnat := congrArg Char.toNat hcd
  rw [toNat_toLower, toNat_toLower] at hnat
  apply h
  apply Char.toNat_inj.mp
  split at hnat <;> split at hnat <;> omega

theorem startsWithCI_cons (t c : Char) (tag x : List Char) :
    startsWithCI (t :: tag) (c :: x) = (c.toLower == t.toLower && startsWithCI tag x) := by
  simp only [startsWithCI, List.length_cons, List.take_succ_cons, List.map_cons,
    List.cons_beq_cons]

@[simp] theorem startsWithCI_nil_left (x : List Char) : startsWithCI [] x = true := by
  simp [startsWithCI]

theorem IsTag.isMark {tag : List Char} (h : IsTag tag) : IsMark tag where
  nonempty := h.1
  angle hmem := absurd (h.2 _ hmem) (by decide)
  slash hmem := absurd (h.2 _ hmem) (by decide)
  backslash hmem := absurd (h.2 _ hmem) (by decide)

/-- A character that is no letter is folded to by itself alone. -/
theorem startsWithCI_cons_of_not_mem {t d : Char} {tag : List Char} (hd : d.isAlpha = false)
    (hmem : d ∉ t :: tag) (x : List Char) : startsWithCI (t :: tag) (d :: x) = false := by
  have hne : t ≠ d := fun h => hmem (h ▸ List.mem_cons_self)
  rw [startsWithCI_cons, beq_false_of_ne (toLower_ne_of_ne hd hne).symm]
  rfl

/-- What is written behind a text starts no tag, if its first character is no
letter and not one of the tag. -/
theorem startsWithCI_append_of_not_mem {tag : List Char} {d : Char} (hd : d.isAlpha = false)
    (hmem : d ∉ tag) (x y : List Char) :
    startsWithCI tag (x ++ d :: y) = startsWithCI tag x := by
  induction tag generalizing x with
  | nil => simp
  | cons t tag ih =>
      cases x with
      | nil =>
          rw [List.nil_append, startsWithCI_cons_of_not_mem hd hmem]
          simp [startsWithCI]
      | cons c x =>
          rw [List.cons_append, startsWithCI_cons, startsWithCI_cons,
            ih (fun h => hmem (List.mem_cons_of_mem _ h))]

theorem startsWithCI_escape {tag : List Char} (ht : '<' ∉ tag) (tag' x : List Char) :
    startsWithCI tag (escape tag' x) = startsWithCI tag x := by
  induction tag generalizing x with
  | nil => simp
  | cons t tag ih =>
      cases x with
      | nil => rfl
      | cons c x =>
          by_cases hc : c = '<' ∧ startsWithCI tag' (dropSlash x)
          · rw [escape, if_pos hc, hc.1, startsWithCI_cons_of_not_mem (by decide) ht,
              startsWithCI_cons_of_not_mem (by decide) ht]
          · rw [escape, if_neg hc, startsWithCI_cons, startsWithCI_cons,
              ih (fun h => ht (List.mem_cons_of_mem _ h))]

theorem dropSlash_of_ne {c : Char} (hc : c ≠ '/') (x : List Char) :
    dropSlash (c :: x) = c :: x := by
  unfold dropSlash
  split
  · rename_i h
    exact absurd (List.cons.inj h).1 hc
  · rfl

theorem startsWithCI_dropSlash_escape {tag : List Char} (ht : '<' ∉ tag) (x : List Char) :
    startsWithCI tag (dropSlash (escape tag x)) = startsWithCI tag (dropSlash x) := by
  cases x with
  | nil => rfl
  | cons c x =>
      by_cases hc : c = '/'
      · subst hc
        have hescape : escape tag ('/' :: x) = '/' :: escape tag x := by
          rw [escape, if_neg (by simp)]
        rw [hescape]
        exact startsWithCI_escape ht tag x
      · have hescape : dropSlash (escape tag (c :: x)) = escape tag (c :: x) := by
          rw [escape]
          split
          · exact dropSlash_of_ne (by decide) _
          · exact dropSlash_of_ne hc _
        rw [hescape, dropSlash_of_ne hc, startsWithCI_escape ht]

theorem inserted_escape (tag x : List Char) : Inserted x (escape tag x) := by
  induction x with
  | nil => exact .nil
  | cons c x ih =>
      rw [escape]
      split
      · rename_i hc
        rw [hc.1]
        exact .mark ih
      · exact .keep c ih

theorem clean_escape {tag : List Char} (ht : IsMark tag) (x : List Char) :
    Clean tag (escape tag x) := by
  induction x with
  | nil => trivial
  | cons c x ih =>
      rw [escape]
      split
      · refine ⟨?_, by simp, ih⟩
        intro _
        obtain ⟨t, tag, rfl⟩ := List.exists_cons_of_ne_nil ht.nonempty
        rw [dropSlash_of_ne (by decide), startsWithCI_cons_of_not_mem (by decide) ht.backslash]
      · rename_i hc
        refine ⟨?_, ih⟩
        intro hlt
        rw [startsWithCI_dropSlash_escape ht.angle]
        simpa [hlt] using hc

/-- A clean text has nothing to escape. -/
theorem escape_of_clean {tag x : List Char} (h : Clean tag x) : escape tag x = x := by
  induction x with
  | nil => rfl
  | cons c x ih =>
      have hc : ¬ (c = '<' ∧ startsWithCI tag (dropSlash x) = true) := by
        rintro ⟨hlt, hstart⟩
        rw [h.1 hlt] at hstart
        cases hstart
      rw [escape, if_neg hc, ih h.2]

/-- Escaping is idempotent. -/
theorem escape_escape {tag : List Char} (ht : IsMark tag) (x : List Char) :
    escape tag (escape tag x) = escape tag x :=
  escape_of_clean (clean_escape ht x)

theorem clean_suffix {tag p s : List Char} (h : Clean tag (p ++ s)) : Clean tag s := by
  induction p with
  | nil => exact h
  | cons c p ih => exact ih h.2

/-- A clean text starts no opening tag, whatever follows it. -/
theorem absentBefore_open {tag x : List Char} (ht : IsMark tag) (h : Clean tag x)
    {d : Char} (hd : d.isAlpha = false) (hmem : d ∉ tag) (y : List Char) :
    AbsentBefore ('<' :: tag) x (d :: y) := by
  rintro p (- | ⟨c, s⟩) rfl hs
  · exact absurd rfl hs
  · have hclean := clean_suffix h
    by_cases hc : c = '<'
    · have hstart := hclean.1 hc
      rw [List.cons_append, startsWithCI_cons, startsWithCI_append_of_not_mem hd hmem]
      rw [Bool.and_eq_false_iff]
      right
      cases hs : startsWithCI tag s with
      | false => rfl
      | true =>
          obtain ⟨t, tag, rfl⟩ := List.exists_cons_of_ne_nil ht.nonempty
          cases s with
          | nil => simp [startsWithCI] at hs
          | cons e s =>
              have he : e ≠ '/' := by
                rintro rfl
                rw [startsWithCI_cons_of_not_mem (by decide) ht.slash] at hs
                cases hs
              rw [dropSlash_of_ne he, hs] at hstart
              cases hstart
    · have hlow := toLower_ne_of_ne (show ('<' : Char).isAlpha = false by decide) hc
      rw [List.cons_append, startsWithCI_cons, beq_false_of_ne hlow]
      rfl

/-- A clean text starts no closing tag, whatever follows it. -/
theorem absentBefore_close {tag x : List Char} (h : Clean tag x)
    {d : Char} (hd : d.isAlpha = false) (hmem : d ∉ '/' :: tag) (y : List Char) :
    AbsentBefore ('<' :: '/' :: tag) x (d :: y) := by
  rintro p (- | ⟨c, s⟩) rfl hs
  · exact absurd rfl hs
  · by_cases hc : c = '<'
    · have hstart := (clean_suffix h).1 hc
      rw [List.cons_append, startsWithCI_cons, Bool.and_eq_false_iff]
      right
      cases s with
      | nil =>
          rw [List.nil_append, startsWithCI_cons_of_not_mem hd hmem]
      | cons e s =>
          rw [List.cons_append, startsWithCI_cons,
            startsWithCI_append_of_not_mem hd fun h => hmem (List.mem_cons_of_mem _ h)]
          by_cases he : e = '/'
          · subst he
            change startsWithCI tag s = false at hstart
            simpa using hstart
          · have hlow := toLower_ne_of_ne (show ('/' : Char).isAlpha = false by decide) he
            rw [beq_false_of_ne hlow]
            rfl
    · have hlow := toLower_ne_of_ne (show ('<' : Char).isAlpha = false by decide) hc
      rw [List.cons_append, startsWithCI_cons, beq_false_of_ne hlow]
      rfl

/-! ## Which texts have the same escape -/

/-- A text without the backslashes that stand where the escape puts them. -/
def unescape (tag : List Char) : List Char → List Char
  | [] => []
  | '<' :: '\\' :: x =>
      if startsWithCI tag (dropSlash x) then '<' :: unescape tag x
      else '<' :: unescape tag ('\\' :: x)
  | c :: x => c :: unescape tag x

theorem head?_escape (tag x : List Char) : (escape tag x).head? = x.head? := by
  cases x with
  | nil => rfl
  | cons c x =>
      rw [escape]
      split
      · rename_i h
        rw [h.1]
        rfl
      · rfl

theorem unescape_cons {c : Char} {x : List Char} (h : c = '<' → x.head? ≠ some '\\')
    (tag : List Char) : unescape tag (c :: x) = c :: unescape tag x := by
  rw [unescape]
  rintro y rfl rfl
  exact h rfl rfl

theorem unescape_mark {tag x : List Char} (h : startsWithCI tag (dropSlash x) = true) :
    unescape tag ('<' :: '\\' :: x) = '<' :: unescape tag x := by
  rw [unescape, if_pos h]

theorem unescape_not_mark {tag x : List Char} (h : startsWithCI tag (dropSlash x) = false) :
    unescape tag ('<' :: '\\' :: x) = '<' :: unescape tag ('\\' :: x) := by
  rw [unescape, if_neg (Bool.eq_false_iff.mp h)]

theorem exists_unescape_cons (tag : List Char) (c : Char) (x : List Char) :
    ∃ y, unescape tag (c :: x) = c :: y ∧ (c ≠ '<' → y = unescape tag x) := by
  by_cases hc : c = '<' → x.head? ≠ some '\\'
  · exact ⟨_, unescape_cons hc tag, fun _ => rfl⟩
  · push Not at hc
    obtain ⟨rfl, hx⟩ := hc
    obtain ⟨x, rfl⟩ := List.head?_eq_some_iff.mp hx
    cases h : startsWithCI tag (dropSlash x) with
    | true => exact ⟨_, unescape_mark h, fun hne => absurd rfl hne⟩
    | false => exact ⟨_, unescape_not_mark h, fun hne => absurd rfl hne⟩

theorem startsWithCI_unescape {tag : List Char} (ht : '<' ∉ tag) (tag' x : List Char) :
    startsWithCI tag (unescape tag' x) = startsWithCI tag x := by
  induction tag generalizing x with
  | nil => simp
  | cons t tag ih =>
      cases x with
      | nil => rfl
      | cons c x =>
          obtain ⟨y, hy, hrest⟩ := exists_unescape_cons tag' c x
          rw [hy]
          by_cases hc : c = '<'
          · rw [hc, startsWithCI_cons_of_not_mem (by decide) ht,
              startsWithCI_cons_of_not_mem (by decide) ht]
          · rw [hrest hc, startsWithCI_cons, startsWithCI_cons,
              ih (fun h => ht (List.mem_cons_of_mem _ h))]

theorem startsWithCI_dropSlash_unescape {tag : List Char} (ht : '<' ∉ tag) (x : List Char) :
    startsWithCI tag (dropSlash (unescape tag x)) = startsWithCI tag (dropSlash x) := by
  cases x with
  | nil => rfl
  | cons c x =>
      obtain ⟨y, hy, hrest⟩ := exists_unescape_cons tag c x
      rw [hy]
      by_cases hc : c = '/'
      · subst hc
        rw [hrest (by decide)]
        exact startsWithCI_unescape ht tag x
      · rw [dropSlash_of_ne hc, dropSlash_of_ne hc, ← hy, startsWithCI_unescape ht]

/-- A `<` that a backslash follows is not escaped. -/
theorem escape_backslash {tag : List Char} (ht : IsMark tag) (x : List Char) :
    escape tag ('<' :: '\\' :: x) = '<' :: '\\' :: escape tag x := by
  have hnot : ¬ (('<' : Char) = '<' ∧ startsWithCI tag (dropSlash ('\\' :: x)) = true) := by
    rintro ⟨-, hs⟩
    obtain ⟨t, tag, rfl⟩ := List.exists_cons_of_ne_nil ht.nonempty
    rw [dropSlash_of_ne (by decide), startsWithCI_cons_of_not_mem (by decide) ht.backslash] at hs
    cases hs
  rw [escape, if_neg hnot, escape, if_neg fun h => absurd h.1 (by decide)]

/-- The escape puts the backslashes back. -/
theorem escape_unescape {tag : List Char} (ht : IsMark tag) (x : List Char) :
    escape tag (unescape tag x) = escape tag x := by
  fun_induction unescape tag x with
  | case1 => rfl
  | case2 x h ih =>
      rw [escape_backslash ht, escape,
        if_pos ⟨rfl, (startsWithCI_dropSlash_unescape ht.angle x).trans h⟩, ih]
  | case3 x h ih =>
      rw [escape, startsWithCI_dropSlash_unescape ht.angle, ih]
      conv_rhs => rw [escape]
  | case4 c x hpattern ih =>
      rw [escape, startsWithCI_dropSlash_unescape ht.angle, ih]
      conv_rhs => rw [escape]

/-- The backslashes the escape puts are the ones that are left out again. -/
theorem unescape_escape {tag : List Char} (ht : IsMark tag) (x : List Char) :
    unescape tag (escape tag x) = unescape tag x := by
  fun_induction unescape tag x with
  | case1 => rfl
  | case2 x h ih =>
      rw [escape_backslash ht, unescape_mark ((startsWithCI_dropSlash_escape ht.angle x).trans h),
        ih]
  | case3 x h ih =>
      have hnot : startsWithCI tag (dropSlash x) = false := Bool.eq_false_iff.mpr h
      rw [escape, if_neg fun h => absurd h.1 (by decide)] at ih
      rw [escape_backslash ht,
        unescape_not_mark ((startsWithCI_dropSlash_escape ht.angle x).trans hnot), ih]
  | case4 c x hpattern ih =>
      rw [escape]
      split
      · rename_i h
        rw [h.1, unescape_mark ((startsWithCI_dropSlash_escape ht.angle x).trans h.2), ih]
      · rw [unescape_cons, ih]
        rintro rfl hx
        rw [head?_escape] at hx
        obtain ⟨y, rfl⟩ := List.head?_eq_some_iff.mp hx
        exact hpattern y rfl rfl

/-- Two texts have the same escape when they differ in such backslashes only. -/
theorem escape_eq_iff {tag : List Char} (ht : IsMark tag) {x y : List Char} :
    escape tag x = escape tag y ↔ unescape tag x = unescape tag y := by
  constructor
  · intro h
    rw [← unescape_escape ht x, h, unescape_escape ht]
  · intro h
    rw [← escape_unescape ht x, h, escape_unescape ht]

end Text
