import Wheel.Text.UrlPath
import Wheel.Tools.Execute

/-!
# Path parameters and segments

A value is percent-encoded before it is put into the path, and one that is a dot segment is
refused, so that a value alone neither ends a segment nor starts a query, and does not climb.
A segment may be assembled from several placeholders and literal text, and then the parts may
spell a dot segment together: `path_kept_iff` says that this is the only way for the values
to change the segments of the template.
-/

namespace Wheel

namespace Tools

open Text

/-! ## The values of the path -/

variable (floatText : ℚ → String)

/-- The values of the parameters in the path, in the order they are put in. -/
def pathValues (supplied : Json.Members) (vaultValues : String → Option String)
    (ps : List ToolParam) : List (String × String) :=
  ps.filterMap fun p =>
    if p.location = .path then
      match fillValue floatText supplied vaultValues p with
      | .ok (some value) => some (p.name, value)
      | _ => none
    else none

/-- Put the values into a text, one after the other. -/
def assemble (values : List (String × String)) (x : List Char) : List Char :=
  values.foldl (fun x v => replace (placeholder v.1) (encode v.2.toList) x) x

variable {floatText} {supplied : Json.Members} {vaultValues : String → Option String}

theorem path_place {d d' : Draft} {p : ToolParam} {value : String}
    (h : place supplied d p value = .ok d') :
    p.location = .path ∧ isDotSegment value = false ∧
        d'.path = replace (placeholder p.name) (encode value.toList) d.path ∨
      p.location ≠ .path ∧ d'.path = d.path := by
  unfold place at h
  cases hl : p.location with
  | path =>
      rw [hl] at h
      dsimp only at h
      split at h
      · cases h
      · rename_i hdot
        cases h
        exact .inl ⟨rfl, Bool.eq_false_iff.mpr hdot, rfl⟩
  | _ =>
      rw [hl] at h
      cases h
      exact .inr ⟨nofun, rfl⟩

/-- The path of a finished draft is the template with the values put in, and none of them is a
dot segment. -/
theorem path_fillParams {ps : List ToolParam} {d d' : Draft}
    (h : fillParams floatText supplied vaultValues d ps = .ok d') :
    d'.path = assemble (pathValues floatText supplied vaultValues ps) d.path ∧
      ∀ v ∈ pathValues floatText supplied vaultValues ps, isDotSegment v.2 = false := by
  induction ps generalizing d with
  | nil =>
      cases h
      exact ⟨rfl, fun v hv => (List.not_mem_nil hv).elim⟩
  | cons p ps ih =>
      unfold fillParams at h
      split at h
      · cases h
      · rename_i d₁ hd₁
        obtain ⟨hpath, hdots⟩ := ih h
        unfold fillParam at hd₁
        unfold pathValues at hpath hdots ⊢
        rw [List.filterMap_cons]
        split at hd₁
        · cases hd₁
        · rename_i hvalue
          cases hd₁
          rw [hvalue, ite_self]
          exact ⟨hpath, hdots⟩
        · rename_i value hvalue
          rw [hvalue]
          rcases path_place hd₁ with ⟨hl, hdot, hp⟩ | ⟨hl, hp⟩
          · rw [if_pos hl]
            refine ⟨?_, List.forall_mem_cons.mpr ⟨hdot, hdots⟩⟩
            rw [hpath, hp]
            rfl
          · rw [if_neg hl]
            refine ⟨?_, hdots⟩
            rw [hpath, hp]

theorem buildDraft_eq_ok {op : ToolOperation} {args : Json} {d : Draft}
    (h : buildDraft floatText op args vaultValues = .ok d) :
    ∃ supplied, suppliedOf args = .ok supplied ∧ checkSupplied op supplied = .ok () ∧
      fillParams floatText supplied vaultValues { path := op.path.toList } op.params = .ok d ∧
      firstPlaceholder d.path = none := by
  unfold buildDraft at h
  split at h
  · cases h
  · split at h
    · cases h
    · rename_i supplied hs
      split at h
      · cases h
      · rename_i hc
        split at h
        · cases h
        · rename_i d' hd
          split at h
          · cases h
          · rename_i hp
            cases h
            exact ⟨supplied, hs, hc, hd, hp⟩

/-! ## Delimiters -/

/-- A character that ends a segment or the path. -/
def isDelimiter (c : Char) : Bool := isSlash c || startsQuery c

theorem not_isDelimiter_of_isUrlChar {c : Char} (h : isUrlChar c = true) :
    isDelimiter c = false := by
  rw [Bool.eq_false_iff]
  intro hd
  simp only [isDelimiter, isSlash, startsQuery, Bool.or_eq_true, decide_eq_true_eq] at hd
  rcases hd with (rfl | rfl) | (rfl | rfl) <;> revert h <;> decide

/-- No name has a delimiter. -/
def PlainNames (values : List (String × String)) : Prop :=
  ∀ v ∈ values, ∀ c ∈ v.1.toList, isDelimiter c = false

theorem not_isDelimiter_placeholder {name : String}
    (h : ∀ c ∈ name.toList, isDelimiter c = false) : ∀ c ∈ placeholder name, isDelimiter c = false := by
  intro c hc
  rcases List.mem_cons.mp hc with rfl | hc
  · decide
  · rcases List.mem_append.mp hc with hc | hc
    · exact h c hc
    · rw [List.mem_singleton.mp hc]
      decide

theorem placeholder_ne_nil (name : String) : placeholder name ≠ [] := List.cons_ne_nil _ _

variable {values : List (String × String)}

/-- Values are put in on each side of a delimiter by itself. -/
theorem assemble_append_cons (h : PlainNames values) {d : Char} (hd : isDelimiter d = true)
    (a b : List Char) :
    assemble values (a ++ d :: b) = assemble values a ++ d :: assemble values b := by
  induction values generalizing a b with
  | nil => rfl
  | cons v values ih =>
      have hnot : d ∉ placeholder v.1 := by
        intro hmem
        rw [not_isDelimiter_placeholder (h v List.mem_cons_self) d hmem] at hd
        cases hd
      have hrest : PlainNames values := fun w hw => h w (List.mem_cons_of_mem _ hw)
      unfold assemble at ih ⊢
      rw [List.foldl_cons, List.foldl_cons, List.foldl_cons, ← ih hrest,
        replace_append_cons (placeholder_ne_nil _) hnot]

/-- Values add no delimiter. -/
theorem not_mem_assemble {p : Char → Bool} (hp : ∀ c, p c = true → isDelimiter c = true)
    {x : List Char} (h : ∀ c ∈ x, p c = false) : ∀ c ∈ assemble values x, p c = false := by
  induction values generalizing x with
  | nil => exact h
  | cons v values ih =>
      refine ih fun c hc => ?_
      rcases mem_of_mem_replaceBy (placeholder_ne_nil _) hc with hc | hc
      · exact h c hc
      · rw [Bool.eq_false_iff]
        intro hpc
        have hd := hp c hpc
        rw [not_isDelimiter_of_isUrlChar (isUrlChar_of_mem_encode hc)] at hd
        cases hd

theorem isDelimiter_of_isSlash (c : Char) (h : isSlash c = true) : isDelimiter c = true := by
  unfold isDelimiter
  rw [h]
  rfl

theorem isDelimiter_of_startsQuery (c : Char) (h : startsQuery c = true) :
    isDelimiter c = true := by
  unfold isDelimiter
  rw [h, Bool.or_true]

/-- The slashes of the template stand between the same parts. -/
theorem splitOnP_assemble (h : PlainNames values) (x : List Char) :
    (assemble values x).splitOnP isSlash = (x.splitOnP isSlash).map (assemble values) := by
  induction x using cut_induction isSlash with
  | none x hx =>
      rw [List.splitOnP_eq_singleton hx,
        List.splitOnP_eq_singleton (not_mem_assemble isDelimiter_of_isSlash hx)]
      rfl
  | first a d b ha hd ih =>
      rw [assemble_append_cons h (isDelimiter_of_isSlash d hd),
        List.splitOnP_append_cons_of_forall_mem (not_mem_assemble isDelimiter_of_isSlash ha) d hd,
        ih, List.splitOnP_append_cons_of_forall_mem ha d hd, List.map_cons]

theorem filter_startsQuery_eq_nil {x : List Char} (hx : ∀ c ∈ x, startsQuery c = false) :
    x.filter startsQuery = [] :=
  List.filter_eq_nil_iff.mpr fun c hc => Bool.eq_false_iff.mp (hx c hc)

/-- What starts a query or a fragment in the template does so in the path, and nothing else. -/
theorem filter_assemble (h : PlainNames values) (x : List Char) :
    (assemble values x).filter startsQuery = x.filter startsQuery := by
  induction x using cut_induction startsQuery with
  | none x hx =>
      rw [filter_startsQuery_eq_nil hx, filter_startsQuery_eq_nil (not_mem_assemble isDelimiter_of_startsQuery hx)]
  | first a d b ha hd ih =>
      rw [assemble_append_cons h (isDelimiter_of_startsQuery d hd), List.filter_append,
        List.filter_append, List.filter_cons_of_pos hd, List.filter_cons_of_pos hd, ih]
      rw [filter_startsQuery_eq_nil ha, filter_startsQuery_eq_nil (not_mem_assemble isDelimiter_of_startsQuery ha)]

/-! ## One placeholder -/

/-- The segment is one placeholder, of a parameter with a value. -/
def Lone (values : List (String × String)) (s : List Char) : Prop :=
  ∃ v ∈ values, '\x7b' ∉ v.1.toList ∧ '\x7d' ∉ v.1.toList ∧ s = placeholder v.1

theorem assemble_of_not_mem {x : List Char} (h : '\x7b' ∉ x) : assemble values x = x := by
  induction values with
  | nil => rfl
  | cons v values ih =>
      unfold assemble at ih ⊢
      rw [List.foldl_cons, placeholder, replace_of_not_mem h, ih]

theorem not_mem_encode {d : Char} (hd : isUrlChar d = false) (x : List Char) : d ∉ encode x :=
  fun h => ne_of_mem_encode h hd rfl

theorem replace_placeholder_self (name : String) (new : List Char) :
    replace (placeholder name) new (placeholder name) = new := by
  have h := replace_self_append (placeholder_ne_nil name) new []
  rwa [List.append_nil, replace_nil, List.append_nil] at h

theorem replace_placeholder_of_ne {name m : String} (hopen : '\x7b' ∉ name.toList)
    (hclose : '\x7d' ∉ name.toList) (hne : m ≠ name) (new : List Char) :
    replace (placeholder m) new (placeholder name) = placeholder name := by
  have hnot : ¬ placeholder m <+: placeholder name := by
    unfold placeholder
    rw [List.cons_prefix_cons]
    rintro ⟨-, t, ht⟩
    rw [List.append_assoc, List.singleton_append] at ht
    have hinj := (List.append_cons_inj_of_notMem hclose List.not_mem_nil).mp ht.symm
    exact hne (String.toList_inj.mp hinj.1.symm)
  have hrest : '\x7b' ∉ name.toList ++ ['\x7d'] := by
    rw [List.mem_append, List.mem_singleton]
    rintro (h | h)
    · exact hopen h
    · exact absurd h (by decide)
  unfold placeholder at hnot ⊢
  rw [replace_cons_of_not_start hnot, replace_of_not_mem hrest]

/-- A segment that is one placeholder becomes a value. -/
theorem exists_assemble_of_lone {s : List Char} (h : Lone values s) :
    ∃ v ∈ values, assemble values s = encode v.2.toList := by
  obtain ⟨v, hv, hopen, hclose, rfl⟩ := h
  induction values with
  | nil => cases hv
  | cons w values ih =>
      unfold assemble at ih ⊢
      rw [List.foldl_cons]
      by_cases hw : w.1 = v.1
      · refine ⟨w, List.mem_cons_self, ?_⟩
        rw [hw, replace_placeholder_self]
        exact assemble_of_not_mem (not_mem_encode (by decide) _)
      · have hmem : v ∈ values := by
          rcases List.mem_cons.mp hv with rfl | hmem
          · exact absurd rfl hw
          · exact hmem
        obtain ⟨u, hu, hassemble⟩ := ih hmem
        exact ⟨u, List.mem_cons_of_mem _ hu,
          by rw [replace_placeholder_of_ne hopen hclose hw, hassemble]⟩

theorem isUrlChar_of_isTrimmed {c : Char} (h : isTrimmed c = true) : isUrlChar c = false := by
  have hall : ∀ n : Fin 33, isUrlChar (Char.ofNat n) = false := by decide
  have hc := hall ⟨c.toNat, Nat.lt_succ_of_le (of_decide_eq_true h)⟩
  rwa [Char.ofNat_toNat] at hc

theorem readPart_encode (last : Bool) (x : List Char) : readPart last (encode x) = encode x := by
  have hskip : ∀ c ∈ encode x, (!isSkipped c) = true := by
    intro c hc
    have hurl := isUrlChar_of_mem_encode hc
    rw [Bool.not_eq_true', Bool.eq_false_iff]
    intro hs
    simp only [isSkipped, Bool.or_eq_true, decide_eq_true_eq] at hs
    rcases hs with (rfl | rfl) | rfl <;> revert hurl <;> decide
  unfold readPart
  split
  · have htrim : (encode x).rdropWhile isTrimmed = encode x := by
      rw [List.rdropWhile_eq_self_iff]
      intro hne htrimmed
      have hurl := isUrlChar_of_mem_encode (List.getLast_mem hne)
      rw [isUrlChar_of_isTrimmed htrimmed] at hurl
      cases hurl
    rw [htrim, List.filter_eq_self.mpr hskip]
  · exact List.filter_eq_self.mpr hskip

theorem percentDecode_encode (x : List Char) :
    percentDecode ((encode x).map asciiByte) = Text.encode x := by
  have hbytes : (encode x).map asciiByte = percentEncode isUnreserved (Text.encode x) := by
    have hbyte : ∀ b : UInt8, asciiByte (Char.ofNat b.toNat) = b := by
      intro b
      have hvalid : (Char.ofNat b.toNat).toNat = b.toNat :=
        (Char.toNat_ofNat _).trans (if_pos (.inl (b.toNat_lt.trans (by decide))))
      rw [asciiByte, hvalid, UInt8.ofNat_toNat]
    unfold encode
    rw [List.map_map]
    exact (List.map_congr_left fun b _ => hbyte b).trans (List.map_id _)
  rw [hbytes, percentDecode_percentEncode (by decide)]

/-- A text is known from what its encoding stands for. -/
theorem eq_of_percentDecode {x y z : List Char} (hx : encode x = y)
    (hy : percentDecode (y.map asciiByte) = Text.encode z) : x = z := by
  rw [← hx, percentDecode_encode] at hy
  have h := congrArg decodeUtf8? hy
  rw [decodeUtf8?_encode, decodeUtf8?_encode] at h
  exact Option.some.inj h

/-- Only the dot segments themselves are encoded as dot segments. -/
theorem isDotSegment_of_isDots_encode {v : String} (h : isDots (encode v.toList) = true) :
    isDotSegment v = true := by
  have hone : ∀ y ∈ dotSpellings, percentDecode (y.map asciiByte) = Text.encode ".".toList := by
    decide
  have htwo : ∀ y ∈ twoDotSpellings,
      percentDecode (y.map asciiByte) = Text.encode "..".toList := by
    decide
  apply decide_eq_true
  rw [isDots, Bool.or_eq_true, List.contains_iff_mem, List.contains_iff_mem] at h
  rcases h with h | h
  · exact .inl (String.toList_inj.mp (eq_of_percentDecode rfl (hone _ h)))
  · exact .inr (String.toList_inj.mp (eq_of_percentDecode rfl (htwo _ h)))

/-! ## The segments of the request -/

/-- The path, read behind the authority and in front of the query, has the segments of the
template: as many, no dot segment that is not one in the template, and what ends the path is
the template's. -/
structure PathKept (template path query : List Char) : Prop where
  length : (readSegments (path ++ query)).length = (readSegments (template ++ query)).length
  dots : ∀ (i : ℕ) (s : List Char), (readSegments (path ++ query))[i]? = some s →
    isDots s = true →
    ∃ s', (readSegments (template ++ query))[i]? = some s' ∧ isDots s' = true
  delimiters : path.filter startsQuery = template.filter startsQuery

/-- A segment of the template is read at the end of the text. -/
def isLast (template query : List Char) (i : ℕ) : Bool :=
  isPath (template ++ query) && decide (i + 1 = (rawSegments template).length)

/-- No segment in which a placeholder stands beside literal text or another placeholder is
assembled to a dot segment that it is not by itself. -/
def MixedSafe (values : List (String × String)) (template query : List Char) : Prop :=
  ∀ (i : ℕ) (s : List Char), (rawSegments template)[i]? = some s → ¬ Lone values s →
    isDots (readPart (isLast template query i) (assemble values s)) = true →
      isDots (readPart (isLast template query i) s) = true

/-- What follows the path starts a query, if there is anything. -/
def IsQuery (query : List Char) : Prop := ∀ c ∈ query.head?, startsQuery c = true

theorem isQuery_queryText (query : List (String × String)) : IsQuery (queryText query) := by
  unfold queryText
  split
  · exact fun c hc => (Option.not_mem_none c hc).elim
  · intro c hc
    rw [← Option.some.inj hc]
    decide

theorem takeWhile_of_forall {x : List Char} (h : ∀ c ∈ x, startsQuery c = false) :
    (x.takeWhile fun c => !startsQuery c) = x := by
  rw [List.takeWhile_eq_self_iff]
  exact fun c hc => by rw [h c hc]; rfl

theorem takeWhile_of_first {a : List Char} (ha : ∀ c ∈ a, startsQuery c = false) {d : Char}
    (hd : startsQuery d = true) (b : List Char) :
    ((a ++ d :: b).takeWhile fun c => !startsQuery c) = a :=
  takeWhile_append_cons (fun c hc => by rw [ha c hc]; rfl) (by rw [hd]; rfl) b

theorem rawSegments_append {query : List Char} (hq : IsQuery query) (x : List Char) :
    rawSegments (x ++ query) = rawSegments x := by
  unfold rawSegments
  congr 1
  rcases forall_or_exists_first startsQuery x with hx | ⟨a, d, b, rfl, ha, hd⟩
  · rw [takeWhile_of_forall hx]
    cases query with
    | nil => rw [List.append_nil, takeWhile_of_forall hx]
    | cons d query => exact takeWhile_of_first hx (hq d rfl) query
  · rw [takeWhile_of_first ha hd, List.append_assoc, List.cons_append, takeWhile_of_first ha hd]

theorem rawSegments_assemble (h : PlainNames values) (x : List Char) :
    rawSegments (assemble values x) = (rawSegments x).map (assemble values) := by
  unfold rawSegments
  rw [← splitOnP_assemble h]
  congr 1
  rcases forall_or_exists_first startsQuery x with hx | ⟨a, d, b, rfl, ha, hd⟩
  · rw [takeWhile_of_forall hx,
      takeWhile_of_forall (not_mem_assemble isDelimiter_of_startsQuery hx)]
  · rw [assemble_append_cons h (isDelimiter_of_startsQuery d hd), takeWhile_of_first ha hd,
      takeWhile_of_first (not_mem_assemble isDelimiter_of_startsQuery ha) hd]

theorem isPath_eq (x : List Char) : isPath x = (x.filter startsQuery).isEmpty := by
  unfold isPath
  induction x with
  | nil => rfl
  | cons c x ih =>
      rw [List.all_cons, List.filter_cons, ih]
      cases startsQuery c <;> simp

theorem isPath_assemble (h : PlainNames values) (x query : List Char) :
    isPath (assemble values x ++ query) = isPath (x ++ query) := by
  rw [isPath_eq, isPath_eq, List.filter_append, List.filter_append, filter_assemble h]

theorem readSegments_template {query : List Char} (hq : IsQuery query) (x : List Char) (i : ℕ) :
    (readSegments (x ++ query))[i]? =
      (rawSegments x)[i]?.map (readPart (isLast x query i)) := by
  rw [readSegments_eq, getElem?_readParts, rawSegments_append hq]
  rfl

theorem readSegments_assemble (h : PlainNames values) {query : List Char} (hq : IsQuery query)
    (x : List Char) (i : ℕ) :
    (readSegments (assemble values x ++ query))[i]? =
      (rawSegments x)[i]?.map fun s => readPart (isLast x query i) (assemble values s) := by
  rw [readSegments_eq, getElem?_readParts, rawSegments_append hq, rawSegments_assemble h,
    isPath_assemble h, List.length_map, List.getElem?_map, Option.map_map]
  rfl

/-- A template with values that are no dot segments keeps its segments exactly when the mixed
ones do. -/
theorem pathKept_assemble_iff (h : PlainNames values)
    (hdots : ∀ v ∈ values, isDotSegment v.2 = false) {query : List Char} (hq : IsQuery query)
    (template : List Char) :
    PathKept template (assemble values template) query ↔ MixedSafe values template query := by
  constructor
  · intro hkept i s hs _ hd
    have hread := readSegments_assemble h hq template i
    rw [hs] at hread
    obtain ⟨s', hs', hd'⟩ := hkept.dots i _ hread hd
    rw [readSegments_template hq, hs] at hs'
    rw [Option.some.inj hs']
    exact hd'
  · intro hsafe
    refine ⟨?_, fun i s hs hd => ?_, filter_assemble h template⟩
    · rw [readSegments_eq, readSegments_eq, length_readParts, length_readParts,
        rawSegments_append hq, rawSegments_append hq, rawSegments_assemble h, List.length_map]
    · rw [readSegments_assemble h hq] at hs
      rw [readSegments_template hq]
      obtain ⟨s', hs', rfl⟩ := Option.map_eq_some_iff.mp hs
      rw [hs']
      refine ⟨_, rfl, hsafe i s' hs' (fun hlone => ?_) hd⟩
      obtain ⟨v, hv, hassemble⟩ := exists_assemble_of_lone hlone
      rw [hassemble, readPart_encode] at hd
      have hno := hdots v hv
      rw [isDotSegment_of_isDots_encode hd] at hno
      cases hno

/-- An operation with one optional parameter in the path. -/
def pathOperation (path : String) : ToolOperation where
  id := "get"
  method := .get
  path := path
  summary := none
  enabled := true
  params := [⟨"x", .path, false, none, none, {}⟩]

/-- A tool with no other operation. -/
def pathTool : ToolConfig where
  kind := .http
  source := ⟨.manual, "", 0⟩
  baseUrl := "https://api.example.com"
  operations := []

end Tools

end Wheel
