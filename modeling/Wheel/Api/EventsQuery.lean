import Wheel.Api.QueryValue
import Wheel.Text.Lossy

/-!
# The ticket of an event stream

The proxy of the events reads a ticket from the raw query and forwards the query without it.
`urldecode` slices the text two bytes behind every `%` and parses the slice as a number, which
fails in two ways: the slice may end inside a character, and the parser takes a sign for a
digit. `ticketRead_iff` says that everything else is as it should be.
-/

namespace Wheel

namespace Api

open Text

abbrev space : UInt8 := 32

def spaceOfPlus (b : UInt8) : UInt8 := if b = plus then space else b

/-- A text can be cut in front of these bytes. -/
def isBoundary : List UInt8 → Bool
  | [] => true
  | b :: _ => !isContinuation b

/-- Decode the value of a query parameter to bytes. `none` is a panic: the slice behind a `%` is
not cut between characters. -/
def urldecodeBytes : List UInt8 → Option (List UInt8)
  | [] => some []
  | [b] => some [spaceOfPlus b]
  | [b, h] => some [spaceOfPlus b, spaceOfPlus h]
  | b :: h :: l :: rest =>
      if b = percent then
        if isBoundary (h :: l :: rest) && isBoundary rest then
          match fromStrRadix [h, l] with
          | some c => (urldecodeBytes rest).map (c :: ·)
          | none => (urldecodeBytes (h :: l :: rest)).map (b :: ·)
        else none
      else (urldecodeBytes (h :: l :: rest)).map (spaceOfPlus b :: ·)

def urldecode (s : List Char) : Option (List Char) :=
  (urldecodeBytes (encode s)).map fromUtf8Lossy

/-- Read one parameter out of a raw query string. An inner `none` is a panic. -/
def queryParam (query key : List Char) : Option (Option (List Char)) :=
  (query.splitOn '&').findSome? fun pair =>
    (splitFirst ['='] pair).bind fun (k, v) => if k = key then some (urldecode v) else none

/-- A parameter that is read under a key. -/
def isParam (key pair : List Char) : Bool := (splitFirst ['='] pair).map Prod.fst = some key

/-- Everything except the named parameter, re-joined. -/
def stripQueryParam (query key : List Char) : List Char :=
  ['&'].intercalate
    (((query.splitOn '&').filter fun pair => !pair.isEmpty).filter fun pair => !isParam key pair)

/-- The form decoding: `+` is a space, and `%` with two digits a byte. -/
def formDecode (x : List UInt8) : List UInt8 := percentDecode (x.map spaceOfPlus)

/-! ## The two decoders -/

theorem spaceOfPlus_of_ne {b : UInt8} (h : b ≠ plus) : spaceOfPlus b = b := if_neg h

theorem spaceOfPlus_ne_percent {b : UInt8} (h : b ≠ percent) : spaceOfPlus b ≠ percent := by
  unfold spaceOfPlus
  split
  · decide
  · exact h

theorem hexValue_spaceOfPlus (b : UInt8) : hexValue (spaceOfPlus b) = hexValue b := by
  unfold spaceOfPlus
  split
  · rename_i h
    rw [h]
    rfl
  · rfl

theorem formDecode_cons_of_ne {b : UInt8} (h : b ≠ percent) (x : List UInt8) :
    formDecode (b :: x) = spaceOfPlus b :: formDecode x := by
  rw [formDecode, List.map_cons, percentDecode_cons_of_ne (spaceOfPlus_ne_percent h)]
  rfl

theorem formDecode_percent (h l : UInt8) (rest : List UInt8) :
    formDecode (percent :: h :: l :: rest) =
      match triple h l with
      | some c => c :: formDecode rest
      | none => percent :: formDecode (h :: l :: rest) := by
  have htriple : triple (spaceOfPlus h) (spaceOfPlus l) = triple h l := by
    rw [triple, hexValue_spaceOfPlus, hexValue_spaceOfPlus]
    rfl
  have hpercent : spaceOfPlus percent = percent := by
    rfl
  rw [formDecode, List.map_cons, List.map_cons, List.map_cons, hpercent, percentDecode,
    if_pos rfl, htriple]
  cases triple h l <;> rfl

theorem urldecodeBytes_cons_of_ne {b : UInt8} (h : b ≠ percent) (x : List UInt8) :
    urldecodeBytes (b :: x) = (urldecodeBytes x).map (spaceOfPlus b :: ·) := by
  cases x with
  | nil => rfl
  | cons c x =>
      cases x with
      | nil => rfl
      | cons d x => rw [urldecodeBytes, if_neg h]

/-- The slice behind a `%` ends inside a character. -/
def SplitEscape (x : List UInt8) : Prop :=
  ∃ h l m, isContinuation m = true ∧ [percent, h, l, m] <:+: x

/-- The decoder fails: it panics, or reads a sign as a digit. -/
def BadEscape (x : List UInt8) : Prop := SignedEscape x ∨ SplitEscape x

/-- A character begins behind every `%`, as in the bytes of a text. -/
def BeginsBehind (x : List UInt8) : Prop := ∀ h, [percent, h] <:+: x → isContinuation h = false

theorem BeginsBehind.tail {b : UInt8} {x : List UInt8} (h : BeginsBehind (b :: x)) :
    BeginsBehind x := fun c hc => h c (hc.trans (List.suffix_cons b x).isInfix)

theorem splitEscape_cons_of_ne {b : UInt8} (h : b ≠ percent) {x : List UInt8} :
    SplitEscape (b :: x) ↔ SplitEscape x := by
  unfold SplitEscape
  simp only [List.infix_cons_iff, List.cons_prefix_cons, h.symm, false_and, false_or]

theorem splitEscape_percent_iff {h l : UInt8} {rest : List UInt8} :
    SplitEscape (percent :: h :: l :: rest) ↔
      isBoundary rest = false ∨ SplitEscape (h :: l :: rest) := by
  unfold SplitEscape
  simp only [List.infix_cons_iff, and_or_left, exists_or]
  refine or_congr_left ⟨?_, fun hrest => ?_⟩
  · rintro ⟨h', l', m, hm, hpre⟩
    simp only [List.cons_prefix_cons, true_and] at hpre
    obtain ⟨t, ht⟩ := hpre.2.2
    rw [← ht]
    simp [isBoundary, hm]
  · cases rest with
    | nil => cases hrest
    | cons m rest =>
        refine ⟨h, l, m, ?_, ⟨rest, rfl⟩⟩
        simpa [isBoundary] using hrest

theorem badEscape_cons_of_ne {b : UInt8} (h : b ≠ percent) {x : List UInt8} :
    BadEscape (b :: x) ↔ BadEscape x :=
  or_congr (signedEscape_cons_of_ne h) (splitEscape_cons_of_ne h)

theorem badEscape_percent_iff {h l : UInt8} {rest : List UInt8}
    (hrest : isBoundary rest = true) (hl : h = plus → hexValue l = none) :
    BadEscape (percent :: h :: l :: rest) ↔ BadEscape (h :: l :: rest) := by
  unfold BadEscape
  rw [signedEscape_percent_iff, splitEscape_percent_iff, hrest,
    or_iff_right (b := SignedEscape _), or_iff_right (b := SplitEscape _)]
  · exact Bool.noConfusion
  · rintro ⟨hplus, hsome⟩
    rw [hl hplus] at hsome
    cases hsome

theorem not_badEscape_of_length {x : List UInt8} (h : x.length < 3) : ¬ BadEscape x := by
  rintro (hsigned | ⟨_, _, _, -, hinfix⟩)
  · exact not_signedEscape_of_length h hsigned
  · have hle := hinfix.length_le
    simp only [List.length_cons, List.length_nil] at hle
    omega

/-- Without a bad escape the decoders agree. At the first one the code panics, or puts out a
control character where the reference puts out the `%`. -/
structure Agrees (x : List UInt8) : Prop where
  good : ¬ BadEscape x → urldecodeBytes x = some (formDecode x)
  bad : BadEscape x → urldecodeBytes x = none ∨
    ∃ p c u v, urldecodeBytes x = some (p ++ c :: u) ∧ formDecode x = p ++ percent :: v ∧ c < 16

/-- Both decoders put out the same byte and go on with the same rest. -/
theorem Agrees.cons {x y : List UInt8} {b : UInt8} (h : Agrees x)
    (hcode : urldecodeBytes y = (urldecodeBytes x).map (b :: ·))
    (href : formDecode y = b :: formDecode x) (hbad : BadEscape y ↔ BadEscape x) : Agrees y where
  good hy := by
    rw [hcode, href, h.good fun hx => hy (hbad.mpr hx)]
    rfl
  bad hy := by
    rcases h.bad (hbad.mp hy) with hnone | ⟨p, c, u, v, hsome, hdecode, hlt⟩
    · left
      rw [hcode, hnone]
      rfl
    · right
      refine ⟨b :: p, c, u, v, ?_, ?_, hlt⟩
      · rw [hcode, hsome]
        rfl
      · rw [href, hdecode]
        rfl

theorem agrees_of_length {x : List UInt8} (h : x.length < 3)
    (heq : urldecodeBytes x = some (formDecode x)) : Agrees x :=
  ⟨fun _ => heq, fun hbad => absurd hbad (not_badEscape_of_length h)⟩

theorem agrees_percent {h l : UInt8} {rest : List UInt8}
    (hbegins : BeginsBehind (percent :: h :: l :: rest)) (htail : Agrees (h :: l :: rest))
    (hrest : Agrees rest) : Agrees (percent :: h :: l :: rest) := by
  have hfirst : isBoundary (h :: l :: rest) = true := by
    have hcont := hbegins h ⟨[], l :: rest, rfl⟩
    simp [isBoundary, hcont]
  have hcode : urldecodeBytes (percent :: h :: l :: rest) =
      if isBoundary rest then
        match fromStrRadix [h, l] with
        | some c => (urldecodeBytes rest).map (c :: ·)
        | none => (urldecodeBytes (h :: l :: rest)).map (percent :: ·)
      else none := by
    rw [urldecodeBytes, if_pos rfl, hfirst, Bool.true_and]
  cases hcut : isBoundary rest with
  | false =>
      have hbad : BadEscape (percent :: h :: l :: rest) :=
        .inr (splitEscape_percent_iff.mpr (.inl hcut))
      rw [hcut] at hcode
      exact ⟨fun hnot => absurd hbad hnot, fun _ => .inl hcode⟩
  | true =>
      rw [hcut, if_pos rfl, fromStrRadix_pair] at hcode
      have href := formDecode_percent h l rest
      by_cases hplus : h = plus
      · subst hplus
        rw [if_pos rfl] at hcode
        rw [triple, hexValue_plus] at href
        cases hl : hexValue l with
        | none =>
            rw [hl] at hcode
            exact htail.cons hcode href (badEscape_percent_iff hcut fun _ => hl)
        | some v =>
            rw [hl] at hcode
            have hbad : BadEscape (percent :: plus :: l :: rest) :=
              .inl (signedEscape_percent_iff.mpr (.inl ⟨rfl, by rw [hl]; rfl⟩))
            refine ⟨fun hnot => absurd hbad hnot, fun _ => ?_⟩
            dsimp only [Option.map_some] at hcode
            cases hr : urldecodeBytes rest with
            | none =>
                left
                rw [hcode, hr]
                rfl
            | some u =>
                right
                refine ⟨[], UInt8.ofNat v, u, _, ?_, href, ?_⟩
                · rw [hcode, hr]
                  rfl
                · have hv := hexValue_lt hl
                  have hsize : UInt8.size = 256 := rfl
                  rw [UInt8.lt_iff_toNat_lt, UInt8.toNat_ofNat_of_lt' (by omega)]
                  exact hv
      · rw [if_neg hplus] at hcode
        cases ht : triple h l with
        | none =>
            rw [ht] at hcode href
            exact htail.cons hcode href (badEscape_percent_iff hcut fun hp => absurd hp hplus)
        | some c =>
            rw [ht] at hcode href
            refine hrest.cons hcode href ?_
            obtain ⟨x, hx, htriple⟩ := Option.bind_eq_some_iff.mp ht
            obtain ⟨y, hy, -⟩ := Option.map_eq_some_iff.mp htriple
            rw [badEscape_percent_iff hcut fun hp => absurd hp hplus,
              badEscape_cons_of_ne (ne_percent_of_hexValue hx),
              badEscape_cons_of_ne (ne_percent_of_hexValue hy)]

theorem agrees {x : List UInt8} (hx : BeginsBehind x) : Agrees x := by
  induction hn : x.length using Nat.strong_induction_on generalizing x with
  | _ n ih =>
    match x with
    | [] => exact agrees_of_length (by decide) rfl
    | [b] =>
        refine agrees_of_length (by simp) ?_
        rfl
    | [b, h] =>
        refine agrees_of_length (by simp) ?_
        rfl
    | b :: h :: l :: rest =>
        have htail : Agrees (h :: l :: rest) := ih _ (by simp [← hn]) hx.tail rfl
        by_cases hb : b = percent
        · subst hb
          exact agrees_percent hx htail
            (ih _ (by simp [← hn]; omega) hx.tail.tail.tail rfl)
        · exact htail.cons (urldecodeBytes_cons_of_ne hb _) (formDecode_cons_of_ne hb _)
            (badEscape_cons_of_ne hb)

/-! ## The bytes of a text -/

theorem mem_utf8EncodeChar {c : Char} (h : ¬ IsAscii c) :
    ∀ b ∈ String.utf8EncodeChar c, 128 ≤ b.toNat := by
  have hc : ¬ c.val.toNat ≤ 127 := fun hc => h (Nat.lt_succ_iff.mpr hc)
  simp only [String.utf8EncodeChar, if_neg hc]
  split
  · simp only [List.mem_cons, List.not_mem_nil, or_false]
    rintro b (rfl | rfl) <;> simp only [UInt8.toNat_ofNat'] <;> omega
  · split
    · simp only [List.mem_cons, List.not_mem_nil, or_false]
      rintro b (rfl | rfl | rfl) <;> simp only [UInt8.toNat_ofNat'] <;> omega
    · simp only [List.mem_cons, List.not_mem_nil, or_false]
      rintro b (rfl | rfl | rfl | rfl) <;> simp only [UInt8.toNat_ofNat'] <;> omega

theorem exists_utf8EncodeChar (c : Char) :
    ∃ b x, String.utf8EncodeChar c = b :: x ∧ isContinuation b = false := by
  have hlarge (b : UInt8) (h : 192 ≤ b.toNat) : isContinuation b = false := by
    refine decide_eq_false fun hb => ?_
    have hle := UInt8.le_iff_toNat_le.mp hb.2
    have h191 : (191 : UInt8).toNat = 191 := rfl
    omega
  by_cases h : IsAscii c
  · refine ⟨asciiByte c, [], utf8EncodeChar_of_isAscii h, isContinuation_of_lt ?_⟩
    rw [UInt8.lt_iff_toNat_lt, toNat_asciiByte h]
    exact h
  · have hc : ¬ c.val.toNat ≤ 127 := fun hc => h (Nat.lt_succ_iff.mpr hc)
    have hmax : c.val.toNat < 0x110000 := by
      rcases c.valid with hv | hv <;> omega
    simp only [String.utf8EncodeChar, if_neg hc]
    split
    · refine ⟨_, _, rfl, hlarge _ ?_⟩
      simp only [UInt8.toNat_ofNat']
      omega
    · split
      · refine ⟨_, _, rfl, hlarge _ ?_⟩
        simp only [UInt8.toNat_ofNat']
        omega
      · refine ⟨_, _, rfl, hlarge _ ?_⟩
        simp only [UInt8.toNat_ofNat']
        omega

theorem infix_of_infix_append {h : UInt8} {x y : List UInt8} (hx : percent ∉ x)
    (hxy : [percent, h] <:+: x ++ y) : [percent, h] <:+: y := by
  induction x with
  | nil => exact hxy
  | cons b x ih =>
      rw [List.mem_cons, not_or] at hx
      rw [List.cons_append, List.infix_cons_iff, List.cons_prefix_cons] at hxy
      exact ih hx.2 (hxy.resolve_left fun hb => hx.1 hb.1)

theorem beginsBehind_encode (s : List Char) : BeginsBehind (encode s) := by
  induction s with
  | nil =>
      intro h hinfix
      have hle := hinfix.length_le
      simp at hle
  | cons c s ih =>
      intro h hinfix
      rw [encode_cons] at hinfix
      by_cases hc : IsAscii c
      · rw [utf8EncodeChar_of_isAscii hc, List.singleton_append, List.infix_cons_iff,
          List.cons_prefix_cons] at hinfix
        rcases hinfix with ⟨-, hpre⟩ | hinfix
        · cases s with
          | nil => exact absurd hpre.length_le (by simp)
          | cons d s =>
              obtain ⟨b, x, hd, hb⟩ := exists_utf8EncodeChar d
              rw [encode_cons, hd, List.cons_append, List.cons_prefix_cons] at hpre
              rw [hpre.1, hb]
        · exact ih h hinfix
      · refine ih h (infix_of_infix_append (fun hmem => ?_) hinfix)
        exact absurd (mem_utf8EncodeChar hc _ hmem) (by decide)

/-- The value of a parameter is decoded as the reference does exactly when no escape is bad. -/
theorem urldecode_eq_iff (s : List Char) :
    urldecode s = some (fromUtf8Lossy (formDecode (encode s))) ↔ ¬ BadEscape (encode s) := by
  have hagrees := agrees (beginsBehind_encode s)
  unfold urldecode
  constructor
  · intro heq hbad
    rcases hagrees.bad hbad with hnone | ⟨p, c, u, v, hsome, hdecode, hlt⟩
    · rw [hnone] at heq
      cases heq
    · have hc : c.toNat < 16 := UInt8.lt_iff_toNat_lt.mp hlt
      rw [hsome, hdecode, Option.map_some,
        fromUtf8Lossy_append_cons (UInt8.lt_trans hlt (by decide)),
        fromUtf8Lossy_append_cons (by decide), Option.some_inj, List.append_cancel_left_eq,
        List.cons.injEq] at heq
      have hcontrol : ∀ n < 16, Char.ofNat n ≠ Char.ofNat percent.toNat := by
        decide
      exact hcontrol _ hc heq.1
  · intro hbad
    rw [hagrees.good hbad]
    rfl

/-! ## The query that is forwarded -/

/-- The parameters of a query that are not empty. -/
def params (query : List Char) : List (List Char) :=
  (query.splitOn '&').filter fun pair => !pair.isEmpty

/-- The parameters left are those that are not read under the key, in their order. -/
theorem params_stripQueryParam (query key : List Char) :
    params (stripQueryParam query key) = (params query).filter fun pair => !isParam key pair := by
  have hpieces : ∀ pair ∈ (params query).filter fun pair => !isParam key pair,
      '&' ∉ pair ∧ (!pair.isEmpty) = true := by
    intro pair hpair
    obtain ⟨hmem, hne⟩ := List.mem_filter.mp (List.mem_of_mem_filter hpair)
    exact ⟨not_mem_of_mem_splitOn hmem, hne⟩
  change params (['&'].intercalate ((params query).filter fun pair => !isParam key pair)) = _
  generalize (params query).filter (fun pair => !isParam key pair) = pieces at hpieces
  cases pieces with
  | nil => rfl
  | cons pair pieces =>
      unfold params
      rw [List.splitOn_intercalate '&' (fun p hp => (hpieces p hp).1) (List.cons_ne_nil _ _)]
      exact List.filter_eq_self.mpr fun p hp => (hpieces p hp).2

/-- Nothing is read under the key any more. -/
theorem queryParam_stripQueryParam (query key : List Char) :
    queryParam (stripQueryParam query key) key = none := by
  unfold queryParam
  rw [List.findSome?_eq_none_iff]
  intro pair hpair
  have hnot : isParam key pair = false := by
    by_cases hempty : pair.isEmpty = true
    · rw [List.isEmpty_iff.mp hempty]
      rfl
    · have hmem : pair ∈ params (stripQueryParam query key) :=
        List.mem_filter.mpr ⟨hpair, by simpa using hempty⟩
      rw [params_stripQueryParam] at hmem
      simpa using (List.mem_filter.mp hmem).2
  unfold isParam at hnot
  cases hsplit : splitFirst ['='] pair with
  | none => rfl
  | some kv =>
      rw [hsplit] at hnot
      have hne : kv.1 ≠ key := fun h => of_decide_eq_false hnot (by rw [← h]; rfl)
      rw [Option.bind_some]
      exact if_neg hne

/-- The query is decoded as the reference does, and forwarded without the parameter. -/
structure TicketRead (s : List Char) : Prop where
  decoded : urldecode s = some (fromUtf8Lossy (formDecode (encode s)))
  stripped : ∀ key, queryParam (stripQueryParam s key) key = none
  kept : ∀ key, params (stripQueryParam s key) = (params s).filter fun pair => !isParam key pair

/-- A query is read and forwarded as it should be exactly when no `%` is followed by `+` and a
digit, and none by two bytes that end inside a character. -/
theorem ticketRead_iff (s : List Char) : TicketRead s ↔ ¬ BadEscape (encode s) :=
  ⟨fun h => (urldecode_eq_iff s).mp h.decoded, fun h =>
    ⟨(urldecode_eq_iff s).mpr h, queryParam_stripQueryParam s, params_stripQueryParam s⟩⟩

/-- A `%`, a letter and an accented letter: the slice ends inside the accented one. -/
theorem not_ticketRead_accent : ¬ TicketRead "%a\u00e9".toList := by
  intro h
  have hpanic : urldecode "%a\u00e9".toList = none := by
    decide
  have hsome := h.decoded
  rw [hpanic] at hsome
  cases hsome

end Api

end Wheel
