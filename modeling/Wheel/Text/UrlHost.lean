import Wheel.Text.Lossy
import Wheel.Text.Percent
import Wheel.Text.IpAddr
import Wheel.Text.UrlPath

/-!
# The host and the port of a URL

How a parser of the URL standard reads the authority of a `http` or `https` address: what is at
the end and not shown is trimmed, tabs and line breaks are skipped, slashes of both kinds come
before the authority and end it, the user stands before the last `@`, and the host ends at a
colon outside brackets. A host is percent-decoded and made a domain in ASCII, and a domain that
ends in a number is an IPv4 address in any of its spellings. How a domain is made ASCII and how
an IPv6 address is written are parameters.
-/

namespace Text

/-- What the standard takes from elsewhere: the ASCII form of a domain and the usual spelling of
an IPv6 address. -/
structure HostLib where
  toAscii : List Char → Option (List Char)
  ipv6 : List Char → Option (List Char)
  toAscii_ascii : ∀ x y, toAscii x = some y → ∀ c ∈ x, IsAscii c → c.toLower ∈ y
  ipv6_chars : ∀ x y, ipv6 x = some y →
    ∀ c ∈ x, (digitValue 16 c).isSome = true ∨ c = ':' ∨ c = '.'

/-! ## Numbers -/

/-- The number of a text of digits; of no digit it is zero. -/
def radixNumber (radix : ℕ) (x : List Char) : Option ℕ :=
  (x.mapM (digitValue radix)).map (numberOf radix)

/-- One part of an IPv4 address: hexadecimal behind `0x`, octal behind `0`, else decimal. -/
def ipv4Number : List Char → Option ℕ
  | [] => none
  | '0' :: c :: x =>
      if c = 'x' ∨ c = 'X' then radixNumber 16 x else radixNumber 8 (c :: x)
  | x => radixNumber 10 x

/-- The parts of a domain, without an empty one at the end. -/
def hostParts (x : List Char) : List (List Char) :=
  let parts := x.splitOn '.'
  if parts.getLast? = some [] ∧ 1 < parts.length then parts.dropLast else parts

def endsInNumber (x : List Char) : Bool :=
  (hostParts x).getLast?.any fun p =>
    (!p.isEmpty && p.all Char.isDigit) || (ipv4Number p).isSome

/-- The address that the numbers of a domain denote: the last one fills what the others leave. -/
def ipv4Value (numbers : List ℕ) : Option ℕ :=
  let n := numbers.length
  let last := numbers.getLast?.getD 0
  if 4 < n ∨ (numbers.dropLast.any fun k => 255 < k) ∨ 256 ^ (5 - n) ≤ last then none
  else some (last + numberOf 256 numbers.dropLast * 256 ^ (5 - n))

def ipv4Text (n : ℕ) : List Char :=
  ['.'].intercalate ([n / 256 ^ 3 % 256, n / 256 ^ 2 % 256, n / 256 % 256, n % 256].map
    (Nat.toDigits 10))

def parseIpv4 (x : List Char) : Option (List Char) :=
  (((hostParts x).mapM ipv4Number).bind ipv4Value).map ipv4Text

/-! ## Hosts -/

/-- A character that no domain may have. -/
def isForbidden (c : Char) : Bool :=
  c.toNat ≤ 32 || c.toNat = 127 ||
    ['#', '/', ':', '<', '>', '?', '@', '[', '\\', ']', '^', '|', '%'].contains c

def parseDomain (lib : HostLib) (x : List Char) : Option (List Char) :=
  (lib.toAscii (fromUtf8Lossy (percentDecode (encode x)))).bind fun a =>
    if a.isEmpty || a.any isForbidden then none
    else if endsInNumber a then parseIpv4 a
    else some a

/-- The host that a text is read as, in its usual spelling. -/
def parseHost (lib : HostLib) (x : List Char) : Option (List Char) :=
  if x.head? = some '[' then
    if x.getLast? = some ']' then (lib.ipv6 x.tail.dropLast).map fun s => '[' :: (s ++ [']'])
    else none
  else parseDomain lib x

/-! ## The authority -/

/-- The texts before and behind the first colon outside brackets. -/
def splitHost : Bool → List Char → List Char × Option (List Char)
  | _, [] => ([], none)
  | inBrackets, c :: x =>
      if c = ':' ∧ inBrackets = false then ([], some x)
      else
        let r := splitHost (if c = '[' then true else if c = ']' then false else inBrackets) x
        (c :: r.1, r.2)

/-- A port: a number of 16 bits, or the usual one when there is none. -/
def readPort (usual : ℕ) : Option (List Char) → Option ℕ
  | none => some usual
  | some [] => some usual
  | some (c :: x) =>
      ((c :: x).mapM (digitValue 10)).bind fun digits =>
        if numberOf 10 digits < 65536 then some (numberOf 10 digits) else none

def endsAuthority (c : Char) : Bool := isSlash c || startsQuery c

/-- The authority behind `http:`. -/
def readAuthority (x : List Char) : List Char :=
  ((((x.rdropWhile isTrimmed).filter fun c => !isSkipped c).dropWhile isSlash).takeWhile
    fun c => !endsAuthority c)

/-- The authority without the user. -/
def withoutUser (x : List Char) : List Char := ((x.splitOn '@').getLast?).getD []

/-- The texts of the host and of the port. -/
def readHostPort (x : List Char) : List Char × Option (List Char) :=
  splitHost false (withoutUser (readAuthority x))

/-- The host and the port of an address, of which the text behind `http://` is given. -/
def readUrl (lib : HostLib) (usual : ℕ) (x : List Char) : Option (List Char × ℕ) :=
  let r := readHostPort x
  if r.1 = [] then none
  else (parseHost lib r.1).bind fun host => (readPort usual r.2).map fun port => (host, port)

/-! ## What is read -/

section readings

variable {lib : HostLib}

theorem splitHost_append (b : Bool) (x : List Char) :
    (splitHost b x).1 ++ ((splitHost b x).2.elim [] fun q => ':' :: q) = x := by
  induction x generalizing b with
  | nil => rfl
  | cons c x ih =>
      rw [splitHost]
      split
      · rename_i h
        rw [h.1]
        rfl
      · dsimp only
        rw [List.cons_append, ih]

/-- Without brackets the host ends at the first colon. -/
theorem colon_not_mem_splitHost {x : List Char} (h : '[' ∉ (splitHost false x).1) :
    ':' ∉ (splitHost false x).1 := by
  induction x with
  | nil => exact List.not_mem_nil
  | cons c x ih =>
      rw [splitHost] at h ⊢
      split
      · exact List.not_mem_nil
      · rename_i hc
        rw [if_neg hc] at h
        dsimp only at h ⊢
        rw [List.mem_cons, not_or] at h ⊢
        have hstate : (if c = '[' then true else if c = ']' then false else false) = false := by
          rw [if_neg (Ne.symm h.1), ite_self]
        rw [hstate] at h ⊢
        exact ⟨fun he => hc ⟨he.symm, rfl⟩, ih h.2⟩

theorem digitValue_ten (c : Char) :
    digitValue 10 c = if c.isDigit then some (c.toNat - 48) else none := by
  have hdigit : c.isDigit = true ↔ 48 ≤ c.toNat ∧ c.toNat ≤ 57 := by
    simp [Char.isDigit, UInt32.le_iff_toNat_le]
  have hle : ∀ d e : Char, d ≤ e ↔ d.toNat ≤ e.toNat := fun _ _ => Iff.rfl
  simp only [digitValue, hle, Char.reduceToNat, hdigit]
  split_ifs <;> first | rfl | omega

theorem mapM_digitValue {x : List Char} {digits : List ℕ}
    (h : x.mapM (digitValue 10) = some digits) :
    (∀ c ∈ x, c.isDigit = true) ∧ digits = x.map fun c => c.toNat - 48 := by
  induction x generalizing digits with
  | nil =>
      obtain rfl : digits = [] := by simpa using h.symm
      exact ⟨by simp, rfl⟩
  | cons c x ih =>
      rw [List.mapM_cons, digitValue_ten] at h
      split at h
      · rename_i hc
        rcases Option.bind_eq_some_iff.1 h with ⟨_, ⟨⟩, h⟩
        rcases Option.bind_eq_some_iff.1 h with ⟨rest, hrest, ⟨⟩⟩
        obtain ⟨hall, rfl⟩ := ih hrest
        exact ⟨List.forall_mem_cons.2 ⟨hc, hall⟩, rfl⟩
      · cases h

/-- A port that is written is a number of digits. -/
theorem readPort_cons {usual : ℕ} {c : Char} {x : List Char} {p : ℕ}
    (h : readPort usual (some (c :: x)) = some p) :
    (∀ d ∈ c :: x, d.isDigit = true) ∧ p < 65536 ∧
      p = (c :: x).foldl (fun n d => 10 * n + (d.toNat - 48)) 0 := by
  rcases Option.bind_eq_some_iff.1 h with ⟨digits, hdigits, h⟩
  obtain ⟨hall, rfl⟩ := mapM_digitValue hdigits
  have hnumber : numberOf 10 ((c :: x).map fun d => d.toNat - 48) =
      (c :: x).foldl (fun n d => 10 * n + (d.toNat - 48)) 0 := by
    rw [numberOf, List.foldl_map]
    simp only [Nat.mul_comm]
  rw [hnumber] at h
  split at h
  · rename_i hlt
    cases h
    exact ⟨hall, hlt, rfl⟩
  · cases h

/-- A byte that is no part of a triple is left as it is. -/
theorem mem_percentDecode {b : UInt8} (hb : b ≠ percent) (hhex : hexValue b = none)
    {x : List UInt8} (h : b ∈ x) : b ∈ percentDecode x := by
  fun_induction percentDecode x with
  | case1 => exact h
  | case2 => exact h
  | case3 => exact h
  | case4 d hi lo rest c htriple ih =>
      split at htriple
      · rename_i hd
        rw [triple, Option.bind_eq_some_iff] at htriple
        rcases htriple with ⟨u, hu, hv⟩
        rcases Option.map_eq_some_iff.1 hv with ⟨v, hv, -⟩
        have hne : b ≠ hi := fun he => by rw [he, hu] at hhex; cases hhex
        have hne' : b ≠ lo := fun he => by rw [he, hv] at hhex; cases hhex
        simp only [List.mem_cons, hd, hb, hne, hne', false_or] at h
        exact .tail _ (ih h)
      · cases htriple
  | case5 d hi lo rest hnone ih =>
      rcases List.mem_cons.1 h with rfl | h
      · exact .head _
      · exact .tail _ (ih h)

theorem mem_fromUtf8Lossy {b : UInt8} (hb : b < 128) {x : List UInt8} (h : b ∈ x) :
    Char.ofNat b.toNat ∈ fromUtf8Lossy x := by
  obtain ⟨y, z, rfl⟩ := List.append_of_mem h
  rw [fromUtf8Lossy_append_cons hb]
  exact List.mem_append_right _ (.head _)

/-- A domain has no bracket. -/
theorem bracket_not_mem_of_parseDomain {x host : List Char} (h : parseDomain lib x = some host) :
    '[' ∉ x := by
  intro hmem
  have hbyte : (91 : UInt8) ∈ encode x := by
    rw [encode, List.mem_flatMap]
    exact ⟨'[', hmem, by decide⟩
  have hdecoded : '[' ∈ fromUtf8Lossy (percentDecode (encode x)) :=
    mem_fromUtf8Lossy (b := 91) (by decide) (mem_percentDecode (by decide) (by decide) hbyte)
  rw [parseDomain, Option.bind_eq_some_iff] at h
  rcases h with ⟨a, ha, h⟩
  have hkept := lib.toAscii_ascii _ _ ha '[' hdecoded (by decide)
  have hforbidden : a.any isForbidden = true := List.any_eq_true.2 ⟨_, hkept, by decide⟩
  rw [hforbidden, Bool.or_true, if_pos rfl] at h
  cases h

/-- A host that is read is a domain without brackets, or an address between brackets. -/
theorem parseHost_cases {x host : List Char} (h : parseHost lib x = some host) :
    '[' ∉ x ∨ ∃ inner, x = '[' :: (inner ++ [']']) ∧ '[' ∉ inner ∧ ']' ∉ inner ∧
      ∃ s, lib.ipv6 inner = some s ∧ host = '[' :: (s ++ [']']) := by
  rw [parseHost] at h
  split at h
  · rename_i hhead
    split at h
    · rename_i hlast
      obtain ⟨s, hs, rfl⟩ := Option.map_eq_some_iff.1 h
      right
      cases x with
      | nil => simp at hhead
      | cons c x =>
          obtain rfl : c = '[' := by simpa using hhead
          have hx : x ≠ [] := by
            rintro rfl
            simp at hlast
          obtain ⟨inner, d, rfl⟩ := List.eq_nil_or_concat' x |>.resolve_left hx
          obtain rfl : d = ']' := by
            rw [← List.cons_append, List.getLast?_concat] at hlast
            exact Option.some.inj hlast
          rw [List.tail_cons, List.dropLast_concat] at hs
          have hchars := lib.ipv6_chars _ _ hs
          refine ⟨inner, rfl, fun hm => ?_, fun hm => ?_, s, hs, rfl⟩
          · exact absurd (hchars _ hm) (by decide)
          · exact absurd (hchars _ hm) (by decide)
    · cases h
  · exact .inl (bracket_not_mem_of_parseDomain h)

/-- An address between brackets without them. -/
def unbracket (x : List Char) : List Char := if x.head? = some '[' then x.tail.dropLast else x

theorem bracket_not_mem_toDigits (n : ℕ) : '[' ∉ Nat.toDigits 10 n := fun h =>
  absurd (Nat.isDigit_of_mem_toDigits (by norm_num) (by norm_num) h) (by decide)

/-- An IPv4 address is written with digits and dots. -/
theorem bracket_not_mem_ipv4Text (n : ℕ) : '[' ∉ ipv4Text n := by
  simp [ipv4Text, List.intercalate, List.intersperse, bracket_not_mem_toDigits]

theorem head?_parseDomain {x host : List Char} (h : parseDomain lib x = some host) :
    host.head? ≠ some '[' := by
  rcases Option.bind_eq_some_iff.1 h with ⟨a, -, h⟩
  intro hhead
  have hmem := List.mem_of_head? hhead
  split at h
  · cases h
  · rename_i hok
    split at h
    · rcases Option.map_eq_some_iff.1 h with ⟨n, -, rfl⟩
      exact bracket_not_mem_ipv4Text n hmem
    · cases h
      have hforbidden : host.any isForbidden = true := List.any_eq_true.2 ⟨_, hmem, by decide⟩
      exact hok (by rw [hforbidden, Bool.or_true])

end readings

/-! ## Cutting at a character -/

theorem splitFirst_of_not_mem {d : Char} {sep x : List Char} (h : d ∉ x) :
    splitFirst (d :: sep) x = none := by
  induction x with
  | nil => rfl
  | cons c x ih =>
      rw [List.mem_cons, not_or] at h
      have hstart : ¬ (d :: sep).isPrefixOf (c :: x) = true := by
        simp [List.isPrefixOf, h.1]
      rw [splitFirst, if_neg hstart, ih h.2]
      rfl

theorem splitLast_of_not_mem {d : Char} {x : List Char} (h : d ∉ x) : splitLast [d] x = none := by
  rw [splitLast, List.reverse_singleton, splitFirst_of_not_mem (by simpa using h)]
  rfl

/-- The last one of a character that occurs. -/
theorem splitLast_append_cons {d : Char} {y : List Char} (h : d ∉ y) (x : List Char) :
    splitLast [d] (x ++ d :: y) = some (x, y) := by
  have hreverse : (x ++ d :: y).reverse = y.reverse ++ [d] ++ x.reverse := by simp
  rw [splitLast, List.reverse_singleton, hreverse, splitFirst_append (by simpa using h)]
  simp

/-! ## A plain authority -/

/-- A character that a path, a query or a fragment starts with. -/
def startsPath (c : Char) : Bool := c = '/' || c = '?' || c = '#'

/-- The text up to the first `/`, `?` or `#`. -/
def writtenAuthority (x : List Char) : List Char := x.takeWhile fun c => !startsPath c

/-- The user is all before the last `@`. -/
theorem withoutUser_append_cons {y : List Char} (h : '@' ∉ y) (x : List Char) :
    withoutUser (x ++ '@' :: y) = y := by
  rw [withoutUser, List.splitOn_append_cons_self, List.splitOn_eq_singleton h, List.getLast?_concat,
    Option.getD_some]

theorem withoutUser_of_not_mem {x : List Char} (h : '@' ∉ x) : withoutUser x = x := by
  rw [withoutUser, List.splitOn_eq_singleton h]
  rfl

theorem exists_withoutUser (x : List Char) :
    '@' ∉ x ∨ ∃ user, x = user ++ '@' :: withoutUser x ∧ '@' ∉ withoutUser x := by
  induction x with
  | nil => exact .inl List.not_mem_nil
  | cons c x ih =>
      rcases ih with h | ⟨user, hx, hrest⟩
      · by_cases hc : c = '@'
        · subst hc
          have hcut : withoutUser ('@' :: x) = x := withoutUser_append_cons h []
          exact .inr ⟨[], by rw [hcut]; rfl, by rwa [hcut]⟩
        · exact .inl (by simp [Ne.symm hc, h])
      · have hcut : withoutUser (c :: x) = withoutUser x := by
          rw [hx, ← List.cons_append, withoutUser_append_cons hrest, ← hx]
        exact .inr ⟨c :: user, by rw [hcut, List.cons_append, ← hx], by rwa [hcut]⟩

/-- What is skipped in the user does not matter. -/
theorem withoutUser_filter {p : Char → Bool} (hat : p '@' = true) {x : List Char}
    (h : ∀ c ∈ withoutUser x, p c = true) : withoutUser (x.filter p) = withoutUser x := by
  rcases exists_withoutUser x with hx | ⟨user, hx, hrest⟩
  · rw [withoutUser_of_not_mem hx] at h
    rw [List.filter_eq_self.2 h]
  · have hfilter : x.filter p = user.filter p ++ '@' :: withoutUser x := by
      conv_lhs => rw [hx]
      rw [List.filter_append, List.filter_cons_of_pos hat, List.filter_eq_self.2 h]
    rw [hfilter, withoutUser_append_cons hrest]

theorem mem_of_mem_withoutUser {c : Char} {x : List Char} (h : c ∈ withoutUser x) : c ∈ x := by
  rcases exists_withoutUser x with hx | ⟨user, hx, -⟩
  · rwa [withoutUser_of_not_mem hx] at h
  · rw [hx]
    exact List.mem_append_right _ (.tail _ h)

/-- An authority without a backslash, where nothing behind the user is skipped or trimmed. -/
structure PlainAuthority (x : List Char) : Prop where
  noBackslash : '\\' ∉ writtenAuthority x
  kept : ∀ c ∈ withoutUser (writtenAuthority x), isSkipped c = false
  last : writtenAuthority x = x → ∀ c ∈ x.getLast?, isTrimmed c = false

/-- Plainness is checked by reading. -/
theorem plainAuthority_of_all {x : List Char} (hback : '\\' ∉ writtenAuthority x)
    (hkept : ((withoutUser (writtenAuthority x)).all fun c => !isSkipped c) = true)
    (hlast : (x.getLast?.all fun c => !isTrimmed c) = true) : PlainAuthority x where
  noBackslash := hback
  kept c hc := by simpa using List.all_eq_true.1 hkept c hc
  last _ c hc := by
    rw [Option.mem_def.1 hc] at hlast
    simpa using hlast

/-- An authority starts with no slash and ends before what ends it. -/
theorem takeWhile_authority {a b : List Char} (ha : ∀ c ∈ a, startsPath c = false ∧ c ≠ '\\')
    (hne : a ≠ []) (hb : ∀ c ∈ b.head?, startsPath c = true) :
    ((a ++ b).dropWhile isSlash).takeWhile (fun c => !endsAuthority c) = a := by
  have hends : ∀ c ∈ a, endsAuthority c = false := by
    intro c hc
    obtain ⟨hstarts, hback⟩ := ha c hc
    simp_all [endsAuthority, isSlash, startsQuery, startsPath]
  have hdrop : (a ++ b).dropWhile isSlash = a ++ b := by
    cases a with
    | nil => exact absurd rfl hne
    | cons c a =>
        have hc := hends c (.head _)
        rw [endsAuthority, Bool.or_eq_false_iff] at hc
        rw [List.cons_append, List.dropWhile_cons_of_neg (by simp [hc.1])]
  rw [hdrop]
  cases b with
  | nil =>
      rw [List.append_nil]
      exact List.takeWhile_eq_self_iff.2 fun c hc => by simp [hends c hc]
  | cons d b =>
      refine takeWhile_append_cons (fun c hc => by simp [hends c hc]) ?_ b
      have hd := hb d rfl
      simp only [startsPath, Bool.or_eq_true, decide_eq_true_eq] at hd
      rcases hd with (rfl | rfl) | rfl <;> decide

/-- A plain authority is read as it is written, less what is skipped in the user. -/
theorem readAuthority_of_plain {x : List Char} (h : PlainAuthority x)
    (hne : withoutUser (writtenAuthority x) ≠ []) :
    readAuthority x = (writtenAuthority x).filter fun c => !isSkipped c := by
  have hfiltered : ((writtenAuthority x).filter fun c => !isSkipped c) ≠ [] := by
    obtain ⟨c, hc⟩ := List.exists_mem_of_ne_nil _ hne
    refine List.ne_nil_of_mem (List.mem_filter.2 ⟨mem_of_mem_withoutUser hc, ?_⟩)
    rw [h.kept c hc]
    rfl
  have hchars : ∀ c ∈ (writtenAuthority x).filter fun c => !isSkipped c,
      startsPath c = false ∧ c ≠ '\\' := by
    intro c hc
    have hmem := (List.mem_filter.1 hc).1
    refine ⟨by simpa using List.mem_takeWhile_imp hmem, fun he => h.noBackslash (he ▸ hmem)⟩
  rcases forall_or_exists_first startsPath x with hall | ⟨a, d, b, rfl, ha, hd⟩
  · have hwritten : writtenAuthority x = x :=
      List.takeWhile_eq_self_iff.2 fun c hc => by simp [hall c hc]
    have hlast := h.last hwritten
    rw [hwritten] at hfiltered hchars ⊢
    have htrim : x.rdropWhile isTrimmed = x := by
      refine List.rdropWhile_eq_self_iff.2 fun hx => ?_
      rw [hlast _ (List.getLast?_eq_some_getLast hx)]
      exact Bool.false_ne_true
    have hread := takeWhile_authority (b := []) hchars hfiltered (by simp)
    rw [List.append_nil] at hread
    rw [readAuthority, htrim, hread]
  · have hwritten : writtenAuthority (a ++ d :: b) = a :=
      takeWhile_append_cons (fun c hc => by simp [ha c hc]) (by simp [hd]) b
    rw [hwritten] at hfiltered hchars ⊢
    have hkept : isTrimmed d = false ∧ isSkipped d = false := by
      simp only [startsPath, Bool.or_eq_true, decide_eq_true_eq] at hd
      rcases hd with (rfl | rfl) | rfl <;> decide
    rw [readAuthority, rdropWhile_append_cons hkept.1, List.filter_append,
      List.filter_cons_of_pos (by simp [hkept.2])]
    exact takeWhile_authority hchars hfiltered fun c hc => by rwa [← Option.some.inj hc]

/-- The host and the port of a plain authority are read where they are written. -/
theorem readHostPort_of_plain {x : List Char} (h : PlainAuthority x)
    (hne : withoutUser (writtenAuthority x) ≠ []) :
    readHostPort x = splitHost false (withoutUser (writtenAuthority x)) := by
  have hfilter : withoutUser ((writtenAuthority x).filter fun c => !isSkipped c) =
      withoutUser (writtenAuthority x) :=
    withoutUser_filter (by decide) fun c hc => by rw [h.kept c hc]; rfl
  rw [readHostPort, readAuthority_of_plain h hne, hfilter]

end Text
