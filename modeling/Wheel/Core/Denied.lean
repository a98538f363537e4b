import Wheel.Core.Address
import Wheel.Text.Escape

/-!
# Refused in every spelling

An IPv4 address that is refused stays refused inside an IPv6 address, whichever of the
five forms embeds it, and nothing else of an IPv6 address is refused but its own ranges.
A host that is the text of an address, bare or in brackets, is judged as that address:
what reads the address is blind to the case of letters, and leaves nothing that a host
name is stripped of.
-/

namespace Wheel

/-! ## Embedded addresses -/

/-- The forms in which a network routes an IPv6 address to an IPv4 address. -/
inductive Embeds (v4 : Ipv4Addr) : Ipv6Addr → Prop
  | mapped : Embeds v4 ⟨0, 0, 0, 0, 0, 0xffff, v4.segments.1, v4.segments.2⟩
  | compatible : Embeds v4 ⟨0, 0, 0, 0, 0, 0, v4.segments.1, v4.segments.2⟩
  | sixToFour {s3 s4 s5 s6 s7} :
      Embeds v4 ⟨0x2002, v4.segments.1, v4.segments.2, s3, s4, s5, s6, s7⟩
  | nat64 : Embeds v4 ⟨0x0064, 0xff9b, 0, 0, 0, 0, v4.segments.1, v4.segments.2⟩
  | teredoServer {s4 s5 s6 s7} :
      Embeds v4 ⟨0x2001, 0, v4.segments.1, v4.segments.2, s4, s5, s6, s7⟩
  | teredoClient {s2 s3 s4 s5} :
      Embeds v4 ⟨0x2001, 0, s2, s3, s4, s5, ~~~v4.segments.1, ~~~v4.segments.2⟩

/-- The prefixes under which an IPv6 address may embed an IPv4 address. -/
abbrev MayEmbed (v6 : Ipv6Addr) : Prop :=
  (v6.s0 = 0 ∧ v6.s1 = 0 ∧ v6.s2 = 0 ∧ v6.s3 = 0 ∧ v6.s4 = 0 ∧ (v6.s5 = 0 ∨ v6.s5 = 0xffff)) ∨
    v6.s0 = 0x2002 ∨ (v6.s0 = 0x0064 ∧ v6.s1 = 0xff9b) ∨ (v6.s0 = 0x2001 ∧ v6.s1 = 0)

/-- `fc00::/7`. -/
abbrev IsUniqueLocal (v6 : Ipv6Addr) : Prop := v6.s0 &&& 0xfe00 = 0xfc00

/-- `fe80::/10`. -/
abbrev IsLinkLocal (v6 : Ipv6Addr) : Prop := v6.s0 &&& 0xffc0 = 0xfe80

/-- `ff00::/8`. -/
abbrev IsMulticast (v6 : Ipv6Addr) : Prop := v6.s0 &&& 0xff00 = 0xff00

theorem extractLsb'_append_high (a b : BitVec 8) :
    (a ++ b : BitVec 16).extractLsb' 8 8 = a := by
  ext i hi
  rw [BitVec.getElem_extractLsb']
  refine BitVec.getLsbD_append.trans ?_
  rw [if_neg (by omega), Nat.add_sub_cancel_left, BitVec.getLsbD_eq_getElem hi]

theorem extractLsb'_append_low (a b : BitVec 8) :
    (a ++ b : BitVec 16).extractLsb' 0 8 = b := by
  ext i hi
  rw [BitVec.getElem_extractLsb']
  refine BitVec.getLsbD_append.trans ?_
  rw [if_pos (by omega), Nat.zero_add, BitVec.getLsbD_eq_getElem hi]

theorem ofSegments_segments (v4 : Ipv4Addr) :
    Ipv4Addr.ofSegments v4.segments.1 v4.segments.2 = v4 := by
  unfold Ipv4Addr.ofSegments Ipv4Addr.segments
  rw [extractLsb'_append_high, extractLsb'_append_low, extractLsb'_append_high,
    extractLsb'_append_low]

/-- Every embedded address is looked at, unless it is all zeros. -/
theorem mem_embeddedIpv4 {v4 : Ipv4Addr} {v6 : Ipv6Addr} (h : Embeds v4 v6) :
    v4 ∈ embeddedIpv4 v6 ∨ v6 = ⟨0, 0, 0, 0, 0, 0, 0, 0⟩ := by
  have hback := ofSegments_segments v4
  cases h with
  | compatible =>
      by_cases hz : v4.segments.1 = 0 ∧ v4.segments.2 = 0
      · rw [hz.1, hz.2]
        exact .inr rfl
      · left
        have hne : ¬ v4.segments.1 = 0#16 ∨ ¬ v4.segments.2 = 0#16 := not_and_or.mp hz
        simp [embeddedIpv4, hback, hne]
  | _ => left; simp [embeddedIpv4, hback]

theorem embeddedIpv4_eq_nil {v6 : Ipv6Addr} (h : ¬ MayEmbed v6) : embeddedIpv4 v6 = [] := by
  simp only [MayEmbed, not_or] at h
  obtain ⟨hzeros, hsix, hnat, hteredo⟩ := h
  have hmapped : ([v6.s0, v6.s1, v6.s2, v6.s3, v6.s4].all (· = 0) && v6.s5 = 0xffff) = false := by
    rw [Bool.eq_false_iff]
    intro hm
    simp only [List.all_cons, List.all_nil, Bool.and_eq_true, decide_eq_true_eq] at hm
    tauto
  have hcompatible : ([v6.s0, v6.s1, v6.s2, v6.s3, v6.s4].all (· = 0) && v6.s5 = 0 &&
      (v6.s6 ≠ 0 || v6.s7 ≠ 0)) = false := by
    rw [Bool.eq_false_iff]
    intro hm
    simp only [List.all_cons, List.all_nil, Bool.and_eq_true, decide_eq_true_eq] at hm
    tauto
  have hnat64 : (decide (v6.s0 = 0x0064) && decide (v6.s1 = 0xff9b)) = false := by
    rw [Bool.eq_false_iff]
    simpa using hnat
  have hserver : (decide (v6.s0 = 0x2001) && decide (v6.s1 = 0)) = false := by
    rw [Bool.eq_false_iff]
    simpa using hteredo
  unfold embeddedIpv4
  dsimp only
  rw [hmapped, hcompatible, hnat64, hserver, if_neg hsix]
  rfl

theorem ipIsDenied_of_embeds {v4 : Ipv4Addr} {v6 : Ipv6Addr} (hd : ipv4IsDenied v4 = true)
    (h : Embeds v4 v6) : ipIsDenied (.v6 v6) = true := by
  rcases mem_embeddedIpv4 h with hmem | rfl
  · have hany : (embeddedIpv4 v6).any ipv4IsDenied = true := List.any_eq_true.mpr ⟨v4, hmem, hd⟩
    simp [ipIsDenied, hany]
  · rfl

theorem ipIsDenied_of_not_mayEmbed {v6 : Ipv6Addr} (h : ¬ MayEmbed v6)
    (hlocal : ¬ IsUniqueLocal v6) (hlink : ¬ IsLinkLocal v6) : ipIsDenied (.v6 v6) = false := by
  have hone : v6 ≠ ⟨0, 0, 0, 0, 0, 0, 0, 1⟩ := by
    rintro rfl
    exact h (.inl ⟨rfl, rfl, rfl, rfl, rfl, .inl rfl⟩)
  have hzero : v6 ≠ ⟨0, 0, 0, 0, 0, 0, 0, 0⟩ := by
    rintro rfl
    exact h (.inl ⟨rfl, rfl, rfl, rfl, rfl, .inl rfl⟩)
  unfold IsUniqueLocal at hlocal
  unfold IsLinkLocal at hlink
  unfold ipIsDenied
  dsimp only
  rw [embeddedIpv4_eq_nil h, decide_eq_false hone, decide_eq_false hzero,
    decide_eq_false hlocal, decide_eq_false hlink]
  rfl

/-! ## Reading an address -/

/-- The characters of an address. -/
def isAddressChar (c : Char) : Bool := (digitOf 16 c).isSome || c = ':' || c = '.'

theorem digitOf_eq (radix : ℕ) (c : Char) :
    digitOf radix c =
      (if 48 ≤ c.toNat ∧ c.toNat ≤ 57 then some (c.toNat - 48)
        else if 97 ≤ c.toNat ∧ c.toNat ≤ 102 then some (c.toNat - 87)
        else if 65 ≤ c.toNat ∧ c.toNat ≤ 70 then some (c.toNat - 55)
        else none).filter fun n => n < radix := by
  unfold digitOf
  simp only [Char.isDigit, Char.le_def, UInt32.le_iff_toNat_le, Bool.and_eq_true, decide_eq_true_eq]
  rfl

/-- The value of a digit does not depend on its case. -/
theorem digitOf_toLower (radix : ℕ) (c : Char) : digitOf radix c.toLower = digitOf radix c := by
  rw [digitOf_eq, digitOf_eq, Text.toNat_toLower]
  congr 1
  split_ifs <;> first | rfl | omega

/-- The number, the rest and the flag of a reader's answer, in lower case. -/
def lowerRest {α : Type} (r : α × List Char) : α × List Char := (r.1, r.2.map Char.toLower)

/-- A reader takes at least one character of an address and no trailing dot, and does not
mind the case of letters. -/
structure ReadsAddress {α : Type} (read : List Char → Option (α × List Char)) : Prop where
  takes : ∀ x v rest, read x = some (v, rest) →
    ∃ used, x = used ++ rest ∧ (∀ c ∈ used, isAddressChar c = true) ∧
      used ≠ [] ∧ used.getLast? ≠ some '.'
  lower : ∀ x, read (x.map Char.toLower) = (read x).map lowerRest

theorem toLower_eq_iff {c d : Char} (hd : d.isAlpha = false) : c.toLower = d ↔ c = d := by
  have hlower : d.toLower = d := by
    have hnat := Text.toNat_toLower d
    have hno : ¬ (65 ≤ d.toNat ∧ d.toNat ≤ 90) := by
      intro hup
      have halpha := (Text.isAlpha_iff d).mpr (.inl hup)
      rw [hd] at halpha
      cases halpha
    rw [if_neg hno] at hnat
    exact Char.ext (UInt32.toNat_inj.mp hnat)
  constructor
  · intro h
    by_contra hne
    exact Text.toLower_ne_of_ne hd hne (h.trans hlower.symm)
  · rintro rfl
    exact hlower

theorem isAddressChar_of_digit {radix : ℕ} (hr : radix ≤ 16) {c : Char}
    (h : (digitOf radix c).isSome = true) : isAddressChar c = true := by
  obtain ⟨n, hn⟩ := Option.isSome_iff_exists.mp h
  rw [digitOf_eq, Option.filter_eq_some_iff] at hn
  have hn16 : digitOf 16 c = some n := by
    rw [digitOf_eq, Option.filter_eq_some_iff]
    refine ⟨hn.1, ?_⟩
    have hlt := hn.2
    simp only [decide_eq_true_eq] at hlt ⊢
    omega
  simp [isAddressChar, hn16]

theorem readsAddress_readNumber {radix : ℕ} (hr : radix ≤ 16) (maxDigits bound : ℕ)
    (zeroPrefix : Bool) : ReadsAddress (readNumber radix maxDigits bound zeroPrefix) := by
  constructor
  · intro x v rest hx
    have hdigits : ∀ c ∈ x.takeWhile fun c => (digitOf radix c).isSome,
        (digitOf radix c).isSome = true :=
      fun c hc => List.mem_takeWhile_imp (p := fun c => (digitOf radix c).isSome) hc
    have hsplit : x = (x.takeWhile fun c => (digitOf radix c).isSome) ++
        x.drop (x.takeWhile fun c => (digitOf radix c).isSome).length :=
      (List.prefix_iff_eq_append.mp (List.takeWhile_prefix _)).symm
    unfold readNumber at hx
    dsimp only at hx
    generalize (x.takeWhile fun c => (digitOf radix c).isSome) = digits at hx hdigits hsplit
    split at hx
    · cases hx
    · rename_i hok
      split at hx
      · cases hx
      · cases hx
        have hne : digits ≠ [] := by
          rintro rfl
          simp at hok
        refine ⟨digits, hsplit, fun c hc => isAddressChar_of_digit hr (hdigits c hc), hne, ?_⟩
        intro hlast
        have hdot := hdigits '.' (List.mem_of_getLast? hlast)
        rw [digitOf_eq] at hdot
        cases hdot
  · intro x
    have htake : (x.map Char.toLower).takeWhile (fun c => (digitOf radix c).isSome) =
        (x.takeWhile fun c => (digitOf radix c).isSome).map Char.toLower := by
      rw [List.takeWhile_map]
      congr 2
      funext c
      exact congrArg Option.isSome (digitOf_toLower radix c)
    have hhead : (x.map Char.toLower).head? = some '0' ↔ x.head? = some '0' := by
      cases x with
      | nil => simp
      | cons c x => simp [toLower_eq_iff (show ('0' : Char).isAlpha = false from rfl)]
    unfold readNumber
    rw [htake]
    dsimp only
    rw [List.isEmpty_map, List.length_map, List.foldl_map, ← List.map_drop]
    simp only [digitOf_toLower, hhead]
    split
    · rfl
    · split
      · rfl
      · rfl

/-- So does a reader behind a separator. -/
theorem ReadsAddress.separated {α : Type} {read : List Char → Option (α × List Char)}
    (h : ReadsAddress read) {sep : Char} (hsep : isAddressChar sep = true)
    (halpha : sep.isAlpha = false) (index : ℕ) : ReadsAddress (readSeparator sep index read) := by
  constructor
  · intro x v rest hx
    unfold readSeparator at hx
    split at hx
    · exact h.takes x v rest hx
    · split at hx
      · rename_i c x
        split at hx
        · rename_i hc
          obtain ⟨used, rfl, hchars, hne, hlast⟩ := h.takes _ v rest hx
          refine ⟨c :: used, rfl, ?_, List.cons_ne_nil _ _, ?_⟩
          · intro d hd
            rcases List.mem_cons.mp hd with rfl | hd
            · exact hc ▸ hsep
            · exact hchars d hd
          · rw [List.getLast?_cons_of_ne_nil hne]
            exact hlast
        · cases hx
      · cases hx
  · intro x
    unfold readSeparator
    split
    · exact h.lower x
    · cases x with
      | nil => rfl
      | cons c x =>
          rw [List.map_cons]
          dsimp only
          by_cases hc : c = sep
          · rw [if_pos hc, if_pos ((toLower_eq_iff halpha).mpr hc)]
            exact h.lower x
          · rw [if_neg hc, if_neg (fun hlow => hc ((toLower_eq_iff halpha).mp hlow))]
            rfl

/-- Two readers one after the other. -/
theorem ReadsAddress.bind {α β : Type} {read : List Char → Option (α × List Char)}
    {next : α → List Char → Option (β × List Char)} (h : ReadsAddress read)
    (hnext : ∀ v, ReadsAddress (next v)) :
    ReadsAddress fun x => (read x).bind fun r => next r.1 r.2 := by
  constructor
  · intro x w rest hx
    obtain ⟨⟨v, y⟩, hv, hw⟩ := Option.bind_eq_some_iff.mp hx
    obtain ⟨used, rfl, hchars, -, -⟩ := h.takes x v y hv
    obtain ⟨used', rfl, hchars', hne', hlast'⟩ := (hnext v).takes y w rest hw
    refine ⟨used ++ used', by rw [List.append_assoc], ?_, by simp [hne'], ?_⟩
    · intro c hc
      exact (List.mem_append.mp hc).elim (hchars c) (hchars' c)
    · rw [List.getLast?_append_of_ne_nil _ hne']
      exact hlast'
  · intro x
    rw [h.lower x]
    cases read x with
    | none => rfl
    | some r => exact (hnext r.1).lower r.2

theorem ReadsAddress.map {α β : Type} {read : List Char → Option (α × List Char)} (f : α → β)
    (h : ReadsAddress read) : ReadsAddress fun x => (read x).map fun r => (f r.1, r.2) := by
  constructor
  · intro x w rest hx
    obtain ⟨⟨v, y⟩, hv, hw⟩ := Option.map_eq_some_iff.mp hx
    cases hw
    exact h.takes x v y hv
  · intro x
    rw [h.lower x]
    cases read x with
    | none => rfl
    | some r => rfl

theorem readsAddress_readOctet (index : ℕ) : ReadsAddress (readOctet index) :=
  ((readsAddress_readNumber (by omega) 3 256 false).separated rfl rfl index).map (BitVec.ofNat 8)

theorem readIpv4_eq : readIpv4 = fun x =>
    (readOctet 0 x).bind fun a => (readOctet 1 a.2).bind fun b => (readOctet 2 b.2).bind fun c =>
      (readOctet 3 c.2).map fun d => (⟨a.1, b.1, c.1, d.1⟩, d.2) := by
  funext x
  unfold readIpv4
  simp only [Option.map_eq_bind]
  rfl

theorem readsAddress_readIpv4 : ReadsAddress readIpv4 := by
  have hd (a b c : BitVec 8) : ReadsAddress fun x =>
      (readOctet 3 x).map fun d => ((⟨a, b, c, d.1⟩ : Ipv4Addr), d.2) :=
    (readsAddress_readOctet 3).map (Ipv4Addr.mk a b c)
  have hc (a b : BitVec 8) := (readsAddress_readOctet 2).bind (hd a b)
  have hb (a : BitVec 8) := (readsAddress_readOctet 1).bind (hc a)
  rw [readIpv4_eq]
  exact (readsAddress_readOctet 0).bind hb

theorem readsAddress_separatedIpv4 (index : ℕ) :
    ReadsAddress (readSeparator ':' index readIpv4) := readsAddress_readIpv4.separated rfl rfl index

theorem readsAddress_group (index : ℕ) :
    ReadsAddress (readSeparator ':' index (readNumber 16 4 65536 true)) :=
  (readsAddress_readNumber (le_refl 16) 4 65536 true).separated rfl rfl index

/-- What the groups are read from is not empty unless no group was read. -/
theorem takes_readGroups (limit k : ℕ) (x : List Char) :
    ∃ used, x = used ++ (readGroups limit k x).2.2 ∧ (∀ c ∈ used, isAddressChar c = true) ∧
      used.getLast? ≠ some '.' ∧ ((readGroups limit k x).1 ≠ [] → used ≠ []) := by
  induction k generalizing x with
  | zero => exact ⟨[], rfl, fun _ hc => (List.not_mem_nil hc).elim, nofun, fun h => (h rfl).elim⟩
  | succ k ih =>
      unfold readGroups
      dsimp only
      split
      · rename_i v4 rest hv4
        split at hv4
        · obtain ⟨used, hx, hchars, hne, hlast⟩ := (readsAddress_separatedIpv4 _).takes x v4 rest hv4
          exact ⟨used, hx, hchars, hlast, fun _ => hne⟩
        · cases hv4
      · split
        · exact ⟨[], rfl, fun _ hc => (List.not_mem_nil hc).elim, nofun, fun h => (h rfl).elim⟩
        · rename_i g rest hg
          obtain ⟨used, hx, hchars, hne, hlast⟩ := (readsAddress_group _).takes x g rest hg
          obtain ⟨used', hrest, hchars', hlast', -⟩ := ih rest
          refine ⟨used ++ used', ?_, ?_, ?_, fun _ => by simp [hne]⟩
          · rw [List.append_assoc, ← hrest]
            exact hx
          · intro c hc
            exact (List.mem_append.mp hc).elim (hchars c) (hchars' c)
          · cases used' with
            | nil => simpa using hlast
            | cons c used' =>
                rw [List.getLast?_append_of_ne_nil _ (List.cons_ne_nil _ _)]
                exact hlast'

theorem lower_readGroups (limit k : ℕ) (x : List Char) :
    readGroups limit k (x.map Char.toLower) =
      ((readGroups limit k x).1, (readGroups limit k x).2.1,
        (readGroups limit k x).2.2.map Char.toLower) := by
  induction k generalizing x with
  | zero => rfl
  | succ k ih =>
      have hipv4 : (if limit - (k + 1) + 1 < limit then
          readSeparator ':' (limit - (k + 1)) readIpv4 (x.map Char.toLower) else none) =
          (if limit - (k + 1) + 1 < limit then readSeparator ':' (limit - (k + 1)) readIpv4 x
            else none).map lowerRest := by
        split
        · exact (readsAddress_separatedIpv4 _).lower x
        · rfl
      unfold readGroups
      dsimp only
      rw [hipv4, (readsAddress_group _).lower x]
      cases (if limit - (k + 1) + 1 < limit then readSeparator ':' (limit - (k + 1)) readIpv4 x
          else none) with
      | some r => rfl
      | none =>
          cases readSeparator ':' (limit - (k + 1)) (readNumber 16 4 65536 true) x with
          | none => rfl
          | some r =>
              dsimp only [Option.map_none, Option.map_some, lowerRest]
              rw [ih]

theorem readsAddress_readIpv6 : ReadsAddress readIpv6 := by
  constructor
  · intro x v rest hx
    obtain ⟨used, hsplit, hchars, hlast, hne⟩ := takes_readGroups 8 8 x
    unfold readIpv6 at hx
    dsimp only at hx
    split at hx
    · rename_i hlength
      cases hx
      refine ⟨used, hsplit, hchars, hne ?_, hlast⟩
      intro hnil
      rw [hnil] at hlength
      cases hlength
    · split at hx
      · cases hx
      · split at hx
        · rename_i y hy
          cases hx
          obtain ⟨used', hsplit', hchars', hlast', -⟩ :=
            takes_readGroups (8 - ((readGroups 8 8 x).1.length + 1))
              (8 - ((readGroups 8 8 x).1.length + 1)) y
          refine ⟨used ++ ':' :: ':' :: used', ?_, ?_, by simp, ?_⟩
          · rw [List.append_assoc, List.cons_append, List.cons_append, ← hsplit', ← hy]
            exact hsplit
          · intro c hc
            simp only [List.mem_append, List.mem_cons] at hc
            rcases hc with hc | rfl | rfl | hc
            · exact hchars c hc
            · rfl
            · rfl
            · exact hchars' c hc
          · rw [List.getLast?_append_of_ne_nil _ (List.cons_ne_nil _ _),
              List.getLast?_cons_of_ne_nil (List.cons_ne_nil _ _)]
            cases used' with
            | nil => simp
            | cons c used' =>
                rw [List.getLast?_cons_of_ne_nil (List.cons_ne_nil _ _)]
                exact hlast'
        · cases hx
  · intro x
    have hcolon (c : Char) : c.toLower = ':' ↔ c = ':' := toLower_eq_iff rfl
    unfold readIpv6
    dsimp only
    rw [lower_readGroups]
    dsimp only
    split
    · rfl
    · split
      · rfl
      · generalize (readGroups 8 8 x).2.2 = y
        generalize (readGroups 8 8 x).1 = head
        by_cases hy : ∃ z, y = ':' :: ':' :: z
        · obtain ⟨z, rfl⟩ := hy
          simp only [List.map_cons, (hcolon ':').mpr rfl, lower_readGroups, Option.map_some,
            lowerRest]
        · split
          · rename_i z hz
            cases y with
            | nil => simp at hz
            | cons c y =>
                cases y with
                | nil => simp at hz
                | cons d y =>
                    simp only [List.map_cons, List.cons.injEq, hcolon] at hz
                    exact absurd ⟨y, by rw [hz.1, hz.2.1]⟩ hy
          · split
            · exact absurd ⟨_, rfl⟩ hy
            · rfl

/-- An address of either family. -/
theorem readsAddress_or {α : Type} {read read' : List Char → Option (α × List Char)}
    (h : ReadsAddress read) (h' : ReadsAddress read') :
    ReadsAddress fun x => (read x).or (read' x) where
  takes x v rest hx := by
    rcases Option.or_eq_some_iff.mp hx with hx | ⟨-, hx⟩
    · exact h.takes x v rest hx
    · exact h'.takes x v rest hx
  lower x := by
    rw [h.lower x, h'.lower x]
    cases read x with
    | none => rfl
    | some r => rfl

theorem readsAddress_either : ReadsAddress fun x =>
    ((readIpv4 x).map fun r => (IpAddr.v4 r.1, r.2)).or
      ((readIpv6 x).map fun r => (IpAddr.v6 r.1, r.2)) :=
  readsAddress_or (readsAddress_readIpv4.map IpAddr.v4) (readsAddress_readIpv6.map IpAddr.v6)

theorem parseIp_eq_some_iff {x : List Char} {ip : IpAddr} :
    parseIp x = some ip ↔ ((readIpv4 x).map fun r => (IpAddr.v4 r.1, r.2)).or
      ((readIpv6 x).map fun r => (IpAddr.v6 r.1, r.2)) = some (ip, []) := by
  unfold parseIp
  dsimp only
  constructor
  · intro h
    split at h
    · rename_i ip' hr
      cases h
      exact hr
    · cases h
  · intro h
    rw [h]

/-- The text of an address is made of its characters and does not end with a dot. -/
theorem chars_of_parseIp {x : List Char} {ip : IpAddr} (h : parseIp x = some ip) :
    (∀ c ∈ x, isAddressChar c = true) ∧ x ≠ [] ∧ x.getLast? ≠ some '.' := by
  obtain ⟨used, hx, hchars, hne, hlast⟩ :=
    readsAddress_either.takes x ip [] (parseIp_eq_some_iff.mp h)
  rw [List.append_nil] at hx
  subst hx
  exact ⟨hchars, hne, hlast⟩

/-- An address is read from its text in lower case. -/
theorem parseIp_lower {x : List Char} {ip : IpAddr} (h : parseIp x = some ip) :
    parseIp (x.map Char.toLower) = some ip := by
  rw [parseIp_eq_some_iff] at h ⊢
  refine (readsAddress_either.lower x).trans ?_
  rw [h]
  rfl

/-! ## The host of an address -/

theorem isAddressChar_iff (c : Char) :
    isAddressChar c = true ↔ (48 ≤ c.toNat ∧ c.toNat ≤ 58) ∨ (97 ≤ c.toNat ∧ c.toNat ≤ 102) ∨
      (65 ≤ c.toNat ∧ c.toNat ≤ 70) ∨ c.toNat = 46 := by
  have hcolon : c = ':' ↔ c.toNat = 58 := by
    constructor
    · rintro rfl
      rfl
    · exact fun h => Char.ext (UInt32.toNat_inj.mp h)
  have hdot : c = '.' ↔ c.toNat = 46 := by
    constructor
    · rintro rfl
      rfl
    · exact fun h => Char.ext (UInt32.toNat_inj.mp h)
  unfold isAddressChar
  rw [digitOf_eq]
  simp only [Bool.or_eq_true, decide_eq_true_eq, hcolon, hdot]
  split_ifs with h1 h2 h3 <;> simp [Option.filter] <;> omega

theorem not_isSpace_of_isAddressChar {c : Char} (h : isAddressChar c = true) :
    Text.isSpace c = false := by
  have hc := (isAddressChar_iff c).mp h
  unfold Text.isSpace
  simp only [Bool.or_eq_false_iff, Bool.and_eq_false_iff, decide_eq_false_iff_not, beq_eq_false_iff_ne]
  omega

/-- A text that does not end with a dot keeps its end. -/
theorem dropWhile_dot_eq_self {x : List Char} (h : x.getLast? ≠ some '.') :
    (x.reverse.dropWhile (· = '.')).reverse = x := by
  cases hx : x.reverse with
  | nil => simpa using hx.symm
  | cons c y =>
      have hc : c ≠ '.' := by
        rintro rfl
        rw [← List.head?_reverse, hx] at h
        exact h rfl
      rw [List.dropWhile_cons_of_neg (by simpa using hc), ← hx, List.reverse_reverse]

/-- The text of an address is no name. -/
theorem not_isSuffixOf_of_isAddressChar {x name : List Char} (hx : ∀ c ∈ x, isAddressChar c = true)
    (hname : name.any (fun c => !isAddressChar c) = true) : name.isSuffixOf x = false := by
  rw [Bool.eq_false_iff]
  intro h
  obtain ⟨c, hc, hno⟩ := List.any_eq_true.mp hname
  have hmem := (List.isSuffixOf_iff_suffix.mp h).subset hc
  rw [hx c hmem] at hno
  cases hno

theorem isAddressChar_toLower {c : Char} (h : isAddressChar c = true) :
    isAddressChar c.toLower = true := by
  rw [isAddressChar_iff] at h ⊢
  rw [Text.toNat_toLower]
  split_ifs <;> omega

/-- What a host is that is stripped to the text of an address. -/
theorem hostIsDenied_of_stripped {host x : List Char} {ip : IpAddr} (h : parseIp x = some ip)
    (hs : (stripSuffix [']'] ((stripPrefix ['[']
      (((Text.trim host).reverse.dropWhile (· = '.')).reverse.map Char.toLower)).getD
      (((Text.trim host).reverse.dropWhile (· = '.')).reverse.map Char.toLower))).getD
      (((Text.trim host).reverse.dropWhile (· = '.')).reverse.map Char.toLower) =
        x.map Char.toLower) :
    hostIsDenied host = ipIsDenied ip := by
  obtain ⟨hchars, hne, -⟩ := chars_of_parseIp h
  have hlower : ∀ c ∈ x.map Char.toLower, isAddressChar c = true := by
    intro c hc
    obtain ⟨d, hd, rfl⟩ := List.mem_map.mp hc
    exact isAddressChar_toLower (hchars d hd)
  have hnot : ∀ name : List Char, name.any (fun c => !isAddressChar c) = true →
      name.isSuffixOf (x.map Char.toLower) = false :=
    fun name hname => not_isSuffixOf_of_isAddressChar hlower hname
  have hlocalhost : x.map Char.toLower ≠ "localhost".toList := by
    intro heq
    have hsuffix := hnot "localhost".toList (by decide +kernel)
    rw [heq] at hsuffix
    revert hsuffix
    decide +kernel
  unfold hostIsDenied
  dsimp only
  rw [hs, parseIp_lower h, hnot _ (by decide +kernel), hnot _ (by decide +kernel),
    hnot _ (by decide +kernel), decide_eq_false hlocalhost,
    decide_eq_false (by simpa using hne : x.map Char.toLower ≠ [])]
  rfl

/-- A bracket is no part of an address. -/
theorem ne_of_not_isAddressChar {x : List Char} (hx : ∀ c ∈ x, isAddressChar c = true) {b : Char}
    (hb : isAddressChar b = false) : ∀ c ∈ x.map Char.toLower, c ≠ b := by
  intro c hc heq
  obtain ⟨d, hd, rfl⟩ := List.mem_map.mp hc
  rw [← heq, isAddressChar_toLower (hx d hd)] at hb
  cases hb

theorem stripPrefix_of_ne {b : Char} {x : List Char} (h : ∀ c ∈ x, c ≠ b) :
    stripPrefix [b] x = none := by
  unfold stripPrefix
  rw [if_neg]
  intro hp
  exact h b ((List.isPrefixOf_iff_prefix.mp hp).subset List.mem_cons_self) rfl

theorem stripSuffix_of_ne {b : Char} {x : List Char} (h : ∀ c ∈ x, c ≠ b) :
    stripSuffix [b] x = none := by
  unfold stripSuffix
  rw [if_neg]
  intro hp
  exact h b ((List.isSuffixOf_iff_suffix.mp hp).subset List.mem_cons_self) rfl

theorem stripSuffix_append (y x : List Char) : stripSuffix y (x ++ y) = some x := by
  unfold stripSuffix
  rw [if_pos (List.isSuffixOf_iff_suffix.mpr (List.suffix_append x y)), List.length_append,
    Nat.add_sub_cancel, List.take_left]

theorem hostIsDenied_bare {x : List Char} {ip : IpAddr} (h : parseIp x = some ip) :
    hostIsDenied x = ipIsDenied ip := by
  obtain ⟨hchars, -, hlast⟩ := chars_of_parseIp h
  refine hostIsDenied_of_stripped h ?_
  rw [Text.trim_eq_self fun c hc => not_isSpace_of_isAddressChar (hchars c hc),
    dropWhile_dot_eq_self hlast, stripPrefix_of_ne (ne_of_not_isAddressChar hchars (by decide)),
    Option.getD_none, stripSuffix_of_ne (ne_of_not_isAddressChar hchars (by decide)),
    Option.getD_none]

theorem hostIsDenied_bracketed {x : List Char} {ip : IpAddr} (h : parseIp x = some ip) :
    hostIsDenied ('[' :: x ++ [']']) = ipIsDenied ip := by
  obtain ⟨hchars, -, -⟩ := chars_of_parseIp h
  have hspace : ∀ c ∈ '[' :: x ++ [']'], Text.isSpace c = false := by
    intro c hc
    rw [List.mem_append, List.mem_cons, List.mem_singleton] at hc
    rcases hc with (rfl | hc) | rfl
    · decide
    · exact not_isSpace_of_isAddressChar (hchars c hc)
    · decide
  have hlast : ('[' :: x ++ [']']).getLast? ≠ some '.' := by
    rw [List.getLast?_append_of_ne_nil _ (List.cons_ne_nil _ _)]
    decide
  have hlower : ('[' :: x ++ [']']).map Char.toLower = '[' :: (x.map Char.toLower ++ [']']) := by
    rw [List.map_append]
    rfl
  have hpre : stripPrefix ['['] ('[' :: (x.map Char.toLower ++ [']'])) =
      some (x.map Char.toLower ++ [']']) := by
    simp [stripPrefix]
  refine hostIsDenied_of_stripped h ?_
  rw [Text.trim_eq_self hspace, dropWhile_dot_eq_self hlast, hlower, hpre, Option.getD_some,
    stripSuffix_append, Option.getD_some]

/-- An IPv4 address that is refused is refused in every IPv6 address that embeds it, an
IPv6 address under no embedding prefix and in no range of its own is not refused, and a
host that is the text of an address is judged as the address. -/
theorem denied_in_every_spelling :
    (∀ v4 v6, ipIsDenied (.v4 v4) = true → Embeds v4 v6 → ipIsDenied (.v6 v6) = true) ∧
      (∀ v6, ¬ MayEmbed v6 → ¬ IsUniqueLocal v6 → ¬ IsLinkLocal v6 → ¬ IsMulticast v6 →
        ipIsDenied (.v6 v6) = false) ∧
      ∀ x ip, parseIp x = some ip → hostIsDenied x = ipIsDenied ip ∧
        hostIsDenied ('[' :: x ++ [']']) = ipIsDenied ip := by
  constructor
  · intro v4 v6 hd h
    exact ipIsDenied_of_embeds hd h
  · constructor
    · intro v6 h hlocal hlink _
      exact ipIsDenied_of_not_mayEmbed h hlocal hlink
    · intro x ip h
      exact ⟨hostIsDenied_bare h, hostIsDenied_bracketed h⟩

/-- The cloud's address of instance data, through the translator; a public IPv6 address;
and loopback in brackets. -/
theorem denied_in_every_spelling_metadata :
    ipIsDenied (.v6 ⟨0x64, 0xff9b, 0, 0, 0, 0, 0xa9fe, 0xa9fe⟩) = true ∧
      ipIsDenied (.v6 ⟨0x2606, 0x4700, 0, 0, 0, 0, 0, 0x1111⟩) = false ∧
      hostIsDenied "[::1]".toList = true := by
  have hmetadata : Embeds ⟨169, 254, 169, 254⟩ ⟨0x64, 0xff9b, 0, 0, 0, 0, 0xa9fe, 0xa9fe⟩ :=
    .nat64
  obtain ⟨hembeds, hallowed, hhost⟩ := denied_in_every_spelling
  refine ⟨hembeds _ _ (by decide) hmetadata, hallowed _ ?_ ?_ ?_ ?_, ?_⟩
  · decide
  · decide
  · decide
  · decide
  · exact (hhost "::1".toList (.v6 ⟨0, 0, 0, 0, 0, 0, 0, 1⟩) (by decide +kernel)).2

end Wheel
