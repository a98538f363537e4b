import Wheel.Core.Validate
import Wheel.Text.UrlHost

/-!
# The host that is vetted

The base URL of a tool and the URL of an mcp server are cut into host and port by hand, and the
host is judged by how it is written. A parser of the URL standard takes a backslash for a slash,
skips tabs and line breaks, and reads a host that ends in a number as an IPv4 address, however
it is spelled. `vettedHost_iff` says which of the accepted URLs are read alike.
-/

namespace Wheel

open Text

/-- The usual port of the scheme of a URL, and what stands behind the scheme. -/
def behindScheme (url : String) : Option (ℕ × List Char) :=
  match stripPrefix "https://".toList url.toList with
  | some rest => some (443, rest)
  | none => (stripPrefix "http://".toList url.toList).map fun rest => (80, rest)

/-- The host and the port that a parser of the URL standard reads. -/
def readHttp (lib : HostLib) (url : String) : Option (List Char × ℕ) :=
  (behindScheme url).bind fun s => readUrl lib s.1 s.2

/-- The code's reading of an authority without the user. -/
def authorityHostPort (usual : ℕ) (authority : List Char) : Option (List Char × ℕ) :=
  match stripPrefix ['['] authority with
  | some after =>
      (Text.splitFirst [']'] after).bind fun (h, tail) =>
        let port :=
          match stripPrefix [':'] tail with
          | some p => parsePort p
          | none => some usual
        port.map fun port => ('[' :: h ++ [']'], port)
  | none =>
      match Text.splitLast [':'] authority with
      | some (h, p) => (parsePort p).map fun port => (h, port)
      | none => some (authority, usual)

theorem urlHostPort_eq {url : String} {usual : ℕ} {rest : List Char}
    (h : behindScheme url = some (usual, rest)) :
    urlHostPort url =
      (authorityHostPort usual (urlAuthority rest)).bind fun r =>
        if r.1 = [] then none else some r := by
  unfold behindScheme at h
  unfold urlHostPort authorityHostPort
  cases hx : stripPrefix "https://".toList url.toList with
  | some x =>
      simp only [hx] at h ⊢
      cases h
      simp only [Option.bind_eq_bind, Option.bind_some]
      cases stripPrefix ['['] (urlAuthority rest) with
      | some after => rfl
      | none => cases Text.splitLast [':'] (urlAuthority rest) <;> rfl
  | none =>
      simp only [hx] at h ⊢
      rcases Option.map_eq_some_iff.1 h with ⟨x, hx', ⟨⟩⟩
      simp only [hx', Option.bind_eq_bind, Option.bind_some, Option.map_some]
      cases stripPrefix ['['] (urlAuthority rest) with
      | some after => rfl
      | none => cases Text.splitLast [':'] (urlAuthority rest) <;> rfl

/-- The code's reading of the host of an authority. -/
def authorityHost (authority : List Char) : List Char :=
  if authority.head? = some '[' then
    ((authority.splitOn ']').headD authority).dropWhile (· = '[')
  else (authority.splitOn ':').headD authority

theorem urlHost_eq {url : String} {usual : ℕ} {rest : List Char}
    (h : behindScheme url = some (usual, rest)) :
    urlHost url =
      if authorityHost (urlAuthority rest) = [] then none
      else some (authorityHost (urlAuthority rest)) := by
  have hrest : (stripPrefix "https://".toList url.toList).or
      (stripPrefix "http://".toList url.toList) = some rest := by
    unfold behindScheme at h
    split at h
    · rename_i x hx
      cases h
      rw [hx]
      rfl
    · rename_i hx
      rcases Option.map_eq_some_iff.1 h with ⟨x, hx', ⟨⟩⟩
      rw [hx, hx']
      rfl
  unfold urlHost
  rw [hrest]
  rfl

theorem urlAuthority_eq (rest : List Char) :
    urlAuthority rest = withoutUser (writtenAuthority rest) := by
  have hhead : (rest.splitOnP fun c => c = '/' || c = '?' || c = '#').headD [] =
      writtenAuthority rest := by
    rcases forall_or_exists_first startsPath rest with hall | ⟨a, d, b, rfl, ha, hd⟩
    · rw [writtenAuthority, List.takeWhile_eq_self_iff.2 fun c hc => by simp [hall c hc]]
      exact congrArg (List.headD · []) (List.splitOnP_eq_singleton hall)
    · rw [writtenAuthority,
        takeWhile_append_cons (fun c hc => by simp [ha c hc]) (by simp [hd]) b]
      exact congrArg (List.headD · []) (List.splitOnP_append_cons_of_forall_mem ha d hd b)
  rw [urlAuthority, hhead]
  rfl

/-! ## Where both read alike -/

section authority

variable {lib : HostLib} {usual : ℕ} {authority : List Char} {port : ℕ}

theorem stripPrefix_cons_self (b : Char) (x : List Char) : stripPrefix [b] (b :: x) = some x := by
  simp [stripPrefix, List.isPrefixOf]

theorem stripPrefix_of_head {b : Char} {x : List Char} (h : x.head? ≠ some b) :
    stripPrefix [b] x = none := by
  unfold stripPrefix
  cases x with
  | nil => rfl
  | cons c x => simpa [List.isPrefixOf, eq_comm (a := b)] using h

/-- A port that the standard reads is read alike, when there is one. -/
theorem parsePort_of_readPort {c : Char} {x : List Char}
    (h : readPort usual (some (c :: x)) = some port) : parsePort (c :: x) = some port := by
  obtain ⟨hdigits, hlt, hport⟩ := readPort_cons h
  have hplus : c ≠ '+' := by
    rintro rfl
    exact absurd (hdigits '+' (.head _)) (by decide)
  have hall : (c :: x).all Char.isDigit = true := List.all_eq_true.2 hdigits
  have hhead : (c :: x).head? ≠ some '+' := fun he => hplus (Option.some.inj he)
  have hdigits' : (stripPrefix ['+'] (c :: x)).getD (c :: x) = c :: x := by
    rw [stripPrefix_of_head hhead, Option.getD_none]
  rw [parsePort, hdigits']
  dsimp only
  rw [hall, if_neg (by simp), ← hport, if_pos hlt]

/-- An authority that starts with a bracket has a host that does. -/
theorem bracket_mem_of_head (h : authority.head? = some '[') :
    '[' ∈ (splitHost false authority).1 := by
  cases authority with
  | nil => simp at h
  | cons c x =>
      obtain rfl : c = '[' := by simpa using h
      rw [splitHost, if_neg (by simp)]
      exact .head _

/-- Where the standard reads an authority and the code reads it too, both cut at the same
places. -/
theorem authorityHostPort_eq {host : List Char}
    (hhost : parseHost lib (splitHost false authority).1 = some host)
    (hport : readPort usual (splitHost false authority).2 = some port)
    {r : List Char × ℕ} (h : authorityHostPort usual authority = some r) :
    r = ((splitHost false authority).1, port) := by
  have happend := splitHost_append false authority
  unfold authorityHostPort at h
  rcases parseHost_cases hhost with hplain | ⟨inner, hinner, -, hclose, -⟩
  · have hcolon := colon_not_mem_splitHost hplain
    rw [stripPrefix_of_head fun hhead => hplain (bracket_mem_of_head hhead)] at h
    dsimp only at h
    cases hp : (splitHost false authority).2 with
    | none =>
        rw [hp] at happend hport
        have hsame : authority = (splitHost false authority).1 := by simpa using happend.symm
        rw [splitLast_of_not_mem (hsame ▸ hcolon)] at h
        cases h
        cases hport
        rw [← hsame]
    | some p =>
        rw [hp] at happend hport
        rw [← happend] at h
        cases p with
        | nil =>
            rw [Option.elim_some, splitLast_append_cons List.not_mem_nil] at h
            cases h
        | cons c x =>
            have hmem : ':' ∉ c :: x := fun hm => absurd ((readPort_cons hport).1 _ hm) (by decide)
            rw [Option.elim_some, splitLast_append_cons hmem] at h
            dsimp only at h
            rw [parsePort_of_readPort hport] at h
            exact (Option.some.inj h).symm
  · have hfirst : ∀ tail, Text.splitFirst [']'] (inner ++ ']' :: tail) = some (inner, tail) := by
      intro tail
      have hsplit : Text.splitFirst [']'] (inner ++ [']'] ++ tail) = some (inner, tail) :=
        splitFirst_append hclose
      rwa [List.append_assoc] at hsplit
    rw [hinner, List.cons_append, List.append_assoc, List.singleton_append] at happend
    rw [← happend, stripPrefix_cons_self] at h
    dsimp only at h
    rw [hfirst, Option.bind_some] at h
    dsimp only at h
    rw [hinner]
    cases hp : (splitHost false authority).2 with
    | none =>
        rw [hp] at h hport
        cases hport
        exact (Option.some.inj h).symm
    | some p =>
        rw [hp] at h hport
        cases p with
        | nil => cases h
        | cons c x =>
            rw [Option.elim_some, stripPrefix_cons_self] at h
            dsimp only at h
            rw [parsePort_of_readPort hport] at h
            exact (Option.some.inj h).symm

theorem authorityHost_eq {host : List Char}
    (hhost : parseHost lib (splitHost false authority).1 = some host) :
    authorityHost authority = unbracket (splitHost false authority).1 := by
  have happend := splitHost_append false authority
  unfold authorityHost unbracket
  rcases parseHost_cases hhost with hplain | ⟨inner, hinner, hopen, hclose, -⟩
  · have hcolon := colon_not_mem_splitHost hplain
    rw [if_neg fun hhead => hplain (bracket_mem_of_head hhead),
      if_neg fun hhead => hplain (List.mem_of_head? hhead)]
    cases hp : (splitHost false authority).2 with
    | none =>
        rw [hp] at happend
        have hsame : authority = (splitHost false authority).1 := by simpa using happend.symm
        rw [← hsame] at hcolon ⊢
        rw [List.splitOn_eq_singleton hcolon]
        rfl
    | some p =>
        rw [hp, Option.elim_some] at happend
        have hcut := List.splitOn_append_cons_self_of_not_mem hcolon p
        rw [happend] at hcut
        rw [hcut]
        rfl
  · rw [hinner, List.cons_append, List.append_assoc, List.singleton_append] at happend
    have hnot : ']' ∉ '[' :: inner := by
      rw [List.mem_cons, not_or]
      exact ⟨by decide, hclose⟩
    have hcut := List.splitOn_append_cons_self_of_not_mem hnot
      ((splitHost false authority).2.elim [] fun q => ':' :: q)
    rw [List.cons_append, happend] at hcut
    have hdrop : ('[' :: inner).dropWhile (· = '[') = inner := by
      rw [List.dropWhile_cons_of_pos (by simp)]
      cases inner with
      | nil => rfl
      | cons c x =>
          rw [List.mem_cons, not_or] at hopen
          rw [List.dropWhile_cons_of_neg (by simpa using Ne.symm hopen.1)]
    rw [hinner, hcut, List.headD_cons, hdrop, List.head?_cons, if_pos rfl, List.tail_cons,
      List.dropLast_concat, if_pos]
    rw [← happend]
    rfl

end authority

/-! ## What is vetted is what is contacted -/

/-- The texts of the host and of the port as they are written. -/
def writtenHostPort (rest : List Char) : List Char × Option (List Char) :=
  splitHost false (withoutUser (writtenAuthority rest))

/-- The authority of a URL has no backslash, and nothing behind the user is skipped or trimmed. -/
def PlainUrl (url : String) : Prop := ∀ s, behindScheme url = some s → PlainAuthority s.2

/-- A host that is written as the standard writes it, up to case, or not a host and a port at
all. -/
def HostKept (lib : HostLib) (url : String) : Prop :=
  ∀ s, behindScheme url = some s → ∀ host, parseHost lib (writtenHostPort s.2).1 = some host →
    (readPort s.1 (writtenHostPort s.2).2).isSome →
      host.map Char.toLower = (writtenHostPort s.2).1.map Char.toLower

/-- The host and the port that are vetted are those that a parser reads. -/
def SameHostPort (lib : HostLib) (url : String) : Prop :=
  ∀ host port, readHttp lib url = some (host, port) →
    ∃ h, urlHostPort url = some (h, port) ∧ h.map Char.toLower = host.map Char.toLower

/-- The bare host that is vetted is the one that a parser reads. -/
def SameHost (lib : HostLib) (url : String) : Prop :=
  ∀ host port, readHttp lib url = some (host, port) →
    ∃ h, urlHost url = some h ∧ h.map Char.toLower = (unbracket host).map Char.toLower

section vetted

variable {lib : HostLib} {url : String} {usual : ℕ} {rest : List Char}

/-- A plain authority is read as it is written. -/
theorem readHttp_eq_some_iff (hs : behindScheme url = some (usual, rest)) (hplain : PlainUrl url)
    (hne : withoutUser (writtenAuthority rest) ≠ []) {host : List Char} {port : ℕ} :
    readHttp lib url = some (host, port) ↔
      (writtenHostPort rest).1 ≠ [] ∧ parseHost lib (writtenHostPort rest).1 = some host ∧
        readPort usual (writtenHostPort rest).2 = some port := by
  have hread : readHostPort rest = writtenHostPort rest := by
    rw [readHostPort_of_plain (hplain _ hs) hne]
    rfl
  rw [readHttp, hs, Option.bind_some, readUrl, hread]
  by_cases hempty : (writtenHostPort rest).1 = []
  · simp [hempty]
  · simp only [hempty, if_false, not_false_eq_true, true_and, ne_eq, Option.bind_eq_some_iff,
      Option.map_eq_some_iff, Prod.mk.injEq]
    constructor
    · rintro ⟨h, hh, p, hp, rfl, rfl⟩
      exact ⟨hh, hp⟩
    · rintro ⟨hh, hp⟩
      exact ⟨host, hh, port, hp, rfl, rfl⟩

/-- What an accepted URL has, when the port is vetted too. -/
theorem exists_of_urlHostPort {r : List Char × ℕ} (h : urlHostPort url = some r) :
    ∃ usual rest, behindScheme url = some (usual, rest) ∧
      authorityHostPort usual (withoutUser (writtenAuthority rest)) = some r ∧ r.1 ≠ [] ∧
      withoutUser (writtenAuthority rest) ≠ [] := by
  cases hs : behindScheme url with
  | none =>
      unfold behindScheme at hs
      split at hs
      · cases hs
      · rename_i hsecure
        rw [Option.map_eq_none_iff] at hs
        unfold urlHostPort at h
        rw [hsecure, hs] at h
        cases h
  | some s =>
      obtain ⟨usual, rest⟩ := s
      rw [urlHostPort_eq hs, Option.bind_eq_some_iff] at h
      obtain ⟨r', hr, h⟩ := h
      split at h
      · cases h
      · rename_i hhost
        cases h
        rw [urlAuthority_eq] at hr
        refine ⟨usual, rest, rfl, hr, hhost, fun hempty => ?_⟩
        rw [hempty] at hr
        cases hr
        exact hhost rfl

/-- What an accepted URL has, when the host alone is vetted. -/
theorem exists_of_urlHost {h : List Char} (hh : urlHost url = some h) :
    ∃ usual rest, behindScheme url = some (usual, rest) ∧
      authorityHost (withoutUser (writtenAuthority rest)) = h ∧ h ≠ [] ∧
      withoutUser (writtenAuthority rest) ≠ [] := by
  cases hs : behindScheme url with
  | none =>
      unfold behindScheme at hs
      split at hs
      · cases hs
      · rename_i hsecure
        rw [Option.map_eq_none_iff] at hs
        unfold urlHost at hh
        rw [hsecure, hs] at hh
        cases hh
  | some s =>
      obtain ⟨usual, rest⟩ := s
      rw [urlHost_eq hs] at hh
      split at hh
      · cases hh
      · rename_i hhost
        cases hh
        rw [urlAuthority_eq] at hhost ⊢
        refine ⟨usual, rest, rfl, rfl, hhost, fun hempty => ?_⟩
        rw [hempty] at hhost
        exact hhost rfl

/-- A plain URL whose host and port are vetted is read as it is vetted exactly when its host is
written as the standard writes it. -/
theorem sameHostPort_iff {r : List Char × ℕ} (haccepted : urlHostPort url = some r)
    (hplain : PlainUrl url) : SameHostPort lib url ↔ HostKept lib url := by
  obtain ⟨usual, rest, hs, hr, hhost, hne⟩ := exists_of_urlHostPort haccepted
  constructor
  · intro hsame s hs' host hparse hport
    obtain rfl : (usual, rest) = s := Option.some.inj (hs.symm.trans hs')
    obtain ⟨port, hport⟩ := Option.isSome_iff_exists.1 hport
    have hvetted := authorityHostPort_eq hparse hport hr
    have hread := (readHttp_eq_some_iff hs hplain hne).2 ⟨by rwa [hvetted] at hhost, hparse, hport⟩
    obtain ⟨h, hh, hcase⟩ := hsame host port hread
    rw [haccepted, hvetted] at hh
    obtain rfl : (writtenHostPort rest).1 = h := congrArg Prod.fst (Option.some.inj hh)
    exact hcase.symm
  · intro hkept host port hread
    obtain ⟨-, hparse, hport⟩ := (readHttp_eq_some_iff hs hplain hne).1 hread
    have hvetted := authorityHostPort_eq hparse hport hr
    refine ⟨(writtenHostPort rest).1, by rw [haccepted, hvetted]; rfl, ?_⟩
    exact (hkept _ hs host hparse (by rw [hport]; rfl)).symm

/-- Brackets around a host do not matter when hosts are compared. -/
theorem map_unbracket_iff {x host : List Char} (hparse : parseHost lib x = some host) :
    (unbracket x).map Char.toLower = (unbracket host).map Char.toLower ↔
      x.map Char.toLower = host.map Char.toLower := by
  rcases parseHost_cases hparse with hopen | ⟨inner, rfl, -, -, s, -, rfl⟩
  · have hx : x.head? ≠ some '[' := fun h => hopen (List.mem_of_head? h)
    rw [parseHost, if_neg hx] at hparse
    rw [unbracket, unbracket, if_neg hx, if_neg (head?_parseDomain hparse)]
  · simp [unbracket]

/-- A plain URL whose host alone is vetted is read as it is vetted exactly when its host is
written as the standard writes it. -/
theorem sameHost_iff {h : List Char} (haccepted : urlHost url = some h)
    (hplain : PlainUrl url) : SameHost lib url ↔ HostKept lib url := by
  obtain ⟨usual, rest, hs, hr, hhost, hne⟩ := exists_of_urlHost haccepted
  have hvetted : ∀ host, parseHost lib (writtenHostPort rest).1 = some host →
      h = unbracket (writtenHostPort rest).1 := by
    intro host hparse
    rw [← hr]
    exact authorityHost_eq hparse
  constructor
  · intro hsame s hs' host hparse hport
    obtain rfl : (usual, rest) = s := Option.some.inj (hs.symm.trans hs')
    obtain ⟨port, hport⟩ := Option.isSome_iff_exists.1 hport
    have hwritten : (writtenHostPort rest).1 ≠ [] := by
      intro hempty
      have := hvetted host hparse
      rw [hempty] at this
      exact hhost this
    have hread := (readHttp_eq_some_iff hs hplain hne).2 ⟨hwritten, hparse, hport⟩
    obtain ⟨h', hh, hcase⟩ := hsame host port hread
    obtain rfl : h = h' := Option.some.inj (haccepted.symm.trans hh)
    rw [hvetted host hparse] at hcase
    exact ((map_unbracket_iff hparse).1 hcase).symm
  · intro hkept host port hread
    obtain ⟨-, hparse, hport⟩ := (readHttp_eq_some_iff hs hplain hne).1 hread
    refine ⟨h, haccepted, ?_⟩
    rw [hvetted host hparse]
    exact (map_unbracket_iff hparse).2 (hkept _ hs host hparse (by rw [hport]; rfl)).symm

end vetted

/-- Domains of ASCII characters, and no IPv6 address. -/
def asciiHosts : HostLib where
  toAscii x := some (x.map Char.toLower)
  ipv6 _ := none
  toAscii_ascii _ _ h _ hc _ := by
    cases h
    exact List.mem_map_of_mem hc
  ipv6_chars _ _ h := by cases h

def toolAt (baseUrl : String) : ToolConfig := ⟨.http, ⟨.manual, "", 0⟩, baseUrl, []⟩

end Wheel
