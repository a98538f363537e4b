import Wheel.Core.ProxyPath

/-!
# Every accepted suffix is appended

`upstreamUrl` checks the URL it made against the base before it returns it. The check never
refuses: `upstreamUrl_of_proxySegments` says that a suffix that was split without an error is
appended to the path of the base, whatever the base, and that its segments mean the same to
every parser. The one liberty is with the slashes the path of the base ends in: `beneath` drops
one of them, and of a path of two slashes nothing is left.
-/

namespace Wheel.ProxyPath

open Text

/-! ## What an accepted segment is -/

/-- A segment that no parser and no further decoding reads differently. -/
structure Inert (s : String) : Prop where
  notDot : s ≠ "." ∧ s ≠ ".."
  slash : '/' ∉ s.toList
  percent : '%' ∉ s.toList
  backslash : '\\' ∉ s.toList
  control : ∀ c ∈ s.toList, isControl c = false

theorem inert_of_checkSegments {segments : List String} (h : checkSegments segments = .ok ())
    (hslash : ∀ s ∈ segments, '/' ∉ s.toList) : ∀ s ∈ segments, Inert s := by
  induction segments with
  | nil => exact fun s hs => absurd hs List.not_mem_nil
  | cons s segments ih =>
      unfold checkSegments at h
      split at h
      · cases h
      split at h
      · cases h
      rename_i hdot
      split at h
      · cases h
      rename_i hpercent
      split at h
      · cases h
      rename_i hchars
      rw [List.any_eq_true, not_exists] at hchars
      refine List.forall_mem_cons.2 ⟨⟨not_or.1 hdot, hslash s (.head _), hpercent, ?_, ?_⟩,
        ih h fun t ht => hslash t (.tail _ ht)⟩
      · exact fun hc => hchars '\\' ⟨hc, rfl⟩
      · intro c hc
        by_contra hcontrol
        rw [Bool.not_eq_false] at hcontrol
        exact hchars c ⟨hc, by simp [hcontrol]⟩

theorem inert_of_proxySegments {rest : String} {segments : List String}
    (h : proxySegments rest = .ok segments) : ∀ s ∈ segments, Inert s := by
  unfold proxySegments at h
  split at h
  · cases h
  · rename_i hcheck
    cases h
    refine inert_of_checkSegments hcheck ?_
    intro s hs
    rcases List.mem_map.1 hs with ⟨x, hx, rfl⟩
    rw [String.toList_ofList]
    exact not_mem_of_mem_splitOn hx

/-! ## The path of the base -/

/-- A path without the slash it ends in. -/
def withoutSlash (path : List UInt8) : List UInt8 :=
  if path.getLast? = some slash then path.dropLast else path

/-- The path that is appended to. -/
def beneath (path : List UInt8) : List UInt8 :=
  if path = [slash, slash] then [] else withoutSlash path

theorem mount_eq_beneath (path : List UInt8) : mount path = beneath path := by
  rcases List.eq_nil_or_concat' path with rfl | ⟨p, b, rfl⟩
  · rfl
  · by_cases hb : b = slash
    · have hpop : popIfEmpty (p ++ [b]) = if p = [] then [slash] else p := by
        rw [popIfEmpty, hb, List.getLast?_concat, List.dropLast_concat]
        cases p <;> simp
      have hpair : p ++ [b] = [slash, slash] ↔ p = [slash] := by
        rw [hb]
        exact ⟨fun h => List.append_cancel_right (h : p ++ [slash] = [slash] ++ [slash]),
          fun h => by rw [h]; rfl⟩
      rw [mount, hpop, beneath, withoutSlash, List.getLast?_concat, List.dropLast_concat]
      simp only [hb] at hpair ⊢
      by_cases hp : p = []
      · simp [hp]
      · simp [hp, hpair]
    · have hpop : popIfEmpty (p ++ [b]) = p ++ [b] := by
        simp [popIfEmpty, hb]
      have hne : ∀ q, p ++ [b] ≠ q ++ [slash] := fun q h =>
        hb (List.cons.inj (List.append_inj_right' h rfl)).1
      have hone : p ++ [b] ≠ [slash] := hne []
      have htwo : p ++ [b] ≠ [slash, slash] := hne [slash]
      rw [mount, hpop, beneath, withoutSlash, List.getLast?_concat, if_neg hone, if_neg htwo,
        if_neg (by simp [hb])]

theorem exists_slashes (path : List UInt8) :
    ∃ k, path = path.rdropWhile (· = slash) ++ List.replicate k slash := by
  refine ⟨(path.rtakeWhile (· = slash)).length, ?_⟩
  rw [← List.eq_replicate_of_mem (fun b hb => by simpa using List.mem_rtakeWhile_imp hb),
    List.rdropWhile_append_rtakeWhile]

/-- What is appended stands beneath the base, however many slashes its path ends in. -/
theorem rdropWhile_slash_prefix (path x : List UInt8) :
    path.rdropWhile (· = slash) ++ [slash] <+: mount path ++ slash :: x := by
  have hmount : ∃ k, mount path = path.rdropWhile (· = slash) ++ List.replicate k slash := by
    rw [mount_eq_beneath, beneath]
    split
    · rename_i h
      exact ⟨0, by rw [h]; rfl⟩
    · rw [withoutSlash]
      split
      · rename_i hlast
        rcases List.eq_nil_or_concat' path with rfl | ⟨p, b, rfl⟩
        · simp at hlast
        · obtain rfl : b = slash := by simpa using hlast
          rw [List.dropLast_concat, List.rdropWhile_concat_pos _ _ _ (by simp)]
          exact exists_slashes p
      · exact exists_slashes path
  rcases hmount with ⟨k, hk⟩
  rw [hk, List.append_assoc, List.prefix_append_right_inj]
  cases k with
  | zero => exact ⟨x, rfl⟩
  | succ k => exact ⟨List.replicate k slash ++ slash :: x, rfl⟩

/-! ## What a parser reads back -/

/-- The spellings of a dot segment. -/
def dotSegments : List (List UInt8) :=
  let dots : List (List UInt8) := [[46], [37, 50, 69], [37, 50, 101]]
  dots ++ dots.flatMap fun x => dots.map fun y => x ++ y

/-- A path that a parser has nothing left to do with. -/
structure Settled (lib : UrlLib) (path : List UInt8) : Prop where
  bytes : ∀ b ∈ path, lib.keeps b = true ∨ b = Text.percent ∨ b = slash
  segments : ∀ s ∈ path.splitOn slash, s ∉ dotSegments

/-- What is promised of the library: a letter or digit is never encoded, the path of a URL that
was parsed is settled, and a URL with a settled path is read back with it. The paths of `file`
URLs, where a parser looks for drive letters, are left out. -/
structure UrlLib.Lawful (lib : UrlLib) : Prop where
  hexKept : ∀ b, (hexValue b).isSome → lib.keeps b = true
  parsed : ∀ s url, lib.parse s = some url → url.cannotBeABase = false → Settled lib url.path
  readBack : ∀ url, url.cannotBeABase = false → url.scheme ≠ "file" → Settled lib url.path →
    ∃ again, lib.parse (lib.asStr url) = some again ∧ again.path = url.path

section lawful

variable {lib : UrlLib}

theorem bytes_encodeSegment (hlib : lib.Lawful) (s : String) :
    ∀ b ∈ encodeSegment lib s, lib.keeps b = true ∨ b = Text.percent := by
  intro b hb
  rcases List.mem_flatMap.1 hb with ⟨c, -, hc⟩
  split at hc
  · rename_i hkeep
    rw [List.mem_singleton.1 hc]
    exact .inl hkeep
  · have hlt := c.toNat_lt
    have hdigit : ∀ n < 16, lib.keeps (upperHex n) = true := fun n hn =>
      hlib.hexKept _ (by rw [hexValue_upperHex hn]; rfl)
    simp only [percentByte, List.mem_cons, List.not_mem_nil, or_false] at hc
    rcases hc with rfl | rfl | rfl
    · exact .inr rfl
    · exact .inl (hdigit _ (by omega))
    · exact .inl (hdigit _ (by omega))

/-- A segment is no dot segment in any spelling. -/
theorem encodeSegment_not_mem_dotSegments {s : String} (h : s ≠ "." ∧ s ≠ "..") :
    encodeSegment lib s ∉ dotSegments := by
  intro hmem
  have hdecode : percentDecode (encodeSegment lib s) = encode s.toList :=
    percentDecode_percentEncode lib.encodesPercent _
  have hdots : ∀ x ∈ dotSegments, percentDecode x = encode ['.'] ∨
      percentDecode x = encode ['.', '.'] := by
    decide
  have hinj : ∀ x, encode s.toList = encode x → s = String.ofList x := by
    intro x hx
    have hsome := congrArg decodeUtf8? hx
    rw [decodeUtf8?_encode, decodeUtf8?_encode] at hsome
    rw [← Option.some.inj hsome, String.ofList_toList]
  rcases hdots _ hmem with hd | hd
  · exact h.1 (hinj _ (hdecode ▸ hd))
  · exact h.2 (hinj _ (hdecode ▸ hd))

theorem settled_suffix (hlib : lib.Lawful) {m : List UInt8} (hm : Settled lib m)
    {segments : List String} (h : Appendable segments) :
    Settled lib (m ++ suffix lib segments) := by
  constructor
  · intro b hb
    rcases List.mem_append.1 hb with hb | hb
    · exact hm.bytes b hb
    · rcases List.mem_flatMap.1 hb with ⟨s, -, hs⟩
      rcases List.mem_cons.1 hs with rfl | hs
      · exact .inr (.inr rfl)
      · exact (bytes_encodeSegment hlib s b hs).imp_right .inl
  · intro x hx
    cases segments with
    | nil =>
        rw [suffix, List.flatMap_nil, List.append_nil] at hx
        exact hm.segments x hx
    | cons s rest =>
        rw [append_suffix_cons, List.append_assoc, List.singleton_append,
          List.splitOn_append_cons_self, splitOn_append_suffix (slash_not_mem_encodeSegment s)] at hx
        rcases List.mem_append.1 hx with hx | hx
        · exact hm.segments x hx
        · rcases List.mem_map.1 (List.map_cons ▸ hx) with ⟨t, ht, rfl⟩
          exact encodeSegment_not_mem_dotSegments (h.notDot t ht)

theorem settled_mount {path : List UInt8} (h : Settled lib path) : Settled lib (mount path) := by
  rw [mount_eq_beneath, beneath]
  split
  · exact ⟨fun b hb => absurd hb List.not_mem_nil, by simp [dotSegments]⟩
  · rw [withoutSlash]
    split
    · rename_i hlast
      rcases List.eq_nil_or_concat' path with rfl | ⟨p, b, rfl⟩
      · simp at hlast
      · obtain rfl : b = slash := by simpa using hlast
        rw [List.dropLast_concat]
        refine ⟨fun b hb => h.bytes b (List.mem_append_left _ hb), fun x hx => ?_⟩
        refine h.segments x ?_
        rw [List.splitOn_append_cons_self]
        exact List.mem_append_left _ hx
    · exact h

/-- A URL beneath a base: the authority of the base, and the path of the base followed by the
segments. -/
structure Under (lib : UrlLib) (base : Url) (segments : List String) (url : Url) : Prop where
  scheme : url.scheme = base.scheme
  username : url.username = base.username
  host : url.host = base.host
  port : url.port = base.port
  path : url.path = beneath base.path ++ suffix lib segments
  read : routed (beneath base.path) url.path = some segments
  inert : ∀ s ∈ segments, Inert s

/-- The check of a finished URL passes when its authority is the one of the base and its path
has segments appended. -/
theorem pin_of_path {b url : Url} {segments : List String}
    (hscheme : url.scheme = b.scheme) (husername : url.username = b.username)
    (hhost : url.host = b.host) (hport : url.port = b.port)
    (hpath : url.path = mount b.path ++ suffix lib segments) (hne : segments ≠ [])
    (hread : ∃ again, lib.parse (lib.asStr url) = some again ∧ again.path = url.path) :
    pin lib b url = true := by
  rcases hread with ⟨again, hagain, hsame⟩
  obtain ⟨s, rest, rfl⟩ := List.exists_cons_of_ne_nil hne
  have hpre : (b.path.rdropWhile (· = slash) ++ [slash]).isPrefixOf url.path = true := by
    rw [List.isPrefixOf_iff_prefix, hpath]
    exact rdropWhile_slash_prefix b.path _
  rw [pin, hagain, hpre]
  simp [hscheme, husername, hhost, hport, hsame]

/-- Every accepted suffix is appended beneath a base that a path can be appended to, and every
other base is refused. -/
theorem upstreamUrl_of_proxySegments (hlib : lib.Lawful) {base rest : String} {b : Url}
    (hb : lib.parse base = some b) (hfile : b.scheme ≠ "file") {segments : List String}
    (hseg : proxySegments rest = .ok segments) (query : Option String) :
    (b.cannotBeABase = false →
      ∃ url, upstreamUrl lib base rest query = .ok url ∧ Under lib b segments url) ∧
    (b.cannotBeABase = true → upstreamUrl lib base rest query = .error .badBase) := by
  have hunfold : ∀ r, append lib b segments query = r → upstreamUrl lib base rest query =
      r.bind fun url => if pin lib b url then .ok url else .error .escaped := by
    intro r happend
    rw [upstreamUrl, hseg]
    dsimp only
    rw [hb]
    dsimp only
    rw [happend]
    cases r <;> rfl
  constructor
  · intro hbase
    obtain ⟨hsplit, happ⟩ := proxySegments_eq_ok hseg
    have hne : segments ≠ [] := hsplit ▸ splitSlash_ne_nil rest
    let url : Url :=
      { b with
        path := extend lib (popIfEmpty b.path) segments
        query := query.map lib.encodeQuery
        rooted := fun h => rooted_extend (rooted_popIfEmpty (b.rooted h)) segments }
    have happend : append lib b segments query = .ok url := by
      rw [append, if_neg (by simp [hbase])]
    have hpath : url.path = mount b.path ++ suffix lib segments :=
      extend_popIfEmpty (b.rooted hbase) happ hne
    have hsettled : Settled lib url.path := by
      rw [hpath]
      exact settled_suffix hlib (settled_mount (hlib.parsed _ _ hb hbase)) happ
    have hpin : pin lib b url = true :=
      pin_of_path rfl rfl rfl rfl hpath hne (hlib.readBack url hbase hfile hsettled)
    refine ⟨url, ?_, rfl, rfl, rfl, rfl, ?_, ?_, inert_of_proxySegments hseg⟩
    · rw [hunfold _ happend]
      exact if_pos hpin
    · rw [hpath, mount_eq_beneath]
    · rw [hpath, ← mount_eq_beneath]
      exact routed_suffix _ hne
  · intro hbase
    have happend : append lib b segments query = .error .badBase := by
      rw [append, if_pos hbase]
    rw [hunfold _ happend]
    rfl

end lawful

/-! ## The URLs of one host -/

/-- What a path segment keeps of the printable bytes. -/
def segmentKeeps (b : UInt8) : Bool :=
  33 ≤ b && b ≤ 126 && !([34, 35, 37, 47, 60, 62, 63, 92, 96, 123, 125] : List UInt8).contains b

/-- A path without anything for a parser to do. -/
def settledPath (path : List UInt8) : Bool :=
  (path = [] || path.head? = some slash) &&
  (path.all fun b => segmentKeeps b || b = Text.percent || b = slash) &&
  (path.splitOn slash).all fun s => !dotSegments.contains s

def hostText : List Char := "http://host".toList

/-- The URL of a path of the host. -/
def hostPath (path : List UInt8) (h : Rooted path) : Url where
  scheme := "http"
  username := ""
  host := some "host"
  port := none
  path := path
  query := none
  cannotBeABase := false
  rooted := fun _ => h

/-- An address to write to. -/
def mailbox : Url where
  scheme := "mailto"
  username := ""
  host := none
  port := none
  path := encode "team".toList
  query := none
  cannotBeABase := true
  rooted := by simp

def parseHost (s : String) : Option Url :=
  if s = "mailto:team" then some mailbox
  else if hostText <+: s.toList then
    let path := (s.toList.drop 11).map fun c => UInt8.ofNat c.toNat
    if h : settledPath path = true then
      some (hostPath path (by
        simp only [settledPath, Bool.and_eq_true, Bool.or_eq_true, decide_eq_true_eq] at h
        exact h.1.1))
    else none
  else none

/-- The text of a path of the host. -/
def hostAddress (path : List UInt8) : String :=
  String.ofList (hostText ++ path.map fun b => Char.ofNat b.toNat)

/-- A library that knows the URLs of one host. -/
def hostLib : UrlLib where
  parse := parseHost
  asStr url := hostAddress url.path
  encodeQuery := id
  keeps := segmentKeeps
  encodesPercent := rfl
  encodesSlash := rfl

theorem settledPath_iff {path : List UInt8} :
    settledPath path = true ↔ Rooted path ∧ Settled hostLib path := by
  simp only [settledPath, Bool.and_eq_true, Bool.or_eq_true, List.all_eq_true, decide_eq_true_eq,
    Bool.not_eq_true', List.contains_eq_mem, decide_eq_false_iff_not]
  constructor
  · rintro ⟨⟨hroot, hbytes⟩, hsegments⟩
    exact ⟨hroot, fun b hb => or_assoc.1 (hbytes b hb), hsegments⟩
  · rintro ⟨hroot, h⟩
    exact ⟨⟨hroot, fun b hb => or_assoc.2 (h.bytes b hb)⟩, h.segments⟩

theorem parseHost_hostAddress {path : List UInt8} (h : settledPath path = true) :
    hostLib.parse (hostAddress path) = some (hostPath path (settledPath_iff.1 h).1) := by
  have hlist : (hostAddress path).toList =
      hostText ++ path.map fun b => Char.ofNat b.toNat := String.toList_ofList
  have hmail : hostAddress path ≠ "mailto:team" := by
    intro he
    rw [he] at hlist
    exact absurd (List.cons.inj hlist).1 (by decide)
  have hchar : ∀ n < 256, UInt8.ofNat (Char.ofNat n).toNat = UInt8.ofNat n := by decide +kernel
  have hbytes : ((hostAddress path).toList.drop 11).map (fun c => UInt8.ofNat c.toNat) = path := by
    rw [hlist, List.drop_left' (by rfl), List.map_map]
    refine (List.map_congr_left fun b _ => ?_).trans (List.map_id _)
    rw [Function.comp_apply, hchar _ b.toNat_lt, UInt8.ofNat_toNat]
    rfl
  change parseHost (hostAddress path) = _
  unfold parseHost
  rw [if_neg hmail, if_pos (hlist ▸ List.prefix_append _ _)]
  simp only [hbytes, h, dite_true]

theorem lawful_hostLib : hostLib.Lawful where
  hexKept := by
    intro b hb
    have hall : ∀ n < 256, (hexValue (UInt8.ofNat n)).isSome = true →
        segmentKeeps (UInt8.ofNat n) = true := by decide +kernel
    have h := hall b.toNat b.toNat_lt
    rw [UInt8.ofNat_toNat] at h
    exact h hb
  parsed := by
    intro s url h hbase
    change parseHost s = some url at h
    unfold parseHost at h
    split at h
    · cases h
      exact absurd hbase (by decide)
    · split at h
      · dsimp only at h
        split at h
        · rename_i hpath
          cases h
          exact (settledPath_iff.1 hpath).2
        · cases h
      · cases h
  readBack := fun url hbase _ h =>
    ⟨_, parseHost_hostAddress (settledPath_iff.2 ⟨url.rooted hbase, h⟩), rfl⟩

theorem settledPath_engine : settledPath (encode "/engine/".toList) = true := by decide +kernel

theorem upstreamUrl_of_proxySegments_board :
    ∃ url, upstreamUrl hostLib (hostAddress (encode "/engine/".toList)) "v1/a b/" none = .ok url ∧
      Under hostLib (hostPath (encode "/engine/".toList) (settledPath_iff.1 settledPath_engine).1)
        ["v1", "a b", ""] url :=
  (upstreamUrl_of_proxySegments lawful_hostLib (parseHost_hostAddress settledPath_engine)
    (by simp [hostPath]) (by decide +kernel) none).1 rfl

/-- A base whose path is two slashes loses both, and an address to write to is refused. -/
theorem upstreamUrl_two_slashes :
    (∃ b url, hostLib.parse "http://host//" = some b ∧ proxySegments "v1" = .ok ["v1"] ∧
      upstreamUrl hostLib "http://host//" "v1" none = .ok url ∧
      url.path ≠ withoutSlash b.path ++ suffix hostLib ["v1"]) ∧
    hostLib.parse "mailto:team" = some mailbox ∧
      upstreamUrl hostLib "mailto:team" "v1" none = .error .badBase := by
  refine ⟨⟨hostPath [slash, slash] (.inr rfl), hostPath (encode "/v1".toList) (.inr rfl), ?_,
    by decide +kernel, ?_, by decide +kernel⟩, ?_, ?_⟩
  · rfl
  · rfl
  · rfl
  · rfl

end Wheel.ProxyPath
