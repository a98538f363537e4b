import Wheel.Text.Percent
import Mathlib.Data.List.DropRight

/-!
# Upstream URLs of the proxies

A proxy receives a path suffix that was percent-decoded once. `proxySegments` splits
it and refuses what a URL parser could read differently; `upstreamUrl` appends the
segments one at a time beneath a base that names one project, and checks the result
against its base. `routed_of_upstreamUrl` says that a router mounted at the base
reads the very segments that were split.
-/

namespace Wheel.ProxyPath

open Text

inductive ProxyPathError where
  | dotSegment
  | percent
  | forbiddenChar
  | emptySegment
  | badBase
  | escaped
  deriving DecidableEq, Repr

/-! ## Segments -/

/-- A character of the category `Cc`. -/
def isControl (c : Char) : Bool := c.toNat < 32 || (127 ≤ c.toNat && c.toNat < 160)

def splitSlash (rest : String) : List String := (rest.toList.splitOn '/').map String.ofList

/-- Refuse the first segment that a parser could reinterpret. An empty segment is
fine in the last place, where it is a trailing slash. -/
def checkSegments : List String → Except ProxyPathError Unit
  | [] => .ok ()
  | seg :: rest =>
      if seg = "" ∧ rest ≠ [] then .error .emptySegment
      else if seg = "." ∨ seg = ".." then .error .dotSegment
      else if '%' ∈ seg.toList then .error .percent
      else if seg.toList.any fun c => c = '\\' || isControl c then .error .forbiddenChar
      else checkSegments rest

def proxySegments (rest : String) : Except ProxyPathError (List String) :=
  match checkSegments (splitSlash rest) with
  | .error e => .error e
  | .ok () => .ok (splitSlash rest)

/-- The segments that can be appended one by one: none is a dot segment, and none
but the last is empty. -/
structure Appendable (segments : List String) : Prop where
  notDot : ∀ s ∈ segments, s ≠ "." ∧ s ≠ ".."
  notEmpty : ∀ s ∈ segments.dropLast, s ≠ ""

theorem Appendable.tail {s : String} {segments : List String} (h : Appendable (s :: segments)) :
    Appendable segments := by
  constructor
  · exact fun t ht => h.notDot t (List.mem_cons_of_mem _ ht)
  · cases segments with
    | nil => exact fun t ht => absurd ht List.not_mem_nil
    | cons t ts =>
        intro u hu
        apply h.notEmpty u
        rw [List.dropLast_cons_cons]
        exact List.mem_cons_of_mem _ hu

theorem appendable_of_checkSegments {segments : List String}
    (h : checkSegments segments = .ok ()) : Appendable segments := by
  induction segments with
  | nil => exact ⟨fun s hs => absurd hs List.not_mem_nil, fun s hs => absurd hs List.not_mem_nil⟩
  | cons s segments ih =>
      unfold checkSegments at h
      split at h
      · cases h
      rename_i hempty
      split at h
      · cases h
      rename_i hdot
      split at h
      · cases h
      split at h
      · cases h
      have hrest := ih h
      constructor
      · intro t ht
        rcases List.mem_cons.mp ht with rfl | ht
        · exact not_or.mp hdot
        · exact hrest.notDot t ht
      · cases segments with
        | nil => exact fun t ht => absurd ht List.not_mem_nil
        | cons u us =>
            intro t ht
            rw [List.dropLast_cons_cons] at ht
            rcases List.mem_cons.mp ht with rfl | ht
            · exact fun he => hempty ⟨he, List.cons_ne_nil _ _⟩
            · exact hrest.notEmpty t ht

theorem proxySegments_eq_ok {rest : String} {segments : List String}
    (h : proxySegments rest = .ok segments) :
    segments = splitSlash rest ∧ Appendable segments := by
  unfold proxySegments at h
  split at h
  · cases h
  · rename_i hcheck
    cases h
    exact ⟨rfl, appendable_of_checkSegments hcheck⟩

theorem splitSlash_ne_nil (rest : String) : splitSlash rest ≠ [] := by
  rw [splitSlash, ne_eq, List.map_eq_nil_iff]
  exact List.splitOn_ne_nil _ _

/-! ## URLs -/

/-- The byte of `/`. -/
abbrev slash : UInt8 := 47

/-- The path of a hierarchical URL: empty, or it starts with a slash. -/
def Rooted (path : List UInt8) : Prop := path = [] ∨ path.head? = some slash

/-- A URL that is read: what stands before the path, the path and the query. -/
structure Url where
  scheme : String
  username : String
  host : Option String
  port : Option ℕ
  path : List UInt8
  query : Option String
  cannotBeABase : Bool
  rooted : cannotBeABase = false → Rooted path

/-- The library that reads and writes URLs. A path segment that it appends is
percent-encoded like a path, and `%` and `/` are encoded too. -/
structure UrlLib where
  parse : String → Option Url
  asStr : Url → String
  encodeQuery : String → String
  keeps : UInt8 → Bool
  encodesPercent : keeps Text.percent = false
  encodesSlash : keeps slash = false

section Append

variable (lib : UrlLib)

/-- A segment as it stands in the path. -/
def encodeSegment (s : String) : List UInt8 := percentEncode lib.keeps (encode s.toList)

def popIfEmpty (path : List UInt8) : List UInt8 :=
  if 2 ≤ path.length ∧ path.getLast? = some slash then path.dropLast else path

/-- Append one segment; a slash comes before it unless the path is `/`. -/
def push (path : List UInt8) (s : String) : List UInt8 :=
  if s = "." ∨ s = ".." then path
  else (if path.length = 1 then path else path ++ [slash]) ++ encodeSegment lib s

def extend (path : List UInt8) (segments : List String) : List UInt8 :=
  segments.foldl (push lib) path

/-- The path that segments are appended to: `/` counts as empty. -/
def mount (path : List UInt8) : List UInt8 :=
  if popIfEmpty path = [slash] then [] else popIfEmpty path

/-- What the segments add to a path. -/
def suffix (segments : List String) : List UInt8 :=
  segments.flatMap fun s => slash :: encodeSegment lib s

variable {lib}

theorem encodeSegment_ne_nil {s : String} (h : s ≠ "") : encodeSegment lib s ≠ [] := by
  intro hnil
  rcases hs : s.toList with _ | ⟨c, x⟩
  · exact h (String.toList_eq_nil_iff.mp hs)
  · have hdec := congrArg percentDecode hnil
    rw [encodeSegment, percentDecode_percentEncode lib.encodesPercent, hs, encode_cons] at hdec
    have hlen := congrArg List.length hdec
    have hpos : (String.utf8EncodeChar c).length = c.utf8Size := String.length_utf8EncodeChar c
    have := c.utf8Size_pos
    rw [List.length_append, hpos] at hlen
    have : (percentDecode []).length = 0 := rfl
    omega

theorem extend_eq {path : List UInt8} {segments : List String} (h : Appendable segments)
    (hp : path.length ≠ 1) : extend lib path segments = path ++ suffix lib segments := by
  induction segments generalizing path with
  | nil => exact (List.append_nil _).symm
  | cons s segments ih =>
      have hpush : push lib path s = path ++ slash :: encodeSegment lib s := by
        rw [push, if_neg (not_or.mpr (h.notDot s List.mem_cons_self)), if_neg hp,
          List.append_assoc]
        rfl
      change extend lib (push lib path s) segments = path ++ (_ ++ suffix lib segments)
      rw [hpush]
      cases segments with
      | nil =>
          change path ++ (slash :: encodeSegment lib s) = path ++ (_ ++ [])
          rw [List.append_nil]
      | cons t ts =>
          have hs : s ≠ "" := by
            apply h.notEmpty
            rw [List.dropLast_cons_cons]
            exact List.mem_cons_self
          have hlen := List.length_pos_iff.mpr (@encodeSegment_ne_nil lib s hs)
          rw [ih h.tail, List.append_assoc]
          rw [List.length_append, List.length_cons]
          omega

theorem rooted_popIfEmpty {path : List UInt8} (h : Rooted path) : Rooted (popIfEmpty path) := by
  unfold popIfEmpty
  split
  · cases path with
    | nil => exact .inl rfl
    | cons b bs =>
        cases bs with
        | nil => exact .inl rfl
        | cons c cs =>
            rw [List.dropLast_cons_cons]
            exact .inr (h.resolve_left (List.cons_ne_nil _ _))
  · exact h

theorem rooted_extend {path : List UInt8} (h : Rooted path) (segments : List String) :
    Rooted (extend lib path segments) := by
  induction segments generalizing path with
  | nil => exact h
  | cons s segments ih =>
      apply ih
      unfold push
      split
      · exact h
      right
      rcases h with rfl | h
      · rfl
      obtain ⟨b, bs, rfl⟩ := List.exists_cons_of_ne_nil (l := path) (by rintro rfl; cases h)
      split <;> exact h

/-- A rooted path with segments appended is its mount and what they add. -/
theorem extend_popIfEmpty {path : List UInt8} {segments : List String}
    (hroot : Rooted path) (h : Appendable segments) (hne : segments ≠ []) :
    extend lib (popIfEmpty path) segments = mount path ++ suffix lib segments := by
  by_cases hone : popIfEmpty path = [slash]
  · obtain ⟨s, rest, rfl⟩ := List.exists_cons_of_ne_nil hne
    rw [mount, if_pos hone, hone, ← extend_eq h (by decide)]
    change extend lib (push lib [slash] s) rest = extend lib (push lib [] s) rest
    rw [push, push, if_neg (not_or.mpr (h.notDot s List.mem_cons_self)),
      if_neg (not_or.mpr (h.notDot s List.mem_cons_self))]
    rfl
  · rw [mount, if_neg hone]
    apply extend_eq h
    intro hlen
    apply hone
    obtain ⟨b, hb⟩ := List.length_eq_one_iff.mp hlen
    rcases rooted_popIfEmpty hroot with hp | hp
    · rw [hp] at hlen
      cases hlen
    · rw [hb] at hp ⊢
      exact congrArg (fun x => [x]) (Option.some.inj hp)

end Append

/-- `path_segments_mut`, an empty last segment popped, extended by the segments, and
the query set. -/
def append (lib : UrlLib) (base : Url) (segments : List String) (query : Option String) :
    Except ProxyPathError Url :=
  if base.cannotBeABase then .error .badBase
  else .ok { base with
    path := extend lib (popIfEmpty base.path) segments
    query := query.map lib.encodeQuery
    rooted := fun h => rooted_extend (rooted_popIfEmpty (base.rooted h)) segments }

/-- The finished URL keeps the base's scheme and authority, is beneath its path, and
reads back with the same path. -/
def pin (lib : UrlLib) (base url : Url) : Bool :=
  (url.scheme = base.scheme && url.username = base.username && url.host = base.host &&
    url.port = base.port) &&
  ((lib.parse (lib.asStr url)).any fun again => again.path = url.path) &&
  (base.path.rdropWhile (· = slash) ++ [slash]).isPrefixOf url.path

def upstreamUrl (lib : UrlLib) (base rest : String) (query : Option String) :
    Except ProxyPathError Url :=
  match proxySegments rest with
  | .error e => .error e
  | .ok segments =>
      match lib.parse base with
      | none => .error .badBase
      | some base =>
          match append lib base segments query with
          | .error e => .error e
          | .ok url => if pin lib base url then .ok url else .error .escaped

/-! ## What the next hop reads -/

/-- The text of percent-encoded bytes. -/
def decodeSegment (s : List UInt8) : Option String :=
  (decodeUtf8? (percentDecode s)).map String.ofList

/-- The segments that a router mounted at a path reads, each percent-decoded once. -/
def routed (mount path : List UInt8) : Option (List String) :=
  if (mount ++ [slash]).isPrefixOf path then
    ((path.drop (mount.length + 1)).splitOn slash).mapM decodeSegment
  else none

section Routed

variable {lib : UrlLib}

theorem decodeSegment_encodeSegment (s : String) :
    decodeSegment (encodeSegment lib s) = some s := by
  rw [decodeSegment, encodeSegment, percentDecode_percentEncode lib.encodesPercent,
    decodeUtf8?_encode, Option.map_some, String.ofList_toList]

theorem slash_not_mem_encodeSegment (s : String) : slash ∉ encodeSegment lib s :=
  not_mem_percentEncode lib.encodesSlash (by decide) (by decide) _

theorem splitOn_append_suffix {x : List UInt8} (hx : slash ∉ x) (segments : List String) :
    (x ++ suffix lib segments).splitOn slash = x :: segments.map (encodeSegment lib) := by
  induction segments generalizing x with
  | nil =>
      change (x ++ []).splitOn slash = [x]
      rw [List.append_nil]
      exact List.splitOn_eq_singleton hx
  | cons s segments ih =>
      change (x ++ slash :: (encodeSegment lib s ++ suffix lib segments)).splitOn slash = _
      rw [List.splitOn_append_cons_self, List.splitOn_eq_singleton hx,
        ih (slash_not_mem_encodeSegment s)]
      rfl

theorem append_suffix_cons (m : List UInt8) (s : String) (segments : List String) :
    m ++ suffix lib (s :: segments) =
      (m ++ [slash]) ++ (encodeSegment lib s ++ suffix lib segments) := by
  rw [List.append_assoc]
  rfl

theorem drop_append_suffix (m : List UInt8) (s : String) (segments : List String) :
    (m ++ suffix lib (s :: segments)).drop (m.length + 1) =
      encodeSegment lib s ++ suffix lib segments := by
  rw [append_suffix_cons]
  exact List.drop_left' (by rw [List.length_append]; rfl)

/-- A router mounted where segments were appended reads these segments. -/
theorem routed_suffix (m : List UInt8) {segments : List String} (hne : segments ≠ []) :
    routed m (m ++ suffix lib segments) = some segments := by
  obtain ⟨s, rest, rfl⟩ := List.exists_cons_of_ne_nil hne
  have hmap (l : List String) : (l.map (encodeSegment lib)).mapM decodeSegment = some l := by
    induction l with
    | nil => rfl
    | cons t l ih =>
        rw [List.map_cons, List.mapM_cons, decodeSegment_encodeSegment, ih]
        rfl
  rw [routed, drop_append_suffix, splitOn_append_suffix (slash_not_mem_encodeSegment s), if_pos]
  · exact hmap (s :: rest)
  · rw [append_suffix_cons, List.isPrefixOf_iff_prefix]
    exact List.prefix_append _ _

theorem percentDecode_append_suffix (s : String) (segments : List String) :
    percentDecode (encodeSegment lib s ++ suffix lib segments) =
      encode (['/'].intercalate ((s :: segments).map String.toList)) := by
  rw [encodeSegment, percentDecode_percentEncode_append lib.encodesPercent]
  induction segments generalizing s with
  | nil =>
      change encode s.toList ++ [] = _
      rw [List.append_nil, List.map_singleton, List.intercalate_singleton]
  | cons t segments ih =>
      change encode s.toList ++
        percentDecode (slash :: (encodeSegment lib t ++ suffix lib segments)) = _
      rw [percentDecode_cons_of_ne (by decide), encodeSegment,
        percentDecode_percentEncode_append lib.encodesPercent, ih]
      simp only [List.map_cons, List.intercalate_cons_cons, encode, List.flatMap_append,
        List.append_assoc]
      rfl

theorem path_of_upstreamUrl {base rest : String} {query : Option String} {url : Url}
    (h : upstreamUrl lib base rest query = .ok url) :
    ∃ b segments, lib.parse base = some b ∧ proxySegments rest = .ok segments ∧
      segments ≠ [] ∧ url.path = mount b.path ++ suffix lib segments := by
  unfold upstreamUrl at h
  split at h
  · cases h
  rename_i segments hseg
  split at h
  · cases h
  rename_i b hb
  split at h
  · cases h
  rename_i u hu
  split at h
  · cases h
    unfold append at hu
    split at hu
    · cases hu
    rename_i hbase
    cases hu
    obtain ⟨hsplit, happ⟩ := proxySegments_eq_ok hseg
    have hne : segments ≠ [] := hsplit ▸ splitSlash_ne_nil rest
    exact ⟨b, segments, hb, hseg, hne,
      extend_popIfEmpty (b.rooted (Bool.eq_false_iff.mpr hbase)) happ hne⟩
  · cases h

/-- The router mounted at the base reads from the finished URL the segments that the
suffix was split into. -/
theorem routed_of_upstreamUrl {base rest : String} {query : Option String} {url : Url}
    (h : upstreamUrl lib base rest query = .ok url) :
    ∃ b segments, lib.parse base = some b ∧ proxySegments rest = .ok segments ∧
      routed (mount b.path) url.path = some segments := by
  obtain ⟨b, segments, hb, hseg, hne, hpath⟩ := path_of_upstreamUrl h
  refine ⟨b, segments, hb, hseg, ?_⟩
  rw [hpath]
  exact routed_suffix _ hne

/-- A proxy mounted at the base decodes from the finished URL the suffix it was given,
so what it splits and forwards is split alike. -/
theorem decodeSegment_of_upstreamUrl {base rest : String} {query : Option String} {url : Url}
    (h : upstreamUrl lib base rest query = .ok url) :
    ∃ b, lib.parse base = some b ∧
      decodeSegment (url.path.drop ((mount b.path).length + 1)) = some rest := by
  obtain ⟨b, segments, hb, hseg, hne, hpath⟩ := path_of_upstreamUrl h
  refine ⟨b, hb, ?_⟩
  obtain ⟨hsplit, -⟩ := proxySegments_eq_ok hseg
  have htext : ['/'].intercalate (segments.map String.toList) = rest.toList := by
    rw [hsplit, splitSlash, List.map_map]
    have hid : String.toList ∘ String.ofList = id := funext fun x => String.toList_ofList
    rw [hid, List.map_id, List.intercalate_splitOn]
  obtain ⟨s, l, rfl⟩ := List.exists_cons_of_ne_nil hne
  rw [hpath, drop_append_suffix, decodeSegment, percentDecode_append_suffix, htext,
    decodeUtf8?_encode, Option.map_some, String.ofList_toList]

end Routed

end Wheel.ProxyPath
