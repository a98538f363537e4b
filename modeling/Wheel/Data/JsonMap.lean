import Mathlib
import Wheel.Data.MergePatch

/-!
# A function over the texts of a JSON value

`mapJsonStringsAndKeys f` applies `f` to every string of a value and to every name of a member.
The members of an object are collected to a map again, where of two members with one name
the later stays. So the value keeps its shape and all of its members exactly when `f`
keeps the names of each object apart (`keeps_mapJsonStringsAndKeys_iff`).
-/

namespace Wheel

namespace Json

/-! ## Collecting members -/

/-- The map a sequence of members collects to. -/
def collect (m : Members) : Members := m.foldl (fun acc e => insertMember e.1 e.2 acc) []

section Collect

variable {m acc : Members} {k : String}

theorem lookup_foldl_insertMember_eq_none_iff :
    lookup (m.foldl (fun acc e => insertMember e.1 e.2 acc) acc) k = none ↔
      lookup acc k = none ∧ lookup m k = none := by
  induction m generalizing acc with
  | nil => simp
  | cons e m ih =>
      rw [List.foldl_cons, ih, lookup_insertMember, lookup_cons]
      by_cases hk : e.1 = k
      · simp [hk]
      · simp [hk]

/-- Members with different names are all collected. -/
theorem lookup_foldl_insertMember (hm : m.Pairwise fun d e => d.1 ≠ e.1) :
    lookup (m.foldl (fun acc e => insertMember e.1 e.2 acc) acc) k =
      (lookup m k).or (lookup acc k) := by
  induction m generalizing acc with
  | nil => rfl
  | cons e m ih =>
      obtain ⟨hhead, htail⟩ := List.pairwise_cons.mp hm
      rw [List.foldl_cons, ih htail, lookup_insertMember, lookup_cons]
      by_cases hk : e.1 = k
      · have hnone : lookup m k = none := by
          rw [lookup_eq_none_iff]
          intro d hd hdk
          exact hhead d hd (hk.trans hdk.symm)
        rw [if_pos hk, if_pos hk, hnone]
        rfl
      · rw [if_neg hk, if_neg hk]

theorem lookup_collect (hm : m.Pairwise fun d e => d.1 ≠ e.1) (k : String) :
    lookup (collect m) k = lookup m k := by
  rw [collect, lookup_foldl_insertMember hm, lookup_nil, Option.or_none]

theorem ascending_foldl_insertMember (h : Ascending acc) (m : Members) :
    Ascending (m.foldl (fun acc e => insertMember e.1 e.2 acc) acc) := by
  induction m generalizing acc with
  | nil => exact h
  | cons e m ih => exact ih (ascending_insertMember h e.1 e.2)

theorem ascending_collect (m : Members) : Ascending (collect m) :=
  ascending_foldl_insertMember List.Pairwise.nil m

theorem mem_names_iff : k ∈ m.map Prod.fst ↔ lookup m k ≠ none := by
  rw [Ne, lookup_eq_none_iff, List.mem_map]
  push Not
  rfl

/-- The names that are collected, each once. -/
theorem names_collect (m : Members) :
    ((collect m).map Prod.fst).toFinset = (m.map Prod.fst).toFinset := by
  ext k
  rw [List.mem_toFinset, List.mem_toFinset, mem_names_iff, mem_names_iff, not_iff_not, collect,
    lookup_foldl_insertMember_eq_none_iff, lookup_nil]
  exact and_iff_right rfl

/-- No member is lost exactly when the names are different. -/
theorem length_collect_iff (m : Members) :
    (collect m).length = m.length ↔ m.Pairwise fun d e => d.1 ≠ e.1 := by
  have hcard : (collect m).length = (m.map Prod.fst).toFinset.card := by
    rw [← names_collect, List.toFinset_card_of_nodup (ascending_collect m).nodup, List.length_map]
  have hnodup : (m.map Prod.fst).toFinset.card = (m.map Prod.fst).length ↔
      (m.map Prod.fst).Nodup := Multiset.toFinset_card_eq_card_iff_nodup
  rw [List.length_map] at hnodup
  rw [hcard, hnodup]
  exact List.pairwise_map

theorem mem_of_mem_foldl_insertMember {e : String × Json}
    (h : e ∈ m.foldl (fun acc e => insertMember e.1 e.2 acc) acc) : e ∈ acc ∨ e ∈ m := by
  induction m generalizing acc with
  | nil => exact .inl h
  | cons d m ih =>
      rcases ih h with h | h
      · rcases mem_insertMember h with rfl | h
        · exact .inr List.mem_cons_self
        · exact .inl h
      · exact .inr (List.mem_cons_of_mem _ h)

theorem mem_of_mem_collect {e : String × Json} (h : e ∈ collect m) : e ∈ m :=
  (mem_of_mem_foldl_insertMember h).resolve_left List.not_mem_nil

/-- Of members with different names each is found. -/
theorem lookup_of_mem_of_pairwise (hm : m.Pairwise fun d e => d.1 ≠ e.1) {e : String × Json}
    (he : e ∈ m) : lookup m e.1 = some e.2 := by
  induction m with
  | nil => cases he
  | cons d m ih =>
      obtain ⟨hhead, htail⟩ := List.pairwise_cons.mp hm
      rw [lookup_cons]
      rcases List.mem_cons.mp he with rfl | he
      · rw [if_pos rfl]
      · rw [if_neg (hhead e he), ih htail he]

end Collect

/-! ## The map -/

mutual

/-- Apply `f` to every string and every name in the value. -/
def mapJsonStringsAndKeys (f : String → String) : Json → Json
  | str s => str (f s)
  | arr x => arr (mapItems f x)
  | obj m => obj (collect (mapMembers f m))
  | v => v

def mapItems (f : String → String) : List Json → List Json
  | [] => []
  | v :: x => mapJsonStringsAndKeys f v :: mapItems f x

def mapMembers (f : String → String) : List (String × Json) → List (String × Json)
  | [] => []
  | (k, v) :: m => (f k, mapJsonStringsAndKeys f v) :: mapMembers f m

end

/-! ## What is kept -/

mutual

/-- `w` has the shape of `v`: its arrays are as long, its objects have as many members, and
each string and each member, under its new name, is there. -/
def Keeps (f : String → String) : Json → Json → Prop
  | str s, w => w = str (f s)
  | arr x, w => ∃ y, w = arr y ∧ KeepsItems f x y
  | obj m, w => ∃ n, w = obj n ∧ n.length = m.length ∧ KeepsMembers f m n
  | v, w => w = v
termination_by structural v => v

def KeepsItems (f : String → String) : List Json → List Json → Prop
  | [], y => y = []
  | v :: x, y => ∃ w z, y = w :: z ∧ Keeps f v w ∧ KeepsItems f x z
termination_by structural x => x

def KeepsMembers (f : String → String) : List (String × Json) → Members → Prop
  | [], _ => True
  | (k, v) :: m, n => (∃ w, lookup n (f k) = some w ∧ Keeps f v w) ∧ KeepsMembers f m n
termination_by structural m => m

end

mutual

/-- In every object of the value, `g` tells the names of the members apart. -/
def Apart {β : Type*} (g : String → β) : Json → Prop
  | arr x => ApartItems g x
  | obj m => (m.Pairwise fun d e => g d.1 ≠ g e.1) ∧ ApartMembers g m
  | _ => True

def ApartItems {β : Type*} (g : String → β) : List Json → Prop
  | [] => True
  | v :: x => Apart g v ∧ ApartItems g x

def ApartMembers {β : Type*} (g : String → β) : List (String × Json) → Prop
  | [] => True
  | (_, v) :: m => Apart g v ∧ ApartMembers g m

end

mutual

/-- Every string and every name in the value meets `p`. -/
def AllTexts (p : String → Prop) : Json → Prop
  | str s => p s
  | arr x => AllTextsItems p x
  | obj m => AllTextsMembers p m
  | _ => True

def AllTextsItems (p : String → Prop) : List Json → Prop
  | [] => True
  | v :: x => AllTexts p v ∧ AllTextsItems p x

def AllTextsMembers (p : String → Prop) : List (String × Json) → Prop
  | [] => True
  | (k, v) :: m => (p k ∧ AllTexts p v) ∧ AllTextsMembers p m

end

theorem mapMembers_eq_map (f : String → String) (m : Members) :
    mapMembers f m = m.map fun e => (f e.1, mapJsonStringsAndKeys f e.2) := by
  induction m with
  | nil => rfl
  | cons e m ih => rw [mapMembers, ih, List.map_cons]

theorem pairwise_mapMembers_iff (f : String → String) (m : Members) :
    ((mapMembers f m).Pairwise fun d e => d.1 ≠ e.1) ↔ m.Pairwise fun d e => f d.1 ≠ f e.1 := by
  rw [mapMembers_eq_map, List.pairwise_map]

/-- Every member is there under its new name exactly when each was kept. -/
theorem keepsMembers_of_lookup {f : String → String} {m n : Members}
    (h : ∀ e ∈ mapMembers f m, lookup n e.1 = some e.2) :
    KeepsMembers f m n ↔ ∀ e ∈ m, Keeps f e.2 (mapJsonStringsAndKeys f e.2) := by
  induction m with
  | nil => exact ⟨fun _ e he => (List.not_mem_nil he).elim, fun _ => trivial⟩
  | cons e m ih =>
      rw [mapMembers, List.forall_mem_cons] at h
      rw [KeepsMembers, ih h.2, List.forall_mem_cons, h.1]
      refine and_congr_left fun _ => ⟨?_, fun hk => ⟨_, rfl, hk⟩⟩
      rintro ⟨w, hw, hk⟩
      obtain rfl := Option.some.inj hw
      exact hk

theorem apartMembers_iff {β : Type*} {g : String → β} {m : Members} :
    ApartMembers g m ↔ ∀ e ∈ m, Apart g e.2 := by
  induction m with
  | nil => exact ⟨fun _ e he => (List.not_mem_nil he).elim, fun _ => trivial⟩
  | cons e m ih => rw [ApartMembers, ih, List.forall_mem_cons]

theorem keeps_obj_iff (f : String → String) (m : Members) :
    Keeps f (obj m) (mapJsonStringsAndKeys f (obj m)) ↔
      (m.Pairwise fun d e => f d.1 ≠ f e.1) ∧
        ∀ e ∈ m, Keeps f e.2 (mapJsonStringsAndKeys f e.2) := by
  have hlength : (collect (mapMembers f m)).length = m.length ↔
      m.Pairwise fun d e => f d.1 ≠ f e.1 := by
    rw [← pairwise_mapMembers_iff, ← length_collect_iff, mapMembers_eq_map, List.length_map]
  have hlookup (h : m.Pairwise fun d e => f d.1 ≠ f e.1) :
      ∀ e ∈ mapMembers f m, lookup (collect (mapMembers f m)) e.1 = some e.2 := by
    intro e he
    have hpair := (pairwise_mapMembers_iff f m).mpr h
    rw [lookup_collect hpair, lookup_of_mem_of_pairwise hpair he]
  rw [Keeps, mapJsonStringsAndKeys]
  constructor
  · rintro ⟨n, hn, hlen, hmem⟩
    obtain rfl := Json.obj.inj hn
    have hpair := hlength.mp hlen
    exact ⟨hpair, (keepsMembers_of_lookup (hlookup hpair)).mp hmem⟩
  · rintro ⟨hpair, hmem⟩
    exact ⟨_, rfl, hlength.mpr hpair, (keepsMembers_of_lookup (hlookup hpair)).mpr hmem⟩

theorem keepsItems_iff (f : String → String) (x : List Json) :
    KeepsItems f x (mapItems f x) ↔ ∀ v ∈ x, Keeps f v (mapJsonStringsAndKeys f v) := by
  induction x with
  | nil => exact ⟨fun _ v hv => (List.not_mem_nil hv).elim, fun _ => rfl⟩
  | cons v x ih =>
      rw [KeepsItems, mapItems, List.forall_mem_cons, ← ih]
      constructor
      · rintro ⟨w, z, hwz, hw, hz⟩
        obtain ⟨rfl, rfl⟩ := List.cons.inj hwz
        exact ⟨hw, hz⟩
      · exact fun h => ⟨_, _, rfl, h.1, h.2⟩

theorem apartItems_iff {β : Type*} {g : String → β} {x : List Json} :
    ApartItems g x ↔ ∀ v ∈ x, Apart g v := by
  induction x with
  | nil => exact ⟨fun _ v hv => (List.not_mem_nil hv).elim, fun _ => trivial⟩
  | cons v x ih => rw [ApartItems, ih, List.forall_mem_cons]

mutual

/-- A value keeps its shape and its members exactly when the names of each object are told
apart by what tells their images apart. -/
theorem keeps_mapJsonStringsAndKeys_iff {β : Type*} {f : String → String} {g : String → β}
    (h : ∀ s t, f s = f t ↔ g s = g t) :
    ∀ v, Keeps f v (mapJsonStringsAndKeys f v) ↔ Apart g v
  | null => by simp [Keeps, mapJsonStringsAndKeys, Apart]
  | bool _ => by simp [Keeps, mapJsonStringsAndKeys, Apart]
  | int _ => by simp [Keeps, mapJsonStringsAndKeys, Apart]
  | float _ => by simp [Keeps, mapJsonStringsAndKeys, Apart]
  | str _ => by simp [Keeps, mapJsonStringsAndKeys, Apart]
  | arr x => by
      rw [Apart, apartItems_iff, Keeps, mapJsonStringsAndKeys]
      simp only [Json.arr.injEq, exists_eq_left']
      rw [keepsItems_iff]
      exact keepsEach_iff h x
  | obj m => by
      rw [keeps_obj_iff, Apart, apartMembers_iff]
      simp only [ne_eq, h]
      exact and_congr_right fun _ => keepsMember_iff h m

theorem keepsEach_iff {β : Type*} {f : String → String} {g : String → β}
    (h : ∀ s t, f s = f t ↔ g s = g t) :
    ∀ x : List Json, (∀ v ∈ x, Keeps f v (mapJsonStringsAndKeys f v)) ↔ ∀ v ∈ x, Apart g v
  | [] => by simp
  | v :: x => by
      rw [List.forall_mem_cons, List.forall_mem_cons, keeps_mapJsonStringsAndKeys_iff h v,
        keepsEach_iff h x]

theorem keepsMember_iff {β : Type*} {f : String → String} {g : String → β}
    (h : ∀ s t, f s = f t ↔ g s = g t) :
    ∀ m : List (String × Json),
      (∀ e ∈ m, Keeps f e.2 (mapJsonStringsAndKeys f e.2)) ↔ ∀ e ∈ m, Apart g e.2
  | [] => by simp
  | (k, v) :: m => by
      rw [List.forall_mem_cons, List.forall_mem_cons, keeps_mapJsonStringsAndKeys_iff h v,
        keepsMember_iff h m]

end

theorem allTextsMembers_iff {p : String → Prop} {m : Members} :
    AllTextsMembers p m ↔ ∀ e ∈ m, p e.1 ∧ AllTexts p e.2 := by
  induction m with
  | nil => exact ⟨fun _ e he => (List.not_mem_nil he).elim, fun _ => trivial⟩
  | cons e m ih => rw [AllTextsMembers, ih, List.forall_mem_cons]

mutual

/-- What `f` answers is all the text there is in the result. -/
theorem allTexts_mapJsonStringsAndKeys {f : String → String} {p : String → Prop}
    (h : ∀ s, p (f s)) : ∀ v, AllTexts p (mapJsonStringsAndKeys f v)
  | null => trivial
  | bool _ => trivial
  | int _ => trivial
  | float _ => trivial
  | str s => h s
  | arr x => allTexts_mapItems h x
  | obj m => by
      rw [mapJsonStringsAndKeys, AllTexts, allTextsMembers_iff]
      exact fun e he => allTexts_mapMembers h m e (mem_of_mem_collect he)

theorem allTexts_mapItems {f : String → String} {p : String → Prop} (h : ∀ s, p (f s)) :
    ∀ x, AllTextsItems p (mapItems f x)
  | [] => trivial
  | v :: x => ⟨allTexts_mapJsonStringsAndKeys h v, allTexts_mapItems h x⟩

theorem allTexts_mapMembers {f : String → String} {p : String → Prop} (h : ∀ s, p (f s)) :
    ∀ m : List (String × Json), ∀ e ∈ mapMembers f m, p e.1 ∧ AllTexts p e.2
  | [] => fun e he => (List.not_mem_nil he).elim
  | (k, v) :: m => by
      rw [mapMembers, List.forall_mem_cons]
      exact ⟨⟨h k, allTexts_mapJsonStringsAndKeys h v⟩, allTexts_mapMembers h m⟩

end

end Json

end Wheel
