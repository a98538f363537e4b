import Wheel.Text.Replace

/-!
# Templates

A template is literal text with placeholders, names in braces. Replacing the placeholder of
one name by a text without an opening brace fills the holes of that name and leaves the rest
of the template as it is (`replaceBy_render`), so that filling one name after the other puts
into each hole what came first (`foldl_replaceBy_render`).
-/

namespace Text

/-- A part of a template, over elements seen as characters. -/
inductive Piece (α : Type*) where
  | lit (x : List α)
  | hole (name : List Char)

variable {α : Type*}

/-- The text of a name in braces. -/
def braced (name : List Char) : List Char := '\x7b' :: (name ++ ['\x7d'])

/-- The elements of a part; the braces and the names are `mark`ed. -/
def Piece.render (mark : Char → α) : Piece α → List α
  | .lit x => x
  | .hole name => (braced name).map mark

def render (mark : Char → α) (ps : List (Piece α)) : List α := ps.flatMap (Piece.render mark)

/-- A name has no brace. -/
def IsName (name : List Char) : Prop := '\x7b' ∉ name ∧ '\x7d' ∉ name

/-- Literal text opens no brace, and what is between braces is a name. -/
def Piece.WellFormed (key : α → Char) : Piece α → Prop
  | .lit x => ∀ c ∈ x, key c ≠ '\x7b'
  | .hole name => IsName name

/-- Fill the holes of a name. -/
def Piece.fill (name : List Char) (new : List α) : Piece α → Piece α
  | .lit x => .lit x
  | .hole n => if n = name then .lit new else .hole n

/-- What a list of names and texts puts into a hole. -/
def Piece.fillFirst (values : List (List Char × List α)) : Piece α → Piece α
  | .lit x => .lit x
  | .hole n =>
      match values.find? fun v => v.1 = n with
      | some v => .lit v.2
      | none => .hole n

theorem Piece.fill_hole (name n : List Char) (new : List α) :
    (Piece.hole n).fill name new = if n = name then .lit new else .hole n := rfl

theorem Piece.fillFirst_hole (values : List (List Char × List α)) (n : List Char) :
    (Piece.hole n).fillFirst values =
      match values.find? fun v => v.1 = n with
      | some v => .lit v.2
      | none => .hole n := rfl

section Fill

variable {key : α → Char} {mark : Char → α} {name : List Char} {new : List α}

theorem braced_ne_nil (name : List Char) : braced name ≠ [] := List.cons_ne_nil _ _

/-- Behind an opening brace stands one name. -/
theorem eq_of_prefix_braced {n rest : List Char} (hn : IsName n) (hname : IsName name)
    (h : braced name <+: braced n ++ rest) : name = n := by
  obtain ⟨t, ht⟩ := h
  unfold braced at ht
  simp only [List.cons_append, List.append_assoc, List.cons.injEq, true_and] at ht
  rcases List.append_eq_append_iff.mp ht with ⟨s, hs, hs'⟩ | ⟨s, hs, hs'⟩
  · cases s with
    | nil => rw [hs, List.append_nil]
    | cons c s =>
        obtain ⟨rfl, -⟩ := List.cons.inj hs'
        exact absurd (hs ▸ List.mem_append_right name List.mem_cons_self) hn.2
  · cases s with
    | nil => rw [hs, List.append_nil]
    | cons c s =>
        obtain ⟨rfl, -⟩ := List.cons.inj hs'
        exact absurd (hs ▸ List.mem_append_right n List.mem_cons_self) hname.2

variable (hmark : ∀ c, key (mark c) = c)
include hmark

theorem map_mark (x : List Char) : (x.map mark).map key = x := by
  rw [List.map_map]
  exact (List.map_congr_left fun c _ => hmark c).trans (List.map_id x)

theorem replaceBy_braced {n : List Char} (hn : IsName n) (hname : IsName name) (rest : List α) :
    replaceBy key (braced name) new ((braced n).map mark ++ rest) =
      (if n = name then new else (braced n).map mark) ++ replaceBy key (braced name) new rest := by
  split
  · rename_i h
    exact replaceBy_of_start (braced_ne_nil name) (by rw [map_mark hmark, h])
  · rename_i h
    have hnot : ¬ braced name <+: ((braced n).map mark ++ rest).map key := by
      rw [List.map_append, map_mark hmark]
      exact fun hp => h (eq_of_prefix_braced hn hname hp).symm
    have htail : ∀ c ∈ (n ++ ['\x7d']).map mark, key c ≠ '\x7b' := by
      intro c hc
      obtain ⟨d, hd, rfl⟩ := List.mem_map.mp hc
      rw [hmark]
      rcases List.mem_append.mp hd with hd | hd
      · exact ne_of_mem_of_not_mem hd hn.1
      · rw [List.mem_singleton.mp hd]
        decide
    unfold braced at hnot ⊢
    rw [List.map_cons, List.cons_append] at hnot ⊢
    rw [replaceBy_cons_of_not_start hnot, replaceBy_append_of_head htail, List.cons_append]

/-- A replacement fills the holes of its name. -/
theorem replaceBy_render (hname : IsName name) (ps : List (Piece α))
    (hps : ∀ p ∈ ps, p.WellFormed key) :
    replaceBy key (braced name) new (render mark ps) =
      render mark (ps.map (Piece.fill name new)) := by
  induction ps with
  | nil => rfl
  | cons p ps ih =>
      have hrest := ih fun q hq => hps q (List.mem_cons_of_mem _ hq)
      have hp := hps p List.mem_cons_self
      unfold render at hrest ⊢
      rw [List.flatMap_cons, List.map_cons, List.flatMap_cons, ← hrest]
      cases p with
      | lit x => exact replaceBy_append_of_head hp _
      | hole n =>
          refine (replaceBy_braced hmark hp hname _).trans ?_
          rw [Piece.fill_hole]
          split <;> rfl

omit hmark in
theorem wellFormed_fill (hnew : ∀ c ∈ new, key c ≠ '\x7b') {p : Piece α}
    (hp : p.WellFormed key) : (p.fill name new).WellFormed key := by
  cases p with
  | lit x => exact hp
  | hole n =>
      rw [Piece.fill_hole]
      split
      · exact hnew
      · exact hp

omit hmark in
theorem fillFirst_fill (values : List (List Char × List α)) (v : List Char × List α)
    (p : Piece α) : (p.fill v.1 v.2).fillFirst values = p.fillFirst (v :: values) := by
  cases p with
  | lit x => rfl
  | hole n =>
      rw [Piece.fill_hole, Piece.fillFirst_hole]
      by_cases h : n = v.1
      · rw [if_pos h, List.find?_cons_of_pos (by simpa using h.symm)]
        rfl
      · rw [if_neg h, List.find?_cons_of_neg (by simpa using Ne.symm h)]
        rfl

/-- One name after the other: each hole keeps what was put into it first. -/
theorem foldl_replaceBy_render {values : List (List Char × List α)}
    (hvalues : ∀ v ∈ values, IsName v.1 ∧ ∀ c ∈ v.2, key c ≠ '\x7b') (ps : List (Piece α))
    (hps : ∀ p ∈ ps, p.WellFormed key) :
    values.foldl (fun x v => replaceBy key (braced v.1) v.2 x) (render mark ps) =
      render mark (ps.map (Piece.fillFirst values)) := by
  induction values generalizing ps with
  | nil =>
      have hid : ∀ p : Piece α, p.fillFirst [] = p := fun p => by cases p <;> rfl
      rw [List.foldl_nil, List.map_congr_left fun p _ => hid p, List.map_id']
  | cons v values ih =>
      obtain ⟨⟨hname, hnew⟩, hrest⟩ := List.forall_mem_cons.mp hvalues
      rw [List.foldl_cons, replaceBy_render hmark hname ps hps, ih hrest]
      · rw [List.map_map]
        refine congrArg _ (List.map_congr_left fun p _ => fillFirst_fill values v p)
      · intro p hp
        obtain ⟨q, hq, rfl⟩ := List.mem_map.mp hp
        exact wellFormed_fill hnew (hps q hq)

end Fill

/-- The same part over other elements. -/
def Piece.mapLit {β : Type*} (f : α → β) : Piece α → Piece β
  | .lit x => .lit (x.map f)
  | .hole name => .hole name

theorem map_render (mark : Char → α) (ps : List (Piece Char)) :
    (render id ps).map mark = render mark (ps.map (Piece.mapLit mark)) := by
  unfold render
  rw [List.map_flatMap, List.flatMap_map]
  refine congrArg (fun f => ps.flatMap f) (funext fun p => ?_)
  cases p with
  | lit x => rfl
  | hole name => exact congrArg (List.map mark) (List.map_id _)

theorem wellFormed_mapLit {key : α → Char} {mark : Char → α} (hmark : ∀ c, key (mark c) = c)
    {p : Piece Char} (h : p.WellFormed id) : (p.mapLit mark).WellFormed key := by
  cases p with
  | lit x =>
      intro c hc
      obtain ⟨d, hd, rfl⟩ := List.mem_map.mp hc
      rw [hmark]
      exact h d hd
  | hole name => exact h

end Text
