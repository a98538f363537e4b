import Wheel.Data.Calendar

/-!
# Timestamps as text

An instant, in nanoseconds from the beginning of the year 0, is written with its date, its
time of day and the digits of its fraction of a second, of which zeros at the end are left
out. Two texts are in the order of their instants unless the instants are in one second and
the digits of one begin with those of the other (`rfc3339_lt_iff`).
-/

namespace Text

open Calendar

def digit (n : ℕ) : Char := Char.ofNat (48 + n)

/-- The last digits of a number, with leading zeros. -/
def padded : ℕ → ℕ → List Char
  | 0, _ => []
  | w + 1, n => padded w (n / 10) ++ [digit (n % 10)]

/-- The date and the time of day of a second. -/
def dateTime (second : ℕ) : List Char :=
  let day := second / 86400
  padded 4 (yearOf day) ++ '-' :: (padded 2 (monthOf day) ++ '-' :: (padded 2 (dayOf day) ++
    'T' :: (padded 2 (second % 86400 / 3600) ++ ':' :: (padded 2 (second % 3600 / 60) ++
      ':' :: padded 2 (second % 60)))))

/-- The digits of a fraction of a second, without the zeros at the end. -/
def fractionDigits (nanosecond : ℕ) : List Char := (padded 9 nanosecond).rdropWhile (· = '0')

def fraction (nanosecond : ℕ) : List Char :=
  if nanosecond = 0 then [] else '.' :: fractionDigits nanosecond

/-- The text of an instant. -/
def rfc3339 (n : ℕ) : List Char :=
  dateTime (n / 10 ^ 9) ++ (fraction (n % 10 ^ 9) ++ ['Z'])

/-- The instants with a year of four digits. -/
def hasFourDigitYear (n : ℕ) : Bool := n / 10 ^ 9 / 86400 < daysBeforeYear 10000

/-! ## Digits -/

@[simp] theorem length_padded (w n : ℕ) : (padded w n).length = w := by
  induction w generalizing n with
  | zero => rfl
  | succ w ih => rw [padded, List.length_append, ih, List.length_singleton]

theorem digit_lt_digit {m n : ℕ} (h : m < n) (hn : n < 10) : digit m < digit n := by
  revert m
  revert n
  decide

theorem mem_padded {w n : ℕ} {c : Char} (h : c ∈ padded w n) : '0' ≤ c ∧ c ≤ '9' := by
  induction w generalizing n with
  | zero => cases h
  | succ w ih =>
      rw [padded] at h
      rcases List.mem_append.mp h with h | h
      · exact ih h
      · rw [List.mem_singleton.mp h]
        have hlt : n % 10 < 10 := Nat.mod_lt _ (by decide)
        generalize n % 10 = d at hlt
        revert d
        decide

/-- Texts of one length are compared before what follows them. -/
theorem append_lt_append {a b : List Char} (hlen : a.length = b.length) (h : a < b)
    (x y : List Char) : a ++ x < b ++ y := by
  induction a generalizing b with
  | nil =>
      rw [List.eq_nil_of_length_eq_zero hlen.symm] at h
      exact absurd h (List.lt_irrefl _)
  | cons c a ih =>
      cases b with
      | nil => cases hlen
      | cons d b =>
          rw [List.cons_append, List.cons_append, List.cons_lt_cons_iff]
          rcases List.cons_lt_cons_iff.mp h with hcd | ⟨rfl, hab⟩
          · exact .inl hcd
          · exact .inr ⟨rfl, ih (Nat.succ.inj hlen) hab⟩

theorem padded_lt_padded {w m n : ℕ} (h : m < n) (hn : n < 10 ^ w) : padded w m < padded w n := by
  induction w generalizing m n with
  | zero =>
      rw [Nat.pow_zero] at hn
      omega
  | succ w ih =>
      rw [padded, padded]
      rw [Nat.pow_succ] at hn
      rcases Nat.lt_or_eq_of_le (Nat.div_le_div_right (c := 10) h.le) with hdiv | hdiv
      · exact append_lt_append (by simp) (ih hdiv (by omega)) _ _
      · rw [hdiv]
        refine List.append_left_lt (List.cons_lt_cons_iff.mpr (.inl ?_))
        exact digit_lt_digit (by omega) (Nat.mod_lt _ (by decide))

/-- A field that is less, whatever follows. -/
theorem field_lt {w m n : ℕ} (h : m < n) (hn : n < 10 ^ w) (x y : List Char) :
    padded w m ++ x < padded w n ++ y :=
  append_lt_append (by simp) (padded_lt_padded h hn) x y

/-- A field that is the same, and a less rest. -/
theorem field_eq {w m n : ℕ} (h : m = n) (c : Char) {x y : List Char} (hxy : x < y) :
    padded w m ++ c :: x < padded w n ++ c :: y := by
  rw [h]
  exact List.append_left_lt (List.cons_lt_cons_iff.mpr (.inr ⟨rfl, hxy⟩))

/-! ## Seconds -/

@[simp] theorem length_dateTime (s : ℕ) : (dateTime s).length = 19 := by
  simp [dateTime]

/-- A later time of day. -/
theorem time_lt_of_lt {s t : ℕ} (h : s % 86400 < t % 86400) :
    s % 86400 / 3600 < t % 86400 / 3600 ∨ (s % 86400 / 3600 = t % 86400 / 3600 ∧
      (s % 3600 / 60 < t % 3600 / 60 ∨
        (s % 3600 / 60 = t % 3600 / 60 ∧ s % 60 < t % 60))) := by
  omega

theorem dateTime_lt_of_lt {s t : ℕ} (h : s < t) (ht : t / 86400 < daysBeforeYear 10000) :
    dateTime s < dateTime t := by
  have hyear : yearOf (t / 86400) < 10 ^ 4 := yearOf_lt ht
  have hmonth (d : ℕ) : monthOf d < 10 ^ 2 :=
    Nat.lt_of_le_of_lt (monthIn_le _ _) (by decide)
  have hday (d : ℕ) : dayOf d < 10 ^ 2 := dayIn_lt _ (dayOfYear_lt d)
  unfold dateTime
  dsimp only
  have hsplit : s / 86400 < t / 86400 ∨
      (s / 86400 = t / 86400 ∧ s % 86400 < t % 86400) := by omega
  rcases hsplit with hdays | ⟨hdays, htime⟩
  · rcases date_lt_of_lt hdays with hy | ⟨hy, hm | ⟨hm, hd⟩⟩
    · exact field_lt hy hyear _ _
    · exact field_eq hy '-' (field_lt hm (hmonth _) _ _)
    · exact field_eq hy '-' (field_eq hm '-' (field_lt hd (hday _) _ _))
  · rw [hdays]
    refine field_eq rfl '-' (field_eq rfl '-' (field_eq rfl 'T' ?_))
    rcases time_lt_of_lt htime with hh | ⟨hh, hmin | ⟨hmin, hs⟩⟩
    · exact field_lt hh (by omega) _ _
    · exact field_eq hh ':' (field_lt hmin (by omega) _ _)
    · exact field_eq hh ':' (field_eq hmin ':' (padded_lt_padded hs (by omega)))

/-! ## Fractions -/

theorem padded_inj {w m n : ℕ} (hm : m < 10 ^ w) (hn : n < 10 ^ w)
    (h : padded w m = padded w n) : m = n := by
  rcases Nat.lt_trichotomy m n with hlt | heq | hlt
  · exact absurd (h ▸ padded_lt_padded hlt hn) (List.lt_irrefl _)
  · exact heq
  · exact absurd (h ▸ padded_lt_padded hlt hm) (List.lt_irrefl _)

theorem lt_of_padded_lt {w m n : ℕ} (hm : m < 10 ^ w) (h : padded w m < padded w n) : m < n := by
  rcases Nat.lt_trichotomy m n with hlt | rfl | hlt
  · exact hlt
  · exact absurd h (List.lt_irrefl _)
  · exact absurd (List.lt_trans h (padded_lt_padded hlt hm)) (List.lt_irrefl _)

/-- The digits that are written, and the zeros that are not. -/
theorem padded_eq (n : ℕ) : ∃ k, padded 9 n = fractionDigits n ++ List.replicate k '0' := by
  refine ⟨((padded 9 n).rtakeWhile (· = '0')).length, ?_⟩
  have hzeros : (padded 9 n).rtakeWhile (· = '0') =
      List.replicate ((padded 9 n).rtakeWhile (· = '0')).length '0' :=
    List.eq_replicate_of_mem fun c hc => by simpa using List.mem_rtakeWhile_imp hc
  rw [← hzeros]
  exact (List.rdropWhile_append_rtakeWhile ..).symm

theorem getLast_fractionDigits {n : ℕ} (h : fractionDigits n ≠ []) :
    (fractionDigits n).getLast h ≠ '0' := fun hzero =>
  List.rdropWhile_last_not _ _ h (decide_eq_true hzero)

theorem mem_fractionDigits {n : ℕ} {c : Char} (h : c ∈ fractionDigits n) : '0' ≤ c ∧ c ≤ '9' :=
  mem_padded ((List.rdropWhile_prefix (· = '0') (padded 9 n)).subset h)

theorem padded_zero (w : ℕ) : padded w 0 = List.replicate w '0' := by
  induction w with
  | zero => rfl
  | succ w ih =>
      rw [padded, Nat.zero_div, ih, List.replicate_succ']
      rfl

theorem fractionDigits_eq_nil_iff {n : ℕ} (hn : n < 10 ^ 9) : fractionDigits n = [] ↔ n = 0 := by
  constructor
  · intro h
    obtain ⟨k, hk⟩ := padded_eq n
    rw [h, List.nil_append] at hk
    have hlen := congrArg List.length hk
    rw [length_padded, List.length_replicate] at hlen
    rw [← hlen, ← padded_zero] at hk
    exact padded_inj hn (by decide) hk
  · rintro rfl
    decide

theorem fraction_eq {n : ℕ} (hn : n < 10 ^ 9) (h : fractionDigits n ≠ []) :
    fraction n = '.' :: fractionDigits n :=
  if_neg fun hzero => h ((fractionDigits_eq_nil_iff hn).mpr hzero)

/-- Digits that are not all zeros come after as many zeros. -/
theorem replicate_lt {x : List Char} (hx : ∀ c ∈ x, '0' ≤ c) (h : ∃ c ∈ x, c ≠ '0') :
    List.replicate x.length '0' < x := by
  induction x with
  | nil =>
      obtain ⟨c, hc, -⟩ := h
      cases hc
  | cons c x ih =>
      rw [List.length_cons, List.replicate_succ, List.cons_lt_cons_iff]
      rcases lt_or_eq_of_le (hx c List.mem_cons_self) with hlt | heq
      · exact .inl hlt
      · refine .inr ⟨heq, ih (fun d hd => hx d (List.mem_cons_of_mem _ hd)) ?_⟩
        obtain ⟨d, hd, hne⟩ := h
        rcases List.mem_cons.mp hd with rfl | hmem
        · exact absurd heq.symm hne
        · exact ⟨d, hmem, hne⟩

variable {m n : ℕ}

/-- Digits that go on after those of another fraction: the instant is later, and the text
is not. -/
theorem fraction_of_prefixed (hm : m < 10 ^ 9) (hn : n < 10 ^ 9) (hne : m ≠ n)
    (h : fractionDigits m <+: fractionDigits n) :
    m < n ∧ fraction n ++ ['Z'] < fraction m ++ ['Z'] := by
  obtain ⟨x, hx⟩ := h
  obtain ⟨j, hj⟩ := padded_eq m
  obtain ⟨k, hk⟩ := padded_eq n
  have hlen : j = x.length + k := by
    have hm' := congrArg List.length hj
    have hn' := congrArg List.length hk
    rw [length_padded, List.length_append, List.length_replicate] at hm' hn'
    rw [← hx, List.length_append] at hn'
    omega
  have hxne : x ≠ [] := by
    rintro rfl
    rw [List.append_nil] at hx
    rw [List.length_nil, Nat.zero_add] at hlen
    exact hne (padded_inj hm hn (by rw [hj, hk, hx, hlen]))
  have hdigits : ∀ c ∈ x, '0' ≤ c ∧ c ≤ '9' := fun c hc =>
    mem_fractionDigits (hx ▸ List.mem_append_right _ hc)
  have hfull : fractionDigits n ≠ [] := by
    rw [← hx]
    exact List.append_ne_nil_of_right_ne_nil _ hxne
  have hlast : x.getLast hxne ≠ '0' := by
    have hget := getLast_fractionDigits hfull
    simp only [← hx] at hget
    rwa [List.getLast_append_of_ne_nil _ hxne] at hget
  constructor
  · apply lt_of_padded_lt hm
    rw [hj, hk, ← hx, List.append_assoc, hlen, List.replicate_add]
    refine List.append_left_lt (append_lt_append (by simp) ?_ _ _)
    exact replicate_lt (fun c hc => (hdigits c hc).1) ⟨_, List.getLast_mem hxne, hlast⟩
  · rw [fraction_eq hn hfull]
    obtain ⟨c, y, rfl⟩ := List.exists_cons_of_ne_nil hxne
    have hc : c < 'Z' := lt_of_le_of_lt (hdigits c List.mem_cons_self).2 (by decide)
    by_cases hempty : fractionDigits m = []
    · rw [(fractionDigits_eq_nil_iff hm).mp hempty]
      exact List.cons_lt_cons_iff.mpr (.inl (by decide))
    · rw [fraction_eq hm hempty, ← hx, List.cons_append, List.cons_append, List.append_assoc]
      refine List.cons_lt_cons_iff.mpr (.inr ⟨rfl, List.append_left_lt ?_⟩)
      exact List.cons_lt_cons_iff.mpr (.inl hc)

/-- Two texts neither of which begins with the other differ somewhere. -/
theorem exists_differ {x y : List Char} (h : ¬ x <+: y) (h' : ¬ y <+: x) :
    ∃ z c d a b, c ≠ d ∧ x = z ++ c :: a ∧ y = z ++ d :: b := by
  induction x generalizing y with
  | nil => exact absurd List.nil_prefix h
  | cons c x ih =>
      cases y with
      | nil => exact absurd List.nil_prefix h'
      | cons d y =>
          by_cases hcd : c = d
          · subst hcd
            rw [List.prefix_cons_inj] at h h'
            obtain ⟨z, e, f, a, b, hef, rfl, rfl⟩ := ih h h'
            exact ⟨c :: z, e, f, a, b, hef, rfl, rfl⟩
          · exact ⟨[], c, d, x, y, hcd, rfl, rfl⟩

/-- Digits that differ put the fractions and their texts in the same order. -/
theorem fraction_of_differ (hm : m < 10 ^ 9) (hn : n < 10 ^ 9) {z a b : List Char} {c d : Char}
    (hcd : c < d) (hx : fractionDigits m = z ++ c :: a) (hy : fractionDigits n = z ++ d :: b) :
    m < n ∧ fraction m ++ ['Z'] < fraction n ++ ['Z'] := by
  obtain ⟨j, hj⟩ := padded_eq m
  obtain ⟨k, hk⟩ := padded_eq n
  have hdiffer (u v : List Char) : z ++ c :: u < z ++ d :: v :=
    List.append_left_lt (List.cons_lt_cons_iff.mpr (.inl hcd))
  constructor
  · apply lt_of_padded_lt hm
    rw [hj, hk, hx, hy, List.append_assoc, List.append_assoc]
    exact hdiffer _ _
  · rw [fraction_eq hm (by simp [hx]), fraction_eq hn (by simp [hy]), hx, hy]
    rw [List.cons_append, List.cons_append, List.append_assoc, List.append_assoc]
    exact List.cons_lt_cons_iff.mpr (.inr ⟨rfl, hdiffer _ _⟩)

/-! ## Instants -/

/-- Two instants of one second, with the digits of one fraction beginning with the other's. -/
def Overlap (m n : ℕ) : Prop :=
  m / 10 ^ 9 = n / 10 ^ 9 ∧ m ≠ n ∧
    (fractionDigits (m % 10 ^ 9) <+: fractionDigits (n % 10 ^ 9) ∨
      fractionDigits (n % 10 ^ 9) <+: fractionDigits (m % 10 ^ 9))

instance (m n : ℕ) : Decidable (Overlap m n) :=
  inferInstanceAs (Decidable (_ ∧ _ ∧ (_ ∨ _)))

theorem rfc3339_lt_of_fraction {m n : ℕ} (hs : m / 10 ^ 9 = n / 10 ^ 9)
    (h : fraction (m % 10 ^ 9) ++ ['Z'] < fraction (n % 10 ^ 9) ++ ['Z']) :
    rfc3339 m < rfc3339 n := by
  unfold rfc3339
  rw [hs]
  exact List.append_left_lt h

/-- The order of two texts is that of their instants, or the other way round. -/
theorem rfc3339_lt_of_lt {m n : ℕ} (hn : hasFourDigitYear n = true) (h : m < n) :
    if Overlap m n then rfc3339 n < rfc3339 m else rfc3339 m < rfc3339 n := by
  have hm9 : m % 10 ^ 9 < 10 ^ 9 := Nat.mod_lt _ (by decide)
  have hn9 : n % 10 ^ 9 < 10 ^ 9 := Nat.mod_lt _ (by decide)
  rcases Nat.lt_or_eq_of_le (Nat.div_le_div_right (c := 10 ^ 9) h.le) with hs | hs
  · rw [if_neg fun ho => hs.ne ho.1]
    exact append_lt_append (by simp) (dateTime_lt_of_lt hs (of_decide_eq_true hn)) _ _
  · have hmod : m % 10 ^ 9 < n % 10 ^ 9 := by
      have hm := Nat.div_add_mod m (10 ^ 9)
      have hn := Nat.div_add_mod n (10 ^ 9)
      rw [hs] at hm
      omega
    by_cases hpre : fractionDigits (m % 10 ^ 9) <+: fractionDigits (n % 10 ^ 9)
    · rw [if_pos ⟨hs, h.ne, .inl hpre⟩]
      exact rfc3339_lt_of_fraction hs.symm (fraction_of_prefixed hm9 hn9 hmod.ne hpre).2
    · by_cases hpre' : fractionDigits (n % 10 ^ 9) <+: fractionDigits (m % 10 ^ 9)
      · exact absurd (fraction_of_prefixed hn9 hm9 hmod.ne' hpre').1 (Nat.lt_asymm hmod)
      · rw [if_neg fun ho => ho.2.2.elim hpre hpre']
        obtain ⟨z, c, d, a, b, hcd, hx, hy⟩ := exists_differ hpre hpre'
        rcases lt_or_gt_of_ne hcd with hlt | hgt
        · exact rfc3339_lt_of_fraction hs (fraction_of_differ hm9 hn9 hlt hx hy).2
        · exact absurd (fraction_of_differ hn9 hm9 hgt hy hx).1 (Nat.lt_asymm hmod)

theorem overlap_comm {m n : ℕ} : Overlap m n ↔ Overlap n m :=
  ⟨fun h => ⟨h.1.symm, h.2.1.symm, h.2.2.symm⟩, fun h => ⟨h.1.symm, h.2.1.symm, h.2.2.symm⟩⟩

/-- A text is before another exactly when its instant is, if and only if the instants do not
overlap. -/
theorem rfc3339_lt_iff {m n : ℕ} (hm : hasFourDigitYear m = true)
    (hn : hasFourDigitYear n = true) :
    (rfc3339 m < rfc3339 n ↔ m < n) ↔ ¬ Overlap m n := by
  rcases Nat.lt_trichotomy m n with hlt | rfl | hlt
  · have h := rfc3339_lt_of_lt hn hlt
    by_cases ho : Overlap m n
    · rw [if_pos ho] at h
      simp [ho, hlt, List.lt_asymm h]
    · rw [if_neg ho] at h
      simp [ho, hlt, h]
  · have ho : ¬ Overlap m m := fun ho => ho.2.1 rfl
    simp [ho]
  · have h := rfc3339_lt_of_lt hm hlt
    rw [overlap_comm]
    by_cases ho : Overlap n m
    · rw [if_pos ho] at h
      simp [ho, h, Nat.lt_asymm hlt]
    · rw [if_neg ho] at h
      simp [ho, List.lt_asymm h, Nat.lt_asymm hlt]

end Text
