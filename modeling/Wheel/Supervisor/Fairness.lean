import Wheel.Data.Burst
import Wheel.Supervisor.Steps

/-!
# Fairness of delivery

Two lanes lead to an agent: what the user wrote, and everything else. Inside a
lane messages are written to the child in the order of their arrival, in every
run. Between the lanes a counter of the child lets a normal-lane message through
after a burst of user-lane ones; the counter starts anew with every child. So the
bound on the bursts, `fair_delivery`, holds over every stretch of a run in which
no child is started while the stretch's deliveries end in a user-lane one, and
`restarts_starve_normal_lane` is a stretch in which the child is replaced after
every turn.
-/

namespace Wheel

open Concurrency Messages

/-- Was the message written to a child of the agent? -/
def WrittenTo (l : List Delivery) (a m : Uuid) : Prop :=
  ∃ d ∈ l, d.agent = a ∧ d.message.id = m

theorem WrittenTo.append {l : List Delivery} {a m : Uuid} (h : WrittenTo l a m)
    (l' : List Delivery) : WrittenTo (l ++ l') a m := by
  obtain ⟨d, hd, hdm⟩ := h
  exact ⟨d, List.mem_append_left _ hd, hdm⟩

/-- Every message of the agent and of the row's lane that arrived before the row
was written to the agent's child or set aside. -/
def EarlierDone (t : MessageTable) (l : List Delivery) (a : Uuid) (row : MessageRow) : Prop :=
  ∀ (i j : ℕ) (r q : MessageRow), i < j → t.rows[i]? = some r → t.rows[j]? = some q →
    q.id = row.id → r.toId = a → (r.fromKind = .user ↔ row.fromKind = .user) →
      WrittenTo l a r.id ∨ r.state = .undeliverable

/-- Whatever was written to a child was the turn of its lane: all that arrived
before it had been written, or was set aside. -/
def InArrivalOrder (s : Engine) : Prop :=
  ∀ l d l', s.written = l ++ d :: l' → EarlierDone s.messages l d.agent d.message

/-- Is a normal-lane message queued for the agent? -/
def NormalQueued (s : Engine) (a : Uuid) : Prop :=
  ∃ r ∈ s.messages.rows, r.toId = a ∧ r.state = .queued ∧ r.fromKind ≠ .user

instance (s : Engine) (a : Uuid) : Decidable (NormalQueued s a) := by
  unfold NormalQueued
  infer_instance

/-- A delivery of the user lane. -/
def Delivery.isUser (d : Delivery) : Bool := d.message.fromKind = .user

/-- What was written to the agent's children, from the `n`-th delivery on. -/
def Engine.deliveries (s : Engine) (a : Uuid) (n : ℕ) : List Delivery :=
  (s.written.drop n).filter fun d => d.agent = a

namespace Supervisor

/-! ## The order of arrival -/

/-- The history of what was written accounts for the message table. -/
structure Recorded (s : Engine) : Prop where
  started : ∀ r ∈ s.messages.rows, r.Started → WrittenTo s.written r.toId r.id
  stored : ∀ d ∈ s.written, Addressed s.messages d.message.id d.agent
  ordered : InArrivalOrder s

/-- What a delivery relies on between its pick and its last status. -/
def PickFacts (a : Uuid) (h : Phase) (s : Engine) : Prop :=
  match h with
  | .pumpWrite row =>
      Addressed s.messages row.id a ∧ EarlierDone s.messages s.written a row
  | .pumpAdvance mid => Addressed s.messages mid a ∧ WrittenTo s.written a mid
  | _ => True

def arrivalOutline : Outline Engine Instr Phase Uuid Empty where
  inv := Recorded
  holds := PickFacts

variable {s : Engine} {o : Oracle} {c : Section Instr Phase Uuid}

theorem writtenTo_act {a m : Uuid} (h : WrittenTo s.written a m) :
    WrittenTo (machine.act c s o).1.written a m := by
  rcases written_act s o c with heq | ⟨b, row, -, -, heq⟩
  · rw [heq]
    exact h
  · rw [heq]
    exact h.append _

/-- The order is kept by what happens to the rows. -/
theorem earlierDone_evolves {t t' : MessageTable} {l l' : List Delivery} {a : Uuid}
    {row : MessageRow} (h : EarlierDone t l a row) (hrow : Addressed t row.id a)
    (he : Evolves Follows t t') (hl : ∀ m, WrittenTo l a m → WrittenTo l' a m) :
    EarlierDone t' l' a row := by
  intro i j r' q' hij hr' hq' hid hto hlane
  obtain ⟨q, hq, -⟩ := hrow
  obtain ⟨hmem, hqid⟩ := Keyed.get?_eq_some_iff.mp hq
  obtain ⟨k, hk⟩ := List.mem_iff_getElem?.mp hmem
  obtain ⟨q'', hk', hf⟩ := he.old hk
  have hjk : j = k := Keyed.index_eq_of_key hq' hk' (hid.trans (hf.id.trans hqid).symm)
  subst hjk
  have hi : i < t.rows.length := hij.trans (List.getElem?_eq_some_iff.mp hk).1
  obtain ⟨r, hr⟩ : ∃ r, t.rows[i]? = some r := ⟨_, List.getElem?_eq_getElem hi⟩
  obtain ⟨r'', hr'', hfr⟩ := he.old hr
  rw [hr'] at hr''
  obtain rfl := Option.some.inj hr''
  rw [hfr.fromKind] at hlane
  rcases h i j r q hij hr hk hqid (hfr.toId.symm.trans hto) hlane with hw | hu
  · exact .inl (hfr.id ▸ hl _ hw)
  · exact .inr (hfr.final hu)

theorem earlierDone_act {a : Uuid} {row : MessageRow} {l : List Delivery}
    (h : EarlierDone s.messages l a row) (hrow : Addressed s.messages row.id a) :
    EarlierDone (machine.act c s o).1.messages l a row :=
  earlierDone_evolves h hrow (follows_act s o c) fun _ hm => hm

/-- What a delivery relies on is stable. -/
theorem pickFacts_act {a : Uuid} {h : Phase} (hf : PickFacts a h s) :
    PickFacts a h (machine.act c s o).1 := by
  have he := follows_act s o c
  unfold PickFacts at hf ⊢
  cases h with
  | pumpWrite row =>
      exact ⟨hf.1.evolves he, earlierDone_evolves hf.2 hf.1 he fun _ hm => writtenTo_act hm⟩
  | pumpAdvance mid => exact ⟨hf.1.evolves he, writtenTo_act hf.2⟩
  | _ => trivial

/-- The pick of a recorded engine is the turn of its lane. -/
theorem earlierDone_of_pick (hs : Recorded s) {a : Uuid} {n : ℕ} {now : Timestamp}
    {row : MessageRow} (h : nextForDelivery s.messages a n now = some row) :
    EarlierDone s.messages s.written a row := by
  intro i j r q hij hr hq hid hto hlane
  have hnot := not_queued_of_pick h hij hr hq hid hto hlane
  cases hstate : r.state with
  | queued => exact absurd hstate hnot
  | undeliverable => exact .inr rfl
  | delivered =>
      exact .inl (hto ▸ hs.started r (List.mem_of_getElem? hr) (.inl hstate))
  | consumed =>
      exact .inl (hto ▸ hs.started r (List.mem_of_getElem? hr) (.inr hstate))

theorem pickFacts_of_enters {p : State} (hv : arrivalOutline.Valid p) {k : Uuid} {h : Phase}
    {tasks : List (List Instr)} {rest : List Instr} {e : Event}
    (hd : p.due machine e = some (c, tasks, rest, o)) (he : Enters p.shared o c k h) :
    PickFacts k h (machine.act c p.shared o).1 := by
  cases he with
  | write hs hr =>
      apply pickFacts_act
      obtain ⟨hmem, hto, -⟩ := mem_of_nextForDelivery hr
      exact ⟨⟨_, Keyed.get?_key hmem, hto⟩, earlierDone_of_pick hv.inv hr⟩
  | @advance _ row hw =>
      have hf : PickFacts k (.pumpWrite row) p.shared :=
        hv.holds k _ (Pool.holder_of_due_later hd)
      refine ⟨hf.1.evolves (follows_act p.shared o _), ⟨k, row⟩, ?_, rfl, rfl⟩
      show _ ∈ (pumpWrite p.shared k row o).1.written
      rw [pumpWrite, hw]
      exact List.mem_append_right _ List.mem_cons_self
  | _ => trivial

theorem started_act {p : State} (hv : arrivalOutline.Valid p) {tasks : List (List Instr)}
    {rest : List Instr} {e : Event} (hd : p.due machine e = some (c, tasks, rest, o))
    {r' : MessageRow} (hr' : r' ∈ (machine.act c p.shared o).1.messages.rows)
    (hs : r'.Started) : WrittenTo (machine.act c p.shared o).1.written r'.toId r'.id := by
  by_cases hadv : ∀ a mid, c ≠ .later a (.pumpAdvance mid)
  · obtain ⟨r, hr, hk⟩ := (messages_act p.shared o hadv).of_started hr' hs
    rw [hk.toId, hk.id]
    exact writtenTo_act (hv.inv.started r hr (hk.started hs))
  · push Not at hadv
    obtain ⟨a, mid, rfl⟩ := hadv
    obtain ⟨⟨q, hq, hto⟩, hw⟩ : PickFacts a (.pumpAdvance mid) p.shared :=
      hv.holds a _ (Pool.holder_of_due_later hd)
    have he := evolves_advanceOrKeep_delivered p.shared.messages mid o.now
    obtain ⟨r, hr, hf, hsame⟩ := he.of_started hr' hs
    by_cases hid : r.id = mid
    · have hrq : p.shared.messages.get? mid = some r := Keyed.get?_eq_some_iff.mpr ⟨hr, hid⟩
      rw [hq] at hrq
      obtain rfl := Option.some.inj hrq
      rw [hf.toId, hto, hf.id, hid]
      exact writtenTo_act hw
    · have hsame := hsame hid
      subst hsame
      exact writtenTo_act (hv.inv.started _ hr hs)

theorem recorded_act {p : State} (hv : arrivalOutline.Valid p) {tasks : List (List Instr)}
    {rest : List Instr} {e : Event} (hd : p.due machine e = some (c, tasks, rest, o)) :
    Recorded (machine.act c p.shared o).1 := by
  have he := follows_act p.shared o c
  refine ⟨fun r' hr' hs => started_act hv hd hr' hs, ?_, ?_⟩
  · intro d hmem
    rcases written_act p.shared o c with heq | ⟨b, row, rfl, -, heq⟩
    · rw [heq] at hmem
      exact (hv.inv.stored d hmem).evolves he
    · rw [heq, List.mem_append, List.mem_singleton] at hmem
      rcases hmem with hmem | rfl
      · exact (hv.inv.stored d hmem).evolves he
      · have hf : PickFacts b (.pumpWrite row) p.shared :=
          hv.holds b _ (Pool.holder_of_due_later hd)
        exact hf.1.evolves he
  · intro l d l' hl
    rcases written_act p.shared o c with heq | ⟨b, row, rfl, -, heq⟩
    · rw [heq] at hl
      have hmem : d ∈ p.shared.written := by simp [hl]
      exact earlierDone_act (hv.inv.ordered l d l' hl) (hv.inv.stored d hmem)
    · rw [heq] at hl
      cases l' using List.reverseRecOn with
      | nil =>
          obtain ⟨rfl, hd'⟩ := List.append_inj' hl rfl
          obtain rfl := List.singleton_inj.mp hd'
          have hf : PickFacts b (.pumpWrite row) p.shared :=
            hv.holds b _ (Pool.holder_of_due_later hd)
          exact earlierDone_act hf.2 hf.1
      | append_singleton l' x =>
          rw [← List.cons_append, ← List.append_assoc] at hl
          obtain ⟨hl, -⟩ := List.append_inj' hl rfl
          have hmem : d ∈ p.shared.written := by simp [hl]
          exact earlierDone_act (hv.inv.ordered l d l' hl) (hv.inv.stored d hmem)

theorem arrivalRule : arrivalOutline.Rule machine (fun _ => True) (fun _ _ _ => True) where
  call _ _ _ _ := trivial
  keeps hv hd _ :=
    { inv := recorded_act hv hd
      stable := fun _ _ => trivial
      added := fun _ _ => trivial
      others := fun _ _ _ _ hf => pickFacts_act hf
      kept := fun _ _ hl hh => pickFacts_of_enters hv hd (enters_act _ _ hl hh)
      paid := nofun }

/-! ## The bursts -/

/-- The counter of the agent's child survives: no child is started for the agent
while its deliveries since the `n`-th end in a user-lane one, and the counter
does not wrap. -/
def CountSurvives (a : Uuid) (n : ℕ) (p : State) (c : Section Instr Phase Uuid) (o : Oracle) :
    Prop :=
  match c with
  | .later b (.startSpawn _) =>
      b = a → o.spawns = true → Burst.trailing Delivery.isUser (p.shared.deliveries a n) = 0
  | .later b (.pumpWrite row) =>
      b = a → row.fromKind = .user →
        ∀ r, p.shared.slots a = some r → r.consecutiveUser + 1 < 2 ^ 32
  | _ => True

instance (a : Uuid) (n : ℕ) (p : State) (c : Section Instr Phase Uuid) (o : Oracle) :
    Decidable (CountSurvives a n p c o) := by
  unfold CountSurvives
  split <;> infer_instance

/-- The bursts are bounded, and the child counts at least the burst it is in. -/
structure Counted (a : Uuid) (n : ℕ) (s : Engine) : Prop where
  length : n ≤ s.written.length
  bursts : Burst.AtMost Delivery.isUser userLaneBurst (s.deliveries a n)
  count : ∀ r, s.slots a = some r →
    Burst.trailing Delivery.isUser (s.deliveries a n) ≤ r.consecutiveUser

/-- A user-lane message is about to be written: the burst is not over. -/
def WithinBurst (a : Uuid) (n : ℕ) (h : Phase) (s : Engine) : Prop :=
  match h with
  | .pumpWrite row =>
      row.fromKind = .user → Burst.trailing Delivery.isUser (s.deliveries a n) = 0 ∨
        ∃ r, s.slots a = some r ∧ r.consecutiveUser < userLaneBurst
  | _ => True

def burstOutline (a : Uuid) (n : ℕ) : Outline Engine Instr Phase Uuid Empty where
  inv := Counted a n
  holds k h s := k = a → WithinBurst a n h s

variable {a : Uuid} {n : ℕ}

theorem deliveries_of_append (a : Uuid) {s' : Engine} (hn : n ≤ s.written.length)
    {d : Delivery} (h : s'.written = s.written ++ [d]) :
    s'.deliveries a n =
      if d.agent = a then s.deliveries a n ++ [d] else s.deliveries a n := by
  unfold Engine.deliveries
  rw [h, List.drop_append_of_le_length hn, List.filter_append]
  split
  · rename_i hd
    simp [hd]
  · rename_i hd
    simp [hd]

theorem deliveries_of_eq {s' : Engine} (h : s'.written = s.written) :
    s'.deliveries a n = s.deliveries a n := by
  unfold Engine.deliveries
  rw [h]

theorem length_written_act :
    s.written.length ≤ (machine.act c s o).1.written.length := by
  rcases written_act s o c with heq | ⟨b, row, -, -, heq⟩
  · rw [heq]
  · rw [heq, List.length_append]
    exact Nat.le_add_right _ _

/-- The deliveries of an agent change under its own lock only. -/
theorem deliveries_act_of_ne (hn : n ≤ s.written.length) (hl : machine.lockOf c ≠ some a) :
    (machine.act c s o).1.deliveries a n = s.deliveries a n := by
  rcases written_act s o c with heq | ⟨b, row, rfl, -, heq⟩
  · exact deliveries_of_eq heq
  · rw [deliveries_of_append a hn heq, if_neg]
    rintro rfl
    exact hl rfl

/-- A delivery keeps the count. -/
theorem counted_write (hs : Counted a n s) {row : MessageRow}
    (hb : WithinBurst a n (.pumpWrite row) s) (hw : o.writeError = none)
    (hc : row.fromKind = .user → ∀ r, s.slots a = some r → r.consecutiveUser + 1 < 2 ^ 32) :
    Counted a n (machine.act (.later a (.pumpWrite row)) s o).1 := by
  have hact : (machine.act (.later a (.pumpWrite row)) s o).1 =
      { s.setSlot a ((s.slots a).map (afterWrite row)) with
        written := s.written ++ [⟨a, row⟩] } := by
    show (pumpWrite s a row o).1 = _
    rw [pumpWrite, hw]
  have hwritten : (machine.act (.later a (.pumpWrite row)) s o).1.written =
      s.written ++ [⟨a, row⟩] := by
    rw [hact]
  have hds := deliveries_of_append a hs.length hwritten
  rw [if_pos rfl] at hds
  have hslot : (machine.act (.later a (.pumpWrite row)) s o).1.slots a =
      (s.slots a).map (afterWrite row) := by
    rw [hact]
    exact setSlot_slots_self s a _
  have hlen : n ≤ (machine.act (.later a (.pumpWrite row)) s o).1.written.length := by
    rw [hact, List.length_append]
    exact hs.length.trans (Nat.le_add_right _ _)
  by_cases huser : row.fromKind = .user
  · have htrail := Burst.trailing_concat_of_pos (p := Delivery.isUser) (x := ⟨a, row⟩)
      (s.deliveries a n) (by simpa [Delivery.isUser] using huser)
    refine ⟨hlen, ?_, ?_⟩
    · rw [hds]
      apply hs.bursts.concat
      rw [htrail]
      rcases hb huser with h0 | ⟨r, hr, hlt⟩
      · rw [h0]
        decide
      · exact Nat.lt_of_le_of_lt (hs.count r hr) hlt
    · intro r' hr'
      rw [hslot] at hr'
      obtain ⟨r, hr, rfl⟩ := Option.map_eq_some_iff.mp hr'
      rw [hds, htrail]
      show _ ≤ if row.fromKind = .user then (r.consecutiveUser + 1) % 2 ^ 32 else 0
      rw [if_pos huser, Nat.mod_eq_of_lt (hc huser r hr)]
      exact Nat.succ_le_succ (hs.count r hr)
  · have htrail := Burst.trailing_concat_of_neg (p := Delivery.isUser) (x := ⟨a, row⟩)
      (s.deliveries a n) (by simpa [Delivery.isUser] using huser)
    refine ⟨hlen, ?_, ?_⟩
    · rw [hds]
      apply hs.bursts.concat
      rw [htrail]
      exact Nat.zero_le _
    · intro r' _
      rw [hds, htrail]
      exact Nat.zero_le _

/-- What else becomes of the slot keeps the count. -/
theorem counted_of_written_eq {p : State} (hs : Counted a n p.shared)
    (hc : CountSurvives a n p c o)
    (heq : (machine.act c p.shared o).1.written = p.shared.written) :
    Counted a n (machine.act c p.shared o).1 := by
  have hds := deliveries_of_eq (a := a) (n := n) heq
  refine ⟨heq ▸ hs.length, hds ▸ hs.bursts, ?_⟩
  intro r' hr'
  rw [hds]
  have hslot := slotAfter_act p.shared o c a
  rw [hr'] at hslot
  generalize hx : some r' = x at hslot
  cases hslot with
  | same => exact hs.count r' hx.symm
  | taken => cases hx
  | shut => cases hx
  | named =>
      obtain ⟨r, hr, rfl⟩ := Option.map_eq_some_iff.mp hx.symm
      exact hs.count r hr
  | ended =>
      obtain ⟨r, hr, rfl⟩ := Option.map_eq_some_iff.mp hx.symm
      exact hs.count r hr
  | limited =>
      obtain ⟨r, hr, rfl⟩ := Option.map_eq_some_iff.mp hx.symm
      exact hs.count r hr
  | @written _ row hw =>
      change (pumpWrite p.shared a row o).1.written = _ at heq
      rw [pumpWrite, hw] at heq
      exact absurd heq (by simp)
  | spawned ho =>
      rw [hc rfl ho]
      exact Nat.zero_le _

theorem withinBurst_of_enters {p : State} (hq : NormalQueued p.shared a) {h : Phase}
    (he : Enters p.shared o c a h) : WithinBurst a n h (machine.act c p.shared o).1 := by
  cases he with
  | @write _ r row hs hr =>
      intro huser
      obtain ⟨q, hmem, hto, hstate, hfrom⟩ := hq
      right
      show ∃ r, (pumpPick p.shared a o).1.slots a = some r ∧ _
      rw [pumpPick_fst]
      exact ⟨r, hs, lt_userLaneBurst_of_pick hr huser hmem hto hstate hfrom⟩
  | _ => trivial

theorem burstRule (a : Uuid) (n : ℕ) :
    (burstOutline a n).Rule machine (fun _ => True)
      (fun p c o => NormalQueued p.shared a ∧ CountSurvives a n p c o) where
  call _ _ _ _ := trivial
  keeps {p e c tasks rest o} hv hd hc :=
    { inv := by
        rcases written_act p.shared o c with heq | ⟨b, row, rfl, hw, -⟩
        · exact counted_of_written_eq hv.inv hc.2 heq
        · by_cases hb : b = a
          · subst hb
            exact counted_write hv.inv (hv.holds b _ (Pool.holder_of_due_later hd) rfl) hw
              (hc.2 rfl)
          · have hl : machine.lockOf (.later b (.pumpWrite row)) ≠ some a :=
              fun h => hb (Option.some.inj h)
            have hds := deliveries_act_of_ne (o := o) hv.inv.length hl
            refine ⟨?_, hds ▸ hv.inv.bursts, ?_⟩
            · exact hv.inv.length.trans length_written_act
            · rw [slots_act_of_ne _ _ hl, hds]
              exact hv.inv.count
      stable := fun _ _ => trivial
      added := fun _ _ => trivial
      others := by
        rintro k h hl - hf rfl
        have hds := deliveries_act_of_ne (o := o) hv.inv.length hl
        unfold WithinBurst
        rw [hds, slots_act_of_ne _ _ hl]
        exact hf rfl
      kept := by
        rintro k h hl hh rfl
        exact withinBurst_of_enters hc.1 (enters_act _ _ hl hh)
      paid := nofun }

/-! ## The runs -/

/-- The outline of a stretch is valid where the stretch begins. -/
theorem burstOutline_valid (a : Uuid) (p : State) :
    (burstOutline a p.shared.written.length).Valid p := by
  have hds : p.shared.deliveries a p.shared.written.length = [] := by
    unfold Engine.deliveries
    rw [List.drop_length]
    rfl
  refine ⟨⟨le_rfl, ?_, ?_⟩, fun _ _ => trivial, ?_, nofun⟩
  · rw [hds]
    exact Burst.atMost_nil _
  · intro r _
    rw [hds]
    exact Nat.zero_le _
  · rintro k h - -
    cases h with
    | pumpWrite row =>
        intro _
        left
        rw [hds]
        rfl
    | _ => trivial

theorem recorded_of_fresh {s : Engine} (hwritten : s.written = [])
    (hrows : ∀ r ∈ s.messages.rows, ¬ r.Started) : Recorded s := by
  refine ⟨fun r hr hs => absurd hs (hrows r hr), ?_, ?_⟩
  · intro d hd
    rw [hwritten] at hd
    cases hd
  · intro l d l' hl
    rw [hwritten] at hl
    simp at hl

/-- In every run, what is written to the children of an agent is in each lane in
the order of arrival. Over every stretch in which a normal-lane message waits for
the agent and the counter survives, at most a burst of user-lane messages is
written to its children in a row. -/
theorem fair_delivery {s : Engine} (hwritten : s.written = [])
    (hrows : ∀ r ∈ s.messages.rows, ¬ r.Started) {x y : List Event} {a : Uuid} {p : State}
    (hp : p = Run.run (Pool.step machine) (Pool.idle s) x)
    (hqueued : Run.Always (Pool.step machine) (fun q _ => NormalQueued q.shared a) p y)
    (hcount : Run.Always (Pool.step machine) (Pool.Meets machine (fun _ => True)
      (CountSurvives a p.shared.written.length)) p y) :
    Burst.AtMost Delivery.isUser userLaneBurst
        ((Run.run (Pool.step machine) p y).shared.deliveries a p.shared.written.length) ∧
      InArrivalOrder (Run.run (Pool.step machine) p y).shared := by
  constructor
  · refine ((burstRule a p.shared.written.length).run (burstOutline_valid a p) ?_).inv.bursts
    refine (Run.always_and hqueued hcount).mono ?_
    intro q e hqe
    exact Pool.meets_of_due (fun _ _ => trivial)
      fun c tasks rest o hd => ⟨hqe.1, hqe.2.due hd⟩
  · have hidle : arrivalOutline.Valid (Pool.idle s) :=
      Outline.valid_idle (recorded_of_fresh hwritten hrows) fun _ h => h
    have hvalid := arrivalRule.run hidle (Pool.always_meets_true _ x)
    rw [← hp] at hvalid
    exact (arrivalRule.run hvalid (Pool.always_meets_true _ y)).inv.ordered

/-- Agent 1 is started on an empty queue; then a normal-lane message and four of
the user are enqueued, and the reader of the child's stdout is the first task. -/
def lanesFilled (child : Oracle) : List Event :=
  [.call (Call.start 1).task, .run 0 {}, .run 0 {}, .run 0 {}, .run 0 {}, .resume 1 {},
    .resume 1 {}, .resume 1 child, .run 0 {}, .run 2 {}, .run 2 {}, .resume 1 {},
    .resume 1 {}, .call (Call.enqueue (workFrom 9 .system)).task, .run 3 {},
    .call (Call.enqueue (workFrom 10 .user)).task, .run 4 {},
    .call (Call.enqueue (workFrom 11 .user)).task, .run 5 {},
    .call (Call.enqueue (workFrom 12 .user)).task, .run 6 {},
    .call (Call.enqueue (workFrom 13 .user)).task, .run 7 {}]

/-- The phases of a delivery. -/
def pumpPhases : List Event := [.resume 1 {}, .resume 1 {}, .resume 1 {}, .resume 1 {},
  .resume 1 {}]

/-- The first of the enqueued messages is delivered. -/
def firstTurn : List Event := [.run 3 {}, .run 7 {}, .run 7 {}] ++ pumpPhases

/-- The turn ends, and the same child gets the next message. -/
def nextTurn (reader last : ℕ) : List Event :=
  [.run reader resultPrinted, .run last {}, .run last {}, .run last {}, .run last {},
    .run last {}] ++ pumpPhases

/-- The turn of an ephemeral agent ends: its child is replaced, and the new one
gets the next message. -/
def ephemeralTurn (reader last : ℕ) : List Event :=
  [.run reader resultPrinted, .run last {}, .run last {}, .run last {}, .run last {},
    .resume 1 {}, .run last {}, .run last {}, .run last {}, .run last {}, .run last {},
    .run last {}, .run last {}, .run last {}, .resume 1 {}, .resume 1 {},
    .resume 1 { ephemeral := true }, .run last {}] ++ pumpPhases

/-- Three messages of the user are written to one child in a row. -/
theorem fair_delivery_oneChild :
    Burst.AtMost Delivery.isUser userLaneBurst
        ((Run.run (Pool.step machine) (Run.run (Pool.step machine)
          (Pool.idle (Engine.fresh Keyed.empty)) (lanesFilled {}))
          (firstTurn ++ nextTurn 0 7 ++ nextTurn 7 7)).shared.deliveries 1 0) ∧
      InArrivalOrder ((Run.run (Pool.step machine) (Run.run (Pool.step machine)
          (Pool.idle (Engine.fresh Keyed.empty)) (lanesFilled {}))
          (firstTurn ++ nextTurn 0 7 ++ nextTurn 7 7)).shared) :=
  fair_delivery rfl (fun _ h => absurd h List.not_mem_nil) rfl (by decide +kernel) (by decide +kernel)

/-- An ephemeral agent gets four messages of the user in a row, while a
normal-lane message waits all the time. -/
theorem restarts_starve_normal_lane :
    ∃ p y, p = Run.run (Pool.step machine) (Pool.idle (Engine.fresh Keyed.empty))
        (lanesFilled { ephemeral := true }) ∧
      Run.Always (Pool.step machine) (fun q _ => NormalQueued q.shared 1) p y ∧
      ¬ Burst.AtMost Delivery.isUser userLaneBurst
        ((Run.run (Pool.step machine) p y).shared.deliveries 1 p.shared.written.length) := by
  refine ⟨_, firstTurn ++ ephemeralTurn 0 7 ++ ephemeralTurn 7 9 ++ ephemeralTurn 9 11, rfl,
    by decide +kernel, fun h => ?_⟩
  have hlen := h _ List.infix_rfl (by decide +kernel)
  revert hlen
  decide +kernel

end Supervisor

end Wheel
