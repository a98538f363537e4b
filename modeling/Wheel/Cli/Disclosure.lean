import Wheel.Cli.Calls

/-!
# What a call discloses

A call that gives data has checked a name twice, and the data is of the node that the
name stood for first. `disclosed_same_node` says that in a run in which no edit hands a
name that an unfinished call has checked to another node, data is given only over a
wire that the caller holds, at the last check, to the very node whose data it is.
-/

namespace Wheel.Cli

open Concurrency

abbrev Past := List (Performed Section.Answer)

/-! ## What a call has learnt -/

/-- The node that a section authenticated. -/
def authenticated : (q : Section) → q.Answer → Option Uuid
  | .authenticate _, .ok n => some n.id
  | _, _ => none

/-- The name and the node that a section checked a wire to. -/
def checks : (q : Section) → q.Answer → Option (String × Uuid)
  | .require _ name _, .ok n => some (name, n.id)
  | .sendMessage _ body, .ok m => some (body.target, m.toId)
  | .findSent _ _ _, .ok found => some (found.2.name.raw, found.1.toId)
  | _, _ => none

/-- The caller of a call. -/
def Past.caller (x : Past) : Option Uuid := x.findSome? fun e => authenticated e.1 e.2

/-- What the call checked first. -/
def Past.checked (x : Past) : Option (String × Uuid) :=
  x.reverse.findSome? fun e => checks e.1 e.2

/-- The wire that a call needs. -/
def Op.needs : Op → WireType
  | .query _ _ _ => .read
  | .toolCall _ _ _ _ _ => .read
  | _ => .send

/-! ## Disclosures -/

section Disclosures

variable (L : Libs)

/-- The call that a step lets return data of a node, and the node. -/
def disclosure (s : CliCalls) : Turn Op World → Option (CliCall × Uuid)
  | .start _ => none
  | .step n o =>
      ((s.calls[n]?).bind fun c => c.perform (service L) s.shared o).bind fun r =>
        match r.2.rest.result? with
        | some (.ok answered) => answered.source.map fun id => (r.2, id)
        | _ => none

/-- A node holds a wire to another one, both on the board. -/
def Holds (b : Board) (source target : Uuid) (required : WireType) : Prop :=
  (b.get source).isSome = true ∧
    ∃ n, b.get target = some n ∧ hasWire b source target required n.nodeType = true

/-- Data is given only to a caller that holds, when the answer is built, the wire to the
node whose data it is. -/
def HeldAtDisclosure (s : CliCalls) (e : Turn Op World) : Prop :=
  ∀ c id, disclosure L s e = some (c, id) →
    ∃ me, Past.caller c.past = some me ∧ Holds s.shared.board me id c.name.needs

/-- Data is given only of the node that was checked first, which still has its name. -/
def SameNode (s : CliCalls) (e : Turn Op World) : Prop :=
  ∀ c id, disclosure L s e = some (c, id) →
    ∃ name n, Past.checked c.past = some (name, id) ∧ named s.shared.board name = some n ∧
      n.id = id

/-- No node but the one that was checked has the name that an unfinished call checked. -/
def NameKept (c : CliCall) (b : Board) : Prop :=
  c.rest.result? = none → ∀ name id, Past.checked c.past = some (name, id) →
    ∀ n ∈ b.nodes.rows, n.name.raw = name → n.id = id

/-- No edit hands a name that an unfinished call has checked to another node. -/
def KeepsNames (s : CliCalls) (e : Turn Op World) : Prop :=
  ∀ n o c d t, e = .step n o → s.calls[n]? = some c → (∃ change, c.name = .edit change) →
    c.perform (service L) s.shared o = some (t, d) → ∀ b ∈ s.calls, NameKept b t.board

/-- No two nodes have one name. -/
def UniqueNames (b : Board) : Prop :=
  ∀ n ∈ b.nodes.rows, ∀ n' ∈ b.nodes.rows, n.name = n'.name → n.id = n'.id

end Disclosures

/-! ## What a call does on its own -/

/-- The sections of a call, each with what it has learnt before. -/
def Performs (op : Op) (x : Past) : Section → Prop
  | .require me name ty =>
      Past.caller x = some me ∧ ty = op.needs ∧
        (Past.checked x = none ∨ ∃ id, Past.checked x = some (name, id))
  | .readTable table _ =>
      ∃ me name ty node, ⟨.require me name ty, .ok node⟩ ∈ x ∧
        Past.checked x = some (name, node.id) ∧ node.name.sqliteTable = some table
  | .edit _ => ∃ e, op = .edit e
  | _ => True

/-- Data is returned right after a check of the name that was checked first; it is of the
node of that check, or of the owner of the table that was read. -/
def Returns (op : Op) (x : Past) : Except Refusal Answered → Prop
  | .ok answered => ∀ id, answered.source = some id →
      ∃ y me name k n, x = ⟨.require me name op.needs, .ok n⟩ :: y ∧ Past.caller y = some me ∧
        Past.checked y = some (name, k) ∧
        (k = id ∨ ∃ table sql rows, ⟨.readTable table sql, .ok rows⟩ ∈ y ∧ rows.owner = some id)
  | .error _ => True

section Obeys

variable {x y : Past} {op : Op} {me id : Uuid} {name : String}

theorem caller_cons (e : Performed Section.Answer) (x : Past) :
    Past.caller (e :: x) = (authenticated e.1 e.2).or (Past.caller x) := by
  unfold Past.caller
  rw [List.findSome?_cons]
  cases authenticated e.1 e.2 <;> rfl

theorem checked_cons (e : Performed Section.Answer) (x : Past) :
    Past.checked (e :: x) = (Past.checked x).or (checks e.1 e.2) := by
  unfold Past.checked
  rw [List.reverse_cons, List.findSome?_append]
  congr 1
  simp only [List.findSome?_cons, List.findSome?_nil]
  cases checks e.1 e.2 <;> rfl

/-- A call knows its caller, and what it has checked. -/
structure Knows (me : Uuid) (name : String) (id : Uuid) (x : Past) : Prop where
  caller : Past.caller x = some me
  checked : Past.checked x = some (name, id)

theorem Knows.cons (h : Knows me name id x) {q : Section} {a : q.Answer}
    (hq : authenticated q a = none) : Knows me name id (⟨q, a⟩ :: x) := by
  constructor
  · rw [caller_cons, hq, h.caller]
    rfl
  · rw [checked_cons, h.checked]
    rfl

variable {β : Type} {Q : Past → Except Refusal β → Prop}

theorem obeys_caller_bind {token : String} {f : Node → CliM β} (herror : ∀ y r, Q y (.error r))
    (hok : ∀ n, Past.caller x = none → (f n).run.Obeys (Performs op) Q
      (⟨.authenticate token, .ok n⟩ :: x)) (hx : Past.caller x = none) :
    (caller token >>= f).run.Obeys (Performs op) Q x := by
  refine ⟨trivial, ?_⟩
  intro a
  cases a with
  | ok n => exact hok n hx
  | error r => exact herror _ r

theorem obeys_required_bind {n : Node} {target : String} {ty : WireType} {f : Node → CliM β}
    (herror : ∀ y r, Q y (.error r)) (hP : Performs op x (.require n.id target ty))
    (hok : ∀ k, (f k).run.Obeys (Performs op) Q (⟨.require n.id target ty, .ok k⟩ :: x)) :
    (required n target ty >>= f).run.Obeys (Performs op) Q x := by
  refine ⟨hP, ?_⟩
  intro a
  cases a with
  | ok k => exact hok k
  | error d => exact herror _ _

theorem obeys_mk_pure_bind {γ : Type} {e : Except Refusal γ} {f : γ → CliM β}
    (herror : ∀ y r, Q y (.error r))
    (hok : ∀ a, e = .ok a → (f a).run.Obeys (Performs op) Q x) :
    (ExceptT.mk (pure e) >>= f).run.Obeys (Performs op) Q x := by
  cases e with
  | ok a => exact hok a rfl
  | error r => exact herror _ r

/-- Waiting only reads where the message stands. -/
theorem obeys_awaitSettlement (h : Knows me name id x) (m : Uuid) (wakeups : ℕ) :
    (awaitSettlement m wakeups).Obeys (Performs op) (fun y _ => Knows me name id y) x := by
  induction wakeups generalizing x with
  | zero => exact ⟨trivial, fun a => h.cons rfl⟩
  | succ n ih =>
      refine ⟨trivial, fun a => ?_⟩
      have hnext := @Knows.cons x me id name h (.settlement m) a rfl
      change Program.Obeys _ _ _
        (if Option.all Settlement.isTerminal a then pure a else awaitSettlement m n)
      split
      · exact hnext
      · exact ih hnext

/-- The second check, and what is returned after it. -/
theorem obeys_recheck {n : Node} {answered : Answered} (h : Knows n.id name id x)
    (hsource : ∀ k, answered.source = some k → id = k ∨
      ∃ table sql rows, ⟨.readTable table sql, .ok rows⟩ ∈ x ∧ rows.owner = some k) :
    ((required n name op.needs >>= fun _ => pure answered : CliM Answered)).run.Obeys
      (Performs op) (Returns op) x := by
  apply obeys_required_bind
  · exact fun _ _ => trivial
  · exact ⟨h.caller, rfl, .inr ⟨id, h.checked⟩⟩
  · intro k j hj
    exact ⟨x, n.id, name, id, k, rfl, h.caller, h.checked, hsource j hj⟩

theorem knows_required {n : Node} {ty : WireType} {k : Node} (hcaller : Past.caller x = some n.id)
    (hchecked : Past.checked x = none) :
    Knows n.id name k.id (⟨.require n.id name ty, .ok k⟩ :: x) := by
  constructor
  · rw [caller_cons, hcaller]
    rfl
  · rw [checked_cons, hchecked]
    rfl

theorem obeys_query (L : Libs) (token table sql : String) :
    (query L token table sql).run.Obeys (Performs (.query token table sql))
      (Returns (.query token table sql)) [] := by
  unfold query
  refine obeys_caller_bind (fun _ _ => trivial) (fun me _ => ?_) rfl
  refine obeys_required_bind (fun _ _ => trivial) ⟨rfl, rfl, .inl rfl⟩ (fun node => ?_)
  refine obeys_mk_pure_bind (fun _ _ => trivial) (fun t ht => ?_)
  have hknows : Knows me.id table node.id
      [⟨.require me.id table .read, .ok node⟩, ⟨.authenticate token, .ok me⟩] := ⟨rfl, rfl⟩
  refine ⟨⟨me.id, table, .read, node, List.mem_cons_self, hknows.checked, ?_⟩, fun a => ?_⟩
  · unfold sqliteTableOf at ht
    split at ht
    · cases ht
    unfold Tables.tableName at ht
    split at ht
    · rename_i hname
      cases ht
      exact hname
    · cases ht
  · cases a with
    | error e => exact trivial
    | ok rows =>
        exact obeys_recheck (hknows.cons rfl) fun k hk =>
          .inr ⟨t, sql, rows, List.mem_cons_self, hk⟩

theorem obeys_toolCall (token node o : String) (args : Json) (curl : Bool) :
    (toolCall token node o args curl).run.Obeys (Performs (.toolCall token node o args curl))
      (Returns (.toolCall token node o args curl)) [] := by
  unfold toolCall
  refine obeys_caller_bind (fun _ _ => trivial) (fun me _ => ?_) rfl
  refine obeys_required_bind (fun _ _ => trivial) ⟨rfl, rfl, .inl rfl⟩ (fun tool => ?_)
  refine obeys_mk_pure_bind (fun _ _ => trivial) (fun cfg _ => ?_)
  have hknows : Knows me.id node tool.id
      [⟨.require me.id node .read, .ok tool⟩, ⟨.authenticate token, .ok me⟩] := ⟨rfl, rfl⟩
  refine ⟨trivial, fun a => ?_⟩
  cases a with
  | error e => exact trivial
  | ok out => exact obeys_recheck (hknows.cons rfl) fun k hk => .inl (Option.some.inj hk)

theorem obeys_await {n : Node} {m : Uuid} {wakeups : ℕ} {f : Option Settlement → Answered}
    (h : Knows n.id name id x) (hsource : ∀ o, (f o).source = some id) :
    (ExceptT.lift (awaitSettlement m wakeups) >>= fun settled =>
      required n name op.needs >>= fun _ => pure (f settled) : CliM Answered).run.Obeys
        (Performs op) (Returns op) x := by
  have hwait : (ExceptT.lift (ε := Refusal) (awaitSettlement m wakeups)).run.Obeys (Performs op)
      (fun y r => Knows n.id name id y ∧ ∃ o, r = .ok o) x := by
    refine Program.Obeys.bind (obeys_awaitSettlement h m wakeups) ?_
    intro y o hy
    exact ⟨hy, o, rfl⟩
  refine Program.Obeys.run_bind hwait ?_ ?_
  · intro y o hy
    refine obeys_recheck hy.1 fun k hk => .inl ?_
    rw [hsource o] at hk
    exact Option.some.inj hk
  · rintro y e ⟨-, o, h⟩
    cases h

theorem obeys_msg (token : String) (b : MsgBody) (wakeups : ℕ) :
    (msg token b wakeups).run.Obeys (Performs (.msg token b wakeups))
      (Returns (.msg token b wakeups)) [] := by
  unfold msg
  refine obeys_caller_bind (fun _ _ => trivial) (fun me _ => ?_) rfl
  split
  · exact trivial
  split
  · exact trivial
  refine ⟨trivial, fun a => ?_⟩
  cases a with
  | error e => exact trivial
  | ok m =>
      have hknows : Knows me.id b.target m.toId
          [⟨.sendMessage me b, .ok m⟩, ⟨.authenticate token, .ok me⟩] := ⟨rfl, rfl⟩
      change (received me b wakeups m).run.Obeys _ _ _
      unfold received
      split
      · intro k hk
        cases hk
      · exact obeys_await hknows fun _ => rfl

theorem obeys_sent (token : String) (m : Uuid) (wait : Option ℕ) (wakeups : ℕ) :
    (sent token m wait wakeups).run.Obeys (Performs (.sent token m wait wakeups))
      (Returns (.sent token m wait wakeups)) [] := by
  unfold sent
  refine obeys_caller_bind (fun _ _ => trivial) (fun me _ => ?_) rfl
  refine ⟨trivial, fun a => ?_⟩
  cases a with
  | error e => exact trivial
  | ok found =>
      have hknows : Knows me.id found.2.name.raw found.1.toId
          [⟨.findSent me m wait.isSome, .ok found⟩, ⟨.authenticate token, .ok me⟩] := ⟨rfl, rfl⟩
      exact obeys_await hknows fun _ => rfl

theorem obeys_body (L : Libs) (op : Op) : (body L op).Obeys (Performs op) (Returns op) [] := by
  have hchange (q : Section) (hq : Performs op [] q) :
      (change q).run.Obeys (Performs op) (Returns op) [] := by
    refine ⟨hq, fun a k hk => ?_⟩
    cases hk
  cases op with
  | query token table sql => exact obeys_query L token table sql
  | msg token b wakeups => exact obeys_msg token b wakeups
  | sent token id wait wakeups => exact obeys_sent token id wait wakeups
  | toolCall token node op args curl => exact obeys_toolCall token node op args curl
  | edit e => exact hchange _ ⟨e, rfl⟩
  | message m => exact hchange _ trivial

end Obeys

/-! ## What a section does -/

section Sections

variable {L : Libs} {s t : Project} {w : World} {b : Board} {me id : Uuid} {name : String}
  {ty : WireType} {n : Node} {q : Section} {a : q.Answer}

theorem named_eq_some (h : named b name = some n) :
    n ∈ b.nodes.rows ∧ n.name.raw = name := by
  have hname := List.find?_some h
  exact ⟨List.mem_of_find?_eq_some h, of_decide_eq_true hname⟩

theorem require_eq_ok (h : require b me name ty = .ok n) :
    named b name = some n ∧ Holds b me n.id ty := by
  unfold require at h
  split at h
  · cases h
  rename_i k hk
  split at h
  · cases h
  rename_i m hm
  split at h
  · rename_i hwire
    cases h
    refine ⟨hk, by rw [hm]; rfl, n, Board.get_id (named_eq_some hk).1, ?_⟩
    rwa [(Board.get_eq_some_iff.mp hm).2] at hwire
  · cases h

theorem sendMessage_eq_ok {m : Node} {body : MsgBody} {row : MessageRow}
    (h : (sendMessage L s w m body).2 = .ok row) :
    ∃ n, named s.board body.target = some n ∧ n.id = row.toId := by
  unfold sendMessage at h
  split at h
  · cases h
  rename_i n hn
  split at h
  · cases h
  dsimp only at h
  split at h
  · cases h
  · cases h
    exact ⟨n, (require_eq_ok hn).1, rfl⟩

theorem findSent_eq_ok {m : Node} {waits : Bool} {found : MessageRow × Node}
    (h : findSent s w m id waits = .ok found) : s.board.get found.1.toId = some found.2 := by
  unfold findSent at h
  split at h
  · cases h
  split at h
  · cases h
  rename_i peer hpeer
  split at h
  · cases h
  split at h
  · cases h
  · cases h
    exact hpeer

theorem board_sendMessage (m : Node) (body : MsgBody) :
    (sendMessage L s w m body).1.board = s.board := by
  unfold sendMessage
  split
  · rfl
  split
  · rfl
  dsimp only
  split <;> rfl

/-- Only an edit changes the board. -/
theorem board_exec (h : exec L q s w = some (t, a)) :
    (∃ e, q = .edit e ∧ t.board = e.apply L s.board) ∨ t.board = s.board := by
  cases q with
  | edit e =>
      cases h
      exact .inl ⟨e, rfl, rfl⟩
  | sendMessage m body =>
      injection h with h
      have ht : (sendMessage L s w m body).1 = t := congrArg Prod.fst h
      rw [← ht]
      exact .inr (board_sendMessage m body)
  | _ =>
      cases h
      exact .inr rfl

/-- What is checked is a node of the board that has the name. -/
theorem checks_exec (h : exec L q s w = some (t, a)) (hc : checks q a = some (name, id)) :
    ∃ n ∈ s.board.nodes.rows, n.name.raw = name ∧ n.id = id := by
  cases q with
  | require me target ty =>
      injection h with h
      injection h with _ h
      cases a with
      | error d => cases hc
      | ok n =>
          cases hc
          obtain ⟨hn, hname⟩ := named_eq_some (require_eq_ok h).1
          exact ⟨n, hn, hname, rfl⟩
  | sendMessage m body =>
      injection h with h
      cases a with
      | error d => cases hc
      | ok row =>
          cases hc
          obtain ⟨n, hn, hid⟩ := sendMessage_eq_ok (congrArg Prod.snd h)
          obtain ⟨hn, hname⟩ := named_eq_some hn
          exact ⟨n, hn, hname, hid⟩
  | findSent m k waits =>
      injection h with h
      injection h with _ h
      cases a with
      | error d => cases hc
      | ok found =>
          cases hc
          obtain ⟨hn, hid⟩ := Board.get_eq_some_iff.mp (findSent_eq_ok h)
          exact ⟨found.2, hn, rfl, hid⟩
  | _ => cases hc

theorem ownerOf_eq_some {table : String} (h : ownerOf b table = some id) :
    ∃ n ∈ b.nodes.rows, n.name.sqliteTable = some table ∧ n.id = id := by
  obtain ⟨n, hn, hid⟩ := Option.map_eq_some_iff.mp h
  have hfind := List.find?_some hn
  have htable := (Bool.and_eq_true_iff.mp hfind).2
  exact ⟨n, List.mem_of_find?_eq_some hn, of_decide_eq_true htable, hid⟩

theorem raw_eq_of_sqliteTable {n k : NodeName} {table : String} (hn : n.sqliteTable = some table)
    (hk : k.sqliteTable = some table) : n.raw = k.raw := by
  unfold NodeName.sqliteTable at hn hk
  split at hn
  · cases hn
  split at hk
  · cases hk
  have h := (Option.some.inj hn).trans (Option.some.inj hk).symm
  exact String.append_right_inj _ |>.mp h

/-! ### Names -/

theorem uniqueNames_of_nodesAfter {b' : Board} (h : Board.NodesAfter b b') (hb : UniqueNames b) :
    UniqueNames b' := by
  have hmem {n : Node} (hn : n ∈ b'.nodes.rows) : b'.get n.id = some n := Board.get_id hn
  cases h with
  | same h =>
      intro n hn n' hn'
      rw [h] at hn hn'
      exact hb n hn n' hn'
  | written node hpath hname hget =>
      have hcases {n : Node} (hn : n ∈ b'.nodes.rows) :
          n = node ∨ n ∈ b.nodes.rows := by
        have h := hmem hn
        rw [hget] at h
        split at h
        · exact .inl (Option.some.inj h).symm
        · exact .inr (Board.get_eq_some_iff.mp h).1
      intro n hn n' hn' hnn
      rcases hcases hn with rfl | hold
      · rcases hcases hn' with rfl | hold'
        · rfl
        · exact (hname n' hold' hnn.symm).symm
      · rcases hcases hn' with rfl | hold'
        · exact hname n hold hnn
        · exact hb n hold n' hold' hnn
  | deleted id hget =>
      have hold {n : Node} (hn : n ∈ b'.nodes.rows) : n ∈ b.nodes.rows := by
        have h := hmem hn
        rw [hget] at h
        split at h
        · cases h
        · exact (Board.get_eq_some_iff.mp h).1
      exact fun n hn n' hn' => hb n (hold hn) n' (hold hn')

theorem nodes_addWire {source target : Uuid} {grantedBy : Option Uuid} :
    (b.addWire source target ty grantedBy).1.nodes = b.nodes := by
  unfold Board.addWire
  split
  · rfl
  · rfl
  split
  · rfl
  dsimp only
  split
  · rfl
  split
  · rename_i h
    unfold Board.insertWire at h
    split at h
    · cases h
      rfl
    split at h
    · cases h
    · cases h
      rfl
  · rfl

theorem uniqueNames_apply (hb : UniqueNames b) (e : Edit) : UniqueNames (e.apply L b) := by
  cases e with
  | board op => exact uniqueNames_of_nodesAfter (Board.nodesAfter_apply op) hb
  | addWire source target ty grantedBy =>
      exact uniqueNames_of_nodesAfter (.same nodes_addWire) hb
  | removeWire source target ty => exact uniqueNames_of_nodesAfter (.same rfl) hb

end Sections

/-! ## Runs -/

/-- What holds of a call at every moment of a run that keeps the names. -/
structure CallOk (c : CliCall) (b : Board) : Prop where
  obeys : c.rest.Obeys (Performs c.name) (Returns c.name) c.past
  kept : NameKept c b
  names : ∀ me name ty n, ⟨.require me name ty, .ok n⟩ ∈ c.past → n.name.raw = name
  owners : ∀ table sql rows id, ⟨.readTable table sql, .ok rows⟩ ∈ c.past →
    rows.owner = some id → ∃ name, Past.checked c.past = some (name, id)

section Runs

variable {L : Libs} {s : CliCalls} {c d : CliCall} {t : Project} {w : World} {n : ℕ} {q : Section}
  {a : q.Answer} {k : q.Answer → Program Section.Answer (Except Refusal Answered)} {id : Uuid}

/-- A section of another call, or of the call itself, leaves a name with its node. -/
theorem nameKept_of_step {b : CliCall} (hs : Calls.Holds (fun u => UniqueNames u.board)
      (fun c u => CallOk c u.board) s) (he : KeepsNames L s (.step n w)) (hc : s.calls[n]? = some c)
    (hp : c.perform (service L) s.shared w = some (t, d)) (hb : b ∈ s.calls) :
    NameKept b t.board := by
  obtain ⟨m, hm⟩ := List.mem_iff_getElem?.mp hb
  obtain ⟨q, k, a, hrest, hexec, -⟩ := Call.perform_eq_some_iff.mp hp
  rcases board_exec hexec with ⟨e, rfl, -⟩ | hboard
  · have hobeys := (hs.calls n c hc).obeys
    rw [hrest] at hobeys
    exact he n w c d t rfl hc hobeys.1 hp b hb
  · rw [hboard]
    exact (hs.calls m b hm).kept

theorem nameKept_own (hu : UniqueNames s.shared.board) (hkeep : NameKept c t.board)
    (hrest : c.rest = .act q k) (hexec : exec L q s.shared w = some (t, a)) :
    NameKept ⟨c.name, ⟨q, a⟩ :: c.past, k a⟩ t.board := by
  intro _ name id hchecked m hm hname
  dsimp only at hchecked
  rw [checked_cons] at hchecked
  cases hold : Past.checked c.past with
  | some x =>
      rw [hold] at hchecked
      cases hchecked
      exact hkeep (by rw [hrest]; rfl) name id hold m hm hname
  | none =>
      rw [hold] at hchecked
      obtain ⟨m', hm', hname', hid⟩ := checks_exec hexec hchecked
      rcases board_exec hexec with ⟨e, rfl, -⟩ | hboard
      · cases hchecked
      · rw [hboard] at hm
        rw [← hid]
        exact hu m hm m' hm' (NodeName.ext_raw (hname.trans hname'.symm))

theorem names_own (hc : CallOk c s.shared.board) (hexec : exec L q s.shared w = some (t, a)) :
    ∀ me name ty n, ⟨.require me name ty, .ok n⟩ ∈ (⟨q, a⟩ :: c.past : Past) →
      n.name.raw = name := by
  intro me name ty n hmem
  rcases List.mem_cons.mp hmem with heq | hmem
  · cases heq
    injection hexec with h
    injection h with _ h
    exact (named_eq_some (require_eq_ok h).1).2
  · exact hc.names me name ty n hmem

theorem owners_own (hc : CallOk c s.shared.board) (hrest : c.rest = .act q k)
    (hexec : exec L q s.shared w = some (t, a)) :
    ∀ table sql rows id, ⟨.readTable table sql, .ok rows⟩ ∈ (⟨q, a⟩ :: c.past : Past) →
      rows.owner = some id → ∃ name, Past.checked (⟨q, a⟩ :: c.past) = some (name, id) := by
  intro table sql rows id hmem howner
  have hchecked : ∃ name, Past.checked c.past = some (name, id) := by
    rcases List.mem_cons.mp hmem with heq | hmem
    · cases heq
      have hobeys := hc.obeys
      rw [hrest] at hobeys
      obtain ⟨me, name, ty, node, hin, hchecked, htable⟩ := hobeys.1
      injection hexec with h
      injection h with _ h
      unfold readTable at h
      cases hsql : L.runSql sql (s.shared.board.tables table) with
      | error e =>
          rw [hsql] at h
          cases h
      | ok r =>
          rw [hsql] at h
          cases h
          obtain ⟨m, hm, hmtable, rfl⟩ := ownerOf_eq_some howner
          refine ⟨name, ?_⟩
          rw [hchecked]
          have hname := (raw_eq_of_sqliteTable hmtable htable).trans (hc.names me name ty node hin)
          rw [hc.kept (by rw [hrest]; rfl) name node.id hchecked m hm hname]
    · exact hc.owners table sql rows id hmem howner
  obtain ⟨name, hchecked⟩ := hchecked
  refine ⟨name, ?_⟩
  rw [checked_cons, hchecked]
  rfl

/-- In a run that keeps the names every call knows whose data it has. -/
theorem keeps_callOk (L : Libs) : Calls.Keeps (service L) (fun u => UniqueNames u.board)
    (fun c u => CallOk c u.board) (KeepsNames L) where
  start _ _ := by
    constructor
    · exact obeys_body L _
    · intro _ name id h
      cases h
    · intro me name ty n h
      cases h
    · intro table sql rows id h
      cases h
  shared hs _ _ hp := by
    obtain ⟨q, k, a, -, hexec, -⟩ := Call.perform_eq_some_iff.mp hp
    rcases board_exec hexec with ⟨e, -, hboard⟩ | hboard
    · rw [hboard]
      exact uniqueNames_apply hs.shared e
    · rw [hboard]
      exact hs.shared
  own hs he hc hp := by
    have hok := hs.calls _ _ hc
    have hkeep := nameKept_of_step hs he hc hp (List.mem_of_getElem? hc)
    obtain ⟨q, k, a, hrest, hexec, rfl⟩ := Call.perform_eq_some_iff.mp hp
    constructor
    · have hobeys := hok.obeys
      rw [hrest] at hobeys
      exact hobeys.2 a
    · exact nameKept_own hs.shared hkeep hrest hexec
    · exact names_own hok hexec
    · exact owners_own hok hrest hexec
  others hs he hc hp _ hb := by
    have hok := hs.calls _ _ hb
    exact ⟨hok.obeys, nameKept_of_step hs he hc hp (List.mem_of_getElem? hb), hok.names,
      hok.owners⟩

/-- What is disclosed is disclosed by a second check of the same node. -/
theorem disclosure_eq_some (h : disclosure L s (.step n w) = some (d, id)) :
    ∃ c t answered, s.calls[n]? = some c ∧ c.perform (service L) s.shared w = some (t, d) ∧
      d.rest = .done (.ok answered) ∧ answered.source = some id := by
  unfold disclosure at h
  obtain ⟨⟨t, d'⟩, hr, h⟩ := Option.bind_eq_some_iff.mp h
  obtain ⟨c, hc, hp⟩ := Option.bind_eq_some_iff.mp hr
  split at h
  · rename_i answered hres
    obtain ⟨id', hsource, heq⟩ := Option.map_eq_some_iff.mp h
    cases heq
    exact ⟨c, t, answered, hc, hp, Program.result?_eq_some_iff.mp hres, hsource⟩
  · cases h

theorem disclosed_of_callOk (hs : Calls.Holds (fun u => UniqueNames u.board)
      (fun c u => CallOk c u.board) s) (he : KeepsNames L s (.step n w))
    (h : disclosure L s (.step n w) = some (d, id)) :
    ∃ me name m, Past.caller d.past = some me ∧ Past.checked d.past = some (name, id) ∧
      named s.shared.board name = some m ∧ m.id = id ∧
      Holds s.shared.board me id d.name.needs := by
  obtain ⟨c, t, answered, hc, hp, hdone, hsource⟩ := disclosure_eq_some h
  have hown := (keeps_callOk L).own hs he hc hp
  have hreturns := hown.obeys
  rw [hdone] at hreturns
  obtain ⟨y, me, name, k, m, hpast, hcaller, hchecked, hk⟩ := hreturns id hsource
  obtain ⟨q, f, a, hrest, hexec, rfl⟩ := Call.perform_eq_some_iff.mp hp
  dsimp only at hpast hdone ⊢
  injection hpast with hqa hy
  subst hy
  cases hqa
  injection hexec with hexec
  injection hexec with _ hexec
  obtain ⟨hnamed, hholds⟩ := require_eq_ok hexec
  obtain ⟨hm, hname⟩ := named_eq_some hnamed
  have hok := hs.calls _ _ hc
  have hmk := hok.kept (by rw [hrest]; rfl) name k hchecked m hm hname
  have hkid : k = id := by
    rcases hk with rfl | ⟨table, sql, rows, hrows, howner⟩
    · rfl
    · obtain ⟨name', hchecked'⟩ := hok.owners table sql rows id hrows howner
      rw [hchecked] at hchecked'
      exact congrArg Prod.snd (Option.some.inj hchecked')
  subst hkid
  refine ⟨me, name, m, ?_, ?_, hnamed, hmk, hmk ▸ hholds⟩
  · rw [caller_cons, hcaller]
    rfl
  · rw [checked_cons, hchecked]
    rfl

end Runs

/-- In every run in which no edit hands a name that an unfinished call has checked to
another node, a call gives data only of the node that it checked first, which still has
its name, and only while its caller holds the wire to it. -/
theorem disclosed_same_node (L : Libs) (p : Project) (hp : UniqueNames p.board)
    (x : List (Turn Op World))
    (hx : Run.Always (Calls.step (service L)) (KeepsNames L) (Calls.idle p) x) :
    Run.Always (Calls.step (service L)) (fun s e => HeldAtDisclosure L s e ∧ SameNode L s e)
      (Calls.idle p) x := by
  refine (keeps_callOk L).always ?_ (Calls.holds_idle hp) hx
  intro s e hs he
  cases e with
  | start x =>
      constructor
      · intro c id h
        cases h
      · intro c id h
        cases h
  | step n w =>
      constructor
      · intro c id h
        obtain ⟨me, -, -, hcaller, -, -, -, hholds⟩ := disclosed_of_callOk hs he h
        exact ⟨me, hcaller, hholds⟩
      · intro c id h
        obtain ⟨-, name, m, -, hchecked, hnamed, hid, -⟩ := disclosed_of_callOk hs he h
        exact ⟨name, m, hchecked, hnamed, hid⟩

/-! ## A name that moves while a call waits -/

/-- A database without tables is all that a message needs. -/
def noLibs : Libs where
  lite := ⟨fun _ => true, fun _ => .syntaxError, fun _ => none, fun _ => "", fun _ => "",
    fun _ => none, fun _ => "", fun _ => none⟩
  allowHosts := []
  runSql _ _ := .ok (.arr [])
  escape := id
  sha256 := id

def plainAgentConfig : AgentConfig := ⟨.claude, none, "", false, false, none, none, [], none⟩

def agentNode (id : Uuid) (name : NodeName) : Node := ⟨id, name, ⟨0, 0⟩, .agent plainAgentConfig⟩

def nameA : NodeName := ⟨"a", by decide +kernel⟩
def nameB : NodeName := ⟨"b", by decide +kernel⟩
def nameC : NodeName := ⟨"c", by decide +kernel⟩
def nameOld : NodeName := ⟨"old", by decide +kernel⟩

/-- An agent `a` that may send to the agents `b` and `c`. -/
def threeAgents : Project where
  board :=
    { Board.empty with
      nodes := ⟨[agentNode 1 nameA, agentNode 2 nameB, agentNode 3 nameC], by decide⟩
      wires := [⟨1, 2, .send, none⟩, ⟨1, 3, .send, none⟩] }
  tokens token := if token = "tok" then some 1 else none
  messages := Keyed.empty

theorem uniqueNames_threeAgents : UniqueNames threeAgents.board := by
  unfold UniqueNames
  decide +kernel

/-- What is decided elsewhere when a call makes a step at time `now`. -/
def worldAt (now : Timestamp) : World := ⟨.ok .null, none, 9, now⟩

/-- A change, made at once; `n` is the number of calls there are. -/
def changes (n : ℕ) (op : Op) : List (Turn Op World) := [.start op, .step n (worldAt 0)]

/-- The agent sends a message to `b` and waits; `b` takes its turn and answers. -/
def awaited : List (Turn Op World) :=
  [.start (.msg "tok" ⟨"b", "hello", none, some 5, false⟩ 0), .step 0 (worldAt 0),
    .step 0 (worldAt 0)] ++ changes 1 (.message (.advance 9 .delivered 1)) ++
    changes 2 (.message (.complete 9 (some "secret") 2)) ++ [.step 0 (worldAt 0)]

/-- No edit is started. -/
def NoEdit (_ : CliCalls) (e : Turn Op World) : Prop := ∀ change, e ≠ .start (.edit change)

/-- Without an edit every name stays with its node. -/
theorem always_keepsNames (L : Libs) {p : Project} {x : List (Turn Op World)}
    (hx : Run.Always (Calls.step (service L)) NoEdit (Calls.idle p) x) :
    Run.Always (Calls.step (service L)) (KeepsNames L) (Calls.idle p) x := by
  have hkeeps : Calls.Keeps (service L) (fun _ => True) (fun c _ => ∀ e, c.name ≠ .edit e)
      NoEdit := by
    constructor
    · intro s op _ hop e h
      have hop' : op = .edit e := h
      exact hop e (by rw [hop'])
    · intros
      trivial
    · intro s n o c t d hs _ hc hp
      obtain ⟨q, k, a, -, -, rfl⟩ := Call.perform_eq_some_iff.mp hp
      exact hs.calls n c hc
    · intro s n o c t d m b hs _ _ _ _ hb
      exact hs.calls m b hb
  refine hkeeps.always ?_ (Calls.holds_idle trivial) hx
  rintro s e hs - n o c d t rfl hc ⟨change, hname⟩
  exact absurd hname (hs.calls n c hc change)

/-- A run without edits in which the answer of `b` is given. -/
theorem disclosed_same_node_awaited :
    UniqueNames threeAgents.board ∧
      Run.Always (Calls.step (service noLibs)) (KeepsNames noLibs) (Calls.idle threeAgents)
        (awaited ++ [.step 0 (worldAt 0)]) ∧
      Run.Always (Calls.step (service noLibs))
        (fun s e => HeldAtDisclosure noLibs s e ∧ SameNode noLibs s e) (Calls.idle threeAgents)
        (awaited ++ [.step 0 (worldAt 0)]) ∧
      (disclosure noLibs (Run.run (Calls.step (service noLibs)) (Calls.idle threeAgents) awaited)
        (.step 0 (worldAt 0))).map (fun r => r.2) = some 2 := by
  have hx : Run.Always (Calls.step (service noLibs)) (KeepsNames noLibs) (Calls.idle threeAgents)
      (awaited ++ [.step 0 (worldAt 0)]) := by
    apply always_keepsNames
    simp [awaited, changes, Run.Always, NoEdit]
  refine ⟨uniqueNames_threeAgents, hx, ?_, by decide +kernel⟩
  exact disclosed_same_node noLibs threeAgents uniqueNames_threeAgents _ hx

/-- The wire to `b` is taken away, and `c` is given the name `b`. -/
def moved : List (Turn Op World) :=
  changes 3 (.edit (.board (.update (agentNode 2 nameOld)))) ++
    changes 4 (.edit (.removeWire 1 2 .send)) ++
    changes 5 (.edit (.board (.update (agentNode 3 nameB))))

/-- The state before the last check of the agent. -/
def swapped : CliCalls := Run.run (Calls.step (service noLibs)) (Calls.idle threeAgents)
  (awaited ++ moved)

/-- The answer is data of `b`. -/
theorem disclosure_swapped :
    (disclosure noLibs swapped (.step 0 (worldAt 0))).map (fun r => r.2) = some 2 := by
  decide +kernel

/-- No wire to it is left. -/
theorem wires_swapped : swapped.shared.board.wires.all (fun w => w.target ≠ 2) = true := by
  decide +kernel

/-- The answer of `b` is given over the wire to `c`. -/
theorem disclosed_other_node : ¬ ∀ (L : Libs) (p : Project), UniqueNames p.board →
    ∀ x : List (Turn Op World),
      Run.Always (Calls.step (service L)) (fun s e => HeldAtDisclosure L s e ∧ SameNode L s e)
        (Calls.idle p) x := by
  intro h
  have hrun := h noLibs threeAgents uniqueNames_threeAgents
    ((awaited ++ moved) ++ [.step 0 (worldAt 0)])
  have hlast : HeldAtDisclosure noLibs swapped (.step 0 (worldAt 0)) :=
    (Run.always_append.mp hrun).2.1.1
  obtain ⟨⟨c, id⟩, hd, hid⟩ := Option.map_eq_some_iff.mp disclosure_swapped
  obtain ⟨me, -, -, n, -, hwire⟩ := hlast c id hd
  cases hid
  obtain ⟨w, hw, hwire⟩ := List.any_eq_true.mp hwire
  have hother := List.all_eq_true.mp wires_swapped w hw
  simp only [Bool.and_eq_true, decide_eq_true_eq] at hwire hother
  exact hother hwire.1.2

end Wheel.Cli
