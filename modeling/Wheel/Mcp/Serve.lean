import Wheel.Mcp.Bridge
import Wheel.Data.JsonText
import Wheel.Text.Lines

/-!
# The bridge's loop

The bridge reads JSON-RPC from its input, line by line, and writes a frame for each request. What
a line is owed is the id of the reply to it, `owed`: null for a malformed line, the request's own
id, and nothing for a blank line or a notification. `serve_iff` says for which inputs every line
gets exactly the reply it is owed and the loop ends at the end of input only.
-/

namespace Wheel

namespace Json

/-- Change the members of a name, if there are any. -/
def modify (k : String) (f : Json → Json) : Json → Json
  | obj members => obj (members.map fun m => if m.1 = k then (m.1, f m.2) else m)
  | v => v

theorem get?_modify_of_ne {k k' : String} (h : k' ≠ k) (f : Json → Json) (v : Json) :
    (v.modify k f).get? k' = v.get? k' := by
  cases v with
  | obj members =>
      have hstep : ∀ ms : List (String × Json),
          ((ms.map fun m => if m.1 = k then (m.1, f m.2) else m).find? fun m => m.1 = k') =
            ms.find? fun m => m.1 = k' := by
        intro ms
        induction ms with
        | nil => rfl
        | cons m ms ih =>
            rw [List.map_cons, List.find?_cons, List.find?_cons, ih]
            by_cases hm : m.1 = k
            · have hne : ¬m.1 = k' := fun heq => h (heq.symm.trans hm)
              rw [if_pos hm, decide_eq_false hne]
            · rw [if_neg hm]
      rw [modify, get?, get?, ← List.map_reverse, hstep]
  | _ => rfl

/-- Add an item to an array. -/
def push (item : Json) : Json → Json
  | arr items => arr (items ++ [item])
  | v => v

end Json

namespace Mcp

/-! ## The pieces of others -/

/-- What the bridge takes from libraries and from the engine's update records. -/
structure Lib where
  /-- Parse a JSON text. -/
  parse : String → Option Json
  /-- How a number that is no integer is written. -/
  floatText : ℚ → String
  /-- A text as it is quoted in a message. -/
  debugText : String → String
  /-- The target and the line of an update header. -/
  notice : String → Option (String × String)

/-- A reply of the engine. -/
structure EngineReply where
  status : ℕ
  body : Json
  /-- The update header. -/
  update : Option String

/-- What becomes of the call that a line makes to the engine, if it makes one. -/
abbrev Outcome := Route → Except String EngineReply

/-! ## Frames -/

def protocolVersion : String := "2024-11-05"

def packageVersion : String := "0.1.0"

def result (id value : Json) : Json := .obj [("jsonrpc", .str "2.0"), ("id", id), ("result", value)]

def error (id : Json) (code : ℤ) (message : String) : Json :=
  .obj [("jsonrpc", .str "2.0"), ("id", id),
    ("error", .obj [("code", .int code), ("message", .str message)])]

/-- A text as the content of a tool's result. -/
def textContent (text : String) : Json := .obj [("type", .str "text"), ("text", .str text)]

def toolResult (id : Json) (text : String) (isError : Bool) : Json :=
  result id (.obj [("content", .arr [textContent text]), ("isError", .bool isError)])

/-- A failure that the model is to handle, inside a successful response. -/
def toolError (id : Json) (message : String) : Json := toolResult id message true

/-- The member of an object, null where there is none. -/
def member (v : Json) (k : String) : Json := (v.get? k).getD .null

def replyMessage (r : EngineReply) : String :=
  (((r.body.get? "error").bind (·.get? "message")).bind Json.asStr).getD
    ("engine returned " ++ toString r.status)

def jsonText (lib : Lib) (v : Json) : String := String.ofList (v.print lib.floatText)

/-- A text as it is; anything else as JSON. -/
def render (lib : Lib) (v : Json) : String :=
  match v with
  | .str s => s
  | .obj _ => ((v.get? "value").bind Json.asStr).getD (jsonText lib v)
  | _ => jsonText lib v

/-- An awaited message as a tool's result. -/
def awaitedResult (id v : Json) : Json :=
  let mid := (member v "id").asStr.getD "?"
  match (member v "outcome").asStr.getD "" with
  | "consumed" => toolResult id ((member v "result").asStr.getD "") false
  | "timeout" | "pending" =>
      toolError id ("message " ++ mid ++ " is still " ++
        (member v "state").asStr.getD "on its way" ++
        ": no answer yet. Call `sent` with this id later to collect it.")
  | other =>
      toolError id ("message " ++ mid ++ " " ++ other ++ ": " ++
        (member v "error").asStr.getD "no detail")

/-! ## One request -/

/-- What the bridge has told its model. -/
structure Session where
  told : Option String

/-- The notice line, the first time a session sees its target. -/
def Session.firstSight (lib : Lib) (s : Session) (raw : Option String) : Option String × Session :=
  match raw.bind lib.notice with
  | none => (none, s)
  | some (target, line) =>
      if s.told = some target then (none, s)
      else (some ("wheel: " ++ line), { told := some target })

/-- Put a notice behind the content of a tool's result. -/
def addNotice (line : String) (out : Json) : Json :=
  out.modify "result" (Json.modify "content" (Json.push (textContent line)))

def callTool (lib : Lib) (engine : Outcome) (id req : Json) (s : Session) : Json × Session :=
  let params := (req.get? "params").getD (.obj [])
  let name := ((params.get? "name").bind Json.asStr).getD ""
  let args := (params.get? "arguments").getD (.obj [])
  match routeFor name args with
  | none => (error id (-32602) ("unknown tool " ++ lib.debugText name), s)
  | some route =>
      match engine route with
      | .error e => (toolError id e, s)
      | .ok r =>
          let seen := s.firstSight lib r.update
          let told := seen.1.filter fun _ => name ≠ "update"
          let out :=
            if 300 ≤ r.status then toolError id (replyMessage r)
            else if name = "ask" ∨ name = "sent" then awaitedResult id r.body
            else toolResult id (render lib r.body) false
          (match told with
            | some line => addNotice line out
            | none => out, seen.2)

/-- Handle one request. A notification takes no reply. -/
def handle (lib : Lib) (engine : Outcome) (req : Json) (s : Session) : Option Json × Session :=
  match req.get? "id" with
  | none => (none, s)
  | some id =>
      match ((req.get? "method").bind Json.asStr).getD "" with
      | "initialize" =>
          (some (result id (.obj [("protocolVersion", .str protocolVersion),
            ("capabilities", .obj [("tools", .obj [("listChanged", .bool false)])]),
            ("serverInfo", .obj [("name", .str "wheel"), ("version", .str packageVersion)])])), s)
      | "ping" => (some (result id (.obj [])), s)
      | "tools/list" =>
          (some (match engine (.get "/v1/cli/mcp/tools") with
            | .ok r =>
                if r.status < 300 then result id (.obj [("tools", member r.body "tools")])
                else error id (-32603) (replyMessage r)
            | .error e => error id (-32603) e), s)
      | "tools/call" =>
          let called := callTool lib engine id req s
          (some called.1, called.2)
      | other => (some (error id (-32601) ("unknown method " ++ lib.debugText other)), s)

/-! ## The loop -/

/-- The lines of an input, `none` for one that is no text. -/
def inputLines (input : List UInt8) : List (Option (List Char)) :=
  ((input.splitOn 10).dropLast.map fun x => (Text.decodeUtf8? x).map Text.dropCr) ++
    ((input.splitOn 10).getLast?.toList.filter (· ≠ [])).map Text.decodeUtf8?

/-- The frames written for the lines from the `n`-th on, and whether the loop came to the end of
input. -/
def serveLines (lib : Lib) (engine : ℕ → Outcome) :
    ℕ → Session → List (Option (List Char)) → List Json × Bool
  | _, _, [] => ([], true)
  | _, _, none :: _ => ([], false)
  | n, s, some line :: rest =>
      if Text.trim line = [] then serveLines lib engine (n + 1) s rest
      else
        match lib.parse (String.ofList line) with
        | none =>
            let later := serveLines lib engine (n + 1) s rest
            (error .null (-32700) "invalid JSON" :: later.1, later.2)
        | some req =>
            let handled := handle lib (engine n) req s
            let later := serveLines lib engine (n + 1) handled.2 rest
            (handled.1.toList ++ later.1, later.2)

/-- Read JSON-RPC from the input and write the responses. -/
def serve (lib : Lib) (engine : ℕ → Outcome) (input : List UInt8) : List Json × Bool :=
  serveLines lib engine 0 ⟨none⟩ (inputLines input)

/-! ## What a line is owed -/

/-- The id of the reply that a line is owed, if it is owed one. -/
def owed (lib : Lib) : Option (List Char) → Option Json
  | none => some .null
  | some line =>
      if Text.trim line = [] then none
      else
        match lib.parse (String.ofList line) with
        | none => some .null
        | some req => req.get? "id"

/-- Every line gets the reply it is owed, in order, and the loop ends at the end of input. -/
def AnswersOnce (lib : Lib) (engine : ℕ → Outcome) (input : List UInt8) : Prop :=
  (serve lib engine input).1.map (·.get? "id") =
      ((inputLines input).filterMap (owed lib)).map some ∧
    (serve lib engine input).2 = true

theorem get?_id_result (id value : Json) : (result id value).get? "id" = some id := by
  simp [result, Json.get?]

theorem get?_id_error (id : Json) (code : ℤ) (message : String) :
    (error id code message).get? "id" = some id := by
  simp [error, Json.get?]

theorem get?_id_toolResult (id : Json) (text : String) (isError : Bool) :
    (toolResult id text isError).get? "id" = some id :=
  get?_id_result id _

theorem get?_id_awaitedResult (id v : Json) : (awaitedResult id v).get? "id" = some id := by
  rw [awaitedResult]
  split <;> exact get?_id_toolResult id _ _

/-- A notice leaves the id of a frame. -/
theorem get?_id_addNotice (line : String) (out : Json) :
    (addNotice line out).get? "id" = out.get? "id" :=
  Json.get?_modify_of_ne (by decide) _ out

/-- Whatever comes of a tool call is answered under its id. -/
theorem get?_id_callTool (lib : Lib) (engine : Outcome) (id req : Json) (s : Session) :
    (callTool lib engine id req s).1.get? "id" = some id := by
  rw [callTool]
  dsimp only
  split
  · exact get?_id_error id _ _
  · next route _ =>
      cases engine route with
      | error e => exact get?_id_toolResult id e true
      | ok r =>
          dsimp only
          split
          · rw [get?_id_addNotice]
            split_ifs
            · exact get?_id_toolResult id _ _
            · exact get?_id_awaitedResult id _
            · exact get?_id_toolResult id _ _
          · split_ifs
            · exact get?_id_toolResult id _ _
            · exact get?_id_awaitedResult id _
            · exact get?_id_toolResult id _ _

/-- A request is answered once under its id, and a notification is not. -/
theorem map_get?_id_handle (lib : Lib) (engine : Outcome) (req : Json) (s : Session) :
    (handle lib engine req s).1.map (·.get? "id") = (req.get? "id").map some := by
  rw [handle]
  cases req.get? "id" with
  | none => rfl
  | some id =>
      dsimp only
      rw [Option.map_some]
      split
      · exact congrArg some (get?_id_result id _)
      · exact congrArg some (get?_id_result id _)
      · rw [Option.map_some]
        congr 1
        split
        · split_ifs
          · exact get?_id_result id _
          · exact get?_id_error id _ _
        · exact get?_id_error id _ _
      · exact congrArg some (get?_id_callTool lib engine id req s)
      · exact congrArg some (get?_id_error id _ _)

/-- Lines of text get the replies they are owed. -/
theorem serveLines_of_text (lib : Lib) (engine : ℕ → Outcome)
    {lines : List (Option (List Char))} (h : ∀ line ∈ lines, line ≠ none) (n : ℕ)
    (s : Session) :
    (serveLines lib engine n s lines).1.map (·.get? "id") =
        (lines.filterMap (owed lib)).map some ∧
      (serveLines lib engine n s lines).2 = true := by
  induction lines generalizing n s with
  | nil => exact ⟨rfl, rfl⟩
  | cons line rest ih =>
      have hrest : ∀ line ∈ rest, line ≠ none := fun x hx => h x (.tail _ hx)
      cases line with
      | none => exact absurd rfl (h none (.head _))
      | some line =>
          rw [serveLines, List.filterMap_cons, owed]
          split_ifs with hblank
          · exact ih hrest (n + 1) s
          · cases lib.parse (String.ofList line) with
            | none =>
                have hlater := ih hrest (n + 1) s
                refine ⟨?_, hlater.2⟩
                rw [List.map_cons, get?_id_error, hlater.1]
                rfl
            | some req =>
                have hlater := ih hrest (n + 1) (handle lib (engine n) req s).2
                have hid := map_get?_id_handle lib (engine n) req s
                refine ⟨?_, hlater.2⟩
                rw [List.map_append, hlater.1]
                cases hfirst : (handle lib (engine n) req s).1 with
                | none =>
                    rw [hfirst] at hid
                    cases hreq : req.get? "id" with
                    | none => simp [hreq]
                    | some id => simp [hreq] at hid
                | some frame =>
                    rw [hfirst] at hid
                    cases hreq : req.get? "id" with
                    | none => simp [hreq] at hid
                    | some id =>
                        rw [hreq] at hid
                        have hframe : frame.get? "id" = some id := Option.some_inj.1 hid
                        simp [hframe, hreq]

/-- The loop comes to the end of input over lines of text only. -/
theorem serveLines_snd {lib : Lib} {engine : ℕ → Outcome} {lines : List (Option (List Char))}
    {n : ℕ} {s : Session} (h : (serveLines lib engine n s lines).2 = true) :
    ∀ line ∈ lines, line ≠ none := by
  induction lines generalizing n s with
  | nil => exact fun _ hx => absurd hx List.not_mem_nil
  | cons line rest ih =>
      cases line with
      | none => exact absurd h (by simp [serveLines])
      | some line =>
          have hrest : ∀ line ∈ rest, line ≠ none := by
            rw [serveLines] at h
            split_ifs at h with hblank
            · exact ih h
            · cases hparse : lib.parse (String.ofList line) with
              | none =>
                  rw [hparse] at h
                  exact ih h
              | some req =>
                  rw [hparse] at h
                  exact ih h
          intro x hx
          rcases List.mem_cons.1 hx with rfl | hx
          · exact Option.some_ne_none line
          · exact hrest x hx

/-- Every line gets exactly the reply it is owed, whatever the engine answers, exactly where every
line of the input is text. -/
theorem answersOnce_iff (lib : Lib) (engine : ℕ → Outcome) (input : List UInt8) :
    AnswersOnce lib engine input ↔ ∀ line ∈ inputLines input, line ≠ none := by
  constructor
  · exact fun h => serveLines_snd h.2
  · exact fun h => serveLines_of_text lib engine h 0 ⟨none⟩

/-- A request to answer. -/
def pingLine : String := "\x7b\x22id\x22:1,\x22method\x22:\x22ping\x22\x7d"

/-- A parser that knows one text. -/
def pingLib : Lib where
  parse := fun text =>
    if text = pingLine then some (.obj [("id", .int 1), ("method", .str "ping")]) else none
  floatText := fun _ => "0.0"
  debugText := fun text => "\x22" ++ text ++ "\x22"
  notice := fun _ => none

/-- A line that is no text ends the loop, and the request after it is not answered. -/
theorem not_answersOnce_invalid :
    ¬AnswersOnce pingLib (fun _ _ => .error "no engine")
      ([255, 10] ++ pingLine.toUTF8.toList ++ [10]) := by
  rintro ⟨-, hend⟩
  revert hend
  decide +kernel

end Mcp

end Wheel
