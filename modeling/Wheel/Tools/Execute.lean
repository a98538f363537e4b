import Wheel.Core.Tool
import Wheel.Data.JsonText
import Wheel.Data.MergePatch
import Wheel.Text.Percent
import Wheel.Text.Replace

/-!
# Calling an imported operation

`buildRequest` decides what is sent: it is where the arguments of an agent meet the fills of
the operator. One pass over the parameters computes the value of each and puts it where the
parameter is located. `curlFor` shows the request as a command, with the static and the vault
values masked.
-/

namespace Wheel

namespace Tools

/-- A request that has been fully decided but not yet sent. -/
structure Prepared where
  method : String
  url : String
  headers : List (String × String)
  cookies : List (String × String)
  body : Option Json
  /-- The values that came from a vault or a static fill. -/
  secrets : List String

inductive BuildError where
  | disabled (op : String)
  | argumentsNotObject
  | setByBoard (name : String) (mode : FillMode)
  | notAField (name op : String)
  | noVaultRef (name : String)
  | unreadable (name ref : String)
  | required (name : String)
  | dotSegment (name value : String)
  | notSupplied (name : List Char)

/-! ## Texts -/

/-- The bytes that are not percent-encoded. -/
def isUnreserved (b : UInt8) : Bool :=
  (65 ≤ b ∧ b ≤ 90) ∨ (97 ≤ b ∧ b ≤ 122) ∨ (48 ≤ b ∧ b ≤ 57) ∨ b = 45 ∨ b = 95 ∨ b = 46 ∨ b = 126

/-- Percent-encode everything that is not unreserved. -/
def encode (x : List Char) : List Char :=
  (Text.percentEncode isUnreserved (Text.encode x)).map fun b => Char.ofNat b.toNat

/-- Whether a value is a dot segment on its own. -/
def isDotSegment (s : String) : Bool := s = "." ∨ s = ".."

/-- The text that stands for a parameter in a path. -/
def placeholder (name : String) : List Char := '\x7b' :: (name.toList ++ ['\x7d'])

/-- The name of the first placeholder that is left. -/
def firstPlaceholder (path : List Char) : Option (List Char) :=
  (Text.splitFirst ['\x7b'] path).bind fun p => (Text.splitFirst ['\x7d'] p.2).map Prod.fst

variable (floatText : ℚ → String)

/-- A value as the text it is outside a body. -/
def scalar : Json → String
  | .str s => s
  | v => String.ofList (v.print floatText)

/-- A field of the body keeps the type the agent gave it. -/
def originalOrString (supplied : Json.Members) (name fallback : String) : Json :=
  match Json.lookup supplied name with
  | some v => if v.isNull then .str fallback else v
  | none => .str fallback

/-! ## The parameters -/

/-- An argument for a field the agent does not own is refused. -/
def checkSupplied (op : ToolOperation) : Json.Members → Except BuildError Unit
  | [] => .ok ()
  | (name, _) :: supplied =>
      match op.params.find? fun p => p.name = name with
      | none => .error (.notAField name op.id)
      | some p =>
          if p.fill.isAgentVisible then checkSupplied op supplied
          else .error (.setByBoard name p.fill.mode)

/-- The value of a parameter, if it has one. -/
def fillValue (supplied : Json.Members) (vaultValues : String → Option String) (p : ToolParam) :
    Except BuildError (Option String) :=
  match p.fill.mode with
  | .hidden => .ok none
  | .static => .ok (some (p.fill.value.getD ""))
  | .vault =>
      match p.fill.vaultRef with
      | none => .error (.noVaultRef p.name)
      | some r =>
          match vaultValues r with
          | none => .error (.unreadable p.name r)
          | some v => .ok (some v)
  | .agent =>
      match Json.lookup supplied p.name with
      | none => if p.required then .error (.required p.name) else .ok none
      | some v =>
          if v.isNull then if p.required then .error (.required p.name) else .ok none
          else .ok (some (scalar floatText v))

/-- What a value adds to the secrets. -/
def secretsOf (p : ToolParam) (value : String) : List String :=
  match p.fill.mode with
  | .static => if value.isEmpty then [] else [value]
  | .vault => [value]
  | _ => []

/-- The request so far. -/
structure Draft where
  path : List Char
  query : List (String × String) := []
  headers : List (String × String) := []
  cookies : List (String × String) := []
  body : Json.Members := []
  secrets : List String := []

/-- Put a value where the parameter is located. -/
def place (supplied : Json.Members) (d : Draft) (p : ToolParam) (value : String) :
    Except BuildError Draft :=
  match p.location with
  | .path =>
      if isDotSegment value then .error (.dotSegment p.name value)
      else .ok { d with
        path := Text.replace (placeholder p.name) (encode value.toList) d.path }
  | .query => .ok { d with query := d.query ++ [(p.name, value)] }
  | .header => .ok { d with headers := d.headers ++ [(p.name, value)] }
  | .cookie =>
      .ok { d with cookies := d.cookies ++ [(p.name, String.ofList (encode value.toList))] }
  | .body =>
      .ok { d with
        body := Json.insertMember p.name (originalOrString supplied p.name value) d.body }

def fillParam (supplied : Json.Members) (vaultValues : String → Option String) (d : Draft)
    (p : ToolParam) : Except BuildError Draft :=
  match fillValue floatText supplied vaultValues p with
  | .error e => .error e
  | .ok none => .ok d
  | .ok (some value) =>
      place supplied { d with secrets := d.secrets ++ secretsOf p value } p value

def fillParams (supplied : Json.Members) (vaultValues : String → Option String) :
    Draft → List ToolParam → Except BuildError Draft
  | d, [] => .ok d
  | d, p :: ps =>
      match fillParam floatText supplied vaultValues d p with
      | .error e => .error e
      | .ok d' => fillParams supplied vaultValues d' ps

/-! ## The request -/

/-- The base address without the slashes at its end. -/
def baseText (cfg : ToolConfig) : List Char :=
  (cfg.baseUrl.toList.reverse.dropWhile (· = '/')).reverse

def queryText (query : List (String × String)) : List Char :=
  if query.isEmpty then []
  else '?' :: ['&'].intercalate (query.map fun (k, v) => encode k.toList ++ '=' :: encode v.toList)

/-- The request a finished draft is. -/
def Draft.prepared (cfg : ToolConfig) (op : ToolOperation) (d : Draft) : Prepared where
  method := op.method.asStr
  url := String.ofList (baseText cfg ++ d.path ++ queryText d.query)
  headers := d.headers
  cookies := d.cookies
  body := if d.body.isEmpty then none else some (.obj d.body)
  secrets := d.secrets

/-- The arguments as members of an object. -/
def suppliedOf : Json → Except BuildError Json.Members
  | .null => .ok []
  | .obj m => .ok m
  | _ => .error .argumentsNotObject

/-- What the arguments of the agent and the fills of the operator make of the operation. -/
def buildDraft (op : ToolOperation) (args : Json) (vaultValues : String → Option String) :
    Except BuildError Draft :=
  if !op.enabled then .error (.disabled op.id)
  else
    match suppliedOf args with
    | .error e => .error e
    | .ok supplied =>
        match checkSupplied op supplied with
        | .error e => .error e
        | .ok () =>
            match fillParams floatText supplied vaultValues { path := op.path.toList }
                op.params with
            | .error e => .error e
            | .ok d =>
                match firstPlaceholder d.path with
                | some name => .error (.notSupplied name)
                | none => .ok d

/-- Decide the request for an operation. -/
def buildRequest (cfg : ToolConfig) (op : ToolOperation) (args : Json)
    (vaultValues : String → Option String) : Except BuildError Prepared :=
  (buildDraft floatText op args vaultValues).map (Draft.prepared cfg op)

/-! ## The command -/

/-- What a masked value is shown as. -/
def redacted : List Char := "<redacted>".toList

/-- Mask one secret, as it is and percent-encoded. -/
def maskSecret (out secret : List Char) : List Char :=
  if secret = [] then out
  else
    let out' := Text.replace secret redacted out
    if encode secret ≠ secret then Text.replace (encode secret) redacted out' else out'

def mask (secrets : List String) (x : List Char) : List Char :=
  (secrets.map String.toList).foldl maskSecret x

def shellQuote (x : List Char) : List Char :=
  '\x27' :: Text.replace ['\x27'] ['\x27', '\\', '\x27', '\x27'] x ++ ['\x27']

/-- The words of the command, with every static and vault value masked. -/
def curlParts (p : Prepared) : List (List Char) :=
  ["curl".toList, "-X".toList, p.method.toList] ++
    (p.headers.flatMap fun (k, v) =>
      ["-H".toList, shellQuote (k.toList ++ ": ".toList ++ mask p.secrets v.toList)]) ++
    (if p.cookies.isEmpty then []
      else
        ["-b".toList, shellQuote ("; ".toList.intercalate (p.cookies.map fun (k, v) =>
          k.toList ++ '=' :: mask p.secrets v.toList))]) ++
    (match p.body with
      | none => []
      | some body =>
          ["-H".toList, shellQuote "content-type: application/json".toList, "-d".toList,
            shellQuote (mask p.secrets (body.print floatText))]) ++
    [shellQuote (mask p.secrets p.url.toList)]

/-- The request as a command to be read and pasted. -/
def curlFor (p : Prepared) : String :=
  String.ofList ([' '].intercalate (curlParts floatText p))

/-! ## What is encoded -/

/-- The characters of an encoded text. -/
def isUrlChar (c : Char) : Bool :=
  c.isAlphanum || c = '-' || c = '_' || c = '.' || c = '~' || c = '%'

theorem isUrlChar_ofNat (n : Fin 256)
    (h : isUnreserved (UInt8.ofNat n) = true ∨ UInt8.ofNat n = Text.percent) :
    isUrlChar (Char.ofNat n) = true := by
  revert n
  decide +kernel

theorem isUnreserved_upperHex {n : ℕ} (h : n < 16) :
    isUnreserved (Text.upperHex n) = true := by
  revert n
  decide

theorem isUrlChar_of_mem_encode {x : List Char} {c : Char} (h : c ∈ encode x) :
    isUrlChar c = true := by
  obtain ⟨b, hb, rfl⟩ := List.mem_map.mp h
  obtain ⟨a, -, ha⟩ := List.mem_flatMap.mp hb
  have hallowed : isUnreserved b = true ∨ b = Text.percent := by
    split at ha
    · rename_i hkeep
      exact .inl (List.mem_singleton.mp ha ▸ hkeep)
    · have hlt : a.toNat < 256 := a.toNat_lt
      rw [Text.percentByte] at ha
      simp only [List.mem_cons, List.not_mem_nil, or_false] at ha
      rcases ha with rfl | rfl | rfl
      · exact .inr rfl
      · exact .inl (isUnreserved_upperHex (by omega))
      · exact .inl (isUnreserved_upperHex (Nat.mod_lt _ (by decide)))
  have hb : UInt8.ofNat b.toNat = b := UInt8.ofNat_toNat
  exact isUrlChar_ofNat ⟨b.toNat, b.toNat_lt⟩ (by rwa [hb])

theorem ne_of_mem_encode {x : List Char} {c d : Char} (h : c ∈ encode x)
    (hd : isUrlChar d = false) : c ≠ d := by
  rintro rfl
  rw [isUrlChar_of_mem_encode h] at hd
  cases hd

end Tools

end Wheel
