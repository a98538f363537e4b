import Wheel.Core.Message
import Wheel.Data.Json
import Wheel.Text.Search

/-!
# Tool nodes

The normalised form of an imported HTTP specification: operations with their
parameters, and how each parameter is filled.
-/

namespace Wheel

inductive ToolMethod where
  | get
  | post
  | put
  | patch
  | delete
  | head
  | options
  deriving DecidableEq, Repr

def ToolMethod.asStr : ToolMethod → String
  | .get => "GET"
  | .post => "POST"
  | .put => "PUT"
  | .patch => "PATCH"
  | .delete => "DELETE"
  | .head => "HEAD"
  | .options => "OPTIONS"

inductive ToolKind where
  | http
  | email
  deriving DecidableEq, Repr

inductive ToolFormat where
  | openapi
  | swagger2
  | postman
  | insomnia
  | manual
  deriving DecidableEq, Repr

/-- Where an imported tool came from. -/
structure ToolSource where
  format : ToolFormat
  raw : String
  importedAt : Timestamp

inductive ParamLocation where
  | header
  | path
  | query
  | cookie
  | body
  deriving DecidableEq, Repr

/-- Who supplies the value of a parameter. -/
inductive FillMode where
  | agent
  | static
  | vault
  | hidden
  deriving DecidableEq, Repr

structure Fill where
  mode : FillMode := .agent
  value : Option String := none
  vaultRef : Option String := none
  deriving DecidableEq, Repr

namespace Fill

def isAgentVisible (f : Fill) : Bool := f.mode = .agent

/-- The vault and the key of a reference `<vault>/<key>`. -/
def parseVaultRef (r : String) : Option (String × String) :=
  (Text.splitFirst ['/'] r.toList).bind fun (v, k) =>
    if v.isEmpty || k.isEmpty || k.contains '/' then none
    else some (String.ofList v, String.ofList k)

end Fill

structure ToolParam where
  name : String
  location : ParamLocation
  required : Bool
  description : Option String
  schema : Option Json
  fill : Fill

structure ToolOperation where
  id : String
  method : ToolMethod
  path : String
  summary : Option String
  enabled : Bool
  params : List ToolParam

structure ToolConfig where
  kind : ToolKind
  source : ToolSource
  baseUrl : String
  operations : List ToolOperation

end Wheel
