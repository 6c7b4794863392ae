import ReplicaRing.Error
import ReplicaRing.Json.Writer
import ReplicaRing.Topology.Config

/-! The topology file: a JSON object with the list of nodes. Members may stand in any order,
unknown ones are passed over, and an array may stand for an object by the position of its
items. A known member must not be repeated. -/

namespace ReplicaRing.Config

/-- The members of a record under their names, each at most once. Every key must be text,
also that of a member nobody asks for. -/
def member (members : List (Option (List Char) × Json)) (name : String) :
    Option (Option Json) :=
  if members.all (·.1.isSome) then
    match members.filter (·.1 = some name.toList) with
    | [] => some none
    | [found] => some (some found.2)
    | _ => none
  else none

def readText : Json → Option String
  | .string (some text) => some (String.ofList text)
  | _ => none

def readReference : Json → Option (Option String)
  | .null => some none
  | value => (readText value).map some

/-- A reference that may also be left out. -/
def readOptionalReference : Option Json → Option (Option String)
  | none => some none
  | some value => readReference value

/-- A descriptor from its five fields, of which the last two may be missing. -/
def descriptorOf (name sync async secondary tertiary : Option Json) : Option Descriptor := do
  let name ← readText (← name)
  let sync ← readText (← sync)
  let async ← readText (← async)
  let secondary ← readOptionalReference secondary
  let tertiary ← readOptionalReference tertiary
  return { name, address := ⟨⟨sync⟩, ⟨async⟩⟩, secondary, tertiary }

def readDescriptor : Json → Option Descriptor
  | .object members => do
    descriptorOf (← member members "name") (← member members "sync_uri")
      (← member members "async_uri") (← member members "secondary")
      (← member members "tertiary")
  | .array items =>
    if items.length ≤ 5 then descriptorOf items[0]? items[1]? items[2]? items[3]? items[4]?
    else none
  | _ => none

def readNodes : Json → Option Config
  | .array items => (items.mapM readDescriptor).map Config.mk
  | _ => none

def ofJson : Json → Option Config
  | .object members => do readNodes (← (← member members "nodes"))
  | .array [nodes] => readNodes nodes
  | _ => none

def invalidText : Error :=
  .configuration "invalid topology json"

def read (text : String) : Except Error Config :=
  match (Json.read text.toList).bind ofJson with
  | some config => .ok config
  | none => .error invalidText

def textJson (text : String) : Json :=
  .string (some text.toList)

def referenceJson : Option String → Json
  | none => .null
  | some name => textJson name

/-- A member under a name of the library's own. -/
def named (name : String) (value : Json) : Option (List Char) × Json :=
  (some name.toList, value)

def descriptorJson (descriptor : Descriptor) : Json :=
  .object [named "name" (textJson descriptor.name),
    named "sync_uri" (textJson descriptor.address.sync.text),
    named "async_uri" (textJson descriptor.address.async.text),
    named "secondary" (referenceJson descriptor.secondary),
    named "tertiary" (referenceJson descriptor.tertiary)]

def toJson (config : Config) : Json :=
  .object [named "nodes" (.array (config.nodes.map descriptorJson))]

/-- The file that says what a configuration says, with nothing left out. -/
def write (config : Config) : String :=
  String.ofList (toJson config).write

end ReplicaRing.Config
