import TreeToCpp.Tree.Error

/-!
# The fields of an object

A node of the document is an object. `Record` is such an object together with its path, so that
every complaint about a field can say where it is. A field that holds `null` counts as absent,
except for the value of a literal, where `null` is a value like any other.

Some fields have two spellings. The first spelling that is present decides, even when the other
one would have had the right shape.

## Main definitions

* `Record` — the members of an object and its path
* `Record.string`, `Record.array` — fields that have to be there
* `Record.firstString?`, `Record.firstFlag?` — optional fields with several spellings
* `Record.typedNames`, `Record.literal`, `Record.position` — composite fields
-/

namespace TreeToCpp

open Json (Value Members)

/-- The members of an object and the path of the object. -/
structure Record where
  path : String
  members : Members

namespace Record

/-- A complaint about the object. -/
def fail {α : Type} (r : Record) (fault : Tree.Fault) : Except TreeError α :=
  .error (.malformed r.path fault)

/-- A complaint about the shape of a field. -/
def failShape {α : Type} (r : Record) (key : String) (expected : Tree.Expected) (found : Value) :
    Except TreeError α :=
  r.fail (.wrongShape key expected found.shape)

/-- A string that is there and has to be one. -/
def asString (r : Record) (key : String) : Value → Except TreeError String
  | .string text => .ok text
  | found => r.failShape key (.shape .string) found

/-- A truth value that is there and has to be one. -/
def asFlag (r : Record) (key : String) : Value → Except TreeError Bool
  | .boolean value => .ok value
  | found => r.failShape key (.shape .boolean) found

/-- A field that has to be there. -/
def required (r : Record) (key : String) : Except TreeError Value :=
  match r.members.present key with
  | some value => .ok value
  | none => r.fail (.missingField key)

/-- A string that has to be there. -/
def string (r : Record) (key : String) : Except TreeError String := do
  r.asString key (← r.required key)

/-- The first of several spellings that is present. -/
def first? (r : Record) : List String → Option (String × Value)
  | [] => none
  | key :: rest =>
    match r.members.present key with
    | some value => some (key, value)
    | none => r.first? rest

/-- A string under the first of several spellings that is present. -/
def firstString? (r : Record) (keys : List String) : Except TreeError (Option String) :=
  match r.first? keys with
  | some (key, value) => some <$> r.asString key value
  | none => .ok none

/-- A truth value under the first of several spellings that is present. -/
def firstFlag? (r : Record) (keys : List String) : Except TreeError (Option Bool) :=
  match r.first? keys with
  | some (key, value) => some <$> r.asFlag key value
  | none => .ok none

/-- One parameter or field of a structure. Its type may be under several spellings; a complaint
about a missing type names the first. -/
def typedName (typeKey : String) (otherKeys : List String) (path : String) :
    Value → Except TreeError TypedName
  | .object members => do
    let entry : Record := { path := path, members := members }
    let name ← entry.string "name"
    match ← entry.firstString? (typeKey :: otherKeys) with
    | some type => return { name := name, type := type }
    | none => entry.fail (.missingField typeKey)
  | found => .error (.malformed path (.notARecord found.shape))

/-- The parameters or fields of a list, counted from `index`. -/
def typedNamesFrom (typeKey : String) (otherKeys : List String) (path : String) :
    Nat → List Value → Except TreeError (List TypedName)
  | _, [] => .ok []
  | index, item :: rest => do
    let entry ← typedName typeKey otherKeys (Path.item path index) item
    let entries ← typedNamesFrom typeKey otherKeys path (index + 1) rest
    return entry :: entries

/-- A list of parameters or fields that has to be there. -/
def typedNames (r : Record) (key typeKey : String) (otherKeys : List String) :
    Except TreeError (List TypedName) := do
  match ← r.required key with
  | .array items => typedNamesFrom typeKey otherKeys (Path.field r.path key) 0 items
  | found => r.failShape key (.shape .array) found

/-- The value of a literal. -/
def literal (r : Record) : Except TreeError Literal :=
  match r.members.lookup "value" with
  | none => r.fail (.missingField "value")
  | some (.string text) => .ok (.string text)
  | some (.boolean value) => .ok (.boolean value)
  | some (.number value) => .ok (.number value)
  | some .null => .ok .null
  | some found => r.failShape "value" .scalar found

/-- The line or the column of a position. -/
def coordinate (r : Record) (key : String) : Except TreeError Nat :=
  match r.members.lookup key with
  | some (.number number) =>
    match number.natural? with
    | some value => .ok value
    | none => r.fail (.badCoordinate key)
  | _ => r.fail (.badCoordinate key)

/-- The position of a node, if it records one. -/
def position (r : Record) : Except TreeError (Option Position) :=
  match r.members.present "position" with
  | none => .ok none
  | some (.object members) => do
    let place : Record := { path := Path.field r.path "position", members := members }
    let line ← place.coordinate "line"
    let column ← place.coordinate "column"
    return some { line := line, column := column }
  | some found => r.failShape "position" (.shape .object) found

/-- The tag of a node. -/
def tag (r : Record) : Except TreeError String :=
  match r.members.lookup "type" with
  | some (.string text) => .ok text
  | _ => r.fail .missingTag

end Record

end TreeToCpp
