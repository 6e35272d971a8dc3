import TreeToCpp.Json.Number

/-!
# JSON values

The value of a JSON document. An object is the list of its members; a key is looked up from the
front, so the first member of a name is the one that counts.

## Main definitions

* `Value` — a JSON value
* `Shape` — which of the six kinds of value it is
* `Value.lookup` — the value under a key of an object's members
* `sizeOf_lt_of_lookup` — a value under a key is smaller than the members it was found in
-/

namespace TreeToCpp.Json

/-- A JSON value. -/
inductive Value where
  | null
  | boolean (value : Bool)
  | number (value : Number)
  | string (value : String)
  | array (items : List Value)
  | object (members : List (String × Value))
  deriving Inhabited

/-- The members of an object, in the order of the document. -/
abbrev Members := List (String × Value)

/-- Which kind of value it is. -/
inductive Shape where
  | null
  | boolean
  | number
  | string
  | array
  | object
  deriving DecidableEq, Repr

/-- The shape as a noun phrase. -/
def Shape.text : Shape → String
  | .null => "null"
  | .boolean => "a boolean"
  | .number => "a number"
  | .string => "a string"
  | .array => "an array"
  | .object => "an object"

namespace Value

/-- The shape of a value. -/
def shape : Value → Shape
  | .null => .null
  | .boolean _ => .boolean
  | .number _ => .number
  | .string _ => .string
  | .array _ => .array
  | .object _ => .object

end Value

namespace Members

/-- The value under a key, if it is there. -/
def lookup (members : Members) (key : String) : Option Value :=
  List.lookup key members

/-- The value under a key, with `null` counted as not being there. -/
def present (members : Members) (key : String) : Option Value :=
  match members.lookup key with
  | some .null => none
  | found => found

theorem sizeOf_lt_of_lookup {members : Members} {key : String} {value : Value}
    (h : members.lookup key = some value) : sizeOf value < sizeOf members := by
  unfold lookup at h
  induction members with
  | nil => simp at h
  | cons entry rest ih =>
    obtain ⟨k, v⟩ := entry
    rw [List.lookup_cons] at h
    split at h
    · cases h
      simp
      omega
    · have := ih h
      simp
      omega

theorem lookup_of_present {members : Members} {key : String} {value : Value}
    (h : members.present key = some value) : members.lookup key = some value := by
  unfold present at h
  split at h
  · simp at h
  · exact h

theorem sizeOf_lt_of_present {members : Members} {key : String} {value : Value}
    (h : members.present key = some value) : sizeOf value < sizeOf members :=
  sizeOf_lt_of_lookup (lookup_of_present h)

theorem sizeOf_items_lt_of_present {members : Members} {key : String} {items : List Value}
    (h : members.present key = some (.array items)) : sizeOf items < sizeOf members := by
  have := sizeOf_lt_of_present h
  simp only [Value.array.sizeOf_spec] at this
  omega

end Members

end TreeToCpp.Json
