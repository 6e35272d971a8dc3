import TreeToCpp.Proofs.FieldByField
import TreeToCpp.Proofs.Ways
import TreeToCpp.Proofs.WireReading

/-!
# Complaints are true

A document that is no tree is refused with a complaint. The complaint is all that the user gets, so
it has to be right in two ways: its path has to lead to something that is in the document, and what
stands there has to have the fault that the complaint is about.

`FaultAt` says what each fault means for the value at the end of a way, without the reader. Nodes,
their positions, and the parameters and fields of structures have faults of different kinds, and a
complaint about one of them is made at its own path. The induction is on the value, as it is for the
reader, and a complaint about a part is a complaint about the whole with one more step in front of
the way.

## Main definitions

* `FaultAt` — a value at the end of a way has a fault
* `Blames` — a complaint about a value is true
* `Complains` — all complaints of a reading have a property

## Main results

* `blames_string`, `blames_typedNames`, `blames_position` and their like — fields of an object
* `read_error_blames` — every complaint about a document is true
-/

namespace TreeToCpp

open Json (Value Members)

/-! ## What a complaint says -/

/-- Whether a field that asks for something accepts a shape. -/
def Tree.Expected.Accepts : Tree.Expected → Json.Shape → Prop
  | .shape wanted, found => found = wanted
  | .scalar, found => found ≠ .array ∧ found ≠ .object

/-- The lists whose items are a name with a type, and the second spelling of the type. -/
def entryLists : List (String × String) :=
  [("params", "param_type"), ("fields", "field_type")]

/-- The value at the end of a way has a fault. -/
inductive FaultAt (steps : List PathStep) : Value → Tree.Fault → Prop
  | notANode {value : Value} :
      value.shape ≠ .object → FaultAt steps value (.notANode value.shape)
  | notARecord {value : Value} {listKey typeKey : String} {index : Nat} :
      (listKey, typeKey) ∈ entryLists → [.field listKey, .item index] <:+ steps →
      value.shape ≠ .object → FaultAt steps value (.notARecord value.shape)
  | missingTag {members : Members} :
      (∀ tag, members.lookup "type" ≠ some (.string tag)) →
      FaultAt steps (.object members) .missingTag
  /-- A field that holds `null` counts as missing. -/
  | missingField {members : Members} {key : String} :
      key ≠ "value" → key ≠ "type" → members.present key = none →
      FaultAt steps (.object members) (.missingField key)
  /-- The value of a literal may be `null`. -/
  | missingValue {members : Members} :
      members.lookup "value" = none → FaultAt steps (.object members) (.missingField "value")
  /-- A parameter or a field of a structure has its type under neither spelling. -/
  | missingType {members : Members} {listKey typeKey : String} {index : Nat} :
      (listKey, typeKey) ∈ entryLists → [.field listKey, .item index] <:+ steps →
      members.present "type" = none → members.present typeKey = none →
      FaultAt steps (.object members) (.missingField "type")
  | wrongShape {members : Members} {key : String} {expected : Tree.Expected} {value : Value} :
      members.present key = some value → ¬ expected.Accepts value.shape →
      FaultAt steps (.object members) (.wrongShape key expected value.shape)
  | badCoordinate {members : Members} {key : String} :
      key ∈ ["line", "column"] → [.field "position"] <:+ steps →
      (∀ value : UInt64, members.lookup key ≠ some (.number (.natural value))) →
      FaultAt steps (.object members) (.badCoordinate key)

/-- A complaint about a value that is said to stand at a path. The path of the complaint is that path
with the steps to a part of the value behind it, and the part has the fault. An unknown tag is no
fault of the shape; the complaint about it shows the position of the node as well. -/
inductive Blames (path : String) (value : Value) : TreeError → Prop
  | malformed {steps : List PathStep} {part : Value} {fault : Tree.Fault} :
      (∀ step ∈ steps, step.IsPlain) → value.follow steps = some part → FaultAt steps part fault →
      Blames path value (.malformed (extendedPath path steps) fault)
  | unrecognized {steps : List PathStep} {members : Members} {tag : String} {loc : Location} :
      (∀ step ∈ steps, step.IsPlain) → value.follow steps = some (.object members) →
      members.lookup "type" = some (.string tag) → (∀ kind : Kind, kind.name ≠ tag) →
      loc.path = extendedPath path steps → Wire.PositionGiven members loc.position →
      Blames path value (.unrecognized tag loc)

/-! ## Complaints about a part -/

theorem FaultAt.behind {steps : List PathStep} {part : Value} {fault : Tree.Fault}
    (h : FaultAt steps part fault) (step : PathStep) : FaultAt (step :: steps) part fault := by
  have hsuffix : ∀ {last}, last <:+ steps → last <:+ step :: steps :=
    fun h => h.trans (List.suffix_cons step steps)
  cases h with
  | notANode hshape => exact .notANode hshape
  | notARecord hlist hlast hshape => exact .notARecord hlist (hsuffix hlast) hshape
  | missingTag htag => exact .missingTag htag
  | missingField hvalue htype habsent => exact .missingField hvalue htype habsent
  | missingValue habsent => exact .missingValue habsent
  | missingType hlist hlast habsent hother => exact .missingType hlist (hsuffix hlast) habsent hother
  | wrongShape hpresent hshape => exact .wrongShape hpresent hshape
  | badCoordinate hkey hlast hvalue => exact .badCoordinate hkey (hsuffix hlast) hvalue

theorem extendedPath_nil (path : String) : extendedPath path [] = path :=
  (pathAlong_eq_extendedPath path (List.forall_mem_nil _)).symm

theorem extendedPath_onPath (path : String) {step : PathStep} {steps : List PathStep}
    (h : ∀ next ∈ step :: steps, next.IsPlain) :
    extendedPath (step.onPath path) steps = extendedPath path (step :: steps) := by
  rw [← pathAlong_eq_extendedPath path h,
    ← pathAlong_eq_extendedPath _ (List.forall_mem_cons.mp h).2]
  rfl

/-- A complaint about what a step leads to is a complaint about the whole. -/
theorem Blames.behind {path : String} {value part : Value} {error : TreeError} {step : PathStep}
    (hplain : step.IsPlain) (hpart : step.follow value = some part)
    (h : Blames (step.onPath path) part error) : Blames path value error := by
  have hfollow : ∀ steps, value.follow (step :: steps) = part.follow steps := fun steps => by
    rw [Json.Value.follow, hpart, Option.bind_some]
  cases h with
  | malformed hsteps hfound hfault =>
    have hall := List.forall_mem_cons.mpr ⟨hplain, hsteps⟩
    rw [extendedPath_onPath path hall]
    exact .malformed hall ((hfollow _).trans hfound) (hfault.behind step)
  | unrecognized hsteps hfound htag hkind hpath hposition =>
    have hall := List.forall_mem_cons.mpr ⟨hplain, hsteps⟩
    rw [extendedPath_onPath path hall] at hpath
    exact .unrecognized hall ((hfollow _).trans hfound) htag hkind hpath hposition

/-! ## Complaints of a reading -/

/-- Whatever a reading complains about has a property. -/
def Complains {α : Type} (about : TreeError → Prop) (outcome : Except TreeError α) : Prop :=
  ∀ error, outcome = .error error → about error

namespace Complains

variable {α β : Type} {about other : TreeError → Prop}

theorem ok (a : α) : Complains about (.ok a : Except TreeError α) := fun _ h => by cases h

theorem error {error : TreeError} (h : about error) :
    Complains about (.error error : Except TreeError α) := fun _ herror => by
  cases herror
  exact h

/-- The second step may use that the first one succeeded. -/
theorem bind_of_ok {outcome : Except TreeError α} {next : α → Except TreeError β}
    (h : Complains about outcome) (hnext : ∀ a, outcome = .ok a → Complains about (next a)) :
    Complains about (outcome >>= next) := fun error herror => by
  rcases bind_eq_error_iff.mp herror with herror | ⟨a, hok, herror⟩
  · exact h error herror
  · exact hnext a hok error herror

theorem bind {outcome : Except TreeError α} {next : α → Except TreeError β}
    (h : Complains about outcome) (hnext : ∀ a, Complains about (next a)) :
    Complains about (outcome >>= next) :=
  h.bind_of_ok fun a _ => hnext a

theorem map {outcome : Except TreeError α} (h : Complains about outcome) (f : α → β) :
    Complains about (f <$> outcome) := by
  cases outcome with
  | ok a => exact ok (f a)
  | error e => exact error (h e rfl)

theorem imp {outcome : Except TreeError α} (h : Complains about outcome)
    (himp : ∀ error, about error → other error) : Complains other outcome :=
  fun error herror => himp error (h error herror)

theorem isStepwise (about : TreeError → Prop) :
    IsStepwise fun outcome _ => Complains about outcome where
  ok := ok
  bind := bind

end Complains

/-- A complaint about the value at the end of a way, made at a path. -/
def FaultIn (path : String) (steps : List PathStep) (part : Value) (error : TreeError) : Prop :=
  ∃ fault, error = .malformed path fault ∧ FaultAt steps part fault

theorem FaultAt.faultIn {steps : List PathStep} {part : Value} {fault : Tree.Fault}
    (h : FaultAt steps part fault) (path : String) :
    FaultIn path steps part (.malformed path fault) :=
  ⟨fault, rfl, h⟩

theorem FaultIn.blames {path : String} {value part : Value} {steps : List PathStep}
    (hplain : ∀ step ∈ steps, step.IsPlain) (hpart : value.follow steps = some part) :
    ∀ error, FaultIn (pathAlong path steps) steps part error → Blames path value error := by
  rintro _ ⟨fault, rfl, hfault⟩
  rw [pathAlong_eq_extendedPath path hplain]
  exact .malformed hplain hpart hfault

/-! ## The fields of an object

A single field may be one of a node, of a position or of a parameter, so for these the way to the
object is left open. -/

section Fields

variable (steps : List PathStep) (r : Record)

theorem faultIn_failShape {α : Type} {key : String} {expected : Tree.Expected} {value : Value}
    (h : r.members.present key = some value) (hshape : ¬ expected.Accepts value.shape) :
    Complains (FaultIn r.path steps (.object r.members))
      (r.failShape key expected value : Except TreeError α) :=
  .error ((FaultAt.wrongShape h hshape).faultIn r.path)

theorem faultIn_asString {key : String} {value : Value} (h : r.members.present key = some value) :
    Complains (FaultIn r.path steps (.object r.members)) (r.asString key value) := by
  cases value with
  | string => exact .ok _
  | _ =>
    refine faultIn_failShape steps r h ?_
    rintro ⟨⟩

theorem faultIn_asFlag {key : String} {value : Value} (h : r.members.present key = some value) :
    Complains (FaultIn r.path steps (.object r.members)) (r.asFlag key value) := by
  cases value with
  | boolean => exact .ok _
  | _ =>
    refine faultIn_failShape steps r h ?_
    rintro ⟨⟩

theorem Record.first?_eq_some {keys : List String} {key : String} {value : Value}
    (h : r.first? keys = some (key, value)) : r.members.present key = some value := by
  induction keys with
  | nil => cases h
  | cons next rest ih =>
    rw [Record.first?] at h
    split at h
    next found hfound =>
      cases h
      exact hfound
    next => exact ih h

theorem Record.first?_eq_none {keys : List String} (h : r.first? keys = none) :
    ∀ key ∈ keys, r.members.present key = none := by
  induction keys with
  | nil => exact List.forall_mem_nil _
  | cons next rest ih =>
    rw [Record.first?] at h
    split at h
    next => cases h
    next habsent => exact List.forall_mem_cons.mpr ⟨habsent, ih h⟩

theorem faultIn_firstString? (keys : List String) :
    Complains (FaultIn r.path steps (.object r.members)) (r.firstString? keys) := by
  rw [Record.firstString?]
  split
  next h => exact (faultIn_asString steps r (Record.first?_eq_some r h)).map _
  next => exact .ok _

theorem faultIn_firstFlag? (keys : List String) :
    Complains (FaultIn r.path steps (.object r.members)) (r.firstFlag? keys) := by
  rw [Record.firstFlag?]
  split
  next h => exact (faultIn_asFlag steps r (Record.first?_eq_some r h)).map _
  next => exact .ok _

theorem faultIn_string {key : String} (hvalue : key ≠ "value") (htype : key ≠ "type") :
    Complains (FaultIn r.path steps (.object r.members)) (r.string key) := by
  rw [Record.string, Record.required]
  cases h : r.members.present key with
  | none => exact .error ((FaultAt.missingField hvalue htype h).faultIn r.path)
  | some value => exact faultIn_asString steps r h

theorem faultIn_literal : Complains (FaultIn r.path steps (.object r.members)) r.literal := by
  have hpresent : ∀ {value}, r.members.lookup "value" = some value → value ≠ .null →
      r.members.present "value" = some value := fun {value} h hnull => by
    rw [Members.present, h]
    cases value with
    | null => exact absurd rfl hnull
    | _ => rfl
  rw [Record.literal]
  cases h : r.members.lookup "value" with
  | none => exact .error ((FaultAt.missingValue h).faultIn r.path)
  | some value =>
    cases value with
    | array =>
      refine faultIn_failShape steps r (hpresent h (by rintro ⟨⟩)) ?_
      exact fun haccepts => haccepts.1 rfl
    | object =>
      refine faultIn_failShape steps r (hpresent h (by rintro ⟨⟩)) ?_
      exact fun haccepts => haccepts.2 rfl
    | _ => exact .ok _

theorem faultIn_coordinate {key : String} (hkey : key ∈ ["line", "column"])
    (hlast : [.field "position"] <:+ steps) :
    Complains (FaultIn r.path steps (.object r.members)) (r.coordinate key) := by
  have hbad : (∀ value : UInt64, r.members.lookup key ≠ some (.number (.natural value))) →
      Complains (FaultIn r.path steps (.object r.members))
        (r.fail (.badCoordinate key) : Except TreeError Nat) :=
    fun h => .error ((FaultAt.badCoordinate hkey hlast h).faultIn r.path)
  rw [Record.coordinate]
  split
  next number h =>
    cases number with
    | natural => exact .ok _
    | _ => exact hbad (by simp [h])
  next h => exact hbad fun value hvalue => h _ hvalue

theorem faultIn_typedName {listKey typeKey : String} {index : Nat}
    (hlist : (listKey, typeKey) ∈ entryLists) (hlast : [.field listKey, .item index] <:+ steps)
    (path : String) (item : Value) :
    Complains (FaultIn path steps item) (Record.typedName "type" [typeKey] path item) := by
  cases item with
  | object members =>
    refine (faultIn_string steps ⟨path, members⟩ (by decide) (by decide)).bind fun name => ?_
    have htype := faultIn_firstString? steps ⟨path, members⟩ ["type", typeKey]
    cases h : Record.firstString? ⟨path, members⟩ ["type", typeKey] with
    | error error => exact .error (htype error h)
    | ok type? =>
      cases type? with
      | some => exact .ok _
      | none =>
        -- Only where no spelling is present, no type is read.
        have hnone : Record.first? ⟨path, members⟩ ["type", typeKey] = none := by
          rw [Record.firstString?] at h
          split at h
          next => simp [map_eq_ok_iff] at h
          next hnone => exact hnone
        have habsent := Record.first?_eq_none ⟨path, members⟩ hnone
        exact .error ((FaultAt.missingType hlist hlast (habsent _ (by simp))
          (habsent _ (by simp))).faultIn path)
  | _ =>
    refine .error ((FaultAt.notARecord hlist hlast ?_).faultIn path)
    rintro ⟨⟩

end Fields

/-! ## The parts of a node -/

section Nodes

variable {path : String} {members : Members}

/-- A complaint about a value itself is made at its own path. -/
theorem blames_of_faultIn {α : Type} {value : Value} {outcome : Except TreeError α}
    (h : Complains (FaultIn path [] value) outcome) : Complains (Blames path value) outcome :=
  h.imp (FaultIn.blames (List.forall_mem_nil _) rfl)

theorem blames_missingField {α : Type} {key : String} (hvalue : key ≠ "value")
    (htype : key ≠ "type") (h : members.present key = none) :
    Complains (Blames path (.object members))
      (.error (.malformed path (.missingField key)) : Except TreeError α) :=
  blames_of_faultIn (.error ((FaultAt.missingField hvalue htype h).faultIn path))

theorem blames_wrongShape {α : Type} {key : String} {expected : Tree.Expected} {value : Value}
    (h : members.present key = some value) (hshape : ¬ expected.Accepts value.shape) :
    Complains (Blames path (.object members))
      (.error (.malformed path (.wrongShape key expected value.shape)) : Except TreeError α) :=
  blames_of_faultIn (.error ((FaultAt.wrongShape h hshape).faultIn path))

theorem blames_string {key : String} (hkey : key ∈ stringKeys) :
    Complains (Blames path (.object members)) (Record.string ⟨path, members⟩ key) := by
  refine blames_of_faultIn (faultIn_string [] ⟨path, members⟩ ?_ ?_)
  · rintro rfl
    exact absurd hkey (by decide)
  · rintro rfl
    exact absurd hkey (by decide)

theorem follow_field {key : String} {value : Value} (h : members.present key = some value) :
    (PathStep.field key).follow (.object members) = some value :=
  Members.lookup_of_present h

theorem blames_typedNamesFrom {listKey typeKey : String} (hlist : (listKey, typeKey) ∈ entryLists)
    (earlier rest : List Value) (h : members.present listKey = some (.array (earlier ++ rest))) :
    Complains (Blames path (.object members))
      (Record.typedNamesFrom "type" [typeKey] (Path.field path listKey) earlier.length rest) := by
  -- The entries in front of the rest are kept, because their number is the index of the next one.
  induction rest generalizing earlier with
  | nil => exact .ok _
  | cons item rest ih =>
    have hplain : ∀ step ∈ [PathStep.field listKey, .item earlier.length], step.IsPlain := by
      simp only [entryLists, List.mem_cons, Prod.mk.injEq, List.not_mem_nil, or_false] at hlist
      rcases hlist with ⟨rfl, -⟩ | ⟨rfl, -⟩ <;> simp [PathStep.IsPlain]
    have hitem : (Value.object members).follow [.field listKey, .item earlier.length] =
        some item := by
      rw [Json.Value.follow, follow_field h]
      simp [Json.Value.follow, PathStep.follow]
    have hentry := faultIn_typedName [.field listKey, .item earlier.length] hlist
      (List.suffix_refl _) (Path.item (Path.field path listKey) earlier.length) item
    have hrest := ih (earlier ++ [item]) (by simpa using h)
    rw [List.length_append, List.length_singleton] at hrest
    exact (hentry.imp (FaultIn.blames hplain hitem)).bind fun _ => hrest.bind fun _ => .ok _

theorem blames_typedNames {listKey typeKey : String} (hlist : (listKey, typeKey) ∈ entryLists) :
    Complains (Blames path (.object members))
      (Record.typedNames ⟨path, members⟩ listKey "type" [typeKey]) := by
  rw [Record.typedNames, Record.required]
  cases h : members.present listKey with
  | none =>
    have hkey : listKey ≠ "value" ∧ listKey ≠ "type" := by
      simp only [entryLists, List.mem_cons, Prod.mk.injEq, List.not_mem_nil, or_false] at hlist
      rcases hlist with ⟨rfl, -⟩ | ⟨rfl, -⟩ <;> decide
    exact blames_missingField hkey.1 hkey.2 h
  | some value =>
    cases value with
    | array items => exact blames_typedNamesFrom hlist [] items h
    | _ =>
      refine blames_wrongShape h ?_
      rintro ⟨⟩

theorem blames_position : Complains (Blames path (.object members))
    (Record.position ⟨path, members⟩) := by
  rw [Record.position]
  split
  next => exact .ok _
  next place h =>
    have hplain : ∀ step ∈ [PathStep.field "position"], step.IsPlain := by
      simp [PathStep.IsPlain]
    have hplace : (Value.object members).follow [.field "position"] = some (.object place) := by
      rw [Json.Value.follow, follow_field h]
      rfl
    have hcoordinate : ∀ key ∈ ["line", "column"], Complains (Blames path (.object members))
        (Record.coordinate ⟨Path.field path "position", place⟩ key) := fun key hkey =>
      (faultIn_coordinate [.field "position"] ⟨Path.field path "position", place⟩ hkey
        (List.suffix_refl _)).imp (FaultIn.blames hplain hplace)
    exact (hcoordinate "line" (by simp)).bind fun _ =>
      (hcoordinate "column" (by simp)).bind fun _ => .ok _
  next found hother h =>
    refine blames_wrongShape h fun hshape => ?_
    cases found with
    | object place => exact hother place rfl
    | _ => cases hshape

theorem blames_tag : Complains (Blames path (.object members))
    (Record.tag ⟨path, members⟩) := by
  rw [Record.tag]
  split
  next => exact .ok _
  next h => exact blames_of_faultIn (.error ((FaultAt.missingTag h).faultIn path))

/-! ## The induction -/

/-- All complaints about a value are true, wherever the value stands. -/
def IsBlamedRight (value : Value) : Prop :=
  ∀ path, Complains (Blames path value) (Node.read path value)

theorem blames_readItems {items : List Value} (hitems : ∀ item ∈ items, IsBlamedRight item)
    (earlier rest : List Value) (h : items = earlier ++ rest) :
    Complains (Blames path (.array items)) (Node.readItems path earlier.length rest) := by
  induction rest generalizing earlier with
  | nil =>
    rw [Node.readItems]
    exact .ok _
  | cons item rest ih =>
    have hitem : (PathStep.item earlier.length).follow (.array items) = some item := by
      simp [PathStep.follow, h]
    have hfirst := hitems item (by simp [h]) (Path.item path earlier.length)
    have hrest := ih (earlier ++ [item]) (by simpa using h)
    rw [List.length_append, List.length_singleton] at hrest
    rw [Node.readItems]
    have hplain : (PathStep.item earlier.length).IsPlain := trivial
    exact (hfirst.imp fun _ => Blames.behind hplain hitem).bind fun _ =>
      hrest.bind fun _ => .ok _

theorem isPlain_of_mem_childKeys {key : String} (h : key ∈ childKeys) :
    (PathStep.field key).IsPlain := by
  revert key
  simp [childKeys, PathStep.IsPlain]

variable (smaller : ∀ value : Value, sizeOf value < sizeOf members → IsBlamedRight value)

include smaller

theorem blames_readChild {key : String} (hkey : key ∈ childKeys) :
    Complains (Blames path (.object members)) (Node.readChild path members key) := by
  rw [Node.readChild]
  split
  next value h =>
    exact (smaller value (Members.sizeOf_lt_of_present h) _).imp fun _ =>
      Blames.behind (isPlain_of_mem_childKeys hkey) (follow_field h)
  next h =>
    exact blames_missingField (by rintro rfl; simp [childKeys] at hkey)
      (by rintro rfl; simp [childKeys] at hkey) h

theorem blames_readChild? {key : String} (hkey : key ∈ childKeys) :
    Complains (Blames path (.object members)) (Node.readChild? path members key) := by
  rw [Node.readChild?]
  split
  next value h =>
    exact ((smaller value (Members.sizeOf_lt_of_present h) _).imp fun _ =>
      Blames.behind (isPlain_of_mem_childKeys hkey) (follow_field h)).map _
  next => exact .ok _

theorem blames_readChildren {key : String} (hkey : key ∈ childKeys) :
    Complains (Blames path (.object members)) (Node.readChildren path members key) := by
  rw [Node.readChildren]
  split
  next items h =>
    have hitems : ∀ item ∈ items, IsBlamedRight item := fun item hitem => smaller item
      (Nat.lt_trans (List.sizeOf_lt_of_mem hitem) (Members.sizeOf_items_lt_of_present h))
    exact (blames_readItems hitems [] items rfl).imp fun _ =>
      Blames.behind (isPlain_of_mem_childKeys hkey) (follow_field h)
  next found hother h =>
    refine blames_wrongShape h fun hshape => ?_
    cases found with
    | array items => exact hother items rfl
    | _ => cases hshape
  next h =>
    exact blames_missingField (by rintro rfl; simp [childKeys] at hkey)
      (by rintro rfl; simp [childKeys] at hkey) h

theorem blames_readChildren? {key : String} (hkey : key ∈ childKeys) :
    Complains (Blames path (.object members)) (Node.readChildren? path members key) := by
  rw [Node.readChildren?]
  split
  next => exact blames_readChildren smaller hkey
  next => exact .ok _

theorem fieldsBlamed : FieldsRelated (fun outcome _ => Complains (Blames path (.object members))
    outcome) path members members where
  string _ := blames_string
  returnType := blames_of_faultIn (faultIn_firstString? [] _ _)
  dataType := blames_of_faultIn (faultIn_firstString? [] _ _)
  isConstant := blames_of_faultIn (faultIn_firstFlag? [] _ _)
  params := blames_typedNames (by decide)
  fields := blames_typedNames (by decide)
  literal := blames_of_faultIn (faultIn_literal [] _)
  child _ := blames_readChild smaller
  child? _ := blames_readChild? smaller
  children _ := blames_readChildren smaller
  children? _ := blames_readChildren? smaller

theorem blames_read_object : IsBlamedRight (.object members) := by
  intro path
  rw [Node.read]
  refine blames_tag.bind_of_ok fun tag htag => blames_position.bind_of_ok fun position hposition => ?_
  cases hkind : Kind.ofName? tag with
  | some kind => exact (Complains.isStepwise _).readFields (fieldsBlamed smaller) _ kind
  | none =>
    have hunknown : ∀ kind : Kind, kind.name ≠ tag := by
      rintro kind rfl
      simp at hkind
    exact .error (.unrecognized (List.forall_mem_nil _) rfl (Wire.tag_eq_ok_iff.mp htag) hunknown
      (extendedPath_nil path).symm (Wire.position_eq_ok_iff.mp hposition))

end Nodes

theorem isBlamedRight (value : Value) : IsBlamedRight value := by
  induction h : sizeOf value using Nat.strongRecOn generalizing value with
  | ind size ih =>
    subst h
    cases value with
    | object members =>
      refine blames_read_object fun part hpart => ih _ ?_ part rfl
      simp only [Value.object.sizeOf_spec]
      omega
    | _ =>
      intro path
      rw [Node.read]
      · refine blames_of_faultIn (.error ((FaultAt.notANode ?_).faultIn path))
        rintro ⟨⟩
      · rintro members ⟨⟩

/-- Every complaint about a document is true: its path leads to something that is in the document,
and what stands there has the fault that the complaint is about. -/
theorem read_error_blames {path : String} {value : Value} {error : TreeError}
    (h : Node.read path value = .error error) : Blames path value error :=
  isBlamedRight value path error h

/-- The second parameter of a function has no type. -/
theorem read_error_blames_parameter :
    let parameter : Value := .object [("name", .string "b"), ("param_type", .null)]
    let document : Value := .object [("type", .string "FunctionDeclaration"), ("name", .string "f"),
      ("params", .array [.object [("name", .string "a"), ("type", .string "int")], parameter])]
    let error : TreeError := .malformed "body[2].params[1]" (.missingField "type")
    Node.read "body[2]" document = .error error ∧ Blames "body[2]" document error := by
  intro parameter document error
  have h : Node.read "body[2]" document = .error error := by
    rw [Node.read]
    refine bind_eq_error_iff.mpr (.inr ⟨_, rfl, bind_eq_error_iff.mpr (.inr ⟨_, rfl, ?_⟩)⟩)
    refine (Node.readFields.eq_def _ _ _ .functionDecl).trans ?_
    rfl
  exact ⟨h, read_error_blames h⟩

end TreeToCpp
