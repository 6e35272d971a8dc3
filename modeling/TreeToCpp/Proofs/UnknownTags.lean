import TreeToCpp.Document
import TreeToCpp.Proofs.Addresses
import TreeToCpp.Proofs.FieldByField

/-!
# Unknown tags are found

A document that was accepted and has the tag of one node replaced by a tag of no kind is refused,
and the complaint names that tag and that node. The reader goes through the fields in a fixed order
and stops at the first fault, so this says two things: no node is left out, and nothing in front of
the node is read in another way than before.

One node is followed at a time. Above it, only the field on the way has changed, and a field is read
as before or fails with the fault of the node; so this is the case for the object as a whole.
The first is impossible, because then the node would still be found on the way.

## Main definitions

* `Value.updateAt` — a value with the part at the end of a way changed
* `Value.retagged` — a value with the tag of a part replaced
* `Tracks` — a reading gives what another one gives, or fails in a given way

## Main results

* `Value.follow_updateAt` — the changed part is found on the way
* `tracks_read` — if a part fails, the whole is read as before or fails in the same way
* `read_retagged` — a node with an unknown tag is found, wherever it is
-/

namespace TreeToCpp

open Json (Value Members)

/-! ## Changing a part of a value -/

/-- The members with the value under a key changed. -/
def Json.Members.update (key : String) (change : Value → Value) : Members → Members
  | [] => []
  | (found, value) :: rest =>
    if found = key then (found, change value) :: rest
    else (found, value) :: update key change rest

/-- The value with what a step leads to changed. -/
def PathStep.update (change : Value → Value) : PathStep → Value → Value
  | .field key, .object members => .object (Members.update key change members)
  | .item index, .array items => .array (items.modify index change)
  | _, value => value

/-- The value with the part at the end of a way changed. -/
def Json.Value.updateAt (change : Value → Value) : List PathStep → Value → Value
  | [], value => change value
  | step :: rest, value => step.update (updateAt change rest) value

/-- The value with the tag of the part at the end of a way replaced. -/
def Json.Value.retagged (steps : List PathStep) (tag : String) : Value → Value :=
  updateAt (fun _ => .string tag) (steps ++ [.field "type"])

namespace Json.Members

variable {members : Members} {key other : String} {change : Value → Value}

theorem lookup_update :
    (members.update key change).lookup key = (members.lookup key).map change := by
  rw [lookup, lookup]
  induction members with
  | nil => rfl
  | cons entry rest ih =>
    obtain ⟨found, value⟩ := entry
    rw [update]
    by_cases hfound : found = key
    · simp [hfound]
    · have hother : (key == found) = false := beq_eq_false_iff_ne.mpr (Ne.symm hfound)
      rw [if_neg hfound, List.lookup_cons, List.lookup_cons, hother, ih]

theorem lookup_update_of_ne (h : other ≠ key) :
    (members.update key change).lookup other = members.lookup other := by
  rw [lookup, lookup]
  induction members with
  | nil => rfl
  | cons entry rest ih =>
    obtain ⟨found, value⟩ := entry
    rw [update]
    by_cases hfound : found = key
    · have hother : (other == found) = false := beq_eq_false_iff_ne.mpr (hfound ▸ h)
      rw [if_pos hfound, List.lookup_cons, List.lookup_cons, hother]
    · rw [if_neg hfound, List.lookup_cons, List.lookup_cons, ih]

theorem present_update_of_ne (h : other ≠ key) :
    (members.update key change).present other = members.present other := by
  rw [present, present, lookup_update_of_ne h]

theorem present_update {held : Value} (h : members.present key = some held)
    (hnull : change held ≠ .null) : (members.update key change).present key = some (change held) := by
  rw [present, lookup_update, lookup_of_present h, Option.map_some]
  split
  next heq => exact absurd (Option.some.inj heq) hnull
  next => rfl

end Json.Members

namespace Json.Value

variable {change : Value → Value}

theorem updateAt_append (first rest : List PathStep) (value : Value) :
    value.updateAt change (first ++ rest) = value.updateAt (updateAt change rest) first := by
  induction first generalizing value with
  | nil => rfl
  | cons step first ih =>
    rw [List.cons_append, updateAt, updateAt, funext ih]

theorem shape_updateAt {steps : List PathStep} (h : steps ≠ []) (value : Value) :
    (value.updateAt change steps).shape = value.shape := by
  cases steps with
  | nil => exact absurd rfl h
  | cons step rest => cases step <;> cases value <;> rfl

/-- The changed part is found on the way. -/
theorem follow_updateAt (steps : List PathStep) (value : Value) :
    (value.updateAt change steps).follow steps = (value.follow steps).map change := by
  induction steps generalizing value with
  | nil => rfl
  | cons step rest ih =>
    have hstep : step.follow (step.update (updateAt change rest) value) =
        (step.follow value).map (updateAt change rest) := by
      cases step <;> cases value <;>
        simp [PathStep.follow, PathStep.update, Members.lookup_update]
    rw [updateAt, follow, follow, hstep, Option.bind_map, Option.map_bind]
    exact congrArg _ (funext ih)

end Json.Value

/-! ## Readings that only the fault of a part can tell apart -/

/-- A reading gives what another one gives, or it fails with an error. -/
def Tracks (error : TreeError) {α : Type} (outcome outcome' : Except TreeError α) : Prop :=
  outcome' = outcome ∨ outcome' = .error error

theorem Tracks.isStepwise (error : TreeError) : IsStepwise (Tracks error) where
  ok _ := .inl rfl
  bind := by
    rintro _ _ _ outcome f f' (rfl | rfl) hnext
    · cases outcome with
      | error => exact .inl rfl
      | ok a => exact hnext a
    · exact .inr rfl

theorem Tracks.map {error : TreeError} {α β : Type} {outcome outcome' : Except TreeError α}
    (h : Tracks error outcome outcome') (f : α → β) :
    Tracks error (f <$> outcome) (f <$> outcome') := by
  rcases h with rfl | rfl
  · exact .inl rfl
  · exact .inr rfl

/-! ### Fields with other keys -/

section Unchanged

variable {path : String} {members members' : Members}

theorem Record.string_congr {key : String} (h : members'.present key = members.present key) :
    Record.string ⟨path, members'⟩ key = Record.string ⟨path, members⟩ key := by
  rw [Record.string, Record.string, Record.required, Record.required, h]
  rfl

theorem Record.first?_congr {keys : List String}
    (h : ∀ key ∈ keys, members'.present key = members.present key) :
    Record.first? ⟨path, members'⟩ keys = Record.first? ⟨path, members⟩ keys := by
  induction keys with
  | nil => rfl
  | cons key rest ih =>
    obtain ⟨hkey, hrest⟩ := List.forall_mem_cons.mp h
    rw [Record.first?, Record.first?, hkey, ih hrest]

theorem Record.firstString?_congr {keys : List String}
    (h : ∀ key ∈ keys, members'.present key = members.present key) :
    Record.firstString? ⟨path, members'⟩ keys = Record.firstString? ⟨path, members⟩ keys := by
  rw [Record.firstString?, Record.firstString?, Record.first?_congr h]
  rfl

theorem Record.firstFlag?_congr {keys : List String}
    (h : ∀ key ∈ keys, members'.present key = members.present key) :
    Record.firstFlag? ⟨path, members'⟩ keys = Record.firstFlag? ⟨path, members⟩ keys := by
  rw [Record.firstFlag?, Record.firstFlag?, Record.first?_congr h]
  rfl

theorem Record.typedNames_congr {key typeKey : String} {otherKeys : List String}
    (h : members'.present key = members.present key) :
    Record.typedNames ⟨path, members'⟩ key typeKey otherKeys =
      Record.typedNames ⟨path, members⟩ key typeKey otherKeys := by
  rw [Record.typedNames, Record.typedNames, Record.required, Record.required, h]
  rfl

theorem Record.literal_congr (h : members'.lookup "value" = members.lookup "value") :
    Record.literal ⟨path, members'⟩ = Record.literal ⟨path, members⟩ := by
  rw [Record.literal, Record.literal, h]
  rfl

theorem Record.tag_congr (h : members'.lookup "type" = members.lookup "type") :
    Record.tag ⟨path, members'⟩ = Record.tag ⟨path, members⟩ := by
  rw [Record.tag, Record.tag, h]
  rfl

theorem Record.position_congr (h : members'.present "position" = members.present "position") :
    Record.position ⟨path, members'⟩ = Record.position ⟨path, members⟩ := by
  rw [Record.position, Record.position, h]
  rfl

end Unchanged

/-! ### The field on the way -/

section Children

variable {path key : String} {members members' : Members}

theorem Node.readChild_eq : Node.readChild path members key =
    match members.present key with
    | some value => Node.read (Path.field path key) value
    | none => .error (.malformed path (.missingField key)) := by
  rw [Node.readChild]
  split <;> simp only [*]

theorem Node.readChild?_eq : Node.readChild? path members key =
    match members.present key with
    | some value => some <$> Node.read (Path.field path key) value
    | none => .ok none := by
  rw [Node.readChild?]
  split <;> simp only [*]

theorem Node.readChildren_eq : Node.readChildren path members key =
    match members.present key with
    | some (.array items) => Node.readItems (Path.field path key) 0 items
    | some found => .error (.malformed path (.wrongShape key (.shape .array) found.shape))
    | none => .error (.malformed path (.missingField key)) := by
  rw [Node.readChildren]
  split <;> simp only [*]

/-- What stands under a key is replaced by something of the same shape in which the child that the
way leads to cannot be read. -/
inductive Spoils (error : TreeError) (path : String) : Value → Value → Prop
  | child {members members' : Members} :
      Node.read path (.object members') = .error error →
      Spoils error path (.object members) (.object members')
  | item {items : List Value} {index : Nat} {part : Value} {change : Value → Value} :
      items[index]? = some part → Node.read (Path.item path index) (change part) = .error error →
      Spoils error path (.array items) (.array (items.modify index change))

theorem tracks_readItems {error : TreeError} {path : String} {items : List Value}
    {start offset : Nat} {part : Value} {change : Value → Value} (hpart : items[offset]? = some part)
    (herror : Node.read (Path.item path (start + offset)) (change part) = .error error) :
    Tracks error (Node.readItems path start items)
      (Node.readItems path start (items.modify offset change)) := by
  induction items generalizing start offset with
  | nil => simp at hpart
  | cons item rest ih =>
    cases offset with
    | zero =>
      obtain rfl : item = part := by simpa using hpart
      rw [List.modify_zero_cons, Node.readItems, Node.readItems]
      exact (Tracks.isStepwise error).bind (.inr herror) fun _ => .inl rfl
    | succ offset =>
      rw [← Nat.succ_add_eq_add_succ] at herror
      rw [List.modify_succ_cons, Node.readItems, Node.readItems]
      exact (Tracks.isStepwise error).bind (.inl rfl) fun node =>
        (Tracks.isStepwise error).bind (ih (by simpa using hpart) herror) fun _ => .inl rfl

variable {error : TreeError} {held held' : Value}

theorem Spoils.tracks_read (h : Spoils error path held held') :
    Tracks error (Node.read path held) (Node.read path held') := by
  cases h with
  | child herror => exact .inr herror
  | item => exact .inl (by simp only [Node.read, Value.shape])

theorem Spoils.ne_null (h : Spoils error path held held') : held' ≠ .null := by
  cases h <;> rintro ⟨⟩

variable (hheld : members.present key = some held) (hheld' : members'.present key = some held')
  (h : Spoils error (Path.field path key) held held')

include hheld hheld' h

theorem tracks_readChild :
    Tracks error (Node.readChild path members key) (Node.readChild path members' key) := by
  rw [Node.readChild_eq, Node.readChild_eq, hheld, hheld']
  exact h.tracks_read

theorem tracks_readChild? :
    Tracks error (Node.readChild? path members key) (Node.readChild? path members' key) := by
  rw [Node.readChild?_eq, Node.readChild?_eq, hheld, hheld']
  exact h.tracks_read.map some

theorem tracks_readChildren :
    Tracks error (Node.readChildren path members key) (Node.readChildren path members' key) := by
  rw [Node.readChildren_eq, Node.readChildren_eq, hheld, hheld']
  cases h with
  | child => exact .inl rfl
  | item hpart herror => exact tracks_readItems hpart (by rwa [Nat.zero_add])

theorem tracks_readChildren? :
    Tracks error (Node.readChildren? path members key) (Node.readChildren? path members' key) := by
  rw [Node.readChildren?, Node.readChildren?, hheld, hheld']
  exact tracks_readChildren hheld hheld' h

/-- If the value under one key is spoiled, the fields are read as before, or with the fault. -/
theorem fieldsTracked (hkey : key ∈ childKeys)
    (hother : ∀ other, other ≠ key → members'.lookup other = members.lookup other) :
    FieldsRelated (Tracks error) path members members' := by
  have hpresent : ∀ other, other ≠ key → members'.present other = members.present other :=
    fun other hne => by rw [Members.present, Members.present, hother other hne]
  have hne : ∀ other, other ∉ childKeys → other ≠ key := by
    rintro other hmem rfl
    exact hmem hkey
  have hkeys : ∀ {keys : List String}, (∀ other ∈ keys, other ∉ childKeys) →
      ∀ other ∈ keys, members'.present other = members.present other :=
    fun hdisjoint other hmem => hpresent other (hne other (hdisjoint other hmem))
  -- Whether the key is the one that was spoiled does not depend on how a child is asked for.
  have hsplit : ∀ {α : Type} (read : Members → String → Except TreeError α),
      Tracks error (read members key) (read members' key) →
      (∀ other, members'.present other = members.present other →
        read members' other = read members other) →
      ∀ other ∈ childKeys, Tracks error (read members other) (read members' other) := by
    intro α read hspoiled hsame other _
    by_cases hkey : other = key
    · rw [hkey]
      exact hspoiled
    · exact .inl (hsame other (hpresent other hkey))
  exact {
    string := fun other hmem => .inl (Record.string_congr (hkeys (by decide) other hmem))
    returnType := .inl (Record.firstString?_congr (hkeys (by decide)))
    dataType := .inl (Record.firstString?_congr (hkeys (by decide)))
    isConstant := .inl (Record.firstFlag?_congr (hkeys (by decide)))
    params := .inl (Record.typedNames_congr (hpresent _ (hne _ (by decide))))
    fields := .inl (Record.typedNames_congr (hpresent _ (hne _ (by decide))))
    literal := .inl (Record.literal_congr (hother _ (hne _ (by decide))))
    child := hsplit _ (tracks_readChild hheld hheld' h) fun other hsame => by
      rw [Node.readChild_eq, Node.readChild_eq, hsame]
    child? := hsplit _ (tracks_readChild? hheld hheld' h) fun other hsame => by
      rw [Node.readChild?_eq, Node.readChild?_eq, hsame]
    children := hsplit _ (tracks_readChildren hheld hheld' h) fun other hsame => by
      rw [Node.readChildren_eq, Node.readChildren_eq, hsame]
    children? := hsplit _ (tracks_readChildren? hheld hheld' h) fun other hsame => by
      rw [Node.readChildren?, Node.readChildren?, Node.readChildren_eq, Node.readChildren_eq,
        hsame] }

/-- If a part of an object is spoiled, the object is read as before, or with the fault. -/
theorem tracks_read (hkey : key ∈ childKeys)
    (hother : ∀ other, other ≠ key → members'.lookup other = members.lookup other) :
    Tracks error (Node.read path (.object members)) (Node.read path (.object members')) := by
  have hne : ∀ other, other ∉ childKeys → other ≠ key := by
    rintro other hmem rfl
    exact hmem hkey
  have htag : members'.lookup "type" = members.lookup "type" := hother _ (hne _ (by decide))
  have hposition : members'.present "position" = members.present "position" := by
    rw [Members.present, Members.present, hother _ (hne _ (by decide))]
  have step := Tracks.isStepwise error
  rw [Node.read, Node.read, Record.tag_congr htag, Record.position_congr hposition]
  refine step.bind (.inl rfl) fun tag => step.bind (.inl rfl) fun position => ?_
  cases Kind.ofName? tag with
  | none => exact .inl rfl
  | some kind => exact step.readFields (fieldsTracked hheld hheld' h hkey hother) _ kind

end Children

/-! ## The node on the way -/

section Ways

variable {path : String} {error : TreeError} {change : Value → Value}

theorem exists_object_of_shape {value : Value} (h : value.shape = .object) :
    ∃ members, value = .object members := by
  cases value with
  | object members => exact ⟨members, rfl⟩
  | _ => cases h

theorem Node.mem_childKeys (node : Node) : ∀ field ∈ node.fields, field.1 ∈ childKeys := by
  cases node <;> simp [fields, childKeys]

/-- A change that keeps the shape of a child and makes it fail spoils what stands under its key. -/
theorem Wire.Fills.spoils {members : Members} {key : String} {slot : Slot}
    (h : Fills path members key slot) (hshape : ∀ value, (change value).shape = value.shape)
    {entry : List PathStep × Node} (hentry : entry ∈ slot.entries) {part : Value}
    (hpart : (Value.object members).follow (.field key :: entry.1) = some part)
    (herror : Node.read (pathAlong path (.field key :: entry.1)) (change part) = .error error) :
    ∃ held, members.present key = some held ∧
      Spoils error (Path.field path key) held (held.updateAt change entry.1) := by
  have hfollow : ∀ {held}, members.present key = some held →
      held.follow entry.1 = some part := fun hheld => by
    rwa [Json.Value.follow, PathStep.follow, Members.lookup_of_present hheld,
      Option.bind_some] at hpart
  cases slot with
  | one child? =>
    cases child? with
    | none => cases hentry
    | some child =>
      obtain rfl := List.mem_singleton.mp hentry
      obtain ⟨hheld, hchild⟩ := h
      obtain rfl := Option.some.inj (hfollow hheld)
      obtain ⟨child, rfl, -⟩ := hchild.fields
      obtain ⟨child', hchild'⟩ := exists_object_of_shape (hshape (.object child))
      refine ⟨_, hheld, ?_⟩
      rw [Json.Value.updateAt, hchild']
      rw [hchild'] at herror
      exact .child herror
  | many children =>
    obtain ⟨⟨child, index⟩, hmem, rfl⟩ := List.mem_map.mp hentry
    rcases h with rfl | ⟨hheld, -⟩
    · cases hmem
    · have hitem := hfollow hheld
      refine ⟨_, hheld, .item ?_ herror⟩
      simpa [Json.Value.follow, PathStep.follow] using hitem

/-- If a change keeps the shape of a child and makes it fail, the node fails in the same way. -/
theorem read_updateAt {value part : Value} {node : Node} (h : Node.read path value = .ok node)
    (hshape : ∀ value, (change value).shape = value.shape) {entry : List PathStep × Node}
    (hentry : entry ∈ node.children) (hpart : value.follow entry.1 = some part)
    (herror : Node.read (pathAlong path entry.1) (change part) = .error error) :
    Node.read path (value.updateAt change entry.1) = .error error := by
  have hdescribes := (Wire.agrees value path node).mp h
  have hread : Tracks error (Node.read path value)
      (Node.read path (value.updateAt change entry.1)) := by
    obtain ⟨members, rfl, -, hfields⟩ := hdescribes.fields
    obtain ⟨⟨key, slot⟩, hfield, found, hfound, rfl⟩ := Node.exists_of_mem_children hentry
    obtain ⟨held, hheld, hspoils⟩ := (hfields _ hfield).spoils hshape hfound hpart herror
    exact tracks_read hheld (Members.present_update hheld hspoils.ne_null) hspoils
      (node.mem_childKeys _ hfield) fun other hne => Members.lookup_update_of_ne hne
  rcases hread with hsame | herror'
  · -- The child would still be found.
    rw [h] at hsame
    obtain ⟨part', hpart', hchild⟩ := ((Wire.agrees _ _ _).mp hsame).children entry hentry
    rw [Json.Value.follow_updateAt, hpart, Option.map_some] at hpart'
    cases hpart'
    rw [(Wire.agrees _ _ _).mpr hchild] at herror
    cases herror
  · exact herror'

/-- An object that described a node is no longer one with an unknown tag. -/
theorem read_with_unknown_tag {members : Members} {name tag : String} {loc : Location}
    (h : Wire.Head path members name loc) (htag : ∀ kind : Kind, kind.name ≠ tag) :
    Node.read path (Value.object members |>.retagged [] tag) = .error (.unrecognized tag loc) := by
  have htag' : Record.tag ⟨path, Members.update "type" (fun _ => .string tag) members⟩ = .ok tag :=
    Wire.tag_eq_ok_iff.mpr (by rw [Members.lookup_update, h.tag]; rfl)
  have hposition : Record.position ⟨path, Members.update "type" (fun _ => .string tag) members⟩ =
      .ok loc.position := by
    rw [Record.position_congr (Members.present_update_of_ne (by decide))]
    exact Wire.position_eq_ok_iff.mpr h.position
  have hkind : Kind.ofName? tag = none := by
    rw [Option.eq_none_iff_forall_ne_some]
    exact fun kind hfound => htag kind (Kind.name_of_ofName? hfound)
  show Node.read path (.object (Members.update "type" (fun _ => .string tag) members)) = _
  rw [Node.read]
  refine bind_eq_error_iff.mpr (.inr ⟨tag, htag', bind_eq_error_iff.mpr (.inr ⟨_, hposition, ?_⟩)⟩)
  rw [hkind, ← h.path]

/-- Wherever a node is, an unknown tag in it is what the reading of the whole fails with. -/
theorem read_retagged {path : String} {value : Value} {root : Node} (h : Node.read path value = .ok root)
    {tag : String} (htag : ∀ kind : Kind, kind.name ≠ tag) :
    ∀ place ∈ root.places, Node.read path (value.retagged place.1 tag) =
      .error (.unrecognized tag place.2.location) := by
  intro place hplace
  have hdescribes := (Wire.agrees value path root).mp h
  rw [Node.places_eq, List.mem_cons] at hplace
  rcases hplace with rfl | hplace
  · obtain ⟨members, rfl, head, -⟩ := hdescribes.fields
    exact read_with_unknown_tag head htag
  · obtain ⟨entry, hentry, hmem⟩ := List.mem_flatMap.mp hplace
    obtain ⟨below, hbelow, rfl⟩ := List.mem_map.mp hmem
    obtain ⟨part, hpart, hchild⟩ := hdescribes.children entry hentry
    have herror := read_retagged ((Wire.agrees _ _ _).mpr hchild) htag below hbelow
    rw [Json.Value.retagged, List.append_assoc, Json.Value.updateAt_append]
    exact read_updateAt h (Json.Value.shape_updateAt (by simp)) hentry hpart herror
termination_by sizeOf root
decreasing_by exact Node.sizeOf_lt_of_mem_children hentry

end Ways

/-! ## Documents -/

/-- **An unknown tag is always found.** If a document is a program, and the tag of one of its nodes
is replaced by a tag of no kind, then the document is refused, and the complaint shows that tag, the
path of that node and the position that is recorded there. -/
theorem read_program_retagged {value : Value} {body : List Node}
    (h : Program.read value = .ok body) : ∃ loc,
      Node.read "" value = .ok (.program loc body) ∧
      ∀ steps node, (steps, node) ∈ (Node.program loc body).places →
        ∃ members position, value.follow steps = some (.object members) ∧
          Wire.PositionGiven members position ∧
          node.location = { path := extendedPath "" steps, position := position } ∧
          ∀ tag, (∀ kind : Kind, kind.name ≠ tag) →
            Program.read (value.retagged steps tag) =
              .error (.unrecognized tag { path := extendedPath "" steps, position := position }) ∧
            ∀ options text,
              Value.ofText Json.documentLevels text = .ok (value.retagged steps tag) →
              renderDocument options text = .error (.reading
                (.unrecognized tag { path := extendedPath "" steps, position := position })) := by
  rw [Program.read, bind_eq_ok_iff] at h
  obtain ⟨root, hroot, h⟩ := h
  cases root with
  | program loc nodes =>
    obtain rfl := pure_eq_ok_iff.mp h
    refine ⟨loc, hroot, fun steps node hplace => ?_⟩
    have haddress := ((Wire.agrees _ _ _).mp hroot).addresses hplace
    obtain ⟨members, hfollow, -, -, hposition⟩ := haddress.object
    have hloc : node.location = ⟨extendedPath "" steps, node.location.position⟩ := by
      rw [← haddress.path]
    refine ⟨members, node.location.position, hfollow, hposition, hloc, fun tag htag => ?_⟩
    have hread := read_retagged hroot htag _ hplace
    rw [← hloc]
    have hprogram : Program.read (value.retagged steps tag) =
        .error (.unrecognized tag node.location) := by
      rw [Program.read, hread]
      rfl
    refine ⟨hprogram, fun options text htext => ?_⟩
    rw [renderDocument, Program.ofText, htext]
    simp only [hprogram]
  | _ => cases h

/-- The argument of the second statement. -/
theorem read_program_retagged_argument :
    let argument : Value := .object [("type", .string "Identifier"), ("name", .string "a"),
      ("position", .object [("line", .number (.natural 3)), ("column", .number (.natural 9))])]
    let document : Value := .object [("type", .string "Program"), ("body", .array [
      .object [("type", .string "BreakStatement")],
      .object [("type", .string "ReturnStatement"), ("argument", argument)]])]
    let loc : Location := { path := "body[1].argument", position := some { line := 3, column := 9 } }
    let statement : Node :=
      .returnStmt { path := "body[1]", position := none } (some (.identifier loc "a"))
    let body : List Node := [.breakStmt { path := "body[0]", position := none }, statement]
    let steps : List PathStep := [.field "body", .item 1, .field "argument"]
    Program.read document = .ok body ∧
      Program.read (document.retagged steps "Lambda") = .error (.unrecognized "Lambda" loc) := by
  intro argument document loc statement body steps
  have hargument : Wire.Describes "body[1].argument" argument (.identifier loc "a") :=
    .identifier ⟨rfl, rfl, @Wire.PositionGiven.given _ _ 3 9 rfl rfl rfl⟩ rfl
  have hdocument : Wire.Describes "" document (.program { path := "", position := none } body) :=
    .program ⟨rfl, rfl, .absent rfl⟩ <| .mk rfl <|
      .cons (.breakStmt ⟨rfl, rfl, .absent rfl⟩) <|
      .cons (.returnStmt ⟨rfl, rfl, .absent rfl⟩ (.given (.mk rfl hargument))) .nil
  have h : Program.read document = .ok body := by
    rw [Program.read, (Wire.agrees _ _ _).mpr hdocument]
    rfl
  obtain ⟨root, -, hplaces⟩ := read_program_retagged h
  have hstatement : ([.field "body", .item 1], statement) ∈ (Node.program root body).children := by
    simp [Node.children, Node.fields, Slot.entries, body]
  have hchild : ([.field "argument"], .identifier loc "a") ∈ statement.children := by
    simp [Node.children, Node.fields, Slot.entries, statement]
  have hplace := Node.mem_places_of_child hstatement
    (Node.mem_places_of_child hchild (Node.mem_places_self _))
  obtain ⟨members, position, -, -, hloc, hretagged⟩ := hplaces _ _ hplace
  have hread := (hretagged "Lambda" (by rintro (_ | _) <;> decide)).1
  rw [← hloc] at hread
  exact ⟨h, hread⟩

end TreeToCpp
