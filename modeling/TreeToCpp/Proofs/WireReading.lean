import TreeToCpp.Proofs.Outcome
import TreeToCpp.Proofs.WireGrammar
import TreeToCpp.Tree.Reading

/-!
# The reader accepts the grammar

`Node.read` goes through the fields of an object in a fixed order and stops at the first fault. This
file shows that the order does not matter for what is accepted: the reader gives a node exactly when
the value describes that node.

The leaves come first, one lemma for each reader of a field, then the 23 kinds, then the recursion.
The kinds are settled for any object whose children are read right, which keeps the induction out of
them.

## Main results

* `Wire.read_object_eq_ok_iff` — an object is read by the fields of the kind that its head names
* `Wire.describes_of_readFields`, `Wire.readFields_of_describes` — the fields of every kind
* `Wire.read_iff_describes` — the reader accepts the grammar and builds the tree it prescribes
-/

namespace TreeToCpp

open Json (Value Members)

namespace Wire

/-! ## Reading the parts of a node

Each reader of a field succeeds exactly on what the grammar says about that field. -/

variable {r : Record}

theorem tag_eq_ok_iff {tag : String} :
    r.tag = .ok tag ↔ r.members.lookup "type" = some (.string tag) := by
  rw [Record.tag]
  split
  next text h => simp [h]
  next h => simpa [Record.fail] using h tag

theorem required_eq_ok_iff {key : String} {value : Value} :
    r.required key = .ok value ↔ r.members.present key = some value := by
  rw [Record.required]
  cases h : r.members.present key <;> simp [Record.fail]

theorem asString_eq_ok_iff {key text : String} {value : Value} :
    r.asString key value = .ok text ↔ value = .string text := by
  cases value <;> simp [Record.asString, Record.failShape, Record.fail]

theorem asFlag_eq_ok_iff {key : String} {flag : Bool} {value : Value} :
    r.asFlag key value = .ok flag ↔ value = .boolean flag := by
  cases value <;> simp [Record.asFlag, Record.failShape, Record.fail]

theorem string_eq_ok_iff {key text : String} :
    r.string key = .ok text ↔ r.members.present key = some (.string text) := by
  simp [Record.string, bind_eq_ok_iff, required_eq_ok_iff, asString_eq_ok_iff]

/-- Looking through the spellings from the front finds the first one that is present. -/
theorem firstPresent_iff {keys : List String} {found : Option Value} :
    FirstPresent r.members keys found ↔ (r.first? keys).map Prod.snd = found := by
  induction keys with
  | nil =>
    constructor
    · rintro ⟨⟩
      rfl
    · rintro rfl
      exact .absent
  | cons key rest ih =>
    cases h : r.members.present key with
    | none =>
      rw [Record.first?, h, ← ih]
      constructor
      · rintro (_ | here | ⟨_, later⟩)
        · simp [h] at here
        · exact later
      · exact .later h
    | some value =>
      rw [Record.first?, h]
      constructor
      · rintro (_ | here | ⟨absent, _⟩)
        · simpa [h] using here
        · simp [h] at absent
      · rintro rfl
        exact .here h

theorem firstString?_eq_ok_iff {keys : List String} {text : Option String} :
    r.firstString? keys = .ok text ↔ FirstPresent r.members keys (text.map .string) := by
  rw [firstPresent_iff, Record.firstString?]
  cases h : r.first? keys with
  | none => cases text <;> simp
  | some entry =>
    obtain ⟨key, value⟩ := entry
    cases text <;> simp [map_eq_ok_iff, asString_eq_ok_iff]

theorem firstFlag?_eq_ok_iff {keys : List String} {flag : Option Bool} :
    r.firstFlag? keys = .ok flag ↔ FirstPresent r.members keys (flag.map .boolean) := by
  rw [firstPresent_iff, Record.firstFlag?]
  cases h : r.first? keys with
  | none => cases flag <;> simp
  | some entry =>
    obtain ⟨key, value⟩ := entry
    cases flag <;> simp [map_eq_ok_iff, asFlag_eq_ok_iff]

theorem typedName_eq_ok_iff {typeKey : String} {otherKeys : List String} {path : String}
    {item : Value} {entry : TypedName} :
    Record.typedName typeKey otherKeys path item = .ok entry ↔
      TypedEntry (typeKey :: otherKeys) item entry := by
  constructor
  · intro h
    cases item with
    | object members =>
      simp only [Record.typedName, bind_eq_ok_iff] at h
      obtain ⟨name, hname, type?, htype, h⟩ := h
      cases type? with
      | none => simp [Record.fail] at h
      | some type =>
        cases h
        exact .mk (string_eq_ok_iff.mp hname) (firstString?_eq_ok_iff.mp htype)
    | _ => simp [Record.typedName] at h
  · rintro @⟨members, name, type, hname, htype⟩
    simp only [Record.typedName, bind_eq_ok_iff]
    have htype' : ({ path := path, members := members } : Record).firstString?
        (typeKey :: otherKeys) = .ok (some type) := firstString?_eq_ok_iff.mpr htype
    exact ⟨name, string_eq_ok_iff.mpr hname, some type, htype', rfl⟩

theorem typedNamesFrom_eq_ok_iff {typeKey : String} {otherKeys : List String} {path : String}
    {items : List Value} {index : Nat} {entries : List TypedName} :
    Record.typedNamesFrom typeKey otherKeys path index items = .ok entries ↔
      List.Forall₂ (TypedEntry (typeKey :: otherKeys)) items entries := by
  induction items generalizing index entries with
  | nil =>
    rw [Record.typedNamesFrom, List.forall₂_nil_left_iff]
    simp [eq_comm]
  | cons item rest ih =>
    simp only [Record.typedNamesFrom, bind_eq_ok_iff, typedName_eq_ok_iff, ih, pure_eq_ok_iff,
      List.forall₂_cons_left_iff]
    constructor
    · rintro ⟨entry, hentry, others, hothers, rfl⟩
      exact ⟨entry, others, hentry, hothers, rfl⟩
    · rintro ⟨entry, others, hentry, hothers, rfl⟩
      exact ⟨entry, hentry, others, hothers, rfl⟩

theorem typedNames_eq_ok_iff {key typeKey : String} {otherKeys : List String}
    {entries : List TypedName} :
    r.typedNames key typeKey otherKeys = .ok entries ↔
      TypedEntries r.members key (typeKey :: otherKeys) entries := by
  simp only [Record.typedNames, bind_eq_ok_iff, required_eq_ok_iff, TypedEntries]
  constructor
  · rintro ⟨value, hvalue, h⟩
    cases value with
    | array items => exact ⟨items, hvalue, typedNamesFrom_eq_ok_iff.mp h⟩
    | _ => simp [Record.failShape, Record.fail] at h
  · rintro ⟨items, hitems, h⟩
    exact ⟨_, hitems, typedNamesFrom_eq_ok_iff.mpr h⟩

theorem literal_eq_ok_iff {literal : Literal} :
    r.literal = .ok literal ↔
      ∃ value, r.members.lookup "value" = some value ∧ LiteralValue value literal := by
  rw [Record.literal]
  cases h : r.members.lookup "value" with
  | none => simp [Record.fail]
  | some value =>
    constructor
    · intro hliteral
      refine ⟨value, rfl, ?_⟩
      cases value <;> simp [Record.failShape, Record.fail] at hliteral <;> subst hliteral <;>
        constructor
    · rintro ⟨_, ⟨⟩, ⟨⟩⟩ <;> rfl

theorem coordinate_eq_ok_iff {key : String} {number : Nat} :
    r.coordinate key = .ok number ↔
      ∃ value : UInt64, r.members.lookup key = some (.number (.natural value)) ∧
        value.toNat = number := by
  rw [Record.coordinate]
  split
  next found h =>
    cases found <;> simp [h, Json.Number.natural?, Record.fail]
  next h =>
    simp only [Record.fail, reduceCtorEq, false_iff, not_exists, not_and]
    exact fun value hvalue => absurd hvalue (h _)

theorem position_eq_ok_iff {position : Option Position} :
    r.position = .ok position ↔ PositionGiven r.members position := by
  rw [Record.position]
  split
  next absent =>
    constructor
    · rintro ⟨⟩
      exact .absent absent
    · rintro (_ | ⟨present, _, _⟩)
      · rfl
      · simp [absent] at present
  next place h =>
    simp only [bind_eq_ok_iff, coordinate_eq_ok_iff, pure_eq_ok_iff]
    constructor
    · rintro ⟨_, ⟨line, hline, rfl⟩, _, ⟨column, hcolumn, rfl⟩, rfl⟩
      exact .given h hline hcolumn
    · rintro (absent | ⟨present, hline, hcolumn⟩)
      · simp [h] at absent
      · rw [h] at present
        cases present
        exact ⟨_, ⟨_, hline, rfl⟩, _, ⟨_, hcolumn, rfl⟩, rfl⟩
  next found other present =>
    simp only [Record.failShape, Record.fail, reduceCtorEq, false_iff]
    rintro (absent | ⟨object, _, _⟩)
    · simp [present] at absent
    · rw [present, Option.some.injEq] at object
      exact other _ object

/-! ## Reading a node

The children of an object are read from smaller values. Until that is known to be an induction, what
reading them gives is a hypothesis, `ChildrenAgree`, and the fields of an object are settled from it
kind by kind. -/

/-- Reading the children of an object agrees with the grammar. -/
structure ChildrenAgree (path : String) (members : Members) : Prop where
  child : ∀ {key node}, Node.readChild path members key = .ok node ↔ Child path members key node
  optionalChild : ∀ {key node},
    Node.readChild? path members key = .ok node ↔ OptionalChild path members key node
  children : ∀ {key nodes},
    Node.readChildren path members key = .ok nodes ↔ Children path members key nodes
  optionalChildren : ∀ {key nodes},
    Node.readChildren? path members key = .ok nodes ↔ OptionalChildren path members key nodes

variable {path : String} {members : Members} {loc : Location} {node : Node}

/-- An object with the right head is read by the fields of its kind. -/
theorem read_object_eq_ok_iff :
    Node.read path (.object members) = .ok node ↔
      ∃ kind loc, Head path members (Kind.name kind) loc ∧
        Node.readFields path members loc kind = .ok node := by
  simp only [Node.read, bind_eq_ok_iff, tag_eq_ok_iff, position_eq_ok_iff]
  constructor
  · rintro ⟨tag, htag, position, hposition, h⟩
    split at h
    next kind hkind =>
      rw [← Kind.name_of_ofName? hkind] at htag
      exact ⟨kind, _, ⟨htag, rfl, hposition⟩, h⟩
    next => cases h
  · rintro ⟨kind, ⟨_, position⟩, ⟨htag, rfl, hposition⟩, h⟩
    refine ⟨_, htag, position, hposition, ?_⟩
    rw [Kind.ofName?_name]
    exact h

/-- What the fields of a kind give is what its rule prescribes. -/
theorem describes_of_readFields (agree : ChildrenAgree path members) {kind : Kind}
    (head : Head path members kind.name loc)
    (h : Node.readFields path members loc kind = .ok node) :
    Describes path (.object members) node := by
  cases kind <;>
    simp only [Node.readFields, bind_eq_ok_iff, pure_eq_ok_iff, Except.ok.injEq, agree.child,
      agree.optionalChild, agree.children, agree.optionalChildren, string_eq_ok_iff,
      typedNames_eq_ok_iff, firstString?_eq_ok_iff, firstFlag?_eq_ok_iff, literal_eq_ok_iff] at h
  case program =>
    obtain ⟨body, hbody, rfl⟩ := h
    exact .program head hbody
  case functionDecl =>
    obtain ⟨name, hname, params, hparams, returnType, hreturn, body, hbody, rfl⟩ := h
    exact .functionDecl head hname hparams hreturn hbody
  case variableDecl =>
    obtain ⟨name, hname, type, htype, flag, hflag, value, hvalue, rfl⟩ := h
    exact .variableDecl head hname htype hflag hvalue
  case structDecl =>
    obtain ⟨name, hname, fields, hfields, methods, hmethods, rfl⟩ := h
    exact .structDecl head hname hfields hmethods
  case importDecl =>
    obtain ⟨module, hmodule, rfl⟩ := h
    exact .importDecl head hmodule
  case block =>
    obtain ⟨body, hbody, rfl⟩ := h
    exact .block head hbody
  case exprStmt =>
    obtain ⟨expression, hexpression, rfl⟩ := h
    exact .exprStmt head hexpression
  case ifStmt =>
    obtain ⟨test, htest, consequent, hconsequent, alternate, halternate, rfl⟩ := h
    exact .ifStmt head htest hconsequent halternate
  case whileStmt =>
    obtain ⟨test, htest, body, hbody, rfl⟩ := h
    exact .whileStmt head htest hbody
  case forStmt =>
    obtain ⟨start, hstart, test, htest, update, hupdate, body, hbody, rfl⟩ := h
    exact .forStmt head hstart htest hupdate hbody
  case breakStmt =>
    subst h
    exact .breakStmt head
  case continueStmt =>
    subst h
    exact .continueStmt head
  case returnStmt =>
    obtain ⟨argument, hargument, rfl⟩ := h
    exact .returnStmt head hargument
  case assign =>
    obtain ⟨left, hleft, right, hright, rfl⟩ := h
    exact .assign head hleft hright
  case binary =>
    obtain ⟨operator, hoperator, left, hleft, right, hright, rfl⟩ := h
    exact .binary head hoperator hleft hright
  case unary =>
    obtain ⟨operator, hoperator, argument, hargument, rfl⟩ := h
    exact .unary head hoperator hargument
  case call =>
    obtain ⟨callee, hcallee, arguments, harguments, rfl⟩ := h
    exact .call head hcallee harguments
  case member =>
    obtain ⟨object, hobject, property, hproperty, rfl⟩ := h
    exact .member head hobject hproperty
  case index =>
    obtain ⟨object, hobject, position, hposition, rfl⟩ := h
    exact .index head hobject hposition
  case slice =>
    obtain ⟨object, hobject, lower, hlower, upper, hupper, rfl⟩ := h
    exact .slice head hobject hlower hupper
  case literal =>
    obtain ⟨literal, ⟨value, hvalue, hliteral⟩, rfl⟩ := h
    exact .literal head hvalue hliteral
  case identifier =>
    obtain ⟨name, hname, rfl⟩ := h
    exact .identifier head hname
  case array =>
    obtain ⟨elements, helements, rfl⟩ := h
    exact .array head helements

/-- What the rule of a kind prescribes is what its fields give. -/
theorem readFields_of_describes (agree : ChildrenAgree path members)
    (h : Describes path (.object members) node) :
    ∃ kind loc, Head path members (Kind.name kind) loc ∧
      Node.readFields path members loc kind = .ok node := by
  cases h with
  | program head body =>
    refine ⟨.program, _, head, ?_⟩
    simp only [Node.readFields, bind_eq_ok_iff, pure_eq_ok_iff, agree.children]
    exact ⟨_, body, rfl⟩
  | functionDecl head name params returnType body =>
    refine ⟨.functionDecl, _, head, ?_⟩
    simp only [Node.readFields, bind_eq_ok_iff, pure_eq_ok_iff, string_eq_ok_iff,
      typedNames_eq_ok_iff, firstString?_eq_ok_iff, agree.child]
    exact ⟨_, name, _, params, _, returnType, _, body, rfl⟩
  | variableDecl head name type flag value =>
    refine ⟨.variableDecl, _, head, ?_⟩
    simp only [Node.readFields, bind_eq_ok_iff, pure_eq_ok_iff, string_eq_ok_iff,
      firstString?_eq_ok_iff, firstFlag?_eq_ok_iff, agree.optionalChild]
    exact ⟨_, name, _, type, _, flag, _, value, rfl⟩
  | structDecl head name fields methods =>
    refine ⟨.structDecl, _, head, ?_⟩
    simp only [Node.readFields, bind_eq_ok_iff, pure_eq_ok_iff, string_eq_ok_iff,
      typedNames_eq_ok_iff, agree.optionalChildren]
    exact ⟨_, name, _, fields, _, methods, rfl⟩
  | importDecl head module =>
    refine ⟨.importDecl, _, head, ?_⟩
    simp only [Node.readFields, bind_eq_ok_iff, pure_eq_ok_iff, string_eq_ok_iff]
    exact ⟨_, module, rfl⟩
  | block head body =>
    refine ⟨.block, _, head, ?_⟩
    simp only [Node.readFields, bind_eq_ok_iff, pure_eq_ok_iff, agree.children]
    exact ⟨_, body, rfl⟩
  | exprStmt head expression =>
    refine ⟨.exprStmt, _, head, ?_⟩
    simp only [Node.readFields, bind_eq_ok_iff, pure_eq_ok_iff, agree.child]
    exact ⟨_, expression, rfl⟩
  | ifStmt head test consequent alternate =>
    refine ⟨.ifStmt, _, head, ?_⟩
    simp only [Node.readFields, bind_eq_ok_iff, pure_eq_ok_iff, agree.child, agree.optionalChild]
    exact ⟨_, test, _, consequent, _, alternate, rfl⟩
  | whileStmt head test body =>
    refine ⟨.whileStmt, _, head, ?_⟩
    simp only [Node.readFields, bind_eq_ok_iff, pure_eq_ok_iff, agree.child]
    exact ⟨_, test, _, body, rfl⟩
  | forStmt head start test update body =>
    refine ⟨.forStmt, _, head, ?_⟩
    simp only [Node.readFields, bind_eq_ok_iff, pure_eq_ok_iff, agree.optionalChild, agree.child]
    exact ⟨_, start, _, test, _, update, _, body, rfl⟩
  | breakStmt head =>
    refine ⟨.breakStmt, _, head, ?_⟩
    rw [Node.readFields]
  | continueStmt head =>
    refine ⟨.continueStmt, _, head, ?_⟩
    rw [Node.readFields]
  | returnStmt head argument =>
    refine ⟨.returnStmt, _, head, ?_⟩
    simp only [Node.readFields, bind_eq_ok_iff, pure_eq_ok_iff, agree.optionalChild]
    exact ⟨_, argument, rfl⟩
  | assign head left right =>
    refine ⟨.assign, _, head, ?_⟩
    simp only [Node.readFields, bind_eq_ok_iff, pure_eq_ok_iff, agree.child]
    exact ⟨_, left, _, right, rfl⟩
  | binary head operator left right =>
    refine ⟨.binary, _, head, ?_⟩
    simp only [Node.readFields, bind_eq_ok_iff, pure_eq_ok_iff, string_eq_ok_iff, agree.child]
    exact ⟨_, operator, _, left, _, right, rfl⟩
  | unary head operator argument =>
    refine ⟨.unary, _, head, ?_⟩
    simp only [Node.readFields, bind_eq_ok_iff, pure_eq_ok_iff, string_eq_ok_iff, agree.child]
    exact ⟨_, operator, _, argument, rfl⟩
  | call head callee arguments =>
    refine ⟨.call, _, head, ?_⟩
    simp only [Node.readFields, bind_eq_ok_iff, pure_eq_ok_iff, agree.child, agree.children]
    exact ⟨_, callee, _, arguments, rfl⟩
  | member head object property =>
    refine ⟨.member, _, head, ?_⟩
    simp only [Node.readFields, bind_eq_ok_iff, pure_eq_ok_iff, agree.child, string_eq_ok_iff]
    exact ⟨_, object, _, property, rfl⟩
  | index head object position =>
    refine ⟨.index, _, head, ?_⟩
    simp only [Node.readFields, bind_eq_ok_iff, pure_eq_ok_iff, agree.child]
    exact ⟨_, object, _, position, rfl⟩
  | slice head object lower upper =>
    refine ⟨.slice, _, head, ?_⟩
    simp only [Node.readFields, bind_eq_ok_iff, pure_eq_ok_iff, agree.child, agree.optionalChild]
    exact ⟨_, object, _, lower, _, upper, rfl⟩
  | literal head value literal =>
    refine ⟨.literal, _, head, ?_⟩
    simp only [Node.readFields, bind_eq_ok_iff, pure_eq_ok_iff, literal_eq_ok_iff]
    exact ⟨_, ⟨_, value, literal⟩, rfl⟩
  | identifier head name =>
    refine ⟨.identifier, _, head, ?_⟩
    simp only [Node.readFields, bind_eq_ok_iff, pure_eq_ok_iff, string_eq_ok_iff]
    exact ⟨_, name, rfl⟩
  | array head elements =>
    refine ⟨.array, _, head, ?_⟩
    simp only [Node.readFields, bind_eq_ok_iff, pure_eq_ok_iff, agree.children]
    exact ⟨_, elements, rfl⟩

/-! ## The induction

It is on the size of the value, and it runs through objects and lists together: a child is smaller
than the object that it stands in, also when it is an item of a list there. -/

/-- Reading a value agrees with the grammar, wherever the value stands. -/
def Agrees (value : Value) : Prop :=
  ∀ path node, Node.read path value = .ok node ↔ Describes path value node

theorem readItems_eq_ok_iff {items : List Value} (agree : ∀ item ∈ items, Agrees item)
    {index : Nat} {nodes : List Node} :
    Node.readItems path index items = .ok nodes ↔ Items path index items nodes := by
  induction items generalizing index nodes with
  | nil =>
    rw [Node.readItems]
    constructor
    · rintro ⟨⟩
      exact .nil
    · rintro ⟨⟩
      rfl
  | cons item rest ih =>
    have hrest : ∀ item ∈ rest, Agrees item := fun item h => agree item (List.mem_cons_of_mem _ h)
    have hitem := agree item List.mem_cons_self
    simp only [Node.readItems, bind_eq_ok_iff, pure_eq_ok_iff, hitem _ _,
      ih hrest]
    constructor
    · rintro ⟨node, hnode, nodes, hnodes, rfl⟩
      exact .cons hnode hnodes
    · rintro (_ | ⟨hnode, hnodes⟩)
      exact ⟨_, hnode, _, hnodes, rfl⟩

theorem readChild_eq_ok_iff
    (agree : ∀ value : Value, sizeOf value < sizeOf members → Agrees value) {key : String} :
    Node.readChild path members key = .ok node ↔ Child path members key node := by
  rw [Node.readChild]
  split
  next value h =>
    rw [agree value (Members.sizeOf_lt_of_present h)]
    constructor
    · exact .mk h
    · rintro ⟨present, hnode⟩
      rw [h, Option.some.injEq] at present
      rw [present]
      exact hnode
  next h =>
    simp only [reduceCtorEq, false_iff]
    rintro ⟨present, _⟩
    simp [h] at present

theorem readChildren_eq_ok_iff
    (agree : ∀ value : Value, sizeOf value < sizeOf members → Agrees value) {key : String}
    {nodes : List Node} :
    Node.readChildren path members key = .ok nodes ↔ Children path members key nodes := by
  rw [Node.readChildren]
  split
  next items h =>
    have agree' : ∀ item ∈ items, Agrees item := fun item hitem =>
      agree item (Nat.lt_trans (List.sizeOf_lt_of_mem hitem) (Members.sizeOf_items_lt_of_present h))
    rw [readItems_eq_ok_iff agree']
    constructor
    · exact .mk h
    · rintro ⟨present, hitems⟩
      rw [h, Option.some.injEq, Value.array.injEq] at present
      rw [present]
      exact hitems
  next found other h =>
    simp only [reduceCtorEq, false_iff]
    rintro ⟨present, _⟩
    rw [h, Option.some.injEq] at present
    exact other _ present
  next h =>
    simp only [reduceCtorEq, false_iff]
    rintro ⟨present, _⟩
    simp [h] at present

theorem childrenAgree (agree : ∀ value : Value, sizeOf value < sizeOf members → Agrees value) :
    ChildrenAgree path members where
  child := readChild_eq_ok_iff agree
  optionalChild := by
    intro key node
    rw [Node.readChild?]
    split
    next value h =>
      simp only [map_eq_ok_iff, agree value (Members.sizeOf_lt_of_present h) _ _]
      constructor
      · rintro ⟨child, hchild, rfl⟩
        exact .given (.mk h hchild)
      · rintro (absent | ⟨present, hchild⟩)
        · simp [h] at absent
        · rw [h, Option.some.injEq] at present
          exact ⟨_, present ▸ hchild, rfl⟩
    next h =>
      constructor
      · rintro ⟨⟩
        exact .absent h
      · rintro (_ | ⟨present, _⟩)
        · rfl
        · simp [h] at present
  children := readChildren_eq_ok_iff agree
  optionalChildren := by
    intro key nodes
    rw [Node.readChildren?]
    split
    next value h =>
      rw [readChildren_eq_ok_iff agree]
      constructor
      · exact .given
      · rintro (absent | given)
        · simp [h] at absent
        · exact given
    next h =>
      constructor
      · rintro ⟨⟩
        exact .absent h
      · rintro (_ | ⟨present, _⟩)
        · rfl
        · simp [h] at present

/-- One step of the induction: an object agrees if everything smaller does, and no other value
describes a node. -/
theorem agrees_of_smaller {value : Value}
    (smaller : ∀ part : Value, sizeOf part < sizeOf value → Agrees part) : Agrees value := by
  intro path node
  cases value with
  | object members =>
    have agree : ChildrenAgree path members := childrenAgree fun part h =>
      smaller part (by simp only [Value.object.sizeOf_spec]; omega)
    rw [read_object_eq_ok_iff]
    constructor
    · rintro ⟨kind, loc, head, h⟩
      exact describes_of_readFields agree head h
    · exact readFields_of_describes agree
  | _ =>
    simp only [Node.read, reduceCtorEq, false_iff]
    rintro ⟨⟩

theorem agrees (value : Value) : Agrees value :=
  agrees_of_smaller fun part _ => agrees part
termination_by sizeOf value

/-- **The reader accepts exactly the grammar.** A value is read as a node if and only if it
describes that node, and a document is read as a program if and only if its value describes one. -/
theorem read_iff_describes (path : String) (value : Value) :
    (∀ node, Node.read path value = .ok node ↔ Describes path value node) ∧
      ∀ body, Program.read value = .ok body ↔ ∃ loc, Describes "" value (.program loc body) := by
  refine ⟨agrees value path, fun body => ?_⟩
  simp only [Program.read, bind_eq_ok_iff, agrees value "" _]
  constructor
  · rintro ⟨root, hroot, h⟩
    cases root with
    | program loc nodes =>
      cases (Except.ok.inj h : nodes = body)
      exact ⟨loc, hroot⟩
    | _ => simp at h
  · rintro ⟨loc, hroot⟩
    exact ⟨_, hroot, rfl⟩

end Wire

end TreeToCpp
