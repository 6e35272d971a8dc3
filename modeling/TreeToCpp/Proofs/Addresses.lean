import Mathlib.Data.List.Nodup
import TreeToCpp.Proofs.Ways
import TreeToCpp.Proofs.WireReading

/-!
# Paths are addresses

Every node of a tree that was read carries a path. The path is put together on the way down, from
the keys and the indices of the steps that led to the node, and it is all that a complaint says
about where in the document the node is. So it has to lead back: to the object that the node was
read from and to no other.

The children of a node are listed once, under the keys that they stand under in the document. What
holds for all kinds of nodes is read off from that list, `Node.fields`. The keys of a node differ,
so no way to a node is the beginning of the way to another one below the same parent; and no key has
a dot or a bracket in it, so the way can be read off from the path.

## Main definitions

* `Node.fields`, `Node.children` — the children of a node
* `Node.places` — all nodes of a tree, with the ways to them
* `Node.relocated` — a tree with other locations
* `Addresses` — a path leads back to what its node was read from

## Main results

* `Node.nodup_places` — different nodes are reached in different ways
* `Wire.Describes.places` — the nodes of a tree describe what is found on the ways to them
* `Wire.moves`, `read_relocated` — another path in front changes nothing but the paths
* `read_addresses` — trees that were read
-/

namespace TreeToCpp

open Json (Value Members)

/-! ## The nodes of a tree -/

/-- What a node has under a key: a child that may be missing, or a list of children. -/
inductive Slot where
  | one (child : Option Node)
  | many (children : List Node)

/-- The children under a key, with the ways to them from there. -/
def Slot.entries : Slot → List (List PathStep × Node)
  | .one none => []
  | .one (some child) => [([], child)]
  | .many children => children.zipIdx.map fun (child, index) => ([.item index], child)

namespace Node

/-- The children of a node, under the keys of the document. -/
def fields : Node → List (String × Slot)
  | .program _ body => [("body", .many body)]
  | .functionDecl _ _ _ _ body => [("body", .one (some body))]
  | .variableDecl _ _ _ _ value => [("initializer", .one value)]
  | .structDecl _ _ _ methods => [("methods", .many methods)]
  | .importDecl .. => []
  | .block _ body => [("body", .many body)]
  | .exprStmt _ expression => [("expression", .one (some expression))]
  | .ifStmt _ test consequent otherwise =>
    [("test", .one (some test)), ("consequent", .one (some consequent)),
      ("alternate", .one otherwise)]
  | .whileStmt _ test body => [("test", .one (some test)), ("body", .one (some body))]
  | .forStmt _ start test update body =>
    [("init", .one start), ("test", .one test), ("update", .one update), ("body", .one (some body))]
  | .breakStmt _ => []
  | .continueStmt _ => []
  | .returnStmt _ argument => [("argument", .one argument)]
  | .assign _ left right => [("left", .one (some left)), ("right", .one (some right))]
  | .binary _ _ left right => [("left", .one (some left)), ("right", .one (some right))]
  | .unary _ _ argument => [("argument", .one (some argument))]
  | .call _ callee arguments => [("callee", .one (some callee)), ("arguments", .many arguments)]
  | .member _ object _ => [("object", .one (some object))]
  | .index _ object position => [("object", .one (some object)), ("index", .one (some position))]
  | .slice _ object lower upper =>
    [("object", .one (some object)), ("start", .one lower), ("end", .one upper)]
  | .literal .. => []
  | .identifier .. => []
  | .array _ elements => [("elements", .many elements)]

/-- The children of a node, with the ways to them. -/
def children (node : Node) : List (List PathStep × Node) :=
  node.fields.flatMap fun (key, slot) =>
    slot.entries.map fun (steps, child) => (.field key :: steps, child)

theorem sizeOf_lt_of_mem_entries {slot : Slot} {entry : List PathStep × Node}
    (h : entry ∈ slot.entries) : sizeOf entry.2 + 1 < sizeOf slot := by
  cases slot with
  | one child? =>
    cases child? with
    | none => cases h
    | some child =>
      obtain rfl := List.mem_singleton.mp h
      simp
      omega
  | many children =>
    obtain ⟨⟨child, index⟩, hmem, rfl⟩ := List.mem_map.mp h
    have hchild : sizeOf child < sizeOf children :=
      List.sizeOf_lt_of_mem (List.fst_mem_of_mem_zipIdx hmem)
    simp
    omega

theorem sizeOf_le_of_mem_fields {node : Node} {field : String × Slot} (h : field ∈ node.fields) :
    sizeOf field.2 ≤ sizeOf node + 1 := by
  cases node <;> simp only [fields, List.mem_cons, List.not_mem_nil, or_false] at h
  all_goals
    rcases h with rfl | rfl | rfl | rfl <;> simp <;> omega

theorem sizeOf_lt_of_mem_children {node : Node} {entry : List PathStep × Node}
    (h : entry ∈ node.children) : sizeOf entry.2 < sizeOf node := by
  obtain ⟨field, hfield, hentry⟩ := List.mem_flatMap.mp h
  obtain ⟨found, hfound, rfl⟩ := List.mem_map.mp hentry
  have hslot := sizeOf_le_of_mem_fields hfield
  have hchild := sizeOf_lt_of_mem_entries hfound
  show sizeOf found.2 < sizeOf node
  omega

/-- All nodes of a tree, with the ways to them. -/
def places (node : Node) : List (List PathStep × Node) :=
  ([], node) :: node.children.attach.flatMap fun ⟨(steps, child), _⟩ =>
    child.places.map fun (rest, place) => (steps ++ rest, place)
termination_by sizeOf node
decreasing_by exact sizeOf_lt_of_mem_children ‹_›

theorem places_eq (node : Node) :
    node.places = ([], node) :: node.children.flatMap fun (steps, child) =>
      child.places.map fun (rest, place) => (steps ++ rest, place) := by
  have hlist := List.attach_map_subtype_val node.children
  rw [places]
  conv_rhs => rw [← hlist, List.flatMap_map]

theorem mem_places_self (node : Node) : ([], node) ∈ node.places := by
  rw [places_eq]
  exact List.mem_cons_self

theorem mem_places_of_child {node child found : Node} {steps rest : List PathStep}
    (h : (steps, child) ∈ node.children) (hfound : (rest, found) ∈ child.places) :
    (steps ++ rest, found) ∈ node.places := by
  rw [places_eq]
  exact List.mem_cons_of_mem _ <| List.mem_flatMap.mpr ⟨_, h, List.mem_map.mpr ⟨_, hfound, rfl⟩⟩

/-! ### Different nodes are reached in different ways -/

/-- Ways that part. No way behind the one is a way behind the other. -/
def Parts (steps steps' : List PathStep) : Prop :=
  ∀ rest rest', steps ++ rest ≠ steps' ++ rest'

theorem entries_part (slot : Slot) :
    slot.entries.Pairwise fun entry entry' => Parts entry.1 entry'.1 := by
  cases slot with
  | one child? => cases child? <;> simp [Slot.entries]
  | many children =>
    have hindices : (children.zipIdx.map Prod.snd).Nodup := by
      rw [List.zipIdx_map_snd]
      exact List.nodup_range'
    rw [Slot.entries, List.pairwise_map]
    exact (List.pairwise_map.mp hindices).imp fun hindex rest rest' h => by simp [hindex] at h

theorem nodup_keys (node : Node) : (node.fields.map Prod.fst).Nodup := by
  cases node <;> simp [fields]

theorem exists_of_mem_children {node : Node} {entry : List PathStep × Node}
    (h : entry ∈ node.children) : ∃ field ∈ node.fields, ∃ found ∈ field.2.entries,
      entry = (.field field.1 :: found.1, found.2) := by
  obtain ⟨field, hfield, hentry⟩ := List.mem_flatMap.mp h
  obtain ⟨found, hfound, rfl⟩ := List.mem_map.mp hentry
  exact ⟨field, hfield, found, hfound, rfl⟩

/-- Two children stand under different keys, or they are different items of one list. -/
theorem children_part (node : Node) :
    node.children.Pairwise fun entry entry' => Parts entry.1 entry'.1 := by
  rw [children, List.pairwise_flatMap]
  constructor
  · intro field _
    rw [List.pairwise_map]
    exact (entries_part field.2).imp fun hparts rest rest' h =>
      hparts rest rest' (List.cons_inj_right _ |>.mp h)
  · refine (List.pairwise_map.mp (nodup_keys node)).imp fun hkey => ?_
    simp only [List.forall_mem_map]
    intro _ _ _ _ rest rest' h
    exact hkey (by simpa using (List.cons.inj h).1)

/-- No two nodes of a tree are reached in the same way. -/
theorem nodup_places (node : Node) : (node.places.map Prod.fst).Nodup := by
  rw [places_eq, List.map_cons, List.map_flatMap, List.nodup_cons, List.nodup_flatMap]
  refine ⟨?_, fun entry hentry => ?_, ?_⟩
  · rintro hroot
    obtain ⟨entry, hentry, hmem⟩ := List.mem_flatMap.mp hroot
    obtain ⟨field, -, found, -, rfl⟩ := exists_of_mem_children hentry
    simp at hmem
  · have hbelow : (entry.2.places.map Prod.fst).Nodup := nodup_places entry.2
    have hways := hbelow.map (List.append_right_injective entry.1)
    rw [List.map_map] at hways ⊢
    exact hways
  · refine (children_part node).imp fun hparts => ?_
    rintro way hway hway'
    simp only [List.map_map, List.mem_map, Function.comp_apply] at hway hway'
    obtain ⟨place, -, rfl⟩ := hway
    obtain ⟨place', -, h⟩ := hway'
    exact hparts _ _ h.symm
termination_by sizeOf node
decreasing_by exact sizeOf_lt_of_mem_children hentry

/-- No key of a document has a dot or a bracket in it. -/
theorem isPlain_keys (node : Node) : ∀ field ∈ node.fields, (PathStep.field field.1).IsPlain := by
  cases node <;> simp [fields, PathStep.IsPlain]

/-- All ways to the nodes of a tree can be read off from a path. -/
theorem isPlain_places (node : Node) : ∀ place ∈ node.places,
    (∀ step ∈ place.1, step.IsPlain) ∧ BeginsWithKey place.1 := by
  intro place hplace
  rw [places_eq, List.mem_cons] at hplace
  rcases hplace with rfl | hplace
  · exact ⟨fun _ h => absurd h List.not_mem_nil, trivial⟩
  · obtain ⟨entry, hentry, hmem⟩ := List.mem_flatMap.mp hplace
    obtain ⟨below, hbelow, rfl⟩ := List.mem_map.mp hmem
    have hrest := (isPlain_places entry.2 below hbelow).1
    obtain ⟨⟨key, slot⟩, hfield, found, hfound, rfl⟩ := exists_of_mem_children hentry
    have hkey := isPlain_keys node _ hfield
    have hfront : ∀ step ∈ found.1, step.IsPlain := by
      cases slot with
      | one child? =>
        cases child? with
        | none => cases hfound
        | some =>
          obtain rfl := List.mem_singleton.mp hfound
          exact fun _ h => absurd h List.not_mem_nil
      | many =>
        obtain ⟨_, -, rfl⟩ := List.mem_map.mp hfound
        simp [PathStep.IsPlain]
    refine ⟨fun step hstep => ?_, trivial⟩
    rcases List.mem_append.mp hstep with hstep | hstep
    · rcases List.mem_cons.mp hstep with rfl | hstep
      · exact hkey
      · exact hfront step hstep
    · exact hrest step hstep
termination_by sizeOf node
decreasing_by exact sizeOf_lt_of_mem_children hentry

end Node

/-! ## What is found on the ways -/

namespace Wire

/-- What stands under a key describes the children there. -/
def Fills (path : String) (members : Members) (key : String) : Slot → Prop
  | .one none => True
  | .one (some child) => Child path members key child
  | .many children => children = [] ∨ Children path members key children

theorem OptionalChild.fills {path : String} {members : Members} {key : String}
    {child : Option Node} (h : OptionalChild path members key child) :
    Fills path members key (.one child) := by
  cases h with
  | absent => trivial
  | given h => exact h

theorem OptionalChildren.fills {path : String} {members : Members} {key : String}
    {children : List Node} (h : OptionalChildren path members key children) :
    Fills path members key (.many children) := by
  cases h with
  | absent => exact .inl rfl
  | given h => exact .inr h

/-- A node describes an object with its head, under whose keys its children stand. -/
theorem Describes.fields {path : String} {value : Value} {node : Node}
    (h : Describes path value node) :
    ∃ members, value = .object members ∧ Head path members node.kind.name node.location ∧
      ∀ field ∈ node.fields, Fills path members field.1 field.2 := by
  cases h with
  | program head body | block head body | array head body =>
    exact ⟨_, rfl, head, List.forall_mem_singleton.mpr (.inr body)⟩
  | functionDecl head _ _ _ body | exprStmt head body | unary head _ body | member head body =>
    exact ⟨_, rfl, head, List.forall_mem_singleton.mpr body⟩
  | variableDecl head _ _ _ value | returnStmt head value =>
    exact ⟨_, rfl, head, List.forall_mem_singleton.mpr value.fills⟩
  | structDecl head _ _ methods =>
    exact ⟨_, rfl, head, List.forall_mem_singleton.mpr methods.fills⟩
  | ifStmt head test consequent otherwise =>
    exact ⟨_, rfl, head, by simpa [Node.fields] using ⟨test, consequent, otherwise.fills⟩⟩
  | whileStmt head left right | assign head left right | binary head _ left right
  | index head left right =>
    exact ⟨_, rfl, head, by simpa [Node.fields] using ⟨left, right⟩⟩
  | forStmt head start test update body =>
    exact ⟨_, rfl, head, by simpa [Node.fields] using ⟨start.fills, test.fills, update.fills, body⟩⟩
  | call head callee arguments =>
    exact ⟨_, rfl, head, by simpa [Node.fields] using ⟨callee, .inr arguments⟩⟩
  | slice head object lower upper =>
    exact ⟨_, rfl, head, by simpa [Node.fields] using ⟨object, lower.fills, upper.fills⟩⟩
  | importDecl head | breakStmt head | continueStmt head | literal head | identifier head =>
    exact ⟨_, rfl, head, List.forall_mem_nil _⟩

theorem Items.getElem? {path : String} {index : Nat} {items : List Value} {nodes : List Node}
    (h : Items path index items nodes) {offset : Nat} {node : Node}
    (hnode : nodes[offset]? = some node) :
    ∃ item, items[offset]? = some item ∧
      Describes (Path.item path (index + offset)) item node := by
  induction items generalizing index nodes offset with
  | nil =>
    cases h
    simp at hnode
  | cons item rest ih =>
    cases h with
    | cons hfirst hrest =>
      cases offset with
      | zero =>
        obtain rfl := Option.some.inj hnode
        exact ⟨item, rfl, hfirst⟩
      | succ offset =>
        obtain ⟨found, hfound, hdescribes⟩ := ih hrest hnode
        rw [Nat.add_right_comm, Nat.add_assoc] at hdescribes
        exact ⟨found, hfound, hdescribes⟩

/-- The children under a key describe what is found there. -/
theorem Fills.entries {path : String} {members : Members} {key : String} {slot : Slot}
    (h : Fills path members key slot) : ∀ entry ∈ slot.entries, ∃ part,
      (Value.object members).follow (.field key :: entry.1) = some part ∧
      Describes (pathAlong path (.field key :: entry.1)) part entry.2 := by
  intro entry hentry
  have hfollow : ∀ {value}, members.present key = some value → ∀ steps,
      (Value.object members).follow (.field key :: steps) = value.follow steps :=
    fun hpresent steps => by
      rw [Json.Value.follow, PathStep.follow, Members.lookup_of_present hpresent, Option.bind_some]
  cases slot with
  | one child? =>
    cases child? with
    | none => cases hentry
    | some child =>
      obtain rfl := List.mem_singleton.mp hentry
      cases h with
      | mk hpresent hchild => exact ⟨_, hfollow hpresent [], hchild⟩
  | many children =>
    obtain ⟨⟨child, index⟩, hmem, rfl⟩ := List.mem_map.mp hentry
    have hchild := List.mem_zipIdx_iff_getElem?.mp hmem
    rcases h with rfl | ⟨hpresent, hitems⟩
    · simp at hchild
    · obtain ⟨item, hitem, hdescribes⟩ := hitems.getElem? hchild
      rw [Nat.zero_add] at hdescribes
      refine ⟨item, ?_, hdescribes⟩
      rw [hfollow hpresent]
      simpa [Json.Value.follow, PathStep.follow] using hitem

theorem Describes.children {path : String} {value : Value} {node : Node}
    (h : Describes path value node) : ∀ entry ∈ node.children, ∃ part,
      value.follow entry.1 = some part ∧ Describes (pathAlong path entry.1) part entry.2 := by
  obtain ⟨members, rfl, -, hfields⟩ := h.fields
  intro entry hentry
  obtain ⟨field, hfield, found, hfound, rfl⟩ := Node.exists_of_mem_children hentry
  exact (hfields field hfield).entries found hfound

/-- Every node of a tree describes the value that is found on the way to the node. -/
theorem Describes.places {path : String} {value : Value} {node : Node}
    (h : Describes path value node) : ∀ place ∈ node.places, ∃ part,
      value.follow place.1 = some part ∧ Describes (pathAlong path place.1) part place.2 := by
  intro place hplace
  rw [Node.places_eq, List.mem_cons] at hplace
  rcases hplace with rfl | hplace
  · exact ⟨value, rfl, h⟩
  · obtain ⟨entry, hentry, hmem⟩ := List.mem_flatMap.mp hplace
    obtain ⟨below, hbelow, rfl⟩ := List.mem_map.mp hmem
    obtain ⟨child, hchild, hdescribes⟩ := h.children entry hentry
    obtain ⟨part, hpart, hplaced⟩ := hdescribes.places below hbelow
    refine ⟨part, ?_, ?_⟩
    · rw [follow_append, hchild]
      exact hpart
    · rw [pathAlong, List.foldl_append]
      exact hplaced
termination_by sizeOf node
decreasing_by exact Node.sizeOf_lt_of_mem_children hentry

end Wire

/-! ## Trees with other paths -/

/-- New locations for the nodes of a tree, by the ways to the nodes and by the old locations. -/
abbrev Relocation := List PathStep → Location → Location

/-- The new locations behind a step. -/
def Relocation.behind (relocate : Relocation) (step : PathStep) : Relocation :=
  fun steps => relocate (step :: steps)

mutual

/-- The tree with new locations. -/
def Node.relocated (relocate : Relocation) : Node → Node
  | .program loc body =>
    .program (relocate [] loc) (relocatedItems (relocate.behind (.field "body")) 0 body)
  | .functionDecl loc name params returnType body =>
    .functionDecl (relocate [] loc) name params returnType
      (body.relocated (relocate.behind (.field "body")))
  | .variableDecl loc name type isConstant value =>
    .variableDecl (relocate [] loc) name type isConstant
      (relocated? (relocate.behind (.field "initializer")) value)
  | .structDecl loc name fields methods =>
    .structDecl (relocate [] loc) name fields
      (relocatedItems (relocate.behind (.field "methods")) 0 methods)
  | .importDecl loc path => .importDecl (relocate [] loc) path
  | .block loc body =>
    .block (relocate [] loc) (relocatedItems (relocate.behind (.field "body")) 0 body)
  | .exprStmt loc expression =>
    .exprStmt (relocate [] loc) (expression.relocated (relocate.behind (.field "expression")))
  | .ifStmt loc test consequent otherwise =>
    .ifStmt (relocate [] loc) (test.relocated (relocate.behind (.field "test")))
      (consequent.relocated (relocate.behind (.field "consequent")))
      (relocated? (relocate.behind (.field "alternate")) otherwise)
  | .whileStmt loc test body =>
    .whileStmt (relocate [] loc) (test.relocated (relocate.behind (.field "test")))
      (body.relocated (relocate.behind (.field "body")))
  | .forStmt loc start test update body =>
    .forStmt (relocate [] loc) (relocated? (relocate.behind (.field "init")) start)
      (relocated? (relocate.behind (.field "test")) test)
      (relocated? (relocate.behind (.field "update")) update)
      (body.relocated (relocate.behind (.field "body")))
  | .breakStmt loc => .breakStmt (relocate [] loc)
  | .continueStmt loc => .continueStmt (relocate [] loc)
  | .returnStmt loc argument =>
    .returnStmt (relocate [] loc) (relocated? (relocate.behind (.field "argument")) argument)
  | .assign loc left right =>
    .assign (relocate [] loc) (left.relocated (relocate.behind (.field "left")))
      (right.relocated (relocate.behind (.field "right")))
  | .binary loc operator left right =>
    .binary (relocate [] loc) operator (left.relocated (relocate.behind (.field "left")))
      (right.relocated (relocate.behind (.field "right")))
  | .unary loc operator argument =>
    .unary (relocate [] loc) operator (argument.relocated (relocate.behind (.field "argument")))
  | .call loc callee arguments =>
    .call (relocate [] loc) (callee.relocated (relocate.behind (.field "callee")))
      (relocatedItems (relocate.behind (.field "arguments")) 0 arguments)
  | .member loc object property =>
    .member (relocate [] loc) (object.relocated (relocate.behind (.field "object"))) property
  | .index loc object position =>
    .index (relocate [] loc) (object.relocated (relocate.behind (.field "object")))
      (position.relocated (relocate.behind (.field "index")))
  | .slice loc object lower upper =>
    .slice (relocate [] loc) (object.relocated (relocate.behind (.field "object")))
      (relocated? (relocate.behind (.field "start")) lower)
      (relocated? (relocate.behind (.field "end")) upper)
  | .literal loc value => .literal (relocate [] loc) value
  | .identifier loc name => .identifier (relocate [] loc) name
  | .array loc elements =>
    .array (relocate [] loc) (relocatedItems (relocate.behind (.field "elements")) 0 elements)

/-- The trees of a list with new locations, counted from an index. -/
def relocatedItems (relocate : Relocation) (index : Nat) : List Node → List Node
  | [] => []
  | node :: rest =>
    node.relocated (relocate.behind (.item index)) :: relocatedItems relocate (index + 1) rest

/-- A tree that may be absent, with new locations. -/
def relocated? (relocate : Relocation) : Option Node → Option Node
  | none => none
  | some node => some (node.relocated relocate)

end

/-- The old locations, with the paths of the ways from a given path. -/
def Relocation.underPath (path : String) : Relocation :=
  fun steps loc => { loc with path := extendedPath path steps }

/-- The new locations differ from the old ones in nothing but the path, which begins elsewhere. -/
def Relocation.MovesTo (relocate : Relocation) (path : String) : Prop :=
  ∀ steps, (∀ step ∈ steps, step.IsPlain) → ∀ loc,
    relocate steps loc = { loc with path := pathAlong path steps }

theorem Relocation.movesTo_underPath (path : String) : (underPath path).MovesTo path :=
  fun steps hplain loc => by rw [underPath, pathAlong_eq_extendedPath path hplain]

theorem Relocation.MovesTo.behind {relocate : Relocation} {path : String}
    (h : relocate.MovesTo path) {step : PathStep} (hplain : step.IsPlain) :
    (relocate.behind step).MovesTo (step.onPath path) :=
  fun steps hsteps loc => h (step :: steps) (List.forall_mem_cons.mpr ⟨hplain, hsteps⟩) loc

namespace Wire

theorem Head.relocated {path path' : String} {members : Members} {tag : String} {loc : Location}
    (h : Head path members tag loc) {relocate : Relocation} (hmoves : relocate.MovesTo path') :
    Head path' members tag (relocate [] loc) := by
  rw [hmoves [] (List.forall_mem_nil _) loc]
  exact ⟨h.tag, rfl, h.position⟩

/-- The children of an object still describe what they did when their locations have changed. -/
structure ChildrenMove (relocate : Relocation) (path path' : String) (members : Members) :
    Prop where
  child : ∀ {key node}, Child path members key node → (PathStep.field key).IsPlain →
    Child path' members key (node.relocated (relocate.behind (.field key)))
  optionalChild : ∀ {key child?}, OptionalChild path members key child? →
    (PathStep.field key).IsPlain →
    OptionalChild path' members key (relocated? (relocate.behind (.field key)) child?)
  children : ∀ {key nodes}, Children path members key nodes → (PathStep.field key).IsPlain →
    Children path' members key (relocatedItems (relocate.behind (.field key)) 0 nodes)
  optionalChildren : ∀ {key nodes}, OptionalChildren path members key nodes →
    (PathStep.field key).IsPlain →
    OptionalChildren path' members key (relocatedItems (relocate.behind (.field key)) 0 nodes)

/-- An object describes the tree with the new locations if its children do. -/
theorem describes_relocated {relocate : Relocation} {path path' : String} {members : Members}
    {node : Node} (moves : ChildrenMove relocate path path' members)
    (hmoves : relocate.MovesTo path') (h : Describes path (.object members) node) :
    Describes path' (.object members) (node.relocated relocate) := by
  cases h with
  | program head body =>
    exact .program (head.relocated hmoves) (moves.children body (by decide))
  | functionDecl head name params returnType body =>
    exact .functionDecl (head.relocated hmoves) name params returnType
      (moves.child body (by decide))
  | variableDecl head name type flag value =>
    exact .variableDecl (head.relocated hmoves) name type flag
      (moves.optionalChild value (by decide))
  | structDecl head name fields methods =>
    exact .structDecl (head.relocated hmoves) name fields
      (moves.optionalChildren methods (by decide))
  | importDecl head path => exact .importDecl (head.relocated hmoves) path
  | block head body => exact .block (head.relocated hmoves) (moves.children body (by decide))
  | exprStmt head expression =>
    exact .exprStmt (head.relocated hmoves) (moves.child expression (by decide))
  | ifStmt head test consequent otherwise =>
    exact .ifStmt (head.relocated hmoves) (moves.child test (by decide))
      (moves.child consequent (by decide)) (moves.optionalChild otherwise (by decide))
  | whileStmt head test body =>
    exact .whileStmt (head.relocated hmoves) (moves.child test (by decide))
      (moves.child body (by decide))
  | forStmt head start test update body =>
    exact .forStmt (head.relocated hmoves) (moves.optionalChild start (by decide))
      (moves.optionalChild test (by decide)) (moves.optionalChild update (by decide))
      (moves.child body (by decide))
  | breakStmt head => exact .breakStmt (head.relocated hmoves)
  | continueStmt head => exact .continueStmt (head.relocated hmoves)
  | returnStmt head argument =>
    exact .returnStmt (head.relocated hmoves) (moves.optionalChild argument (by decide))
  | assign head left right =>
    exact .assign (head.relocated hmoves) (moves.child left (by decide))
      (moves.child right (by decide))
  | binary head operator left right =>
    exact .binary (head.relocated hmoves) operator (moves.child left (by decide))
      (moves.child right (by decide))
  | unary head operator argument =>
    exact .unary (head.relocated hmoves) operator (moves.child argument (by decide))
  | call head callee arguments =>
    exact .call (head.relocated hmoves) (moves.child callee (by decide))
      (moves.children arguments (by decide))
  | member head object property =>
    exact .member (head.relocated hmoves) (moves.child object (by decide)) property
  | index head object position =>
    exact .index (head.relocated hmoves) (moves.child object (by decide))
      (moves.child position (by decide))
  | slice head object lower upper =>
    exact .slice (head.relocated hmoves) (moves.child object (by decide))
      (moves.optionalChild lower (by decide)) (moves.optionalChild upper (by decide))
  | literal head value literal => exact .literal (head.relocated hmoves) value literal
  | identifier head name => exact .identifier (head.relocated hmoves) name
  | array head elements =>
    exact .array (head.relocated hmoves) (moves.children elements (by decide))

/-- A value describes with new locations what it described before, wherever it stands. -/
def Moves (value : Value) : Prop :=
  ∀ {path path' : String} {node : Node} {relocate : Relocation}, Describes path value node →
    relocate.MovesTo path' → Describes path' value (node.relocated relocate)

theorem items_relocated {items : List Value} (moves : ∀ item ∈ items, Moves item)
    {path path' : String} {index : Nat} {nodes : List Node} {relocate : Relocation}
    (hmoves : relocate.MovesTo path') (h : Items path index items nodes) :
    Items path' index items (relocatedItems relocate index nodes) := by
  induction items generalizing index nodes with
  | nil =>
    cases h
    exact .nil
  | cons item rest ih =>
    obtain ⟨hitem, hrest⟩ := List.forall_mem_cons.mp moves
    cases h with
    | cons hnode hnodes => exact .cons (hitem hnode (hmoves.behind trivial)) (ih hrest hnodes)

theorem childrenMove {members : Members}
    (moves : ∀ value : Value, sizeOf value < sizeOf members → Moves value)
    {path path' : String} {relocate : Relocation} (hmoves : relocate.MovesTo path') :
    ChildrenMove relocate path path' members := by
  have hchild : ∀ {key node}, Child path members key node → (PathStep.field key).IsPlain →
      Child path' members key (node.relocated (relocate.behind (.field key))) := by
    rintro key node ⟨hpresent, h⟩ hkey
    exact .mk hpresent (moves _ (Members.sizeOf_lt_of_present hpresent) h (hmoves.behind hkey))
  have hchildren : ∀ {key nodes}, Children path members key nodes →
      (PathStep.field key).IsPlain →
      Children path' members key (relocatedItems (relocate.behind (.field key)) 0 nodes) := by
    rintro key nodes ⟨hpresent, h⟩ hkey
    have hitems := Members.sizeOf_items_lt_of_present hpresent
    exact .mk hpresent (items_relocated (fun item hitem =>
      moves item (Nat.lt_trans (List.sizeOf_lt_of_mem hitem) hitems)) (hmoves.behind hkey) h)
  refine ⟨hchild, ?_, hchildren, ?_⟩
  · rintro key _ (habsent | h) hkey
    · exact .absent habsent
    · exact .given (hchild h hkey)
  · rintro key _ (habsent | h) hkey
    · exact .absent habsent
    · exact .given (hchildren h hkey)

/-- Another path in front changes nothing about a tree but the paths. -/
theorem moves (value : Value) : Moves value := by
  intro path path' node relocate h hmoves
  obtain ⟨members, hvalue, -, -⟩ := h.fields
  have hparts : ∀ part : Value, sizeOf part < sizeOf members → Moves part := fun part hsmaller =>
    have : sizeOf part < sizeOf value := by
      rw [hvalue, Value.object.sizeOf_spec]
      omega
    moves part
  subst hvalue
  exact describes_relocated (childrenMove hparts hmoves) hmoves h
termination_by sizeOf value

end Wire

/-! ## Trees that were read -/

/-- A node has the address of what it was read from: its path is that of the way to it, and the way
leads to an object that is read as the node, whose tag and position are those of the node. -/
structure Addresses (path : String) (value : Value) (steps : List PathStep) (node : Node) :
    Prop where
  path : node.location.path = extendedPath path steps
  object : ∃ members, value.follow steps = some (.object members) ∧
    Node.read node.location.path (.object members) = .ok node ∧
    members.lookup "type" = some (.string node.kind.name) ∧
    Wire.PositionGiven members node.location.position

theorem Wire.Describes.addresses {path : String} {value : Value} {root : Node}
    (h : Describes path value root) {steps : List PathStep} {node : Node}
    (hplace : (steps, node) ∈ root.places) : Addresses path value steps node := by
  obtain ⟨part, hpart, hnode⟩ := h.places _ hplace
  obtain ⟨members, rfl, head, -⟩ := hnode.fields
  have hpath : pathAlong path steps = extendedPath path steps :=
    pathAlong_eq_extendedPath path (root.isPlain_places _ hplace).1
  refine ⟨head.path.trans hpath, members, hpart, ?_, head.tag, head.position⟩
  rw [head.path]
  exact (agrees _ _ _).mpr hnode

/-- No two nodes of a tree that was read have the same path. -/
theorem Wire.Describes.nodup_paths {path : String} {value : Value} {root : Node}
    (h : Describes path value root) :
    (root.places.map fun place => place.2.location.path).Nodup := by
  have hpaths : root.places.map (fun place => place.2.location.path) =
      (root.places.map Prod.fst).map (extendedPath path) := by
    rw [List.map_map]
    exact List.map_congr_left fun place hplace => (h.addresses hplace).path
  rw [hpaths]
  refine root.nodup_places.map_on fun steps hsteps steps' hsteps' hsame => ?_
  obtain ⟨place, hplace, rfl⟩ := List.mem_map.mp hsteps
  obtain ⟨place', hplace', rfl⟩ := List.mem_map.mp hsteps'
  obtain ⟨hplain, hkey⟩ := root.isPlain_places place hplace
  obtain ⟨hplain', hkey'⟩ := root.isPlain_places place' hplace'
  exact extendedPath_inj hplain hplain' hkey hkey' hsame

/-- The same value, found elsewhere, gives the same tree with other paths. -/
theorem read_relocated {path : String} {value : Value} {root : Node}
    (h : Node.read path value = .ok root) (path' : String) :
    Node.read path' value = .ok (root.relocated (.underPath path')) :=
  (Wire.agrees value path' _).mpr <|
    Wire.moves value ((Wire.agrees value path root).mp h) (Relocation.movesTo_underPath path')

/-- **Paths are faithful addresses.** In a tree that was read from a value, no two nodes have the
same path, and the path of every node says how to get from the value to the object that the node was
read from. Whether a value can be read does not depend on the path that it is said to stand at, and
neither does anything of the tree but what the paths begin with. -/
theorem read_addresses (value : Value) :
    (∀ path root, Node.read path value = .ok root →
      (root.places.map fun place => place.2.location.path).Nodup ∧
      ∀ steps node, (steps, node) ∈ root.places → Addresses path value steps node) ∧
    ∀ path path',
      (∃ error error', Node.read path value = .error error ∧
        Node.read path' value = .error error') ∨
      ∃ root, Node.read path value = .ok root ∧
        Node.read path' value = .ok (root.relocated (.underPath path')) := by
  constructor
  · intro path root hread
    have h := (Wire.agrees value path root).mp hread
    exact ⟨h.nodup_paths, fun _ _ => h.addresses⟩
  · intro path path'
    cases hread : Node.read path value with
    | ok root => exact .inr ⟨root, rfl, read_relocated hread path'⟩
    | error error =>
      cases hread' : Node.read path' value with
      | error error' => exact .inl ⟨error, error', rfl, rfl⟩
      | ok root =>
        have hback := read_relocated hread' path
        rw [hread] at hback
        cases hback

end TreeToCpp
