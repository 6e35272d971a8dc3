import TreeToCpp.Proofs.Evaluation

/-!
# The names in the text of an expression

A naming has one text for a name that stands for a value and one for a name that is called. Which of
them stands where in the text of an expression is said here on the transcript of the text. It is
taken apart into parts, each with the way to its node and the text that stands for the node; the
parts in a `decltype` are among them. A name is written as it is called if the last step of its way
leads to what a call calls, and as a value everywhere else.

The parts of a transcript belong to the nodes of the expression and every node has one. So this
settles every name of an expression, and every place of the text where one is written.

As with the count of what is evaluated, one level of the tree is settled kind by kind: `Arises` says
that a part of an expression is the whole, a name that is called, or a part of a child. The rest is
the same for all kinds.

## Main definitions

* `Passage.parts` — the parts of a passage
* `Naming.inPlace` — how a name is written at the end of a way
* `WritesNames` — a text in which every name of an expression is written like that

## Main results

* `arises_of_mem_parts` — one level of the tree
* `writesNames` — the text of an expression is such a text
-/

namespace TreeToCpp

/-! ## Parts -/

/-- The text that stands for a node, with the way to the node. -/
structure WrittenPart where
  way : List PathStep
  node : Node
  text : String

mutual

/-- The parts of a passage, inside and outside of every `decltype`. -/
def Passage.parts : Passage → List WrittenPart
  | .plain _ => []
  | .part steps node content =>
    { way := steps, node := node, text := passagesText content } :: partsOf content
  | .unevaluated content => partsOf content

/-- The parts of some passages. -/
def partsOf : List Passage → List WrittenPart
  | [] => []
  | passage :: rest => passage.parts ++ partsOf rest

end

@[simp] theorem partsOf_append (first rest : List Passage) :
    partsOf (first ++ rest) = partsOf first ++ partsOf rest := by
  induction first with
  | nil => rfl
  | cons passage first ih => simp [partsOf, ih]

@[simp] theorem partsOf_inParentheses (content : List Passage) :
    partsOf (inParentheses content) = partsOf content := by
  simp [inParentheses, partsOf, Passage.parts]

@[simp] theorem partsOf_separated (written : List Passage) :
    partsOf (separated written) = partsOf written := by
  induction written with
  | nil => rfl
  | cons passage rest ih =>
    cases rest with
    | nil => rfl
    | cons next rest => simpa [separated, partsOf, Passage.parts] using ih

@[simp] theorem partsOf_binaryContent (setting : Setting) (operator : String)
    (left right : Passage) :
    partsOf (binaryContent setting operator left right) = left.parts ++ right.parts := by
  cases setting <;> simp [binaryContent, partsOf, Passage.parts]

@[simp] theorem partsOf_unaryContent (operator : String) (argument : Passage) :
    partsOf (unaryContent operator argument) = argument.parts := by
  rw [unaryContent]
  split <;> simp [partsOf, Passage.parts]

@[simp] theorem partsOf_objectContent (object : Node) (written : Passage) :
    partsOf (objectContent object written) = written.parts := by
  cases object <;> simp [objectContent, partsOf]

/-- The object of a slice stands in its type and in both of its iterators. -/
@[simp] theorem partsOf_sliceContent (object : List Passage) (lower upper : Option Passage) :
    partsOf (sliceContent object lower upper) =
      partsOf object ++ ((partsOf object ++ partsOf lower.toList) ++
        (partsOf object ++ partsOf upper.toList)) := by
  cases lower <;> cases upper <;>
    simp [sliceContent, boundContent, partsOf, Passage.parts]

/-! ## Parts and nodes -/

mutual

theorem Passage.evaluated_sublist (passage : Passage) :
    passage.evaluated.Sublist (passage.parts.map fun part => (part.way, part.node)) := by
  cases passage with
  | plain => exact .slnil
  | part steps node content =>
    exact (evaluatedParts_sublist content).cons_cons (steps, node)
  | unevaluated => exact List.nil_sublist _

theorem evaluatedParts_sublist (content : List Passage) :
    (evaluatedParts content).Sublist ((partsOf content).map fun part => (part.way, part.node)) := by
  cases content with
  | nil => exact .slnil
  | cons passage rest =>
    rw [evaluatedParts, partsOf, List.map_append]
    exact passage.evaluated_sublist.append (evaluatedParts_sublist rest)

end

variable (names : Naming)

theorem partsOf_passages (steps : List PathStep) (index : Nat) (nodes : List Node) :
    partsOf (passages names steps index nodes) =
      (nodes.zipIdx index).flatMap fun (node, index) =>
        (passage names .delimited (steps ++ [.item index]) node).parts := by
  induction nodes generalizing index with
  | nil => rfl
  | cons node rest ih =>
    rw [passages, partsOf, ih, List.zipIdx_cons, List.flatMap_cons]

/-! ## One level of the tree -/

/-- How a part of an expression comes about. -/
inductive Arises (names : Naming) (steps : List PathStep) (node : Node) : WrittenPart → Prop
  /-- It is the whole expression. -/
  | whole {setting : Setting} :
    Arises names steps node ⟨steps, node, (passage names setting steps node).text⟩
  /-- It is a name that is called. -/
  | callee {loc : Location} {name : String}
    (hmem : ([.field "callee"], .identifier loc name) ∈ node.children) :
    Arises names steps node
      ⟨steps ++ [.field "callee"], .identifier loc name, names.callee name⟩
  /-- It is a part of a child. -/
  | below {entry : List PathStep × Node} {setting : Setting} {part : WrittenPart}
    (hmem : entry ∈ node.children)
    (hcallee : entry.1 = [.field "callee"] → ∀ loc name, entry.2 ≠ .identifier loc name)
    (hpart : part ∈ (passage names setting (steps ++ entry.1) entry.2).parts) :
    Arises names steps node part

variable {names} {setting : Setting} {steps : List PathStep} {node : Node} {part : WrittenPart}

theorem Arises.under {key : String} {child : Node}
    (hpart : part ∈ (passage names setting (steps ++ [.field key]) child).parts)
    (hkey : key ≠ "callee") (hmem : ([.field key], child) ∈ node.children) :
    Arises names steps node part :=
  .below hmem (fun heq => absurd (by simpa using heq) hkey) hpart

theorem Arises.called {callee : Node}
    (hpart : part ∈ partsOf (calleeContent names (steps ++ [.field "callee"]) callee
      (passage names .delimited (steps ++ [.field "callee"]) callee)))
    (hmem : ([.field "callee"], callee) ∈ node.children) : Arises names steps node part := by
  unfold calleeContent at hpart
  split at hpart
  · obtain rfl : part = _ := by simpa [partsOf, Passage.parts] using hpart
    simpa [passagesText, Passage.text] using Arises.callee hmem
  · next hname =>
    rw [partsOf_objectContent] at hpart
    exact .below hmem (fun _ => hname) hpart

theorem Arises.item {key : String} {nodes : List Node}
    (hpart : part ∈ partsOf (passages names (steps ++ [.field key]) 0 nodes))
    (hmem : ∀ entry ∈ nodes.zipIdx, ([.field key, .item entry.2], entry.1) ∈ node.children) :
    Arises names steps node part := by
  rw [partsOf_passages, List.mem_flatMap] at hpart
  obtain ⟨⟨child, index⟩, hchild, hpart⟩ := hpart
  simp only [List.append_assoc, List.cons_append, List.nil_append] at hpart
  exact .below (hmem _ hchild) (fun heq => by simp at heq) hpart

theorem Arises.bound {key : String} {bound : Option Node}
    (hpart : part ∈ partsOf (passage? names (steps ++ [.field key]) bound).toList)
    (hkey : key ≠ "callee") (hmem : ∀ child ∈ bound, ([.field key], child) ∈ node.children) :
    Arises names steps node part := by
  cases bound with
  | none => cases hpart
  | some child => exact .under (by simpa [passage?, partsOf] using hpart) hkey (hmem child rfl)

/-- The first part of an expression is the whole expression. -/
theorem parts_eq_cons : (passage names setting steps node).parts =
    ⟨steps, node, (passage names setting steps node).text⟩ ::
      (passage names setting steps node).parts.tail := by
  cases node with
  | binary =>
    rw [passage]
    split <;> rfl
  | _ => rfl

/-- A part of an expression is the whole, a name that is called, or a part of a child. -/
theorem arises_of_mem_parts (hvalue : IsValue node)
    (h : part ∈ (passage names setting steps node).parts) : Arises names steps node part := by
  rw [parts_eq_cons, List.mem_cons] at h
  obtain rfl | h := h
  · exact .whole
  cases hvalue with
  | assign =>
    obtain h | h := by simpa [passage, Passage.parts, partsOf] using h
    · exact .under h (by decide) (.head _)
    · exact .under h (by decide) (.tail _ (.head _))
  | @binary _ operator =>
    by_cases hoperator : operator = remainderOperator
    · obtain h | h := by simpa [passage, hoperator, Passage.parts, partsOf] using h
      · exact .under h (by decide) (.head _)
      · exact .under h (by decide) (.tail _ (.head _))
    · obtain h | h := by simpa [passage, hoperator, Passage.parts] using h
      · exact .under h (by decide) (.head _)
      · exact .under h (by decide) (.tail _ (.head _))
  | unary => exact .under (by simpa [passage, Passage.parts] using h) (by decide) (.head _)
  | @call _ callee =>
    obtain h | h := by simpa [passage, Passage.parts] using h
    · exact .called h (.head _)
    · refine .item h fun entry hentry => ?_
      simpa [Node.children, Node.fields, Slot.entries] using hentry
  | member =>
    exact .under (by simpa [passage, Passage.parts, partsOf] using h) (by decide) (.head _)
  | index =>
    obtain h | h := by simpa [passage, Passage.parts, partsOf] using h
    · exact .under h (by decide) (.head _)
    · exact .under h (by decide) (.tail _ (.head _))
  | slice =>
    obtain h | h | h | h := by simpa [passage, Passage.parts] using h
    · exact .under h (by decide) (.head _)
    · refine .bound h (by decide) fun child hchild => ?_
      cases hchild
      simp [Node.children, Node.fields, Slot.entries]
    · exact .under h (by decide) (.head _)
    · refine .bound h (by decide) fun child hchild => ?_
      cases hchild
      simp [Node.children, Node.fields, Slot.entries]
  | literal => simp [passage, Passage.parts, partsOf] at h
  | identifier => simp [passage, Passage.parts, partsOf] at h
  | array =>
    refine .item (by simpa [passage, Passage.parts, partsOf] using h) fun entry hentry => ?_
    simpa [Node.children, Node.fields, Slot.entries] using hentry

/-! ## All parts -/

/-- A child has a key of its own, and below it at most the number of an item. -/
theorem Node.way_of_last {entry : List PathStep × Node} {key : String}
    (hmem : entry ∈ node.children) (hlast : (steps ++ entry.1).getLast? = some (.field key)) :
    entry.1 = [.field key] := by
  obtain ⟨⟨found, slot⟩, -, ⟨rest, child⟩, hentry, rfl⟩ := Node.exists_of_mem_children hmem
  cases slot with
  | one child? =>
    cases child? with
    | none => cases hentry
    | some child =>
      obtain ⟨rfl, -⟩ : rest = [] ∧ _ := by simpa [Slot.entries] using hentry
      simpa using hlast
  | many children =>
    obtain ⟨index, -, rfl⟩ : ∃ index, (child, index) ∈ children.zipIdx ∧
        [PathStep.item index] = rest := by simpa [Slot.entries] using hentry
    simp at hlast

/-- How a name is written at the end of a way. -/
def Naming.inPlace (names : Naming) (way : List PathStep) (name : String) : String :=
  if way.getLast? = some (.field "callee") then names.callee name else names.reference name

/-- If the part is a name, its text is the name as it is written in its place. -/
def WrittenPart.IsNamed (names : Naming) (part : WrittenPart) : Prop :=
  ∀ loc name, part.node = .identifier loc name → part.text = names.inPlace part.way name

/-- The expression itself is written as a value, so its own way must not be that of a name that is
called. -/
theorem isNamed_of_mem_parts {setting : Setting} {steps : List PathStep} {node : Node}
    (hvalue : IsValue node)
    (hplace : ∀ loc name, node = .identifier loc name → steps.getLast? ≠ some (.field "callee"))
    (h : part ∈ (passage names setting steps node).parts) : part.IsNamed names := by
  cases arises_of_mem_parts hvalue h with
  | whole =>
    rintro loc name rfl
    simp [Naming.inPlace, hplace loc name rfl, passage, Passage.text, passagesText]
  | callee hmem =>
    rintro loc name ⟨⟩
    simp [Naming.inPlace]
  | @below entry _ _ hmem hcallee hpart =>
    exact isNamed_of_mem_parts (hvalue.children entry hmem)
      (fun loc name hname hlast => hcallee (Node.way_of_last hmem hlast) loc name hname) hpart
termination_by sizeOf node
decreasing_by exact Node.sizeOf_lt_of_mem_children hmem

theorem place_of_mem_parts {setting : Setting} {steps : List PathStep} {node : Node}
    (hvalue : IsValue node)
    (h : part ∈ (passage names setting steps node).parts) :
    ∃ rest, part.way = steps ++ rest ∧ (rest, part.node) ∈ node.places := by
  cases arises_of_mem_parts hvalue h with
  | whole => exact ⟨[], by simp, node.mem_places_self⟩
  | callee hmem =>
    have hplace := Node.mem_places_of_child hmem (Node.mem_places_self _)
    exact ⟨_, rfl, by simpa using hplace⟩
  | @below entry _ _ hmem _ hpart =>
    obtain ⟨rest, hway, hplace⟩ := place_of_mem_parts (hvalue.children entry hmem) hpart
    exact ⟨entry.1 ++ rest, by rw [hway, List.append_assoc], Node.mem_places_of_child hmem hplace⟩
termination_by sizeOf node
decreasing_by exact Node.sizeOf_lt_of_mem_children hmem

/-- A text in which the names of an expression are written, each as it is written in its place. -/
structure WritesNames (names : Naming) (setting : Setting) (node : Node) (text : String) :
    Prop where
  /-- There is a transcript of the text. -/
  transcript : (passage names setting [] node).text = text
  /-- Its parts belong to the nodes of the expression, and every node has one. -/
  parts_iff : ∀ way found, (∃ part ∈ (passage names setting [] node).parts,
    part.way = way ∧ part.node = found) ↔ (way, found) ∈ node.places
  /-- The part of a name is the name, as it is written where it stands. -/
  named : ∀ part ∈ (passage names setting [] node).parts, part.IsNamed names

/-- The text of an expression has the names of the expression in their places. -/
theorem writesNames {text : String} (h : expression names setting node = .ok text) :
    WritesNames names setting node text := by
  have hvalue : IsValue node :=
    ((judged_expression names setting node).isOk_iff fun _ _ => StrayInValue.not_isValue).mp
      ⟨text, h⟩
  refine ⟨by simpa [passagesText] using (transcribes_passage [] h).text, fun way found => ?_,
    fun part hpart => isNamed_of_mem_parts hvalue (by simp) hpart⟩
  constructor
  · rintro ⟨part, hpart, rfl, rfl⟩
    obtain ⟨rest, hway, hplace⟩ := place_of_mem_parts hvalue hpart
    rwa [hway]
  · intro hplace
    have hperm := evaluated_perm names setting [] hvalue
    have hevaluated : (way, found) ∈ (passage names setting [] node).evaluated :=
      hperm.mem_iff.mpr (List.mem_flatMap.mpr ⟨_, hplace, by simp⟩)
    simpa using (Passage.evaluated_sublist _).subset hevaluated

end TreeToCpp
