import Mathlib.Algebra.Ring.Nat
import Mathlib.Data.List.Perm.Basic
import TreeToCpp.Proofs.Grouping
import TreeToCpp.Proofs.Transcript

/-!
# How often an expression evaluates its parts

The parts of an expression are written once each, with one exception. A slice takes an iterator from
the beginning of its object and one from the end, and the object is written out for both. It is
written a third time for its type, but that is the operand of a `decltype` and never runs.

So what stands in the object of a slice is evaluated twice, a slice in the object of another one
doubles that again, and nothing else multiplies. A call inside has its effects that often; a slice
of the result of a call takes its iterators from two results.

The count is made on the transcript of the expression. One level of the tree is settled kind by
kind: a node is written, and then its children, each as often as `Node.copies` says. The rest is
the same for all kinds.

## Main definitions

* `Passage.evaluated` — the nodes that a passage is written for, outside `decltype`
* `slicesAround` — the slices whose object a node is in

## Main results

* `evaluated_passage` — one level of the tree
* `slicesAround_append` — the slices around a node, from the root down
* `evaluated_perm` — how often each node is written
* `expression_evaluates` — the text of an expression, and what is evaluated in it
-/

namespace TreeToCpp

/-! ## What is evaluated -/

mutual

/-- The nodes that a passage is written for, with the ways to them, outside of every `decltype`. -/
def Passage.evaluated : Passage → List (List PathStep × Node)
  | .plain _ => []
  | .part steps node content => (steps, node) :: evaluatedParts content
  | .unevaluated _ => []

/-- The nodes that some passages are written for. -/
def evaluatedParts : List Passage → List (List PathStep × Node)
  | [] => []
  | passage :: rest => passage.evaluated ++ evaluatedParts rest

end

/-- The number of slices in whose object the end of a way is. -/
def slicesAround (root : Node) (way : List PathStep) : Nat :=
  root.places.countP fun place =>
    place.2.kind = .slice ∧ place.1 ++ [.field "object"] <+: way

/-- How often a child is written outside `decltype`, each time that its parent is. -/
def Node.copies (node : Node) (steps : List PathStep) : Nat :=
  if node.kind = .slice ∧ [.field "object"] <+: steps then 2 else 1

@[simp] theorem evaluatedParts_append (first rest : List Passage) :
    evaluatedParts (first ++ rest) = evaluatedParts first ++ evaluatedParts rest := by
  induction first with
  | nil => rfl
  | cons passage first ih => simp [evaluatedParts, ih]

@[simp] theorem evaluatedParts_inParentheses (content : List Passage) :
    evaluatedParts (inParentheses content) = evaluatedParts content := by
  simp [inParentheses, evaluatedParts, Passage.evaluated]

@[simp] theorem evaluatedParts_separated (written : List Passage) :
    evaluatedParts (separated written) = evaluatedParts written := by
  induction written with
  | nil => rfl
  | cons passage rest ih =>
    cases rest with
    | nil => rfl
    | cons next rest => simpa [separated, evaluatedParts, Passage.evaluated] using ih

@[simp] theorem evaluatedParts_binaryContent (setting : Setting) (operator : String)
    (left right : Passage) :
    evaluatedParts (binaryContent setting operator left right) =
      left.evaluated ++ right.evaluated := by
  cases setting <;> simp [binaryContent, evaluatedParts, Passage.evaluated]

@[simp] theorem evaluatedParts_unaryContent (operator : String) (argument : Passage) :
    evaluatedParts (unaryContent operator argument) = argument.evaluated := by
  rw [unaryContent]
  split <;> simp [evaluatedParts, Passage.evaluated]

@[simp] theorem evaluatedParts_objectContent (object : Node) (written : Passage) :
    evaluatedParts (objectContent object written) = written.evaluated := by
  cases object <;> simp [objectContent, evaluatedParts]

/-- The two iterators of a slice are where its object is evaluated. -/
theorem evaluatedParts_sliceContent (object : List Passage) (lower upper : Option Passage) :
    evaluatedParts (sliceContent object lower upper) =
      (evaluatedParts object ++ evaluatedParts lower.toList) ++
        (evaluatedParts object ++ evaluatedParts upper.toList) := by
  cases lower <;> cases upper <;>
    simp [sliceContent, boundContent, evaluatedParts, Passage.evaluated]

variable (names : Naming)

/-- A callee that is a name is written in another way, but once like any other. -/
@[simp] theorem evaluatedParts_calleeContent (steps : List PathStep) (callee : Node) :
    evaluatedParts (calleeContent names steps callee (passage names .delimited steps callee)) =
      (passage names .delimited steps callee).evaluated := by
  unfold calleeContent
  split
  · rfl
  · exact evaluatedParts_objectContent _ _

/-- Parentheses are not evaluated. -/
theorem evaluated_passage_setting (setting : Setting) (steps : List PathStep) (node : Node) :
    (passage names setting steps node).evaluated =
      (passage names .delimited steps node).evaluated := by
  cases node with
  | binary _ operator left right =>
    rw [passage, passage]
    split
    · rfl
    · simp [Passage.evaluated]
  | _ => rfl

theorem evaluatedParts_passages (steps : List PathStep) (index : Nat) (nodes : List Node) :
    evaluatedParts (passages names steps index nodes) =
      (nodes.zipIdx index).flatMap fun (node, index) =>
        (passage names .delimited (steps ++ [.item index]) node).evaluated := by
  induction nodes generalizing index with
  | nil => rfl
  | cons node rest ih =>
    rw [passages, evaluatedParts, ih, List.zipIdx_cons, List.flatMap_cons]

/-! ## One level of the tree -/

/-- An expression is written once, and each child of it as often as it is copied. -/
theorem evaluated_passage (setting : Setting) (steps : List PathStep) {node : Node}
    (h : IsValue node) :
    (passage names setting steps node).evaluated.Perm <|
      (steps, node) :: node.children.flatMap fun (rest, child) =>
        (List.replicate (node.copies rest)
          (passage names .delimited (steps ++ rest) child).evaluated).flatten := by
  rw [evaluated_passage_setting]
  cases h with
  | assign | member | index | literal | identifier =>
    simp [passage, Passage.evaluated, evaluatedParts, Node.children, Node.fields, Slot.entries,
      Node.copies, Node.kind]
  | binary =>
    rw [passage]
    split <;> simp [Passage.evaluated, evaluatedParts, evaluated_passage_setting names .operand,
      Node.children, Node.fields, Slot.entries, Node.copies, Node.kind]
  | unary =>
    simp [passage, Passage.evaluated, Node.children, Node.fields, Slot.entries, Node.copies,
      Node.kind]
  | call =>
    simp [passage, Passage.evaluated, evaluatedParts_passages, Node.children, Node.fields,
      Slot.entries, Node.copies, Node.kind, List.flatMap_map]
  | array =>
    simp [passage, Passage.evaluated, evaluatedParts, evaluatedParts_passages, Node.children,
      Node.fields, Slot.entries, Node.copies, Node.kind, List.flatMap_map]
  | @slice loc object lower upper =>
    -- The lower bound is written between the two copies of the object, but listed behind both.
    let inner := (passage names .delimited (steps ++ [.field "object"]) object).evaluated
    let first := evaluatedParts (passage? names (steps ++ [.field "start"]) lower).toList
    let last := evaluatedParts (passage? names (steps ++ [.field "end"]) upper).toList
    have hwritten : (passage names .delimited steps (.slice loc object lower upper)).evaluated =
        (steps, .slice loc object lower upper) :: (inner ++ (first ++ (inner ++ last))) := by
      simp [passage, Passage.evaluated, evaluatedParts_sliceContent, inner, first, last]
    have hchildren : (Node.slice loc object lower upper).children.flatMap (fun (rest, child) =>
        (List.replicate ((Node.slice loc object lower upper).copies rest)
          (passage names .delimited (steps ++ rest) child).evaluated).flatten) =
        inner ++ (inner ++ (first ++ last)) := by
      cases lower <;> cases upper <;>
        simp [Node.children, Node.fields, Slot.entries, Node.copies, Node.kind, passage?,
          evaluatedParts, inner, first, last]
    rw [hwritten, hchildren]
    exact ((List.perm_append_comm_assoc first inner last).append_left inner).cons _

/-! ## The slices around a node -/

theorem Node.Parts.symm {steps steps' : List PathStep} (h : Node.Parts steps steps') :
    Node.Parts steps' steps :=
  fun rest rest' heq => h rest' rest heq.symm

/-- What is looked for below one child is not below another. -/
theorem countP_children {α : Type} {node : Node} {entry : List PathStep × Node}
    (hentry : entry ∈ node.children) {found : List PathStep × Node → List α} {wanted : α → Bool}
    (h : ∀ other, Node.Parts entry.1 other.1 → ∀ item ∈ found other, wanted item = false) :
    (node.children.flatMap found).countP wanted = (found entry).countP wanted := by
  have hparts := node.children_part
  obtain ⟨before, behind, heq⟩ := List.append_of_mem hentry
  rw [heq] at hparts ⊢
  obtain ⟨-, hbehind, hbefore⟩ := List.pairwise_append.mp hparts
  have hnone : ∀ others : List (List PathStep × Node),
      (∀ other ∈ others, Node.Parts entry.1 other.1) →
      (others.flatMap found).countP wanted = 0 := fun others hothers => by
    rw [List.countP_eq_zero]
    intro item hitem
    obtain ⟨other, hother, hmem⟩ := List.mem_flatMap.mp hitem
    simp [h other (hothers other hother) item hmem]
  rw [List.flatMap_append, List.flatMap_cons, List.countP_append, List.countP_append,
    hnone before fun other hother => (hbefore other hother entry List.mem_cons_self).symm,
    hnone behind fun other hother => (List.pairwise_cons.mp hbehind).1 other hother]
  omega

theorem slicesAround_nil (root : Node) : slicesAround root [] = 0 := by
  simp [slicesAround]

/-- The slices around a node below a child: those in the child, and the parent if the child is its
object. -/
theorem slicesAround_append {node : Node} {entry : List PathStep × Node}
    (h : entry ∈ node.children) (rest : List PathStep) :
    slicesAround node (entry.1 ++ rest) =
      (if node.kind = .slice ∧ [.field "object"] <+: entry.1 then 1 else 0) +
        slicesAround entry.2 rest := by
  have hbelow : (node.children.flatMap fun (steps, child) => child.places.map
      fun (rest, place) => (steps ++ rest, place)).countP (fun place =>
        place.2.kind = .slice ∧ place.1 ++ [.field "object"] <+: entry.1 ++ rest) =
      slicesAround entry.2 rest := by
    rw [countP_children h]
    · simp only [List.countP_map, slicesAround]
      refine List.countP_congr fun place _ => ?_
      simp [List.append_assoc, List.prefix_append_right_inj]
    · -- A slice below another child has nothing of this one in its object.
      intro other hparts place hplace
      obtain ⟨⟨steps, found⟩, -, rfl⟩ := List.mem_map.mp hplace
      have hapart : ¬ other.1 ++ (steps ++ [.field "object"]) <+: entry.1 ++ rest := by
        rintro ⟨more, heq⟩
        rw [List.append_assoc] at heq
        exact hparts _ _ heq.symm
      simp [hapart]
  have hfirst : [PathStep.field "object"] <+: entry.1 ++ rest ↔ [.field "object"] <+: entry.1 := by
    obtain ⟨field, -, found, -, rfl⟩ := Node.exists_of_mem_children h
    simp
  rw [slicesAround, Node.places_eq, List.countP_cons, hbelow, Nat.add_comm]
  simp [hfirst]

/-! ## All nodes -/

theorem IsValue.map_children {node : Node} (h : IsValue node) :
    node.children.map Prod.snd = node.operands := by
  cases h with
  | @slice _ _ lower upper =>
    cases lower <;> cases upper <;> simp [Node.children, Node.fields, Slot.entries, Node.operands]
  | _ => simp [Node.children, Node.fields, Slot.entries, Node.operands, Function.comp_def]

theorem IsValue.children {node : Node} (h : IsValue node) :
    ∀ entry ∈ node.children, IsValue entry.2 := fun entry hentry =>
  h.operands entry.2 (h.map_children ▸ List.mem_map_of_mem hentry)

/-- Lists that are repeated, item by item. -/
theorem flatten_replicate_perm {α β : Type} {list : List β} {items : List α} {f : α → List β}
    (count : Nat) (h : list.Perm (items.flatMap f)) :
    (List.replicate count list).flatten.Perm
      (items.flatMap fun item => (List.replicate count (f item)).flatten) := by
  induction count with
  | zero => simp
  | succ count ih =>
    simp only [List.replicate_succ, List.flatten_cons]
    exact (h.append ih).trans (List.flatMap_append_perm items _ _)

/-- Every node of an expression is written outside `decltype` twice for each slice around it. -/
theorem evaluated_perm (setting : Setting) (steps : List PathStep) {node : Node}
    (h : IsValue node) :
    (passage names setting steps node).evaluated.Perm <|
      node.places.flatMap fun place =>
        List.replicate (2 ^ slicesAround node place.1) (steps ++ place.1, place.2) := by
  have hchild : ∀ entry ∈ node.children,
      (List.replicate (node.copies entry.1)
        (passage names .delimited (steps ++ entry.1) entry.2).evaluated).flatten.Perm <|
      entry.2.places.flatMap fun place => List.replicate
        (2 ^ slicesAround node (entry.1 ++ place.1)) (steps ++ (entry.1 ++ place.1), place.2) := by
    intro entry hentry
    -- Copying a child copies whatever is copied inside it, so the numbers multiply.
    have hbelow := evaluated_perm .delimited (steps ++ entry.1) (h.children entry hentry)
    have hcopies : ∀ way, 2 ^ slicesAround node (entry.1 ++ way) =
        node.copies entry.1 * 2 ^ slicesAround entry.2 way := fun way => by
      rw [slicesAround_append hentry, Nat.pow_add, Node.copies]
      split <;> rfl
    simp only [hcopies]
    simpa [List.append_assoc] using flatten_replicate_perm (node.copies entry.1) hbelow
  have hplaces : (node.places.flatMap fun place =>
      List.replicate (2 ^ slicesAround node place.1) (steps ++ place.1, place.2)) =
      (steps, node) :: node.children.flatMap fun entry => entry.2.places.flatMap fun place =>
        List.replicate (2 ^ slicesAround node (entry.1 ++ place.1))
          (steps ++ (entry.1 ++ place.1), place.2) := by
    simp [Node.places_eq node, slicesAround_nil, List.flatMap_assoc, List.flatMap_map]
  rw [hplaces]
  exact (evaluated_passage names setting steps h).trans
    ((List.Perm.flatMap_left _ hchild).cons _)
termination_by sizeOf node
decreasing_by exact Node.sizeOf_lt_of_mem_children hentry

/-! ## The text of an expression -/

/-- Whether a node is a call of a function by its name. -/
def Node.calls (name : String) : Node → Bool
  | .call _ (.identifier _ callee) _ => callee == name
  | _ => false

/-- How often the text of an expression evaluates the nodes of the expression. -/
structure Evaluates (setting : Setting) (node : Node) (text : String) : Prop where
  /-- There is a transcript of the text, in which every passage says what is written for its node. -/
  transcript : (passage names setting [] node).text = text ∧
    (passage names setting [] node).IsFaithful names
  /-- Nothing but the nodes of the expression is evaluated. -/
  only : ∀ place ∈ (passage names setting [] node).evaluated, place ∈ node.places
  /-- Each of them is written twice for each slice in whose object it is. -/
  each : ∀ place ∈ node.places,
    ((passage names setting [] node).evaluated.countP fun written => written.1 = place.1) =
      2 ^ slicesAround node place.1
  /-- So the calls of a function are not as many as the nodes that call it, if some are in slices. -/
  calls : ∀ name,
    ((passage names setting [] node).evaluated.countP fun written => written.2.calls name) =
      ((node.places.filter fun place => place.2.calls name).map fun place =>
        2 ^ slicesAround node place.1).sum

theorem countP_flatMap_replicate {α : Type} (items : List α) (times : α → Nat)
    (wanted : α → Bool) :
    (items.flatMap fun item => List.replicate (times item) item).countP wanted =
      ((items.filter wanted).map times).sum := by
  induction items with
  | nil => rfl
  | cons item rest ih =>
    rw [List.flatMap_cons, List.countP_append, List.countP_replicate, ih, List.filter_cons]
    split <;> simp

/-- A way leads to one node only. -/
theorem filter_places {node : Node} {place : List PathStep × Node} (h : place ∈ node.places) :
    (node.places.filter fun other => other.1 = place.1) = [place] := by
  have hnodup := node.nodup_places
  obtain ⟨before, behind, heq⟩ := List.append_of_mem h
  rw [heq, List.map_append, List.map_cons] at hnodup
  have hothers : place.1 ∉ before.map Prod.fst ++ behind.map Prod.fst :=
    (List.nodup_middle.mp hnodup).notMem
  rw [heq, List.filter_append, List.filter_cons]
  have hnone : ∀ others : List (List PathStep × Node), place.1 ∉ others.map Prod.fst →
      (others.filter fun other => other.1 = place.1) = [] := fun others hothers => by
    rw [List.filter_eq_nil_iff]
    intro other hother heq
    exact hothers (List.mem_map.mpr ⟨other, hother, by simpa using heq⟩)
  simp only [List.mem_append, not_or] at hothers
  simp [hnone _ hothers.1, hnone _ hothers.2]

/-- **What an expression evaluates.** Outside of `decltype`, the text of an expression has each node
of the expression twice for each slice in whose object the node is, and nothing else. In particular
every call and every assignment is written once if it is in the object of no slice. -/
theorem expression_evaluates {setting : Setting} {node : Node} {text : String}
    (h : expression names setting node = .ok text) : Evaluates names setting node text := by
  have hvalue : IsValue node :=
    ((judged_expression names setting node).isOk_iff fun _ _ => StrayInValue.not_isValue).mp
      ⟨text, h⟩
  have hperm := evaluated_perm names setting [] hvalue
  have htranscript := transcribes_passage [] h
  have hcount : ∀ wanted, (passage names setting [] node).evaluated.countP wanted =
      ((node.places.filter wanted).map fun place => 2 ^ slicesAround node place.1).sum :=
    fun wanted => (hperm.countP_eq wanted).trans (countP_flatMap_replicate _ _ wanted)
  refine ⟨⟨by simpa [passagesText] using htranscript.text, htranscript.faithful.1⟩, ?_, ?_, ?_⟩
  · intro place hplace
    obtain ⟨found, hfound, hmem⟩ := List.mem_flatMap.mp (hperm.mem_iff.mp hplace)
    obtain rfl := List.eq_of_mem_replicate hmem
    exact hfound
  · intro place hplace
    rw [hcount, filter_places hplace]
    simp
  · exact fun name => hcount _

/-- The call is the object of a slice, and its text is written for both iterators. -/
theorem sliced_call_evaluated_twice :
    let loc : Location := { path := "", position := none }
    let call : Node := .call loc (.identifier loc "f") []
    let slice : Node := .slice loc call none none
    let names : Naming := .ofReference mangle
    expression names .delimited slice =
        .ok "fax_std::Array<std::decay_t<decltype(f())>::value_type>(f().begin(), f().end())" ∧
      (slice.places.countP fun place => place.2.calls "f") = 1 ∧
      ((passage names .delimited [] slice).evaluated.countP fun written => written.2.calls "f") = 2 := by
  intro loc call slice names
  have hname : (Node.identifier loc "f").places = [([], .identifier loc "f")] := by
    rw [Node.places_eq]
    rfl
  have hcall : call.places = [([], call), ([.field "callee"], .identifier loc "f")] := by
    rw [Node.places_eq]
    simp [Node.children, Node.fields, Slot.entries, hname, call]
  refine ⟨rfl, ?_, rfl⟩
  rw [Node.places_eq]
  simp [Node.children, Node.fields, Slot.entries, hcall, Node.calls, slice, call]

/-- Behind an assignment, a call in the object of a slice in the object of a slice. -/
theorem expression_evaluates_nested :
    let loc : Location := { path := "", position := none }
    let call : Node := .call loc (.identifier loc "f") []
    let items : Node := .member loc call "items"
    let inner : Node := .slice loc items none none
    let outer : Node := .slice loc inner (some call) none
    let node : Node := .assign loc (.identifier loc "x") outer
    let names : Naming := .ofReference mangle
    let way : List PathStep := [.field "right", .field "object", .field "object", .field "object"]
    ∃ text, expression names .operand node = .ok text ∧ (way, call) ∈ node.places ∧
      ((passage names .operand [] node).evaluated.countP fun written => written.1 = way) = 4 := by
  intro loc call items inner outer node names way
  have hcall : ([.field "object"], call) ∈ items.children := List.mem_cons_self
  have hitems : ([.field "object"], items) ∈ inner.children := List.mem_cons_self
  have hinner : ([.field "object"], inner) ∈ outer.children := List.mem_cons_self
  have houter : ([.field "right"], outer) ∈ node.children :=
    List.mem_cons_of_mem _ List.mem_cons_self
  have hplace : (way, call) ∈ node.places :=
    Node.mem_places_of_child houter <| Node.mem_places_of_child hinner <|
      Node.mem_places_of_child hitems <| Node.mem_places_of_child hcall (Node.mem_places_self call)
  let object : PathStep := .field "object"
  have hright : slicesAround node way = 0 + slicesAround outer [object, object, object] :=
    slicesAround_append houter _
  have hfirst : slicesAround outer [object, object, object] =
      1 + slicesAround inner [object, object] := slicesAround_append hinner _
  have hsecond : slicesAround inner [object, object] = 1 + slicesAround items [object] :=
    slicesAround_append hitems _
  have hlast : slicesAround items [object] = 0 + slicesAround call [] :=
    slicesAround_append hcall _
  have haround : slicesAround node way = 2 := by
    rw [hright, hfirst, hsecond, hlast, slicesAround_nil]
  have h : ∃ text, expression names .operand node = .ok text := ⟨_, rfl⟩
  obtain ⟨text, h⟩ := h
  have hcount := (expression_evaluates names h).each _ hplace
  rw [haround] at hcount
  exact ⟨text, h, hplace, hcount⟩

end TreeToCpp
