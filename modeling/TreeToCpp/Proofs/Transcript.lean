import Mathlib.Data.List.Forall2
import TreeToCpp.Proofs.Addresses
import TreeToCpp.Render.Expression

/-!
# Which text comes from where

The text of an expression does not tell where its parts come from: a call in it may have been
written for any of several nodes, or be in a string. A transcript does. It is the same text, in
passages, and every passage says for which node it was written and how to get to that node. The
operand of a `decltype` is set apart, because C++ looks at its type only and never runs it.

A transcript is made by the same recursion as the text, so what has to be shown is that it says what
the text says. It does so passage by passage: what stands in the passage of a node is what is
written for that node.

## Main definitions

* `Passage` — a piece of a transcript
* `passage` — the transcript of an expression
* `Passage.text` — what a passage says
* `Transcribes` — passages that say a text, each what is written for its node

## Main results

* `transcribes_passage` — the transcript of an expression says its text
-/

namespace TreeToCpp

/-! ## Passages -/

/-- A piece of a transcript. -/
inductive Passage where
  /-- Text that comes from no child. -/
  | plain (text : String)
  /-- What is written for the node at the end of a way. -/
  | part (steps : List PathStep) (node : Node) (content : List Passage)
  /-- The operand of a `decltype`. -/
  | unevaluated (content : List Passage)

mutual

/-- What a passage says. -/
def Passage.text : Passage → String
  | .plain text => text
  | .part _ _ content => passagesText content
  | .unevaluated content => passagesText content

/-- What passages say, one behind the other. -/
def passagesText : List Passage → String
  | [] => ""
  | passage :: rest => passage.text ++ passagesText rest

end

@[simp] theorem passagesText_append (first rest : List Passage) :
    passagesText (first ++ rest) = passagesText first ++ passagesText rest := by
  induction first with
  | nil => simp [passagesText]
  | cons passage first ih => simp [passagesText, ih, String.append_assoc]

/-! ## The transcript of an expression -/

/-- Passages in parentheses. -/
def inParentheses (content : List Passage) : List Passage :=
  .plain "(" :: content ++ [.plain ")"]

/-- Passages with a comma between them. -/
def separated : List Passage → List Passage
  | [] => []
  | [passage] => [passage]
  | passage :: rest => passage :: .plain ", " :: separated rest

/-- A binary expression made of its written operands. -/
def binaryContent (setting : Setting) (operator : String) (left right : Passage) : List Passage :=
  let content := [left, .plain " ", .plain operator, .plain " ", right]
  match setting with
  | .delimited => content
  | .operand => inParentheses content

/-- A unary expression made of its written argument. -/
def unaryContent (operator : String) (argument : Passage) : List Passage :=
  if operator = addressOperator || runsTogether operator argument.text then
    .plain operator :: inParentheses [argument]
  else [.plain operator, argument]

/-- The object of an access, a slice or a call. -/
def objectContent (object : Node) (written : Passage) : List Passage :=
  match object with
  | .binary .. => inParentheses [written]
  | .unary .. => inParentheses [written]
  | _ => [written]

/-- What is called. -/
def calleeContent (names : Naming) (steps : List PathStep) (callee : Node) (written : Passage) :
    List Passage :=
  match callee with
  | .identifier _ name => [.part steps callee [.plain (names.callee name)]]
  | _ => objectContent callee written

/-- One end of a slice. -/
def boundContent (object : List Passage) (end_ : String) (bound : Option Passage) : List Passage :=
  match bound with
  | some offset => object ++ [.plain ".begin() + ", offset]
  | none => object ++ [.plain end_]

/-- A slice made of its written object and bounds. -/
def sliceContent (object : List Passage) (lower upper : Option Passage) : List Passage :=
  [.plain SupportLibrary.arrayType, .plain "<std::decay_t<decltype(", .unevaluated object,
      .plain ")>::value_type>("] ++
    boundContent object ".begin()" lower ++ [.plain ", "] ++ boundContent object ".end()" upper ++
    [.plain ")"]

mutual

/-- The transcript of an expression that stands at the end of a way. -/
def passage (names : Naming) (setting : Setting) (steps : List PathStep) : Node → Passage
  | node@(.assign _ left right) => .part steps node [
      passage names .delimited (steps ++ [.field "left"]) left, .plain " = ",
      passage names .delimited (steps ++ [.field "right"]) right]
  | node@(.binary _ operator left right) =>
    if operator = remainderOperator then .part steps node <|
      .plain SupportLibrary.remainderFunction :: inParentheses (separated [
        passage names .delimited (steps ++ [.field "left"]) left,
        passage names .delimited (steps ++ [.field "right"]) right])
    else .part steps node <| binaryContent setting operator
      (passage names .operand (steps ++ [.field "left"]) left)
      (passage names .operand (steps ++ [.field "right"]) right)
  | node@(.unary _ operator argument) => .part steps node <|
      unaryContent operator (passage names .delimited (steps ++ [.field "argument"]) argument)
  | node@(.call _ callee arguments) => .part steps node <|
      calleeContent names (steps ++ [.field "callee"]) callee
          (passage names .delimited (steps ++ [.field "callee"]) callee) ++
        inParentheses (separated (passages names (steps ++ [.field "arguments"]) 0 arguments))
  | node@(.member _ object property) => .part steps node <|
      objectContent object (passage names .delimited (steps ++ [.field "object"]) object) ++
        [.plain "."] ++ [.plain (mangle property)]
  | node@(.index _ object position) => .part steps node <|
      objectContent object (passage names .delimited (steps ++ [.field "object"]) object) ++
        [.plain "["] ++ [passage names .delimited (steps ++ [.field "index"]) position] ++
        [.plain "]"]
  | node@(.slice _ object lower upper) => .part steps node <|
      sliceContent
        (objectContent object (passage names .delimited (steps ++ [.field "object"]) object))
        (passage? names (steps ++ [.field "start"]) lower)
        (passage? names (steps ++ [.field "end"]) upper)
  | node@(.literal _ value) => .part steps node [.plain value.cpp]
  | node@(.identifier _ name) => .part steps node [.plain (names.reference name)]
  | node@(.array _ elements) => .part steps node <|
      .plain "\x7b" :: separated (passages names (steps ++ [.field "elements"]) 0 elements) ++
        [.plain "\x7d"]
  | node => .part steps node []

/-- The transcripts of the items of a list, counted from an index. -/
def passages (names : Naming) (steps : List PathStep) (index : Nat) : List Node → List Passage
  | [] => []
  | item :: rest =>
    passage names .delimited (steps ++ [.item index]) item ::
      passages names steps (index + 1) rest

/-- The transcript of an expression that may be absent. -/
def passage? (names : Naming) (steps : List PathStep) : Option Node → Option Passage
  | none => none
  | some node => some (passage names .delimited steps node)

end

/-! ## What a transcript says -/

/-- What is written for a node, as an expression or as the name of what is called. -/
inductive IsWrittenAs (names : Naming) : Node → String → Prop
  | value {setting : Setting} {node : Node} {text : String} :
      expression names setting node = .ok text → IsWrittenAs names node text
  | callee {loc : Location} {name : String} :
      IsWrittenAs names (.identifier loc name) (names.callee name)

mutual

/-- In every passage of a node stands what is written for the node. -/
def Passage.IsFaithful (names : Naming) : Passage → Prop
  | .plain _ => True
  | .part _ node content =>
    IsWrittenAs names node (passagesText content) ∧ AreFaithful names content
  | .unevaluated content => AreFaithful names content

/-- All passages are faithful. -/
def AreFaithful (names : Naming) : List Passage → Prop
  | [] => True
  | passage :: rest => passage.IsFaithful names ∧ AreFaithful names rest

end

theorem areFaithful_append {names : Naming} {first rest : List Passage} :
    AreFaithful names (first ++ rest) ↔ AreFaithful names first ∧ AreFaithful names rest := by
  induction first with
  | nil => simp [AreFaithful]
  | cons passage first ih => simp only [List.cons_append, AreFaithful, ih, and_assoc]

/-- Passages say a text, each of them what is written for its node. -/
structure Transcribes (names : Naming) (text : String) (content : List Passage) : Prop where
  text : passagesText content = text
  faithful : AreFaithful names content

namespace Transcribes

variable {names : Naming} {text text' : String} {content content' : List Passage}

theorem plain (word : String) : Transcribes names word [.plain word] where
  text := by simp [passagesText, Passage.text]
  faithful := ⟨trivial, trivial⟩

theorem append (h : Transcribes names text content) (h' : Transcribes names text' content') :
    Transcribes names (text ++ text') (content ++ content') where
  text := by rw [passagesText_append, h.text, h'.text]
  faithful := areFaithful_append.mpr ⟨h.faithful, h'.faithful⟩

theorem before (h : Transcribes names text content) (word : String) :
    Transcribes names (text ++ word) (content ++ [.plain word]) :=
  h.append (plain word)

theorem after (h : Transcribes names text content) (word : String) :
    Transcribes names (word ++ text) (.plain word :: content) :=
  (plain word).append h

theorem part {steps : List PathStep} {node : Node} (hnode : IsWrittenAs names node text)
    (h : Transcribes names text content) :
    Transcribes names text [.part steps node content] where
  text := by simp [passagesText, Passage.text, h.text]
  faithful := ⟨⟨h.text ▸ hnode, h.faithful⟩, trivial⟩

theorem unevaluated (h : Transcribes names text content) :
    Transcribes names text [.unevaluated content] where
  text := by simp [passagesText, Passage.text, h.text]
  faithful := ⟨h.faithful, trivial⟩

theorem inParentheses (h : Transcribes names text content) :
    Transcribes names (parenthesized text) (TreeToCpp.inParentheses content) :=
  (h.after "(").before ")"

theorem separated {texts : List String} {written : List Passage}
    (h : List.Forall₂ (fun text passage => Transcribes names text [passage]) texts written) :
    Transcribes names (commaSeparated texts) (TreeToCpp.separated written) := by
  rw [commaSeparated]
  induction h with
  | nil => exact ⟨rfl, trivial⟩
  | cons hitem hmore ih =>
    cases hmore with
    | nil => simpa [TreeToCpp.separated] using hitem
    | cons =>
      rw [String.intercalate_cons_cons]
      exact (hitem.before ", ").append ih

variable {written : Passage}

theorem binaryContent {left right : String} {leftPassage rightPassage : Passage}
    (setting : Setting) (operator : String) (hleft : Transcribes names left [leftPassage])
    (hright : Transcribes names right [rightPassage]) :
    Transcribes names (binaryText setting operator left right)
      (TreeToCpp.binaryContent setting operator leftPassage rightPassage) := by
  have h := (((hleft.before " ").before operator).before " ").append hright
  cases setting with
  | delimited => exact h
  | operand => exact h.inParentheses

theorem unaryContent (operator : String) (h : Transcribes names text [written]) :
    Transcribes names (unaryText operator text) (TreeToCpp.unaryContent operator written) := by
  have htext : written.text = text := by simpa [passagesText] using h.text
  rw [unaryText, TreeToCpp.unaryContent, htext]
  split
  · exact h.inParentheses.after operator
  · exact h.after operator

theorem objectContent (object : Node) (h : Transcribes names text [written]) :
    Transcribes names (objectText object text) (TreeToCpp.objectContent object written) := by
  cases object with
  | binary | unary => exact h.inParentheses
  | _ => exact h

theorem boundContent {bound : Option String} {boundPassage : Option Passage} (end_ : String)
    (h : Transcribes names text content)
    (hbound : Option.Rel (fun text passage => Transcribes names text [passage]) bound
      boundPassage) :
    Transcribes names (boundText text end_ bound)
      (TreeToCpp.boundContent content end_ boundPassage) := by
  cases hbound with
  | none => exact h.before end_
  | some hoffset =>
    have hmoved := (h.before ".begin() + ").append hoffset
    rwa [List.append_assoc] at hmoved

theorem sliceContent {lower upper : Option String} {lowerPassage upperPassage : Option Passage}
    (h : Transcribes names text content)
    (hlower : Option.Rel (fun text passage => Transcribes names text [passage]) lower lowerPassage)
    (hupper : Option.Rel (fun text passage => Transcribes names text [passage]) upper
      upperPassage) :
    Transcribes names (sliceText text lower upper)
      (TreeToCpp.sliceContent content lowerPassage upperPassage) := by
  have hhead := (((plain SupportLibrary.arrayType).before "<std::decay_t<decltype(").append
    h.unevaluated).before ")>::value_type>("
  exact (((hhead.append (h.boundContent ".begin()" hlower)).before ", ").append
    (h.boundContent ".end()" hupper)).before ")"

end Transcribes

variable {names : Naming}

theorem transcribes_calleeContent {callee : Node} {written : Passage}
    {outcome : Except RenderError String} {text : String} (steps : List PathStep)
    (hwritten : ∀ text, outcome = .ok text → Transcribes names text [written])
    (h : calleeText names callee outcome = .ok text) :
    Transcribes names text (calleeContent names steps callee written) := by
  have hobject : (requirePlace (!isPlainValue callee) callee .notCallable >>= fun _ =>
      outcome >>= fun text => pure (objectText callee text)) = .ok text →
      Transcribes names text (objectContent callee written) := fun h => by
    obtain ⟨-, -, h⟩ := bind_eq_ok_iff.mp h
    obtain ⟨inner, hinner, h⟩ := bind_eq_ok_iff.mp h
    obtain rfl := pure_eq_ok_iff.mp h
    exact (hwritten inner hinner).objectContent callee
  cases callee with
  | identifier loc name =>
    -- A name that is called is not written as an expression, so its transcript is of no use.
    obtain rfl := Except.ok.inj h
    exact .part .callee (.plain _)
  | _ => exact hobject h

mutual

/-- The transcript of an expression says its text, and so does every passage in it. -/
theorem transcribes_passage {setting : Setting} {node : Node} {text : String}
    (steps : List PathStep) (h : expression names setting node = .ok text) :
    Transcribes names text [passage names setting steps node] := by
  have hnode : IsWrittenAs names node text := .value h
  cases node with
  | assign _ left right =>
    rw [expression] at h
    obtain ⟨target, hleft, h⟩ := bind_eq_ok_iff.mp h
    obtain ⟨value, hright, h⟩ := bind_eq_ok_iff.mp h
    obtain rfl := pure_eq_ok_iff.mp h
    exact .part hnode (((transcribes_passage _ hleft).before " = ").append
      (transcribes_passage _ hright))
  | binary _ operator left right =>
    rw [expression] at h
    rw [passage]
    split at h
    next hoperator =>
      obtain ⟨dividend, hleft, h⟩ := bind_eq_ok_iff.mp h
      obtain ⟨divisor, hright, h⟩ := bind_eq_ok_iff.mp h
      obtain rfl := pure_eq_ok_iff.mp h
      rw [if_pos hoperator]
      exact .part hnode (Transcribes.inParentheses (.separated (.cons (transcribes_passage _ hleft)
        (.cons (transcribes_passage _ hright) .nil))) |>.after _)
    next hoperator =>
      obtain ⟨first, hleft, h⟩ := bind_eq_ok_iff.mp h
      obtain ⟨second, hright, h⟩ := bind_eq_ok_iff.mp h
      obtain rfl := pure_eq_ok_iff.mp h
      rw [if_neg hoperator]
      exact .part hnode (.binaryContent setting operator (transcribes_passage _ hleft)
        (transcribes_passage _ hright))
  | unary _ operator argument =>
    rw [expression] at h
    obtain ⟨inner, hargument, h⟩ := bind_eq_ok_iff.mp h
    obtain rfl := pure_eq_ok_iff.mp h
    exact .part hnode (.unaryContent operator (transcribes_passage _ hargument))
  | call _ callee arguments =>
    rw [expression] at h
    obtain ⟨head, hcallee, h⟩ := bind_eq_ok_iff.mp h
    obtain ⟨texts, harguments, h⟩ := bind_eq_ok_iff.mp h
    obtain rfl := pure_eq_ok_iff.mp h
    have hhead := transcribes_calleeContent (steps ++ [.field "callee"])
      (fun _ hwritten => transcribes_passage (steps ++ [.field "callee"]) hwritten) hcallee
    exact .part hnode (hhead.append (.inParentheses (.separated
      (transcribes_passages _ _ harguments))))
  | member _ object property =>
    rw [expression] at h
    obtain ⟨-, -, h⟩ := bind_eq_ok_iff.mp h
    obtain ⟨inner, hobject, h⟩ := bind_eq_ok_iff.mp h
    obtain rfl := pure_eq_ok_iff.mp h
    exact .part hnode ((((transcribes_passage _ hobject).objectContent object).before ".").before _)
  | index _ object position =>
    rw [expression] at h
    obtain ⟨-, -, h⟩ := bind_eq_ok_iff.mp h
    obtain ⟨inner, hobject, h⟩ := bind_eq_ok_iff.mp h
    obtain ⟨offset, hposition, h⟩ := bind_eq_ok_iff.mp h
    obtain rfl := pure_eq_ok_iff.mp h
    exact .part hnode (((((transcribes_passage _ hobject).objectContent object).before "[").append
      (transcribes_passage _ hposition)).before "]")
  | slice _ object lower upper =>
    rw [expression] at h
    obtain ⟨-, -, h⟩ := bind_eq_ok_iff.mp h
    obtain ⟨inner, hobject, h⟩ := bind_eq_ok_iff.mp h
    obtain ⟨first, hlower, h⟩ := bind_eq_ok_iff.mp h
    obtain ⟨last, hupper, h⟩ := bind_eq_ok_iff.mp h
    obtain rfl := pure_eq_ok_iff.mp h
    exact .part hnode (((transcribes_passage _ hobject).objectContent object).sliceContent
      (transcribes_passage? _ hlower) (transcribes_passage? _ hupper))
  | literal _ value =>
    obtain rfl := pure_eq_ok_iff.mp h
    exact .part hnode (.plain _)
  | identifier _ name =>
    obtain rfl := pure_eq_ok_iff.mp h
    exact .part hnode (.plain _)
  | array _ elements =>
    rw [expression] at h
    obtain ⟨texts, helements, h⟩ := bind_eq_ok_iff.mp h
    obtain rfl := pure_eq_ok_iff.mp h
    exact .part hnode (((Transcribes.separated (transcribes_passages _ _ helements)).after
      "\x7b").before "\x7d")
  | _ => cases h
termination_by structural node

theorem transcribes_passages {nodes : List Node} {texts : List String} (steps : List PathStep)
    (index : Nat) (h : expressions names nodes = .ok texts) :
    List.Forall₂ (fun text passage => Transcribes names text [passage]) texts
      (passages names steps index nodes) := by
  cases nodes with
  | nil =>
    obtain rfl := pure_eq_ok_iff.mp h
    exact .nil
  | cons node rest =>
    rw [expressions] at h
    obtain ⟨text, hnode, h⟩ := bind_eq_ok_iff.mp h
    obtain ⟨more, hrest, h⟩ := bind_eq_ok_iff.mp h
    obtain rfl := pure_eq_ok_iff.mp h
    exact .cons (transcribes_passage _ hnode) (transcribes_passages _ _ hrest)
termination_by structural nodes

theorem transcribes_passage? {node? : Option Node} {text? : Option String} (steps : List PathStep)
    (h : expression? names node? = .ok text?) :
    Option.Rel (fun text passage => Transcribes names text [passage]) text?
      (passage? names steps node?) := by
  cases node? with
  | none =>
    obtain rfl := pure_eq_ok_iff.mp h
    exact .none
  | some node =>
    rw [expression?] at h
    obtain ⟨text, hnode, h⟩ := bind_eq_ok_iff.mp h
    obtain rfl := pure_eq_ok_iff.mp h
    exact .some (transcribes_passage _ hnode)
termination_by structural node?

end

end TreeToCpp
