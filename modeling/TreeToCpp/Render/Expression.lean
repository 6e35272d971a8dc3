import TreeToCpp.TypeTerm
import TreeToCpp.Names.Scopes
import TreeToCpp.Render.Error
import TreeToCpp.Render.Literal

/-!
# Expressions in the generated program

An expression is written in one of two settings. Where the text around it already says how far it
reaches, as between brackets or in front of a semicolon, it stands as it is. As an operand of a
binary operator, a binary expression puts itself in parentheses; no other expression does.

A name is written according to what it refers to. Names of the top level carry the namespace of the
program wherever the text is outside that namespace, which is in the body of a function and in the
entry point; at namespace scope they are bare, and so are all other names.

## Main definitions

* `Region` — the part of the text that is being written
* `Visibility` — what decides how a name is written
* `Naming` — how names are written at one place
* `Visibility.naming` — how names are written under a visibility
* `expression` — how an expression is written
-/

namespace TreeToCpp

/-! ## Names -/

/-- The part of the text that is being written. -/
inductive Region where
  /-- Directly inside the namespace of the program. -/
  | namespaceScope
  /-- A function or a method. -/
  | function
  /-- The statements of the entry point. -/
  | entryPoint
  deriving DecidableEq, Repr

/-- Whether names of the top level carry their namespace. -/
def Region.qualifiesGlobals : Region → Bool
  | .namespaceScope => false
  | .function => true
  | .entryPoint => true

/-- What decides how a name is written. -/
structure Visibility where
  registry : Registry
  namespaceName : String
  scopes : Scopes
  region : Region
  deriving DecidableEq, Repr

/-- The name of the receiver in the source program. -/
def receiverName : String := "self"

/-- The receiver in the generated program. -/
def receiverText : String := "(*this)"

/-- How a name is written. -/
def Visibility.reference (v : Visibility) (name : String) : String :=
  if name = receiverName then receiverText
  else
    match v.scopes.resolve v.registry name with
    | .globalName =>
      if v.region.qualifiesGlobals then v.namespaceName ++ "::" ++ mangle name else mangle name
    | _ => mangle name

/-- How names are written at one place of the program. -/
structure Naming where
  /-- The text of a name that stands for a value. -/
  reference : String → String
  /-- The text of a name that is called. -/
  callee : String → String

/-- How names are written, given how they are as values. A helper of the support library that is
called goes by its own name, whatever else the name may refer to. -/
def Naming.ofReference (reference : String → String) : Naming where
  reference := reference
  callee name :=
    match Helper.ofName? name with
    | some helper => helper.qualified
    | none => reference name

/-- How names are written under a visibility. -/
def Visibility.naming (v : Visibility) : Naming :=
  .ofReference v.reference

/-! ## Operators and brackets -/

/-- Whether the text around an expression says how far the expression reaches. -/
inductive Setting where
  /-- It does. -/
  | delimited
  /-- The expression is an operand of a binary operator. -/
  | operand
  deriving DecidableEq, Repr

/-- The operator for the remainder of a floating-point division. C++ has a function for it. -/
def remainderOperator : String := "%="

/-- The operator that takes an address. Its argument is always in parentheses. -/
def addressOperator : String := "&"

/-- Text in parentheses. -/
def parenthesized (text : String) : String :=
  "(" ++ text ++ ")"

/-- Texts with a comma between them. -/
def commaSeparated (texts : List String) : String :=
  ", ".intercalate texts

/-- A binary expression made of its written operands. -/
def binaryText (setting : Setting) (operator left right : String) : String :=
  let text := left ++ " " ++ operator ++ " " ++ right
  match setting with
  | .delimited => text
  | .operand => parenthesized text

/-- Whether an operator and its argument would run together to `++` or `--`. -/
def runsTogether (operator argument : String) : Bool :=
  match operator.toList.getLast?, argument.toList.head? with
  | some last, some first => last == first && (last == '-' || last == '+')
  | _, _ => false

/-- A unary expression made of its written argument. -/
def unaryText (operator argument : String) : String :=
  if operator = addressOperator || runsTogether operator argument then
    operator ++ parenthesized argument
  else operator ++ argument

/-- The object of an access, a slice or a call. These bind tighter than any operator, so an
operator goes in parentheses. -/
def objectText (object : Node) (text : String) : String :=
  match object with
  | .binary .. => parenthesized text
  | .unary .. => parenthesized text
  | _ => text

/-- One end of a slice: an iterator, moved by the bound if there is one. -/
def boundText (object end_ : String) (bound : Option String) : String :=
  match bound with
  | some offset => object ++ ".begin() + " ++ offset
  | none => object ++ end_

/-- A slice made of its written object and bounds: a new array of the items between two
iterators. -/
def sliceText (object : String) (lower upper : Option String) : String :=
  SupportLibrary.arrayType ++ "<std::decay_t<decltype(" ++ object ++ ")>::value_type>(" ++
    boundText object ".begin()" lower ++ ", " ++ boundText object ".end()" upper ++ ")"

/-! ## Accepted objects -/

/-- Literals, arrays written out and assignments have no members, cannot be sliced and cannot be
called. -/
def isPlainValue : Node → Bool
  | .literal .. => true
  | .array .. => true
  | .assign .. => true
  | _ => false

/-- A string literal can be indexed; otherwise the same holds. -/
def isIndexable : Node → Bool
  | .literal _ (.string _) => true
  | object => !isPlainValue object

/-- Refuses a node unless a condition holds. -/
def requirePlace (condition : Bool) (node : Node) (place : Misplacement) :
    Except RenderError Unit :=
  if condition then .ok () else .error (.misplaced node place)

/-- What is called, given how the callee is written as an expression. A callee that is not a name
is bound to the call as a whole. -/
def calleeText (names : Naming) (callee : Node) (written : Except RenderError String) :
    Except RenderError String :=
  match callee with
  | .identifier _ name => .ok (names.callee name)
  | _ => do
    requirePlace (!isPlainValue callee) callee .notCallable
    let text ← written
    return objectText callee text

/-! ## Expressions -/

mutual

/-- How an expression is written in a setting. -/
def expression (names : Naming) (setting : Setting) : Node → Except RenderError String
  | .assign _ left right => do
    let target ← expression names .delimited left
    let value ← expression names .delimited right
    return target ++ " = " ++ value
  | .binary _ operator left right =>
    if operator = remainderOperator then do
      let dividend ← expression names .delimited left
      let divisor ← expression names .delimited right
      return SupportLibrary.remainderFunction ++ parenthesized (commaSeparated [dividend, divisor])
    else do
      let first ← expression names .operand left
      let second ← expression names .operand right
      return binaryText setting operator first second
  | .unary _ operator argument => do
    return unaryText operator (← expression names .delimited argument)
  | .call _ callee arguments => do
    let head ← calleeText names callee (expression names .delimited callee)
    return head ++ parenthesized (commaSeparated (← expressions names arguments))
  | .member _ object property => do
    requirePlace (!isPlainValue object) object .noMembers
    let text ← expression names .delimited object
    return objectText object text ++ "." ++ mangle property
  | .index _ object position => do
    requirePlace (isIndexable object) object .notIndexable
    let text ← expression names .delimited object
    let offset ← expression names .delimited position
    return objectText object text ++ "[" ++ offset ++ "]"
  | .slice _ object lower upper => do
    requirePlace (!isPlainValue object) object .notSliceable
    let text ← expression names .delimited object
    let first ← expression? names lower
    let last ← expression? names upper
    return sliceText (objectText object text) first last
  | .literal _ value => return value.cpp
  | .identifier _ name => return names.reference name
  | .array _ elements => do
    return "\x7b" ++ commaSeparated (← expressions names elements) ++ "\x7d"
  | .program loc .. => .error (.unsupported .program .expression loc)
  | .functionDecl loc .. => .error (.unsupported .functionDecl .expression loc)
  | .variableDecl loc .. => .error (.unsupported .variableDecl .expression loc)
  | .structDecl loc .. => .error (.unsupported .structDecl .expression loc)
  | .importDecl loc .. => .error (.unsupported .importDecl .expression loc)
  | .block loc .. => .error (.unsupported .block .expression loc)
  | .exprStmt loc .. => .error (.unsupported .exprStmt .expression loc)
  | .ifStmt loc .. => .error (.unsupported .ifStmt .expression loc)
  | .whileStmt loc .. => .error (.unsupported .whileStmt .expression loc)
  | .forStmt loc .. => .error (.unsupported .forStmt .expression loc)
  | .breakStmt loc => .error (.unsupported .breakStmt .expression loc)
  | .continueStmt loc => .error (.unsupported .continueStmt .expression loc)
  | .returnStmt loc .. => .error (.unsupported .returnStmt .expression loc)

/-- How the items of a list are written. -/
def expressions (names : Naming) : List Node → Except RenderError (List String)
  | [] => return []
  | item :: rest => do
    let text ← expression names .delimited item
    let texts ← expressions names rest
    return text :: texts

/-- How an expression is written that may be absent. -/
def expression? (names : Naming) : Option Node → Except RenderError (Option String)
  | none => return none
  | some node => do
    return some (← expression names .delimited node)

end

end TreeToCpp
