import TreeToCpp.Proofs.QuotedText
import TreeToCpp.Render.Expression

/-!
# Reading expressions

A reader for the expressions of the generated text. It knows nothing of scopes or of the program: a
qualified name is read as the name behind the qualifier, and `(*this)` is the receiver. So what it
finds is the tree with the names spelled as they are written and without locations, which is what
`Node.canonical` says.

An operand starts with a bracket, a literal or a name, and any number of calls and accesses follow.
A text is read by recursive descent, and since a call or an access follows its object, the object is
handed along while they are read.

## Fuel

The depth of the descent is bounded by fuel, which no theorem mentions: `Leads f g` says that with
enough fuel, reading `f` comes down to reading `g`. The steps of the reader are stated with it, and
they compose.

## Main definitions

* `Node.canonical` — an expression up to what the text does not show
* `Reader.expression`, `Reader.operand`, `Reader.accesses` — the reader
* `Leads` — what a reading comes down to

## Main results

* `Leads.unique` — two readings of one text agree
-/

namespace TreeToCpp

/-! ## What the text shows -/

/-- A location of which nothing is known. -/
def Location.unknown : Location := { path := "", position := none }

mutual

/-- An expression without its locations, and with its names as they are written. -/
def Node.canonical : Node → Node
  | .assign _ left right => .assign .unknown left.canonical right.canonical
  | .binary _ operator left right => .binary .unknown operator left.canonical right.canonical
  | .unary _ operator argument => .unary .unknown operator argument.canonical
  | .call _ callee arguments => .call .unknown callee.canonical (canonicals arguments)
  | .member _ object property => .member .unknown object.canonical (mangle property)
  | .index _ object position => .index .unknown object.canonical position.canonical
  | .slice _ object lower upper =>
    .slice .unknown object.canonical (canonical? lower) (canonical? upper)
  | .literal _ value => .literal .unknown value
  | .identifier _ name => .identifier .unknown (mangle name)
  | .array _ elements => .array .unknown (canonicals elements)
  | node => node

/-- The canonical forms of the items of a list. -/
def canonicals : List Node → List Node
  | [] => []
  | item :: rest => item.canonical :: canonicals rest

/-- The canonical form of an expression that may be absent. -/
def canonical? : Option Node → Option Node
  | none => none
  | some node => some node.canonical

end

/-! ## Pieces of text -/

namespace Reader

/-- The longest name at the beginning of a text, and what is behind it. -/
def word (text : List Char) : String × List Char :=
  (String.ofList (text.takeWhile isIdentifierRest), text.dropWhile isIdentifierRest)

/-- What a name without a qualifier stands for. -/
def wordValue : String → Node
  | "true" => .literal .unknown (.boolean true)
  | "false" => .literal .unknown (.boolean false)
  | "nullptr" => .literal .unknown .null
  | name => .identifier .unknown name

/-- The whole number at the beginning of a text, and what is behind it. -/
def number (text : List Char) : Node × List Char :=
  (.literal .unknown (.number (.natural
      (UInt64.ofNat (Nat.ofDigitChars 10 (text.takeWhile Char.isDigit) 0)))),
    text.dropWhile Char.isDigit)

/-- What an operand starts with, if it is neither in brackets nor behind an operator. -/
inductive Head where
  | value (node : Node)
  /-- The function for the remainder, in front of its arguments. -/
  | remainder

/-- A name, behind its qualifier if it has one. -/
def nameHead (text : List Char) : Head × List Char :=
  match word text with
  | (qualifier, ':' :: ':' :: rest) =>
    let (name, rest) := word rest
    if qualifier = "std" then (.remainder, rest) else (.value (.identifier .unknown name), rest)
  | (name, rest) => (.value (wordValue name), rest)

/-- What an operand starts with, if it is neither in brackets nor behind an operator. -/
def head? : List Char → Option (Head × List Char)
  | [] => none
  | c :: text =>
    if c = '"' then
      (unquote text).map fun (value, rest) =>
        (.value (.literal .unknown (.string (String.ofList value))), rest)
    else if c.isDigit then
      let (value, rest) := number (c :: text)
      some (.value value, rest)
    else if isIdentifierStart c then some (nameHead (c :: text))
    else none

/-- The operators in front of an operand. -/
def unaryOperators : List Char := ['!', '-', '+', '~', '*', '&']

/-- The operators between operands. -/
def binaryOperators : List String := [
  "+", "-", "*", "/", "%", "==", "!=", "<", "<=", ">", ">=", "&&", "||", "&", "|", "^", "<<", ">>"]

/-- An operator between blanks. -/
def binaryOperator? : List Char → Option (String × List Char)
  | ' ' :: text =>
    let operator := String.ofList (text.takeWhile (· != ' '))
    if binaryOperators.contains operator then
      some (operator, (text.dropWhile (· != ' ')).drop 1)
    else none
  | _ => none

/-- What is behind a bracket. -/
def closed? (bracket : Char) : List Char → Option (List Char)
  | [] => none
  | c :: rest => if c = bracket then some rest else none

/-- What is behind a comma and a blank. -/
def separated? : List Char → Option (List Char)
  | ',' :: ' ' :: rest => some rest
  | _ => none

/-- What parentheses stand for. Since no name is written `this`, `*this` is the receiver. -/
def group : Node → Node
  | .unary _ "*" (.identifier _ "this") => .identifier .unknown receiverName
  | node => node

/-! ## Expressions -/

mutual

/-- An expression where the text around it says how far it reaches. -/
def expression : Nat → List Char → Option (Node × List Char)
  | 0, _ => none
  | fuel + 1, text => do
    let (left, rest) ← operand fuel text
    match binaryOperator? rest with
    | none => return (left, rest)
    | some (operator, rest) => do
      let (right, rest) ← operand fuel rest
      return (.binary .unknown operator left right, rest)

/-- An operand of a binary operator. -/
def operand : Nat → List Char → Option (Node × List Char)
  | 0, _ => none
  | fuel + 1, text =>
    match text with
    | [] => none
    | '(' :: text => do
      let (inner, rest) ← expression fuel text
      let rest ← closed? ')' rest
      accesses fuel (group inner) rest
    | '\x7b' :: text => do
      let (elements, rest) ← list fuel '\x7d' text
      accesses fuel (.array .unknown elements) rest
    | c :: text =>
      if unaryOperators.contains c then do
        let (argument, rest) ← operand fuel text
        return (.unary .unknown (String.singleton c) argument, rest)
      else do
        let (head, rest) ← head? (c :: text)
        behindHead fuel head rest

/-- What follows the beginning of an operand. -/
def behindHead : Nat → Head → List Char → Option (Node × List Char)
  | 0, _, _ => none
  | fuel + 1, .value node, text => accesses fuel node text
  | fuel + 1, .remainder, text => do
    let rest ← closed? '(' text
    let (operands, rest) ← list fuel ')' rest
    match operands with
    | [dividend, divisor] =>
      accesses fuel (.binary .unknown remainderOperator dividend divisor) rest
    | _ => none

/-- The calls and accesses that follow an object. -/
def accesses : Nat → Node → List Char → Option (Node × List Char)
  | 0, _, _ => none
  | fuel + 1, object, text =>
    match text with
    | '.' :: text =>
      let (property, rest) := word text
      accesses fuel (.member .unknown object property) rest
    | '(' :: text => do
      let (arguments, rest) ← list fuel ')' text
      accesses fuel (.call .unknown object arguments) rest
    | '[' :: text => do
      let (position, rest) ← expression fuel text
      let rest ← closed? ']' rest
      accesses fuel (.index .unknown object position) rest
    | text => some (object, text)

/-- The expressions of a list up to its bracket. -/
def list : Nat → Char → List Char → Option (List Node × List Char)
  | 0, _, _ => none
  | fuel + 1, bracket, text =>
    match closed? bracket text with
    | some rest => some ([], rest)
    | none => items fuel bracket text

/-- The expressions of a list that has any. -/
def items : Nat → Char → List Char → Option (List Node × List Char)
  | 0, _, _ => none
  | fuel + 1, bracket, text => do
    let (item, rest) ← expression fuel text
    match closed? bracket rest with
    | some rest => return ([item], rest)
    | none => do
      let rest ← separated? rest
      let (more, rest) ← items fuel bracket rest
      return (item :: more, rest)

end

/-- A whole text: an expression, or an assignment. -/
def whole (fuel : Nat) (text : List Char) : Option Node := do
  let (left, rest) ← expression fuel text
  match rest with
  | ' ' :: '=' :: ' ' :: rest => do
    let (right, _) ← expression fuel rest
    return .assign .unknown left right
  | _ => return left

end Reader

/-! ## Enough fuel -/

/-- With enough fuel, `f` comes down to `g`. -/
def Leads {α : Type} (f g : Nat → α) : Prop :=
  ∃ cost least, ∀ fuel ≥ least, f (fuel + cost) = g fuel

namespace Leads

variable {α β : Type} {f g h : Nat → α}

theorem of_eq (heq : ∀ fuel, f fuel = g fuel) : Leads f g :=
  ⟨0, 0, fun fuel _ => heq fuel⟩

theorem of_succ (heq : ∀ fuel, f (fuel + 1) = g fuel) : Leads f g :=
  ⟨1, 0, fun fuel _ => heq fuel⟩

theorem trans (hfg : Leads f g) (hgh : Leads g h) : Leads f h := by
  obtain ⟨cost, least, hfg⟩ := hfg
  obtain ⟨cost', least', hgh⟩ := hgh
  refine ⟨cost' + cost, max least least', fun fuel hfuel => ?_⟩
  have hfirst : f (fuel + cost' + cost) = g (fuel + cost') := hfg _ (by omega)
  rw [← Nat.add_assoc, hfirst]
  exact hgh fuel (by omega)

/-- Reading a part leaves the fuel to what comes behind it. -/
theorem bind {part : Nat → Option α} {next : α → Nat → Option β} {a : α}
    (h : Leads part fun _ => some a) :
    Leads (fun fuel => part fuel >>= fun a => next a fuel) (next a) := by
  obtain ⟨cost, least, h⟩ := h
  refine ⟨0, least + cost, fun fuel hfuel => ?_⟩
  have hpart : part (fuel - cost + cost) = some a := h _ (by omega)
  rw [Nat.sub_add_cancel (by omega)] at hpart
  simp [hpart]

/-- Two readings of one text agree. -/
theorem unique {a b : α} (ha : Leads f fun _ => a) (hb : Leads f fun _ => b) : a = b := by
  obtain ⟨cost, least, ha⟩ := ha
  obtain ⟨cost', least', hb⟩ := hb
  have hfirst : f (max least least' + cost' + cost) = a := ha _ (by omega)
  have hsecond : f (max least least' + cost + cost') = b := hb _ (by omega)
  rw [← hfirst, ← hsecond, Nat.add_right_comm]

end Leads

end TreeToCpp
