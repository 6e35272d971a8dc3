import TreeToCpp.Tree.Node

/-!
# Literals in the generated program

A string is written between double quotes. A backslash goes before a backslash and before a double
quote, and line feed, tab and carriage return are written by their letters; every other character
stands for itself. Numbers and truth values are written as in the document, and the absent value is
the null pointer.

## Main definitions

* `escape` — how a character of a string is written
* `quoted` — how a string is written
* `Literal.cpp` — how a literal is written
-/

namespace TreeToCpp

/-- How a character of a string is written. -/
def escape : Char → List Char
  | '\\' => ['\\', '\\']
  | '"' => ['\\', '"']
  | '\n' => ['\\', 'n']
  | '\t' => ['\\', 't']
  | '\r' => ['\\', 'r']
  | c => [c]

/-- How a string is written. -/
def quoted (text : String) : String :=
  "\"" ++ String.ofList (text.toList.flatMap escape) ++ "\""

/-- How a literal is written. -/
def Literal.cpp : Literal → String
  | .string value => quoted value
  | .boolean true => "true"
  | .boolean false => "false"
  | .number value => value.text
  | .null => "nullptr"

end TreeToCpp
