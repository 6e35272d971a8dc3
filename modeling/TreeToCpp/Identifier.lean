/-!
# Names that C++ accepts

A name of the source program may be a word that C++ keeps for itself. Such a name is written with
one underscore behind it, every other name is written as it stands. Declarations and references
go through the same function, so they always meet.

The escape is a single step and not injective: `class` and `class_` are both written `class_`.

## Main definitions

* `reservedWords` — the words that C++ keeps for itself
* `mangle` — the spelling of a name in the generated program
* `isIdentifier` — the lexical shape of a C++ identifier
-/

namespace TreeToCpp

/-- Keywords, alternative operator tokens and the words reserved by the transactional memory and
reflection extensions of C++20. -/
def reservedWords : List String := [
  "alignas", "alignof", "and", "and_eq", "asm", "atomic_cancel", "atomic_commit",
  "atomic_noexcept", "auto", "bitand", "bitor", "bool", "break", "case", "catch", "char",
  "char8_t", "char16_t", "char32_t", "class", "compl", "concept", "const", "consteval",
  "constexpr", "constinit", "const_cast", "continue", "co_await", "co_return", "co_yield",
  "decltype", "default", "delete", "do", "double", "dynamic_cast", "else", "enum", "explicit",
  "export", "extern", "false", "float", "for", "friend", "goto", "if", "inline", "int", "long",
  "mutable", "namespace", "new", "noexcept", "not", "not_eq", "nullptr", "operator", "or",
  "or_eq", "private", "protected", "public", "reflexpr", "register", "reinterpret_cast",
  "requires", "return", "short", "signed", "sizeof", "static", "static_assert", "static_cast",
  "struct", "switch", "synchronized", "template", "this", "thread_local", "throw", "true", "try",
  "typedef", "typeid", "typename", "union", "unsigned", "using", "virtual", "void", "volatile",
  "wchar_t", "while", "xor", "xor_eq"]

/-- Whether C++ keeps the word for itself. The comparison is case sensitive. -/
def isReserved (name : String) : Bool :=
  reservedWords.contains name

theorem isReserved_eq_true_iff {name : String} : isReserved name = true ↔ name ∈ reservedWords :=
  List.contains_iff_mem

theorem isReserved_eq_false_iff {name : String} :
    isReserved name = false ↔ name ∉ reservedWords := by
  rw [← Bool.not_eq_true, isReserved_eq_true_iff]

/-- What is written behind a name that C++ keeps for itself. -/
def escapeSuffix : String := "_"

/-- The spelling of a source name in the generated program. -/
def mangle (name : String) : String :=
  if isReserved name then name ++ escapeSuffix else name

theorem mangle_of_isReserved {name : String} (h : isReserved name = true) :
    mangle name = name ++ escapeSuffix := by
  simp [mangle, h]

theorem mangle_of_not_isReserved {name : String} (h : isReserved name = false) :
    mangle name = name := by
  simp [mangle, h]

/-- What holds of a name and of its escape holds of its spelling. -/
theorem mangle_cases {motive : String → Prop} {name : String} (same : motive name)
    (escape : motive (name ++ escapeSuffix)) : motive (mangle name) := by
  unfold mangle
  split
  · exact escape
  · exact same

/-- An ASCII letter or an underscore may open an identifier. -/
def isIdentifierStart (c : Char) : Bool :=
  c.isAlpha || c == '_'

/-- ASCII letters, digits and underscores may follow. -/
def isIdentifierRest (c : Char) : Bool :=
  c.isAlphanum || c == '_'

/-- The lexical shape of an identifier. A reserved word has it too. -/
def isIdentifier (name : String) : Bool :=
  match name.toList with
  | [] => false
  | c :: rest => isIdentifierStart c && rest.all isIdentifierRest

end TreeToCpp
