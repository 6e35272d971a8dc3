import TreeToCpp.Render.Literal

/-!
# Reading quoted text

A string of the program may hold any characters, those that the text around it is made of included.
What keeps the two apart is that the closing quote is the first one that no backslash escapes. So a
quoted text can be read back without knowing what comes behind it.

## Main definitions

* `unquote` — reads up to the closing quote

## Main results

* `unquote_flatMap_escape` — what is read is what was quoted
-/

namespace TreeToCpp

/-- What a character behind a backslash stands for. -/
def escapeMeaning : Char → Char
  | 'n' => '\n'
  | 't' => '\t'
  | 'r' => '\r'
  | c => c

/-- Reads a quoted text behind its opening quote: the characters it stands for, and the characters
behind the closing quote. -/
def unquote : List Char → Option (List Char × List Char)
  | [] => none
  | '"' :: rest => some ([], rest)
  | '\\' :: c :: rest =>
    (unquote rest).map fun (value, behind) => (escapeMeaning c :: value, behind)
  | c :: rest => (unquote rest).map fun (value, behind) => (c :: value, behind)

/-- An escaped character is read as the character. -/
theorem unquote_escape_append (c : Char) (rest : List Char) :
    unquote (escape c ++ rest) =
      (unquote rest).map fun (value, behind) => (c :: value, behind) := by
  simp only [escape]
  split
  case h_1 | h_2 | h_3 | h_4 | h_5 => rfl
  case h_6 hbackslash hquote _ _ _ =>
    rw [List.singleton_append, unquote]
    · exact hquote
    · rintro _ _ rfl
      exact absurd rfl hbackslash

/-- **What is read is what was quoted.** -/
theorem unquote_flatMap_escape (text rest : List Char) :
    unquote (text.flatMap escape ++ '"' :: rest) = some (text, rest) := by
  induction text with
  | nil => rfl
  | cons c text ih => rw [List.flatMap_cons, List.append_assoc, unquote_escape_append, ih]; rfl

theorem toList_quoted (text : String) :
    (quoted text).toList = '"' :: (text.toList.flatMap escape ++ ['"']) := by
  simp [quoted]

end TreeToCpp
