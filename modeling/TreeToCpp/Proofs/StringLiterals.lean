import TreeToCpp.Proofs.QuotedText

/-!
# String literals of C++

A string of the program may hold any characters, and all of them have to come out of the generated
program again. C++ reads an ordinary string literal from its opening quote up to the first double
quote that no backslash escapes. A character in between stands for itself, or it belongs to an
escape; a line break may not stand there.

This file has that rule twice, as a grammar of what stands between the quotes and as a reader that is
stricter than `unquote`: it refuses line breaks and escapes with any other letter. The grammar says
what a reader can find, so it is enough to show that a quoted string follows the grammar.

## Main definitions

* `StandsFor` — what stands between the quotes of a literal
* `readLiteral?` — the literal that a text begins with

## Main results

* `readLiteral?_eq_some_iff` — the reader and the grammar agree
* `standsFor_flatMap_escape` — quoted strings follow the grammar
* `string_literals_survive` — every string comes out of its literal again
-/

namespace TreeToCpp

/-! ## The grammar -/

/-- What an escape stands for, by the letter behind the backslash. C++ has more escapes, and generated
programs do without them. -/
def escapeValue? : Char → Option Char
  | '\\' => some '\\'
  | '"' => some '"'
  | 'n' => some '\n'
  | 't' => some '\t'
  | 'r' => some '\r'
  | _ => none

/-- Characters between the quotes of a literal, and the characters that they stand for. -/
inductive StandsFor : List Char → List Char → Prop
  | nothing : StandsFor [] []
  | escape {letter c spelling value} : escapeValue? letter = some c → StandsFor spelling value →
      StandsFor ('\\' :: letter :: spelling) (c :: value)
  | plain {c spelling value} : c ≠ '"' → c ≠ '\\' → c ≠ '\n' → c ≠ '\r' →
      StandsFor spelling value → StandsFor (c :: spelling) (c :: value)

/-- Every character of a string is spelled by its escape. -/
theorem StandsFor.escape_append {spelling value : List Char} (h : StandsFor spelling value)
    (c : Char) : StandsFor (TreeToCpp.escape c ++ spelling) (c :: value) := by
  simp only [TreeToCpp.escape]
  split
  case h_1 | h_2 | h_3 | h_4 | h_5 => exact .escape rfl h
  case h_6 hbackslash hquote hfeed _ hreturn => exact .plain hquote hbackslash hfeed hreturn h

/-- Quoted strings follow the grammar. -/
theorem standsFor_flatMap_escape (text : List Char) : StandsFor (text.flatMap escape) text := by
  induction text with
  | nil => exact .nothing
  | cons c rest ih =>
    rw [List.flatMap_cons]
    exact ih.escape_append c

/-- No letter of an escape is a line break. -/
theorem escapeValue?_isLineBreak {letter c : Char} (h : escapeValue? letter = some c) :
    letter ≠ '\n' ∧ letter ≠ '\r' := by
  constructor <;> rintro rfl <;> cases h

/-- There are no line breaks between the quotes. -/
theorem StandsFor.noLineBreak {spelling value : List Char} (h : StandsFor spelling value) :
    '\n' ∉ spelling ∧ '\r' ∉ spelling := by
  induction h with
  | nothing => simp
  | escape hletter _ ih =>
    obtain ⟨hfeed, hreturn⟩ := escapeValue?_isLineBreak hletter
    simp [hfeed.symm, hreturn.symm, ih]
  | plain _ _ hfeed hreturn _ ih => simp [hfeed.symm, hreturn.symm, ih]

/-! ## The reader -/

/-- Reads up to the closing quote: the characters that were spelled, and the text behind. -/
def readCharacters? : List Char → Option (List Char × List Char)
  | [] => none
  | '"' :: rest => some ([], rest)
  | '\\' :: letter :: rest => do
    let c ← escapeValue? letter
    let (value, behind) ← readCharacters? rest
    return (c :: value, behind)
  | c :: rest =>
    if c = '\n' ∨ c = '\r' then none
    else do
      let (value, behind) ← readCharacters? rest
      return (c :: value, behind)

/-- Reads the literal that a text begins with: the string it stands for, and the text behind. -/
def readLiteral? : List Char → Option (String × List Char)
  | '"' :: rest => (readCharacters? rest).map fun (value, behind) => (String.ofList value, behind)
  | _ => none

theorem StandsFor.readCharacters? {spelling value : List Char} (h : StandsFor spelling value)
    (behind : List Char) :
    TreeToCpp.readCharacters? (spelling ++ '"' :: behind) = some (value, behind) := by
  induction h with
  | nothing => rfl
  | escape hletter _ ih =>
    rw [List.cons_append, List.cons_append, TreeToCpp.readCharacters?, hletter, ih]
    rfl
  | plain hquote hbackslash hfeed hreturn _ ih =>
    rw [List.cons_append, TreeToCpp.readCharacters?, if_neg (not_or.mpr ⟨hfeed, hreturn⟩), ih]
    · rfl
    · exact hquote
    · rintro _ _ rfl
      exact absurd rfl hbackslash

theorem exists_standsFor {text value behind : List Char}
    (h : readCharacters? text = some (value, behind)) :
    ∃ spelling, text = spelling ++ '"' :: behind ∧ StandsFor spelling value := by
  fun_induction readCharacters? text generalizing value with
  | case1 => cases h
  | case2 rest =>
    cases h
    exact ⟨[], rfl, .nothing⟩
  | case3 letter rest ih =>
    simp only [Option.bind_eq_bind, Option.bind_eq_some_iff, Option.pure_def, Option.some.injEq,
      Prod.exists] at h
    obtain ⟨c, hletter, inner, last, hrest, heq⟩ := h
    cases heq
    obtain ⟨spelling, rfl, hspelling⟩ := ih hrest
    exact ⟨'\\' :: letter :: spelling, rfl, .escape hletter hspelling⟩
  | case4 => cases h
  | case5 c rest hquote hescape hbreak ih =>
    simp only [Option.bind_eq_bind, Option.bind_eq_some_iff, Option.pure_def, Option.some.injEq,
      Prod.exists] at h
    obtain ⟨inner, last, hrest, heq⟩ := h
    cases heq
    obtain ⟨spelling, rfl, hspelling⟩ := ih hrest
    obtain ⟨hfeed, hreturn⟩ := not_or.mp hbreak
    -- A backslash would have taken the next character with it, and there is one.
    have hbackslash : c ≠ '\\' := fun hc => by
      obtain ⟨next, rest', hnext⟩ := List.exists_cons_of_ne_nil
        (List.append_ne_nil_of_right_ne_nil spelling (List.cons_ne_nil _ _))
      exact hescape next rest' hc hnext
    exact ⟨c :: spelling, rfl, .plain hquote hbackslash hfeed hreturn hspelling⟩

/-- The reader and the grammar agree. -/
theorem readLiteral?_eq_some_iff {text behind : List Char} {value : String} :
    readLiteral? text = some (value, behind) ↔
      ∃ spelling, text = '"' :: (spelling ++ '"' :: behind) ∧ StandsFor spelling value.toList := by
  constructor
  · intro h
    unfold readLiteral? at h
    split at h
    next rest =>
      obtain ⟨⟨inner, last⟩, hinner, heq⟩ := Option.map_eq_some_iff.mp h
      cases heq
      obtain ⟨spelling, rfl, hspelling⟩ := exists_standsFor hinner
      exact ⟨spelling, rfl, by rwa [String.toList_ofList]⟩
    next => cases h
  · rintro ⟨spelling, rfl, hspelling⟩
    simp only [readLiteral?, hspelling.readCharacters?, Option.map_some, String.ofList_toList]

/-- What a text begins with does not depend on what comes behind it. -/
theorem readLiteral?_append {text behind : List Char} {value : String}
    (h : readLiteral? text = some (value, behind)) (more : List Char) :
    readLiteral? (text ++ more) = some (value, behind ++ more) := by
  obtain ⟨spelling, rfl, hspelling⟩ := readLiteral?_eq_some_iff.mp h
  exact readLiteral?_eq_some_iff.mpr ⟨spelling, by simp, hspelling⟩

/-! ## Quoted strings -/

/-- A text is a literal of a string, wherever it stands. -/
structure IsLiteralOf (literal : String) (text : String) : Prop where
  /-- Reading gives the string and stops behind the literal. -/
  read : ∀ behind : List Char, readLiteral? (literal.toList ++ behind) = some (text, behind)
  /-- Reading does not stop before. -/
  whole : ∀ front, front <+: literal.toList → front ≠ literal.toList → readLiteral? front = none
  /-- The literal stands on one line. -/
  line : '\n' ∉ literal.toList ∧ '\r' ∉ literal.toList

theorem isLiteralOf_quoted (text : String) : IsLiteralOf (quoted text) text := by
  have hspelling : StandsFor (text.toList.flatMap escape) text.toList :=
    standsFor_flatMap_escape text.toList
  have hread : readLiteral? (quoted text).toList = some (text, []) :=
    readLiteral?_eq_some_iff.mpr ⟨_, toList_quoted text, hspelling⟩
  refine ⟨fun behind => readLiteral?_append hread behind, fun front hfront hne => ?_, ?_⟩
  · obtain ⟨more, hmore⟩ := hfront
    rw [Option.eq_none_iff_forall_ne_some]
    rintro ⟨value, behind⟩ hearly
    -- A literal that ends before would leave the rest of this one behind, but nothing is left.
    have hwhole := readLiteral?_append hearly more
    rw [hmore, hread] at hwhole
    obtain ⟨-, hnil⟩ := Prod.mk.inj (Option.some.inj hwhole)
    obtain ⟨-, rfl⟩ := List.append_eq_nil_iff.mp hnil.symm
    exact hne (by simpa using hmore)
  · rw [toList_quoted]
    obtain ⟨hfeed, hreturn⟩ := hspelling.noLineBreak
    simp [hfeed, hreturn]

/-- **Every string comes out of its literal again.** Whatever text follows, reading the literal of a
string as C++ does gives the string and leaves the text that follows. No part of the literal is a
literal before its end, and it stands on one line. Two strings never have the same literal. -/
theorem string_literals_survive :
    (∀ text, IsLiteralOf (Literal.string text).cpp text) ∧
      ∀ text other, (Literal.string text).cpp = (Literal.string other).cpp → text = other := by
  refine ⟨isLiteralOf_quoted, fun text other h => ?_⟩
  have hread := (isLiteralOf_quoted text).read []
  have hother := (isLiteralOf_quoted other).read []
  simp only [Literal.cpp] at h
  rw [h, hother] at hread
  exact (Prod.mk.inj (Option.some.inj hread)).1.symm

/-- The backslash at the end does not take the closing quote with it. -/
example : readLiteral? ((quoted "\\").toList ++ ['"', ';']) = some ("\\", ['"', ';']) := by decide

end TreeToCpp
