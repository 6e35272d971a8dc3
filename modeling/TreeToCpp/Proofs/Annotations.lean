import Mathlib.Data.List.DropRight
import TreeToCpp.TypeTerm

/-!
# Annotations and what they say

The reader of type annotations works on characters: it takes blanks off both ends, looks whether a
bracket or a name in front makes the text a wrapper, and goes on with what is inside. This file
looks at annotations from the other side. A `PaddedTerm` is put together from a core, wrappers and
blank characters around every part, so it knows what it says, and the text is only what it looks
like.

Every text is the text of a padded term, and the blanks are the only thing about which the text
leaves a choice. Two facts make that so. A wrapper can be told from its text, since an array ends in
a bracket in which no pointer or reference ends, and a core has no wrapper. And blanks go to the
outermost part that they touch: in ` int []` the first one may stand before the array or before its
item, which makes no difference to either.

The order in which the reader looks for wrappers does not show in any of this, because no text has
two of them at once.

## Main definitions

* `whiteSpace` — the blank characters
* `Padding`, `Core`, `PaddedTerm` — annotations put together from their parts
* `PaddedTerm.text`, `PaddedTerm.term` — what an annotation looks like and what it says
* `Translates` — the C++ type of a term

## Main results

* `TypeTerm.parse_text` — the reader finds what an annotation says
* `PaddedTerm.exists_text_eq` — every text is the text of a padded term
* `cppType_structural` — types are translated by their structure
-/

namespace TreeToCpp

/-! ## Blanks at the ends -/

/-- The characters with the Unicode property White_Space. -/
def whiteSpace : List Char := [
  '\t', '\n', '\u000B', '\u000C', '\r', ' ', '\u0085', '\u00A0', '\u1680', '\u2000', '\u2001',
  '\u2002', '\u2003', '\u2004', '\u2005', '\u2006', '\u2007', '\u2008', '\u2009', '\u200A',
  '\u2028', '\u2029', '\u202F', '\u205F', '\u3000']

theorem isBlank_iff {c : Char} : isBlank c = true ↔ c ∈ whiteSpace := by
  simp only [isBlank, whiteSpace, Bool.or_eq_true, Bool.and_eq_true, decide_eq_true_eq, beq_iff_eq,
    List.mem_cons, List.not_mem_nil, or_false, ← Char.toNat_inj, Char.reduceToNat]
  omega

theorem isBlank_eq_false_iff {c : Char} : isBlank c = false ↔ c ∉ whiteSpace := by
  rw [← isBlank_iff, Bool.not_eq_true]

/-- Blank characters before and behind a part of an annotation. -/
structure Padding where
  before : List Char
  behind : List Char
  before_subset : before ⊆ whiteSpace
  behind_subset : behind ⊆ whiteSpace

/-- A text with blanks around it. -/
def Padding.around (padding : Padding) (text : List Char) : List Char :=
  padding.before ++ text ++ padding.behind

/-- There is no blank at either end of a text. -/
structure IsTight (text : List Char) : Prop where
  first : ∀ c ∈ text.head?, c ∉ whiteSpace
  last : ∀ c ∈ text.getLast?, c ∉ whiteSpace

theorem trimEnd_append_of_subset {text behind : List Char} (h : behind ⊆ whiteSpace) :
    trimEnd (text ++ behind) = trimEnd text := by
  have hblank : ∀ c ∈ behind.reverse, isBlank c = true := fun c hc =>
    isBlank_iff.mpr (h (List.mem_reverse.mp hc))
  rw [trimEnd, List.reverse_append, List.dropWhile_append_of_pos hblank, trimEnd]

theorem trimEnd_eq_self_iff {text : List Char} :
    trimEnd text = text ↔ ∀ c ∈ text.getLast?, c ∉ whiteSpace := by
  cases text using List.reverseRecOn with
  | nil => simp [trimEnd]
  | append_singleton text c => simp [trimEnd, List.dropWhile_eq_self_iff, isBlank_eq_false_iff]

theorem dropWhile_isBlank_eq_self_iff {text : List Char} :
    text.dropWhile isBlank = text ↔ ∀ c ∈ text.head?, c ∉ whiteSpace := by
  cases text <;> simp [List.dropWhile_eq_self_iff, isBlank_eq_false_iff]

theorem IsTight.trim_eq {text : List Char} (h : IsTight text) : trim text = text := by
  rw [trim, dropWhile_isBlank_eq_self_iff.mpr h.first, trimEnd_eq_self_iff.mpr h.last]

/-- Trimming takes the padding off and nothing else. -/
theorem Padding.trim_around (padding : Padding) (text : List Char) :
    trim (padding.around text) = trim text := by
  have hbefore : ∀ c ∈ padding.before, isBlank c = true := fun c hc =>
    isBlank_iff.mpr (padding.before_subset hc)
  have hbehind : ∀ c ∈ padding.behind, isBlank c = true := fun c hc =>
    isBlank_iff.mpr (padding.behind_subset hc)
  rw [around, List.append_assoc, trim, List.dropWhile_append_of_pos hbefore, List.dropWhile_append]
  split
  next hblank =>
    have htext : text.dropWhile isBlank = [] := List.isEmpty_iff.mp hblank
    rw [trim, htext, List.dropWhile_eq_nil_iff.mpr hbehind]
  next => exact trimEnd_append_of_subset padding.behind_subset

theorem exists_padding_trim (text : List Char) :
    ∃ padding : Padding, padding.around (trim text) = text := by
  let start := text.dropWhile isBlank
  refine ⟨⟨text.takeWhile isBlank, start.rtakeWhile isBlank,
    fun c hc => isBlank_iff.mp (List.mem_takeWhile_imp hc),
    fun c hc => isBlank_iff.mp (List.mem_rtakeWhile_imp hc)⟩, ?_⟩
  have hend : trim text ++ start.rtakeWhile isBlank = start := List.rdropWhile_append_rtakeWhile
  rw [Padding.around, List.append_assoc, hend, List.takeWhile_append_dropWhile]

theorem isTight_trim (text : List Char) : IsTight (trim text) where
  first c hc := by
    obtain ⟨behind, hbehind⟩ := List.rdropWhile_prefix isBlank (text.dropWhile isBlank)
    have hstart : (text.dropWhile isBlank).head? = some c := by
      rw [← hbehind, List.head?_append, show (List.rdropWhile _ _).head? = some c from hc]
      rfl
    exact dropWhile_isBlank_eq_self_iff.mp (List.dropWhile_idempotent ..) c hstart
  last := trimEnd_eq_self_iff.mp (List.rdropWhile_idempotent ..)

/-! ## Wrappers -/

/-- A text with a wrapper around it. -/
def Wrapper.around : Wrapper → List Char → List Char
  | .array, inner => inner ++ ['[', ']']
  | .pointer, inner => ['p', 't', 'r', '<'] ++ inner ++ ['>']
  | .reference, inner => ['r', 'e', 'f', '<'] ++ inner ++ ['>']

namespace Wrapper

theorem strip?_eq_some_iff_around {wrapper : Wrapper} {text inner : List Char} :
    wrapper.strip? text = some inner ↔ text = wrapper.around inner := by
  rw [strip?_eq_some_iff]
  cases wrapper <;>
    simp [around, opening, closing, arraySuffix, pointerOpening, referenceOpening, closingAngle]

/-- The last character tells arrays from pointers and references. -/
theorem getLast?_around (wrapper : Wrapper) (inner : List Char) :
    (wrapper.around inner).getLast? = some (if wrapper = .array then ']' else '>') := by
  cases wrapper <;> rw [around, List.getLast?_append] <;> rfl

/-- No text has two wrappers at once, and a wrapper has one inside. -/
theorem around_inj {wrapper wrapper' : Wrapper} {inner inner' : List Char}
    (h : wrapper.around inner = wrapper'.around inner') : wrapper = wrapper' ∧ inner = inner' := by
  have hlast := congrArg List.getLast? h
  rw [getLast?_around, getLast?_around] at hlast
  cases wrapper <;> cases wrapper' <;> simp_all [around]

/-- The order in which wrappers are looked for does not matter. -/
theorem unwrap?_eq_some_iff {wrapper : Wrapper} {text inner : List Char} :
    unwrap? text = some (wrapper, inner) ↔ text = wrapper.around inner := by
  refine ⟨fun h => strip?_eq_some_iff_around.mp (strip?_of_unwrap? h), fun h => ?_⟩
  cases hfound : unwrap? text with
  | none =>
    have hwrapper : wrapper ∈ all := by cases wrapper <;> decide
    have := List.findSome?_eq_none_iff.mp hfound wrapper hwrapper
    simp [strip?_eq_some_iff_around.mpr h] at this
  | some found =>
    obtain ⟨rfl, rfl⟩ :=
      around_inj (h.symm.trans (strip?_eq_some_iff_around.mp (strip?_of_unwrap? hfound)))
    rfl

theorem unwrap?_eq_none_iff {text : List Char} :
    unwrap? text = none ↔ ∀ wrapper inner, text ≠ Wrapper.around wrapper inner := by
  simp only [Option.eq_none_iff_forall_ne_some, Prod.forall, ne_eq, unwrap?_eq_some_iff]

/-- Blanks in front of an array may as well stand in front of its item. -/
theorem trim_around (wrapper : Wrapper) (inner : List Char) :
    ∃ inner', trim (wrapper.around inner) = wrapper.around inner' ∧ trim inner' = trim inner := by
  have hlast : ∀ text, ∀ c ∈ (wrapper.around text).getLast?, c ∉ whiteSpace := by
    simp only [getLast?_around, Option.mem_some_iff]
    rintro _ _ rfl
    cases wrapper <;> decide
  cases wrapper with
  | array =>
    refine ⟨inner.dropWhile isBlank, ?_, by rw [trim, List.dropWhile_idempotent, trim]⟩
    have hstart : (Wrapper.array.around inner).dropWhile isBlank =
        Wrapper.array.around (inner.dropWhile isBlank) := by
      rw [around, List.dropWhile_append, around]
      split
      next hblank =>
        rw [List.isEmpty_iff.mp hblank]
        rfl
      next => rfl
    rw [trim, hstart, trimEnd_eq_self_iff.mpr (hlast _)]
  | pointer => exact ⟨inner, IsTight.trim_eq ⟨by rintro _ ⟨⟩; decide, hlast inner⟩, rfl⟩
  | reference => exact ⟨inner, IsTight.trim_eq ⟨by rintro _ ⟨⟩; decide, hlast inner⟩, rfl⟩

end Wrapper

/-! ## Annotations from their parts -/

/-- A name without blanks at its ends and without a wrapper. It may be empty. -/
structure Core where
  text : List Char
  isTight : IsTight text
  not_wrapped : ∀ wrapper inner, text ≠ Wrapper.around wrapper inner

/-- An annotation, put together from its parts. -/
inductive PaddedTerm where
  | core (padding : Padding) (name : Core)
  | wrapped (padding : Padding) (wrapper : Wrapper) (inner : PaddedTerm)

namespace PaddedTerm

/-- What an annotation looks like. -/
def text : PaddedTerm → List Char
  | .core padding name => padding.around name.text
  | .wrapped padding wrapper inner => padding.around (wrapper.around inner.text)

/-- What an annotation says. -/
def term : PaddedTerm → TypeTerm
  | .core _ name => .core (String.ofList name.text)
  | .wrapped _ wrapper inner => .wrapped wrapper inner.term

end PaddedTerm

namespace TypeTerm

theorem parse_of_unwrap?_eq_some {text inner : List Char} {wrapper : Wrapper}
    (h : Wrapper.unwrap? (trim text) = some (wrapper, inner)) :
    parse text = .wrapped wrapper (parse inner) := by
  rw [parse]
  split
  next heq =>
    cases h.symm.trans heq
    rfl
  next heq => cases h.symm.trans heq

theorem parse_of_unwrap?_eq_none {text : List Char} (h : Wrapper.unwrap? (trim text) = none) :
    parse text = .core (String.ofList (trim text)) := by
  rw [parse]
  split
  next heq => cases h.symm.trans heq
  next => rfl

/-- The reader does not see the blanks at the ends. -/
theorem parse_congr {text text' : List Char} (h : trim text = trim text') :
    parse text = parse text' := by
  cases hfound : Wrapper.unwrap? (trim text) with
  | some found =>
    have hfound' : Wrapper.unwrap? (trim text') = some found := h ▸ hfound
    rw [parse_of_unwrap?_eq_some hfound, parse_of_unwrap?_eq_some hfound']
  | none =>
    have hnone' : Wrapper.unwrap? (trim text') = none := h ▸ hfound
    rw [parse_of_unwrap?_eq_none hfound, parse_of_unwrap?_eq_none hnone', h]

theorem parse_around (wrapper : Wrapper) (inner : List Char) :
    parse (wrapper.around inner) = .wrapped wrapper (parse inner) := by
  obtain ⟨inner', htrim, hinner⟩ := wrapper.trim_around inner
  rw [parse_of_unwrap?_eq_some (Wrapper.unwrap?_eq_some_iff.mpr htrim), parse_congr hinner]

/-- **The reader finds what an annotation says.** -/
theorem parse_text (padded : PaddedTerm) : parse padded.text = padded.term := by
  induction padded with
  | core padding name =>
    have htrim : trim name.text = name.text := name.isTight.trim_eq
    have hnone : Wrapper.unwrap? (trim name.text) = none := by
      rw [htrim]
      exact Wrapper.unwrap?_eq_none_iff.mpr name.not_wrapped
    rw [PaddedTerm.text, parse_congr (padding.trim_around name.text),
      parse_of_unwrap?_eq_none hnone, htrim, PaddedTerm.term]
  | wrapped padding wrapper inner ih =>
    rw [PaddedTerm.text, parse_congr (padding.trim_around _), parse_around, ih, PaddedTerm.term]

end TypeTerm

/-- **Every text is the text of a padded term.** -/
theorem PaddedTerm.exists_text_eq (text : List Char) : ∃ padded : PaddedTerm,
    padded.text = text := by
  induction text using TypeTerm.parse.induct with
  | case1 text wrapper inner hfound _ _ ih =>
    obtain ⟨padded, rfl⟩ := ih
    obtain ⟨padding, hpadding⟩ := exists_padding_trim text
    rw [Wrapper.unwrap?_eq_some_iff.mp hfound] at hpadding
    exact ⟨.wrapped padding wrapper padded, hpadding⟩
  | case2 text hnone =>
    obtain ⟨padding, hpadding⟩ := exists_padding_trim text
    exact ⟨.core padding ⟨trim text, isTight_trim text, Wrapper.unwrap?_eq_none_iff.mp hnone⟩,
      hpadding⟩

/-! ## Types -/

/-- The types that are built into the language, and their C++ types. -/
def builtInTypes : List (String × String) := [
  ("int", "int"), ("float", "float"), ("bool", "bool"), ("string", "std::string"),
  ("void", "void")]

/-- The C++ type of a term, in a program with given structures in a given namespace. -/
inductive Translates (registry : Registry) (namespaceName : String) : TypeTerm → String → Prop
  | array {inner type} : Translates registry namespaceName inner type →
      Translates registry namespaceName (.wrapped .array inner) ("fax_std::Array<" ++ type ++ ">")
  | pointer {inner type} : Translates registry namespaceName inner type →
      Translates registry namespaceName (.wrapped .pointer inner) ("fax_std::Ptr<" ++ type ++ ">")
  | reference {inner type} : Translates registry namespaceName inner type →
      Translates registry namespaceName (.wrapped .reference inner) (type ++ "&")
  | blank : Translates registry namespaceName (.core "") "auto"
  | record {name} : name ≠ "" → registry.kindOf (mangle name) = some .record →
      Translates registry namespaceName (.core name) (namespaceName ++ "::" ++ mangle name)
  | builtIn {name type} : name ≠ "" → registry.kindOf (mangle name) ≠ some .record →
      (name, type) ∈ builtInTypes → Translates registry namespaceName (.core name) type
  | other {name} : name ≠ "" → registry.kindOf (mangle name) ≠ some .record →
      (∀ type, (name, type) ∉ builtInTypes) →
      Translates registry namespaceName (.core name) (mangle name)

theorem Primitive.cppOfName?_eq_some_iff {name type : String} :
    cppOfName? name = some type ↔ (name, type) ∈ builtInTypes := by
  constructor
  · intro h
    obtain ⟨primitive, hfound, rfl⟩ := Option.map_eq_some_iff.mp h
    obtain rfl : primitive.name = name := by simpa using List.find?_some hfound
    cases primitive <;> simp [builtInTypes, Primitive.name, cpp]
  · intro h
    simp only [builtInTypes, List.mem_cons, Prod.mk.injEq, List.not_mem_nil, or_false] at h
    rcases h with ⟨rfl, rfl⟩ | ⟨rfl, rfl⟩ | ⟨rfl, rfl⟩ | ⟨rfl, rfl⟩ | ⟨rfl, rfl⟩ <;> decide

namespace TypeTerm

variable {registry : Registry} {namespaceName : String}

theorem coreCpp_of_record {name : String} (hname : name ≠ "")
    (hrecord : registry.kindOf (mangle name) = some .record) :
    coreCpp registry namespaceName name = namespaceName ++ "::" ++ mangle name := by
  simp [coreCpp, hname, Registry.isRecord, hrecord]

theorem coreCpp_of_not_record {name : String} (hname : name ≠ "")
    (hrecord : registry.kindOf (mangle name) ≠ some .record) :
    coreCpp registry namespaceName name = (Primitive.cppOfName? name).getD (mangle name) := by
  simp [coreCpp, hname, Registry.isRecord, hrecord]

theorem translates_coreCpp (name : String) :
    Translates registry namespaceName (.core name) (coreCpp registry namespaceName name) := by
  by_cases hname : name = ""
  · subst hname
    exact .blank
  by_cases hrecord : registry.kindOf (mangle name) = some .record
  · rw [coreCpp_of_record hname hrecord]
    exact .record hname hrecord
  rw [coreCpp_of_not_record hname hrecord]
  cases hbuiltIn : Primitive.cppOfName? name with
  | some type => exact .builtIn hname hrecord (Primitive.cppOfName?_eq_some_iff.mp hbuiltIn)
  | none =>
    refine .other hname hrecord fun type htype => ?_
    rw [Primitive.cppOfName?_eq_some_iff.mpr htype] at hbuiltIn
    cases hbuiltIn

/-- A term has one C++ type. -/
theorem cpp_eq_iff {term : TypeTerm} {type : String} :
    term.cpp registry namespaceName = type ↔ Translates registry namespaceName term type := by
  constructor
  · rintro rfl
    induction term with
    | wrapped wrapper inner ih =>
      cases wrapper with
      | array => exact .array ih
      | pointer => exact .pointer ih
      | reference => exact .reference ih
    | core name => exact translates_coreCpp name
  · intro h
    induction h with
    | array _ ih | pointer _ ih | reference _ ih =>
      rw [cpp, ih]
      rfl
    | blank => rfl
    | record hname hrecord => exact coreCpp_of_record hname hrecord
    | builtIn hname hrecord htype =>
      rw [cpp, coreCpp_of_not_record hname hrecord, Primitive.cppOfName?_eq_some_iff.mpr htype,
        Option.getD_some]
    | @other name hname hrecord hnone =>
      have hbuiltIn : Primitive.cppOfName? name = none :=
        Option.eq_none_iff_forall_ne_some.mpr fun type htype =>
          hnone type (Primitive.cppOfName?_eq_some_iff.mp htype)
      rw [cpp, coreCpp_of_not_record hname hrecord, hbuiltIn, Option.getD_none]

end TypeTerm

/-- **Types are translated by their structure.** Every text says exactly one term, whatever the
blanks are, and the C++ type of an annotation is that of the term that it says. -/
theorem cppType_structural :
    (∀ text : String, ∃! term : TypeTerm,
      ∃ padded : PaddedTerm, padded.text = text.toList ∧ padded.term = term) ∧
    ∀ (registry : Registry) (namespaceName : String) (padded : PaddedTerm) (type : String),
      cppType registry namespaceName (String.ofList padded.text) = type ↔
        Translates registry namespaceName padded.term type := by
  refine ⟨fun text => ?_, fun registry namespaceName padded type => ?_⟩
  · obtain ⟨padded, htext⟩ := PaddedTerm.exists_text_eq text.toList
    refine ⟨padded.term, ⟨padded, htext, rfl⟩, ?_⟩
    rintro _ ⟨other, hother, rfl⟩
    rw [← TypeTerm.parse_text, ← TypeTerm.parse_text, hother, htext]
  · rw [cppType, String.toList_ofList, TypeTerm.parse_text, TypeTerm.cpp_eq_iff]

end TreeToCpp
