import TreeToCpp.Render.SourceFile

/-!
# Escaped names

An escaped name ends in an underscore and no reserved word does. That one look at the table of
reserved words is all that is needed to know what escaping does to names: what it gives is never
reserved, escaping twice is escaping once, and a word that neither is reserved nor ends in an
underscore is written for itself only. The names with a meaning of their own, such as the receiver
and `main`, are of that kind, so a name can be compared with them before or after it is escaped.

Escaping is not injective, since a program may hold a reserved word and its escape as two names. It
comes as close as it can: a reserved word with an underscore behind it stands for the word and for
itself, and any other spelling stands for at most one name.

## Main definitions

* `IsEscapeOf` — a reserved word with the underscore behind it
* `HasOwnMeaning` — the names that are not the program's to choose

## Main results

* `isReserved_mangle`, `mangle_mangle` — escaping is done once
* `mangle_eq_iff` — the words that only stand for themselves
* `mangle_collides_only_at_escapes` — which names are written alike
-/

namespace TreeToCpp

variable {name other word : String}

/-- No reserved word ends in the escape. -/
theorem getLast?_ne_of_isReserved (h : isReserved word = true) :
    word.toList.getLast? ≠ some '_' := by
  have hlast : ∀ word ∈ reservedWords, word.toList.getLast? ≠ some '_' := by decide +kernel
  exact hlast word (isReserved_eq_true_iff.mp h)

theorem getLast?_mangle_of_isReserved (h : isReserved name = true) :
    (mangle name).toList.getLast? = some '_' := by
  simp [mangle_of_isReserved h, escapeSuffix]

theorem isReserved_mangle (name : String) : isReserved (mangle name) = false := by
  cases hreserved : isReserved name with
  | false => rw [mangle_of_not_isReserved hreserved, hreserved]
  | true =>
    rw [← Bool.not_eq_true]
    intro hmangle
    exact getLast?_ne_of_isReserved hmangle (getLast?_mangle_of_isReserved hreserved)

@[simp] theorem mangle_mangle (name : String) : mangle (mangle name) = mangle name :=
  mangle_of_not_isReserved (isReserved_mangle name)

/-- The names that are written as they stand. -/
theorem mangle_eq_self_iff : mangle name = name ↔ name ∉ reservedWords := by
  rw [← isReserved_eq_false_iff]
  constructor
  · intro h
    rw [← h]
    exact isReserved_mangle name
  · exact mangle_of_not_isReserved

/-- A word that is not reserved and does not end like an escaped one is written for itself only. -/
theorem mangle_eq_iff (hreserved : isReserved word = false)
    (hlast : word.toList.getLast? ≠ some '_') : mangle name = word ↔ name = word := by
  constructor
  · intro h
    cases hname : isReserved name with
    | false => rwa [mangle_of_not_isReserved hname] at h
    | true => exact absurd (h ▸ getLast?_mangle_of_isReserved hname) hlast
  · rintro rfl
    exact mangle_of_not_isReserved hreserved

/-! ## Names with a meaning of their own -/

/-- A name that means the same in every program: the receiver of a method, the function that a
program starts with, or a function of the support library. -/
inductive HasOwnMeaning : String → Prop
  | receiver : HasOwnMeaning receiverName
  | entryPoint : HasOwnMeaning entryPointName
  | helper (helper : Helper) : HasOwnMeaning helper.name

theorem HasOwnMeaning.isReserved_eq_false (h : HasOwnMeaning word) : isReserved word = false := by
  cases h with
  | receiver => decide
  | entryPoint => decide
  | helper helper => cases helper; decide

theorem HasOwnMeaning.getLast?_ne (h : HasOwnMeaning word) :
    word.toList.getLast? ≠ some '_' := by
  cases h with
  | receiver => decide
  | entryPoint => decide
  | helper helper => cases helper; decide

/-- No other name is written like one that has a meaning of its own. -/
theorem HasOwnMeaning.mangle_eq_word_iff (h : HasOwnMeaning word) :
    mangle name = word ↔ name = word :=
  mangle_eq_iff h.isReserved_eq_false h.getLast?_ne

theorem mangle_eq_receiverName_iff : mangle name = receiverName ↔ name = receiverName :=
  HasOwnMeaning.receiver.mangle_eq_word_iff

theorem mangle_eq_entryPointName_iff : mangle name = entryPointName ↔ name = entryPointName :=
  HasOwnMeaning.entryPoint.mangle_eq_word_iff

theorem mangle_eq_helperName_iff (helper : Helper) :
    mangle name = helper.name ↔ name = helper.name :=
  (HasOwnMeaning.helper helper).mangle_eq_word_iff

/-! ## Names that are written alike -/

/-- One name is a reserved word and the other is that word with an underscore behind it. -/
structure IsEscapeOf (escaped word : String) : Prop where
  reserved : word ∈ reservedWords
  spelling : escaped = word ++ "_"

theorem IsEscapeOf.eq_mangle (h : IsEscapeOf other name) : other = mangle name := by
  rw [h.spelling, mangle_of_isReserved (isReserved_eq_true_iff.mpr h.reserved)]
  rfl

theorem isEscapeOf_mangle (h : isReserved name = true) : IsEscapeOf (mangle name) name where
  reserved := isReserved_eq_true_iff.mp h
  spelling := mangle_of_isReserved h

/-- An escape is not reserved, so it is written as it stands, and that is how its word is written. -/
theorem IsEscapeOf.mangle_eq (h : IsEscapeOf other name) : mangle other = mangle name := by
  rw [h.eq_mangle, mangle_mangle]

/-- Two names are written alike if they are one name, or if one is the escape of the other. -/
theorem mangle_eq_mangle_iff :
    mangle name = mangle other ↔ name = other ∨ IsEscapeOf name other ∨ IsEscapeOf other name := by
  constructor
  · intro h
    -- A name that is not reserved is its own spelling, so it is the spelling of the other one.
    cases hname : isReserved name with
    | true =>
      cases hother : isReserved other with
      | true =>
        rw [mangle_of_isReserved hname, mangle_of_isReserved hother] at h
        exact .inl ((String.append_left_inj escapeSuffix).mp h)
      | false =>
        have hescape : IsEscapeOf (mangle name) name := isEscapeOf_mangle hname
        rw [h, mangle_of_not_isReserved hother] at hescape
        exact .inr (.inr hescape)
    | false =>
      rw [mangle_of_not_isReserved hname] at h
      cases hother : isReserved other with
      | true => exact .inr (.inl (h ▸ isEscapeOf_mangle hother))
      | false => exact .inl (h.trans (mangle_of_not_isReserved hother))
  · rintro (rfl | h | h)
    · rfl
    · exact h.mangle_eq
    · exact h.mangle_eq.symm

/-- **Names collide only at escapes.** Two names are written alike if and only if they are equal or
one of them is a reserved word and the other is that word with an underscore behind it. What is
written is never reserved and is not escaped again, only reserved words are changed, and no name
becomes one that has a meaning of its own. -/
theorem mangle_collides_only_at_escapes :
    (∀ name other, mangle name = mangle other ↔
      name = other ∨ IsEscapeOf name other ∨ IsEscapeOf other name) ∧
    ∀ name,
      mangle name ∉ reservedWords ∧
      mangle (mangle name) = mangle name ∧
      (mangle name = name ↔ name ∉ reservedWords) ∧
      (mangle name = receiverName ↔ name = receiverName) ∧
      (mangle name = entryPointName ↔ name = entryPointName) ∧
      ∀ helper : Helper, mangle name = helper.name ↔ name = helper.name := by
  refine ⟨fun _ _ => mangle_eq_mangle_iff, fun name => ?_⟩
  have hmangle : mangle name ∉ reservedWords := isReserved_eq_false_iff.mp (isReserved_mangle name)
  exact ⟨hmangle, mangle_mangle name, mangle_eq_self_iff, mangle_eq_receiverName_iff,
    mangle_eq_entryPointName_iff, mangle_eq_helperName_iff⟩

-- The table is compared with case, so `Class` is a name like any other and has no escape.
example : mangle "class_" = mangle "class" ∧ mangle "Class_" ≠ mangle "Class" := by decide

end TreeToCpp
