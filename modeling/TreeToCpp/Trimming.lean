/-!
# The ends of a text

Two things are taken off the ends of a text: blank characters, as many as there are, and given
texts, once. Blank is what has the Unicode property White_Space. The property is wider than ASCII:
it has the no-break spaces and the typographic spaces, but neither the zero-width space nor the byte
order mark.

## Main definitions

* `isBlank` — the characters with the property
* `trim` — a text without blank characters at its ends
* `dropStart?`, `dropEnd?` — what is left of a list when a given list is taken off one end
-/

namespace TreeToCpp

/-! ## Blank characters -/

/-- The characters with the Unicode property White_Space. -/
def isBlank (c : Char) : Bool :=
  let n := c.toNat
  (0x09 ≤ n && n ≤ 0x0D) || n == 0x20 || n == 0x85 || n == 0xA0 || n == 0x1680 ||
    (0x2000 ≤ n && n ≤ 0x200A) || n == 0x2028 || n == 0x2029 || n == 0x202F || n == 0x205F ||
    n == 0x3000

/-- A text without blank characters at its end. -/
def trimEnd (text : List Char) : List Char :=
  (text.reverse.dropWhile isBlank).reverse

/-- A text without blank characters at its ends. -/
def trim (text : List Char) : List Char :=
  trimEnd (text.dropWhile isBlank)

theorem length_dropWhile_le (p : Char → Bool) (text : List Char) :
    (text.dropWhile p).length ≤ text.length :=
  (List.dropWhile_sublist p).length_le

theorem length_trim_le (text : List Char) : (trim text).length ≤ text.length := by
  have inner := length_dropWhile_le isBlank (text.dropWhile isBlank).reverse
  have outer := length_dropWhile_le isBlank text
  simp only [trim, trimEnd, List.length_reverse] at *
  omega

/-! ## Given ends -/

section

variable {α : Type} [DecidableEq α]

/-- What follows a given start, if the list has it. -/
def dropStart? : (start list : List α) → Option (List α)
  | [], list => some list
  | _ :: _, [] => none
  | a :: start, b :: list => if a = b then dropStart? start list else none

/-- What precedes a given end, if the list has it. -/
def dropEnd? (stop list : List α) : Option (List α) :=
  (dropStart? stop.reverse list.reverse).map List.reverse

theorem dropStart?_eq_some_iff {start list rest : List α} :
    dropStart? start list = some rest ↔ list = start ++ rest := by
  induction start generalizing list with
  | nil => simp [dropStart?]
  | cons a start ih =>
    cases list with
    | nil => simp [dropStart?]
    | cons b list =>
      by_cases same : a = b
      · simp [dropStart?, same, ih]
      · simp [dropStart?, same, Ne.symm same]

theorem dropEnd?_eq_some_iff {stop list rest : List α} :
    dropEnd? stop list = some rest ↔ list = rest ++ stop := by
  constructor
  · intro h
    obtain ⟨back, found, rfl⟩ := Option.map_eq_some_iff.mp h
    have := congrArg List.reverse (dropStart?_eq_some_iff.mp found)
    simpa using this
  · rintro rfl
    exact Option.map_eq_some_iff.mpr
      ⟨rest.reverse, dropStart?_eq_some_iff.mpr (by simp), by simp⟩

end

end TreeToCpp
