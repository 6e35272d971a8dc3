import TreeToCpp.Json.Value
import TreeToCpp.Tree.Location

/-!
# Ways into a document

A way into a document is a list of steps, each to a key of an object or to an item of a list. A path
is the text of such a way behind the path where it begins, except that no dot stands in front of the
first step if that path is empty.

The steps can be read off from the path again. A dot or a bracket begins each step, and as long as
no key is empty or has one of the two in it, the next dot or bracket is where the step ends.

## Main definitions

* `PathStep`, `Value.follow` — steps, and where they lead
* `extendedPath` — a path with steps behind it
* `pathAlong` — the same, step by step

## Main results

* `pathAlong_eq_extendedPath` — both paths are the same
* `stepsText_inj`, `extendedPath_inj` — the way can be read off from its path
-/

namespace TreeToCpp

open Json (Value Members)

/-! ## Ways -/

/-- One step into a document. -/
inductive PathStep where
  /-- To the value under a key of an object. -/
  | field (key : String)
  /-- To an item of a list. -/
  | item (index : Nat)
  deriving DecidableEq, Repr

namespace PathStep

/-- The step as it is written in a path. -/
def text : PathStep → String
  | .field key => "." ++ key
  | .item index => "[" ++ toString index ++ "]"

/-- The value that a step leads to. -/
def follow : PathStep → Value → Option Value
  | .field key, .object members => Members.lookup members key
  | .item index, .array items => items[index]?
  | _, _ => none

/-- The path behind a step. -/
def onPath (path : String) : PathStep → String
  | .field key => Path.field path key
  | .item index => Path.item path index

/-- A step whose end can be seen in a path. -/
def IsPlain : PathStep → Prop
  | .field key => key ≠ "" ∧ '.' ∉ key.toList ∧ '[' ∉ key.toList
  | .item _ => True

instance (step : PathStep) : Decidable step.IsPlain :=
  match step with
  | .field _ => inferInstanceAs (Decidable (_ ∧ _ ∧ _))
  | .item _ => .isTrue trivial

end PathStep

/-- The value that some steps lead to. -/
def Json.Value.follow (value : Value) : List PathStep → Option Value
  | [] => some value
  | step :: rest => (step.follow value).bind (·.follow rest)

theorem follow_append (value : Value) (first rest : List PathStep) :
    value.follow (first ++ rest) = (value.follow first).bind (·.follow rest) := by
  induction first generalizing value with
  | nil => rfl
  | cons step first ih =>
    simp only [List.cons_append, Json.Value.follow, Option.bind_assoc, ih]

/-! ## Paths -/

/-- The text of some steps. -/
def stepsText (steps : List PathStep) : String :=
  String.join (steps.map PathStep.text)

/-- A text without the dot that it begins with. -/
def withoutDot (text : String) : String :=
  match text.toList with
  | '.' :: rest => String.ofList rest
  | _ => text

/-- A path with steps behind it. No dot stands in front of the first step. -/
def extendedPath (path : String) (steps : List PathStep) : String :=
  if path = "" then withoutDot (stepsText steps) else path ++ stepsText steps

/-- A path with steps behind it, step by step. -/
def pathAlong (path : String) (steps : List PathStep) : String :=
  steps.foldl PathStep.onPath path

theorem stepsText_cons (step : PathStep) (rest : List PathStep) :
    stepsText (step :: rest) = step.text ++ stepsText rest := by
  simp [stepsText]

theorem pathAlong_of_ne {path : String} (h : path ≠ "") (steps : List PathStep) :
    pathAlong path steps = path ++ stepsText steps := by
  induction steps generalizing path with
  | nil => simp [pathAlong, stepsText]
  | cons step rest ih =>
    have hstep : step.onPath path = path ++ step.text := by
      cases step <;>
        simp [PathStep.onPath, PathStep.text, Path.field, Path.item, h, String.append_assoc]
    rw [pathAlong, List.foldl_cons, hstep, ← pathAlong, ih (by simp [h]), stepsText_cons,
      String.append_assoc]

/-- Going step by step gives the extended path. -/
theorem pathAlong_eq_extendedPath (path : String) {steps : List PathStep}
    (h : ∀ step ∈ steps, step.IsPlain) : pathAlong path steps = extendedPath path steps := by
  by_cases hpath : path = ""
  · subst hpath
    rw [extendedPath, if_pos rfl]
    cases steps with
    | nil => rfl
    | cons step rest =>
      rw [pathAlong, List.foldl_cons, ← pathAlong, stepsText_cons]
      cases step with
      | field key =>
        have hkey : key ≠ "" := (h _ List.mem_cons_self).1
        rw [PathStep.onPath, Path.field, if_pos (by simp), pathAlong_of_ne hkey]
        simp [PathStep.text, withoutDot]
      | item index =>
        rw [PathStep.onPath, Path.item, pathAlong_of_ne (by simp)]
        simp [PathStep.text, withoutDot]
  · rw [extendedPath, if_neg hpath, pathAlong_of_ne hpath]

/-! ## Reading a way off -/

/-- What stands behind the text of a step, where another step begins or nothing is left. -/
def IsBoundary (rest : List Char) : Prop :=
  ∀ c ∈ rest.head?, c = '.' ∨ c = '['

theorem isBoundary_stepsText (steps : List PathStep) : IsBoundary (stepsText steps).toList := by
  cases steps with
  | nil => simp [IsBoundary, stepsText]
  | cons step rest =>
    rw [stepsText_cons]
    cases step <;> simp [IsBoundary, PathStep.text]

/-- Where a character ends a part of a text, the part can be read off. -/
theorem append_inj_of_stop {stops : Char → Bool} {first first' rest rest' : List Char}
    (hfirst : ∀ c ∈ first, stops c = false) (hfirst' : ∀ c ∈ first', stops c = false)
    (hrest : ∀ c ∈ rest.head?, stops c = true) (hrest' : ∀ c ∈ rest'.head?, stops c = true)
    (h : first ++ rest = first' ++ rest') : first = first' ∧ rest = rest' := by
  have hread : ∀ {part behind : List Char}, (∀ c ∈ part, stops c = false) →
      (∀ c ∈ behind.head?, stops c = true) →
      (part ++ behind).takeWhile (fun c => !stops c) = part := fun {part behind} hpart hbehind => by
    rw [List.takeWhile_append_of_pos (by simpa using hpart)]
    cases behind with
    | nil => simp
    | cons c behind => simp [hbehind c (by simp)]
  have hsame : first = first' := by
    rw [← hread hfirst hrest, h, hread hfirst' hrest']
  exact ⟨hsame, List.append_cancel_left (hsame ▸ h)⟩

/-- The index of an item can be read off. -/
theorem index_inj {index index' : Nat} {rest rest' : List Char}
    (h : (toString index).toList ++ ']' :: rest = (toString index').toList ++ ']' :: rest') :
    index = index' ∧ rest = rest' := by
  have hchars : ∀ n : Nat, (toString n).toList = Nat.toDigits 10 n := fun _ => Nat.toList_repr
  have hdigits : ∀ n : Nat, ∀ c ∈ (toString n).toList, (c == ']') = false := by
    intro n c hc
    rw [hchars] at hc
    have hdigit := Nat.isDigit_of_mem_toDigits (by decide) (by decide) hc
    refine beq_eq_false_iff_ne.mpr fun hbracket => ?_
    rw [hbracket] at hdigit
    exact absurd hdigit (by decide)
  obtain ⟨hsame, hrest⟩ :=
    append_inj_of_stop (hdigits index) (hdigits index') (by simp) (by simp) h
  rw [hchars, hchars] at hsame
  have hindex := congrArg (Nat.ofDigitChars 10 · 0) hsame
  simp only [Nat.ofDigitChars_toDigits (b := 10) (by decide) (by decide)] at hindex
  exact ⟨hindex, by simpa using hrest⟩

theorem text_append_inj {step step' : PathStep} (hplain : step.IsPlain) (hplain' : step'.IsPlain)
    {rest rest' : List Char} (hrest : IsBoundary rest) (hrest' : IsBoundary rest')
    (h : step.text.toList ++ rest = step'.text.toList ++ rest') : step = step' ∧ rest = rest' := by
  cases step with
  | field key =>
    cases step' with
    | field key' =>
      have hkey : ∀ {key : String}, (PathStep.field key).IsPlain → ∀ c ∈ key.toList,
          (c == '.' || c == '[') = false := fun {key} hplain c hc => by
        have hdot : c ≠ '.' := fun heq => hplain.2.1 (heq ▸ hc)
        have hbracket : c ≠ '[' := fun heq => hplain.2.2 (heq ▸ hc)
        simp [hdot, hbracket]
      have hstop : ∀ {rest}, IsBoundary rest → ∀ c ∈ rest.head?, (c == '.' || c == '[') = true :=
        fun hboundary c hc => by simpa using hboundary c hc
      simp only [PathStep.text, String.toList_append, List.append_assoc] at h
      obtain ⟨hsame, hbehind⟩ := append_inj_of_stop (hkey hplain) (hkey hplain') (hstop hrest)
        (hstop hrest') (List.append_cancel_left h)
      exact ⟨by rw [String.toList_inj.mp hsame], hbehind⟩
    | item => simp [PathStep.text] at h
  | item index =>
    cases step' with
    | field => simp [PathStep.text] at h
    | item index' =>
      simp only [PathStep.text, String.toList_append, List.append_assoc] at h
      obtain ⟨rfl, hbehind⟩ := index_inj (List.append_cancel_left h)
      exact ⟨rfl, hbehind⟩

theorem text_ne_empty (step : PathStep) : step.text ≠ "" := by
  cases step <;> simp [PathStep.text]

/-- The way can be read off from its text. -/
theorem stepsText_inj {steps steps' : List PathStep} (hplain : ∀ step ∈ steps, step.IsPlain)
    (hplain' : ∀ step ∈ steps', step.IsPlain) (h : stepsText steps = stepsText steps') :
    steps = steps' := by
  induction steps generalizing steps' with
  | nil =>
    cases steps' with
    | nil => rfl
    | cons step rest =>
      rw [stepsText_cons] at h
      simp [stepsText, text_ne_empty, eq_comm (a := "")] at h
  | cons step rest ih =>
    cases steps' with
    | nil =>
      rw [stepsText_cons] at h
      simp [stepsText, text_ne_empty] at h
    | cons step' rest' =>
      obtain ⟨hstep, hrest⟩ := List.forall_mem_cons.mp hplain
      obtain ⟨hstep', hrest'⟩ := List.forall_mem_cons.mp hplain'
      rw [stepsText_cons, stepsText_cons, ← String.toList_inj, String.toList_append,
        String.toList_append] at h
      obtain ⟨rfl, hbehind⟩ := text_append_inj hstep hstep' (isBoundary_stepsText rest)
        (isBoundary_stepsText rest') h
      rw [ih hrest hrest' (String.toList_inj.mp hbehind)]

/-- A way that begins with a key. The ways into an object do. -/
def BeginsWithKey : List PathStep → Prop
  | .item _ :: _ => False
  | _ => True

/-- The dot that is left out at the root can be put back. -/
theorem stepsText_eq {steps : List PathStep} (hplain : ∀ step ∈ steps, step.IsPlain)
    (hkey : BeginsWithKey steps) :
    stepsText steps =
      if withoutDot (stepsText steps) = "" then "" else "." ++ withoutDot (stepsText steps) := by
  cases steps with
  | nil => rfl
  | cons step rest =>
    cases step with
    | item => exact hkey.elim
    | field key =>
      have hne : key ≠ "" := (hplain _ List.mem_cons_self).1
      simp [stepsText_cons, PathStep.text, withoutDot, hne, String.append_assoc]

/-- The way can be read off from the path. -/
theorem extendedPath_inj {path : String} {steps steps' : List PathStep}
    (hplain : ∀ step ∈ steps, step.IsPlain) (hplain' : ∀ step ∈ steps', step.IsPlain)
    (hkey : BeginsWithKey steps) (hkey' : BeginsWithKey steps')
    (h : extendedPath path steps = extendedPath path steps') : steps = steps' := by
  refine stepsText_inj hplain hplain' ?_
  rw [extendedPath, extendedPath] at h
  split at h
  · rw [stepsText_eq hplain hkey, stepsText_eq hplain' hkey', h]
  · exact (String.append_right_inj path).mp h

end TreeToCpp
