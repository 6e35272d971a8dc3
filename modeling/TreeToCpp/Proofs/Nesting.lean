import Mathlib.Data.List.Basic
import TreeToCpp.Proofs.LayingOut
import TreeToCpp.Proofs.Scanning

/-!
# Lines are indented by their nesting

Braces and the depth of lines are written by different hands: a brace is part of a line, and the
depth is a number that goes up and down between lines. They have to stay in step, through bodies in
bodies and chains of branches, and in spite of whatever the string literals of the program hold.

The lines of a program are laid out, which keeps the two in step as long as the pieces of a line do
not disturb the count. If nothing that the program mentions has blanks, quotes or braces in it,
string literals excepted, they do not: every piece is level. What is left is to find the lines again
in the text that they are joined to.

## Main definitions

* `IsLine` — a line of a text, and the text in front of it
* `IsIndented`, `IsIndentedByNesting` — lines that begin as deep as they are nested

## Main results

* `Stacked.isIndentedByNesting` — texts that are made line by line
* `Laid.stacked` — lines that are laid out make such a text
* `renderProgram_indentedByNesting` — programs
-/

namespace TreeToCpp

/-! ## Lines of a text -/

/-- A line of a text, given with the text in front of it: it begins where the text begins or behind
a line feed, and it ends where the text ends or at a line feed. -/
structure IsLine (text before line : List Char) : Prop where
  start : before = [] ∨ ∃ earlier, before = earlier ++ ['\n']
  inner : '\n' ∉ line
  stop : ∃ behind, text = before ++ (line ++ behind) ∧
    (behind = [] ∨ ∃ later, behind = '\n' :: later)

/-- A line begins with the spaces that belong to a depth, and then with something else. If that is
a brace that closes, the line belongs to the place outside of it. -/
def IsIndented (width depth : Nat) (line : List Char) : Prop :=
  ∃ first rest, first ≠ ' ' ∧
    line = List.replicate (width * if first = '\x7d' then depth - 1 else depth) ' ' ++ first :: rest

/-- A text in which braces match, no string literal goes over a line break, and every line that is
not empty begins outside of string literals and is indented by the number of braces around it. -/
structure IsIndentedByNesting (width : Nat) (text : List Char) : Prop where
  balanced : scan (.code 0) text = some (.code 0)
  indented : ∀ before line, IsLine text before line → line ≠ [] →
    ∃ depth, scan (.code 0) before = some (.code depth) ∧ IsIndented width depth line

/-! ## Texts line by line -/

/-- A text of whole lines, read from a depth to another, that are indented by the depth at which
they begin. -/
inductive Stacked (width : Nat) : (before : Nat) → (text : List Char) → (behind : Nat) → Prop
  | nil {depth} : Stacked width depth [] depth
  | line {before between behind line rest} :
      '\n' ∉ line → scan (.code before) line = some (.code between) →
      (line = [] ∨ IsIndented width before line) → Stacked width between rest behind →
      Stacked width before (line ++ '\n' :: rest) behind

/-- What stands before some line feed of a text is the first line, or it goes beyond it. -/
theorem first_line_or_longer {first rest before after : List Char} (hfirst : '\n' ∉ first)
    (h : first ++ '\n' :: rest = before ++ '\n' :: after) :
    (before = first ∧ rest = after) ∨
      ∃ more, before = first ++ '\n' :: more ∧ rest = more ++ '\n' :: after := by
  rcases List.append_eq_append_iff.mp h with ⟨more, rfl, hmore⟩ | ⟨more, rfl, hmore⟩
  · cases more with
    | nil => exact .inl ⟨by simp, by simpa using hmore⟩
    | cons c more =>
      obtain ⟨rfl, rfl⟩ := List.cons_eq_cons.mp hmore
      exact .inr ⟨more, rfl, rfl⟩
  · cases more with
    | nil => exact .inl ⟨by simp, by simpa using hmore.symm⟩
    | cons c more =>
      obtain ⟨rfl, -⟩ := List.cons_eq_cons.mp hmore
      simp at hfirst

namespace Stacked

variable {width before between behind : Nat} {text rest : List Char}

theorem append (h : Stacked width before text between) (hrest : Stacked width between rest behind) :
    Stacked width before (text ++ rest) behind := by
  induction h with
  | nil => exact hrest
  | line hline hscan hindented _ ih =>
    rw [List.append_assoc]
    exact .line hline hscan hindented (ih hrest)

theorem scan_eq (h : Stacked width before text behind) :
    scan (.code before) text = some (.code behind) := by
  induction h with
  | nil => rfl
  | line _ hscan _ _ ih =>
    rw [scan_append, hscan]
    exact ih

theorem isIndented (h : Stacked width before text behind) {front line : List Char}
    (hline : IsLine text front line) (hne : line ≠ []) :
    ∃ depth, scan (.code before) front = some (.code depth) ∧ IsIndented width depth line := by
  induction h generalizing front with
  | nil =>
    obtain ⟨_, htext, -⟩ := hline.stop
    simp [hne] at htext
  | @line before _ _ first rest hfirst hscan hindented _ ih =>
    obtain ⟨after, htext, hafter⟩ := hline.stop
    rcases hline.start with rfl | ⟨earlier, rfl⟩
    · -- Both the line and the first line end at the first line feed.
      obtain rfl : line = first := by
        rcases hafter with rfl | ⟨later, rfl⟩
        · have hfeed : '\n' ∈ line := by
            rw [List.nil_append, List.append_nil] at htext
            simp [← htext]
          exact absurd hfeed hline.inner
        · rcases first_line_or_longer hfirst htext with ⟨rfl, -⟩ | ⟨more, rfl, -⟩
          · rfl
          · exact absurd (by simp) hline.inner
      exact ⟨before, rfl, hindented.resolve_left hne⟩
    · obtain ⟨between, hfront, hbehind⟩ : ∃ between, earlier ++ ['\n'] = first ++ '\n' :: between ∧
          IsLine rest between line := by
        rw [List.append_assoc] at htext
        rcases first_line_or_longer hfirst htext with ⟨rfl, rfl⟩ | ⟨more, rfl, rfl⟩
        · exact ⟨[], rfl, .inl rfl, hline.inner, after, rfl, hafter⟩
        · exact ⟨more ++ ['\n'], by simp, .inr ⟨more, rfl⟩, hline.inner, after, by simp, hafter⟩
      obtain ⟨depth, hdepth, hdeep⟩ := ih hbehind
      refine ⟨depth, ?_, hdeep⟩
      rw [hfront, scan_append, hscan]
      exact hdepth

theorem isIndentedByNesting (h : Stacked width 0 text 0) : IsIndentedByNesting width text where
  balanced := h.scan_eq
  indented _ _ hline hne := h.isIndented hline hne

end Stacked

/-! ## Lines that are laid out -/

/-- The characters of lines at the margin of the page. -/
def linesText (width : Nat) (lines : List Line) : List Char :=
  lines.flatMap fun line => (line.text width 0).toList

theorem toList_join_text (width : Nat) (lines : List Line) :
    (String.join (lines.map (Line.text width 0))).toList = linesText width lines := by
  rw [String.toList_join, List.flatMap_map]
  rfl

theorem scan_spaces (depth count : Nat) :
    scan (.code depth) (List.replicate count ' ') = some (.code depth) := by
  induction count with
  | zero => rfl
  | succ count ih => exact ih

theorem Opens.isIndented {content : List Char} (h : Opens content) (width depth : Nat) :
    IsIndented width depth (List.replicate (width * depth) ' ' ++ content) := by
  cases content with
  | nil => exact h.elim
  | cons first rest => exact ⟨first, rest, h.1, by rw [if_neg h.2]⟩

theorem isIndented_closing (width depth : Nat) (rest : List Char) :
    IsIndented width (depth + 1) (List.replicate (width * depth) ' ' ++ '\x7d' :: rest) :=
  ⟨'\x7d', rest, by decide, by simp⟩

/-- A brace at the beginning of a line takes one level off. -/
theorem scan_closing {depth : Nat} {rest : List Char} :
    scan (.code (depth + 1)) ('\x7d' :: rest) = scan (.code depth) rest := by
  simp [scan_cons, Scan.step]

/-- A brace at the end of a line adds one. -/
theorem scan_opening {state : Scan} {depth : Nat} {text : List Char}
    (h : scan state text = some (.code depth)) :
    scan state (text ++ [' ', '\x7b']) = some (.code (depth + 1)) := by
  rw [scan_append, h]
  rfl

/-- A line of code, if it is indented as it should be. -/
theorem Stacked.code {width depth before behind : Nat} {content : String}
    (hindented : IsIndented width before (List.replicate (width * depth) ' ' ++ content.toList))
    (hscan : scan (.code before) content.toList = some (.code behind))
    (hfeed : '\n' ∉ content.toList) :
    Stacked width before (linesText width [.code depth content]) behind := by
  have htext : linesText width [.code depth content] =
      (List.replicate (width * depth) ' ' ++ content.toList) ++ '\n' :: [] := by
    simp [linesText, Line.text, Nat.mul_comm]
  rw [htext]
  refine .line ?_ ?_ (.inr hindented) .nil
  · rw [List.mem_append]
    exact fun hmem => hmem.elim (fun h => absurd (List.eq_of_mem_replicate h) (by decide)) hfeed
  · rw [scan_append, scan_spaces]
    exact hscan

/-- Lines that are laid out make a text that is stacked line by line. -/
theorem Laid.stacked {stock : Stock} (hstock : stock.IsPlain) {before behind : Nat}
    {lines : List Line} {written : List String} (h : Laid stock before lines behind written)
    (width : Nat) : Stacked width before (linesText width lines) behind := by
  induction h with
  | nothing => exact .nil
  | blank =>
    have htext : linesText width [.blank] = [] ++ '\n' :: [] := by simp [linesText, Line.text]
    rw [htext]
    exact .line List.not_mem_nil rfl (.inl rfl) .nil
  | @plain depth content _ h =>
    have hlevel := h.isLevel hstock
    exact .code ((h.opens hstock rfl).isIndented width depth) (hlevel.scan_eq depth) hlevel.2
  | @brace depth => exact .code (Opens.isIndented (by decide) width depth) rfl (by decide)
  | @opening depth head _ h =>
    have hlevel := h.isLevel hstock
    refine .code ?_ ?_ ?_ <;> rw [String.toList_append]
    · exact ((h.opens hstock rfl).append _).isIndented width depth
    · exact scan_opening (hlevel.scan_eq depth)
    · simpa using hlevel.2
  | @closing depth _ tail _ h =>
    have hlevel := h.isLevel hstock
    refine .code ?_ ?_ ?_ <;> rw [String.toList_append]
    · exact isIndented_closing width depth _
    · exact scan_closing.trans (hlevel.scan_eq depth)
    · simpa using hlevel.2
  | @turning depth _ middle _ h =>
    have hlevel := h.isLevel hstock
    refine .code ?_ ?_ ?_ <;> rw [String.toList_append, String.toList_append, List.append_assoc]
    · exact isIndented_closing width depth _
    · exact scan_closing.trans (scan_opening (hlevel.scan_eq depth))
    · simpa using hlevel.2
  | append _ _ ihfirst ihrest =>
    rw [linesText, List.flatMap_append]
    exact ihfirst.append ihrest

/-- **Lines are indented by their nesting.** Without the banner, and if what the program mentions is
plain up to its literals, the braces of its text match, no string literal goes over a line break,
and every line that is not empty is indented by the number of braces around it, or by one less if a
brace closes at its beginning. -/
theorem renderProgram_indentedByNesting {options : Options} {body : List Node} {text : String}
    (hbanner : options.banner = false) (hspace : IsPlain options.namespaceName.toList)
    (hbody : ∀ mention ∈ mentionsList body, mention.IsPlain)
    (h : renderProgram options body = .ok text) :
    IsIndentedByNesting options.indentWidth text.toList := by
  obtain ⟨lines, hlaid, rfl⟩ := renderProgram_laidOut h
  have hstacked := hlaid.stacked ⟨hspace, hbody⟩ options.indentWidth
  rw [Assembly.banner, if_neg (by simp [hbanner]), String.empty_append, toList_join_text]
  exact hstacked.isIndentedByNesting

/-- A function with branches, whose strings hold braces, quotes and line breaks. -/
theorem renderProgram_indentedByNesting_branches :
    let loc : Location := ⟨"", none⟩
    let name (text : String) : Node := .identifier loc text
    let print (text : String) : Node :=
      .call loc (name "println") [.array loc [.literal loc (.string text)]]
    let body : List Node := [
      .functionDecl loc "main" [⟨"class", "int[]"⟩] none <| .block loc [
        .ifStmt loc (name "class") (print "\x7d \" \x7b")
          (some (.ifStmt loc (name "x") (.block loc [print "\n"]) (some (print "\\"))))]]
    let options : Options := { indentWidth := 2, banner := false }
    ∃ text, renderProgram options body = .ok text ∧ IsIndentedByNesting 2 text.toList := by
  intro loc name print body options
  have hspace : IsPlain options.namespaceName.toList := by decide
  have hbody : ∀ mention ∈ mentionsList body, mention.IsPlain := by decide +kernel
  have hok : (renderProgram options body).isOk = true := by decide +kernel
  cases h : renderProgram options body with
  | error => rw [h] at hok; cases hok
  | ok text => exact ⟨text, rfl, renderProgram_indentedByNesting rfl hspace hbody h⟩

end TreeToCpp
