/-!
# Indented text

Generated text is built line by line. A layout knows how deep the next line is indented and keeps
everything written so far; text is only ever added at the end.

## Main definitions

* `greatestTextSize` — what no text exceeds
* `Layout` — the text so far and the depth of the next line
* `Layout.line` — one indented line
* `Layout.indent`, `Layout.dedent` — one level deeper, one level back
-/

namespace TreeToCpp

/-- The greatest number of bytes that a text can have, whatever memory there is. -/
def greatestTextSize : Nat := 0x7FFFFFFFFFFFFFFF

/-- The text written so far and the depth of the next line. -/
structure Layout where
  /-- The number of spaces of one level. -/
  indentWidth : Nat
  /-- The number of levels that the next line is indented. -/
  depth : Nat
  /-- Everything written so far. -/
  text : String
  deriving DecidableEq, Repr

namespace Layout

/-- The number of spaces of one level where nothing else is asked for. -/
def defaultIndentWidth : Nat := 4

/-- A layout without text. Whether a text can hold the spaces of one level is not asked here; who
starts a layout for a user has to ask it before. -/
def empty (indentWidth : Nat) : Layout :=
  { indentWidth := indentWidth, depth := 0, text := "" }

/-- The spaces in front of the next line. -/
def margin (layout : Layout) : String :=
  String.ofList (List.replicate (layout.depth * layout.indentWidth) ' ')

/-- Adds text as it stands. -/
def write (layout : Layout) (added : String) : Layout :=
  { layout with text := layout.text ++ added }

/-- Adds the spaces in front of a line and nothing else. -/
def writeMargin (layout : Layout) : Layout :=
  layout.write layout.margin

/-- Adds one indented line. Text that holds line breaks is indented only where it begins. -/
def line (layout : Layout) (content : String) : Layout :=
  layout.write (layout.margin ++ content ++ "\n")

/-- Adds an empty line, which is not indented. -/
def blankLine (layout : Layout) : Layout :=
  layout.write "\n"

/-- Adds a documentation comment on one line. -/
def docComment (layout : Layout) (brief : String) : Layout :=
  layout.line ("/** @brief " ++ brief ++ " */")

/-- Goes one level deeper. -/
def indent (layout : Layout) : Layout :=
  { layout with depth := layout.depth + 1 }

/-- Goes one level back, but never further than the margin of the page. -/
def dedent (layout : Layout) : Layout :=
  { layout with depth := layout.depth - 1 }

@[simp] theorem text_write (layout : Layout) (added : String) :
    (layout.write added).text = layout.text ++ added := rfl

@[simp] theorem depth_write (layout : Layout) (added : String) :
    (layout.write added).depth = layout.depth := rfl

@[simp] theorem dedent_indent (layout : Layout) : layout.indent.dedent = layout := rfl

end Layout

end TreeToCpp
