import TreeToCpp.Proofs.Escaping
import TreeToCpp.Proofs.LayingOut

/-!
# Every name is spelled in its escaped form

A name is escaped wherever it is written. There are two sides to this. What a program writes does
not depend on whether its names were escaped beforehand, so no place compares or looks up a name in
another form than the one it writes. And no place writes a name in another form: the text of a
program is made of words, of operators and literals, and of escaped names, none of which C++ keeps
for itself.

The places where names are written are known one by one and in the order of the text. They are the
declarations, the types, the references and the members of the program; left out are the receiver
and the helpers of the support library, which are words, and the namespace in front of a name.

## Main results

* `renderProgram_spells_escaped_names` — the text of a program and its names
-/

namespace TreeToCpp

/-- **Every name is spelled in its escaped form.** Escaping all names of a program beforehand
changes neither its text nor the failure that it ends with. The text, behind the banner, is made of
lines of pieces in which the written names appear in order and in escaped form, and no escaped name
is a word that C++ keeps for itself. -/
theorem renderProgram_spells_escaped_names (options : Options) (body : List Node) :
    renderProgram options (body.map Node.escaped) = renderProgram options body ∧
    ∀ text, renderProgram options body = .ok text →
      ∃ lines,
        Laid (Setup.stock ⟨options, Registry.ofTopLevel body⟩ (mentionsList body)) 0 lines 0
          (Setup.writtenNames ⟨options, Registry.ofTopLevel body⟩ body) ∧
        text = Assembly.banner options ++
          String.join (lines.map (Line.text options.indentWidth 0)) ∧
        ∀ name ∈ Setup.writtenNames ⟨options, Registry.ofTopLevel body⟩ body,
          isReserved (mangle name) = false := by
  refine ⟨renderProgram_map_escaped options body, fun text htext => ?_⟩
  obtain ⟨lines, hlaid, hjoined⟩ := renderProgram_laidOut htext
  exact ⟨lines, hlaid, hjoined, fun name _ => isReserved_mangle name⟩

-- A method shows its own name, its parameter and what it refers to; the receiver has no name.
example :
    let loc : Location := ⟨"", none⟩
    let sum : Node := .binary loc "+" (.member loc (.identifier loc "self") "delete")
      (.identifier loc "new")
    let body : List Node := [.structDecl loc "union" [⟨"delete", "int"⟩]
      [.functionDecl loc "and" [⟨"self", ""⟩, ⟨"new", "union[]"⟩] (some "int")
        (.returnStmt loc (some sum))]]
    Setup.writtenNames ⟨{ docComments := false }, Registry.ofTopLevel body⟩ body =
      ["union", "delete", "and", "union", "new", "delete", "new"] := by
  decide +kernel

end TreeToCpp
