import TreeToCpp.Proofs.Mangling
import TreeToCpp.Proofs.Placement
import TreeToCpp.Proofs.Walk

/-!
# Acceptance is placement

A program is refused at some ten points that are scattered over the walk, each of which looks at one
node. Together they accept the well-placed programs and no others, and what they complain about is
a node that is at fault.

Both halves are carried by one predicate on outcomes, `Judged`: a success shows that what was
written is well placed, and a failure is the complaint about a stray node. Since a stray node spoils
what it is in, that is all there is to show. The outline has no state, and its sites and names matter
for the text alone, so the induction needs nothing but the tree.

## Main definitions

* `Judged` — an outcome says whether something is well placed, and what is at fault

## Main results

* `judged_expression` — expressions
* `Outline.judged_statement` — statements
* `Registry.hasEntryPoint_ofTopLevel` — when a call of `main` is left out
* `renderProgram_placement` — programs
-/

namespace TreeToCpp

variable {α β : Type} {valid valid' : Prop} {stray stray' : Node → Misplacement → Prop}

/-! ## Outcomes -/

/-- A success shows that something is well placed. A failure is the complaint about a node that is
at fault. -/
def Judged (outcome : Except RenderError α) (valid : Prop) (stray : Node → Misplacement → Prop) :
    Prop :=
  match outcome with
  | .ok _ => valid
  | .error error => ∃ node place, stray node place ∧ error = .misplaced node place

namespace Judged

theorem ok {a : α} (h : valid) : Judged (.ok a : Except RenderError α) valid stray :=
  h

theorem error {node : Node} {place : Misplacement} (h : stray node place) :
    Judged (.error (.misplaced node place) : Except RenderError α) valid stray :=
  ⟨node, place, h, rfl⟩

theorem imp {outcome : Except RenderError α} (h : Judged outcome valid stray)
    (hvalid : valid → valid') (hstray : ∀ node place, stray node place → stray' node place) :
    Judged outcome valid' stray' := by
  cases outcome with
  | ok => exact hvalid h
  | error =>
    obtain ⟨node, place, hnode, herror⟩ := h
    exact ⟨node, place, hstray node place hnode, herror⟩

/-- A chain of steps is judged step by step, and the first failure is the one that is reported. -/
theorem bind {outcome : Except RenderError α} {next : α → Except RenderError β}
    (h : Judged outcome valid' stray) (hnext : valid' → ∀ a, Judged (next a) valid stray) :
    Judged (outcome >>= next) valid stray := by
  cases outcome with
  | ok a => exact hnext h a
  | error => exact h

theorem map {outcome : Except RenderError α} (h : Judged outcome valid stray) (f : α → β) :
    Judged (outcome.map f) valid stray := by
  cases outcome with
  | ok => exact h
  | error => exact h

/-- A success is the sign of something well placed, as long as stray nodes spoil it. -/
theorem isOk_iff {outcome : Except RenderError α} (h : Judged outcome valid stray)
    (hspoil : ∀ node place, stray node place → ¬valid) : (∃ a, outcome = .ok a) ↔ valid := by
  cases outcome with
  | ok a => exact ⟨fun _ => h, fun _ => ⟨a, rfl⟩⟩
  | error =>
    obtain ⟨node, place, hnode, -⟩ := h
    exact ⟨nofun, fun hvalid => absurd hvalid (hspoil node place hnode)⟩

end Judged

theorem judged_requirePlace {condition : Bool} {node : Node} {place : Misplacement}
    (hvalid : condition = true → valid) (hstray : condition = false → stray node place) :
    Judged (requirePlace condition node place) valid stray := by
  cases condition with
  | true => exact hvalid rfl
  | false => exact .error (hstray rfl)

/-! ## Expressions -/

theorem isPlainValue_eq_false_iff {object : Node} :
    isPlainValue object = false ↔ HasParts object := by
  cases object <;> simp [isPlainValue, HasParts, Node.kind]

theorem isIndexable_iff {object : Node} : isIndexable object = true ↔ HasItems object := by
  cases object with
  | literal _ value =>
    cases value <;> simp [isIndexable, isPlainValue, HasItems, HasParts, Node.kind]
  | _ => simp [isIndexable, isPlainValue, HasItems, HasParts, Node.kind]

theorem judged_parts {object : Node} {place : Misplacement}
    (hstray : ¬HasParts object → stray object place) :
    Judged (requirePlace (!isPlainValue object) object place) (HasParts object) stray := by
  refine judged_requirePlace (fun h => ?_) (fun h => hstray fun hparts => ?_)
  · exact isPlainValue_eq_false_iff.mp (by simpa using h)
  · rw [isPlainValue_eq_false_iff.mpr hparts] at h
    contradiction

theorem judged_items {object : Node} {place : Misplacement}
    (hstray : ¬HasItems object → stray object place) :
    Judged (requirePlace (isIndexable object) object place) (HasItems object) stray :=
  judged_requirePlace isIndexable_iff.mp fun h => hstray fun hitems => by
    rw [isIndexable_iff.mpr hitems] at h
    contradiction

/-- The judgement of an operand, as far as the whole expression is concerned. -/
theorem Judged.operand {outcome : Except RenderError α} {part expression : Node}
    (h : Judged outcome valid (StrayInValue part)) (hpart : part ∈ expression.operands) :
    Judged outcome valid (StrayInValue expression) :=
  h.imp id fun _ _ => .operand hpart

/-- The judgement of several operands, as far as the whole expression is concerned. -/
theorem Judged.operands {outcome : Except RenderError α} {parts : List Node} {expression : Node}
    (h : Judged outcome valid fun node place => ∃ part ∈ parts, StrayInValue part node place)
    (hparts : ∀ part ∈ parts, part ∈ expression.operands) :
    Judged outcome valid (StrayInValue expression) :=
  h.imp id fun _ _ ⟨part, hmem, hstray⟩ => .operand (hparts part hmem) hstray

theorem judged_calleeText {names : Naming} {loc : Location} {callee : Node} {arguments : List Node}
    {written : Except RenderError String}
    (h : Judged written (IsValue callee) (StrayInValue callee)) :
    Judged (calleeText names callee written) (HasParts callee ∧ IsValue callee)
      (StrayInValue (.call loc callee arguments)) := by
  have hwritten : Judged written (IsValue callee) (StrayInValue (.call loc callee arguments)) :=
    h.operand List.mem_cons_self
  cases callee with
  | identifier => exact .ok ⟨by simp [HasParts, Node.kind], .identifier⟩
  | _ =>
    exact (judged_parts .callee).bind fun hparts _ =>
      hwritten.bind fun hcallee _ => .ok ⟨hparts, hcallee⟩

mutual

theorem judged_expression (names : Naming) (setting : Setting) (node : Node) :
    Judged (expression names setting node) (IsValue node) (StrayInValue node) := by
  cases node with
  | assign loc left right =>
    have hleft := judged_expression names .delimited left
    have hright := judged_expression names .delimited right
    exact (hleft.operand (by simp [Node.operands])).bind fun hleft _ =>
      (hright.operand (by simp [Node.operands])).bind fun hright _ => .ok (.assign hleft hright)
  | binary loc operator left right =>
    have hboth : ∀ setting' (write : String → String → String),
        Judged (do
          let first ← expression names setting' left
          let second ← expression names setting' right
          return write first second) (IsValue (.binary loc operator left right))
          (StrayInValue (.binary loc operator left right)) := by
      intro setting' write
      have hleft := judged_expression names setting' left
      have hright := judged_expression names setting' right
      exact (hleft.operand (by simp [Node.operands])).bind fun hleft _ =>
        (hright.operand (by simp [Node.operands])).bind fun hright _ => .ok (.binary hleft hright)
    rw [expression]
    split
    · exact hboth .delimited _
    · exact hboth .operand _
  | unary loc operator argument =>
    have hargument := judged_expression names .delimited argument
    exact (hargument.operand (by simp [Node.operands])).bind fun hargument _ =>
      .ok (.unary hargument)
  | call loc callee arguments =>
    have hcallee := judged_expression names .delimited callee
    have harguments := judged_expressions names arguments
    exact (judged_calleeText hcallee).bind fun ⟨hparts, hcallee⟩ _ =>
      (harguments.operands fun _ => List.mem_cons_of_mem _).bind fun harguments _ =>
        .ok (.call hparts hcallee harguments)
  | member loc object property =>
    have hobject := judged_expression names .delimited object
    exact (judged_parts .member).bind fun hparts _ =>
      (hobject.operand (by simp [Node.operands])).bind fun hobject _ => .ok (.member hparts hobject)
  | index loc object position =>
    have hobject := judged_expression names .delimited object
    have hposition := judged_expression names .delimited position
    exact (judged_items .index).bind fun hitems _ =>
      (hobject.operand (by simp [Node.operands])).bind fun hobject _ =>
        (hposition.operand (by simp [Node.operands])).bind fun hposition _ =>
          .ok (.index hitems hobject hposition)
  | slice loc object lower upper =>
    have hobject := judged_expression names .delimited object
    have hlower := judged_expression? names lower
    have hupper := judged_expression? names upper
    exact (judged_parts .slice).bind fun hparts _ =>
      (hobject.operand (by simp [Node.operands])).bind fun hobject _ =>
        (hlower.operands (by simp +contextual [Node.operands])).bind fun hlower _ =>
          (hupper.operands (by simp +contextual [Node.operands])).bind fun hupper _ =>
            .ok (.slice hparts hobject hlower hupper)
  | literal => exact .ok .literal
  | identifier => exact .ok .identifier
  | array loc elements =>
    have helements := judged_expressions names elements
    exact (helements.operands (by simp [Node.operands])).bind fun helements _ =>
      .ok (.array helements)
  | _ => exact ⟨_, _, .notAValue rfl, rfl⟩
termination_by (sizeOf node, 0)

theorem judged_expressions (names : Naming) (nodes : List Node) :
    Judged (expressions names nodes) (∀ node ∈ nodes, IsValue node)
      (fun node place => ∃ part ∈ nodes, StrayInValue part node place) := by
  cases nodes with
  | nil => exact .ok (by simp)
  | cons first rest =>
    have hfirst := judged_expression names .delimited first
    have hrest := judged_expressions names rest
    refine (hfirst.imp id fun _ _ hstray => ⟨first, List.mem_cons_self, hstray⟩).bind
      fun hfirst _ => ?_
    refine (hrest.imp id fun _ _ ⟨part, hmem, hstray⟩ =>
      ⟨part, List.mem_cons_of_mem _ hmem, hstray⟩).bind fun hrest _ => ?_
    exact .ok (List.forall_mem_cons.mpr ⟨hfirst, hrest⟩)
termination_by (sizeOf nodes, 0)

theorem judged_expression? (names : Naming) (node? : Option Node) :
    Judged (expression? names node?) (∀ node ∈ node?, IsValue node)
      (fun node place => ∃ part ∈ node?.toList, StrayInValue part node place) := by
  cases node? with
  | none => exact .ok nofun
  | some node =>
    have hnode := judged_expression names .delimited node
    exact (hnode.imp id fun _ _ hstray => ⟨node, by simp, hstray⟩).bind fun hnode _ =>
      .ok (by simpa using hnode)
termination_by (sizeOf node?, 0)

end

theorem exists_text_of_isValue {node : Node} (h : IsValue node) (names : Naming)
    (setting : Setting) : ∃ text, expression names setting node = .ok text :=
  ((judged_expression names setting node).isOk_iff fun _ _ => StrayInValue.not_isValue).mpr h

/-! ## Written lines -/

namespace Judged

theorem append {first rest : Written} (h : Judged first.outcome valid' stray)
    (hrest : valid' → Judged rest.outcome valid stray) :
    Judged (first ++ rest).outcome valid stray := by
  cases hfirst : first.outcome with
  | ok =>
    rw [hfirst] at h
    rw [Written.append_of_ok hfirst]
    exact hrest h
  | error =>
    rw [hfirst] at h
    rw [Written.append_of_error hfirst, hfirst]
    exact h

/-- Lines that never fail are judged by what stands behind them. -/
theorem of_ok_append {first rest : Written} (hfirst : first.outcome = .ok ())
    (h : Judged rest.outcome valid stray) : Judged (first ++ rest).outcome valid stray := by
  rw [Written.append_of_ok hfirst]
  exact h

/-- Lines that never fail do not change a judgement. -/
theorem append_ok {first rest : Written} (h : Judged first.outcome valid stray)
    (hrest : rest.outcome = .ok ()) : Judged (first ++ rest).outcome valid stray :=
  h.append fun hvalid => by rw [hrest]; exact hvalid

theorem deeper {written : Written} (h : Judged written.outcome valid stray) :
    Judged written.deeper.outcome valid stray :=
  h

theorem withText {text : Except RenderError String} {write : String → Written}
    (h : Judged text valid' stray) (hwrite : valid' → ∀ content,
      Judged (write content).outcome valid stray) :
    Judged (Written.withText text write).outcome valid stray := by
  cases text with
  | ok content => exact hwrite h content
  | error => exact h

theorem each {write : α → Written} {items : List α} {validItem : α → Prop}
    (h : ∀ item ∈ items, Judged (write item).outcome (validItem item) stray) :
    Judged (Written.each write items).outcome (∀ item ∈ items, validItem item) stray := by
  induction items with
  | nil => exact .ok (by simp)
  | cons first rest ih =>
    rw [List.forall_mem_cons] at h
    exact h.1.append fun hfirst => (ih h.2).imp
      (fun hrest => List.forall_mem_cons.mpr ⟨hfirst, hrest⟩) fun _ _ hstray => hstray

end Judged

namespace Outline

variable (setup : Setup) (names : Site → Naming)

/-! ## Statements -/

theorem judged_text (site : Site) (node : Node) :
    Judged (text names site node) (IsValue node) (StrayInValue node) :=
  judged_expression (names site) .delimited node

theorem judged_text? (site : Site) (node? : Option Node) :
    Judged (text? names site node?) (∀ node ∈ node?, IsValue node)
      (fun node place => ∃ expression ∈ node?.toList, StrayInValue expression node place) := by
  cases node? with
  | none => exact .ok nofun
  | some node =>
    exact (judged_text names site node).imp (by simp) (by simp)

theorem judged_variableText (site : Site) (name : String) (type : Option String)
    (isConstant : Bool) (value : Option Node) :
    Judged (variableText setup names site name type isConstant value) (∀ node ∈ value, IsValue node)
      (fun node place => ∃ expression ∈ value.toList, StrayInValue expression node place) := by
  cases value with
  | none => exact .ok nofun
  | some node =>
    exact ((judged_text names (site.declare name) node).map _).imp (by simp) (by simp)

end Outline

section

variable {outcome : Except RenderError α} {part statement : Node} {parts : List Node}

/-- The judgement of an expression, as far as the statement around it is concerned. -/
theorem Judged.value (h : Judged outcome valid (StrayInValue part))
    (hpart : part ∈ statement.values) : Judged outcome valid (StrayInStatement statement) :=
  h.imp id fun _ _ => .value hpart

/-- The judgement of several expressions, as far as the statement around them is concerned. -/
theorem Judged.values
    (h : Judged outcome valid fun node place => ∃ part ∈ parts, StrayInValue part node place)
    (hparts : ∀ part ∈ parts, part ∈ statement.values) :
    Judged outcome valid (StrayInStatement statement) :=
  h.imp id fun _ _ ⟨part, hmem, hstray⟩ => .value (hparts part hmem) hstray

/-- The judgement of a statement, as far as the statement around it is concerned. -/
theorem Judged.body (h : Judged outcome valid (StrayInStatement part))
    (hpart : part ∈ statement.bodies) : Judged outcome valid (StrayInStatement statement) :=
  h.imp id fun _ _ => .body hpart

/-- The judgement of several statements, as far as the statement around them is concerned. -/
theorem Judged.bodies
    (h : Judged outcome valid fun node place => ∃ part ∈ parts, StrayInStatement part node place)
    (hparts : ∀ part ∈ parts, part ∈ statement.bodies) :
    Judged outcome valid (StrayInStatement statement) :=
  h.imp id fun _ _ ⟨part, hmem, hstray⟩ => .body (hparts part hmem) hstray

end

namespace Outline

variable (setup : Setup) (names : Site → Naming)

theorem judged_loopStart (site : Site) (loc : Location) (start test update : Option Node)
    (body : Node) :
    Judged (loopStart setup names site start) (∀ node ∈ start, IsLoopStart node)
      (StrayInStatement (.forStmt loc start test update body)) := by
  cases start with
  | none => exact .ok nofun
  | some node =>
    cases node with
    | variableDecl loc' name type isConstant value =>
      have hvalue := judged_variableText setup names site name type isConstant value
      exact (hvalue.values (by simp +contextual [Node.values, Node.startValues])).imp
        (fun hvalue => by simpa using IsLoopStart.variableDecl hvalue) fun _ _ => id
    | exprStmt _ expression =>
      have hvalue := judged_text names site expression
      exact (hvalue.value (by simp [Node.values, Node.startValues])).imp
        (fun hvalue => by simpa using IsLoopStart.exprStmt hvalue) fun _ _ => id
    | assign | binary | unary | call | member | index | slice | literal | identifier | array =>
      refine .imp (.value (judged_text names site _) ?_)
        (fun hvalue => by simpa using IsLoopStart.value hvalue) fun _ _ => id
      simp [Node.values, Node.startValues, Node.kind, Kind.isExpression]
    | _ => exact .error (.loopStart (by simp [Node.kind]) (by simp [Node.kind]) rfl)

theorem judged_expressionLine (site : Site) (node : Node) :
    Judged (expressionLine names site node).outcome (IsValue node) (StrayInValue node) :=
  (judged_text names site node).withText fun hvalue _ => .ok hvalue

/-- A test with its branch and what stands behind it, at the beginning or inside of a chain. -/
theorem judged_branch (site : Site) {loc : Location} {test consequent : Node}
    {otherwise : Option Node} {branch rest : Written} (head : String → String)
    (hbranch : Judged branch.outcome (IsStatement consequent) (StrayInStatement consequent))
    (hrest : Judged rest.outcome (∀ node ∈ otherwise, IsStatement node)
      (fun node place => ∃ part ∈ otherwise.toList, StrayInStatement part node place)) :
    Judged (Written.withText (text names site test) fun test =>
      opening (head test) ++ branch.deeper ++ rest).outcome
      (IsStatement (.ifStmt loc test consequent otherwise))
      (StrayInStatement (.ifStmt loc test consequent otherwise)) := by
  have htest := judged_text names site test
  refine (htest.value (by simp [Node.values])).withText fun htest _ => ?_
  rw [Written.append_assoc]
  refine .of_ok_append rfl ((hbranch.deeper.body (by simp [Node.bodies])).append
    fun hconsequent => ?_)
  exact (hrest.bodies (by simp +contextual [Node.bodies])).imp
    (fun hotherwise => .ifStmt htest hconsequent hotherwise) fun _ _ => id

mutual

theorem judged_statement (site : Site) (braced : Bool) (node : Node) :
    Judged (statement setup names site braced node).outcome (IsStatement node)
      (StrayInStatement node) := by
  cases node with
  | variableDecl _ name type isConstant value =>
    have hvalue := judged_variableText setup names site name type isConstant value
    rw [statement]
    exact (hvalue.values (by simp [Node.values])).withText fun hvalue _ =>
      .ok (.variableDecl hvalue)
  | block loc body =>
    have hbody : ∀ site, Judged (statements setup names site body).outcome
        (IsStatement (.block loc body)) (StrayInStatement (.block loc body)) := fun site =>
      ((judged_statements site body).bodies (by simp [Node.bodies])).imp .block fun _ _ => id
    rw [statement]
    split
    next => exact .append_ok (.of_ok_append rfl (hbody site.enter).deeper) rfl
    next => exact hbody site
  | exprStmt _ expression =>
    have hvalue := judged_expressionLine names site expression
    rw [statement]
    exact (hvalue.value (by simp [Node.values])).imp .exprStmt fun _ _ => id
  | ifStmt _ test consequent otherwise =>
    have hconsequent := judged_statement site.enter false consequent
    have hotherwise := judged_alternate site otherwise
    rw [statement]
    exact judged_branch names site _ hconsequent hotherwise
  | whileStmt _ test body =>
    have htest := judged_text names site test
    have hbody := (judged_statement site.enter false body).deeper
    rw [statement]
    refine (htest.value (by simp [Node.values])).withText fun htest _ => ?_
    refine .append_ok (.of_ok_append rfl ?_) rfl
    exact (hbody.body (by simp [Node.bodies])).imp (fun hbody => .whileStmt htest hbody)
      fun _ _ => id
  | forStmt loc start test update body =>
    have hstart := judged_loopStart setup names site.enter loc start test update body
    have htest := judged_text? names (site.enter.afterStart start) test
    have hupdate := judged_text? names (site.enter.afterStart start) update
    have hbody := (judged_statement (site.enter.afterStart start).enter false body).deeper
    rw [statement]
    refine hstart.withText fun hstart _ => ?_
    refine (htest.values (by simp +contextual [Node.values])).withText fun htest _ => ?_
    refine (hupdate.values (by simp +contextual [Node.values])).withText fun hupdate _ => ?_
    refine .append_ok (.of_ok_append rfl ?_) rfl
    exact (hbody.body (by simp [Node.bodies])).imp
      (fun hbody => .forStmt hstart htest hupdate hbody) fun _ _ => id
  | returnStmt _ argument =>
    cases argument with
    | none => exact .ok (.returnStmt nofun)
    | some node =>
      have hvalue := judged_text names site node
      rw [statement]
      exact (hvalue.value (by simp [Node.values])).withText fun hvalue _ =>
        .ok (.returnStmt (by simpa using hvalue))
  | breakStmt => exact .ok .breakStmt
  | continueStmt => exact .ok .continueStmt
  | functionDecl => exact .error (.functionDecl rfl)
  | structDecl => exact .error (.structDecl rfl)
  | importDecl => exact .error (.importDecl rfl)
  | program => exact .error (.program rfl)
  | assign | binary | unary | call | member | index | slice | literal | identifier | array =>
    refine .imp (.value (judged_expressionLine names site _) ?_) .value fun _ _ => id
    simp [Node.values, Node.kind, Kind.isExpression]
termination_by (sizeOf node, 0)

theorem judged_statements (site : Site) (body : List Node) :
    Judged (statements setup names site body).outcome (∀ node ∈ body, IsStatement node)
      (fun node place => ∃ part ∈ body, StrayInStatement part node place) := by
  cases body with
  | nil => exact .ok (by simp)
  | cons first rest =>
    have hfirst := judged_statement site true first
    have hrest := judged_statements (site.after first) rest
    rw [statements]
    refine (hfirst.imp id fun _ _ hstray => ⟨first, List.mem_cons_self, hstray⟩).append
      fun hfirst => ?_
    exact hrest.imp (fun hrest => List.forall_mem_cons.mpr ⟨hfirst, hrest⟩)
      fun _ _ ⟨part, hmem, hstray⟩ => ⟨part, List.mem_cons_of_mem _ hmem, hstray⟩
termination_by (sizeOf body, 0)

theorem judged_alternate (site : Site) (otherwise : Option Node) :
    Judged (alternate setup names site otherwise).outcome (∀ node ∈ otherwise, IsStatement node)
      (fun node place => ∃ part ∈ otherwise.toList, StrayInStatement part node place) := by
  cases otherwise with
  | none => exact .ok nofun
  | some node =>
    have hnode : Judged (alternate setup names site (some node)).outcome (IsStatement node)
        (StrayInStatement node) := by
      have hbranch := (judged_statement site.enter false node).deeper
      cases node with
      | ifStmt _ test consequent otherwise =>
        have hconsequent := judged_statement site.enter false consequent
        have hotherwise := judged_alternate site otherwise
        rw [alternate]
        exact judged_branch names site _ hconsequent hotherwise
      | _ => exact .append_ok (.of_ok_append rfl hbranch) rfl
    exact hnode.imp (by simp) (by simp)
termination_by (sizeOf otherwise, 0)

end

end Outline

/-! ## When a call of `main` is left out

No name but `main` itself is written `main`, since an escaped name ends in an underscore. So the
registry knows `main` under its own name. -/

namespace Registry

theorem lookup_entryPointName (names : List (String × SymbolKind)) :
    (names.map fun (name, kind) => (mangle name, kind)).lookup entryPointName =
      names.lookup entryPointName := by
  induction names with
  | nil => rfl
  | cons entry rest ih =>
    obtain ⟨name, kind⟩ := entry
    have hname : (entryPointName == mangle name) = (entryPointName == name) := by
      rw [Bool.eq_iff_iff, beq_iff_eq, beq_iff_eq, eq_comm, mangle_eq_entryPointName_iff, eq_comm]
    rw [List.map_cons, List.lookup_cons, List.lookup_cons, hname, ih]

theorem hasEntryPoint_ofTopLevel (body : List Node) :
    (ofTopLevel body).hasEntryPoint = true ↔ MainIsFunction body := by
  have hmain : mangle entryPointName = entryPointName := mangle_eq_entryPointName_iff.mpr rfl
  rw [hasEntryPoint, ofTopLevel, MainIsFunction]
  rw [hmain, kindOf_registerAll, kindOf_empty, Option.none_or, lookup_entryPointName, beq_iff_eq]
  rfl

end Registry

theorem isEntryCall_iff {node : Node} :
    isEntryCall node = true ↔
      ∃ loc loc' arguments, node = .call loc (.identifier loc' entryPointName) arguments := by
  constructor
  · intro h
    simp only [isEntryCall] at h
    split at h
    next loc loc' name arguments =>
      rw [beq_iff_eq] at h
      exact ⟨loc, loc', arguments, by rw [h]⟩
    next => contradiction
  · rintro ⟨loc, loc', arguments, rfl⟩
    rfl

theorem isEntryStatement_iff {node : Node} : isEntryStatement node = true ↔ IsMainCall node := by
  constructor
  · intro h
    simp only [isEntryStatement] at h
    split at h
    next =>
      obtain ⟨loc, loc', arguments, rfl⟩ := isEntryCall_iff.mp h
      exact .exprStmt
    next =>
      obtain ⟨loc, loc', arguments, rfl⟩ := isEntryCall_iff.mp h
      exact .call
  · rintro (_ | _) <;> rfl

theorem isDeclaration_eq_false_iff {node : Node} : isDeclaration node = false ↔ IsFree node := by
  cases node <;> simp [isDeclaration, IsFree, Node.kind]

namespace Outline

variable (setup : Setup) (names : Site → Naming)

/-! ## Declarations -/

theorem judged_functionDecl (site : Site) (name : String) (params : List TypedName)
    (returnType : Option String) (body : Node) :
    Judged (functionDecl setup names site name params returnType body).outcome (IsStatement body)
      (StrayInStatement body) := by
  have hcomment : (Written.blank ++ functionComment setup name).outcome = .ok () := by
    rw [functionComment]
    split <;> rfl
  have hbody := judged_statement setup names (paramsSite site params).enter false body
  rw [functionDecl, functionBody]
  exact .of_ok_append hcomment (.append_ok (.of_ok_append rfl hbody.deeper) rfl)

variable {body : List Node} {node : Node}

theorem judged_method (site : Site) {loc : Location} {name : String} {fields : List TypedName}
    {methods : List Node} (hitem : .structDecl loc name fields methods ∈ body)
    (hmethod : node ∈ methods) :
    Judged (method setup names site node).outcome (IsMethod node) (Stray body) := by
  cases node with
  | functionDecl _ name params returnType fbody =>
    exact (judged_functionDecl setup names site name params returnType fbody).imp
      .functionDecl fun _ _ => .methodBody hitem hmethod
  | _ => exact .error (.method hitem hmethod (by simp [Node.kind]))

theorem outcome_each_of_ok {write : α → Written} (h : ∀ item, (write item).outcome = .ok ())
    (items : List α) : (Written.each write items).outcome = .ok () := by
  induction items with
  | nil => rfl
  | cons item rest ih => rw [Written.each, Written.append_of_ok (h item), ih]

theorem judged_structDecl (site : Site) {loc : Location} {name : String} {fields : List TypedName}
    {methods : List Node} (hitem : .structDecl loc name fields methods ∈ body) :
    Judged (structDecl setup names site name fields methods).outcome
      (∀ node ∈ methods, IsMethod node) (Stray body) := by
  have hfields : (Written.each (fun entry => terminated (Render.typedNameText setup entry))
      fields).outcome = .ok () := outcome_each_of_ok (fun _ => rfl) fields
  have hmethods : Judged (Written.each (method setup names site) methods).outcome
      (∀ node ∈ methods, IsMethod node) (Stray body) :=
    .each fun _ hmethod => judged_method setup names site hitem hmethod
  rw [structDecl]
  exact .append_ok (.of_ok_append rfl (Judged.of_ok_append hfields hmethods).deeper) rfl

/-! ## The file -/

/-- Declarations are judged where they are written, in the namespace. -/
theorem judged_namespaceItem (hitem : node ∈ body) :
    Judged (namespaceItem setup names node).outcome (¬IsFree node → IsItem body node)
      (Stray body) := by
  cases node with
  | functionDecl _ name params returnType fbody =>
    exact (judged_functionDecl setup names namespaceSite name params returnType fbody).imp
      (fun hbody _ => .functionDecl hbody) fun _ _ => .functionDecl hitem
  | structDecl =>
    exact (judged_structDecl setup names namespaceSite hitem).imp
      (fun hmethods _ => .structDecl hmethods) fun _ _ => id
  | variableDecl _ name type isConstant value =>
    have hvalue := judged_variableText setup names namespaceSite name type isConstant value
    refine .withText (hvalue.imp id fun _ _ ⟨expression, hmem, hstray⟩ => ?_) fun hvalue _ =>
      .ok fun _ => .variableDecl hvalue
    obtain rfl : value = some expression := Option.mem_toList.mp hmem
    exact .variableDecl hitem hstray
  | importDecl => exact .ok fun _ => .importDecl
  | _ => exact .ok fun hfree => absurd (by simp [IsFree, Node.kind]) hfree

/-- Everything else is judged in the entry point. -/
theorem judged_entryItem (hregistry : setup.registry = Registry.ofTopLevel body)
    (hitem : node ∈ body) :
    Judged (entryItem setup names node).outcome (IsFree node → IsItem body node) (Stray body) := by
  have hmain := Registry.hasEntryPoint_ofTopLevel body
  rw [← hregistry] at hmain
  rw [entryItem]
  split
  next hskipped =>
    rw [Bool.or_eq_true, Bool.and_eq_true, hmain, isEntryStatement_iff] at hskipped
    refine .ok fun hfree => ?_
    rcases hskipped with hdeclaration | ⟨hmain, hcall⟩
    · rw [isDeclaration_eq_false_iff.mpr hfree] at hdeclaration
      contradiction
    · exact .mainCall hmain hcall
  next hwritten =>
    rw [Bool.or_eq_true, Bool.and_eq_true, hmain, isEntryStatement_iff, not_or,
      Bool.not_eq_true, isDeclaration_eq_false_iff] at hwritten
    obtain ⟨hfree, hskipped⟩ := hwritten
    exact (judged_statement setup names entrySite true node).imp (fun hnode _ => .statement hnode)
      fun _ _ => .statement hitem hfree hskipped

theorem outcome_prologue (body : List Node) : (prologue setup body).outcome = .ok () := by
  have hbanner : (if setup.options.banner then Written.each .code bannerLines ++ .blank
      else .nothing).outcome = .ok () := by
    split <;> rfl
  have hheaders : ∀ headers, (Written.each includeLine headers).outcome = .ok () :=
    outcome_each_of_ok fun _ => rfl
  have hmodules : ∀ paths, (Written.each (fun path => includeLine
      (Render.quotedHeader (path ++ SupportLibrary.headerExtension))) paths).outcome = .ok () :=
    outcome_each_of_ok fun _ => rfl
  rw [prologue]
  simp only [Written.append_assoc]
  rw [Written.append_of_ok hbanner, Written.append_of_ok rfl, Written.append_of_ok (hheaders _),
    Written.append_of_ok (hmodules _)]
  rfl

theorem judged_namespacePart :
    Judged (namespacePart setup names body).outcome (∀ node ∈ body, ¬IsFree node → IsItem body node)
      (Stray body) := by
  have hitems : Judged (Written.each (namespaceItem setup names) body).outcome
      (∀ node ∈ body, ¬IsFree node → IsItem body node) (Stray body) :=
    .each fun _ hitem => judged_namespaceItem setup names hitem
  rw [namespacePart]
  exact .append_ok (.append_ok (.append_ok (.of_ok_append rfl hitems.deeper) rfl) rfl) rfl

theorem judged_entryPoint (hregistry : setup.registry = Registry.ofTopLevel body) :
    Judged (entryPoint setup names body).outcome (∀ node ∈ body, IsFree node → IsItem body node)
      (Stray body) := by
  have hitems : Judged (Written.each (entryItem setup names) body).outcome
      (∀ node ∈ body, IsFree node → IsItem body node) (Stray body) :=
    .each fun _ hitem => judged_entryItem setup names hregistry hitem
  have hcall : (entryCall setup).outcome = .ok () := by
    rw [entryCall]
    split <;> rfl
  have htried : Judged (Written.each (entryItem setup names) body ++ entryCall setup ++
      .code "return 0;").outcome (∀ node ∈ body, IsFree node → IsItem body node) (Stray body) :=
    (hitems.append_ok hcall).append_ok rfl
  rw [entryPoint]
  refine .append_ok (.of_ok_append rfl (.deeper ?_)) rfl
  exact .append_ok (.append_ok (.append_ok (.of_ok_append rfl htried.deeper) rfl) rfl) rfl

theorem judged_sourceFile (hregistry : setup.registry = Registry.ofTopLevel body) :
    Judged (sourceFile setup names body).outcome (WellPlaced body) (Stray body) := by
  have hentry := judged_entryPoint setup names hregistry
  rw [sourceFile]
  refine .append (.of_ok_append (outcome_prologue setup body) (judged_namespacePart setup names))
    fun hbound => hentry.imp (fun hfree => ?_) fun _ _ => id
  intro node hitem
  by_cases h : IsFree node
  · exact hfree node hitem h
  · exact hbound node hitem h

end Outline

/-- **Acceptance is placement.** Exactly the well-placed programs have a text. When there is none,
the error is the complaint about a node that is at fault; and a well-placed program has no such
node. -/
theorem renderProgram_placement (options : Options) (body : List Node) :
    ((∃ text, renderProgram options body = .ok text) ↔ WellPlaced body) ∧
      (∀ error, renderProgram options body = .error error →
        ∃ node place, Stray body node place ∧ error = .misplaced node place) ∧
      ∀ node place, Stray body node place → ¬WellPlaced body := by
  have hjudged : Judged (renderProgram options body) (WellPlaced body) (Stray body) := by
    rw [renderProgram_eq_text]
    exact (Outline.judged_sourceFile _ _ rfl).map _
  refine ⟨hjudged.isOk_iff fun _ _ => Stray.not_wellPlaced, ?_, fun _ _ => Stray.not_wellPlaced⟩
  intro error herror
  rw [herror] at hjudged
  exact hjudged

end TreeToCpp
