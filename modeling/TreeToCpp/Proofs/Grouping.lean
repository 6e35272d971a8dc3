import TreeToCpp.Proofs.Acceptance
import TreeToCpp.Proofs.Outcome

/-!
# Where parentheses are missing

A binary expression puts itself in parentheses where it is an operand of another one. No other
expression does, and the argument of a unary operator, the sides of an assignment and the bounds of
a slice are no operands in this sense. So the text may group an expression in another way than the
tree does. This file says when it does.

* A unary operator in front of a binary expression is read as applying to the left operand only,
  unless a parenthesis happens to stand where it is needed or happens to be missing on the other
  side: behind a sign that would run together with the argument, or around a left operand that is a
  binary expression itself.
* An assignment that is a left operand is read as assigning the whole binary expression, unless its
  value is a binary expression.
* A bound of a slice is added to the beginning of the object as it stands, so a bound that is a
  binary expression or an assignment lacks its parentheses in every case.

In each case two different trees, or two texts for one tree, are compared, and the comparison comes
down to the few characters by which the texts can differ.

## Main definitions

* `Node.isGrouped`, `operandText` — expressions that put themselves in parentheses
* `Node.bindsLoosely`, `groupedSlice` — bounds that need parentheses, and slices that have them

## Main results

* `unaryText_append_eq_iff` — an operator in front of an operand, and in front of the whole
* `unary_binary_text` — unary operators
* `assign_slice_text` — assignments as operands, and bounds of slices
-/

namespace TreeToCpp

/-! ## Operands -/

/-- A binary expression puts itself in parentheses as an operand. The remainder is written as a call
and needs none. -/
def Node.isGrouped : Node → Bool
  | .binary _ operator _ _ => operator != remainderOperator
  | _ => false

/-- An operand, made of the text that stands where no parentheses are needed. -/
def operandText (node : Node) (text : String) : String :=
  if node.isGrouped then parenthesized text else text

variable {names : Naming} {node : Node} {text : String}

theorem expression_operand (h : expression names .delimited node = .ok text) :
    expression names .operand node = .ok (operandText node text) := by
  cases node with
  | binary loc operator left right =>
    by_cases hremainder : operator = remainderOperator
    · simpa [operandText, Node.isGrouped, expression, hremainder] using h
    · rw [expression, if_neg hremainder] at h ⊢
      obtain ⟨first, hfirst, hmore⟩ := bind_eq_ok_iff.mp h
      obtain ⟨second, hsecond, htext⟩ := bind_eq_ok_iff.mp hmore
      obtain rfl := pure_eq_ok_iff.mp htext
      simp [hfirst, hsecond, operandText, Node.isGrouped, hremainder, binaryText]
      rfl
  | _ => exact h

/-! ## Unary operators -/

/-- What follows an argument behind a blank does not run together with an operator before it. -/
theorem runsTogether_append_blank (operator argument rest : String) :
    runsTogether operator (argument ++ " " ++ rest) = runsTogether operator argument := by
  simp only [runsTogether, String.toList_append]
  cases argument.toList with
  | cons c cs => rfl
  | nil =>
    cases operator.toList.getLast? with
    | none => rfl
    | some last => by_cases h : last = ' ' <;> simp [h]

theorem runsTogether_parenthesized (operator argument : String) :
    runsTogether operator (parenthesized argument) = false := by
  simp only [runsTogether, parenthesized, String.toList_append]
  cases operator.toList.getLast? with
  | none => rfl
  | some last => by_cases h : last = '(' <;> simp [h]

theorem parenthesized_append_ne (text rest : String) :
    parenthesized (text ++ " " ++ rest) ≠ parenthesized text ++ " " ++ rest := by
  simp [← String.toList_inj, parenthesized]

theorem length_parenthesized (text : String) : (parenthesized text).length = text.length + 2 := by
  simp only [parenthesized, String.length_append, show "(".length = 1 from rfl,
    show ")".length = 1 from rfl]
  omega

theorem parenthesized_append_ne_self (text rest : String) :
    parenthesized text ++ rest ≠ text ++ rest := by
  intro h
  have hlength := congrArg String.length h
  simp only [String.length_append, length_parenthesized] at hlength
  omega

/-- **An operator in front of an operand, and in front of the whole.** The texts are the same if
both have parentheses around the operand, for one reason or the other, or none has. -/
theorem unaryText_append_eq_iff {operator : String} (h : operator ≠ addressOperator)
    (node : Node) (text rest : String) :
    unaryText operator (operandText node text ++ " " ++ rest) =
        unaryText operator text ++ " " ++ rest ↔
      node.isGrouped = runsTogether operator text := by
  have hunary : ∀ argument, unaryText operator argument =
      operator ++ if runsTogether operator argument then parenthesized argument else argument := by
    intro argument
    by_cases hruns : runsTogether operator argument <;> simp [unaryText, h, hruns]
  rw [hunary, hunary, operandText, @String.append_assoc operator, @String.append_assoc operator,
    String.append_right_inj, runsTogether_append_blank]
  cases node.isGrouped with
  | true =>
    rw [if_pos rfl, runsTogether_parenthesized, if_neg Bool.false_ne_true]
    cases runsTogether operator text with
    | true => simp
    | false => simpa [String.append_assoc] using parenthesized_append_ne_self text (" " ++ rest)
  | false =>
    rw [if_neg Bool.false_ne_true]
    cases runsTogether operator text with
    | true => simpa using parenthesized_append_ne text rest
    | false => simp

/-- The operators other than `&` that stand in front of their argument. -/
def signs : List String := ["!", "-", "+", "~", "*"]

theorem unaryText_ne_parenthesized {sign : String} (h : sign ∈ signs) (argument text : String) :
    unaryText sign argument ≠ parenthesized text := by
  have hfront : ∃ rest, unaryText sign argument = sign ++ rest := by
    rw [unaryText]
    split <;> exact ⟨_, rfl⟩
  obtain ⟨rest, hrest⟩ := hfront
  rw [hrest, parenthesized, String.append_assoc]
  intro heq
  have hhead := congrArg (·.toList.head?) heq
  simp only [signs, List.mem_cons, List.not_mem_nil, or_false] at h
  rcases h with rfl | rfl | rfl | rfl | rfl <;> simp at hhead

theorem expression_unary (loc : Location) (operator : String)
    (h : expression names .delimited node = .ok text) (setting : Setting) :
    expression names setting (.unary loc operator node) = .ok (unaryText operator text) := by
  rw [expression, h]
  rfl

theorem expression_binary (loc : Location) {operator : String} {left right : Node}
    {first second : String} (hoperator : operator ≠ remainderOperator)
    (hleft : expression names .operand left = .ok first)
    (hright : expression names .operand right = .ok second) (setting : Setting) :
    expression names setting (.binary loc operator left right) =
      .ok (binaryText setting operator first second) := by
  rw [expression, if_neg hoperator, hleft, hright]
  rfl

/-- **A unary operator in front of a binary expression, and in front of its left operand.** Where no
parentheses are needed around them, the two texts differ if either the operand puts itself in
parentheses or its sign runs together with the operator, but not if both or none of this is so. As
operands they differ, since only the second one is in parentheses. -/
theorem unary_binary_text (names : Naming) (loc loc' : Location) {sign operator : String}
    {left right : Node} (hsign : sign ∈ signs) (hoperator : operator ≠ remainderOperator)
    (hleft : IsValue left) (hright : IsValue right) :
    ∃ argument whole part : String,
      expression names .delimited left = .ok argument ∧
      (∀ setting, expression names setting (.unary loc sign (.binary loc' operator left right)) =
        .ok whole) ∧
      expression names .delimited (.binary loc' operator (.unary loc sign left) right) =
        .ok part ∧
      expression names .operand (.binary loc' operator (.unary loc sign left) right) =
        .ok (parenthesized part) ∧
      (whole ≠ part ↔ left.isGrouped ≠ runsTogether sign argument) ∧
      whole ≠ parenthesized part := by
  obtain ⟨argument, hargument⟩ := exists_text_of_isValue hleft names .delimited
  obtain ⟨second, hsecond⟩ := exists_text_of_isValue hright names .operand
  have hwhole := expression_binary loc' hoperator (expression_operand hargument) hsecond
  have hpart := expression_binary loc' hoperator (expression_unary loc sign hargument .operand)
    hsecond
  have haddress : sign ≠ addressOperator := by
    rintro rfl
    exact absurd hsign (by decide)
  refine ⟨argument, _, _, hargument, expression_unary loc sign (hwhole .delimited),
    hpart .delimited, hpart .operand, ?_, unaryText_ne_parenthesized hsign _ _⟩
  simpa only [binaryText, String.append_assoc] using
    not_congr (unaryText_append_eq_iff haddress left argument (operator ++ " " ++ second))

/-- The negation of a conjunction looks like a conjunction with a negation to its left. -/
theorem negated_conjunction_text :
    let v : Visibility :=
      { registry := .empty, namespaceName := "app", scopes := .empty, region := .function }
    let loc : Location := ⟨"", none⟩
    let a : Node := .identifier loc "a"
    let b : Node := .identifier loc "b"
    "!" ∈ signs ∧ "&&" ≠ remainderOperator ∧ IsValue a ∧ IsValue b ∧
      expression v.naming .delimited (.unary loc "!" (.binary loc "&&" a b)) = .ok "!a && b" ∧
      expression v.naming .delimited (.binary loc "&&" (.unary loc "!" a) b) = .ok "!a && b" :=
  ⟨by decide, by decide, .identifier, .identifier, rfl, rfl⟩

/-- Two signs that would run together give the negation of a sum its parentheses. -/
theorem negated_sum_text :
    let v : Visibility :=
      { registry := .empty, namespaceName := "app", scopes := .empty, region := .function }
    let loc : Location := ⟨"", none⟩
    let left : Node := .unary loc "-" (.identifier loc "x")
    let right : Node := .binary loc "*" (.identifier loc "y") (.identifier loc "z")
    "-" ∈ signs ∧ "+" ≠ remainderOperator ∧ IsValue left ∧ IsValue right ∧
      ∃ whole part : String,
        (∀ setting, expression v.naming setting (.unary loc "-" (.binary loc "+" left right)) =
          .ok whole) ∧
        expression v.naming .delimited (.binary loc "+" (.unary loc "-" left) right) = .ok part ∧
        whole ≠ part ∧ whole ≠ parenthesized part := by
  intro v loc left right
  have hleft : IsValue left := .unary .identifier
  have hright : IsValue right := .binary .identifier .identifier
  obtain ⟨argument, whole, part, hargument, hwhole, hpart, -, hdiffers, hoperand⟩ :=
    unary_binary_text v.naming loc loc (show "-" ∈ signs by decide)
      (show "+" ≠ remainderOperator by decide) hleft hright
  have htext : expression v.naming .delimited left = .ok "-x" := by
    subst v left
    rfl
  obtain rfl := Except.ok.inj (htext.symm.trans hargument)
  exact ⟨by decide, by decide, hleft, hright, whole, part, hwhole, hpart,
    hdiffers.mpr (by decide), hoperand⟩

/-! ## Assignments as operands -/

theorem parenthesized_ne_append {text rest rest' : String} (h : rest'.toList.head? = some ' ') :
    parenthesized (text ++ rest) ≠ text ++ rest' := by
  simp only [ne_eq, ← String.toList_inj, parenthesized, String.toList_append]
  -- A text that is the same behind a parenthesis as before a blank consists of parentheses only.
  induction text.toList with
  | nil =>
    intro heq
    rw [← List.nil_append rest'.toList, ← heq] at h
    simp at h
  | cons c text ih =>
    intro heq
    obtain ⟨rfl, heq⟩ := List.cons.inj heq
    exact ih heq

theorem expression_assign (loc : Location) {left right : Node} {first second : String}
    (hleft : expression names .delimited left = .ok first)
    (hright : expression names .delimited right = .ok second) (setting : Setting) :
    expression names setting (.assign loc left right) = .ok (first ++ " = " ++ second) := by
  rw [expression, hleft, hright]
  rfl

/-- **An assignment to the left of an operator, and an assignment of what the operator gives.** -/
theorem assign_binary_text (names : Naming) (loc loc' : Location) {operator : String}
    {left right other : Node} (hoperator : operator ≠ remainderOperator) (hleft : IsValue left)
    (hright : IsValue right) (hother : IsValue other) :
    ∃ part whole : String,
      expression names .delimited (.binary loc operator (.assign loc' left right) other) =
        .ok part ∧
      expression names .operand (.binary loc operator (.assign loc' left right) other) =
        .ok (parenthesized part) ∧
      (∀ setting, expression names setting (.assign loc' left (.binary loc operator right other)) =
        .ok whole) ∧
      (part ≠ whole ↔ right.isGrouped = true) ∧
      parenthesized part ≠ whole := by
  obtain ⟨target, htarget⟩ := exists_text_of_isValue hleft names .delimited
  obtain ⟨value, hvalue⟩ := exists_text_of_isValue hright names .delimited
  obtain ⟨second, hsecond⟩ := exists_text_of_isValue hother names .operand
  have hpart := expression_binary loc hoperator (expression_assign loc' htarget hvalue .operand)
    hsecond
  have hwhole := expression_assign loc' htarget
    (expression_binary loc hoperator (expression_operand hvalue) hsecond .delimited)
  refine ⟨_, _, hpart .delimited, hpart .operand, hwhole, ?_, ?_⟩
  · rw [binaryText, binaryText, operandText]
    cases right.isGrouped with
    | true =>
      have h := parenthesized_append_ne_self value (" " ++ operator ++ " " ++ second)
      simpa [String.append_assoc] using h.symm
    | false => simp [String.append_assoc]
  · simp only [binaryText, String.append_assoc]
    exact parenthesized_ne_append (by simp)

/-! ## Bounds of slices -/

/-- Binary expressions and assignments bind looser than a sum, or not tighter. -/
def Node.bindsLoosely : Node → Bool
  | .binary .. => true
  | .assign .. => true
  | _ => false

/-- How a bound is written as one operand of a sum. -/
def groupedBound (names : Naming) (bound : Node) : Except RenderError String := do
  let text ← expression names .delimited bound
  return if bound.bindsLoosely then parenthesized text else text

/-- How a bound is written as one operand of a sum, if there is one. -/
def groupedBound? (names : Naming) : Option Node → Except RenderError (Option String)
  | none => return none
  | some bound => some <$> groupedBound names bound

/-- How a slice is written with each bound as one operand. -/
def groupedSlice (names : Naming) (object : Node) (lower upper : Option Node) :
    Except RenderError String := do
  let text ← expression names .delimited object
  let first ← groupedBound? names lower
  let last ← groupedBound? names upper
  return sliceText (objectText object text) first last

/-- Some bound binds loosely. -/
def hasLooseBound (lower upper : Option Node) : Bool :=
  lower.any Node.bindsLoosely || upper.any Node.bindsLoosely

/-- A bound that binds loosely gets longer by its parentheses, and no other bound changes. -/
theorem groupedBound?_eq (object end_ : String) {bound : Option Node} {written : Option String}
    (h : expression? names bound = .ok written) :
    ∃ grouped, groupedBound? names bound = .ok grouped ∧
      (bound.any Node.bindsLoosely = false → grouped = written) ∧
      (boundText object end_ grouped).length = (boundText object end_ written).length +
        if bound.any Node.bindsLoosely then 2 else 0 := by
  cases bound with
  | none =>
    obtain rfl := pure_eq_ok_iff.mp h
    exact ⟨none, rfl, fun _ => rfl, by simp⟩
  | some node =>
    obtain ⟨text, htext, h⟩ := bind_eq_ok_iff.mp h
    obtain rfl := pure_eq_ok_iff.mp h
    refine ⟨some (if node.bindsLoosely then parenthesized text else text), ?_, ?_, ?_⟩
    · rw [groupedBound?, groupedBound, htext]
      rfl
    · intro htight
      rw [Option.any_some] at htight
      rw [htight, if_neg Bool.false_ne_true]
    · cases hloose : node.bindsLoosely <;>
        simp [boundText, hloose, length_parenthesized, Nat.add_assoc]

/-- **A slice has no parentheses around its bounds.** -/
theorem groupedSlice_eq_iff (names : Naming) (loc : Location) {object : Node}
    {lower upper : Option Node} (h : IsValue (.slice loc object lower upper)) :
    ∃ text : String,
      (∀ setting, expression names setting (.slice loc object lower upper) = .ok text) ∧
      (groupedSlice names object lower upper = .ok text ↔ hasLooseBound lower upper = false) := by
  obtain ⟨text, htext⟩ := exists_text_of_isValue h names .delimited
  refine ⟨text, fun setting => htext, ?_⟩
  rw [expression] at htext
  obtain ⟨_, -, hmore⟩ := bind_eq_ok_iff.mp htext
  obtain ⟨object', hobject, hmore⟩ := bind_eq_ok_iff.mp hmore
  obtain ⟨first, hfirst, hmore⟩ := bind_eq_ok_iff.mp hmore
  obtain ⟨last, hlast, htext⟩ := bind_eq_ok_iff.mp hmore
  obtain rfl := pure_eq_ok_iff.mp htext
  obtain ⟨first', hfirst', hlower, hfirstLength⟩ :=
    groupedBound?_eq (objectText object object') ".begin()" hfirst
  obtain ⟨last', hlast', hupper, hlastLength⟩ :=
    groupedBound?_eq (objectText object object') ".end()" hlast
  have hgrouped : groupedSlice names object lower upper =
      .ok (sliceText (objectText object object') first' last') := by
    rw [groupedSlice, hobject, hfirst', hlast']
    rfl
  rw [hgrouped, Except.ok.injEq, hasLooseBound, Bool.or_eq_false_iff]
  constructor
  · intro heq
    have hlength := congrArg String.length heq
    simp only [sliceText, String.length_append, hfirstLength, hlastLength] at hlength
    rw [← Bool.not_eq_true, ← Bool.not_eq_true]
    constructor <;> intro hloose <;> rw [if_pos hloose] at hlength <;> omega
  · rintro ⟨hlower', hupper'⟩
    rw [hlower hlower', hupper hupper']

/-- **Where operands that bind loosely lack their parentheses.** An assignment to the left of an
operator looks like an assignment of what the operator gives, unless the value puts itself in
parentheses or the whole is an operand itself; and a slice looks as it does with each bound as one
operand only if no bound binds loosely. -/
theorem assign_slice_text (names : Naming) :
    (∀ (loc loc' : Location) (operator : String) (left right other : Node),
      operator ≠ remainderOperator → IsValue left → IsValue right → IsValue other →
      ∃ part whole : String,
        expression names .delimited (.binary loc operator (.assign loc' left right) other) =
          .ok part ∧
        expression names .operand (.binary loc operator (.assign loc' left right) other) =
          .ok (parenthesized part) ∧
        (∀ setting,
          expression names setting (.assign loc' left (.binary loc operator right other)) =
            .ok whole) ∧
        (part ≠ whole ↔ right.isGrouped = true) ∧
        parenthesized part ≠ whole) ∧
    ∀ (loc : Location) (object : Node) (lower upper : Option Node),
      IsValue (.slice loc object lower upper) →
      ∃ text : String,
        (∀ setting, expression names setting (.slice loc object lower upper) = .ok text) ∧
        (groupedSlice names object lower upper = .ok text ↔ hasLooseBound lower upper = false) :=
  ⟨fun loc loc' _ _ _ _ => assign_binary_text names loc loc', fun loc _ _ _ =>
    groupedSlice_eq_iff names loc⟩

/-- A sum with an assignment to its left looks like the assignment of a sum, and bounds that bind
loosely are torn apart by the sum that they become part of. -/
theorem loose_operands_text :
    let v : Visibility :=
      { registry := .empty, namespaceName := "app", scopes := .empty, region := .function }
    let loc : Location := ⟨"", none⟩
    let name (text : String) : Node := .identifier loc text
    let lower : Node := .binary loc "<<" (name "i") (name "j")
    let upper : Node := .assign loc (name "n") (name "m")
    expression v.naming .delimited
          (.binary loc "+" (.assign loc (name "x") (name "y")) (name "z")) = .ok "x = y + z" ∧
      expression v.naming .delimited
          (.assign loc (name "x") (.binary loc "+" (name "y") (name "z"))) = .ok "x = y + z" ∧
      expression v.naming .delimited (.slice loc (name "s") (some lower) (some upper)) =
        .ok ("fax_std::Array<std::decay_t<decltype(s)>::value_type>" ++
          "(s.begin() + i << j, s.begin() + n = m)") ∧
      groupedSlice v.naming (name "s") (some lower) (some upper) =
        .ok ("fax_std::Array<std::decay_t<decltype(s)>::value_type>" ++
          "(s.begin() + (i << j), s.begin() + (n = m))") :=
  ⟨rfl, rfl, rfl, rfl⟩

/-- A product as the value of an assignment keeps the two groupings apart, and a name as the bound
of a slice needs no parentheses. -/
theorem tight_operands_text :
    let v : Visibility :=
      { registry := .empty, namespaceName := "app", scopes := .empty, region := .function }
    let loc : Location := ⟨"", none⟩
    let name (text : String) : Node := .identifier loc text
    let value : Node := .binary loc "*" (name "y") (name "z")
    "+" ≠ remainderOperator ∧ IsValue (name "x") ∧ IsValue value ∧
      IsValue (.slice loc (name "s") (some (name "i")) none) ∧
      (∃ part whole : String,
        expression v.naming .delimited (.binary loc "+" (.assign loc (name "x") value) (name "w")) =
          .ok part ∧
        expression v.naming .delimited (.assign loc (name "x") (.binary loc "+" value (name "w"))) =
          .ok whole ∧
        part ≠ whole) ∧
      ∃ text : String,
        expression v.naming .delimited (.slice loc (name "s") (some (name "i")) none) = .ok text ∧
        groupedSlice v.naming (name "s") (some (name "i")) none = .ok text := by
  intro v loc name value
  have hvalue : IsValue value := .binary .identifier .identifier
  have hslice : IsValue (.slice loc (name "s") (some (name "i")) none) :=
    .slice (by simp [HasParts, name, Node.kind]) .identifier
      (by rintro _ ⟨⟩; exact .identifier) (by rintro _ ⟨⟩)
  obtain ⟨hassign, hbounds⟩ := assign_slice_text v.naming
  obtain ⟨part, whole, hpart, -, hwhole, hdiffers, -⟩ :=
    hassign loc loc "+" (name "x") value (name "w") (by decide) .identifier hvalue .identifier
  obtain ⟨text, htext, hgrouped⟩ := hbounds loc (name "s") (some (name "i")) none hslice
  exact ⟨by decide, .identifier, hvalue, hslice,
    ⟨part, whole, hpart, hwhole .delimited, hdiffers.mpr (by decide)⟩,
    text, htext .delimited, hgrouped.mpr rfl⟩

end TreeToCpp
