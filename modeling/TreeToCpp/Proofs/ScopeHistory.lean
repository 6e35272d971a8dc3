import Mathlib.Data.List.Infix
import TreeToCpp.Proofs.Steps

/-!
# Scopes and their history

The open scopes are a stack, and a stack forgets: what it says about a name is the outcome of all the
steps that led to it. This file says the same thing without the stack, from the steps alone. Enters
and exits match like brackets. A scope is exited by the first exit that has no enter of its own
behind the scope's, a declaration belongs to the scope that was entered last of those open at the
time, and the name is local for as long as that scope has not been exited. An exit that finds every
scope exited fails and leaves no trace.

The link between the two is a number. A scope that is open stands in the stack below those that were
entered behind it and are still open, and how many these are can be counted in the steps behind its
enter. The same count tells in which scope of the stack a declared name is kept.

## Main definitions

* `ScopeStep`, `Scopes.after` — a run on the open scopes
* `Rises` — a run that leaves what is open alone, and the number of scopes it adds
* `IsExited`, `IsOpen`, `IsInnermost`, `IsDeclared` — what the steps of a run say
* `FollowsHistory` — the scopes behind a run say what its steps say

## Main results

* `Scopes.lt_depth_after_iff`, `Scopes.holdsAt_after_iff` — the stack, scope by scope
* `isInnermost_iff`, `isDeclared_iff` — the same counts in the history
* `scopes_follow_history` — every run
-/

namespace TreeToCpp

/-! ## Runs -/

/-- A step on the open scopes. -/
inductive ScopeStep where
  | enter
  | exit
  | declare (name : String)
  deriving DecidableEq, Repr

namespace Scopes

/-- The scopes behind a step. An exit that fails leaves them as they are. -/
def perform (scopes : Scopes) : ScopeStep → Scopes
  | .enter => scopes.enter
  | .exit => scopes.exit?.getD scopes
  | .declare name => scopes.declare name

/-- The scopes behind a run. -/
def after (scopes : Scopes) (steps : List ScopeStep) : Scopes :=
  steps.foldl perform scopes

/-- The number of exits in a run that close a scope. -/
def closings (scopes : Scopes) : List ScopeStep → Nat
  | [] => 0
  | step :: rest =>
    (if step = .exit ∧ scopes.exit?.isSome then 1 else 0) + (scopes.perform step).closings rest

theorem after_append (scopes : Scopes) (first rest : List ScopeStep) :
    scopes.after (first ++ rest) = (scopes.after first).after rest :=
  List.foldl_append

theorem after_concat (scopes : Scopes) (steps : List ScopeStep) (step : ScopeStep) :
    scopes.after (steps ++ [step]) = (scopes.after steps).perform step :=
  scopes.after_append steps [step]

theorem exit?_eq_none_iff {scopes : Scopes} : scopes.exit? = none ↔ scopes.depth = 0 := by
  obtain ⟨frames⟩ := scopes
  cases frames <;> simp [exit?, depth]

theorem perform_exit_of_none {scopes : Scopes} (h : scopes.exit? = none) :
    scopes.perform .exit = scopes := by
  rw [perform, h, Option.getD_none]

/-- What closes a scope has opened one, or found it open. -/
theorem depth_after (scopes : Scopes) (steps : List ScopeStep) :
    (scopes.after steps).depth + scopes.closings steps =
      scopes.depth + steps.count .enter := by
  induction steps generalizing scopes with
  | nil => rfl
  | cons step rest ih =>
    have hrest := ih (scopes.perform step)
    have hstep : (scopes.perform step).depth +
        (if step = .exit ∧ scopes.exit?.isSome then 1 else 0) =
          scopes.depth + [step].count .enter := by
      obtain ⟨frames⟩ := scopes
      cases step with
      | enter => rfl
      | exit => cases frames <;> rfl
      | declare name => simp [perform, depth_declare]
    have hcount : ([step] ++ rest).count .enter = [step].count .enter + rest.count .enter :=
      List.count_append
    change ((scopes.perform step).after rest).depth +
      (_ + (scopes.perform step).closings rest) = _ + ([step] ++ rest).count .enter
    omega

end Scopes

/-- Closing a scope is an exit. It fails exactly where an exit changes nothing. -/
theorem Render.exec_closeScope (draft : Draft) :
    exec closeScope draft =
      (if draft.scopes.exit? = none then .error .scopeUnderflow else .ok (),
        { draft with scopes := draft.scopes.perform .exit }) := by
  obtain ⟨layout, ⟨frames⟩, region⟩ := draft
  cases frames <;> rfl

/-! ## Runs that leave alone what is open -/

/-- A place in two lists behind one another is in the first or in the second. -/
theorem append_eq_append_cons_iff {α : Type} {first rest before since : List α} {x : α} :
    first ++ rest = before ++ x :: since ↔
      (∃ between, first = before ++ x :: between ∧ since = between ++ rest) ∨
        ∃ between, before = first ++ between ∧ rest = between ++ x :: since := by
  rw [List.append_eq_append_iff]
  constructor
  · rintro (⟨between, rfl, rfl⟩ | ⟨between, rfl, h⟩)
    · exact .inr ⟨between, rfl, rfl⟩
    · rcases List.cons_eq_append_iff.mp h with ⟨rfl, rfl⟩ | ⟨between, rfl, rfl⟩
      · exact .inr ⟨[], by simp, rfl⟩
      · exact .inl ⟨between, rfl, rfl⟩
  · rintro (⟨between, rfl, rfl⟩ | ⟨between, rfl, rfl⟩)
    · exact .inr ⟨x :: between, rfl, rfl⟩
    · exact .inl ⟨between, rfl, rfl⟩

/-- The last place of a list, or an earlier one. -/
theorem concat_eq_append_cons_iff {α : Type} {steps before since : List α} {last x : α} :
    steps ++ [last] = before ++ x :: since ↔
      (before = steps ∧ x = last ∧ since = []) ∨
        ∃ earlier, steps = before ++ x :: earlier ∧ since = earlier ++ [last] := by
  rw [append_eq_append_cons_iff, or_comm]
  refine or_congr_left ⟨?_, ?_⟩
  · rintro ⟨between, rfl, h⟩
    rcases List.singleton_eq_append_iff.mp h with ⟨rfl, heq⟩ | ⟨-, heq⟩
    · obtain ⟨rfl, rfl⟩ := List.cons.inj heq
      exact ⟨by simp, rfl, rfl⟩
    · cases heq
  · rintro ⟨rfl, rfl, rfl⟩
    exact ⟨[], by simp, rfl⟩

/-- A run that never exits more scopes than it has entered so far. In the end it has entered `height`
more. -/
structure Rises (steps : List ScopeStep) (height : Nat) : Prop where
  above : ∀ begun, begun <+: steps → begun.count .exit ≤ begun.count .enter
  height : steps.count .enter = steps.count .exit + height

theorem forall_prefix_append_iff {α : Type} {P : List α → Prop} {first rest : List α} :
    (∀ begun, begun <+: first ++ rest → P begun) ↔
      (∀ begun, begun <+: first → P begun) ∧ ∀ begun, begun <+: rest → P (first ++ begun) := by
  constructor
  · intro h
    exact ⟨fun begun hbegun => h begun (hbegun.trans (List.prefix_append first rest)),
      fun begun hbegun => h _ ((List.prefix_append_right_inj first).mpr hbegun)⟩
  · rintro ⟨hfirst, hrest⟩ begun hbegun
    rcases List.prefix_or_prefix_of_prefix hbegun (List.prefix_append first rest) with h | h
    · exact hfirst begun h
    · obtain ⟨more, rfl⟩ := h
      exact hrest more ((List.prefix_append_right_inj first).mp hbegun)

namespace Rises

variable {steps first rest : List ScopeStep} {height : Nat}

theorem unique {other : Nat} (h : Rises steps height) (hother : Rises steps other) :
    height = other := by
  have := h.height
  have := hother.height
  omega

theorem nil_iff : Rises [] height ↔ height = 0 := by
  constructor
  · intro h
    simpa using h.height.symm
  · rintro rfl
    exact ⟨fun begun hbegun => by simp [List.prefix_nil.mp hbegun], rfl⟩

/-- A balanced run in front makes no difference. -/
theorem append_iff_of_left (hfirst : Rises first 0) :
    Rises (first ++ rest) height ↔ Rises rest height := by
  have hlevel := hfirst.height
  constructor
  · rintro ⟨habove, hheight⟩
    simp only [List.count_append] at hheight
    refine ⟨fun begun hbegun => ?_, by omega⟩
    have hbegun' := (forall_prefix_append_iff.mp habove).2 begun hbegun
    simp only [List.count_append] at hbegun'
    omega
  · rintro ⟨habove, hheight⟩
    refine ⟨forall_prefix_append_iff.mpr ⟨hfirst.above, fun begun hbegun => ?_⟩, ?_⟩
    · have hbegun' := habove begun hbegun
      simp only [List.count_append]
      omega
    · simp only [List.count_append]
      omega

/-- A balanced run behind makes no difference. -/
theorem append_iff_of_right (hrest : Rises rest 0) :
    Rises (first ++ rest) height ↔ Rises first height := by
  have hlevel := hrest.height
  constructor
  · rintro ⟨habove, hheight⟩
    simp only [List.count_append] at hheight
    exact ⟨(forall_prefix_append_iff.mp habove).1, by omega⟩
  · rintro ⟨habove, hheight⟩
    refine ⟨forall_prefix_append_iff.mpr ⟨habove, fun begun hbegun => ?_⟩, ?_⟩
    · have hbegun' := hrest.above begun hbegun
      simp only [List.count_append]
      omega
    · simp only [List.count_append]
      omega

theorem concat_iff {last : ScopeStep} :
    Rises (steps ++ [last]) height ↔
      (∀ begun, begun <+: steps → begun.count .exit ≤ begun.count .enter) ∧
        steps.count .enter + [last].count .enter =
          steps.count .exit + [last].count .exit + height := by
  constructor
  · rintro ⟨habove, hheight⟩
    simp only [List.count_append] at hheight
    exact ⟨(forall_prefix_append_iff.mp habove).1, hheight⟩
  · rintro ⟨habove, hheight⟩
    refine ⟨fun begun hbegun => ?_, by simpa only [List.count_append] using hheight⟩
    rcases List.prefix_concat_iff.mp hbegun with rfl | hbegun
    · simp only [List.count_append]
      omega
    · exact habove begun hbegun

theorem concat_enter_iff :
    Rises (steps ++ [.enter]) height ↔ ∃ lower, height = lower + 1 ∧ Rises steps lower := by
  have henter : [ScopeStep.enter].count .enter = 1 := rfl
  have hexit : [ScopeStep.enter].count .exit = 0 := rfl
  rw [concat_iff, henter, hexit]
  constructor
  · rintro ⟨habove, hheight⟩
    have hsteps := habove steps List.prefix_rfl
    exact ⟨height - 1, by omega, habove, by omega⟩
  · rintro ⟨lower, rfl, habove, hheight⟩
    exact ⟨habove, by omega⟩

theorem concat_exit_iff : Rises (steps ++ [.exit]) height ↔ Rises steps (height + 1) := by
  have henter : [ScopeStep.exit].count .enter = 0 := rfl
  have hexit : [ScopeStep.exit].count .exit = 1 := rfl
  rw [concat_iff, henter, hexit]
  constructor
  · rintro ⟨habove, hheight⟩
    exact ⟨habove, by omega⟩
  · rintro ⟨habove, hheight⟩
    exact ⟨habove, by omega⟩

theorem declare (name : String) : Rises [.declare name] 0 := by
  have hconcat : Rises ([] ++ [.declare name]) 0 :=
    concat_iff.mpr ⟨(nil_iff.mpr rfl).above, rfl⟩
  exact hconcat

theorem concat_declare_iff {name : String} :
    Rises (steps ++ [.declare name]) height ↔ Rises steps height :=
  append_iff_of_right (declare name)

/-- A declaration in front makes no difference. -/
theorem cons_declare_iff {name : String} :
    Rises (.declare name :: rest) height ↔ Rises rest height :=
  append_iff_of_left (declare name)

end Rises

/-! ## Steps and the scopes of the stack -/

/-- A step of a run, behind which the run rises by a height. If the step enters a scope, this scope
is open behind the run, and so many scopes are in it. -/
def Stands (steps before : List ScopeStep) (step : ScopeStep) (height : Nat) : Prop :=
  ∃ since, steps = before ++ step :: since ∧ Rises since height

namespace Stands

variable {steps before : List ScopeStep} {step : ScopeStep} {height : Nat}

theorem not_nil : ¬ Stands [] before step height := by
  rintro ⟨since, hsplit, -⟩
  simp at hsplit

/-- One more step, and the run behind the earlier ones goes on. -/
theorem concat_iff {last : ScopeStep} :
    Stands (steps ++ [last]) before step height ↔
      (before = steps ∧ step = last ∧ height = 0) ∨
        ∃ since, steps = before ++ step :: since ∧ Rises (since ++ [last]) height := by
  constructor
  · rintro ⟨since, hsplit, hrises⟩
    rcases concat_eq_append_cons_iff.mp hsplit with ⟨rfl, rfl, rfl⟩ | ⟨earlier, rfl, rfl⟩
    · exact .inl ⟨rfl, rfl, Rises.nil_iff.mp hrises⟩
    · exact .inr ⟨earlier, rfl, hrises⟩
  · rintro (⟨rfl, rfl, rfl⟩ | ⟨since, rfl, hrises⟩)
    · exact ⟨[], rfl, Rises.nil_iff.mpr rfl⟩
    · exact ⟨since ++ [last], by simp, hrises⟩

theorem concat_enter_iff :
    Stands (steps ++ [.enter]) before step height ↔
      (before = steps ∧ step = .enter ∧ height = 0) ∨
        ∃ lower, height = lower + 1 ∧ Stands steps before step lower := by
  rw [concat_iff]
  refine or_congr_right ⟨?_, ?_⟩
  · rintro ⟨since, hsplit, hrises⟩
    obtain ⟨lower, rfl, hlower⟩ := Rises.concat_enter_iff.mp hrises
    exact ⟨lower, rfl, since, hsplit, hlower⟩
  · rintro ⟨lower, rfl, since, hsplit, hlower⟩
    exact ⟨since, hsplit, Rises.concat_enter_iff.mpr ⟨lower, rfl, hlower⟩⟩

theorem concat_exit_iff :
    Stands (steps ++ [.exit]) before step height ↔
      (before = steps ∧ step = .exit ∧ height = 0) ∨ Stands steps before step (height + 1) := by
  simp only [concat_iff, Rises.concat_exit_iff]
  rfl

theorem concat_declare_iff {name : String} :
    Stands (steps ++ [.declare name]) before step height ↔
      (before = steps ∧ step = .declare name ∧ height = 0) ∨ Stands steps before step height := by
  simp only [concat_iff, Rises.concat_declare_iff]
  rfl

end Stands

namespace Scopes

/-- The scope that has so many scopes in it holds a mangled name. -/
def HoldsAt (scopes : Scopes) (height : Nat) (mangled : String) : Prop :=
  ∃ frame ∈ scopes.frames[height]?, mangled ∈ frame

variable {scopes : Scopes} {height : Nat} {mangled : String}

theorem contains_eq_true_iff :
    scopes.contains mangled = true ↔ ∃ height, scopes.HoldsAt height mangled := by
  simp only [contains, List.any_eq_true, List.contains_iff_mem, List.mem_iff_getElem?, HoldsAt,
    Option.mem_def]
  constructor
  · rintro ⟨frame, ⟨height, hframe⟩, hmem⟩
    exact ⟨height, frame, hframe, hmem⟩
  · rintro ⟨height, frame, hframe, hmem⟩
    exact ⟨frame, ⟨height, hframe⟩, hmem⟩

theorem resolve_eq_iff {registry : Registry} {name : String} :
    (scopes.resolve registry name = .localName ↔ scopes.contains (mangle name) = true) ∧
    (scopes.resolve registry name = .globalName ↔
      ¬ scopes.contains (mangle name) = true ∧ registry.contains (mangle name) = true) ∧
    (scopes.resolve registry name = .unqualified ↔
      ¬ scopes.contains (mangle name) = true ∧ registry.contains (mangle name) = false) := by
  rw [resolve]
  cases scopes.contains (mangle name) <;> cases registry.contains (mangle name) <;> simp

theorem depth_perform_exit : (scopes.perform .exit).depth = scopes.depth - 1 := by
  obtain ⟨frames⟩ := scopes
  cases frames <;> rfl

theorem holdsAt_enter_iff :
    (scopes.perform .enter).HoldsAt height mangled ↔
      ∃ lower, height = lower + 1 ∧ scopes.HoldsAt lower mangled := by
  cases height <;> simp [perform, enter, HoldsAt]

theorem holdsAt_exit_iff :
    (scopes.perform .exit).HoldsAt height mangled ↔ scopes.HoldsAt (height + 1) mangled := by
  obtain ⟨frames⟩ := scopes
  cases frames <;> simp [perform, exit?, HoldsAt]

theorem holdsAt_declare_iff {name : String} :
    (scopes.perform (.declare name)).HoldsAt height mangled ↔
      (height = 0 ∧ 0 < scopes.depth ∧ mangle name = mangled) ∨ scopes.HoldsAt height mangled := by
  obtain ⟨frames⟩ := scopes
  cases frames with
  | nil => simp [perform, declare, HoldsAt, depth]
  | cons frame outer => cases height <;> simp [perform, declare, HoldsAt, depth, eq_comm]

/-- The scopes of the stack are those that the run has entered and not exited. -/
theorem lt_depth_after_iff {steps : List ScopeStep} :
    height < (empty.after steps).depth ↔ ∃ outer, Stands steps outer .enter height := by
  induction steps using List.reverseRecOn generalizing height with
  | nil => simp [Stands.not_nil, after, empty, depth]
  | append_singleton steps last ih =>
    rw [after_concat]
    cases last with
    | enter =>
      simp only [Stands.concat_enter_iff]
      show height < (empty.after steps).depth + 1 ↔ _
      cases height with
      | zero => simp
      | succ lower => simpa using ih
    | exit =>
      rw [depth_perform_exit, Nat.lt_sub_iff_add_lt, ih]
      simp [Stands.concat_exit_iff]
    | declare name =>
      rw [perform, depth_declare, ih]
      simp [Stands.concat_declare_iff]

/-- A scope of the stack holds what was declared while as many scopes were in it. -/
theorem holdsAt_after_iff {steps : List ScopeStep} :
    (empty.after steps).HoldsAt height mangled ↔
      ∃ before name, Stands steps before (.declare name) height ∧ mangle name = mangled ∧
        0 < (empty.after before).depth := by
  induction steps using List.reverseRecOn generalizing height with
  | nil => simp [Stands.not_nil, after, empty, HoldsAt]
  | append_singleton steps last ih =>
    rw [after_concat]
    cases last with
    | enter =>
      simp only [holdsAt_enter_iff, ih, Stands.concat_enter_iff, reduceCtorEq, false_and, and_false,
        false_or]
      constructor
      · rintro ⟨lower, rfl, before, name, hstands, hname, hopen⟩
        exact ⟨before, name, ⟨lower, rfl, hstands⟩, hname, hopen⟩
      · rintro ⟨before, name, ⟨lower, rfl, hstands⟩, hname, hopen⟩
        exact ⟨lower, rfl, before, name, hstands, hname, hopen⟩
    | exit =>
      rw [holdsAt_exit_iff, ih]
      simp [Stands.concat_exit_iff]
    | declare name =>
      simp only [holdsAt_declare_iff, ih, Stands.concat_declare_iff, ScopeStep.declare.injEq]
      constructor
      · rintro (⟨rfl, hopen, hname⟩ | ⟨before, name, hstands, hname, hopen⟩)
        · exact ⟨steps, name, .inl ⟨rfl, rfl, rfl⟩, hname, hopen⟩
        · exact ⟨before, name, .inr hstands, hname, hopen⟩
      · rintro ⟨before, name, ⟨rfl, rfl, rfl⟩ | hstands, hname, hopen⟩
        · exact .inl ⟨rfl, hopen, hname⟩
        · exact .inr ⟨before, name, hstands, hname, hopen⟩

end Scopes

/-! ## The history -/

/-- A scope is exited in the steps behind its enter, by the exit that a balanced run leads up to. -/
def IsExited (since : List ScopeStep) : Prop :=
  ∃ inside behind, since = inside ++ .exit :: behind ∧ Rises inside 0

/-- The scope that is entered behind `outer` has been entered, and not been exited. -/
def IsOpen (steps outer : List ScopeStep) : Prop :=
  ∃ since, steps = outer ++ .enter :: since ∧ ¬ IsExited since

/-- Of the open scopes, the one that is entered behind `outer` has been entered last. -/
def IsInnermost (steps outer : List ScopeStep) : Prop :=
  IsOpen steps outer ∧ ∀ other, IsOpen steps other → other.length ≤ outer.length

/-- A name with this mangled form is declared while a scope is open, and the scope that was innermost
then is open still. -/
def IsDeclared (steps : List ScopeStep) (mangled : String) : Prop :=
  ∃ before name since outer, steps = before ++ .declare name :: since ∧ mangle name = mangled ∧
    IsInnermost before outer ∧ IsOpen steps outer

theorem isExited_concat_iff {since : List ScopeStep} {last : ScopeStep} :
    IsExited (since ++ [last]) ↔ IsExited since ∨ last = .exit ∧ Rises since 0 := by
  constructor
  · rintro ⟨inside, behind, hsplit, hinside⟩
    rcases concat_eq_append_cons_iff.mp hsplit with ⟨rfl, rfl, rfl⟩ | ⟨earlier, rfl, rfl⟩
    · exact .inr ⟨rfl, hinside⟩
    · exact .inl ⟨inside, earlier, rfl, hinside⟩
  · rintro (⟨inside, behind, rfl, hinside⟩ | ⟨rfl, hsince⟩)
    · exact ⟨inside, behind ++ [last], by simp, hinside⟩
    · exact ⟨since, [], rfl, hsince⟩

/-- A scope stays open as long as the run behind its enter rises. -/
theorem not_isExited_iff {since : List ScopeStep} :
    ¬ IsExited since ↔ ∃ height, Rises since height := by
  induction since using List.reverseRecOn with
  | nil =>
    refine iff_of_true ?_ ⟨0, Rises.nil_iff.mpr rfl⟩
    rintro ⟨inside, behind, hsplit, -⟩
    simp at hsplit
  | append_singleton since last ih =>
    rw [isExited_concat_iff, not_or, ih]
    cases last with
    | enter => simp [Rises.concat_enter_iff]
    | declare name => simp [Rises.concat_declare_iff]
    | exit =>
      simp only [Rises.concat_exit_iff, true_and]
      constructor
      · rintro ⟨⟨height, hrises⟩, hlevel⟩
        cases height with
        | zero => exact absurd hrises hlevel
        | succ height => exact ⟨height, hrises⟩
      · rintro ⟨height, hrises⟩
        refine ⟨⟨_, hrises⟩, fun hlevel => ?_⟩
        exact absurd (hrises.unique hlevel) (Nat.succ_ne_zero height)

theorem isOpen_iff {steps outer : List ScopeStep} :
    IsOpen steps outer ↔ ∃ height, Stands steps outer .enter height := by
  simp only [IsOpen, not_isExited_iff, Stands]
  constructor
  · rintro ⟨since, hsplit, height, hrises⟩
    exact ⟨height, since, hsplit, hrises⟩
  · rintro ⟨height, since, hsplit, hrises⟩
    exact ⟨since, hsplit, height, hrises⟩

/-- Of two open scopes, the one that is entered later has fewer scopes in it. -/
theorem Stands.lt_of_length_lt {steps outer inner : List ScopeStep} {height lower : Nat}
    (houter : Stands steps outer .enter height) (hinner : Stands steps inner .enter lower)
    (hlength : outer.length < inner.length) : lower < height := by
  obtain ⟨since, rfl, hsince⟩ := houter
  obtain ⟨later, hsplit, hlater⟩ := hinner
  have hconcat : (outer ++ [.enter]) ++ since = inner ++ .enter :: later := by simpa using hsplit
  rcases append_eq_append_cons_iff.mp hconcat with ⟨between, hbetween, -⟩ | ⟨between, -, rfl⟩
  · have hle := congrArg List.length hbetween
    simp only [List.length_append, List.length_cons, List.length_nil] at hle
    omega
  · have habove := hsince.above between (List.prefix_append _ _)
    have hheight := hsince.height
    have hlower := hlater.height
    have hexit : (ScopeStep.enter :: later).count .exit = later.count .exit := rfl
    simp only [List.count_append, List.count_cons_self, hexit] at hheight
    omega

/-- The innermost scope is the one that has no other in it. -/
theorem isInnermost_iff {steps outer : List ScopeStep} :
    IsInnermost steps outer ↔ Stands steps outer .enter 0 := by
  constructor
  · rintro ⟨hopen, hlast⟩
    obtain ⟨height, hstands⟩ := isOpen_iff.mp hopen
    have hdepth : height < (Scopes.empty.after steps).depth :=
      Scopes.lt_depth_after_iff.mpr ⟨outer, hstands⟩
    obtain ⟨other, hother⟩ := Scopes.lt_depth_after_iff.mp (Nat.zero_lt_of_lt hdepth)
    have hle : other.length ≤ outer.length := hlast other (isOpen_iff.mpr ⟨0, hother⟩)
    rcases Nat.lt_or_eq_of_le hle with hlt | heq
    · exact absurd (hother.lt_of_length_lt hstands hlt) (Nat.not_lt_zero height)
    · obtain ⟨since, rfl, hsince⟩ := hother
      obtain ⟨since', hsplit, hsince'⟩ := hstands
      obtain ⟨rfl, hsame⟩ := List.append_inj hsplit heq
      exact ⟨since, rfl, hsince⟩
  · intro hstands
    refine ⟨isOpen_iff.mpr ⟨0, hstands⟩, fun other hother => ?_⟩
    obtain ⟨lower, hlower⟩ := isOpen_iff.mp hother
    by_contra hlater
    exact absurd (hstands.lt_of_length_lt hlower (Nat.lt_of_not_le hlater)) (Nat.not_lt_zero lower)

/-- A declared name is held by a scope of the stack, and there are as many scopes in this one as the
run has risen since. -/
theorem isDeclared_iff {steps : List ScopeStep} {mangled : String} :
    IsDeclared steps mangled ↔ (Scopes.empty.after steps).contains mangled = true := by
  simp only [Scopes.contains_eq_true_iff, Scopes.holdsAt_after_iff]
  constructor
  · rintro ⟨before, name, since, outer, rfl, hname, hinnermost, hopen⟩
    have hinner := isInnermost_iff.mp hinnermost
    have hdepth : 0 < (Scopes.empty.after before).depth :=
      Scopes.lt_depth_after_iff.mpr ⟨outer, hinner⟩
    obtain ⟨inside, rfl, hinside⟩ := hinner
    obtain ⟨height, whole, hsplit, hwhole⟩ := isOpen_iff.mp hopen
    obtain rfl : whole = inside ++ .declare name :: since := by simpa using hsplit.symm
    have hsince : Rises since height :=
      Rises.cons_declare_iff.mp ((Rises.append_iff_of_left hinside).mp hwhole)
    exact ⟨height, _, name, ⟨since, rfl, hsince⟩, hname, hdepth⟩
  · rintro ⟨height, before, name, ⟨since, rfl, hsince⟩, hname, hdepth⟩
    obtain ⟨outer, hinner⟩ := Scopes.lt_depth_after_iff.mp hdepth
    refine ⟨before, name, since, outer, rfl, hname, isInnermost_iff.mpr hinner, ?_⟩
    obtain ⟨inside, rfl, hinside⟩ := hinner
    have hwhole : Rises (inside ++ .declare name :: since) height :=
      (Rises.append_iff_of_left hinside).mpr (Rises.cons_declare_iff.mpr hsince)
    exact isOpen_iff.mpr ⟨height, _, by simp, hwhole⟩

/-- Every scope has been exited exactly when the stack is empty. -/
theorem forall_isExited_iff {steps : List ScopeStep} :
    (∀ outer since, steps = outer ++ .enter :: since → IsExited since) ↔
      (Scopes.empty.after steps).exit? = none := by
  rw [Scopes.exit?_eq_none_iff, ← not_iff_not, ← Ne, Nat.ne_zero_iff_zero_lt]
  constructor
  · intro h
    simp only [not_forall] at h
    obtain ⟨outer, since, hsplit, hopen⟩ := h
    obtain ⟨height, hstands⟩ := isOpen_iff.mp ⟨since, hsplit, hopen⟩
    exact Nat.zero_lt_of_lt (Scopes.lt_depth_after_iff.mpr ⟨outer, hstands⟩)
  · intro h hexited
    obtain ⟨outer, hstands⟩ := Scopes.lt_depth_after_iff.mp h
    obtain ⟨since, hsplit, hopen⟩ := isOpen_iff.mpr ⟨0, hstands⟩
    exact hopen (hexited outer since hsplit)

/-! ## Balanced runs -/

/-- A name is declared in a run at the depth where the run begins. -/
def IsDeclaredOutside (run : List ScopeStep) (mangled : String) : Prop :=
  ∃ before name later, run = before ++ .declare name :: later ∧ mangle name = mangled ∧
    before.count .enter = before.count .exit

/-- A balanced run changes nothing about a name, unless it declares the name outside of its scopes. -/
theorem contains_after_balanced {steps run : List ScopeStep} {mangled : String}
    (hrun : Rises run 0) (houtside : ¬ IsDeclaredOutside run mangled) :
    (Scopes.empty.after (steps ++ run)).contains mangled =
      (Scopes.empty.after steps).contains mangled := by
  rw [Bool.eq_iff_iff]
  simp only [Scopes.contains_eq_true_iff, Scopes.holdsAt_after_iff]
  constructor
  · rintro ⟨height, before, name, ⟨since, hsplit, hsince⟩, hname, hdepth⟩
    rcases append_eq_append_cons_iff.mp hsplit with ⟨between, rfl, rfl⟩ | ⟨between, rfl, rfl⟩
    · exact ⟨height, before, name,
        ⟨between, rfl, (Rises.append_iff_of_right hrun).mp hsince⟩, hname, hdepth⟩
    · refine absurd ⟨between, name, since, rfl, hname, ?_⟩ houtside
      have habove := hrun.above between (List.prefix_append _ _)
      have hlevel := hrun.height
      have hheight := hsince.height
      have henter : (ScopeStep.declare name :: since).count .enter = since.count .enter := rfl
      have hexit : (ScopeStep.declare name :: since).count .exit = since.count .exit := rfl
      rw [List.count_append, List.count_append, henter, hexit] at hlevel
      omega
  · rintro ⟨height, before, name, ⟨since, rfl, hsince⟩, hname, hdepth⟩
    exact ⟨height, before, name,
      ⟨since ++ run, by simp, (Rises.append_iff_of_right hrun).mpr hsince⟩, hname, hdepth⟩

/-! ## Every run -/

/-- The scopes behind a run that begins without scopes say what the steps of the run say. -/
structure FollowsHistory (steps : List ScopeStep) : Prop where
  localName : ∀ registry name, (Scopes.empty.after steps).resolve registry name = .localName ↔
    IsDeclared steps (mangle name)
  globalName : ∀ registry name, (Scopes.empty.after steps).resolve registry name = .globalName ↔
    ¬ IsDeclared steps (mangle name) ∧ registry.contains (mangle name) = true
  unqualified : ∀ registry name, (Scopes.empty.after steps).resolve registry name = .unqualified ↔
    ¬ IsDeclared steps (mangle name) ∧ registry.contains (mangle name) = false
  /-- Closing a scope fails where every scope has been exited that was entered. -/
  underflow : ∀ draft : Draft, draft.scopes = Scopes.empty.after steps →
    ((Render.exec Render.closeScope draft).1 = .error .scopeUnderflow ↔
      ∀ outer since, steps = outer ++ .enter :: since → IsExited since)
  /-- Nothing but the scopes changes, and they do as in an exit. -/
  closing : ∀ draft : Draft, draft.scopes = Scopes.empty.after steps →
    (Render.exec Render.closeScope draft).2 =
      { draft with scopes := Scopes.empty.after (steps ++ [.exit]) }
  /-- No later step finds out about an exit that failed. -/
  failed : (Scopes.empty.after steps).exit? = none → ∀ later,
    Scopes.empty.after (steps ++ .exit :: later) = Scopes.empty.after (steps ++ later)
  /-- The exits that did not fail make up for the difference. -/
  depth : (Scopes.empty.after steps).depth + Scopes.empty.closings steps = steps.count .enter
  balanced : ∀ run, Rises run 0 → ∀ registry name, ¬ IsDeclaredOutside run (mangle name) →
    (Scopes.empty.after (steps ++ run)).resolve registry name =
      (Scopes.empty.after steps).resolve registry name

/-- **The scopes follow the history of their steps.** Behind every run, a name is local if it is
declared in a scope that has not been exited, and otherwise what the registry says. An exit fails if
there is no scope left to exit, and nothing comes of it. A run that exits all it enters, and nothing
else, makes no difference to the names that it does not declare outside of its own scopes. -/
theorem scopes_follow_history (steps : List ScopeStep) : FollowsHistory steps where
  localName registry name := by
    rw [isDeclared_iff]
    exact Scopes.resolve_eq_iff.1
  globalName registry name := by
    rw [isDeclared_iff]
    exact Scopes.resolve_eq_iff.2.1
  unqualified registry name := by
    rw [isDeclared_iff]
    exact Scopes.resolve_eq_iff.2.2
  underflow draft hscopes := by
    rw [forall_isExited_iff, Render.exec_closeScope, hscopes]
    cases (Scopes.empty.after steps).exit? <;> simp
  closing draft hscopes := by
    rw [Render.exec_closeScope, hscopes, Scopes.after_concat]
  failed hfails later := by
    rw [Scopes.after_append, Scopes.after_append]
    exact congrArg (Scopes.after · later) (Scopes.perform_exit_of_none hfails)
  depth := by
    rw [Scopes.depth_after]
    exact Nat.zero_add _
  balanced run hrun registry name houtside := by
    rw [Scopes.resolve, Scopes.resolve, contains_after_balanced hrun houtside]

end TreeToCpp
