import PriceOracle.Model.Settings
import Mathlib.Data.Finset.Card

/-! # Operations with dependencies

An operation waits for the operations it names and is cancelled with any of them. The dependents of
an operation are registered when they are created, whether or not it exists by then. -/

namespace PriceOracle.Model

open Lib.Transaction

def maxDependencyCount : Nat := 32

/-- Printable characters, without a space at either end. -/
def isCanonicalText (bytes : Text) : Bool :=
  bytes.all (fun b => 0x20 ≤ b && b ≤ 0x7E) && bytes.head? ≠ some 0x20 && bytes.getLast? ≠ some 0x20

/-- `validate_string` with the limit of a parameter and whether it may be empty. -/
def validateString (cap : Nat) (allowEmpty : Bool) (value : Text) : Contract Unit := do
  ensure (value.length ≤ cap) .textTooLong
  ensure (isCanonicalText value = true) .invalidTextContent
  ensure (value ≠ [] ∨ allowEmpty = true) .invalidTextContent

/-- The identifiers of operations. -/
def validateOpId (opId : Text) : Contract Unit := validateString 64 false opId

def validateStringVec (values : List Text) : Contract Unit := do
  ensure (values.length ≤ maxDependencyCount) .textTooLong
  forM values validateOpId

namespace Operations

section Writes

variable (o : Operations)

def write (opId : Text) (op : Operation) : Operations :=
  { o with
    operation := Function.update o.operation opId (some op)
    keys := insert opId o.keys
    mem_keys := by
      intro id hid
      by_cases h : id = opId
      · rw [h]
        exact Finset.mem_insert_self ..
      · rw [Function.update_of_ne h] at hid
        exact Finset.mem_insert_of_mem (o.mem_keys id hid) }

def dependentsOf (opId : Text) : List Text := (o.dependents opId).getD []

def addDependent (dep opId : Text) : Operations :=
  { o with dependents := Function.update o.dependents dep (some (o.dependentsOf dep ++ [opId])) }

end Writes

def writeOperation (opId : Text) (op : Operation) : Contract Unit :=
  modifyOperations fun o => o.write opId op

def readOperation (opId : Text) : Contract Operation :=
  consult fun w => match w.store.operations.operation opId with
    | some op => .ok op
    | none => .error .operationNotFound

def createOperation (opId : Text) (dependsOn : List Text) : Contract Unit := do
  validateOpId opId
  validateStringVec dependsOn
  let existing ← readStore fun _ st => (st.operations.operation opId).isSome
  ensure (existing = false) .operationAlreadyExists
  writeOperation opId ⟨opId, .pending, dependsOn⟩
  forM dependsOn fun dep => modifyOperations fun o => o.addDependent dep opId

/-- The check of one dependency. -/
def requireExecuted (depId : Text) : Contract Unit := do
  let dep ← readOperation depId
  ensure (dep.status = .executed) .dependencyNotMet

def executeOperation (opId : Text) : Contract Unit := do
  validateOpId opId
  let op ← readOperation opId
  ensure (op.status = .pending) .invalidOperationState
  forM op.dependsOn requireExecuted
  writeOperation opId { op with status := .executed }

/-- `cancel_operation` with a bound on the depth of its recursion; a call beyond it traps. -/
def cancelWithin : Nat → Text → Contract Unit
  | 0, _ => abort .hostTrap
  | fuel + 1, opId => do
    validateOpId opId
    let op ← readOperation opId
    if op.status = .cancelled then pure ()
    else do
      writeOperation opId { op with status := .cancelled }
      let dependents ← readStore fun _ st => st.operations.dependentsOf opId
      forM dependents (cancelWithin fuel)

/-- The bound leaves room for every operation once. -/
def cancelOperation (opId : Text) : Contract Unit := do
  let bound ← readStore fun _ st => st.operations.keys.card
  cancelWithin (bound + 1) opId

end Operations

end PriceOracle.Model
