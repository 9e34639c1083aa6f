import KeyScript.Text.Quoted

/-!
Broken contracts. A violation is a mistake of the caller or of this library,
never a problem in a script; it stops the operation that meets it.
-/

namespace KeyScript

inductive Contract where
  | precondition
  | invariant
  | postcondition
deriving DecidableEq, Repr

def Contract.word : Contract → Text
  | .precondition => utf8 "PRECONDITION"
  | .invariant => utf8 "INVARIANT"
  | .postcondition => utf8 "POSTCONDITION"

structure Violation where
  contract : Contract
  message : Text
deriving DecidableEq, Repr

namespace Violation

def text (v : Violation) : Text :=
  v.contract.word ++ utf8 " VIOLATION: " ++ v.message

end Violation

def require (contract : Contract) (condition : Bool) (message : Text) : Except Violation Unit :=
  if condition then .ok () else .error ⟨contract, message⟩

def requirePresent {α : Type} (value : Option α) (name : Text) : Except Violation Unit :=
  require .precondition value.isSome (name ++ utf8 " must not be nil")

def requireNonNegative (value : Int) (name : Text) : Except Violation Unit :=
  require .precondition (0 ≤ value)
    (name ++ utf8 " must not be negative, got " ++ Text.ofInt value)

def requireNoFailure (failure : Option Text) (operation : Text) : Except Violation Unit :=
  require .postcondition failure.isNone
    (operation ++ utf8 " must not fail: " ++ failure.getD [])

def requireContext (given : Bool) (place : Text) : Except Violation Unit :=
  require .precondition given (place ++ utf8 ": context must not be nil")

end KeyScript
