import MiniBasic.Grammar.SyntaxError
import MiniBasic.Value

/-!
# Runtime errors
-/

namespace MiniBasic

/-- Why a value cannot be stored in what stands left of the equals sign. -/
inductive AssignmentFault where
  | member (property : String) (type : ValueType)
  | notAssignable
  | missingIndex (name : String)
  deriving DecidableEq

namespace AssignmentFault

def message : AssignmentFault → String
  | member property type => "cannot assign to member \x60" ++ property ++ "\x60 of " ++ type.name
  | notAssignable => "left-hand side must be a variable, element or member"
  | missingIndex name => "missing index for \x60" ++ name ++ "\x60"

end AssignmentFault

inductive RuntimeError where
  | unknownProcedure (name : String)
  | notIndexable (name : String) (type : ValueType)
  | unknownMember (member : String) (type : ValueType)
  | invalidAssignment (fault : AssignmentFault)
  /-- An `Exit` that no active loop or procedure answers. -/
  | unmatchedExit (target : ExitTarget)
  | indexOutOfRange (index : Float)
  | divisionByZero
  | unsupportedObject (name : String)
  | arityMismatch (name : String) (expected received : Nat)
  /-- A text to be evaluated is no expression. -/
  | malformed (error : SyntaxError)
  deriving DecidableEq

namespace RuntimeError

def message : RuntimeError → String
  | unknownProcedure name => "Unknown procedure \x60" ++ name ++ "\x60"
  | notIndexable name type =>
    "\x60" ++ name ++ "\x60 holds a value of type " ++ type.name ++
      " that cannot be called or indexed"
  | unknownMember member type =>
    "Object doesn't support property or method \x60" ++ member ++ "\x60 (type " ++ type.name ++ ")"
  | invalidAssignment fault => "Invalid assignment target: " ++ fault.message
  | unmatchedExit target => "\x60" ++ target.text ++ "\x60 used outside of a matching block"
  | indexOutOfRange index => "Subscript out of range: " ++ Number.write .subscript index
  | divisionByZero => "Division by zero"
  | unsupportedObject name => "Cannot create object of type \x60" ++ name ++ "\x60"
  | arityMismatch name expected received =>
    "Function \x60" ++ name ++ "\x60 expected " ++ toString expected ++
      " arguments but received " ++ toString received
  | malformed error => error.message

end RuntimeError

end MiniBasic
