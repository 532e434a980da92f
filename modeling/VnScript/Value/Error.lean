namespace VnScript

inductive RuntimeError where
  | undefinedVariable (name : String)
  | missingMain
  | typeMismatch (operation left right : String)
  | notACondition (type : String)
  | divisionByZero
  | integerOverflow (operation : String)
  | noMatchingCase (value : String)
  | unsupportedExpression (construct : String)
  | unsupportedCall (name : String)
  | argumentCount (name expected : String) (found : Nat)
  | invalidConversion (value target : String)
  | notIterable (type : String)
  | invalidRange
  | console (reason : String)
  deriving DecidableEq

namespace RuntimeError

def message : RuntimeError → String
  | undefinedVariable name => "Undefined variable '" ++ name ++ "'"
  | missingMain => "Program has no 'main' function"
  | typeMismatch operation left right =>
    "Operation '" ++ operation ++ "' is not supported between " ++ left ++ " and " ++ right
  | notACondition type => "Expected a boolean or integer condition, got " ++ type
  | divisionByZero => "Division by zero"
  | integerOverflow operation => "Integer overflow in '" ++ operation ++ "'"
  | noMatchingCase value => "No case matches switch value " ++ value
  | unsupportedExpression construct => construct ++ " is not supported by the interpreter"
  | unsupportedCall name => "Unsupported call '" ++ name ++ "'"
  | argumentCount name expected found =>
    "'" ++ name ++ "' expected " ++ expected ++ " arguments, got " ++ toString found
  | invalidConversion value target => "Cannot convert " ++ value ++ " to " ++ target
  | notIterable type => "Cannot iterate over a value of type " ++ type
  | invalidRange => "Range step must not be zero"
  | console reason => "Console I/O failed: " ++ reason

/-- The name by which a program catches an error. -/
def kind : RuntimeError → String
  | divisionByZero => "DivideByZeroError"
  | invalidConversion .. | invalidRange | integerOverflow _ | noMatchingCase _ => "ValueError"
  | unsupportedCall _ | unsupportedExpression _ | argumentCount .. => "MethodError"
  | missingMain => "MainFunctionError"
  | console _ => "CError"
  | undefinedVariable _ | typeMismatch .. | notACondition _ | notIterable _ => "RuntimeError"

def caughtBy (e : RuntimeError) (errorType : String) : Bool :=
  errorType == "Error" || errorType == e.kind

end RuntimeError

end VnScript
