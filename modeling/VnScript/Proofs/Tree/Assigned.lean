import VnScript.Tree.Basic

namespace VnScript

mutual

/-- The names that are assigned in an expression, at any depth. -/
def Expr.assigned : Expr → List String
  | .binary _ left right => left.assigned ++ right.assigned
  | .assign name value => name :: value.assigned
  | .assignMember object _ value => object.assigned ++ value.assigned
  | .call _ _ arguments => assignedAll arguments
  | .create _ _ arguments => assignedAll arguments
  | .member object _ => object.assigned
  | _ => []

def assignedAll : List Expr → List String
  | [] => []
  | e :: rest => e.assigned ++ assignedAll rest

end

end VnScript
