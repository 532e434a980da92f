namespace VnScript.Text

/-- Replace the occurrences of `old` from left to right. The first `skip`
characters belong to an occurrence that has been replaced already. -/
def replaceFrom (old new : List Char) : Nat → List Char → List Char
  | _, [] => []
  | skip + 1, _ :: rest => replaceFrom old new skip rest
  | 0, c :: rest =>
    if old.isPrefixOf (c :: rest) then new ++ replaceFrom old new (old.length - 1) rest
    else c :: replaceFrom old new 0 rest

/-- Replace every occurrence of `old`. An empty `old` occurs nowhere. -/
def replace (text old new : String) : String :=
  if old.isEmpty then text
  else String.ofList (replaceFrom old.toList new.toList 0 text.toList)

end VnScript.Text
