namespace VnScript.Text

/-- Split at newlines. `line` holds the characters of the current line in
reverse; a carriage return belongs to the ending only when a newline follows it. -/
def splitLines (line : List Char) : List Char → List (List Char)
  | [] => if line.isEmpty then [] else [line.reverse]
  | c :: rest =>
    if c = '\n' then
      let body := match line with
        | '\r' :: before => before
        | _ => line
      body.reverse :: splitLines [] rest
    else splitLines (c :: line) rest

/-- The lines of a text, without their endings. Text that ends in a newline
has no empty line after it. -/
def lines (s : String) : List String := (splitLines [] s.toList).map String.ofList

end VnScript.Text
