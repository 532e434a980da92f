import VnScript.Console.Basic

namespace VnScript

/-- A console that takes its input from a stream, a line at a time. -/
structure StreamConsole where
  input : List Char
  output : String

namespace StreamConsole

def ofInput (text : String) : StreamConsole := ⟨text.toList, ""⟩

def write (text : String) (c : StreamConsole) : StreamConsole :=
  { c with output := c.output ++ text }

def rawLine (cs : List Char) : List Char :=
  cs.takeWhile (· != '\n') ++ (cs.dropWhile (· != '\n')).take 1

/-- Drop a newline from the end, and a carriage return before it. -/
def trimEnding (line : List Char) : List Char :=
  match line.reverse with
  | '\n' :: '\r' :: rest => rest.reverse
  | '\n' :: rest => rest.reverse
  | _ => line

def read (c : StreamConsole) : Option String × StreamConsole :=
  let line := rawLine c.input
  if line.isEmpty then (none, c)
  else (some (String.ofList (trimEnding line)), { c with input := c.input.drop line.length })

instance : Console StreamConsole where
  writeLine text c := (.ok (), (c.write text).write "\n")
  writePrompt text c := (.ok (), c.write text)
  readLine c := (.ok c.read.1, c.read.2)

end StreamConsole

end VnScript
