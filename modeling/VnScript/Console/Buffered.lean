import VnScript.Console.Basic
import VnScript.Text.Lines

namespace VnScript

/-- A console whose input is split into lines beforehand. -/
structure BufferedConsole where
  input : List String
  output : String

namespace BufferedConsole

def ofInput (text : String) : BufferedConsole := ⟨Text.lines text, ""⟩

def write (text : String) (c : BufferedConsole) : BufferedConsole :=
  { c with output := c.output ++ text }

def read (c : BufferedConsole) : Option String × BufferedConsole :=
  match c.input with
  | [] => (none, c)
  | line :: rest => (some line, { c with input := rest })

instance : Console BufferedConsole where
  writeLine text c := (.ok (), (c.write text).write "\n")
  writePrompt text c := (.ok (), c.write text)
  readLine c := (.ok c.read.1, c.read.2)

end BufferedConsole

end VnScript
