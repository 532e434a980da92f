import VnScript.Console.Basic

namespace VnScript

inductive ConsoleEvent where
  | line (text : String)
  | prompt (text : String)
  | read (line : Option String)
  | failure
  deriving DecidableEq

/-- A console that records its calls and reads from a script, in which `none`
stands for the end of the input. The call with the number `failAt` fails. -/
structure RecordedConsole where
  script : List (Option String)
  failAt : Option Nat
  reason : String
  events : Array ConsoleEvent

namespace RecordedConsole

def record (event : ConsoleEvent) (c : RecordedConsole) : RecordedConsole :=
  { c with events := c.events.push event }

def failsNow (c : RecordedConsole) : Bool := c.failAt == some c.events.size

def write (event : ConsoleEvent) (c : RecordedConsole) : Except String Unit × RecordedConsole :=
  if c.failsNow then (.error c.reason, c.record .failure) else (.ok (), c.record event)

/-- A read that fails takes nothing from the script. -/
def read (c : RecordedConsole) : Except String (Option String) × RecordedConsole :=
  if c.failsNow then (.error c.reason, c.record .failure)
  else
    match c.script with
    | [] => (.ok none, c.record (.read none))
    | line :: rest => (.ok line, { c with script := rest }.record (.read line))

instance : Console RecordedConsole where
  writeLine text := write (.line text)
  writePrompt text := write (.prompt text)
  readLine := read

end RecordedConsole

end VnScript
