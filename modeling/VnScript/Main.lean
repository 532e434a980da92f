import VnScript.Command.Run

namespace VnScript

open Command

namespace Outside

/-- What stands at a path. Reading a directory fails with a code of its own. -/
def entryAt? (path : String) : IO (Option FileEntry) := do
  try
    return some (FileEntry.ofBytes (← IO.FS.readBinFile path))
  catch
    | .inappropriateType _ 21 _ => return some .directory
    | _ => return none

partial def gather (i : Invocation) (seen : List String) (files : Files) : IO Files := do
  match (i.wanted Settings.yamlDecoder files).filter fun path => !seen.contains path with
  | [] => return files
  | path :: _ =>
    match ← entryAt? path with
    | some entry => gather i (path :: seen) (files.create path entry)
    | none => gather i (path :: seen) files

partial def readInput (input : IO.FS.Stream) (text : String) : IO String := do
  let line ← input.getLine
  if line.isEmpty then return text else readInput input (text ++ line)

/-- The files and the input that a command needs. No compiler is at hand. -/
def world (i : Invocation) : IO World := do
  let working := (Files.segments (← IO.currentDir).toString).filter fun name => name != ""
  let files ← gather i [] (Files.empty working)
  let input ← if i.verb = .run then readInput (← IO.getStdin) "" else pure ""
  return ⟨files, input, fun _ => .notFound⟩

def carryOut (r : Report) : IO UInt32 := do
  for (path, content) in r.written do
    IO.FS.writeFile path content
  IO.print r.output
  IO.eprint r.errors
  return r.status.toUInt32

end Outside

end VnScript

open VnScript Command Outside in
def main (arguments : List String) : IO UInt32 := do
  match Invocation.ofArguments arguments with
  | .error e =>
    IO.eprintln ("error: " ++ e.message)
    return 2
  | .ok i =>
    match i.run Settings.yamlDecoder ampleLimit (← world i) with
    | some report => carryOut report
    | none => return 1
