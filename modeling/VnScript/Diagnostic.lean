import VnScript.Module.Error
import VnScript.Text.Lines
import VnScript.Value.Error

namespace VnScript

inductive Cause where
  | parse (error : ParseError)
  | runtime (error : RuntimeError)
  | resolve (error : ResolveError)
  | other (text : String)

/-- A cause with what was being done, the innermost first. -/
structure Failure where
  cause : Cause
  contexts : List String

structure Diagnostic where
  category : String
  message : String
  file : Option String
  place : Option Place
  deriving DecidableEq

namespace Diagnostic

def ofParseError (e : ParseError) : Diagnostic := ⟨e.category, e.message, none, some e.place⟩

def ofRuntimeError (e : RuntimeError) : Diagnostic := ⟨"RuntimeError", e.message, none, none⟩

def ofResolveError : ResolveError → Diagnostic
  | .malformed path e => { ofParseError e with file := some path }
  | e => ⟨"ImportError", e.message, none, none⟩

/-- Causes that are known speak for themselves; of any other the whole chain is told. -/
def ofFailure (f : Failure) : Diagnostic :=
  match f.cause with
  | .parse e => ofParseError e
  | .runtime e => ofRuntimeError e
  | .resolve e => ofResolveError e
  | .other text => ⟨"error", String.intercalate ": " (f.contexts.reverse ++ [text]), none, none⟩

/-- What stands before the caret: tabs stay tabs, so that it lines up. -/
def caretIndent (line : String) (column : Nat) : String :=
  String.ofList ((line.toList.take (column - 1)).map fun c => if c = '\t' then '\t' else ' ')

def excerpt (source : String) (p : Place) : String :=
  match (Text.lines source)[p.line - 1]? with
  | none => ""
  | some line =>
    let number := toString p.line
    let gutter := String.ofList (List.replicate number.length ' ')
    gutter ++ " |\n" ++ number ++ " | " ++ line ++ "\n" ++ gutter ++ " | " ++
      caretIndent line p.column ++ "^\n"

/-- The text of a report. Where file, place and source are known it shows the line. -/
def render (d : Diagnostic) (source : Option String) : String :=
  let head := d.category ++ ": " ++ d.message ++ "\n"
  match d.file, d.place with
  | none, _ => head
  | some file, none => head ++ " --> " ++ file ++ "\n"
  | some file, some p =>
    head ++ " --> " ++ file ++ ":" ++ toString p.line ++ ":" ++ toString p.column ++ "\n" ++
      source.elim "" fun text => excerpt text p

end Diagnostic

end VnScript
