import VnScript.Command.Invocation

namespace VnScript.Command

def Verb.ofName? : String → Option Verb
  | "run" => some .run
  | "emit" => some .emit
  | "build" => some .build
  | "check" => some .check
  | _ => none

def Verb.hasOutput : Verb → Bool
  | .emit => true
  | .build => true
  | _ => false

inductive UsageError where
  | unknown (argument : String)
  | missingValue (option : String)
  | repeated (option : String)
  | missing (what : String)
  deriving DecidableEq

def UsageError.message : UsageError → String
  | unknown argument => "unexpected argument '" ++ argument ++ "'"
  | missingValue option => "a value is required for '" ++ option ++ "'"
  | repeated option => "the argument '" ++ option ++ "' cannot be used multiple times"
  | missing what => "missing " ++ what

inductive Flag where
  | verbose | config | searchPath | debugLexer | output
  deriving DecidableEq

def Flag.name : Flag → String
  | .verbose => "verbose"
  | .config => "config"
  | .searchPath => "search-path"
  | .debugLexer => "debug-lexer"
  | .output => "output"

def Flag.all : List Flag := [.verbose, .config, .searchPath, .debugLexer, .output]

def Flag.letter? : Char → Option Flag
  | 'v' => some .verbose
  | 'I' => some .searchPath
  | 'o' => some .output
  | _ => none

def Flag.takesValue : Flag → Bool
  | .config => true
  | .searchPath => true
  | .output => true
  | _ => false

structure Reading where
  verbosity : Nat
  config : Option String
  searchPaths : List String
  debugLexer : Bool
  output : Option String
  positional : List String

def Reading.empty : Reading := ⟨0, none, [], false, none, []⟩

/-- Take in an option. Only the number of `v` and the search paths add up. -/
def Reading.add (r : Reading) (flag : Flag) (value : String) : Except UsageError Reading :=
  match flag with
  | .verbose => .ok { r with verbosity := r.verbosity + 1 }
  | .searchPath => .ok { r with searchPaths := r.searchPaths ++ [value] }
  | .debugLexer => if r.debugLexer then .error (.repeated flag.name) else
    .ok { r with debugLexer := true }
  | .config => if r.config.isSome then .error (.repeated flag.name) else
    .ok { r with config := some value }
  | .output => if r.output.isSome then .error (.repeated flag.name) else
    .ok { r with output := some value }

/-- An argument that stands for itself: a lone dash does too. -/
def isPlain (argument : String) : Bool :=
  match argument.toList with
  | '-' :: _ :: _ => false
  | _ => true

def takeValue (flag : Flag) (attached : Option (List Char)) (rest : List String) :
    Except UsageError (String × List String) :=
  match attached, rest with
  | some cs, _ =>
    if cs.isEmpty then .error (.missingValue flag.name) else .ok (String.ofList cs, rest)
  | none, value :: rest =>
    if isPlain value && !value.isEmpty then .ok (value, rest) else .error (.missingValue flag.name)
  | none, [] => .error (.missingValue flag.name)

def longOption (hasOutput : Bool) (r : Reading) (text : List Char) (rest : List String) :
    Except UsageError (Reading × List String) :=
  let name := String.ofList (text.takeWhile (· != '='))
  let attached := match text.dropWhile (· != '=') with
    | [] => none
    | _ :: value => some value
  match Flag.all.find? fun f => f.name == name && (hasOutput || f != .output) with
  | none => .error (.unknown ("--" ++ name))
  | some flag =>
    if flag.takesValue then do
      let (value, rest) ← takeValue flag attached rest
      return (← r.add flag value, rest)
    else if attached.isSome then .error (.unknown (String.ofList text))
    else do return (← r.add flag "", rest)

/-- Read short options that share a dash. The first one that takes a value
takes what follows its letter, without a sign of equality. -/
def shortOptions (hasOutput : Bool) (r : Reading) (letters : List Char) (rest : List String) :
    Except UsageError (Reading × List String) :=
  match letters with
  | [] => .ok (r, rest)
  | c :: more =>
    match (Flag.letter? c).filter fun f => hasOutput || f != .output with
    | none => .error (.unknown ("-" ++ c.toString))
    | some flag =>
      if flag.takesValue then
        let attached := match more with
          | [] => none
          | '=' :: value => some value
          | value => some value
        do
          let (value, rest) ← takeValue flag attached rest
          return (← r.add flag value, rest)
      else do shortOptions hasOutput (← r.add flag "") more rest

/-- Read arguments, at most `count`, up to the first plain one if `stop` holds.
Behind two dashes all arguments are plain. -/
def read (hasOutput stop : Bool) : Nat → Reading → List String →
    Except UsageError (Reading × List String)
  | 0, r, rest => .ok (r, rest)
  | _, r, [] => .ok (r, [])
  | count + 1, r, argument :: rest =>
    match argument.toList with
    | ['-', '-'] => .ok ({ r with positional := r.positional ++ rest }, [])
    | '-' :: '-' :: text => do
      let (r, rest) ← longOption hasOutput r text rest
      read hasOutput stop count r rest
    | '-' :: c :: letters => do
      let (r, rest) ← shortOptions hasOutput r (c :: letters) rest
      read hasOutput stop count r rest
    | _ =>
      if stop then .ok (r, argument :: rest)
      else read hasOutput stop count { r with positional := r.positional ++ [argument] } rest

/-- The options that hold: those behind the command replace those before it. -/
def mergeOptions (before after : Reading) : Options where
  verbosity := if after.verbosity = 0 then before.verbosity else after.verbosity
  config := after.config.or before.config
  searchPaths := if after.searchPaths.isEmpty then before.searchPaths else after.searchPaths
  debugLexer := before.debugLexer || after.debugLexer

def Invocation.ofArguments (arguments : List String) : Except UsageError Invocation := do
  let (before, rest) ← read false true arguments.length .empty arguments
  match before.positional, rest with
  | [], name :: rest =>
    match Verb.ofName? name with
    | none => throw (.unknown name)
    | some verb =>
      let (after, _) ← read verb.hasOutput false rest.length .empty rest
      match after.positional with
      | [file] =>
        if file.isEmpty then throw (.missingValue "FILE")
        else return ⟨verb, file, after.output, mergeOptions before after⟩
      | [] => throw (.missing "FILE")
      | _ :: argument :: _ => throw (.unknown argument)
  | argument :: _, _ => throw (.unknown argument)
  | [], [] => throw (.missing "command")

end VnScript.Command
