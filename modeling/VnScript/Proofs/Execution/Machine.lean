import VnScript.Execution.Run
import VnScript.Proofs.Value.Range

namespace VnScript

inductive ConsoleCall where
  | line (text : String)
  | prompt (text : String)
  | read
  deriving DecidableEq

/-- Make the call. Its answer is what the expression that asks for it takes as a value. -/
def ConsoleCall.perform {σ : Type} [Console σ] : ConsoleCall → σ → Except String Value × σ
  | .line text, c => ((Console.writeLine text c).1.map fun _ => .absent, (Console.writeLine text c).2)
  | .prompt text, c =>
    ((Console.writePrompt text c).1.map fun _ => .absent, (Console.writePrompt text c).2)
  | .read, c =>
    ((Console.readLine c).1.map fun line => .string (line.getD ""), (Console.readLine c).2)

namespace Machine

/-- The functions that every program has, with what they know before their arguments. The last one
makes the numbers that a loop runs over. -/
inductive Builtin where
  | print
  | input
  | convert (target : String)
  | replace (receiver text : String)
  | range

/-- What waits within an expression for the value of a part of it. -/
inductive Operand where
  | left (op : Operator) (right : Expr)
  | right (op : Operator) (left : Value)
  | logical
  | assigned (name : String)
  | argument (f : Builtin) (values : List Value) (rest : List Expr)
  | prompted

structure Loop where
  condition : Expr
  increment : Option Expr
  body : List Stmt

/-- What a statement does with the value of its expression. -/
inductive Use where
  | declare (name : String)
  | drop
  | ret
  | branch (body : List Stmt) (further : List Conditional) (orElse : Option (List Stmt))
  | test (loop : Loop)
  | again (loop : Loop)
  | collection (name : String) (body : List Stmt)
  | subject (cases : List Case)
  | case (expected : Value) (body : List Stmt) (rest : List Case)

/-- What waits for a value: parts of expressions, and at last a statement. -/
inductive Waiting where
  | use (u : Use)
  | within (operand : Operand) (outer : Waiting)

inductive Remaining where
  | numbers (step : Int) (count : Nat) (first : Int)
  | characters (text : List Char)

/-- What waits for statements to end. A body that is tried stands within `attempt`; its handler
does not. -/
inductive Enclosing where
  | rest (ss : List Stmt)
  | head (loop : Loop)
  | round (loop : Loop)
  | item (name : String) (items : Remaining) (body : List Stmt)
  | attempt (errorType binding : String) (handler : List Stmt)

inductive Control where
  | block (ss : List Stmt)
  | exec (s : Stmt)
  | iterate (name : String) (items : Remaining) (body : List Stmt)
  | flow (f : Flow)
  | raised (e : RuntimeError)
  | eval (e : Expr) (k : Waiting)
  | arguments (f : Builtin) (values : List Value) (rest : List Expr) (k : Waiting)
  | value (v : Value) (k : Waiting)
  | items (items : Items) (k : Waiting)
  | call (c : ConsoleCall) (k : Waiting)

namespace Remaining

def ofItems : Items → Remaining
  | .numbers r => .numbers r.step.toInt r.count r.start.toInt
  | .characters cs => .characters cs

def next? : Remaining → Option (Value × Remaining)
  | .numbers _ 0 _ => none
  | .numbers step (count + 1) first =>
    some (.integer (Int64.ofInt first), .numbers step count (first + step))
  | .characters [] => none
  | .characters (c :: rest) => some (.char c, .characters rest)

end Remaining

def Control.ofExcept (result : Except RuntimeError Value) (k : Waiting) : Control :=
  match result with
  | .ok v => .value v k
  | .error e => .raised e

def Control.onTruth (v : Value) (yes no : Control) : Control :=
  match v.truth with
  | .ok true => yes
  | .ok false => no
  | .error e => .raised e

namespace Builtin

/-- The function that is called with `count` arguments. -/
def find (environment : Environment) (receiver : Receiver) (name : String) (count : Nat) :
    Except RuntimeError Builtin :=
  match receiver with
  | .free => .error (.unsupportedCall name)
  | .named n =>
    if n = "System" then
      if name = "print" then .ok .print
      else if name = "input" then
        if 1 < count then .error (.argumentCount "System.input" "0 or 1" count) else .ok .input
      else .error (.unsupportedCall ("System." ++ name))
    else if name = "replace" then
      match environment.get? n with
      | some (.string text) => .ok (.replace n text)
      | some _ => .error (.unsupportedCall (n ++ ".replace"))
      | none => .error (.undefinedVariable n)
    else .error (.unsupportedCall (n ++ "." ++ name))
  | .namespaced n =>
    if n = "type" then
      if count ≠ 1 then .error (.argumentCount ("type:" ++ name) "1" count) else .ok (.convert name)
    else .error (.unsupportedCall (n ++ ":" ++ name))
  | .self => .error (.unsupportedCall (instanceName ++ "." ++ name))

/-- Apply a function to the values of its arguments. -/
def apply (k : Waiting) : Builtin → List Value → Control
  | .print, values => .call (.line (Eval.renderAll values)) k
  | .input, [] => .call .read k
  | .input, prompt :: _ => .call (.prompt prompt.render) (.within .prompted k)
  | .convert target, v :: _ => .ofExcept (v.convert target) k
  | .convert target, [] => .raised (.argumentCount ("type:" ++ target) "1" 0)
  | .replace receiver text, values => .ofExcept (Value.replace receiver text values) k
  | .range, values =>
    match Range.ofBounds values with
    | .ok r => .items (.numbers r) k
    | .error e => .raised e

end Builtin

def evaluate (environment : Environment) (k : Waiting) : Expr → Control
  | .identifier name =>
    match environment.get? name with
    | some v => .value v k
    | none => .raised (.undefinedVariable name)
  | .integer n => .value (.integer n) k
  | .float _ => .raised (.unsupportedExpression "float literal")
  | .double _ => .raised (.unsupportedExpression "double literal")
  | .char c => .value (.char c) k
  | .boolean b => .value (.boolean b) k
  | .string s => .value (.string s) k
  | .self => .raised (.unsupportedExpression "instance reference")
  | .binary op left right => .eval left (.within (.left op right) k)
  | .assign name value => .eval value (.within (.assigned name) k)
  | .assignMember _ _ _ => .raised (.unsupportedExpression "member assignment")
  | .call receiver name arguments =>
    match Builtin.find environment receiver name arguments.length with
    | .ok f => .arguments f [] arguments k
    | .error e => .raised e
  | .namespaceMember space member =>
    .raised (.unsupportedExpression ("namespace access '" ++ space ++ ":" ++ member ++ "'"))
  | .create _ type _ => .raised (.unsupportedExpression ("instance creation of '" ++ type ++ "'"))
  | .member _ name => .raised (.unsupportedExpression ("member access '." ++ name ++ "'"))

/-- Give a value to the part of an expression that waits for it. -/
def Operand.receive (v : Value) (k : Waiting) (environment : Environment) :
    Operand → Control × Environment
  | .left op e =>
    (if op = .and ∨ op = .or then
      match v.truth with
      | .ok l =>
        if (op = .and && !l) || (op = .or && l) then .value (.boolean l) k
        else .eval e (.within .logical k)
      | .error e => .raised e
    else .eval e (.within (.right op v) k), environment)
  | .right op l => (.ofExcept (l.apply op v) k, environment)
  | .logical => (.onTruth v (.value (.boolean true) k) (.value (.boolean false) k), environment)
  | .assigned name => (.value v k, environment.insert name v)
  | .argument f values rest => (.arguments f (values ++ [v]) rest k, environment)
  | .prompted => (.call .read k, environment)

def otherwise (orElse : Option (List Stmt)) : List Conditional → Control
  | [] =>
    match orElse with
    | some b => .block b
    | none => .flow .next
  | .mk condition body _ _ :: rest => .eval condition (.use (.branch body rest orElse))

def select (subject : Value) : List Case → Control
  | [] => .raised (.noMatchingCase subject.render)
  | .mk value body :: rest => .eval value (.use (.case subject body rest))

abbrev Point := Control × List Enclosing × Environment

/-- Give a value to the statement that waits for it. -/
def Use.receive (v : Value) (enclosing : List Enclosing) (environment : Environment) : Use → Point
  | .declare name => (.flow .next, enclosing, environment.insert name v)
  | .drop => (.flow .next, enclosing, environment)
  | .ret => (.flow (.returned v), enclosing, environment)
  | .branch body further orElse =>
    (.onTruth v (.block body) (otherwise orElse further), enclosing, environment)
  | .test loop =>
    match v.truth with
    | .ok true => (.block loop.body, .round loop :: enclosing, environment)
    | .ok false => (.flow .next, enclosing, environment)
    | .error e => (.raised e, enclosing, environment)
  | .again loop => (.eval loop.condition (.use (.test loop)), enclosing, environment)
  | .collection name body =>
    match Items.ofValue v with
    | .ok items => (.iterate name (.ofItems items) body, enclosing, environment)
    | .error e => (.raised e, enclosing, environment)
  | .subject cases => (select v cases, enclosing, environment)
  | .case expected body rest =>
    (if v = expected then .block body else select expected rest, enclosing, environment)

def collect (k : Waiting) (collection : Expr) : Control :=
  match collection with
  | .call .free name bounds =>
    if name = "range" then .arguments .range [] bounds k else .eval collection k
  | _ => .eval collection k

def execute (enclosing : List Enclosing) (environment : Environment) : Stmt → Point
  | .comment _ => (.flow .next, enclosing, environment)
  | .declare type name none => (.flow .next, enclosing, environment.insert name type.initialValue)
  | .declare _ name (some e) => (.eval e (.use (.declare name)), enclosing, environment)
  | .expr e => (.eval e (.use .drop), enclosing, environment)
  | .ret none => (.flow (.returned .absent), enclosing, environment)
  | .ret (some e) => (.eval e (.use .ret), enclosing, environment)
  | .conditional (.mk condition body elseIfs orElse) =>
    (.eval condition (.use (.branch body elseIfs orElse)), enclosing, environment)
  | .forLoop initial condition increment body =>
    (.exec initial, .head ⟨condition, some increment, body⟩ :: enclosing, environment)
  | .forIn name _ collection body =>
    (collect (.use (.collection name body)) collection, enclosing, environment)
  | .whileLoop condition body =>
    (.eval condition (.use (.test ⟨condition, none, body⟩)), enclosing, environment)
  | .doWhile body condition =>
    (.block body, .round ⟨condition, none, body⟩ :: enclosing, environment)
  | .switch subject cases => (.eval subject (.use (.subject cases)), enclosing, environment)
  | .attempt body errorType binding handler =>
    (.block body, .attempt errorType binding handler :: enclosing, environment)

/-- Go on where statements have ended without a return. -/
def Enclosing.resume : Enclosing → Control
  | .rest ss => .block ss
  | .head loop => .eval loop.condition (.use (.test loop))
  | .round loop =>
    match loop.increment with
    | some e => .eval e (.use (.again loop))
    | none => .eval loop.condition (.use (.test loop))
  | .item name items body => .iterate name items body
  | .attempt _ _ _ => .flow .next

/-- Leave what encloses a return. Only the head of a loop goes on behind one. -/
def Enclosing.leave (v : Value) : Enclosing → Control
  | .head loop => .eval loop.condition (.use (.test loop))
  | _ => .flow (.returned v)

/-- Leave what encloses an error, unless it is a body whose handler takes it. -/
def Enclosing.unwind (e : RuntimeError) (environment : Environment) :
    Enclosing → Control × Environment
  | .attempt errorType binding handler =>
    if e.caughtBy errorType then (.block handler, environment.insert binding (.string e.message))
    else (.raised e, environment)
  | _ => (.raised e, environment)

/-- One step, but for calls of the console. A run ends where nothing encloses its flow or its
error. -/
def next? (enclosing : List Enclosing) (environment : Environment) : Control → Option Point
  | .block [] => some (.flow .next, enclosing, environment)
  | .block (s :: rest) => some (.exec s, .rest rest :: enclosing, environment)
  | .exec s => some (execute enclosing environment s)
  | .iterate name items body =>
    match items.next? with
    | none => some (.flow .next, enclosing, environment)
    | some (v, rest) =>
      some (.block body, .item name rest body :: enclosing, environment.insert name v)
  | .flow f =>
    match f, enclosing with
    | _, [] => none
    | .next, within :: outer => some (within.resume, outer, environment)
    | .returned v, within :: outer => some (within.leave v, outer, environment)
  | .raised e =>
    match enclosing with
    | [] => none
    | within :: outer =>
      some ((within.unwind e environment).1, outer, (within.unwind e environment).2)
  | .eval e k => some (evaluate environment k e, enclosing, environment)
  | .arguments f values [] k => some (f.apply k values, enclosing, environment)
  | .arguments f values (e :: rest) k =>
    some (.eval e (.within (.argument f values rest) k), enclosing, environment)
  | .value v (.within operand k) =>
    some ((operand.receive v k environment).1, enclosing, (operand.receive v k environment).2)
  | .value v (.use u) => some (u.receive v enclosing environment)
  | .items items (.use (.collection name body)) =>
    some (.iterate name (.ofItems items) body, enclosing, environment)
  | .items _ _ => none
  | .call _ _ => none

structure Config (σ : Type) where
  control : Control
  enclosing : List Enclosing
  state : RunState σ

namespace Config

variable {σ : Type} [Console σ]

def step (c : Config σ) : Option (Config σ) :=
  match c.control with
  | .call call k =>
    match call.perform c.state.console with
    | (.ok v, console) => some ⟨.value v k, c.enclosing, { c.state with console := console }⟩
    | (.error reason, console) =>
      some ⟨.raised (.console reason), c.enclosing, { c.state with console := console }⟩
  | control =>
    (next? c.enclosing c.state.environment control).map fun (control, enclosing, environment) =>
      ⟨control, enclosing, { c.state with environment := environment }⟩

/-- The run after so many steps, if it does not end before. -/
def after : Nat → Config σ → Option (Config σ)
  | 0, c => some c
  | n + 1, c => c.step.bind (after n)

def result? (c : Config σ) : Option (Outcome σ Flow) :=
  match c.control, c.enclosing with
  | .flow f, [] => some (.done f c.state)
  | .raised e, [] => some (.failed e c.state)
  | _, _ => none

end Config

end Machine

open Machine

def Program.start {σ : Type} (p : Program) (console : σ) : Config σ :=
  match p.function? "main" with
  | some main => ⟨.block main.body, [], ⟨.empty, console⟩⟩
  | none => ⟨.raised .missingMain, [], ⟨.empty, console⟩⟩

end VnScript
