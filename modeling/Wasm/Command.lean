import Wasm.Command.Words
import Wasm.Embedding
import Wasm.File
import Wasm.Host.Env
import Wasm.Listing

/-!
The commands.  Each command turns the content of a file into a `Report`: an exit code, and what goes
to the two outputs.  A failure is reported with what was being done and, below it, the cause.
-/

namespace Wasm

/-- The outcome of a command. -/
structure Report where
  code : Nat := 0
  output : String := ""
  complaint : String := ""
deriving Repr, DecidableEq

namespace Report

/-- Indents the second and all further lines of a cause. -/
def indented (text : String) : String :=
  String.join (text.toList.map fun c => if c = '\n' then "\n    " else c.toString)

/-- A failure without a cause below it, after some output. -/
def failure (output what : String) : Report :=
  { code := 1, output, complaint := "Error: " ++ what ++ "\n" }

/-- A failure with its cause, after some output. -/
def failureBy (output what : String) (cause : Error) : Report :=
  failure output (what ++ "\n\nCaused by:\n    " ++ indented cause.toText)

/-- The forms of a command line. -/
def usage : String :=
  "usage: check FILE | dump FILE | run FILE [ARGS...]\n"

/-- A command line that asks for help. -/
def help : Report :=
  { output := usage }

/-- A command line that is rejected. -/
def rejected : Report :=
  { code := 2, complaint := usage }

end Report

namespace Command

/-- What host functions have printed. -/
def printed (events : List Event) : String :=
  String.join (events.reverse.map fun
    | .printed text => text
    | .noted _ => "")

/-- The values that a list of texts writes. -/
def parseArgs : List ValueType → List String → Except Error (List Value)
  | t :: types, s :: texts =>
    match Value.parse t s with
    | .error e => .error e
    | .ok v =>
      match parseArgs types texts with
      | .ok vs => .ok (v :: vs)
      | .error e => .error e
  | _, _ => .ok []

/-- The signature of an exported function. -/
def exportedType? (m : Module) (name : String) : Option FuncType :=
  (m.export? name).bind fun e => if e.kind = .func then m.funcType? e.index else none

/-- The report on a computation that has not ended. -/
def unfinished : Report :=
  Report.failure "" "execution takes too many steps"

/-- Calls an exported function of a new instance, and prints its results, one a line. -/
def callExport (m : Module) (name : String) (args : List Value) (config : Config) : Report :=
  match Store.instantiate Machine.ample {} [(Env.name, .native Env.module)] m config with
  | none => unfinished
  | some (.error e, s) => .failureBy (printed s.events) "Instantiation failed" e
  | some (.ok a, s) =>
    match s.invoke Machine.ample a name args with
    | none => unfinished
    | some (.error e, s) =>
      .failureBy (printed s.events) s!"Invocation of {Text.quoted name} failed" e
    | some (.ok values, s) =>
      { output := printed s.events ++ String.join (values.map fun v => v.text ++ "\n") }

/-- Calls an exported function with arguments in text. -/
def runModule (m : Module) (name : String) (depth : Option Nat) (args : List String) : Report :=
  match exportedType? m name with
  | none => .failure "" s!"No exported function {Text.quoted name}"
  | some type =>
    if args.length ≠ type.params.length then
      .failure "" s!"{name} has type {type.text} but {args.length} arguments were given"
    else match parseArgs type.params args with
      | .error e => .failure "" e.toText
      | .ok values =>
        let config : Config := {}
        callExport m name values { config with maxCallDepth := depth.getD config.maxCallDepth }

/-- Carries out a command, given a way to read files. -/
def execute (read : String → Except FileFault (List UInt8)) (c : Command) : Report :=
  let file := match c with
    | check file | dump file | run file .. => file
  match Module.ofFile file (read file) with
  | .error e => .failureBy "" "Failed to decode WebAssembly file" e
  | .ok m =>
    match c with
    | check file =>
      match Validation.module m with
      | .error e => .failureBy "" "Validation failed" e
      | .ok () => { output := file ++ ": ok\n" }
    | dump _ => { output := m.listing }
    | run _ name depth args => runModule m name depth args

/-- Carries out the command that the words of a command line ask for. -/
def executeWords (read : String → Except FileFault (List UInt8)) (depth : Option String)
    (words : List String) : Report :=
  match parse depth words with
  | .ok c => execute read c
  | .error .help => .help
  | .error .rejected => .rejected

end Command

end Wasm
