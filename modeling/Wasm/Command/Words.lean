import Wasm.Text.Numeral

/-!
The words of the command line.  A command is `check FILE`, `dump FILE` or `run FILE ARG…`.  Options
of `run` may stand before or right after the file; from the first argument on, every word is an
argument.  A word `--` ends the options.  An option may be given once: `-v` once before the name of
the command and once after it.  Words are read from left to right, and the first one that is wrong,
or that asks for help, ends the reading.
-/

namespace Wasm

/-- What the command line asks for. -/
inductive Command where
  /-- To validate a file. -/
  | check (file : String)
  /-- To print the listing of a file. -/
  | dump (file : String)
  /-- To call an export of a file. -/
  | run (file exportName : String) (maxCallDepth : Option Nat) (args : List String)
deriving Repr, DecidableEq

namespace Command

/-- Why words give no command. -/
inductive Stop where
  | rejected
  | help
deriving Repr, DecidableEq

/-- The options that take a value. -/
inductive Setting where
  | exportName
  | maxCallDepth
deriving Repr, DecidableEq

/-- The kinds of words. -/
inductive Word where
  /-- The end of the options. -/
  | separator
  /-- Options of one letter each, which are `v` and `h`. -/
  | letters (cs : List Char)
  /-- An option whose value is the next word. -/
  | setting (s : Setting)
  /-- An option with its value. -/
  | settingTo (s : Setting) (value : String)
  /-- An option that takes no value, with a value. -/
  | misused
  /-- A word that looks like an option and is none. -/
  | unknown
  | plain
deriving Repr, DecidableEq

/-- The value in an option of the form `NAME=VALUE`. -/
def attached? (option word : String) : Option String :=
  let start := option.toList ++ ['=']
  if word.toList.take start.length = start then
    some (String.ofList (word.toList.drop start.length))
  else none

/-- The kind of a word. -/
def Word.of (word : String) : Word :=
  if word = "--" then .separator
  else if word = "--verbose" then .letters ['v']
  else if word = "--help" then .letters ['h']
  else if word = "--invoke" then .setting .exportName
  else if word = "--max-call-depth" then .setting .maxCallDepth
  else if (attached? "--verbose" word <|> attached? "--help" word).isSome then .misused
  else match attached? "--invoke" word, attached? "--max-call-depth" word with
    | some value, _ => .settingTo .exportName value
    | none, some value => .settingTo .maxCallDepth value
    | none, none =>
      match word.toList with
      | '-' :: c :: cs =>
        if (c :: cs).all fun c => c == 'v' || c == 'h' then .letters (c :: cs) else .unknown
      | _ => .plain

/-- Reads options of one letter, given whether `v` has come before, and gives whether it has now. -/
def letters (verbose : Bool) : List Char → Except Stop Bool
  | [] => .ok verbose
  | 'v' :: cs => if verbose then .error .rejected else letters true cs
  | 'h' :: _ => .error .help
  | _ => .error .rejected

/-- A path, which is never empty. -/
def path (word : String) : Except Stop String :=
  if word.isEmpty then .error .rejected else .ok word

/-- A depth, as an option or the environment gives it. -/
def depth (text : String) : Except Stop Nat :=
  match Text.natural? text.toList with
  | some n => if n < 18446744073709551616 then .ok n else .error .rejected
  | none => .error .rejected

/-! ### Commands with one file -/

/-- The only file that words name, given the file that has been named before them and whether `-v`
has come. -/
def onlyFile (verbose : Bool) (file : Option String) : List String → Except Stop String
  | [] =>
    match file with
    | some file => .ok file
    | none => .error .rejected
  | word :: rest =>
    match Word.of word with
    | .separator =>
      match file.toList ++ rest with
      | [file] => path file
      | _ => .error .rejected
    | .letters cs =>
      match letters verbose cs with
      | .ok verbose => onlyFile verbose file rest
      | .error stop => .error stop
    | .plain =>
      match file, path word with
      | none, .ok file => onlyFile verbose (some file) rest
      | _, _ => .error .rejected
    | _ => .error .rejected

/-! ### Running -/

/-- What the words of `run` have said so far. -/
structure Collected where
  file : Option String := none
  exportName : Option String := none
  maxCallDepth : Option Nat := none
  verbose : Bool := false
  /-- The arguments, the last one first. -/
  args : List String := []
deriving Repr, DecidableEq

namespace Collected

/-- Adds a word that is no option: the file, or an argument. -/
def add (c : Collected) (word : String) : Except Stop Collected :=
  match c.file with
  | none => (path word).map fun file => { c with file := some file }
  | some _ => .ok { c with args := word :: c.args }

/-- Gives a value to an option, which may be done once. -/
def assign (c : Collected) (s : Setting) (value : String) : Except Stop Collected :=
  match s with
  | .exportName =>
    if c.exportName.isSome then .error .rejected else .ok { c with exportName := some value }
  | .maxCallDepth =>
    if c.maxCallDepth.isSome then .error .rejected
    else (depth value).map fun n => { c with maxCallDepth := some n }

/-- Whether a word can be a file, an argument or a value here.  After the file, so can a word that
looks like an option and is none. -/
def takes (c : Collected) (word : String) : Bool :=
  match Word.of word with
  | .plain => true
  | .unknown => c.file.isSome
  | _ => false

/-- Reads the words after `run`. -/
def words (c : Collected) : List String → Except Stop Collected
  | [] => .ok c
  | word :: rest =>
    if c.args ≠ [] then (word :: rest).foldlM add c
    else match Word.of word with
      | .separator => rest.foldlM add c
      | .letters cs =>
        match letters c.verbose cs with
        | .ok verbose => words { c with verbose } rest
        | .error stop => .error stop
      | .settingTo s value =>
        match c.assign s value with
        | .ok c => words c rest
        | .error stop => .error stop
      | .setting s =>
        match rest with
        | [] => .error .rejected
        | value :: rest =>
          if c.takes value then
            match c.assign s value with
            | .ok c => words c rest
            | .error stop => .error stop
          else .error .rejected
      | .misused => .error .rejected
      | .unknown | .plain =>
        if c.takes word then
          match c.add word with
          | .ok c => words c rest
          | .error stop => .error stop
        else .error .rejected

/-- The command; the depth from the environment counts where no option gives one. -/
def command (c : Collected) (depthFromEnvironment : Option String) : Except Stop Command := do
  let maxCallDepth ← match c.maxCallDepth, depthFromEnvironment with
    | some n, _ => pure (some n)
    | none, some text => some <$> depth text
    | none, none => pure none
  match c.file with
  | some file => return .run file (c.exportName.getD "main") maxCallDepth c.args.reverse
  | none => throw .rejected

end Collected

/-! ### Whole command lines -/

/-- Reads the words from the options before the name of the command on, given whether `-v` has come
among them. -/
def parseFrom (depthFromEnvironment : Option String) (verbose : Bool) :
    List String → Except Stop Command
  | "check" :: rest => (onlyFile false none rest).map check
  | "dump" :: rest => (onlyFile false none rest).map dump
  | "run" :: rest => do (← Collected.words {} rest).command depthFromEnvironment
  | word :: rest =>
    match Word.of word with
    | .letters cs =>
      match letters verbose cs with
      | .ok verbose => parseFrom depthFromEnvironment verbose rest
      | .error stop => .error stop
    | _ => .error .rejected
  | [] => .error .rejected

/-- What the words of a command line ask for. -/
def parse (depthFromEnvironment : Option String) (words : List String) : Except Stop Command :=
  parseFrom depthFromEnvironment false words

end Command

end Wasm
