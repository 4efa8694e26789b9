import Wasm.Text.Blank
import Wasm.Text.Quoted
import Wasm.Types

/-!
Signatures of host functions in text, as `add(i32,i32)->(i32)`: a name, then the parameter types and
the result types, each list between parentheses.  White space may stand around every part, but not
inside a name, a type or the arrow.
-/

namespace Wasm.Signature

/-- Why a text is no signature. -/
inductive Fault where
  | missingParameters
  | badName (name : String)
  | unterminatedParameters
  | missingArrow
  | resultsNotInParentheses
  | unknownType (name : String)
deriving Repr, DecidableEq

/-- The wording of a fault. -/
def Fault.message : Fault → String
  | missingParameters => "missing parameter list"
  | badName name => s!"bad function name {Text.quoted name}"
  | unterminatedParameters => "unterminated parameter list"
  | missingArrow => "expected `->` after parameters"
  | resultsNotInParentheses => "results must be a parenthesised list"
  | unknownType name => s!"unknown value type {Text.quoted name}"

/-- What stands before and after the first occurrence of a character. -/
def splitAt? (c : Char) : List Char → Option (List Char × List Char)
  | [] => none
  | d :: rest =>
    if d = c then some ([], rest)
    else (splitAt? c rest).map fun (before, after) => (d :: before, after)

/-- The parts between commas; there is always at least one. -/
def parts : List Char → List (List Char)
  | [] => [[]]
  | c :: rest =>
    if c = ',' then [] :: parts rest
    else match parts rest with
      | [] => [[c]]
      | part :: more => (c :: part) :: more

/-- A character that a function name cannot hold. -/
def isForbidden (c : Char) : Bool :=
  Text.isBlank c || c == ')' || c == '-'

/-- The type that a list item names. -/
def readType (item : List Char) : Except Fault ValueType :=
  let name := Text.trim item
  match ValueType.ofName? name with
  | some t => .ok t
  | none => .error (.unknownType (String.ofList name))

/-- The types of a list. -/
def readTypes (list : List Char) : Except Fault (List ValueType) :=
  if (Text.trim list).isEmpty then .ok []
  else (parts list).mapM readType

/-- The text without a character at its start and another one at its end. -/
def between? (first last : Char) : List Char → Option (List Char)
  | [] => none
  | c :: rest =>
    if c = first ∧ rest.getLast? = some last then some rest.dropLast else none

/-- What stands in the parentheses of the results, given what follows the parameters. -/
def results (s : List Char) : Except Fault (List Char) :=
  match Text.trimLeft s with
  | '-' :: '>' :: rest =>
    match between? '(' ')' (Text.trim rest) with
    | some list => .ok list
    | none => .error .resultsNotInParentheses
  | _ => .error .missingArrow

/-- Reads the name and the type of a signature. -/
def read (s : List Char) : Except Fault (List Char × FuncType) :=
  match splitAt? '(' (Text.trim s) with
  | none => .error .missingParameters
  | some (name, rest) =>
    let name := Text.trim name
    if name.isEmpty || name.any isForbidden then .error (.badName (String.ofList name))
    else match splitAt? ')' rest with
      | none => .error .unterminatedParameters
      | some (params, rest) => do
        let results ← results rest
        let params ← readTypes params
        let results ← readTypes results
        return (name, ⟨params, results⟩)

/-- The name and the type that a text writes. -/
def parse (text : String) : Except Error (String × FuncType) :=
  match read text.toList with
  | .ok (name, type) => .ok (String.ofList name, type)
  | .error why => .error
    (.runtime Code.invalidSignature s!"invalid signature {Text.quoted text}: {why.message}")

end Wasm.Signature
