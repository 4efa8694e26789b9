import Wasm.Text.Numeral

/-!
Failures.  Every stage of the library reports a failure as one `Error`: a category, a numeric code,
and a message to which callers may put a context in front.  Codes come in ranges, one for each
category, so that the category can be told from the code alone; the site that raises a failure names
both.
-/

namespace Wasm

/-- What kind of failure it is. -/
inductive Category where
  | parse
  | io
  | validation
  | link
  | trap
  | runtime
deriving Repr, DecidableEq

namespace Category

/-- The category of a code: its range, with one code of the first range set apart for files. -/
def ofCode (code : Nat) : Category :=
  if code = 1018 then .io
  else match code / 1000 with
    | 1 => .parse
    | 2 => .validation
    | 3 => .link
    | 4 => .trap
    | _ => .runtime

/-- The word for a category in printed errors. -/
def name : Category → String
  | .parse => "Parse"
  | .io => "Io"
  | .validation => "Validation"
  | .link => "Link"
  | .trap => "RuntimeTrap"
  | .runtime => "Runtime"

end Category

/-- A failure. -/
structure Error where
  category : Category
  code : Nat
  message : String
deriving Repr, DecidableEq

namespace Error

/-! The failures of each stage. -/

def parse (code : Nat) (message : String) : Error := ⟨.parse, code, message⟩

def validation (code : Nat) (message : String) : Error := ⟨.validation, code, message⟩

def link (code : Nat) (message : String) : Error := ⟨.link, code, message⟩

def trap (code : Nat) (message : String) : Error := ⟨.trap, code, message⟩

def runtime (code : Nat) (message : String) : Error := ⟨.runtime, code, message⟩

/-- A failure that is given by its code alone, as one from outside may be. -/
def ofCode (code : Nat) (message : String) : Error := ⟨Category.ofCode code, code, message⟩

/-! What callers ask of a failure. -/

def isParse (e : Error) : Bool := e.category == .parse

def isValidation (e : Error) : Bool := e.category == .validation

def isLink (e : Error) : Bool := e.category == .link

def isTrap (e : Error) : Bool := e.category == .trap

def isRuntime (e : Error) : Bool := e.category == .runtime

/-- The failure seen from further out, where `outer` says what was being done. -/
def context (outer : String) (e : Error) : Error :=
  { e with message := outer ++ ": " ++ e.message }

/-- The printed form: category, code in hexadecimal, message. -/
def toText (e : Error) : String :=
  "[" ++ e.category.name ++ "][E" ++ (Text.hexPadded 4 e.code).toUpper ++ "] " ++ e.message

@[simp] theorem code_context (outer : String) (e : Error) : (e.context outer).code = e.code := rfl

@[simp] theorem category_context (outer : String) (e : Error) :
    (e.context outer).category = e.category := rfl

end Error

/-- Puts a context in front of the message of a failure; the text is only built if there is one. -/
def withContext {α : Type} (outer : Unit → String) : Except Error α → Except Error α
  | .ok a => .ok a
  | .error e => .error (e.context (outer ()))

/-! ### Codes -/

namespace Code

/-! Reading a binary module. -/

def badMagic : Nat := 1000
def badVersion : Nat := 1001
def unexpectedEnd : Nat := 1002
def varintOverflow : Nat := 1003
def sectionOrder : Nat := 1004
def sectionSize : Nat := 1005
def unknownSection : Nat := 1006
def unknownOpcode : Nat := 1007
def invalidValueType : Nat := 1008
def invalidBlockType : Nat := 1009
def invalidUtf8 : Nat := 1010
def malformedLimits : Nat := 1011
def invalidExternalKind : Nat := 1012
def invalidElementType : Nat := 1013
def zeroByteExpected : Nat := 1014
def invalidMutability : Nat := 1015
def tooManyLocals : Nat := 1016
def invalidFuncType : Nat := 1017
def file : Nat := 1018

/-! Validation. -/

def typeMismatch : Nat := 2000
def stackHeight : Nat := 2001
def typeIndex : Nat := 2002
def functionIndex : Nat := 2003
def tableIndex : Nat := 2004
def memoryIndex : Nat := 2005
def globalIndex : Nat := 2006
def localIndex : Nat := 2007
def labelIndex : Nat := 2008
def multipleTables : Nat := 2009
def multipleMemories : Nat := 2010
def invalidLimits : Nat := 2011
def duplicateExport : Nat := 2012
def constantRequired : Nat := 2013
def invalidAlignment : Nat := 2014
def invalidStart : Nat := 2015
def immutableGlobal : Nat := 2016
def functionCodeMismatch : Nat := 2017
def branchTableArity : Nat := 2018

/-! Linking. -/

def unknownImportModule : Nat := 3000
def unknownImport : Nat := 3001
def incompatibleImport : Nat := 3002

/-! Traps. -/

def unreachable : Nat := 4000
def divisionByZero : Nat := 4001
def integerOverflow : Nat := 4002
def invalidConversion : Nat := 4003
def memoryOutOfBounds : Nat := 4004
def tableOutOfBounds : Nat := 4005
def uninitializedElement : Nat := 4006
def indirectCallType : Nat := 4007
def stackUnderflow : Nat := 4008
def stackOverflow : Nat := 4009
def callStackExhausted : Nat := 4010
def undefinedFunction : Nat := 4011
def invalidGlobalAccess : Nat := 4012
def missingInstance : Nat := 4013

/-! The host side. -/

def invalidSignature : Nat := 5000
def exportNotFound : Nat := 5001
def argumentMismatch : Nat := 5002
def hostFailed : Nat := 5003
def duplicateMember : Nat := 5004
def instanceUnavailable : Nat := 5005
def resourceLimit : Nat := 5006

end Code

end Wasm
