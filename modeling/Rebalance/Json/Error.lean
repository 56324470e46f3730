import Rebalance.Json.Write
import Rebalance.Text.Quoted
/-!
# Why a JSON text could not be read

A reading error is either a flaw in the form of the text, found at a character, or a mismatch
between a well-formed value and the value the reader expected (a string where a number was
wanted, a missing member, …). Every error that leaves the reader has a position: the line
(from 1) and the column, counted in bytes of UTF-8 from the start of that line. A mismatch is
found before the reader knows where to report it, so it is first made without a position and
given the reader's position when it leaves the value that it concerns.
-/

namespace Rebalance.Json

/-- A place in the text: line from 1, column in bytes from the start of the line. -/
structure Position where
  line : Nat
  column : Nat
deriving DecidableEq, Repr

/-- Flaws of the text's form, found at a character. -/
inductive Flaw where
  | eofWhileParsingList
  | eofWhileParsingObject
  | eofWhileParsingString
  | eofWhileParsingValue
  | expectedColon
  | expectedListCommaOrEnd
  | expectedObjectCommaOrEnd
  | expectedSomeIdent
  | expectedSomeValue
  | invalidEscape
  | invalidNumber
  | numberOutOfRange
  | controlCharacterWhileParsingString
  | keyMustBeAString
  | loneLeadingSurrogateInHexEscape
  | trailingComma
  | trailingCharacters
  | unexpectedEndOfHexEscape
  | recursionLimitExceeded
deriving DecidableEq, Repr

namespace Flaw

/-- The phrase for a flaw. -/
def text : Flaw → String
  | eofWhileParsingList => "EOF while parsing a list"
  | eofWhileParsingObject => "EOF while parsing an object"
  | eofWhileParsingString => "EOF while parsing a string"
  | eofWhileParsingValue => "EOF while parsing a value"
  | expectedColon => "expected `:`"
  | expectedListCommaOrEnd => "expected `,` or `]`"
  | expectedObjectCommaOrEnd => "expected `,` or `\x7d`"
  | expectedSomeIdent => "expected ident"
  | expectedSomeValue => "expected value"
  | invalidEscape => "invalid escape"
  | invalidNumber => "invalid number"
  | numberOutOfRange => "number out of range"
  | controlCharacterWhileParsingString =>
    "control character (\\u0000-\\u001F) found while parsing a string"
  | keyMustBeAString => "key must be a string"
  | loneLeadingSurrogateInHexEscape => "lone leading surrogate in hex escape"
  | trailingComma => "trailing comma"
  | trailingCharacters => "trailing characters"
  | unexpectedEndOfHexEscape => "unexpected end of hex escape"
  | recursionLimitExceeded => "recursion limit exceeded"

end Flaw

/-- A value that was found where another was expected. -/
inductive Found where
  | bool (b : Bool)
  | unsigned (n : Nat)
  | signed (n : Int)
  | float (x : Binary64)
  | string (s : String)
  | null
  | sequence
  | map

namespace Found

/-- How a found value is named in a message. -/
def text : Found → String
  | bool b => "boolean `" ++ toString b ++ "`"
  | unsigned n => "integer `" ++ toString n ++ "`"
  | signed n => "integer `" ++ toString n ++ "`"
  | float x => "floating point `" ++ Decimal.render numberStyle x ++ "`"
  | string s => "string " ++ Text.quote s
  | null => "null"
  | sequence => "sequence"
  | map => "map"

/-- The found value for a number, by the kind it was read as. -/
def ofNumber : Number → Found
  | .nat n => unsigned n
  | .neg n => signed n
  | .float x => float x

end Found

/-- What went wrong. -/
inductive Problem where
  | flaw (code : Flaw)
  | invalidType (found : Found) (expected : String)
  | invalidValue (found : Found) (expected : String)
  | invalidLength (count : Nat) (expected : String)
  | missingField (name : String)
  | duplicateField (name : String)

namespace Problem

/-- The phrase for a problem. -/
def text : Problem → String
  | flaw code => code.text
  | invalidType found expected => "invalid type: " ++ found.text ++ ", expected " ++ expected
  | invalidValue found expected => "invalid value: " ++ found.text ++ ", expected " ++ expected
  | invalidLength count expected =>
    "invalid length " ++ toString count ++ ", expected " ++ expected
  | missingField name => "missing field `" ++ name ++ "`"
  | duplicateField name => "duplicate field `" ++ name ++ "`"

end Problem

/-- A reading error and, once known, where it was found. -/
structure Error where
  problem : Problem
  position : Option Position

namespace Error

/-- The message: the problem, then ` at line L column C`. -/
def message (e : Error) : String :=
  match e.position with
  | some p => e.problem.text ++ " at line " ++ toString p.line ++ " column " ++ toString p.column
  | none => e.problem.text

/-- The error placed at `p` unless it already has a place. -/
def placeAt (e : Error) (p : Position) : Error :=
  match e.position with
  | some _ => e
  | none => ⟨e.problem, some p⟩

end Error

end Rebalance.Json
