import Rebalance.Json.Value
import Rebalance.Decimal.Shortest
/-!
# Compact JSON text

Values are written without spaces. In strings a double quote, a backslash and the controls
`\n`, `\r`, `\t`, backspace and form feed get their short escapes, other characters below
U+0020 are written `\u00xx` in lower-case hex, and everything else is written as it is.
Binary64 numbers are written with the fewest digits that read back, positionally while the
point falls after at most 16 digits and fewer than 5 zeros follow it, with `.0` when integral;
otherwise as `d.ddde+x` or `d.ddde-x`.
-/

namespace Rebalance.Json

/-- How binary64 numbers are written in JSON text and in messages about them. -/
def numberStyle : Decimal.Style := ⟨16, -5, true, true⟩

/-- Two lower-case hex digits. -/
def hex2 (n : Nat) : String :=
  let d := Nat.toDigits 16 n
  String.ofList (List.replicate (2 - d.length) '0' ++ d)

/-- The written form of one character inside a JSON string. -/
def escapeChar (c : Char) : String :=
  match c with
  | '"' => "\\\""
  | '\\' => "\\\\"
  | '\n' => "\\n"
  | '\r' => "\\r"
  | '\t' => "\\t"
  | '\x08' => "\\b"
  | '\x0c' => "\\f"
  | c => if c.toNat < 0x20 then "\\u00" ++ hex2 c.toNat else c.toString

/-- A JSON string literal for `s`. -/
def quote (s : String) : String := "\"" ++ String.join (s.toList.map escapeChar) ++ "\""

/-- The text of a number. -/
def Number.write : Number → String
  | .nat n => toString n
  | .neg n => toString n
  | .float x => Decimal.render numberStyle x

mutual

/-- The compact text of a value. -/
def Value.write : Value → String
  | .null => "null"
  | .bool true => "true"
  | .bool false => "false"
  | .number n => n.write
  | .string s => quote s
  | .array items => "[" ++ writeItems items ++ "]"
  | .object members => "\x7b" ++ writeMembers members ++ "\x7d"

/-- Array items separated by commas. -/
def writeItems : List Value → String
  | [] => ""
  | [v] => v.write
  | v :: rest => v.write ++ "," ++ writeItems rest

/-- Object members `"key":value` separated by commas. -/
def writeMembers : List (String × Value) → String
  | [] => ""
  | [(k, v)] => quote k ++ ":" ++ v.write
  | (k, v) :: rest => quote k ++ ":" ++ v.write ++ "," ++ writeMembers rest

end

end Rebalance.Json
