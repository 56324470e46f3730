import Rebalance.Text.Printable
import Rebalance.Text.Listing
/-!
# Debug quoting of strings

Store names and other strings are shown in messages between double quotes, with the characters
that could be misread escaped:

* `\0`, `\t`, `\r`, `\n`, a backslash and a double quote get a backslash escape (a single quote
  stays as it is);
* a character that attaches to its predecessor (`isExtending`) or is not printable
  (`isPrintable`) is written `\u{h}` with its code point in lower-case hex, no padding;
* every other character is written as it is.
-/

namespace Rebalance.Text

/-- Lower-case hex digits of `n`, without padding. -/
def hexDigits (n : Nat) : String := String.ofList (Nat.toDigits 16 n)

/-- The written form of one character inside a quoted string. -/
def escapeChar (c : Char) : String :=
  match c with
  | '\x00' => "\\0"
  | '\t' => "\\t"
  | '\r' => "\\r"
  | '\n' => "\\n"
  | '\\' => "\\\\"
  | '"' => "\\\""
  | c =>
    if isExtending c || !isPrintable c then "\\u\x7b" ++ hexDigits c.toNat ++ "\x7d"
    else c.toString

/-- The string between double quotes, its characters escaped by `escapeChar`. -/
def quote (s : String) : String := "\"" ++ String.join (s.toList.map escapeChar) ++ "\""

/-- A list of strings, each quoted, as a bracketed listing. -/
def quotedListing (items : List String) : String := listing (items.map quote)

end Rebalance.Text
