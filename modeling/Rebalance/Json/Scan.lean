import Rebalance.Json.Error
/-!
# Scanning numbers and strings

The leaves of JSON text are read by pure functions on the remaining characters. A scanner
returns what it read and how many characters it used, or the flaw it found, with the number of
characters used before the flaw and how many bytes further on the flaw is reported (0: right
there, 1: after the next byte, 4: after the four bytes of a broken `\u` escape).

Numbers: an integer whose digits fit in 64 bits is kept exact (negative ones down to `-2^63`);
further integer digits are dropped and counted as powers of ten; anything with a fraction or an
exponent becomes a binary64 number through `Binary64.ofDecimal`. A leading zero may not be
followed by a digit, a point must be followed by a digit, an exponent must have a digit, and
an exponent beyond 32 bits saturates, or makes the number zero or out of range.

Strings: `"` ends the string, `\` starts an escape (`\"`, `\\`, `\/`, `\b`, `\f`, `\n`, `\r`,
`\t`, `\uXXXX`; a leading surrogate must be followed by an escaped trailing one), and a control
character below U+0020 is a flaw. `skipString` checks the same text without keeping it, and
reports a control character before it rather than after it.
-/

namespace Rebalance.Json

/-- What a scanner read and how many characters it used, or where it found a flaw. -/
inductive Scan (α : Type) where
  | done (value : α) (used : Nat)
  | fail (flaw : Flaw) (used : Nat) (extraBytes : Nat)

/-- Whether the character is a decimal digit. -/
def isDigit (c : Char) : Bool := '0' ≤ c && c ≤ '9'

/-- The value of a decimal digit. -/
def digitValue (c : Char) : Nat := c.toNat - 48

/-- Whether `10 · s + d` exceeds the largest 64-bit value. -/
def overflowsU64 (s d : Nat) : Bool :=
  s > 1844674407370955161 || (s == 1844674407370955161 && d > 5)

/-- Whether `10 · s + d` exceeds the largest signed 32-bit value. -/
def overflowsI32 (s d : Nat) : Bool := s > 214748364 || (s == 214748364 && d > 7)

/-- Clamps to the signed 32-bit range. -/
def saturateI32 (x : Int) : Int := max (-2147483648) (min 2147483647 x)

/-- The number of leading decimal digits. -/
def digitRun : List Char → Nat
  | c :: rest => if isDigit c then digitRun rest + 1 else 0
  | [] => 0

/-- An integer read with the given sign: exact when it fits, else binary64; `-0` is the
binary64 negative zero. -/
def integerOf (positive : Bool) (sig : Nat) : Number :=
  if positive then .nat sig
  else if 1 ≤ sig ∧ sig ≤ Nat.pow 2 63 then .neg (-(sig : Int))
  else .float (Binary64.ofNat sig).neg

/-- The binary64 number `±sig · 10^exp`, or out of range. -/
def floatOf (positive : Bool) (sig : Nat) (exp : Int) (used : Nat) : Scan Number :=
  match Binary64.ofDecimal sig exp with
  | some x => .done (.float (if positive then x else x.neg)) used
  | none => .fail .numberOutOfRange used 0

/-- The digits of an exponent after its first one. A 32-bit overflow ends the number: out of
range for a non-zero significand and a positive exponent, else zero. -/
def scanExponentDigits (positive : Bool) (sig : Nat) (start : Int) (up : Bool) (exp : Nat) :
    List Char → Nat → Scan Number
  | c :: rest, used =>
    if isDigit c then
      if overflowsI32 exp (digitValue c) then
        if sig ≠ 0 ∧ up then .fail .numberOutOfRange (used + 1) 0
        else .done (.float (Binary64.zero (!positive))) (used + 1 + digitRun rest)
      else scanExponentDigits positive sig start up (exp * 10 + digitValue c) rest (used + 1)
    else floatOf positive sig (saturateI32 (if up then start + exp else start - exp)) used
  | [], used => floatOf positive sig (saturateI32 (if up then start + exp else start - exp)) used

/-- An exponent part; the list starts after the `e` or `E`. -/
def scanExponent (positive : Bool) (sig : Nat) (start : Int) (l : List Char) (used : Nat) :
    Scan Number :=
  let (up, l, used) := match l with
    | '+' :: r => (true, r, used + 1)
    | '-' :: r => (false, r, used + 1)
    | _ => (true, l, used)
  match l with
  | [] => .fail .eofWhileParsingValue used 0
  | c :: rest =>
    if isDigit c then scanExponentDigits positive sig start up (digitValue c) rest (used + 1)
    else .fail .invalidNumber used 1

/-- What may follow the digits of a significand: an exponent, or the end of the number. -/
def afterSignificand (positive : Bool) (sig : Nat) (exp : Int) (l : List Char) (used : Nat) :
    Scan Number :=
  match l with
  | c :: rest =>
    if c = 'e' ∨ c = 'E' then scanExponent positive sig exp rest (used + 1)
    else floatOf positive sig exp used
  | [] => floatOf positive sig exp used

/-- The digits after a decimal point; `after` counts those kept. Once the significand is full
the remaining digits are dropped. -/
def scanFraction (positive : Bool) (sig : Nat) (before : Int) (after : Nat) :
    List Char → Nat → Scan Number
  | c :: rest, used =>
    if isDigit c then
      if overflowsU64 sig (digitValue c) then
        let k := digitRun rest + 1
        afterSignificand positive sig (before - after) ((c :: rest).drop k) (used + k)
      else scanFraction positive (sig * 10 + digitValue c) before (after + 1) rest (used + 1)
    else if after = 0 then .fail .invalidNumber used 1
    else afterSignificand positive sig (before - after) (c :: rest) used
  | [], used =>
    if after = 0 then .fail .eofWhileParsingValue used 0
    else floatOf positive sig (before - after) used

/-- Integer digits beyond 64 bits: each one counts as a power of ten. -/
def scanLongInteger (positive : Bool) (sig : Nat) (exp : Nat) : List Char → Nat → Scan Number
  | c :: rest, used =>
    if isDigit c then scanLongInteger positive sig (exp + 1) rest (used + 1)
    else if c = '.' then scanFraction positive sig exp 0 rest (used + 1)
    else if c = 'e' ∨ c = 'E' then scanExponent positive sig exp rest (used + 1)
    else floatOf positive sig exp used
  | [], used => floatOf positive sig exp used

/-- What may follow the digits of an integer part. -/
def afterInteger (positive : Bool) (sig : Nat) (l : List Char) (used : Nat) : Scan Number :=
  match l with
  | c :: rest =>
    if c = '.' then scanFraction positive sig 0 0 rest (used + 1)
    else if c = 'e' ∨ c = 'E' then scanExponent positive sig 0 rest (used + 1)
    else .done (integerOf positive sig) used
  | [] => .done (integerOf positive sig) used

/-- Integer digits while they fit in 64 bits. -/
def scanIntegerDigits (positive : Bool) (sig : Nat) : List Char → Nat → Scan Number
  | c :: rest, used =>
    if isDigit c then
      if overflowsU64 sig (digitValue c) then scanLongInteger positive sig 0 (c :: rest) used
      else scanIntegerDigits positive (sig * 10 + digitValue c) rest (used + 1)
    else afterInteger positive sig (c :: rest) used
  | [], used => afterInteger positive sig [] used

/-- A number after its sign (the `-` of a negative number is already read). -/
def scanNumber (positive : Bool) : List Char → Scan Number
  | [] => .fail .eofWhileParsingValue 0 0
  | c :: rest =>
    if c = '0' then
      match rest with
      | d :: _ => if isDigit d then .fail .invalidNumber 1 1 else afterInteger positive 0 rest 1
      | [] => afterInteger positive 0 [] 1
    else if isDigit c then scanIntegerDigits positive (digitValue c) rest 1
    else .fail .invalidNumber 0 1

/-- Checks an exponent part without its value; the list starts after the `e`. -/
def skipExponent (l : List Char) (used : Nat) : Scan Unit :=
  let (l, used) := match l with
    | '+' :: r => (r, used + 1)
    | '-' :: r => (r, used + 1)
    | _ => (l, used)
  match l with
  | c :: rest => if isDigit c then .done () (used + 1 + digitRun rest) else .fail .invalidNumber used 1
  | [] => .fail .invalidNumber used 0

/-- Checks what may follow the integer part of a skipped number. -/
def skipAfterInteger (l : List Char) (used : Nat) : Scan Unit :=
  match l with
  | c :: rest =>
    if c = '.' then
      let k := digitRun rest
      if k = 0 then .fail .invalidNumber (used + 1) 1
      else
        match rest.drop k with
        | e :: rest' => if e = 'e' ∨ e = 'E' then skipExponent rest' (used + 2 + k) else .done () (used + 1 + k)
        | [] => .done () (used + 1 + k)
    else if c = 'e' ∨ c = 'E' then skipExponent rest (used + 1)
    else .done () used
  | [] => .done () used

/-- Checks a number that is read only to be skipped (no range limits apply). -/
def skipNumber : List Char → Scan Unit
  | [] => .fail .invalidNumber 0 0
  | c :: rest =>
    if c = '0' then
      match rest with
      | d :: _ => if isDigit d then .fail .invalidNumber 1 1 else skipAfterInteger rest 1
      | [] => .done () 1
    else if isDigit c then skipAfterInteger (rest.drop (digitRun rest)) (1 + digitRun rest)
    else .fail .invalidNumber 0 1

/-- The value of a hex digit. -/
def hexValue (c : Char) : Option Nat :=
  if '0' ≤ c ∧ c ≤ '9' then some (c.toNat - 48)
  else if 'a' ≤ c ∧ c ≤ 'f' then some (c.toNat - 87)
  else if 'A' ≤ c ∧ c ≤ 'F' then some (c.toNat - 55)
  else none

/-- The value of four hex digits. -/
def hex4? (a b c d : Char) : Option Nat :=
  match hexValue a, hexValue b, hexValue c, hexValue d with
  | some w, some x, some y, some z => some (((w * 16 + x) * 16 + y) * 16 + z)
  | _, _, _, _ => none

/-- The number of UTF-8 bytes of the characters. -/
def utf8Length (l : List Char) : Nat := l.foldl (fun acc c => acc + c.utf8Size) 0

/-- The replacement for a one-character escape. -/
def shortEscape? : Char → Option Char
  | '"' => some '"'
  | '\\' => some '\\'
  | '/' => some '/'
  | 'b' => some '\x08'
  | 'f' => some '\x0c'
  | 'n' => some '\n'
  | 'r' => some '\r'
  | 't' => some '\t'
  | _ => none

/-- A `\u` escape cut short: fewer than four bytes left is the end of the text, otherwise the
four bytes are not hex digits. -/
def shortHex (rest : List Char) (used : Nat) : Scan α :=
  if 4 ≤ utf8Length rest then .fail .invalidEscape used 4
  else .fail .eofWhileParsingString (used + rest.length) 0

/-- The content of a string after its opening quote, up to and including the closing quote;
`acc` holds the characters read so far, last first. -/
def scanString (acc : List Char) : List Char → Nat → Scan String
  | [], used => .fail .eofWhileParsingString used 0
  | '"' :: _, used => .done (String.ofList acc.reverse) (used + 1)
  | '\\' :: 'u' :: a :: b :: c :: d :: r1, used =>
    match hex4? a b c d with
    | none => .fail .invalidEscape (used + 2) 4
    | some n =>
      if 0xDC00 ≤ n ∧ n ≤ 0xDFFF then .fail .loneLeadingSurrogateInHexEscape (used + 6) 0
      else if n < 0xD800 ∨ 0xDBFF < n then scanString (Char.ofNat n :: acc) r1 (used + 6)
      else
        match r1 with
        | '\\' :: 'u' :: a2 :: b2 :: c2 :: d2 :: r2 =>
          match hex4? a2 b2 c2 d2 with
          | none => .fail .invalidEscape (used + 8) 4
          | some n2 =>
            if n2 < 0xDC00 ∨ 0xDFFF < n2 then .fail .loneLeadingSurrogateInHexEscape (used + 12) 0
            else
              let code := (n - 0xD800) * 1024 + (n2 - 0xDC00) + 0x10000
              scanString (Char.ofNat code :: acc) r2 (used + 12)
        | '\\' :: 'u' :: short => shortHex short (used + 8)
        | ['\\'] => .fail .eofWhileParsingString (used + 7) 0
        | '\\' :: _ :: _ => .fail .unexpectedEndOfHexEscape (used + 7) 1
        | [] => .fail .eofWhileParsingString (used + 6) 0
        | _ :: _ => .fail .unexpectedEndOfHexEscape (used + 6) 1
  | '\\' :: 'u' :: short, used => shortHex short (used + 2)
  | ['\\'], used => .fail .eofWhileParsingString (used + 1) 0
  | '\\' :: e :: rest, used =>
    match shortEscape? e with
    | some ch => scanString (ch :: acc) rest (used + 2)
    | none => .fail .invalidEscape (used + 1) 1
  | c :: rest, used =>
    if c.toNat < 0x20 then .fail .controlCharacterWhileParsingString used 1
    else scanString (c :: acc) rest (used + 1)

/-- Checks the content of a string after its opening quote without keeping it; `\u` escapes
need four hex digits but surrogates are not paired up. -/
def skipString : List Char → Nat → Scan Unit
  | [], used => .fail .eofWhileParsingString used 0
  | '"' :: _, used => .done () (used + 1)
  | '\\' :: 'u' :: a :: b :: c :: d :: r, used =>
    match hex4? a b c d with
    | none => .fail .invalidEscape (used + 2) 4
    | some _ => skipString r (used + 6)
  | '\\' :: 'u' :: short, used => shortHex short (used + 2)
  | ['\\'], used => .fail .eofWhileParsingString (used + 1) 0
  | '\\' :: e :: rest, used =>
    match shortEscape? e with
    | some _ => skipString rest (used + 2)
    | none => .fail .invalidEscape (used + 1) 1
  | c :: rest, used =>
    if c.toNat < 0x20 then .fail .controlCharacterWhileParsingString used 0
    else skipString rest (used + 1)

end Rebalance.Json
