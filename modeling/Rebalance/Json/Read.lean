import Rebalance.Json.Scan
/-!
# Reading JSON text

The reader walks the text with a `Cursor` (the characters left, and the line and byte column
reached). It reads either any value (`readAny`) or a value of an expected `Shape` (a string, a
bounded count, a list, a record with named fields, an object of any values), reporting the
first flaw or mismatch with its position.

Rules that decide which error is reported:

* Containers nest at most 127 deep; opening the 128th is an error at the bracket.
* After a container's content, its closing is read even when the content failed; the content's
  error wins, but the closing may move the position at which a mismatch is reported.
* A mismatch (wrong type, value out of range, missing or repeated field, too few elements) is
  reported at the position where the reader stopped after the value concerned.
* A record accepts an object (unknown members are checked and skipped, the first missing field
  in declaration order is reported) or an array of its fields in order.
* Skipped members are checked by a separate, flat scan with its own reports: `[1,]` is an
  expected value, `{"a":1,}` a key that must be a string.
* The whole text must be one value with blanks (space, tab, line feed, carriage return)
  around it.

Loops run on a fuel argument that the entry point sets from the length of the text; each
step of a loop or a nesting reads at least one character, so the fuel never runs out.
-/

namespace Rebalance.Json

/-- The characters not yet read, and the line (from 1) and byte column reached. -/
structure Cursor where
  rest : List Char
  line : Nat
  column : Nat

namespace Cursor

/-- The cursor at the start of a text. -/
def start (s : String) : Cursor := ⟨s.toList, 1, 0⟩

/-- Where the cursor stands. -/
def position (c : Cursor) : Position := ⟨c.line, c.column⟩

/-- The cursor after one more character. -/
def advance (c : Cursor) : Cursor :=
  match c.rest with
  | [] => c
  | ch :: rest => if ch = '\n' then ⟨rest, c.line + 1, 0⟩ else ⟨rest, c.line, c.column + ch.utf8Size⟩

/-- The cursor after `n` more characters. -/
def advanceChars : Nat → Cursor → Cursor
  | 0, c => c
  | n + 1, c => advanceChars n c.advance

/-- The cursor after `n` more bytes; a character cut in the middle counts its bytes read. -/
def advanceBytes (n : Nat) (c : Cursor) : Cursor := go n c.rest c
where
  /-- Walks the characters `l` ahead of `c`. -/
  go : Nat → List Char → Cursor → Cursor
    | 0, _, c => c
    | _, [], c => c
    | n + 1, ch :: rest, c =>
      if ch.utf8Size ≤ n + 1 then go (n + 1 - ch.utf8Size) rest c.advance
      else { c with column := c.column + (n + 1) }

/-- Where the cursor will stand after one more byte. -/
def peekPosition (c : Cursor) : Position := (c.advanceBytes 1).position

/-- Skips blanks (space, tab, line feed, carriage return) starting at the given place. -/
def skipBlanksFrom (line column : Nat) : List Char → Cursor
  | ch :: rest =>
    if ch = ' ' ∨ ch = '\t' ∨ ch = '\r' then skipBlanksFrom line (column + 1) rest
    else if ch = '\n' then skipBlanksFrom (line + 1) 0 rest
    else ⟨ch :: rest, line, column⟩
  | [] => ⟨[], line, column⟩

/-- The cursor after the blanks ahead of it. -/
def skipBlanks (c : Cursor) : Cursor := skipBlanksFrom c.line c.column c.rest

end Cursor

/-- A reading step: it moves the cursor and gives a value or an error; the cursor is kept
either way, since a container's closing is read after an error too. -/
abbrev Reader := EStateM Error Cursor

/-- A flaw at the cursor. -/
def failHere (code : Flaw) : Reader α := do
  let c ← get
  throw ⟨.flaw code, some c.position⟩

/-- A flaw one byte after the cursor. -/
def failNext (code : Flaw) : Reader α := do
  let c ← get
  throw ⟨.flaw code, some c.peekPosition⟩

/-- A mismatch, placed later. -/
def mismatch (p : Problem) : Reader α := throw ⟨p, none⟩

/-- The next character after the blanks, which are passed. -/
def peekBlank : Reader (Option Char) := do
  modify Cursor.skipBlanks
  return (← get).rest.head?

/-- Passes one character. -/
def bump : Reader Unit := modify Cursor.advance

/-- Runs a scanner on the characters ahead and moves past what it used. -/
def scanWith (scan : List Char → Scan α) : Reader α := do
  let c ← get
  match scan c.rest with
  | .done v used => set (c.advanceChars used); return v
  | .fail code used extra =>
    let c' := c.advanceChars used
    set c'
    throw ⟨.flaw code, some (c'.advanceBytes extra).position⟩

/-- Runs `r`; an error without a place is placed where `r` stopped. -/
def placing (r : Reader α) : Reader α := fun c =>
  match r c with
  | .ok a c' => .ok a c'
  | .error e c' => .error (e.placeAt c'.position) c'

/-- Runs `r` and then `close`, also when `r` failed; an error of `r` wins. -/
def closing (r : Reader α) (close : Reader Unit) : Reader α := fun c =>
  match r c with
  | .ok a c' =>
    match close c' with
    | .ok _ c'' => .ok a c''
    | .error e c'' => .error e c''
  | .error e c' =>
    match close c' with
    | .ok _ c'' => .error e c''
    | .error _ c'' => .error e c''

/-- Reads the given characters of a word (`null`, `true`, `false`) after its first. -/
def expectWord : List Char → Reader Unit
  | [] => pure ()
  | x :: xs => do
    match (← get).rest with
    | [] => failHere .eofWhileParsingValue
    | ch :: _ => if ch = x then do bump; expectWord xs else failNext .expectedSomeIdent

/-- One level deeper, if the nesting limit allows; `depth` is the number of levels left. -/
def enter (depth : Nat) : Reader Nat :=
  if depth ≤ 1 then failNext .recursionLimitExceeded else pure (depth - 1)

/-- A number after its sign. -/
def readNumber (positive : Bool) : Reader Number := scanWith (scanNumber positive)

/-- A string after its opening quote. -/
def readStringBody : Reader String := scanWith (fun l => scanString [] l 0)

/-- Reads the value ahead only to name it in a type mismatch. -/
def foundAhead : Reader Found := do
  match (← get).rest with
  | 'n' :: _ => bump; expectWord ['u', 'l', 'l']; pure .null
  | 't' :: _ => bump; expectWord ['r', 'u', 'e']; pure (.bool true)
  | 'f' :: _ => bump; expectWord ['a', 'l', 's', 'e']; pure (.bool false)
  | '-' :: _ => bump; return Found.ofNumber (← readNumber false)
  | '"' :: _ => bump; return .string (← readStringBody)
  | '[' :: _ => pure .sequence
  | '\x7b' :: _ => pure .map
  | c :: _ =>
    if isDigit c then return Found.ofNumber (← readNumber true)
    else failNext .expectedSomeValue
  | [] => failNext .expectedSomeValue

/-- The type mismatch for the value ahead, placed after it. -/
def unexpectedAhead (expected : String) : Reader α := do
  let found ← foundAhead
  let c ← get
  throw ⟨.invalidType found expected, some c.position⟩

/-- Before an element: `none` at the closing bracket, `some ()` when an element follows. -/
def nextElement (first : Bool) : Reader (Option Unit) := do
  match (← peekBlank) with
  | some ']' => pure none
  | some ',' =>
    if first then pure (some ())
    else
      bump
      match (← peekBlank) with
      | some ']' => failNext .trailingComma
      | some _ => pure (some ())
      | none => failNext .eofWhileParsingValue
  | some _ => if first then pure (some ()) else failNext .expectedListCommaOrEnd
  | none => failNext .eofWhileParsingList

/-- Before a member: `none` at the closing brace, `some ()` when a key's quote follows. -/
def nextMember (first : Bool) : Reader (Option Unit) := do
  match (← peekBlank) with
  | some '\x7d' => pure none
  | some ',' =>
    if first then failNext .keyMustBeAString
    else
      bump
      match (← peekBlank) with
      | some '"' => pure (some ())
      | some '\x7d' => failNext .trailingComma
      | some _ => failNext .keyMustBeAString
      | none => failNext .eofWhileParsingValue
  | some '"' => if first then pure (some ()) else failNext .expectedObjectCommaOrEnd
  | some _ => if first then failNext .keyMustBeAString else failNext .expectedObjectCommaOrEnd
  | none => failNext .eofWhileParsingObject

/-- A member's key, from its opening quote. -/
def readKey : Reader String := do bump; readStringBody

/-- The colon after a key. -/
def readColon : Reader Unit := do
  match (← peekBlank) with
  | some ':' => bump
  | some _ => failNext .expectedColon
  | none => failNext .eofWhileParsingObject

/-- The closing bracket of an array. -/
def closeArray : Reader Unit := do
  match (← peekBlank) with
  | some ']' => bump
  | some ',' =>
    bump
    match (← peekBlank) with
    | some ']' => failNext .trailingComma
    | _ => failNext .trailingCharacters
  | some _ => failNext .trailingCharacters
  | none => failNext .eofWhileParsingList

/-- The closing brace of an object. -/
def closeObject : Reader Unit := do
  match (← peekBlank) with
  | some '\x7d' => bump
  | some ',' => failNext .trailingComma
  | some _ => failNext .trailingCharacters
  | none => failNext .eofWhileParsingObject

mutual

/-- Any value. -/
def readAny (depth : Nat) : Nat → Reader Value
  | 0 => failHere .recursionLimitExceeded
  | fuel + 1 => placing do
    match (← peekBlank) with
    | none => failNext .eofWhileParsingValue
    | some 'n' => bump; expectWord ['u', 'l', 'l']; pure .null
    | some 't' => bump; expectWord ['r', 'u', 'e']; pure (.bool true)
    | some 'f' => bump; expectWord ['a', 'l', 's', 'e']; pure (.bool false)
    | some '-' => bump; return .number (← readNumber false)
    | some '"' => bump; return .string (← readStringBody)
    | some '[' =>
      let d ← enter depth
      bump
      return .array (← closing (readItems d fuel true []) closeArray)
    | some '\x7b' =>
      let d ← enter depth
      bump
      return .object (← closing (readMembers d fuel true []) closeObject)
    | some c =>
      if isDigit c then return .number (← readNumber true)
      else failNext .expectedSomeValue

/-- The elements of an array, up to its closing bracket (not read). -/
def readItems (depth : Nat) : Nat → Bool → List Value → Reader (List Value)
  | 0, _, _ => failHere .recursionLimitExceeded
  | fuel + 1, first, acc => do
    match (← nextElement first) with
    | none => pure acc.reverse
    | some () =>
      let v ← readAny depth fuel
      readItems depth fuel false (v :: acc)

/-- The members of an object, up to its closing brace (not read); a later member of a key
replaces an earlier one. -/
def readMembers (depth : Nat) : Nat → Bool → List (String × Value) →
    Reader (List (String × Value))
  | 0, _, _ => failHere .recursionLimitExceeded
  | fuel + 1, first, acc => do
    match (← nextMember first) with
    | none => pure acc
    | some () =>
      let k ← readKey
      readColon
      let v ← readAny depth fuel
      readMembers depth fuel false (insertMember k v acc)

end

/-- After a skipped scalar or container end: closes the containers that end here, and
returns the container in which the next value is read, or `none` when the skipped value is
complete. -/
def skipClosings (stack : List Char) : Nat → Char → Bool → Reader (Option (List Char × Char))
  | 0, _, _ => failHere .recursionLimitExceeded
  | fuel + 1, frame, acceptComma => do
    match (← peekBlank) with
    | some ',' =>
      if acceptComma then do bump; pure (some (stack, frame))
      else pure (some (stack, frame))
    | some ch =>
      if (ch = ']' ∧ frame = '[') ∨ (ch = '\x7d' ∧ frame = '\x7b') then
        bump
        match stack with
        | [] => pure none
        | outer :: stack' => skipClosings stack' fuel outer true
      else if acceptComma then
        failNext (if frame = '[' then .expectedListCommaOrEnd else .expectedObjectCommaOrEnd)
      else pure (some (stack, frame))
    | none => failNext (if frame = '[' then .eofWhileParsingList else .eofWhileParsingObject)

/-- Checks and passes one value without building it, keeping the open containers on an
explicit stack, so that any depth of nesting is accepted. -/
def skipValue (stack : List Char) (enclosing : Option Char) : Nat → Reader Unit
  | 0 => failHere .recursionLimitExceeded
  | fuel + 1 => do
    let opened : Option Char ← match (← peekBlank) with
      | none => failNext .eofWhileParsingValue
      | some 'n' => do bump; expectWord ['u', 'l', 'l']; pure none
      | some 't' => do bump; expectWord ['r', 'u', 'e']; pure none
      | some 'f' => do bump; expectWord ['a', 'l', 's', 'e']; pure none
      | some '-' => do bump; scanWith skipNumber; pure none
      | some '"' => do bump; scanWith (fun l => skipString l 0); pure none
      | some '[' => do bump; pure (some '[')
      | some '\x7b' => do bump; pure (some '\x7b')
      | some c =>
        if isDigit c then do scanWith skipNumber; pure none
        else failNext .expectedSomeValue
    -- the container that the next value is read in
    let next : Option (List Char × Char) ← match opened, enclosing with
      | some frame, _ => do
        let stack := match enclosing with | some e => e :: stack | none => stack
        skipClosings stack fuel frame false
      | none, some frame => skipClosings stack fuel frame true
      | none, none =>
        match stack with
        | [] => pure none
        | frame :: stack' => skipClosings stack' fuel frame true
    match next with
    | none => pure ()
    | some (stack, frame) =>
      if frame = '\x7b' then
        match (← peekBlank) with
        | some '"' => bump
        | some _ => failNext .keyMustBeAString
        | none => failNext .eofWhileParsingObject
        scanWith (fun l => skipString l 0)
        match (← peekBlank) with
        | some ':' => bump
        | some _ => failNext .expectedColon
        | none => failNext .eofWhileParsingObject
      skipValue stack (some frame) fuel

/-- The shape of the value a reader expects. -/
inductive Shape where
  /-- A string. -/
  | string
  /-- A non-negative integer up to `max`; `name` is the type named in mismatches. -/
  | count (max : Nat) (name : String)
  /-- An array of values of one shape. -/
  | list (item : Shape)
  /-- A record with named fields in declaration order. -/
  | record (name : String) (fields : List (String × Shape))
  /-- An object of any values. -/
  | object
  /-- Any value. -/
  | any

/-- Checks a number against the bound of a count. -/
def checkCount (max : Nat) (name : String) : Number → Reader Value
  | .nat n => if n ≤ max then pure (.number (.nat n)) else mismatch (.invalidValue (.unsigned n) name)
  | .neg n => mismatch (.invalidValue (.signed n) name)
  | .float x => mismatch (.invalidType (.float x) name)

/-- The index of the field named `k`. -/
def fieldIndex? (fields : List (String × Shape)) (k : String) : Option Nat :=
  fields.findIdx? (fun f => f.1 == k)

/-- The fields' values in declaration order, or the first missing field. -/
def fieldValues : List (String × Shape) → List (Option Value) → Reader (List Value)
  | (_, _) :: fields, some v :: slots => return v :: (← fieldValues fields slots)
  | (name, _) :: _, none :: _ => mismatch (.missingField name)
  | _, _ => pure []

mutual

/-- A value of the expected shape. -/
def readShaped (depth : Nat) : Nat → Shape → Reader Value
  | 0, _ => failHere .recursionLimitExceeded
  | fuel + 1, .any => readAny depth fuel
  | _ + 1, .string => placing do
    match (← peekBlank) with
    | none => failNext .eofWhileParsingValue
    | some '"' => bump; return .string (← readStringBody)
    | some _ => unexpectedAhead "a string"
  | _ + 1, .count max name => placing do
    match (← peekBlank) with
    | none => failNext .eofWhileParsingValue
    | some '-' => bump; checkCount max name (← readNumber false)
    | some c =>
      if isDigit c then checkCount max name (← readNumber true)
      else unexpectedAhead name
  | fuel + 1, .list item => placing do
    match (← peekBlank) with
    | none => failNext .eofWhileParsingValue
    | some '[' =>
      let d ← enter depth
      bump
      return .array (← closing (readShapedItems d fuel item true []) closeArray)
    | some _ => unexpectedAhead "a sequence"
  | fuel + 1, .record name fields => placing do
    match (← peekBlank) with
    | none => failNext .eofWhileParsingValue
    | some '[' =>
      let d ← enter depth
      bump
      let expected := "struct " ++ name ++ " with " ++ toString fields.length ++ " elements"
      return .array (← closing (readFieldsInOrder d fuel expected fields 0 []) closeArray)
    | some '\x7b' =>
      let d ← enter depth
      bump
      let slots ← closing (readFieldMembers d fuel fields true (fields.map fun _ => none))
        closeObject
      return .array (← fieldValues fields slots)
    | some _ => unexpectedAhead ("struct " ++ name)
  | fuel + 1, .object => placing do
    match (← peekBlank) with
    | none => failNext .eofWhileParsingValue
    | some '\x7b' =>
      let d ← enter depth
      bump
      return .object (← closing (readMembers d fuel true []) closeObject)
    | some _ => unexpectedAhead "a map"

/-- The elements of an array of one shape, up to its closing bracket (not read). -/
def readShapedItems (depth : Nat) : Nat → Shape → Bool → List Value → Reader (List Value)
  | 0, _, _, _ => failHere .recursionLimitExceeded
  | fuel + 1, item, first, acc => do
    match (← nextElement first) with
    | none => pure acc.reverse
    | some () =>
      let v ← readShaped depth fuel item
      readShapedItems depth fuel item false (v :: acc)

/-- A record written as an array: its fields in declaration order. -/
def readFieldsInOrder (depth : Nat) : Nat → String → List (String × Shape) → Nat →
    List Value → Reader (List Value)
  | 0, _, _, _, _ => failHere .recursionLimitExceeded
  | _ + 1, _, [], _, acc => pure acc.reverse
  | fuel + 1, expected, (_, shape) :: rest, index, acc => do
    match (← nextElement (index == 0)) with
    | none => mismatch (.invalidLength index expected)
    | some () =>
      let v ← readShaped depth fuel shape
      readFieldsInOrder depth fuel expected rest (index + 1) (v :: acc)

/-- A record written as an object: each known member fills its field's slot, a repeated one
is a mismatch, an unknown one is checked and skipped. -/
def readFieldMembers (depth : Nat) : Nat → List (String × Shape) → Bool → List (Option Value) →
    Reader (List (Option Value))
  | 0, _, _, _ => failHere .recursionLimitExceeded
  | fuel + 1, fields, first, slots => do
    match (← nextMember first) with
    | none => pure slots
    | some () =>
      let k ← readKey
      match fieldIndex? fields k with
      | none =>
        readColon
        skipValue [] none fuel
        readFieldMembers depth fuel fields false slots
      | some i =>
        match slots[i]? with
        | some (some _) => mismatch (.duplicateField k)
        | _ =>
          readColon
          let shape := (fields[i]?.map Prod.snd).getD .any
          let v ← readShaped depth fuel shape
          readFieldMembers depth fuel fields false (slots.set i (some v))

end

/-- Reads a whole text as one value of the given shape, with only blanks around it. -/
def readDocument (shape : Shape) (s : String) : Except Error Value :=
  let reader : Reader Value := do
    let v ← readShaped 128 (2 * s.length + 8) shape
    match (← peekBlank) with
    | some _ => failNext .trailingCharacters
    | none => pure v
  match reader.run (Cursor.start s) with
  | .ok v _ => .ok v
  | .error e _ => .error e

end Rebalance.Json
