import Rebalance.Binary64
/-!
# JSON values

A JSON number is kept in the form it was read in: a non-negative integer below `2^64`, a
negative integer of at least `-2^63`, or a binary64 number (anything with a fraction or an
exponent, the integers beyond those ranges, and `-0`).

An object keeps its members ordered by key, compared character by character (the same order
as comparing the UTF-8 bytes), with one member per key: `insertMember` replaces a member of the
same key, so when an object is read the last member of a key wins.
-/

namespace Rebalance.Json

/-- A JSON number in the kind it was read as. -/
inductive Number where
  | nat (n : Nat)
  | neg (n : Int)
  | float (x : Binary64)
deriving DecidableEq, Repr

/-- A JSON value; an object's members are ordered by key, one per key. -/
inductive Value where
  | null
  | bool (b : Bool)
  | number (n : Number)
  | string (s : String)
  | array (items : List Value)
  | object (members : List (String × Value))
deriving Inhabited

/-- Puts a member in its key's place, replacing the member with the same key. -/
def insertMember (k : String) (v : Value) : List (String × Value) → List (String × Value)
  | [] => [(k, v)]
  | (k', v') :: rest =>
    if k < k' then (k, v) :: (k', v') :: rest
    else if k = k' then (k, v) :: rest
    else (k', v') :: insertMember k v rest

/-- The object with the given members, inserted in order. -/
def objectOf (members : List (String × Value)) : Value :=
  .object (members.foldl (fun acc m => insertMember m.1 m.2 acc) [])

namespace Value

/-- The member of key `k` of an object. -/
def member? (v : Value) (k : String) : Option Value :=
  match v with
  | .object ms => (ms.find? (fun m => m.1 == k)).map Prod.snd
  | _ => none

/-- A non-negative integer that was read as one. -/
def asNat? : Value → Option Nat
  | .number (.nat n) => some n
  | _ => none

/-- A string value. -/
def asString? : Value → Option String
  | .string s => some s
  | _ => none

/-- The items of an array value. -/
def asArray? : Value → Option (List Value)
  | .array xs => some xs
  | _ => none

/-- A boolean value. -/
def asBool? : Value → Option Bool
  | .bool b => some b
  | _ => none

end Value

end Rebalance.Json
