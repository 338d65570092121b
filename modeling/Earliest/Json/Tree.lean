import Earliest.Json.Token

/-! JSON values read from tokens. The reader keeps the containers that are still open
on a stack, so that depth costs no more than length, and takes one token or one
short run of tokens at each step. -/

namespace Earliest

inductive Json where
  | null
  | bool (b : Bool)
  /-- The value of a number written as plain digits. -/
  | number (natural : Option Nat)
  /-- The text, where its escapes spell one. -/
  | string (text : Option String)
  | array (items : List Json)
  | object (members : List (Option String × Json))

namespace Json

/-- A container that is still open, with what it holds so far, the last first. -/
inductive Frame where
  | array (items : List Json)
  /-- The value of `key` is still to come. -/
  | object (members : List (Option String × Json)) (key : Option String)

mutual

/-- Reads a value that belongs into the innermost open container. -/
def value : List Token → List Frame → Option Json
  | .null :: rest, pending => close .null rest pending
  | .bool b :: rest, pending => close (.bool b) rest pending
  | .number n :: rest, pending => close (.number n) rest pending
  | .string s :: rest, pending => close (.string s) rest pending
  | .leftBracket :: .rightBracket :: rest, pending => close (.array []) rest pending
  | .leftBracket :: rest, pending => value rest (.array [] :: pending)
  | .leftBrace :: .rightBrace :: rest, pending => close (.object []) rest pending
  | .leftBrace :: .string key :: .colon :: rest, pending => value rest (.object [] key :: pending)
  | _, _ => none

/-- Puts a value that has been read into the innermost open container. -/
def close (v : Json) : List Token → List Frame → Option Json
  | [], [] => some v
  | .comma :: rest, .array items :: pending => value rest (.array (v :: items) :: pending)
  | .rightBracket :: rest, .array items :: pending =>
    close (.array (v :: items).reverse) rest pending
  | .comma :: .string next :: .colon :: rest, .object members key :: pending =>
    value rest (.object ((key, v) :: members) next :: pending)
  | .rightBrace :: rest, .object members key :: pending =>
    close (.object ((key, v) :: members).reverse) rest pending
  | _, _ => none

end

/-- The value that is the whole text. -/
def parse (s : String) : Option Json := (tokens s.toList).bind (value · [])

end Json

end Earliest
