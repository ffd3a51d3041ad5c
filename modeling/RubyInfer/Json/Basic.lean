import RubyInfer.Double

/-!
JSON values and their compact text. An object is its list of fields in the order in which they are
written.
-/

namespace RubyInfer

/-- A JSON number: an integer of at most 64 bits, or a double. -/
inductive Number
  | integer (n : Int)
  | double (x : Double)
deriving DecidableEq, Inhabited

inductive Json
  | null
  | bool (b : Bool)
  | number (n : Number)
  | string (s : String)
  | array (items : List Json)
  | object (fields : List (String × Json))
deriving Inhabited

namespace Number

def text : Number → String
  | .integer n => toString n
  | .double x => x.text

/-- The number as a 64-bit offset: negative numbers count as 0, fractions are dropped, and what is
too large is cut off. -/
def toOffset : Number → UInt64
  | .integer n => if n < 0 then 0 else UInt64.ofNat (min n.toNat (Nat.pow 2 64 - 1))
  | .double x => UInt64.ofNat (min x.floor (Nat.pow 2 64 - 1))

end Number

namespace Json

def nat (n : Nat) : Json := .number (.integer n)

def get? (key : String) : Json → Option Json
  | .object fields => fields.lookup key
  | _ => none

def asString? : Json → Option String
  | .string s => some s
  | _ => none

def asBool? : Json → Option Bool
  | .bool b => some b
  | _ => none

def asArray? : Json → Option (List Json)
  | .array items => some items
  | _ => none

def asObject? : Json → Option (List (String × Json))
  | .object fields => some fields
  | _ => none

def asNat? : Json → Option Nat
  | .number (.integer (.ofNat n)) => some n
  | _ => none

def isNull : Json → Bool
  | .null => true
  | _ => false

def setField (key : String) (value : Json) : List (String × Json) → List (String × Json)
  | [] => [(key, value)]
  | (k, v) :: rest =>
    if key = k then (key, value) :: rest
    else if key < k then (key, value) :: (k, v) :: rest
    else (k, v) :: setField key value rest

def hexDigit (n : Nat) : Char := (Nat.toDigits 16 n).headD '0'

def escape (c : Char) : List Char :=
  if c = '"' then ['\\', '"']
  else if c = '\\' then ['\\', '\\']
  else if c = '\x08' then ['\\', 'b']
  else if c = '\x0c' then ['\\', 'f']
  else if c = '\n' then ['\\', 'n']
  else if c = '\r' then ['\\', 'r']
  else if c = '\t' then ['\\', 't']
  else if c.toNat < 0x20 then ['\\', 'u', '0', '0', hexDigit (c.toNat / 16), hexDigit (c.toNat % 16)]
  else [c]

def quote (s : String) : List Char := '"' :: (s.toList.flatMap escape ++ ['"'])

mutual
def renderOnto : Json → List Char → List Char
  | .null, rest => "null".toList ++ rest
  | .bool true, rest => "true".toList ++ rest
  | .bool false, rest => "false".toList ++ rest
  | .number n, rest => n.text.toList ++ rest
  | .string s, rest => quote s ++ rest
  | .array items, rest => '[' :: renderItems items (']' :: rest)
  | .object fields, rest => '\x7b' :: renderFields fields ('\x7d' :: rest)

def renderItems : List Json → List Char → List Char
  | [], rest => rest
  | [v], rest => renderOnto v rest
  | v :: w :: more, rest => renderOnto v (',' :: renderItems (w :: more) rest)

def renderFields : List (String × Json) → List Char → List Char
  | [], rest => rest
  | [(k, v)], rest => quote k ++ ':' :: renderOnto v rest
  | (k, v) :: f :: more, rest => quote k ++ ':' :: renderOnto v (',' :: renderFields (f :: more) rest)
end

def render (v : Json) : String := String.ofList (v.renderOnto [])

mutual
/-- How deeply arrays and objects nest: 0 for a scalar. -/
def height : Json → Nat
  | .array items => heightItems items + 1
  | .object fields => heightFields fields + 1
  | _ => 0

def heightItems : List Json → Nat
  | [] => 0
  | v :: rest => max v.height (heightItems rest)

def heightFields : List (String × Json) → Nat
  | [] => 0
  | (_, v) :: rest => max v.height (heightFields rest)
end

end Json

end RubyInfer
