import Mathlib.Logic.Basic

/-! JSON values and their compact text. An object lists its members in the order in which it is
written out; the text of a float is left to the caller. -/

namespace OracleQa.Text

inductive Number
  | posInt (n : UInt64)
  | negInt (n : Int)
  | float (bits : UInt64)

inductive Json
  | null
  | bool (b : Bool)
  | number (n : Number)
  | string (s : String)
  | array (items : List Json)
  | object (members : List (String × Json))

namespace Json

def escapeChar (c : Char) : List Char :=
  if c = '"' then ['\\', '"']
  else if c = '\\' then ['\\', '\\']
  else if c.toNat = 8 then ['\\', 'b']
  else if c.toNat = 9 then ['\\', 't']
  else if c.toNat = 10 then ['\\', 'n']
  else if c.toNat = 12 then ['\\', 'f']
  else if c.toNat = 13 then ['\\', 'r']
  else if c.toNat < 32 then
    ['\\', 'u', '0', '0', Nat.digitChar (c.toNat / 16), Nat.digitChar (c.toNat % 16)]
  else [c]

def quoted (s : String) : List Char := '"' :: (s.toList.flatMap escapeChar ++ ['"'])

section
variable (floatText : UInt64 → String)

def numberText : Number → List Char
  | .posInt n => n.toNat.repr.toList
  | .negInt n => n.repr.toList
  | .float bits => (floatText bits).toList

mutual

/-- `serde_json::to_string`, as characters. -/
def text : Json → List Char
  | .null => "null".toList
  | .bool true => "true".toList
  | .bool false => "false".toList
  | .number n => numberText floatText n
  | .string s => quoted s
  | .array items => '[' :: (itemsText items ++ [']'])
  | .object members => '\x7b' :: (membersText members ++ ['\x7d'])

def itemsText : List Json → List Char
  | [] => []
  | [j] => text j
  | j :: js => text j ++ ',' :: itemsText js

def membersText : List (String × Json) → List Char
  | [] => []
  | [(k, j)] => quoted k ++ ':' :: text j
  | (k, j) :: ms => quoted k ++ ':' :: (text j ++ ',' :: membersText ms)

end

def toString (j : Json) : String := String.ofList (text floatText j)

end

def asObject : Json → Option (List (String × Json))
  | .object members => some members
  | _ => none

end Json
end OracleQa.Text
