import Blockwork.Dictionary
import Blockwork.Number.Layout

/-!
Data in the notation in which projects are stored, and its compact text.
-/

namespace Blockwork

/-- A stored number: whole numbers of 64 bits are kept exactly, others as doubles. -/
inductive Json.Number where
  | natural (n : Nat)
  /-- The number `-(n + 1)`. -/
  | negative (n : Nat)
  | real (x : Float)

inductive Json where
  | null
  | bool (b : Bool)
  | number (n : Json.Number)
  | text (s : String)
  | array (items : List Json)
  /-- Members in the order of their keys, each key once. -/
  | object (members : List (String × Json))

namespace Json

instance : Inhabited Json := ⟨.null⟩

def Number.toFloat : Json.Number → Float
  | .natural n => Float.ofScientific n false 0
  | .negative n => -Float.ofScientific (n + 1) false 0
  | .real x => x

/-- The whole number, when it is stored as one and is not below zero. -/
def natural? : Json → Option Nat
  | .number (.natural n) => some n
  | _ => none

def text? : Json → Option String
  | .text s => some s
  | _ => none

def bool? : Json → Option Bool
  | .bool b => some b
  | _ => none

def array? : Json → Option (List Json)
  | .array items => some items
  | _ => none

def object? : Json → Option (List (String × Json))
  | .object members => some members
  | _ => none

/-- The member of an object, `null` when there is none. -/
def member (j : Json) (key : String) : Json :=
  match j with
  | .object members => (members.lookup key).getD .null
  | _ => .null

/-- Builds an object from members in any order; the last of a repeated key stays. -/
def ofMembers (members : List (String × Json)) : Json :=
  .object (Dictionary.ofList members).entries

/-! ### Compact text -/

/-- Stored doubles always show that they are not whole numbers: by a point or by an exponent. -/
def realLayout : Layout := ⟨16, 5, ['.', '0'], true, .even⟩

def Number.text : Json.Number → String
  | .natural n => String.ofList (Nat.toDigits 10 n)
  | .negative n => String.ofList ('-' :: Nat.toDigits 10 (n + 1))
  | .real x => realLayout.write x

/-- Quotes, backslashes and control characters are escaped, and nothing else. -/
def escapeChar (c : Char) : List Char :=
  match c with
  | '"' => ['\\', '"']
  | '\\' => ['\\', '\\']
  | '\x08' => ['\\', 'b']
  | '\x0c' => ['\\', 'f']
  | '\n' => ['\\', 'n']
  | '\r' => ['\\', 'r']
  | '\t' => ['\\', 't']
  | c =>
    if c.toNat < 32 then
      ['\\', 'u', '0', '0', Nat.digitChar (c.toNat / 16), Nat.digitChar (c.toNat % 16)]
    else [c]

def quote (s : String) : String :=
  String.ofList ('"' :: s.toList.flatMap escapeChar ++ ['"'])

mutual

/-- The text without blanks between its parts. -/
def compact : Json → String
  | .null => "null"
  | .bool b => if b then "true" else "false"
  | .number n => n.text
  | .text s => quote s
  | .array items => "[" ++ ",".intercalate (compactItems items) ++ "]"
  | .object members => "\x7b" ++ ",".intercalate (compactMembers members) ++ "\x7d"

def compactItems : List Json → List String
  | [] => []
  | j :: rest => compact j :: compactItems rest

def compactMembers : List (String × Json) → List String
  | [] => []
  | (key, j) :: rest => (quote key ++ ":" ++ compact j) :: compactMembers rest

end

end Json

end Blockwork
