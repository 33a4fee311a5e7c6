import Blockwork.Json.Basic
import Blockwork.Number.Numeral

/-!
Stored data as it is written, before it is understood.

Reading goes in two steps. The first checks the notation and keeps everything: repeated members,
the digits of numbers, texts whose escapes do not make sense. The second turns a part of that
into data and may refuse it: too deep, a number out of range, half of a surrogate pair. Parts that
nobody asks for only pass the first step.
-/

namespace Blockwork.Json

/-- A number as written. -/
structure WrittenNumber where
  negative : Bool
  whole : List Char
  /-- The digits after the point and the exponent, if either is there. -/
  tail : Option (List Char × Int)
  deriving Repr

inductive Written where
  | null
  | bool (b : Bool)
  | number (n : WrittenNumber)
  /-- `none` when the escapes leave half of a surrogate pair. -/
  | text (s : Option String)
  | array (items : List Written)
  | object (members : List (Option String × Written))

namespace Written

instance : Inhabited Written := ⟨.null⟩

/-! ### From characters -/

def isSpace (c : Char) : Bool := c == ' ' || c == '\n' || c == '\t' || c == '\r'

def skip (cs : List Char) : List Char := cs.dropWhile isSpace

/-- Four hexadecimal digits. -/
def hex4? : List Char → Option (Nat × List Char)
  | a :: b :: c :: d :: rest => do
    let a ← Numeral.digit? 16 a
    let b ← Numeral.digit? 16 b
    let c ← Numeral.digit? 16 c
    let d ← Numeral.digit? 16 d
    some (((a * 16 + b) * 16 + c) * 16 + d, rest)
  | _ => none

def escape? : Char → Option Char
  | '"' => some '"'
  | '\\' => some '\\'
  | '/' => some '/'
  | 'b' => some '\x08'
  | 'f' => some '\x0c'
  | 'n' => some '\n'
  | 'r' => some '\r'
  | 't' => some '\t'
  | _ => none

/-- The units of a text up to its closing quote: code points, and surrogates that were escaped. -/
def units? : (fuel : Nat) → List Char → Option (List Nat × List Char)
  | 0, _ => none
  | fuel + 1, cs =>
    match cs with
    | [] => none
    | '"' :: rest => some ([], rest)
    | '\\' :: 'u' :: rest => do
      let (n, rest) ← hex4? rest
      let (ns, rest) ← units? fuel rest
      some (n :: ns, rest)
    | '\\' :: c :: rest => do
      let c ← escape? c
      let (ns, rest) ← units? fuel rest
      some (c.toNat :: ns, rest)
    | '\\' :: [] => none
    | c :: rest =>
      if c.toNat < 32 then none
      else do
        let (ns, rest) ← units? fuel rest
        some (c.toNat :: ns, rest)

def isHigh (n : Nat) : Bool := 0xD800 ≤ n && n < 0xDC00
def isLow (n : Nat) : Bool := 0xDC00 ≤ n && n < 0xE000

/-- Joins surrogate pairs; a surrogate that stands alone has no meaning. -/
def joinUnits : List Nat → Option (List Char)
  | [] => some []
  | [n] => if isHigh n || isLow n then none else some [Char.ofNat n]
  | n :: m :: rest =>
    if isHigh n then
      if isLow m then
        (joinUnits rest).map (Char.ofNat (0x10000 + (n - 0xD800) * 0x400 + (m - 0xDC00)) :: ·)
      else none
    else if isLow n then none
    else (joinUnits (m :: rest)).map (Char.ofNat n :: ·)

/-- A text after its opening quote. -/
def text? (cs : List Char) : Option (Option String × List Char) :=
  (units? (cs.length + 1) cs).map fun (ns, rest) => ((joinUnits ns).map String.ofList, rest)

/-- The digits of a whole number: no zero in front of others. -/
def wholeDigits? : List Char → Option (List Char × List Char)
  | '0' :: rest => some (['0'], rest)
  | cs =>
    let (ds, rest) := cs.span Char.isDigit
    if ds.isEmpty then none else some (ds, rest)

def fractionDigits? : List Char → Option (Option (List Char) × List Char)
  | '.' :: cs =>
    let (ds, rest) := cs.span Char.isDigit
    if ds.isEmpty then none else some (some ds, rest)
  | cs => some (none, cs)

def exponentDigits? : List Char → Option (Option Int × List Char)
  | [] => some (none, [])
  | c :: cs =>
    if c == 'e' || c == 'E' then
      let (negative, cs) := Numeral.sign cs
      let (ds, rest) := cs.span Char.isDigit
      if ds.isEmpty then none
      else
        let n : Int := digitsValue ds
        some (some (if negative then -n else n), rest)
    else some (none, c :: cs)

def number? (cs : List Char) : Option (WrittenNumber × List Char) := do
  let (negative, cs) :=
    match cs with
    | '-' :: cs => (true, cs)
    | cs => (false, cs)
  let (whole, cs) ← wholeDigits? cs
  let (part, cs) ← fractionDigits? cs
  let (exponent, cs) ← exponentDigits? cs
  let tail :=
    if part.isNone && exponent.isNone then none
    else some (part.getD [], exponent.getD 0)
  some (⟨negative, whole, tail⟩, cs)

mutual

/-- Reads a value; blanks in front of it are passed over. -/
def value? : (fuel : Nat) → List Char → Option (Written × List Char)
  | 0, _ => none
  | fuel + 1, cs =>
    match skip cs with
    | 'n' :: 'u' :: 'l' :: 'l' :: rest => some (.null, rest)
    | 't' :: 'r' :: 'u' :: 'e' :: rest => some (.bool true, rest)
    | 'f' :: 'a' :: 'l' :: 's' :: 'e' :: rest => some (.bool false, rest)
    | '"' :: rest => (text? rest).map fun (s, rest) => (.text s, rest)
    | '[' :: rest =>
      match skip rest with
      | ']' :: rest => some (.array [], rest)
      | _ => (items? fuel rest).map fun (items, rest) => (.array items, rest)
    | '{' :: rest =>
      match skip rest with
      | '}' :: rest => some (.object [], rest)
      | _ => (members? fuel rest).map fun (members, rest) => (.object members, rest)
    | cs => (number? cs).map fun (n, rest) => (.number n, rest)

/-- The items of an array that is not empty, up to its closing bracket. -/
def items? : (fuel : Nat) → List Char → Option (List Written × List Char)
  | 0, _ => none
  | fuel + 1, cs =>
    match value? fuel cs with
    | none => none
    | some (item, rest) =>
      match skip rest with
      | ',' :: rest => (items? fuel rest).map fun (items, rest) => (item :: items, rest)
      | ']' :: rest => some ([item], rest)
      | _ => none

/-- The members of an object that is not empty, up to its closing brace. -/
def members? : (fuel : Nat) → List Char → Option (List (Option String × Written) × List Char)
  | 0, _ => none
  | fuel + 1, cs =>
    match skip cs with
    | '"' :: rest =>
      match text? rest with
      | none => none
      | some (key, rest) =>
        match skip rest with
        | ':' :: rest =>
          match value? fuel rest with
          | none => none
          | some (value, rest) =>
            match skip rest with
            | ',' :: rest =>
              (members? fuel rest).map fun (members, rest) => ((key, value) :: members, rest)
            | '}' :: rest => some ([(key, value)], rest)
            | _ => none
        | _ => none
    | _ => none

end

/-- Reads a text that holds one value and nothing else. -/
def read? (s : String) : Option Written :=
  let cs := s.toList
  match value? (2 * cs.length + 2) cs with
  | some (w, rest) => if (skip rest).isEmpty then some w else none
  | none => none

/-! ### To data -/

/-- A whole number stays exact within 64 bits; negative zero is a double. -/
def numberData? (n : WrittenNumber) : Option Json.Number :=
  let real (d : Decimal) : Option Json.Number :=
    let x := d.toFloat
    if x.isFinite then some (.real x) else none
  match n.tail with
  | some (part, e) => real ⟨n.negative, n.whole ++ part, e - part.length⟩
  | none =>
    let v := digitsValue n.whole
    if n.negative then
      if 0 < v && v ≤ Nat.pow 2 63 then some (.negative (v - 1)) else real ⟨true, n.whole, 0⟩
    else if v < Nat.pow 2 64 then some (.natural v)
    else real ⟨false, n.whole, 0⟩

mutual

/-- The data of a written value, if it is nested at most `depth` deep. -/
def data? (depth : Nat) : Written → Option Json
  | .null => some .null
  | .bool b => some (.bool b)
  | .number n => (numberData? n).map .number
  | .text s => s.map .text
  | .array items =>
    match depth with
    | 0 => none
    | depth + 1 => (itemsData? depth items).map .array
  | .object members =>
    match depth with
    | 0 => none
    | depth + 1 => (membersData? depth members).map ofMembers

def itemsData? (depth : Nat) : List Written → Option (List Json)
  | [] => some []
  | w :: rest =>
    match data? depth w, itemsData? depth rest with
    | some j, some js => some (j :: js)
    | _, _ => none

def membersData? (depth : Nat) : List (Option String × Written) → Option (List (String × Json))
  | [] => some []
  | (key, w) :: rest =>
    match key, data? depth w, membersData? depth rest with
    | some key, some j, some js => some ((key, j) :: js)
    | _, _, _ => none

end

end Written

/-- How deep stored data may be nested. -/
def depthLimit : Nat := 127

/-- Reads stored data from its text. -/
def read? (s : String) : Option Json := (Written.read? s).bind (Written.data? depthLimit)

end Blockwork.Json
