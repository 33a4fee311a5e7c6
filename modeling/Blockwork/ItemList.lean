import Blockwork.Value

/-!
Lists of values and the indices by which blocks name their items.
-/

namespace Blockwork

structure ItemList where
  id : String
  name : String
  items : List Value
  deriving Inhabited

/-- The place in a list that an index names. -/
inductive ListIndex where
  /-- Counted from zero. -/
  | item (i : Nat)
  | all
  | invalid
  deriving Repr, DecidableEq

namespace ListIndex

/-- The words that name a place without a number. -/
inductive Word where
  | all | last | random
  deriving Repr, DecidableEq

def word? : Value → Option Word
  | .text "all" => some .all
  | .text "last" => some .last
  | .text "random" => some .random
  | .text "any" => some .random
  | _ => none

/-- Whether resolving an index against a list of `length` items draws a random number. -/
def draws (index : Value) (length : Nat) : Bool :=
  word? index == some .random && 0 < length

/-- The place that a number counted from one names. -/
def ofNumber (x : Float) (length : Nat) : ListIndex :=
  let k := Number.floor x
  if k < 1 || k > Float.ofNat length then .invalid else .item (Number.toNat k - 1)

/-- The place an index names in a list of `length` items; `r` is a fraction in `[0, 1)`, used only
by `random` and `any`. -/
def resolve (index : Value) (length : Nat) (acceptAll : Bool) (r : Float) : ListIndex :=
  match word? index with
  | some .all => if acceptAll then .all else .invalid
  | some .last => if 0 < length then .item (length - 1) else .invalid
  | some .random =>
    if 0 < length then
      .item (min (Number.toNat (Number.floor (r * Float.ofNat length))) (length - 1))
    else .invalid
  | none => ofNumber index.toNumber length

end ListIndex

namespace ItemList

def new (id name : String) : ItemList := ⟨id, name, []⟩

def size (l : ItemList) : Nat := l.items.length

def get? (l : ItemList) (i : Nat) : Option Value := l.items[i]?

def push (l : ItemList) (v : Value) : ItemList := { l with items := l.items ++ [v] }

/-- Puts a value in front of item `i`; past the end nothing happens. -/
def insert (l : ItemList) (i : Nat) (v : Value) : ItemList :=
  { l with items := l.items.insertIdx i v }

def eraseAt (l : ItemList) (i : Nat) : ItemList := { l with items := l.items.eraseIdx i }

def replace (l : ItemList) (i : Nat) (v : Value) : ItemList := { l with items := l.items.set i v }

def clear (l : ItemList) : ItemList := { l with items := [] }

/-- The first item that compares equal, counted from zero. -/
def indexOf? (l : ItemList) (v : Value) : Option Nat := l.items.findIdx? (·.equal v)

def contains (l : ItemList) (v : Value) : Bool := (l.indexOf? v).isSome

def isLetter : Value → Bool
  | .text s => s.length == 1
  | _ => false

/-- The items in one text. Single letters are joined directly, anything else by spaces. -/
def toText (l : ItemList) : String :=
  (if l.items.all isLetter then "" else " ").intercalate (l.items.map Value.toText)

end ItemList

end Blockwork
