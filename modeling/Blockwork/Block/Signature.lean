import Blockwork.Value

/-!
Signatures of custom blocks: a code in which `%s`, `%n` and `%b` mark the arguments, and the
arguments' ids, names and defaults.
-/

namespace Blockwork

/-- What is stored with a block that defines or calls a custom block. -/
structure Mutation where
  code : Option String := none
  argumentIds : Option String := none
  argumentNames : Option String := none
  argumentDefaults : Option String := none
  warp : Option Json := none

namespace Mutation

/-- A text that may be absent. -/
def optionalText? : Json → Option (Option String)
  | .null => some none
  | .text s => some (some s)
  | _ => none

def optionalData : Json → Option Json
  | .null => none
  | j => some j

/-- Builds a mutation from its five members in order. -/
def ofParts? (code ids names defaults warp : Json) : Option Mutation := do
  let code ← optionalText? code
  let ids ← optionalText? ids
  let names ← optionalText? names
  let defaults ← optionalText? defaults
  some ⟨code, ids, names, defaults, optionalData warp⟩

/-- Members are given by name, or in order with any number of them left off at the end. -/
def ofJson? : Json → Option Mutation
  | .object members =>
    let part key := (members.lookup key).getD .null
    ofParts? (part "proccode") (part "argumentids") (part "argumentnames")
      (part "argumentdefaults") (part "warp")
  | .array items =>
    if items.length ≤ 5 then
      let part (i : Nat) := items[i]?.getD .null
      ofParts? (part 0) (part 1) (part 2) (part 3) (part 4)
    else none
  | _ => none

end Mutation

namespace Signature

inductive ArgumentType where
  | text | number | bool
  deriving Repr, DecidableEq, Inhabited

/-- The types marked in a code, in order. -/
def markedTypes : List Char → List ArgumentType
  | '%' :: 's' :: rest => .text :: markedTypes rest
  | '%' :: 'n' :: rest => .number :: markedTypes rest
  | '%' :: 'b' :: rest => .bool :: markedTypes rest
  | _ :: rest => markedTypes rest
  | [] => []

/-- The texts in a stored list; anything that is not a list holds none. -/
def textList (s : Option String) : List String :=
  match s.bind Json.read? with
  | some (.array items) => items.map fun j => (Value.ofJson j).toText
  | _ => []

end Signature

structure Signature where
  code : String
  argumentIds : List String
  argumentNames : List String
  argumentDefaults : List Value
  /-- One for each id. -/
  argumentTypes : List Signature.ArgumentType
  /-- Runs without giving way to other threads. -/
  warp : Bool
  deriving Inhabited

namespace Signature

/-- The ids say how many arguments there are: types are cut off or filled up to that. -/
def new (code : String) (ids names : List String) (defaults : List Value) (warp : Bool) :
    Signature where
  code := code
  argumentIds := ids
  argumentNames := names
  argumentDefaults := defaults
  argumentTypes :=
    (markedTypes code.toList ++ List.replicate ids.length ArgumentType.text).take ids.length
  warp := warp

def isWarp : Option Json → Bool
  | some (.bool b) => b
  | some (.text s) => s == "true"
  | _ => false

def ofMutation (m : Mutation) : Signature :=
  new (m.code.getD "") (textList m.argumentIds) (textList m.argumentNames)
    ((textList m.argumentDefaults).map .text) (isWarp m.warp)

def argumentIndex? (s : Signature) (name : String) : Option Nat :=
  s.argumentNames.findIdx? (· == name)

def argumentType (s : Signature) (i : Nat) : ArgumentType := s.argumentTypes[i]?.getD .text

/-- What an argument is when a call leaves it out: the declared default, or nothing of its type. -/
def defaultArgument (s : Signature) (i : Nat) : Value :=
  match s.argumentDefaults[i]? with
  | some v => v
  | none =>
    match s.argumentType i with
    | .bool => .bool false
    | _ => .empty

end Signature

end Blockwork
