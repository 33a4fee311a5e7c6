import Blockwork.Block.Decode
import Blockwork.Target.Basic

/-!
Projects from their text.

The whole text has to be well-formed before anything else counts; then the first target has to be
the stage; then the blocks of each target have to be blocks.
-/

namespace Blockwork

inductive LoadError where
  /-- The file cannot be read. -/
  | unreadable
  /-- The text is not that of a project. -/
  | malformed
  | missingStage
  deriving Repr, DecidableEq

def LoadError.message : LoadError → String
  | .unreadable => "failed to read project"
  | .malformed => "invalid project.json"
  | .missingStage => "project has no stage target"

namespace Project

open Json

/-- The values of the named members of a record, in the order of the names. A record is written as
an object, where other members do not matter and none of the names may be repeated, or as an array
of its first members. -/
def members? (names : List String) : Written → Option (List (Option Written))
  | .object ms =>
    if ms.all (·.1.isSome) && names.all fun n => ms.countP (·.1 == some n) ≤ 1 then
      some (names.map fun n => (ms.find? (·.1 == some n)).map (·.2))
    else none
  | .array items =>
    if items.length ≤ names.length then
      some (items.map some ++ List.replicate (names.length - items.length) none)
    else none
  | _ => none

/-- Decodes every member of an object; without the object there are none. -/
def map? {α : Type} (decode : Written → Option α) : Option Written → Option (Dictionary α)
  | none => some {}
  | some (.object ms) =>
    (ms.mapM fun (m : Option String × Written) => do some (← m.1, ← decode m.2)).map
      Dictionary.ofList
  | some _ => none

/-- The items of an array that is nested so deep that `depth` levels are left inside. -/
def items? (depth : Nat) : Written → Option (List Json)
  | .array items => Written.itemsData? depth items
  | _ => none

def list? (depth : Nat) : Written → Option (String × List Json)
  | .array [.text (some name), items] => (items? depth items).map ((name, ·))
  | _ => none

def text? : Written → Option String
  | .text s => s
  | _ => none

def bool? : Written → Option Bool
  | .bool b => some b
  | _ => none

def float? : Written → Option Float
  | .number n => (Written.numberData? n).map Number.toFloat
  | _ => none

/-- A member that may be left out. -/
def optional? {α : Type} (default : α) (decode : Written → Option α) :
    Option Written → Option α
  | none => some default
  | some w => decode w

/-- A target as it is stored. -/
structure StoredTarget where
  isStage : Bool
  name : String
  vars : Dictionary (List Json)
  lists : Dictionary (String × List Json)
  blocks : Dictionary Json
  visible : Bool
  x : Float
  y : Float
  size : Float
  direction : Float

/-- The depth left inside the target's own members: a project, its targets and the target are around
them. -/
def innerDepth : Nat := depthLimit - 3

def target? (w : Written) : Option StoredTarget := do
  match ← members? ["isStage", "name", "variables", "lists", "blocks", "visible", "x", "y",
      "size", "direction"] w with
  | [isStage, name, vars, lists, blocks, visible, x, y, size, direction] =>
    let isStage ← isStage.bind bool?
    let name ← name.bind text?
    let vars ← map? (items? (innerDepth - 2)) vars
    let lists ← map? (list? (innerDepth - 3)) lists
    let blocks ← map? (Written.data? (innerDepth - 1)) blocks
    let visible ← optional? true bool? visible
    let x ← optional? 0 float? x
    let y ← optional? 0 float? y
    let size ← optional? 100 float? size
    let direction ← optional? 90 float? direction
    some { isStage, name, vars, lists, blocks, visible, x, y, size, direction }
  | _ => none

def targets? (w : Written) : Option (List StoredTarget) := do
  match ← members? ["targets"] w with
  | [some (.array items)] => items.mapM target?
  | _ => none

def dataVariable (entry : String × List Json) : Variable where
  id := entry.1
  name := itemText entry.2 0
  value := (entry.2[1]?.map Value.ofJson).getD .empty
  isCloud := (entry.2[2]?.bind Json.bool?).getD false

def dataList (entry : String × String × List Json) : ItemList :=
  ⟨entry.1, entry.2.1, entry.2.2.map Value.ofJson⟩

/-- The target that a stored one stands for. The stage has no place of its own. -/
def StoredTarget.load? (s : StoredTarget) : Option Target := do
  let blocks ← BlockMap.ofMembers? s.blocks.entries
  let t : Target :=
    { name := s.name, isStage := s.isStage, blocks
      vars := s.vars.entries.map dataVariable
      lists := s.lists.entries.map dataList }
  if s.isStage then some t
  else
    let placed := { t with visible := s.visible, x := s.x, y := s.y, size := s.size }
    some (placed.point s.direction)

/-- The targets of a project. -/
def read (text : String) : Except LoadError (List Target) :=
  match (Written.read? text).bind targets? with
  | none => .error .malformed
  | some stored =>
    if stored.head?.any (·.isStage) then
      match stored.mapM StoredTarget.load? with
      | some targets => .ok targets
      | none => .error .malformed
    else .error .missingStage

end Project

end Blockwork
