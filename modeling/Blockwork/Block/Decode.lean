import Blockwork.Block.Basic

/-!
Blocks from stored data. `none` means that the data does not have the shape of a block.
-/

namespace Blockwork

/-- The text of item `i`, empty when there is none. -/
def itemText (items : List Json) (i : Nat) : String :=
  ((items[i]?.map Value.ofJson).getD .empty).toText

/-- A plug is the id of a block, or a list that starts with the kind of its content. -/
def Plug.ofJson? : Json → Option Plug
  | .text id => some (.block id)
  | .array items =>
    match items.head?.bind Json.natural? with
    | none => none
    | some kind =>
      let reference : Reference := ⟨itemText items 1, itemText items 2⟩
      if 4 ≤ kind && kind ≤ 10 then some (.value ((items[1]?.map Value.ofJson).getD .empty))
      else if kind == 11 then some (.broadcast reference)
      else if kind == 12 then some (.var reference)
      else if kind == 13 then some (.list reference)
      else none
  | _ => none

/-- The kind of an input is a number of one byte. -/
def ShadowKind.ofJson? (j : Json) : Option ShadowKind :=
  match j.natural? with
  | some n => if n == 2 then some .noShadow else if n == 3 then some .obscured
    else if n < 256 then some .shadow else none
  | none => none

def Input.ofJson? : Json → Option Input
  | .array [] => some {}
  | .array (kind :: rest) =>
    (ShadowKind.ofJson? kind).map fun kind =>
      ⟨kind, rest[0]?.bind Plug.ofJson?, rest[1]?.bind Plug.ofJson?⟩
  | _ => none

/-- A field from its value and what may be its id. -/
def Field.ofParts (value id : Option Json) : Field :=
  ⟨(value.map Value.ofJson).getD .empty, id.bind Json.text?⟩

def Field.ofJson? : Json → Option Field
  | .array items => some (Field.ofParts items[0]? items[1]?)
  | _ => none

namespace Block

/-- Decodes every member of an object; without the object there are none. -/
def membersOf? {α : Type} (decode : Json → Option α) : Option Json → Option (Dictionary α)
  | none => some {}
  | some (.object members) =>
    (members.mapM fun (e : String × Json) => (decode e.2).map fun a => (e.1, a)).map
      Dictionary.mk
  | some _ => none

def optional? : Option Json → Option (Option String)
  | none => some none
  | some j => Mutation.optionalText? j

def flag? : Option Json → Option Bool
  | none => some false
  | some j => j.bool?

def mutation? : Option Json → Option (Option Mutation)
  | none => some none
  | some .null => some none
  | some j => (Mutation.ofJson? j).map some

/-- A block that is stored by its members. -/
def ofMembers? (id : String) (members : List (String × Json)) : Option Block := do
  let opcode ← (members.lookup "opcode").bind Json.text?
  let next ← optional? (members.lookup "next")
  let parent ← optional? (members.lookup "parent")
  let inputs ← membersOf? Input.ofJson? (members.lookup "inputs")
  let fields ← membersOf? Field.ofJson? (members.lookup "fields")
  let shadow ← flag? (members.lookup "shadow")
  let topLevel ← flag? (members.lookup "topLevel")
  let mutation ← mutation? (members.lookup "mutation")
  some { id, opcode, next, parent, inputs, fields, shadow, topLevel, mutation }

/-- A variable or a list that lies free on the workspace is stored as a bare list. -/
def ofPrimitive? (id : String) (items : List Json) : Option Block :=
  let block (opcode field : String) : Block :=
    { id, opcode, topLevel := true
      fields := Dictionary.ofList [(field, Field.ofParts items[1]? items[2]?)] }
  match items.head?.bind Json.natural? with
  | some 12 => some (block "data_variable" "VARIABLE")
  | some 13 => some (block "data_listcontents" "LIST")
  | _ => none

/-- The blocks of one member: bare lists that are no variable and no list are left out. -/
def ofEntry? : String × Json → Option (List (String × Block))
  | (id, .array items) => some ((ofPrimitive? id items).map (id, ·)).toList
  | (id, .object members) => (ofMembers? id members).map fun b => [(id, b)]
  | _ => none

end Block

/-- The blocks of a target, from the members of its `blocks` object in the order of their keys. -/
def BlockMap.ofMembers? (members : List (String × Json)) : Option BlockMap :=
  (members.mapM Block.ofEntry?).map fun blocks => ⟨blocks.flatten⟩

end Blockwork
