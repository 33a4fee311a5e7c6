import Blockwork.Compile.Compiler

/-!
Unsupported blocks. When one is met, it and everything plugged into it is looked through, so that
the report names every kind that the script would need.
-/

namespace Blockwork

namespace Compiler

/-- A block and those below it, by their ids. -/
def chain (blocks : BlockMap) : (fuel : Nat) → String → List String
  | 0, _ => []
  | fuel + 1, id =>
    id :: (((blocks.get? id).bind (·.next)).map (chain blocks fuel)).getD []

/-- The blocks directly inside a block: those plugged in, and those below them. -/
def inside (blocks : BlockMap) (b : Block) : List String :=
  b.inputs.entries.flatMap fun (_, i) =>
    match i.value with
    | some (.block id) => chain blocks (blocks.size + 1) id
    | _ => []

/-- The unsupported kinds among a block and all that is inside it. Shadows do not count, nor what
they hold. -/
def unsupportedIn (palette : Palette) (blocks : BlockMap) : (fuel : Nat) → String → List String
  | 0, _ => []
  | fuel + 1, id =>
    match blocks.get? id with
    | none => []
    | some b =>
      if b.shadow then []
      else
        (if palette.isUnsupported b.opcode then [b.opcode] else []) ++
          (inside blocks b).flatMap (unsupportedIn palette blocks fuel)

/-- Records the unsupported kinds that a block brings. -/
def markUnsupported (c : Compiler) (palette : Palette) (blocks : BlockMap) (id : String) :
    Compiler :=
  let opcodes := unsupportedIn palette blocks (blocks.size + 1) id
  { c with unsupported := opcodes.foldl (fun d opcode => d.insert opcode ()) c.unsupported }

end Compiler

end Blockwork
