import Blockwork.Block.Decode
import Blockwork.Proofs.Compile.Interning

/-!
Variables and lists that are stored as bare lists: a number for the kind, a name and an id. Such a list
may be plugged into an input or lie free on the workspace, and a field holds the same name and id
without the number. A free block and a field are read in one way, an input in another: where there is
no text for the id, the first two take the name in its place, the last one takes the text of whatever
stands there. Tables go by ids, so the readings meet in one entry just when the ids do.
-/

namespace Blockwork

/-- The reference of a bare list in an input, by what follows its number. -/
def Reference.plugged (parts : List Json) : Reference := ⟨itemText parts 0, itemText parts 1⟩

/-- The reference of a bare list on the workspace, and of a field. -/
def Reference.stored (parts : List Json) : Reference :=
  ⟨itemText parts 0, (parts[1]?.bind Json.text?).getD (itemText parts 0)⟩

/-- The two readings give one reference just when there is a text for the id, or what is there instead
reads as the name. -/
lemma Reference.plugged_eq_stored_iff (parts : List Json) :
    plugged parts = stored parts ↔
      (∃ s, parts[1]? = some (.text s)) ∨ itemText parts 1 = itemText parts 0 := by
  have hid : plugged parts = stored parts ↔
      itemText parts 1 = (parts[1]?.bind Json.text?).getD (itemText parts 0) := by
    rw [plugged, stored, Reference.mk.injEq, eq_self, true_and]
  rw [hid]
  cases h : parts[1]? with
  | none => simp
  | some j =>
    cases j with
    | text s => simp [itemText, h, Json.text?, Value.ofJson, Value.toText]
    | _ => simp [Json.text?]

/-- Without a text for the id the name is the id. -/
lemma Reference.id_stored {parts : List Json} (h : ∀ s, parts[1]? ≠ some (.text s)) :
    (stored parts).id = itemText parts 0 := by
  rw [stored]
  cases hj : parts[1]? with
  | none => rfl
  | some j =>
    cases j with
    | text s => exact absurd hj (h s)
    | _ => rfl

/-- What a bare list names. -/
inductive Primitive where
  | var
  | list

namespace Primitive

open Compiler

/-- The number that a bare list starts with. -/
def tag : Primitive → Json
  | .var => .number (.natural 12)
  | .list => .number (.natural 13)

def plug : Primitive → Reference → Plug
  | .var => .var
  | .list => .list

/-- The field of blocks that do something with it. -/
def field : Primitive → String
  | .var => Recipe.variableField
  | .list => Recipe.listField

def entry : Primitive → Reference → Entry
  | .var => .var
  | .list => .list

/-- What can be done with it. -/
def Op : Primitive → Type
  | .var => VariableOp
  | .list => ListOp

def read : (k : Primitive) → k.Op
  | .var => VariableOp.read
  | .list => ListOp.read

/-- The recipe of a block that does it, after some inputs. -/
def recipe : (k : Primitive) → List String → k.Op → List Recipe.Step → Recipe
  | .var => Recipe.onVariable
  | .list => Recipe.onList

/-- Emits an instruction that does it. -/
def emit : (k : Primitive) → k.Op → Reference → Compiler → Compiler
  | .var => fun op r c => c.variableOp op r
  | .list => fun op r c => c.listOp op r

variable (k : Primitive) (parts : List Json) (c : Compiler)

/-! ### Readings -/

lemma plug_ofJson? :
    Plug.ofJson? (.array (k.tag :: parts)) = some (k.plug (Reference.plugged parts)) := by
  cases k <;> rfl

lemma input_plugged {b : Block} {name : String} {i : Input} {r : Reference}
    (hi : b.input? name = some i) (hr : i.value = some (k.plug r)) (d : Descent) (blocks : BlockMap) :
    c.input d blocks b name = k.emit k.read r c := by
  simp only [input, hi, hr]
  cases k <;> rfl

lemma reference_ofParts :
    (Field.ofParts parts[0]? parts[1]?).reference = Reference.stored parts := rfl

/-- What is entered is entered once. -/
lemma emit_enter (op : k.Op) (r : Reference) :
    k.emit op r (c.enter (k.entry r)).2 = k.emit op r c := by
  cases k with
  | var =>
    have hagain := intern_again (sameId_refl r) (List.prefix_refl (intern sameId r c.tables.vars).2)
    simp only [emit, entry, enter, internVariable, variableOp, hagain]
  | list =>
    have hagain := intern_again (sameId_refl r) (List.prefix_refl (intern sameId r c.tables.lists).2)
    simp only [emit, entry, enter, internList, listOp, hagain]

/-- A block enters what its field names, evaluates its inputs and does what it does with it. -/
lemma recipe_eq {b : Block} {f : Field} (hf : b.field? k.field = some f) (palette : Palette)
    (d : Descent) (blocks : BlockMap) (inputs : List String) (op : k.Op)
    (otherwise : List Recipe.Step) :
    c.recipe palette d blocks b (k.recipe inputs op otherwise) =
      k.emit op f.reference
        (inputs.foldl (fun c name => c.input d blocks b name) (c.enter (k.entry f.reference)).2) := by
  cases k <;>
    simp only [field] at hf <;>
    simp [recipe, Recipe.onVariable, Recipe.onList, Compiler.recipe, hf, steps, Compiler.step,
      List.foldl_map, emit, entry, enter]

/-- A bare list on the workspace is a block that reads what its field names. -/
lemma ofPrimitive?_eq (id : String) : ∃ b, Block.ofPrimitive? id (k.tag :: parts) = some b ∧
    b.field? k.field = some (Field.ofParts parts[0]? parts[1]?) ∧
    Palette.builtin.isHat b.opcode = false ∧
    Palette.builtin.recipe? b.opcode = some (k.recipe [] k.read [.emit .null]) := by
  have hvar : Palette.builtin.isHat "data_variable" = false := by decide
  have hlist : Palette.builtin.isHat "data_listcontents" = false := by decide
  cases k with
  | var => exact ⟨_, rfl, rfl, hvar, Reporter.recipe?_of_reporter (r := .var) rfl⟩
  | list => exact ⟨_, rfl, rfl, hlist, Reporter.recipe?_of_reporter (r := .list [] .read) rfl⟩

/-- It is compiled alike for its value and in a stack. -/
lemma free_stored (id : String) : ∃ b, Block.ofPrimitive? id (k.tag :: parts) = some b ∧
    ∀ (d : Descent) (blocks : BlockMap) (c : Compiler), blocks.get? id = some b →
      c.value .builtin d blocks id = k.emit k.read (Reference.stored parts) c ∧
        c.command .builtin d blocks id b = k.emit k.read (Reference.stored parts) c := by
  obtain ⟨b, hb, hfield, hhat, hrecipe⟩ := k.ofPrimitive?_eq parts id
  refine ⟨b, hb, fun d blocks c hget => ?_⟩
  have hcompile : c.recipe .builtin d blocks b (k.recipe [] k.read [.emit .null]) =
      k.emit k.read (Reference.stored parts) c := by
    rw [k.recipe_eq c hfield, List.foldl_nil, emit_enter, reference_ofParts]
  constructor
  · simp only [value, hget, hrecipe, hcompile]
  · simp only [command, hhat, Bool.false_eq_true, if_false, hrecipe, hcompile]

/-! ### Positions -/

/-- The positions of two references, with other tasks before and in between. -/
def positions (r s : Reference) (ts later : List Task) : Nat × Nat :=
  let c := new.performAll ts
  ((c.enter (k.entry r)).1, (((c.enter (k.entry r)).2.performAll later).enter (k.entry s)).1)

/-- Two references get one position just when they have one id, whatever was compiled before and in
between. -/
lemma position_eq_iff (r s : Reference) (ts later : List Task) :
    (k.positions r s ts later).1 = (k.positions r s ts later).2 ↔ r.id = s.id := by
  rw [positions]
  have hkind : ∀ r, (k.entry r).kind = (k.entry s).kind := by cases k <;> exact fun _ => rfl
  have hsame : ∀ r, (k.entry r).same (k.entry s) = true ↔ r.id = s.id := by
    cases k <;> exact fun _ => beq_iff_eq
  have htidied := (((tidied_new.performAll ts).enter (k.entry r)).performAll later).enter (k.entry s)
  obtain ⟨x, hx, hxr⟩ := get_enter (new.performAll ts) (k.entry r)
  obtain ⟨y, hy, hys⟩ := get_enter
    (((new.performAll ts).enter (k.entry r)).2.performAll later) (k.entry s)
  -- the first entry is still there at the end
  have hgrows := (grows_performAll ((new.performAll ts).enter (k.entry r)).2 later).trans
    (grows_enter (((new.performAll ts).enter (k.entry r)).2.performAll later) (k.entry s))
  replace hx := get?_mono (hgrows.entries (k.entry r).kind) hx
  rw [hkind] at hx
  rw [← hsame]
  constructor
  · intro heq
    rw [heq] at hx
    obtain rfl : x = y := Option.some.inj (hx.symm.trans hy)
    exact Entry.same_trans (Entry.same_comm x _ ▸ hxr) hys
  · intro hrs
    exact htidied.position_eq hx hy
      (Entry.same_trans (Entry.same_trans hxr hrs) (Entry.same_comm y _ ▸ hys))

/-- **One name, one entity**, as far as it goes. A bare list is read from an input as one reference,
from the workspace and from a field as another, and the compiler enters just these. The two are the
same when there is a text for the id, and otherwise only if what is there instead reads as the name.
References get one position in the tables just when they have one id; so those on the workspace and in
fields that have different names and no text for the id are told apart, and those in inputs that have
nothing for the id are not. -/
theorem plugged_eq_stored (k : Primitive) (parts : List Json) :
    (Plug.ofJson? (.array (k.tag :: parts)) = some (k.plug (Reference.plugged parts)) ∧
      ∀ (d : Descent) (blocks : BlockMap) (b : Block) (name : String) (i : Input) (c : Compiler),
        b.input? name = some i → i.value = Plug.ofJson? (.array (k.tag :: parts)) →
          c.input d blocks b name = k.emit k.read (Reference.plugged parts) c) ∧
    (∀ id, ∃ b, Block.ofPrimitive? id (k.tag :: parts) = some b ∧
      ∀ (d : Descent) (blocks : BlockMap) (c : Compiler), blocks.get? id = some b →
        c.value .builtin d blocks id = k.emit k.read (Reference.stored parts) c ∧
          c.command .builtin d blocks id b = k.emit k.read (Reference.stored parts) c) ∧
    (∃ f, Field.ofJson? (.array parts) = some f ∧
      ∀ (d : Descent) (blocks : BlockMap) (b : Block) (inputs : List String) (op : k.Op)
        (otherwise : List Recipe.Step) (c : Compiler), b.field? k.field = some f →
          c.recipe .builtin d blocks b (k.recipe inputs op otherwise) =
            k.emit op (Reference.stored parts) (inputs.foldl
              (fun c name => c.input d blocks b name) (c.enter (k.entry (Reference.stored parts))).2)) ∧
    (Reference.plugged parts = Reference.stored parts ↔
      (∃ s, parts[1]? = some (.text s)) ∨ itemText parts 1 = itemText parts 0) ∧
    ∀ ts later : List Task,
      (∀ r s : Reference, (k.positions r s ts later).1 = (k.positions r s ts later).2 ↔ r.id = s.id) ∧
      ∀ others : List Json,
        ((∀ s, parts[1]? ≠ some (.text s)) → (∀ s, others[1]? ≠ some (.text s)) →
          itemText parts 0 ≠ itemText others 0 →
            (k.positions (Reference.stored parts) (Reference.stored others) ts later).1 ≠
              (k.positions (Reference.stored parts) (Reference.stored others) ts later).2) ∧
        (parts[1]? = none → others[1]? = none →
          (k.positions (Reference.plugged parts) (Reference.plugged others) ts later).1 =
            (k.positions (Reference.plugged parts) (Reference.plugged others) ts later).2) := by
  refine ⟨⟨k.plug_ofJson? parts, fun d blocks b name i c hi hr => ?input⟩, k.free_stored parts,
    ⟨_, rfl, fun d blocks b inputs op otherwise c hf => ?field⟩, Reference.plugged_eq_stored_iff parts,
    fun ts later => ⟨fun r s => k.position_eq_iff r s ts later, fun others => ⟨?apart, ?together⟩⟩⟩
  case input => exact k.input_plugged c hi (hr.trans (k.plug_ofJson? parts)) d blocks
  case field => rw [k.recipe_eq c hf, reference_ofParts]
  case apart =>
    intro hparts hothers hname heq
    have hid := (k.position_eq_iff _ _ ts later).1 heq
    rw [Reference.id_stored hparts, Reference.id_stored hothers] at hid
    exact hname hid
  case together =>
    intro hparts hothers
    refine (k.position_eq_iff _ _ ts later).2 ?_
    simp [Reference.plugged, itemText, hparts, hothers]

/-- A variable without an id, plugged into a block, free on the workspace and in a field; and another
one beside it. -/
theorem plugged_eq_stored_score :
    let parts : List Json := [.text "score"]
    let others : List Json := [.text "lives"]
    let join : Block :=
      { id := "join", opcode := "operator_join"
        inputs := Dictionary.ofList
          [("STRING1", ⟨.shadow, Plug.ofJson? (.array (tag .var :: parts)), none⟩)] }
    let set : Block :=
      { id := "set", opcode := "data_setvariableto"
        fields := Dictionary.ofList [("VARIABLE", Field.ofParts parts[0]? parts[1]?)] }
    (new.input (descend .builtin {} 0) {} join "STRING1").tables.vars = [⟨"score", ""⟩] ∧
    (∃ b, Block.ofPrimitive? "free" (tag .var :: parts) = some b ∧
      (new.value .builtin (descend .builtin ⟨[("free", b)]⟩ 0) ⟨[("free", b)]⟩ "free").tables.vars =
        [⟨"score", "score"⟩]) ∧
    (new.recipe .builtin (descend .builtin {} 0) {} set
      (recipe .var ["VALUE"] VariableOp.set [])).tables.vars = [⟨"score", "score"⟩] ∧
    Reference.plugged parts ≠ Reference.stored parts ∧
    (positions .var (Reference.stored parts) (Reference.stored others) [] []).1 ≠
      (positions .var (Reference.stored parts) (Reference.stored others) [] []).2 ∧
    (positions .var (Reference.plugged parts) (Reference.plugged others) [] []).1 =
      (positions .var (Reference.plugged parts) (Reference.plugged others) [] []).2 := by
  intro parts others join set
  obtain ⟨⟨-, hinput⟩, hfree, ⟨f, hf, hfield⟩, hiff, hpositions⟩ := plugged_eq_stored .var parts
  obtain ⟨b, hb, hvalue⟩ := hfree "free"
  obtain ⟨-, hnames⟩ := hpositions [] []
  obtain ⟨hapart, htogether⟩ := hnames others
  refine ⟨?_, ⟨b, hb, ?_⟩, ?_, ?_, hapart (by simp [parts]) (by simp [others]) (by decide),
    htogether rfl rfl⟩
  · rw [hinput _ _ join "STRING1" _ new rfl rfl]
    rfl
  · rw [(hvalue _ ⟨[("free", b)]⟩ new rfl).1]
    rfl
  · obtain rfl : Field.ofParts parts[0]? parts[1]? = f := Option.some.inj hf
    rw [hfield _ _ set ["VALUE"] VariableOp.set [] new rfl]
    rfl
  · rw [ne_eq, hiff]
    rintro (⟨s, hs⟩ | hname)
    · cases hs
    · exact absurd hname (by decide)

/-- Two variables without an id in one block: the compiler enters one, without an id, and reads it
twice. On the workspace they are two. -/
theorem plugged_collide :
    (∃ blocks, BlockMap.ofMembers? [("join", .object [("opcode", .text "operator_join"),
        ("inputs", .object [
          ("STRING1", .array [.number (.natural 1), .array [tag .var, .text "score"]]),
          ("STRING2", .array [.number (.natural 1), .array [tag .var, .text "lives"]])])])] =
        some blocks ∧
      (new.compile .builtin blocks "join" .reporter).2.tables.vars = [⟨"score", ""⟩] ∧
      (new.compile .builtin blocks "join" .reporter).1.instructions =
        [⟨.start, []⟩, ⟨.var .read, [0]⟩, ⟨.var .read, [0]⟩, ⟨.binary .join, []⟩, ⟨.halt, []⟩]) ∧
    ∃ blocks, BlockMap.ofMembers? [("a", .array [tag .var, .text "score"]),
        ("b", .array [tag .var, .text "lives"])] = some blocks ∧
      ((new.compile .builtin blocks "a" .reporter).2.compile .builtin blocks "b"
        .reporter).2.tables.vars = [⟨"score", "score"⟩, ⟨"lives", "lives"⟩] := by
  refine ⟨⟨_, rfl, ?_, ?_⟩, _, rfl, ?_⟩ <;> decide +kernel

end Primitive

end Blockwork
