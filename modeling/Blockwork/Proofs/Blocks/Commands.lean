import Blockwork.Block.Decode
import Blockwork.Proofs.Blocks.Kinds

/-!
The commands whose meaning is a matter of blocks alone: control of the flow, variables and lists,
motion, bubbles and visibility, and custom blocks. The head of a custom block starts a script of
its own.
-/

namespace Blockwork

/-- What a target does that shows on the outside. -/
inductive Deed where
  | move (m : Motion)
  | bubble (kind : BubbleKind)
  | appear (visible : Bool)
  deriving Repr, DecidableEq

def Deed.native : Deed → Native
  | .move m => .motion m
  | .bubble kind => .bubble kind
  | .appear visible => .setVisible visible

/-- What the commands are. -/
inductive Command where
  | branch
  | choice
  | forever
  | times
  | untilTrue
  | whileTrue
  | forEach
  /-- A change of the block's variable. -/
  | var (op : VariableOp)
  /-- A change of the block's list after some inputs. -/
  | list (inputs : List String) (op : ListOp)
  | deed (inputs : List String) (d : Deed)
  | stop
  /-- The head of a custom block. -/
  | head
  | call
  deriving DecidableEq

namespace Command

def table : List (String × Command) := [
  ("control_if", .branch), ("control_if_else", .choice), ("control_forever", .forever),
  ("control_repeat", .times), ("control_repeat_until", .untilTrue),
  ("control_while", .whileTrue), ("control_for_each", .forEach), ("control_stop", .stop),
  ("looks_say", .deed ["MESSAGE"] (.bubble .say)),
  ("looks_think", .deed ["MESSAGE"] (.bubble .think)),
  ("looks_show", .deed [] (.appear true)), ("looks_hide", .deed [] (.appear false)),
  ("motion_movesteps", .deed ["STEPS"] (.move .steps)),
  ("motion_turnright", .deed ["DEGREES"] (.move .turnRight)),
  ("motion_turnleft", .deed ["DEGREES"] (.move .turnLeft)),
  ("motion_gotoxy", .deed ["X", "Y"] (.move .goTo)),
  ("motion_setx", .deed ["X"] (.move .setX)), ("motion_sety", .deed ["Y"] (.move .setY)),
  ("motion_changexby", .deed ["DX"] (.move .changeX)),
  ("motion_changeyby", .deed ["DY"] (.move .changeY)),
  ("motion_pointindirection", .deed ["DIRECTION"] (.move .point)),
  ("data_setvariableto", .var .set), ("data_changevariableby", .var .change),
  ("data_addtolist", .list ["ITEM"] .append), ("data_deleteoflist", .list ["INDEX"] .delete),
  ("data_deletealloflist", .list [] .deleteAll),
  ("data_insertatlist", .list ["ITEM", "INDEX"] .insert),
  ("data_replaceitemoflist", .list ["INDEX", "ITEM"] .replace),
  ("procedures_definition", .head), ("procedures_call", .call)]

def of? (opcode : String) : Option Command := table.lookup opcode

/-- How each is compiled. -/
def recipe : Command → Recipe
  | .branch => .steps [.condition "CONDITION", .emit .branch, .body "SUBSTACK", .emit .endBranch]
  | .choice => .steps [.condition "CONDITION", .emit .branch, .body "SUBSTACK", .emit .otherwise,
      .body "SUBSTACK2", .emit .endBranch]
  | .forever => .steps [.emit .forever, .loopBody "SUBSTACK", .emit .loopEnd]
  | .times => .steps [.input "TIMES", .emit .times, .loopBody "SUBSTACK", .emit .loopEnd]
  | .untilTrue => .steps [.emit .untilLoop, .condition "CONDITION", .emit .untilTest,
      .loopBody "SUBSTACK", .emit .loopEnd]
  | .whileTrue => .steps [.emit .untilLoop, .condition "CONDITION", .emit (.unary .not),
      .emit .untilTest, .loopBody "SUBSTACK", .emit .loopEnd]
  | .forEach => .needs Recipe.variableField [.variableEntry, .input "VALUE",
      .emit (.unary .ceiling), .emit .times, .emit .round, .var .set, .loopBody "SUBSTACK",
      .emit .loopEnd] []
  | .var op => .onVariable ["VALUE"] op []
  | .list inputs op => .onList inputs op []
  | .deed inputs d => .native inputs d.native
  | .stop => .choose "STOP_OPTION" [(0, [.call .stopAll]), (1, [.call .stopThisScript]),
      (2, [.call .stopOtherScripts])] []
  | .head => .definition
  | .call => .call

lemma recipe?_of_mem : ∀ e ∈ table, Palette.builtin.recipe? e.1 = some e.2.recipe := by
  decide

lemma recipe?_of_command {opcode : String} {c : Command} (h : of? opcode = some c) :
    Palette.builtin.recipe? opcode = some c.recipe :=
  recipe?_of_mem (opcode, c) (mem_of_lookup h)

end Command

/-! ### Heads of custom blocks -/

/-- Heads of custom blocks are compiled as such wherever they stand. -/
lemma Palette.kind_definition : builtin.isHat "procedures_definition" = false ∧
    builtin.recipe? "procedures_definition" = some .definition ∧
    builtin.predicate? "procedures_definition" = none := by
  decide

/-- Nobody but calls has their recipe. -/
lemma Palette.opcode_of_call {opcode : String} (h : builtin.recipe? opcode = some .call) :
    opcode = "procedures_call" := by
  have key : ∀ s ∈ builtin.sections, ∀ e ∈ s.recipes, e.2 = .call → e.1 = "procedures_call" := by
    decide
  obtain ⟨s, hs, hr⟩ := List.exists_of_findSome?_eq_some h
  exact key s hs (opcode, .call) (mem_of_lookup hr) rfl

deriving instance DecidableEq for Signature

/-- The signature of the custom block whose head this is. -/
def Block.head? (blocks : BlockMap) (b : Block) : Option Signature :=
  if b.opcode == "procedures_definition" then
    ((Compiler.pluggedBlock? blocks b "custom_block").bind (·.mutation)).map Signature.ofMutation
  else none

namespace BlockMap

/-- Every block is stored under its own id, and no id twice. -/
structure Keyed (blocks : BlockMap) : Prop where
  ids : ∀ e ∈ blocks.entries, e.2.id = e.1
  keys : blocks.keys.Nodup

instance (blocks : BlockMap) : Decidable blocks.Keyed :=
  decidable_of_iff ((∀ e ∈ blocks.entries, e.2.id = e.1) ∧ blocks.keys.Nodup)
    ⟨fun h => ⟨h.1, h.2⟩, fun h => ⟨h.ids, h.keys⟩⟩

lemma Keyed.get? {blocks : BlockMap} (h : blocks.Keyed) {id : String} {b : Block}
    (hb : (id, b) ∈ blocks.entries) : blocks.get? id = some b := by
  have hnodup : blocks.entries.Pairwise fun x y => x.1 ≠ y.1 := by
    simpa [Dictionary.keys, List.Nodup, List.pairwise_map] using h.keys
  obtain ⟨xs, ys, hxs⟩ := List.append_of_mem hb
  rw [hxs, List.pairwise_append] at hnodup
  rw [Dictionary.get?, hxs]
  refine List.lookup_eq_some_iff.2 ⟨xs, ys, rfl, fun e he => ?_⟩
  simpa using (hnodup.2.2 e he (id, b) (by simp)).symm

lemma id_ofMembers? {id : String} {members : List (String × Json)} {b : Block}
    (h : Block.ofMembers? id members = some b) : b.id = id := by
  simp only [Block.ofMembers?, Option.bind_eq_bind, Option.bind_eq_some_iff] at h
  obtain ⟨_, -, _, -, _, -, _, -, _, -, _, -, _, -, _, -, hb⟩ := h
  cases hb
  rfl

lemma ofEntry?_cases {e : String × Json} {bs : List (String × Block)}
    (h : Block.ofEntry? e = some bs) : bs = [] ∨ ∃ b, bs = [(e.1, b)] ∧ b.id = e.1 := by
  obtain ⟨id, j⟩ := e
  cases j <;> simp only [Block.ofEntry?, reduceCtorEq] at h
  case array items =>
    cases h
    unfold Block.ofPrimitive?
    simp only
    split
    · exact Or.inr ⟨_, rfl, rfl⟩
    · exact Or.inr ⟨_, rfl, rfl⟩
    · exact Or.inl rfl
  case object members =>
    obtain ⟨b, hb, rfl⟩ := Option.map_eq_some_iff.1 h
    exact Or.inr ⟨b, rfl, id_ofMembers? hb⟩

/-- Blocks that are read from a project are stored under their own ids. -/
lemma keyed_ofMembers? {members : List (String × Json)} {blocks : BlockMap}
    (h : ofMembers? members = some blocks) (hm : (members.map (·.1)).Nodup) : blocks.Keyed := by
  obtain ⟨bs, hbs, rfl⟩ := Option.map_eq_some_iff.1 h
  have hread : (∀ e ∈ bs.flatten, e.2.id = e.1) ∧
      (bs.flatten.map (·.1)).Sublist (members.map (·.1)) := by
    clear h hm
    induction members generalizing bs with
    | nil =>
      cases hbs
      simp
    | cons m rest ih =>
      simp only [List.mapM_cons, Option.bind_eq_bind, Option.bind_eq_some_iff] at hbs
      obtain ⟨first, hfirst, others, hothers, hall⟩ := hbs
      cases hall
      obtain ⟨hids, hkeys⟩ := ih others hothers
      rcases ofEntry?_cases hfirst with rfl | ⟨b, rfl, hb⟩
      · exact ⟨by simpa using hids, by simpa using hkeys.cons m.1⟩
      · refine ⟨fun e he => ?_, by simpa using hkeys.cons_cons m.1⟩
        rcases List.mem_append.1 he with he | he
        · rw [List.mem_singleton.1 he]
          exact hb
        · exact hids e he
  exact ⟨hread.1, hread.2.nodup hm⟩

/-- The head of the custom block of some code, if this is one. -/
def headAt? (blocks : BlockMap) (code : String) (e : String × Block) :
    Option (String × Signature) :=
  if e.2.topLevel then ((e.2.head? blocks).filter (·.code == code)).map fun s => (e.1, s)
  else none

/-- The head of the custom block of some code: the first one among the top-level blocks. -/
def headOf? (blocks : BlockMap) (code : String) : Option (String × Signature) :=
  blocks.entries.findSome? (blocks.headAt? code)

lemma headAt?_eq_some {blocks : BlockMap} {code id : String} {e : String × Block} {s : Signature} :
    blocks.headAt? code e = some (id, s) ↔
      e.2.topLevel = true ∧ e.2.head? blocks = some s ∧ s.code = code ∧ e.1 = id := by
  unfold headAt?
  cases htop : e.2.topLevel with
  | false => simp
  | true =>
    cases hs : e.2.head? blocks with
    | none => simp
    | some d =>
      by_cases hc : d.code = code
      · simp only [if_true, Option.filter_some, beq_iff_eq, hc, Option.map_some,
          Option.some.injEq, Prod.mk.injEq, true_and]
        grind
      · simp only [if_true, Option.filter_some, beq_iff_eq, hc, if_false, Option.map_none,
          reduceCtorEq, Option.some.injEq, true_and, false_iff]
        grind

/-- Heads of custom blocks start scripts of their own, and the signature of each is the first one
with its code. -/
structure Orderly (blocks : BlockMap) : Prop where
  topLevel : ∀ e ∈ blocks.entries, (e.2.head? blocks).isSome → e.2.topLevel = true
  roots : ∀ e ∈ blocks.entries, ∀ id ∈ e.2.refers, ∀ x ∈ blocks.get? id, x.head? blocks = none
  signatures : ∀ e ∈ blocks.entries, ∀ d ∈ e.2.head? blocks,
    Compiler.findSignature? blocks d.code = some d

instance (blocks : BlockMap) : Decidable blocks.Orderly :=
  decidable_of_iff
    ((∀ e ∈ blocks.entries, (e.2.head? blocks).isSome → e.2.topLevel = true) ∧
      (∀ e ∈ blocks.entries, ∀ id ∈ e.2.refers, ∀ x ∈ blocks.get? id, x.head? blocks = none) ∧
      ∀ e ∈ blocks.entries, ∀ d ∈ e.2.head? blocks,
        Compiler.findSignature? blocks d.code = some d)
    ⟨fun ⟨h1, h2, h3⟩ => ⟨h1, h2, h3⟩, fun h => ⟨h.topLevel, h.roots, h.signatures⟩⟩

/-- The arguments of custom blocks can be counted by operands. -/
def NamesFit (blocks : BlockMap) : Prop :=
  ∀ e ∈ blocks.entries, ∀ d ∈ e.2.head? blocks, d.argumentNames.length ≤ UInt32.size

instance (blocks : BlockMap) : Decidable blocks.NamesFit :=
  inferInstanceAs (Decidable (∀ e ∈ blocks.entries, ∀ d ∈ e.2.head? blocks,
    d.argumentNames.length ≤ UInt32.size))

end BlockMap

end Blockwork
