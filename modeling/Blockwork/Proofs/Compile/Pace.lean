import Blockwork.Proofs.Code.Pauses
import Blockwork.Proofs.Compile.Repeatable
import Blockwork.Proofs.Compile.Targets

/-!
Maps that differ in the warp flags of custom blocks. The flag decides which pauses are emitted, and
nothing else: the two compilers fill their tables in the same way, and the code that they write is the
same but for the pauses.
-/

namespace Blockwork

/-- The signature without its flag. -/
def Signature.still (s : Signature) : Signature := { s with warp := false }

/-- Blocks that are the same but for the flag of a signature. -/
structure Block.Paced (b b' : Block) : Prop extends b.Alike b' where
  still : b'.mutation.map (Signature.still ∘ .ofMutation) =
    b.mutation.map (Signature.still ∘ .ofMutation)

/-- The block with another flag, if it carries the signature of a custom block. -/
def Block.withWarp (b : Block) (flag : Option Json) : Block :=
  if b.opcode = Compiler.prototypeOpcode then
    { b with mutation := b.mutation.map fun m => { m with warp := flag } }
  else b

lemma Block.Paced.refl (b : Block) : b.Paced b := ⟨.refl b, rfl⟩

lemma Block.paced_withWarp (b : Block) (flag : Option Json) : b.Paced (b.withWarp flag) := by
  unfold withWarp
  split
  · next hop =>
    refine ⟨⟨rfl, fun h => absurd hop h⟩, ?_⟩
    cases b.mutation <;> rfl
  · exact .refl b

namespace BlockMap

/-- Maps that are the same but for the flags of signatures. -/
def Paced (blocks blocks' : BlockMap) : Prop :=
  List.Forall₂ (fun e e' => e.1 = e'.1 ∧ e.2.Paced e'.2) blocks.entries blocks'.entries

/-- The map with another flag for one custom block. -/
def setWarp (blocks : BlockMap) (id : String) (flag : Option Json) : BlockMap :=
  ⟨blocks.entries.map fun e => (e.1, if e.1 = id then e.2.withWarp flag else e.2)⟩

lemma paced_setWarp (blocks : BlockMap) (id : String) (flag : Option Json) :
    blocks.Paced (blocks.setWarp id flag) := by
  refine List.forall₂_map_right_iff.2 (List.forall₂_same.2 fun e _ => ⟨rfl, ?_⟩)
  simp only
  split
  · exact e.2.paced_withWarp flag
  · exact .refl e.2

variable {blocks blocks' : BlockMap}

lemma Paced.alike (h : blocks.Paced blocks') : blocks.Alike blocks' :=
  List.Forall₂.imp (fun _ _ he => ⟨he.1, he.2.toAlike⟩) h

lemma Paced.get? (h : blocks.Paced blocks') (id : String) :
    blocks.get? id = none ∧ blocks'.get? id = none ∨
      ∃ b b', blocks.get? id = some b ∧ blocks'.get? id = some b' ∧ b.Paced b' :=
  Dictionary.get?_related h id

end BlockMap

section

variable {blocks blocks' : BlockMap} {b b' : Block}

/-- Heads declare the same, but for the flag. -/
lemma Block.Paced.head? (hb : b.Paced b') (h : blocks.Paced blocks') :
    (b'.head? blocks').map Signature.still = (b.head? blocks).map Signature.still := by
  have hop : b'.opcode = b.opcode := by rw [hb.same]
  have hplug : b'.plugged? "custom_block" = b.plugged? "custom_block" := by rw [hb.same]; rfl
  have hmutation : ((Compiler.pluggedBlock? blocks' b' "custom_block").bind (·.mutation)).map
      (Signature.still ∘ .ofMutation) =
      ((Compiler.pluggedBlock? blocks b "custom_block").bind (·.mutation)).map
        (Signature.still ∘ .ofMutation) := by
    unfold Compiler.pluggedBlock?
    rw [hplug]
    cases b.plugged? "custom_block" with
    | none => rfl
    | some id =>
      rcases h.get? id with ⟨h1, h2⟩ | ⟨x, x', h1, h2, hx⟩
      · simp only [Option.bind_some, h1, h2]
      · simp only [Option.bind_some, h1, h2]
        exact hx.still
  unfold Block.head?
  rw [hop]
  split
  · rw [Option.map_map, Option.map_map]
    exact hmutation
  · rfl

/-- Signatures that are the same but for the flag have the same code. -/
lemma Signature.code_of_still {s s' : Signature} (h : s'.still = s.still) : s'.code = s.code :=
  show s'.still.code = s.still.code from congrArg Signature.code h

lemma Block.Paced.declared (hb : b.Paced b') (code : String) :
    ((b'.mutation.map Signature.ofMutation).filter (·.code == code)).map Signature.still =
      ((b.mutation.map Signature.ofMutation).filter (·.code == code)).map Signature.still := by
  have hstill := hb.still
  cases hm : b.mutation with
  | none =>
    rw [hm] at hstill
    rw [Option.map_eq_none_iff.1 hstill]
  | some m =>
    rw [hm, Option.map_some] at hstill
    obtain ⟨m', hm', hsame⟩ := Option.map_eq_some_iff.1 hstill
    have hcode := Signature.code_of_still hsame
    simp only [hm', Option.map_some, Option.filter_some, hcode]
    split
    · exact congrArg some hsame
    · rfl

/-- The first signature of a code is the same in both maps, but for the flag. -/
lemma findSignature?_paced (h : blocks.Paced blocks') (code : String) :
    (Compiler.findSignature? blocks' code).map Signature.still =
      (Compiler.findSignature? blocks code).map Signature.still := by
  unfold BlockMap.Paced at h
  unfold Compiler.findSignature?
  rw [List.map_findSome?, List.map_findSome?]
  generalize blocks.entries = es at h
  generalize blocks'.entries = es' at h
  induction h with
  | nil => rfl
  | @cons e e' _ _ he _ ih =>
    have hop : e'.2.opcode = e.2.opcode := by rw [he.2.same]
    have hfirst : (if (e'.2.opcode == Compiler.prototypeOpcode) = true then
          (e'.2.mutation.map Signature.ofMutation).filter (·.code == code) else none).map Signature.still =
        (if (e.2.opcode == Compiler.prototypeOpcode) = true then
          (e.2.mutation.map Signature.ofMutation).filter (·.code == code) else none).map
            Signature.still := by
      rw [hop]
      split
      · exact he.2.declared code
      · rfl
    simp only [List.findSome?_cons, Function.comp_apply, hfirst]
    rw [ih]

end

/-! ### Compilers in step -/

namespace Compiler

/-- Two compilers that have written the same but for the pauses, and know the same but for the flags. -/
structure Paced (c c' : Compiler) : Prop where
  tables : c.tables.unpaused = c'.tables.unpaused
  code : Code.unpaused c.code = Code.unpaused c'.code
  signature : c'.signature.map Signature.still = c.signature.map Signature.still
  definitions : ∀ code, (c'.definitions.get? code).map Signature.still =
    (c.definitions.get? code).map Signature.still

section

variable {blocks blocks' : BlockMap} {c c' : Compiler}

lemma Paced.emit (h : Paced c c') (op : Opcode) : Paced (c.emit op) (c'.emit op) :=
  ⟨h.tables, by simp only [Compiler.emit, Code.unpaused_append, h.code], h.signature, h.definitions⟩

lemma Paced.emitAt (h : Paced c c') {i i' : Nat} (hi : i = i') (op : Opcode) :
    Paced (c.emitAt op i) (c'.emitAt op i') :=
  ⟨h.tables, by simp only [Compiler.emitAt, Code.unpaused_append, h.code, hi], h.signature,
    h.definitions⟩

/-- A pause makes no difference, whoever emits it. -/
lemma Paced.left (h : Paced c c') {op : Opcode} (hop : op.isPause = true) : Paced (c.emit op) c' := by
  refine ⟨h.tables, ?_, h.signature, h.definitions⟩
  rw [Compiler.emit, Code.unpaused_append, Code.unpaused_cons_of_pause hop, Code.unpaused_nil,
    List.append_nil, h.code]

lemma Paced.right (h : Paced c c') {op : Opcode} (hop : op.isPause = true) : Paced c (c'.emit op) := by
  refine ⟨h.tables, ?_, h.signature, h.definitions⟩
  rw [Compiler.emit, Code.unpaused_append, Code.unpaused_cons_of_pause hop, Code.unpaused_nil,
    List.append_nil, h.code]

/-- Each emits its pauses when it will. -/
lemma Paced.pause (h : Paced c c') {op : Opcode} (hop : op.isPause = true) (x y : Bool) :
    Paced (if x then c.emit op else c) (if y then c'.emit op else c') := by
  cases x <;> cases y
  · exact h
  · exact h.right hop
  · exact h.left hop
  · exact h.emit op

/-- A table but that of the bodies. -/
lemma Paced.table (h : Paced c c') {α : Type} (get : Tables → α)
    (hget : ∀ t : Tables, get t.unpaused = get t) : get c.tables = get c'.tables := by
  rw [← hget, h.tables, hget]

lemma Paced.codes (h : Paced c c') : c.tables.procedureCodes = c'.tables.procedureCodes :=
  h.table Tables.procedureCodes fun _ => rfl

lemma Paced.internConst (h : Paced c c') (v : Value) :
    (c.internConst v).1 = (c'.internConst v).1 ∧ Paced (c.internConst v).2 (c'.internConst v).2 :=
  ⟨h.table (fun t => (intern Value.identical v t.constants).1) fun _ => rfl,
    congrArg (fun t : Tables => { t with constants := (intern Value.identical v t.constants).2 }) h.tables,
    h.code, h.signature, h.definitions⟩

lemma Paced.internNative (h : Paced c c') (n : Native) :
    (c.internNative n).1 = (c'.internNative n).1 ∧ Paced (c.internNative n).2 (c'.internNative n).2 :=
  ⟨h.table (fun t => (intern (· == ·) n t.natives).1) fun _ => rfl,
    congrArg (fun t : Tables => { t with natives := (intern (· == ·) n t.natives).2 }) h.tables,
    h.code, h.signature, h.definitions⟩

lemma Paced.internVariable (h : Paced c c') (r : Reference) :
    (c.internVariable r).1 = (c'.internVariable r).1 ∧
      Paced (c.internVariable r).2 (c'.internVariable r).2 :=
  ⟨h.table (fun t => (intern sameId r t.vars).1) fun _ => rfl,
    congrArg (fun t : Tables => { t with vars := (intern sameId r t.vars).2 }) h.tables,
    h.code, h.signature, h.definitions⟩

lemma Paced.internList (h : Paced c c') (r : Reference) :
    (c.internList r).1 = (c'.internList r).1 ∧ Paced (c.internList r).2 (c'.internList r).2 :=
  ⟨h.table (fun t => (intern sameId r t.lists).1) fun _ => rfl,
    congrArg (fun t : Tables => { t with lists := (intern sameId r t.lists).2 }) h.tables,
    h.code, h.signature, h.definitions⟩

lemma Paced.internProcedure (h : Paced c c') (code : String) :
    (c.internProcedure code).1 = (c'.internProcedure code).1 ∧
      Paced (c.internProcedure code).2 (c'.internProcedure code).2 := by
  unfold Compiler.internProcedure
  rw [h.codes]
  cases c'.tables.procedureCodes.findIdx? (· == code) with
  | some i => exact ⟨rfl, h⟩
  | none =>
    refine ⟨rfl, ?_, h.code, h.signature, h.definitions⟩
    have htables := congrArg (fun t : Tables => { t with
      procedureCodes := t.procedureCodes ++ [code], procedures := t.procedures ++ [none] }) h.tables
    simpa only [Tables.unpaused, List.map_append, List.map_cons, List.map_nil, Option.map_none, h.codes]
      using htables

lemma Paced.callCode (h : Paced c c') (code : String) : Paced (c.callCode code) (c'.callCode code) :=
  (h.internProcedure code).2.emitAt (h.internProcedure code).1 .callProcedure

/-! ### Custom blocks -/

lemma Paced.insert (h : Paced c c') {s s' : Signature} (hs : s'.still = s.still) (code : String) :
    Paced { c with definitions := c.definitions.insert code s }
      { c' with definitions := c'.definitions.insert code s' } := by
  refine ⟨h.tables, h.code, h.signature, fun key => ?_⟩
  simp only [Dictionary.get?_insert]
  split
  · exact congrArg some hs
  · exact h.definitions key

/-- What both find for a custom block. -/
lemma Paced.definition (h : Paced c c') (hblocks : blocks.Paced blocks') (code : String) :
    (c'.definition blocks' code).1.map Signature.still = (c.definition blocks code).1.map Signature.still ∧
      Paced (c.definition blocks code).2 (c'.definition blocks' code).2 := by
  have hknown := h.definitions code
  have hfound := findSignature?_paced hblocks code
  unfold Compiler.definition
  cases hc : c.definitions.get? code with
  | some s =>
    rw [hc, Option.map_some] at hknown
    obtain ⟨s', hs', hsame⟩ := Option.map_eq_some_iff.1 hknown
    simp only [hs']
    exact ⟨congrArg some hsame, h⟩
  | none =>
    rw [hc, Option.map_none, Option.map_eq_none_iff] at hknown
    cases hs : findSignature? blocks code with
    | some s =>
      rw [hs, Option.map_some] at hfound
      obtain ⟨s', hs', hsame⟩ := Option.map_eq_some_iff.1 hfound
      simp only [hknown, hs']
      exact ⟨congrArg some hsame, h.insert hsame code⟩
    | none =>
      rw [hs, Option.map_none, Option.map_eq_none_iff] at hfound
      simp only [hknown, hfound]
      exact ⟨trivial, h⟩

lemma Paced.define (h : Paced c c') {s s' : Signature} (hs : s'.still = s.still) :
    Paced (c.define s) (c'.define s') := by
  have hcode := Signature.code_of_still hs
  have hin := (h.internProcedure s.code).2
  have hdefs := (hin.insert hs s.code).definitions
  simp only [Compiler.define, hcode]
  exact ⟨hin.tables, hin.code, congrArg some hs, hdefs⟩

lemma Paced.head (h : Paced c c') (hblocks : blocks.Paced blocks') {b b' : Block} (hb : b.Paced b')
    (hop : b.opcode = "procedures_definition") : Paced (c.head blocks b) (c'.head blocks' b') := by
  have hop' : b'.opcode = "procedures_definition" := by rw [hb.same]; exact hop
  have hsame := hb.head? hblocks
  cases hs : b.head? blocks with
  | none =>
    rw [hs, Option.map_none, Option.map_eq_none_iff] at hsame
    rw [head_of_no_head hop hs, head_of_no_head hop' hsame]
    exact h
  | some s =>
    rw [hs, Option.map_some] at hsame
    obtain ⟨s', hs', hstill⟩ := Option.map_eq_some_iff.1 hsame
    rw [head_of_head? hop hs, head_of_head? hop' hs']
    exact (h.define hstill).pause rfl s.warp s'.warp

/-- The flag is not read by those who look for defaults or arguments. -/
lemma defaultArgument_still (x : Option Signature) (s : Signature) (i : Nat) :
    ((x.map Signature.still).getD s.still).defaultArgument i = (x.getD s).defaultArgument i := by
  cases x <;> rfl

lemma argumentIndex_still (x : Option Signature) (name : String) :
    (x.map Signature.still).bind (·.argumentIndex? name) = x.bind (·.argumentIndex? name) := by
  cases x <;> rfl

lemma couples_paced (hblocks : blocks.Paced blocks') :
    Couples blocks blocks' (fun _ => True) Paced where
  emit h _ := h.emit _
  const v h := (h.internConst v).2.emitAt (h.internConst v).1 .const
  callNative {_ _ n} h _ := (h.internNative n).2.emitAt (h.internNative n).1 .exec
  internVariable r h := (h.internVariable r).2
  internList r h := (h.internList r).2
  variableOp op r h := (h.internVariable r).2.emitAt (h.internVariable r).1 (.var op)
  listOp op r h := (h.internList r).2.emitAt (h.internList r).1 (.list op)
  unsupported _ h := ⟨h.tables, h.code, h.signature, h.definitions⟩
  pause {c c'} h := by
    split <;> split
    · exact h
    · exact h.right rfl
    · exact h.left rfl
    · exact h.emit .breakFrame
  head h _ hb hb' hop := by
    rcases hblocks.get? _ with ⟨h1, -⟩ | ⟨x, x', h1, h2, hx⟩
    · rw [hb] at h1; cases h1
    · cases h1.symm.trans hb
      cases h2.symm.trans hb'
      exact h.head hblocks hx hop
  definition code h := (h.definition hblocks code).2
  defaults code s i h := by
    have hsame := congrArg (fun x : Option Signature => (x.getD s.still).defaultArgument i)
      (h.definition hblocks code).1
    rwa [defaultArgument_still, defaultArgument_still] at hsame
  internProcedure code h := (h.internProcedure code).2
  callCode code h := h.callCode code
  argumentIndex name h := by
    have hsame := congrArg (fun x : Option Signature => x.bind (·.argumentIndex? name)) h.signature
    rwa [argumentIndex_still, argumentIndex_still] at hsame
  readArg i h := h.emitAt rfl .readArg

/-! ### Units -/

lemma Paced.finished (h : Paced c c') (hblocks : blocks.Paced blocks') (id : String) (mode : Mode) :
    Paced (c.finished blocks id mode) (c'.finished blocks' id mode) := by
  have hfresh : Paced c.fresh c'.fresh := ⟨h.tables, rfl, rfl, h.definitions⟩
  exact ((couples_paced hblocks).root hblocks.alike (BlockMap.closed_all blocks) trivial mode
    (hfresh.emit .start)).emit .halt

lemma Paced.install (h : Paced c c') {s s' : Signature} (hs : s'.still = s.still) {body body' : Code}
    (hbody : Code.unpaused body.instructions = Code.unpaused body'.instructions) :
    Paced (c.install s body) (c'.install s' body') := by
  obtain ⟨hi, hin⟩ := h.internProcedure s.code
  have hcode := Signature.code_of_still hs
  simp only [Compiler.install, hcode]
  generalize c.internProcedure s.code = x at hi hin
  generalize c'.internProcedure s.code = x' at hi hin
  obtain ⟨i, e⟩ := x
  obtain ⟨i', e'⟩ := x'
  obtain rfl : i = i' := hi
  have hplace := congrArg (fun t : Tables => t.procedures[i]?) hin.tables
  simp only [Tables.unpaused, List.getElem?_map] at hplace
  cases hx : e.tables.procedures[i]? with
  | none =>
    rw [hx, Option.map_none] at hplace
    rw [Option.map_eq_none_iff.1 hplace.symm]
    exact hin
  | some x =>
    rw [hx, Option.map_some] at hplace
    obtain ⟨x', hx', hsame⟩ := Option.map_eq_some_iff.1 hplace.symm
    rw [hx']
    cases x with
    | some y =>
      obtain ⟨y', rfl, -⟩ := Option.map_eq_some_iff.1 hsame
      exact hin
    | none =>
      obtain rfl := Option.map_eq_none_iff.1 hsame
      refine ⟨?_, hin.code, hin.signature, hin.definitions⟩
      have htables := congrArg (fun t : Tables => { t with
        procedures := t.procedures.set i (some (.ofInstructions (Code.unpaused body.instructions))) })
        hin.tables
      simpa only [Tables.unpaused, List.map_set, Option.map_some, hbody] using htables

lemma compile_snd (c : Compiler) (blocks : BlockMap) (id : String) (mode : Mode) :
    (c.compile .builtin blocks id mode).2 =
      { (c.finished blocks id mode).signature.elim (c.finished blocks id mode)
          ((c.finished blocks id mode).install · (c.compile .builtin blocks id mode).1) with
        code := [], signature := none } := by
  cases hs : (c.finished blocks id mode).signature with
  | none =>
    simp only [Compiler.compile]
    split
    · next hs' => exact absurd (hs'.symm.trans hs) (by simp)
    · rfl
  | some s =>
    simp only [Compiler.compile]
    split
    · next hs' =>
      cases hs'.symm.trans hs
      rfl
    · next hs' => exact absurd (hs'.symm.trans hs) (by simp)

/-- Code that was compiled is the same but for the pauses, and so is what is left behind. -/
lemma Paced.compile (h : Paced c c') (hblocks : blocks.Paced blocks') (id : String) (mode : Mode) :
    Paced (c.compile .builtin blocks id mode).2 (c'.compile .builtin blocks' id mode).2 := by
  have hend := h.finished hblocks id mode
  have hcode : Code.unpaused (c.compile .builtin blocks id mode).1.instructions =
      Code.unpaused (c'.compile .builtin blocks' id mode).1.instructions := by
    rw [instructions_eq_finished, instructions_eq_finished]
    exact hend.code
  have hafter : Paced ((c.finished blocks id mode).signature.elim (c.finished blocks id mode)
      ((c.finished blocks id mode).install · (c.compile .builtin blocks id mode).1))
      ((c'.finished blocks' id mode).signature.elim (c'.finished blocks' id mode)
        ((c'.finished blocks' id mode).install · (c'.compile .builtin blocks' id mode).1)) := by
    have hsame := hend.signature
    cases hs : (c.finished blocks id mode).signature with
    | none =>
      rw [hs, Option.map_none, Option.map_eq_none_iff] at hsame
      rw [hsame]
      exact hend
    | some s =>
      rw [hs, Option.map_some] at hsame
      obtain ⟨s', hs', hstill⟩ := Option.map_eq_some_iff.1 hsame
      rw [hs']
      exact hend.install hstill hcode
  rw [compile_snd, compile_snd]
  exact ⟨hafter.tables, rfl, rfl, hafter.definitions⟩

lemma Paced.compileAll (h : Paced c c') (hblocks : blocks.Paced blocks')
    (units : List (String × Mode)) :
    Paced (c.compileAll .builtin blocks units) (c'.compileAll .builtin blocks' units) := by
  induction units generalizing c c' with
  | nil => exact h
  | cons u rest ih => exact ih (h.compile hblocks u.1 u.2)

/-! ### Targets -/

lemma rootsWhere_paced (h : blocks.Paced blocks') {q : Block → Bool}
    (hq : ∀ {b b' : Block}, b.Paced b' → q b' = q b) :
    List.Forall₂ (fun e e' => e.1 = e'.1 ∧ e.2.Paced e'.2) (Engine.rootsWhere q blocks)
      (Engine.rootsWhere q blocks') := by
  unfold BlockMap.Paced at h
  unfold Engine.rootsWhere
  generalize blocks.entries = es at h
  generalize blocks'.entries = es' at h
  induction h with
  | nil => exact .nil
  | @cons e e' _ _ he _ ih =>
    have htop : e'.2.topLevel = e.2.topLevel := by rw [he.2.same]
    simp only [List.filter_cons, htop, hq he.2]
    split
    · exact .cons he ih
    · exact ih

lemma flatMap_paced {es es' : List (String × Block)}
    (h : List.Forall₂ (fun e e' => e.1 = e'.1 ∧ e.2.Paced e'.2) es es')
    {f : String × Block → List (String × Mode)}
    (hf : ∀ {e e' : String × Block}, e.1 = e'.1 → e'.2.opcode = e.2.opcode → f e' = f e) :
    es'.flatMap f = es.flatMap f := by
  induction h with
  | nil => rfl
  | @cons e e' _ _ he _ ih =>
    have hop : e'.2.opcode = e.2.opcode := by rw [he.2.same]
    rw [List.flatMap_cons, List.flatMap_cons, ih, hf he.1 hop]

/-- The same is compiled for both maps. -/
lemma targetUnits_paced (h : blocks.Paced blocks') : targetUnits blocks' = targetUnits blocks := by
  have hop : ∀ {b b' : Block}, b.Paced b' → b'.opcode = b.opcode := fun hb => by rw [hb.same]
  have hheads := @rootsWhere_paced _ _ h (·.opcode == "procedures_definition") fun hb => by rw [hop hb]
  have hhats := @rootsWhere_paced _ _ h (Palette.builtin.isHat ·.opcode) fun hb => by rw [hop hb]
  have hscripts := flatMap_paced hheads (f := fun e => [(e.1, .script)]) fun he _ => by rw [he]
  have hunits := flatMap_paced hhats (f := hatUnits) fun he hop => by simp only [hatUnits, he, hop]
  rw [← List.map_eq_flatMap, ← List.map_eq_flatMap] at hscripts
  unfold targetUnits scriptsOf
  rw [hscripts, hunits]

end

end Compiler

open Compiler in
/-- The programs of both maps are the same without pauses. -/
lemma Engine.unpaused_of_mem {blocks blocks' : BlockMap} (h : blocks.Paced blocks')
    {target target' : TargetId} {s s' : Script}
    (hs : s ∈ (Engine.compileTarget .builtin target blocks).1)
    (hs' : s' ∈ (Engine.compileTarget .builtin target' blocks').1) :
    s.program.unpaused = s'.program.unpaused := by
  have hnew : Paced .new .new := ⟨rfl, rfl, rfl, fun _ => rfl⟩
  have htables := (hnew.compileAll h (targetUnits blocks)).tables
  rw [← targetUnits_paced h, ← Engine.tables_of_mem hs', targetUnits_paced h,
    ← Engine.tables_of_mem hs] at htables
  simp only [Program.unpaused, htables]

end Blockwork
