import Blockwork.Proofs.Compile.Plans

/-!
Two compilers side by side. They follow the same blocks, in two maps that may differ in the signatures
of custom blocks; what they emit is decided by the blocks alone, but for the places in the tables, the
mode, and what is known of custom blocks. So a relation between the states of two compilers that every
single thing they emit keeps is kept by whole units.

The blocks that a unit may come to are described by a predicate, so that a relation may rest on what
these blocks are and not on the whole map.
-/

namespace Blockwork

/-- Blocks that are the same, but for the signature if they carry one. -/
structure Block.Alike (b b' : Block) : Prop where
  same : b' = { b with mutation := b'.mutation }
  mutation : b.opcode ≠ Compiler.prototypeOpcode → b'.mutation = b.mutation

lemma Block.Alike.refl (b : Block) : b.Alike b := ⟨rfl, fun _ => rfl⟩

/-- Dictionaries with the same keys in the same order give related values. -/
lemma Dictionary.get?_related {α : Type} {R : α → α → Prop} {d d' : Dictionary α}
    (h : List.Forall₂ (fun e e' => e.1 = e'.1 ∧ R e.2 e'.2) d.entries d'.entries) (key : String) :
    d.get? key = none ∧ d'.get? key = none ∨
      ∃ a a', d.get? key = some a ∧ d'.get? key = some a' ∧ R a a' := by
  unfold Dictionary.get?
  generalize d.entries = es at h
  generalize d'.entries = es' at h
  induction h with
  | nil => exact .inl ⟨rfl, rfl⟩
  | @cons e e' _ _ he _ ih =>
    obtain ⟨k, a⟩ := e
    obtain ⟨k', a'⟩ := e'
    obtain ⟨rfl, hrelated⟩ := he
    simp only [Dictionary.lookup_cons_ite]
    split
    · exact .inr ⟨a, a', rfl, rfl, hrelated⟩
    · exact ih

namespace BlockMap

/-- Maps that differ in the signatures of custom blocks at most. -/
def Alike (blocks blocks' : BlockMap) : Prop :=
  List.Forall₂ (fun e e' => e.1 = e'.1 ∧ e.2.Alike e'.2) blocks.entries blocks'.entries

variable {blocks blocks' : BlockMap}

lemma Alike.refl (blocks : BlockMap) : blocks.Alike blocks :=
  List.forall₂_same.2 fun e _ => ⟨rfl, .refl e.2⟩

lemma Alike.get? (h : blocks.Alike blocks') (id : String) :
    blocks.get? id = none ∧ blocks'.get? id = none ∨
      ∃ b b', blocks.get? id = some b ∧ blocks'.get? id = some b' ∧ b.Alike b' :=
  Dictionary.get?_related h id

lemma Alike.size (h : blocks.Alike blocks') : blocks'.size = blocks.size := (List.Forall₂.length_eq h).symm

end BlockMap

section

variable {blocks blocks' : BlockMap} {b b' : Block}

lemma Plug.source?_alike (h : blocks.Alike blocks') (p : Plug) :
    p.source? blocks' = p.source? blocks := by
  cases p with
  | block id =>
    simp only [source?]
    rcases h.get? id with ⟨h1, h2⟩ | ⟨x, x', h1, h2, hx⟩
    · rw [h1, h2]
    · have hmenu : x'.menu? = x.menu? := by rw [hx.same]; rfl
      rw [h1, h2, Option.map_some, Option.map_some, hmenu]
  | _ => rfl

/-- Inputs stand for the same in both maps. -/
lemma Block.Alike.source (hb : b.Alike b') (h : blocks.Alike blocks') (name : String) :
    b'.source blocks' name = b.source blocks name := by
  have hplug : Plug.source? blocks' = Plug.source? blocks := funext fun p => Plug.source?_alike h p
  unfold Block.source
  rw [hplug, hb.same]
  rfl

lemma Block.Alike.pluggedBlock? (hb : b.Alike b') (h : blocks.Alike blocks') (name : String) :
    Compiler.pluggedBlock? blocks b name = none ∧ Compiler.pluggedBlock? blocks' b' name = none ∨
      ∃ x x', Compiler.pluggedBlock? blocks b name = some x ∧
        Compiler.pluggedBlock? blocks' b' name = some x' ∧ x.Alike x' := by
  have hsame : b'.plugged? name = b.plugged? name := by rw [hb.same]; rfl
  unfold Compiler.pluggedBlock?
  rw [hsame]
  cases b.plugged? name with
  | none => exact .inl ⟨rfl, rfl⟩
  | some id => exact h.get? id

lemma Block.Alike.bodyId? (hb : b.Alike b') (h : blocks.Alike blocks') (name : String) :
    Compiler.bodyId? blocks' b' name = Compiler.bodyId? blocks b name := by
  unfold Compiler.bodyId?
  rcases hb.pluggedBlock? h name with ⟨h1, h2⟩ | ⟨x, x', h1, h2, hx⟩
  · rw [h1, h2]
  · rw [h1, h2, Option.map_some, Option.map_some, hx.same]

lemma Block.Alike.isBoolean (hb : b.Alike b') (h : blocks.Alike blocks') (palette : Palette)
    (name : String) :
    ((Compiler.pluggedBlock? blocks' b' name).any fun p => palette.isBoolean p.opcode) =
      (Compiler.pluggedBlock? blocks b name).any fun p => palette.isBoolean p.opcode := by
  rcases hb.pluggedBlock? h name with ⟨h1, h2⟩ | ⟨x, x', h1, h2, hx⟩
  · rw [h1, h2]
  · rw [h1, h2, Option.any_some, Option.any_some, hx.same]

end

namespace BlockMap

/-- A set of blocks that one does not leave by following references. -/
structure Closed (blocks : BlockMap) (P : String → Prop) : Prop where
  value : ∀ {a id b name}, P a → blocks.get? a = some b → b.source blocks name = .block id → P id
  body : ∀ {a id b name}, P a → blocks.get? a = some b →
    Compiler.bodyId? blocks b name = some id → P id
  next : ∀ {a id b}, P a → blocks.get? a = some b → b.next = some id → P id

lemma closed_all (blocks : BlockMap) : blocks.Closed fun _ => True :=
  ⟨fun _ _ _ => trivial, fun _ _ _ => trivial, fun _ _ _ => trivial⟩

/-- Some block of a set calls a native in one of its steps. -/
def CallsIn (blocks : BlockMap) (P : String → Prop) (n : Native) : Prop :=
  ∃ id b ss, P id ∧ blocks.get? id = some b ∧ b.HasPlan ss ∧ .call n ∈ ss

/-- An instruction of its own that a block of a set may emit, without an operand. A checkpoint comes
from the steps of a block. -/
structure MayEmit (blocks : BlockMap) (P : String → Prop) (op : Opcode) : Prop where
  alone : op.operandCount = 0
  mark : op = .checkpoint → ∃ id b ss, P id ∧ blocks.get? id = some b ∧ b.HasPlan ss ∧ .emit op ∈ ss

/-- The instructions that do not come from the steps of a block. -/
lemma mayEmit_common {blocks : BlockMap} {P : String → Prop} {op : Opcode}
    (h : op ∈ [.null, .unary .not, .addArg, .initProcedure]) : blocks.MayEmit P op := by
  simp only [List.mem_cons, List.not_mem_nil, or_false] at h
  rcases h with rfl | rfl | rfl | rfl <;> exact ⟨rfl, by simp⟩

end BlockMap

namespace Compiler

open BlockMap (mayEmit_common)

/-- Calls a custom block by its code. -/
def callCode (c : Compiler) (code : String) : Compiler :=
  let (i, c) := c.internProcedure code
  c.emitAt .callProcedure i

/-- What the compilers emit keeps the relation. -/
structure Couples (blocks blocks' : BlockMap) (P : String → Prop)
    (R : Compiler → Compiler → Prop) : Prop where
  emit : ∀ {c c' op}, R c c' → blocks.MayEmit P op → R (c.emit op) (c'.emit op)
  const : ∀ {c c'} v, R c c' → R (c.const v) (c'.const v)
  callNative : ∀ {c c' n}, R c c' → blocks.CallsIn P n → R (c.callNative n) (c'.callNative n)
  internVariable : ∀ {c c'} r, R c c' → R (c.internVariable r).2 (c'.internVariable r).2
  internList : ∀ {c c'} r, R c c' → R (c.internList r).2 (c'.internList r).2
  variableOp : ∀ {c c'} op r, R c c' → R (c.variableOp op r) (c'.variableOp op r)
  listOp : ∀ {c c'} op r, R c c' → R (c.listOp op r) (c'.listOp op r)
  unsupported : ∀ {c c'} id, R c c' →
    R (c.markUnsupported .builtin blocks id) (c'.markUnsupported .builtin blocks' id)
  /-- The pause at the end of a round is emitted by each in its own mode. -/
  pause : ∀ {c c'}, R c c' →
    R (if c.warp then c else c.emit .breakFrame) (if c'.warp then c' else c'.emit .breakFrame)
  head : ∀ {c c' a b b'}, R c c' → P a → blocks.get? a = some b → blocks'.get? a = some b' →
    b.opcode = "procedures_definition" → R (c.head blocks b) (c'.head blocks' b')
  definition : ∀ {c c'} code, R c c' →
    R (c.definition blocks code).2 (c'.definition blocks' code).2
  defaults : ∀ {c c'} code s i, R c c' →
    ((c'.definition blocks' code).1.getD s).defaultArgument i =
      ((c.definition blocks code).1.getD s).defaultArgument i
  internProcedure : ∀ {c c'} code, R c c' → R (c.internProcedure code).2 (c'.internProcedure code).2
  callCode : ∀ {c c'} code, R c c' → R (c.callCode code) (c'.callCode code)
  argumentIndex : ∀ {c c'} name, R c c' →
    c'.signature.bind (·.argumentIndex? name) = c.signature.bind (·.argumentIndex? name)
  readArg : ∀ {c c'} i, R c c' → R (c.emitAt .readArg i) (c'.emitAt .readArg i)

/-- Two descents that keep the relation. -/
structure Abreast (P : String → Prop) (R : Compiler → Compiler → Prop) (d d' : Descent) : Prop where
  value : ∀ {id c c'}, P id → R c c' → R (d.value id c) (d'.value id c')
  stack : ∀ {first : Option String} {c c'}, (∀ id ∈ first, P id) → R c c' →
    R (d.stack first c) (d'.stack first c')

section

variable {blocks blocks' : BlockMap} {P : String → Prop} {R : Compiler → Compiler → Prop}

lemma internProcedure_found {c e : Compiler} {code : String}
    (h : (c.internProcedure code).2.tables.procedureCodes <+: e.tables.procedureCodes) :
    e.internProcedure code = ((c.internProcedure code).1, e) := by
  have hfound : e.tables.procedureCodes.findIdx? (· == code) = some (c.internProcedure code).1 := by
    obtain ⟨more, hmore⟩ := h
    rw [← hmore, List.findIdx?_append]
    unfold internProcedure
    cases hi : c.tables.procedureCodes.findIdx? (· == code) with
    | some i => simp [hi]
    | none => simp [List.findIdx?_append, hi]
  unfold internProcedure
  rw [hfound]
  rfl

/-- The place of a custom block is the same when the call is emitted as it was before the arguments. -/
lemma emitAt_eq_callCode {c e : Compiler} {code : String}
    (h : (c.internProcedure code).2.tables.Grows e.tables) :
    e.emitAt .callProcedure (c.internProcedure code).1 = e.callCode code := by
  unfold callCode
  rw [internProcedure_found h.codes]

/-- Steps emit no operands by themselves. -/
lemma emit_of_plan {b : Block} {ss : List Recipe.Step} (h : b.HasPlan ss) {op : Opcode}
    (hop : .emit op ∈ ss) : op.operandCount = 0 := by
  have key : ∀ r ∈ Palette.builtin.recipes, ∀ ss ∈ r.plans, ∀ s ∈ ss,
      (match s with
        | .emit op => op.operandCount == 0
        | _ => true) = true := by
    decide
  obtain ⟨r, hr, hss, -⟩ := h.mem
  simpa using key r hr ss hss _ hop

variable (hR : Couples blocks blocks' P R) (hblocks : blocks.Alike blocks') {d d' : Descent}
  (hd : Abreast P R d d') (hP : blocks.Closed P) {a : String} {b b' : Block} {c c' : Compiler}

include hR hblocks hd hP in
lemma Couples.input (ha : P a) (hb : blocks.get? a = some b) (hbb : b.Alike b') (h : R c c')
    (name : String) : R (c.input d blocks b name) (c'.input d' blocks' b' name) := by
  rw [input_eq, input_eq, hbb.source hblocks]
  cases hs : b.source blocks name with
  | block id => exact hd.value (hP.value ha hb hs) h
  | value v => exact hR.const v h
  | var r => exact hR.variableOp .read r h
  | list r => exact hR.listOp .read r h
  | nothing => exact hR.emit h (mayEmit_common (by simp))

include hd hP in
lemma Abreast.body (hblocks : blocks.Alike blocks') (ha : P a) (hb : blocks.get? a = some b)
    (hbb : b.Alike b') (h : R c c') (name : String) :
    R (c.body d blocks b name) (c'.body d' blocks' b' name) := by
  change R (d.stack (bodyId? blocks b name) c) (d'.stack (bodyId? blocks' b' name) c')
  rw [hbb.bodyId? hblocks]
  exact hd.stack (fun id hid => hP.body ha hb hid) h

include hR hblocks hd hP in
lemma Couples.step {ss : List Recipe.Step} (ha : P a) (hb : blocks.get? a = some b)
    (hbb : b.Alike b') (hplan : b.HasPlan ss) {s : Recipe.Step} (hs : s ∈ ss) (h : R c c') :
    R (c.step .builtin d blocks b s) (c'.step .builtin d' blocks' b' s) := by
  have hfield : ∀ name, b'.field? name = b.field? name := fun name => by rw [hbb.same]; rfl
  cases s with
  | input name => exact hR.input hblocks hd hP ha hb hbb h name
  | condition name =>
    have hin := hR.input hblocks hd hP ha hb hbb h name
    simp only [Compiler.step, condition, hbb.isBoolean hblocks]
    split
    · exact hin
    · exact hR.emit (hR.emit hin (mayEmit_common (by simp))) (mayEmit_common (by simp))
  | body name => exact hd.body hP hblocks ha hb hbb h name
  | loopBody name => exact hR.pause (hd.body hP hblocks ha hb hbb h name)
  | emit op =>
    exact hR.emit h ⟨emit_of_plan hplan hs, fun _ => ⟨a, b, ss, ha, hb, hplan, hs⟩⟩
  | call n => exact hR.callNative h ⟨a, b, ss, ha, hb, hplan, hs⟩
  | const v => exact hR.const v h
  | field name =>
    have hvalue : b'.fieldValue name = b.fieldValue name := by rw [hbb.same]; rfl
    simp only [Compiler.step, hvalue]
    exact hR.const _ h
  | variableEntry =>
    simp only [Compiler.step, hfield]
    split
    · exact hR.internVariable _ h
    · exact h
  | listEntry =>
    simp only [Compiler.step, hfield]
    split
    · exact hR.internList _ h
    · exact h
  | var op =>
    simp only [Compiler.step, hfield]
    split
    · exact hR.variableOp op _ h
    · exact h
  | list op =>
    simp only [Compiler.step, hfield]
    split
    · exact hR.listOp op _ h
    · exact h

include hR hblocks hd hP in
lemma Couples.steps {plan ss : List Recipe.Step} (ha : P a) (hb : blocks.get? a = some b)
    (hbb : b.Alike b') (hplan : b.HasPlan plan) (hss : ss ⊆ plan) (h : R c c') :
    R (c.steps .builtin d blocks b ss) (c'.steps .builtin d' blocks' b' ss) := by
  induction ss generalizing c c' with
  | nil => exact h
  | cons s rest ih =>
    obtain ⟨hs, hrest⟩ := List.cons_subset.1 hss
    exact ih hrest (hR.step hblocks hd hP ha hb hbb hplan hs h)

include hR hblocks hd hP in
lemma Couples.arguments (ha : P a) (hb : blocks.get? a = some b) (hbb : b.Alike b')
    {s s' : Signature} (hs : ∀ i, s'.defaultArgument i = s.defaultArgument i)
    (args : List (String × Nat)) (h : R c c') :
    R (args.foldl (argument d blocks b s) c) (args.foldl (argument d' blocks' b' s') c') := by
  have hinput : ∀ name, b'.input? name = b.input? name := fun name => by rw [hbb.same]; rfl
  induction args generalizing c c' with
  | nil => exact h
  | cons arg rest ih =>
    refine ih ?_
    simp only [argument, hinput, hs]
    refine hR.emit ?_ (mayEmit_common (by simp))
    split
    · exact hR.input hblocks hd hP ha hb hbb h arg.1
    · exact hR.const _ h

include hR hblocks hd hP in
lemma Couples.call {t t' : Trace} (hs : Sound d t) (hs' : Sound d' t') (ha : P a)
    (hb : blocks.get? a = some b) (hbb : b.Alike b')
    (hmutation : b'.mutation = b.mutation) (h : R c c') :
    R (c.call d blocks b) (c'.call d' blocks' b') := by
  unfold Compiler.call
  rw [hmutation]
  cases b.mutation with
  | none => exact h
  | some m =>
    simp only
    generalize Signature.ofMutation m = s
    have hargs := hR.arguments hblocks hd hP ha hb hbb (fun i => hR.defaults s.code s i h)
      s.argumentIds.zipIdx (@Couples.emit _ _ _ _ hR _ _ .initProcedure
        (hR.internProcedure s.code (hR.definition s.code h)) (mayEmit_common (by simp)))
    -- the arguments leave the place of the custom block as it is
    have hgrows := ((@writes_emit ((c.definition blocks s.code).2.internProcedure s.code).2
      .initProcedure rfl rfl none).trans (writes_arguments blocks a b hs
        ((c.definition blocks s.code).1.getD s) _ s.argumentIds.zipIdx)).puts.grows
    have hgrows' := ((@writes_emit ((c'.definition blocks' s.code).2.internProcedure s.code).2
      .initProcedure rfl rfl none).trans (writes_arguments blocks' a b' hs'
        ((c'.definition blocks' s.code).1.getD s) _ s.argumentIds.zipIdx)).puts.grows
    rw [emitAt_eq_callCode hgrows, emitAt_eq_callCode hgrows']
    exact hR.callCode s.code hargs

include hR in
lemma Couples.readArgument (hbb : b.Alike b') (outside : Value) (h : R c c') :
    R (c.readArgument b outside) (c'.readArgument b' outside) := by
  have hvalue : b'.fieldValue "VALUE" = b.fieldValue "VALUE" := by rw [hbb.same]; rfl
  unfold Compiler.readArgument
  simp only [hvalue, hR.argumentIndex _ h]
  split
  · exact hR.readArg _ h
  · exact hR.const outside h

/-- The steps of a recipe are the same in both maps. -/
lemma Block.Alike.plan? (hbb : b.Alike b') (r : Recipe) : r.plan? .builtin b' = r.plan? .builtin b := by
  rw [hbb.same]
  rfl

include hR hblocks hd hP in
lemma Couples.recipe {t t' : Trace} (hs : Sound d t) (hs' : Sound d' t') (ha : P a)
    (hb : blocks.get? a = some b) (hb' : blocks'.get? a = some b') (hbb : b.Alike b') {r : Recipe}
    (hr : Palette.builtin.recipe? b.opcode = some r ∨ Palette.builtin.predicate? b.opcode = some r ∧
      ∀ b : Block, (r.plan? .builtin b).isSome = true) (h : R c c') :
    R (c.recipe .builtin d blocks b r) (c'.recipe .builtin d' blocks' b' r) := by
  have hhas : ∀ ss, r.plan? .builtin b = some ss → b.HasPlan ss := fun ss hss => ⟨r, hr.imp_right (·.1), hss⟩
  have hplan : ∀ ss, r.plan? .builtin b = some ss →
      R (c.steps .builtin d blocks b ss) (c'.steps .builtin d' blocks' b' ss) :=
    fun ss hss => hR.steps hblocks hd hP ha hb hbb (hhas ss hss) (List.Subset.refl _) h
  have hfield : ∀ name, b'.field? name = b.field? name := fun name => by rw [hbb.same]; rfl
  have hrecipe : r.plan? .builtin b = none → Palette.builtin.recipe? b.opcode = some r := by
    intro hnone
    refine hr.resolve_right fun ⟨_, hsome⟩ => ?_
    have := hsome b
    rw [hnone] at this
    cases this
  cases r with
  | steps ss => exact hplan ss rfl
  | needs field ss otherwise =>
    simp only [Compiler.recipe, hfield]
    exact hplan _ rfl
  | choose field options otherwise =>
    simp only [Compiler.recipe, hfield]
    exact hplan _ rfl
  | definition => exact hR.head h ha hb hb' (opcode_of_definition (hrecipe rfl))
  | call =>
    refine hR.call hblocks hd hP hs hs' ha hb hbb (hbb.mutation ?_) h
    rw [Palette.opcode_of_call (hrecipe rfl)]
    decide
  | argument outside => exact hR.readArgument hbb outside h

include hR hblocks hP in
lemma Couples.descend (fuel : Nat) :
    Abreast P R (descend .builtin blocks fuel) (descend .builtin blocks' fuel) := by
  induction fuel with
  | zero => exact ⟨fun _ h => h, fun _ h => h⟩
  | succ fuel ih =>
    have hs := sound_descend blocks fuel
    have hs' := sound_descend blocks' fuel
    constructor
    · intro id c c' hid h
      simp only [Compiler.descend, value]
      rcases hblocks.get? id with ⟨h1, h2⟩ | ⟨b, b', h1, h2, hbb⟩
      · rw [h1, h2]
        exact hR.emit h (mayEmit_common (by simp))
      · have hop : b'.opcode = b.opcode := by rw [hbb.same]
        simp only [h1, h2, hop]
        cases hr : Palette.builtin.recipe? b.opcode with
        | some r => exact hR.recipe hblocks ih hP hs hs' hid h1 h2 hbb (.inl hr) h
        | none => exact hR.emit (hR.unsupported id h) (mayEmit_common (by simp))
    · intro first c c' hfirst h
      simp only [Compiler.descend]
      cases first with
      | none => exact h
      | some id =>
        have hid := hfirst id rfl
        simp only
        rcases hblocks.get? id with ⟨h1, h2⟩ | ⟨b, b', h1, h2, hbb⟩
        · rw [h1, h2]
          exact h
        · have hop : b'.opcode = b.opcode := by rw [hbb.same]
          have hnext : b'.next = b.next := by rw [hbb.same]
          simp only [h1, h2, hnext]
          refine ih.stack (fun id' hid' => hP.next hid h1 hid') ?_
          simp only [command, hop]
          split
          · exact h
          · cases hr : Palette.builtin.recipe? b.opcode with
            | some r => exact hR.recipe hblocks ih hP hs hs' hid h1 h2 hbb (.inl hr) h
            | none => exact hR.unsupported id h

include hR hblocks hP in
/-- What every emission keeps is kept by a whole unit. -/
lemma Couples.root {id : String} (hid : P id) (mode : Mode) (h : R c c') :
    R (c.root .builtin blocks id mode) (c'.root .builtin blocks' id mode) := by
  have hdepth : depth blocks' = depth blocks := by rw [depth, depth, hblocks.size]
  have hd := hR.descend hblocks hP (depth blocks)
  unfold Compiler.root
  rw [hdepth]
  cases mode with
  | script => exact hd.stack (fun id' hid' => by cases hid'; exact hid) h
  | reporter => exact hd.value hid h
  | predicate =>
    simp only
    rcases hblocks.get? id with ⟨h1, h2⟩ | ⟨b, b', h1, h2, hbb⟩
    · rw [h1, h2]
      exact hR.emit h (mayEmit_common (by simp))
    · have hop : b'.opcode = b.opcode := by rw [hbb.same]
      simp only [h1, h2, hop]
      cases hr : Palette.builtin.predicate? b.opcode with
      | none => exact hR.emit h (mayEmit_common (by simp))
      | some r =>
        exact hR.recipe hblocks hd hP (sound_descend _ _) (sound_descend _ _) hid h1 h2 hbb
          (.inr ⟨hr, Palette.plan_of_predicate hr⟩) h

end

end Compiler

end Blockwork
