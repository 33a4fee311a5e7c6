import Blockwork.Proofs.Compile.Depth
import Blockwork.Proofs.Compile.Shape

/-!
Emitted code is well formed. Whatever blocks are followed and however often the compiler is used,
each script is written as a listing in good shape between `start` and `halt`, and its operands stay
valid as the tables grow.
-/

namespace Blockwork

namespace Compiler

/-- What a descent does is what its trace lists, in good shape. -/
structure Sound (d : Descent) (t : Trace) : Prop where
  value : ∀ (id : String) (c : Compiler), c.Writes (t.value id c) (d.value id c)
  stack : ∀ (first : Option String) (c : Compiler), c.Writes (t.stack first c) (d.stack first c)

section

variable {d : Descent} {t : Trace} (palette : Palette) (blocks : BlockMap) (id : String)
  (b : Block)

lemma writes_input (h : Sound d t) (c : Compiler) (name : String) :
    c.Writes (inputLines d t blocks id b c name) (c.input d blocks b name) := by
  unfold inputLines
  rw [input_eq]
  cases b.source blocks name with
  | block id' => exact h.value id' c
  | value v => exact writes_const c v id
  | var r => exact writes_variableOp c .read r id
  | list r => exact writes_listOp c .read r id
  | nothing => exact writes_emit c rfl rfl id

lemma emits_not_not (c : Compiler) :
    c.Emits [⟨.unary .not, []⟩, ⟨.unary .not, []⟩] ((c.emit (.unary .not)).emit (.unary .not)) :=
  (emits_emit c _).trans (emits_emit _ _)

/-- The value of a condition is made a truth value unless it is one. -/
lemma condition_cases (d : Descent) (c : Compiler) (name : String) :
    c.condition palette d blocks b name = c.input d blocks b name ∨
    c.condition palette d blocks b name =
      ((c.input d blocks b name).emit (.unary .not)).emit (.unary .not) := by
  unfold condition
  split
  · exact Or.inl rfl
  · exact Or.inr rfl

lemma writes_condition (h : Sound d t) (c : Compiler) (name : String) :
    c.Writes (stepLines palette d t blocks id b c (.condition name))
      (c.condition palette d blocks b name) := by
  refine (writes_input blocks id b h c name).trans ?_
  rcases condition_cases palette blocks b d c name with he | he <;> rw [he]
  · exact writes_nothing (.refl _) id
  · have hn := emits_not_not (c.input d blocks b name)
    exact ⟨puts_added hn.code hn.grows (by simp [Instruction.Full, Opcode.operandCount])
      (by simp [Instruction.Valid]) (by simp) id,
      neat_added hn.code (by simp [Opcode.isBracket]) id⟩

lemma writes_plain_step (h : Sound d t) (c : Compiler) {s : Recipe.Step} (hs : s.isPlain = true) :
    c.Writes (stepLines palette d t blocks id b c s) (c.step palette d blocks b s) := by
  cases s with
  | input name => exact writes_input blocks id b h c name
  | condition name => exact writes_condition palette blocks id b h c name
  | body name => simp [Recipe.Step.isPlain] at hs
  | loopBody name => simp [Recipe.Step.isPlain] at hs
  | emit op =>
    simp only [Recipe.Step.isPlain, Bool.and_eq_true, Bool.not_eq_true', beq_iff_eq] at hs
    exact writes_emit c hs.2 hs.1 id
  | call n => exact writes_callNative c n id
  | const v => exact writes_const c v id
  | field name => exact writes_const c _ id
  | variableEntry =>
    simp only [stepLines, step]
    cases b.field? Recipe.variableField with
    | none => exact writes_nothing (.refl _) id
    | some f => exact writes_nothing (emits_internVariable c _) id
  | listEntry =>
    simp only [stepLines, step]
    cases b.field? Recipe.listField with
    | none => exact writes_nothing (.refl _) id
    | some f => exact writes_nothing (emits_internList c _) id
  | var op =>
    simp only [stepLines, step]
    cases b.field? Recipe.variableField with
    | none => exact writes_nothing (.refl _) id
    | some f => exact writes_variableOp c op _ id
  | list op =>
    simp only [stepLines, step]
    cases b.field? Recipe.listField with
    | none => exact writes_nothing (.refl _) id
    | some f => exact writes_listOp c op _ id

@[simp] lemma steps_nil (c : Compiler) : c.steps palette d blocks b [] = c := rfl

@[simp] lemma steps_cons (c : Compiler) (s : Recipe.Step) (ss : List Recipe.Step) :
    c.steps palette d blocks b (s :: ss) =
      (c.step palette d blocks b s).steps palette d blocks b ss := rfl

lemma steps_append (c : Compiler) (xs ys : List Recipe.Step) :
    c.steps palette d blocks b (xs ++ ys) =
      (c.steps palette d blocks b xs).steps palette d blocks b ys := by
  simp [steps, List.foldl_append]

lemma stepsLines_append (c : Compiler) (xs ys : List Recipe.Step) :
    stepsLines palette d t blocks id b c (xs ++ ys) =
      stepsLines palette d t blocks id b c xs ++
        stepsLines palette d t blocks id b (c.steps palette d blocks b xs) ys := by
  induction xs generalizing c with
  | nil => rfl
  | cons s ss ih => simp [stepsLines, ih]

lemma writes_plain (h : Sound d t) {ss : List Recipe.Step}
    (hs : ss.all Recipe.Step.isPlain = true) (c : Compiler) :
    c.Writes (stepsLines palette d t blocks id b c ss) (c.steps palette d blocks b ss) := by
  induction ss generalizing c with
  | nil => exact .refl c
  | cons s rest ih =>
    simp only [List.all_cons, Bool.and_eq_true] at hs
    exact (writes_plain_step palette blocks id b h c hs.1).trans (ih hs.2 _)

/-- The line of a bracket. -/
def bracket (id : Option String) (op : Opcode) (c : Compiler) : Line :=
  ⟨⟨op, []⟩, id, c.signature, c.warp⟩

lemma added_emit (id : Option String) (op : Opcode) (c : Compiler) :
    added id c (c.emit op) = [bracket id op c] :=
  added_of_code (emits_emit c op).code id

lemma puts_bracket (id : Option String) {op : Opcode} (hop : op.operandCount = 0) (c : Compiler) :
    c.Puts [bracket id op c] (c.emit op) := by
  rw [← added_emit]
  exact puts_emit c hop id

lemma writes_body (h : Sound d t) (c : Compiler) (name : String) :
    c.Writes (t.stack (bodyId? blocks b name) c) (c.body d blocks b name) :=
  h.stack _ c

lemma writes_loopBody (h : Sound d t) (c : Compiler) (name : String) :
    c.Writes (stepLines palette d t blocks id b c (.loopBody name))
      (c.step palette d blocks b (.loopBody name)) := by
  refine (writes_body blocks b h c name).trans ?_
  simp only [step]
  generalize c.body d blocks b name = c'
  cases c'.warp with
  | true => exact writes_nothing (.refl c') id
  | false => exact writes_emit c' rfl rfl id

/-- Right after the body of a loop, the loop may end. -/
lemma endsBody_loopBody (d : Descent) (t : Trace) (c : Compiler) (name : String) :
    EndsBody (stepLines palette d t blocks id b c (.loopBody name))
      (bracket id .loopEnd (c.step palette d blocks b (.loopBody name))) := by
  simp only [EndsBody, stepLines, step, bracket]
  generalize c.body d blocks b name = c'
  cases hw : c'.warp with
  | true => exact Or.inl (by simpa using hw)
  | false => exact Or.inr ⟨bracket id .breakFrame c', by simp [added_emit], rfl⟩

lemma EndsBody.append {ls : List Line} {y : Line} (h : EndsBody ls y) (xs : List Line) :
    EndsBody (xs ++ ls) y := by
  rcases h with h | ⟨k, hk, hop⟩
  · exact Or.inl h
  · exact Or.inr ⟨k, by rw [List.getLast?_append, hk]; rfl, hop⟩

lemma stepsLines_emit (d : Descent) (t : Trace) (c : Compiler) (op : Opcode)
    (ss : List Recipe.Step) :
    stepsLines palette d t blocks id b c (.emit op :: ss) =
      bracket id op c :: stepsLines palette d t blocks id b (c.emit op) ss := by
  change added id c (c.emit op) ++ _ = _
  rw [added_emit]
  rfl

/-- The last steps of a loop. -/
lemma stepsLines_loopEnd (d : Descent) (t : Trace) (c : Compiler) (name : String) :
    stepsLines palette d t blocks id b c [.loopBody name, .emit .loopEnd] =
      stepLines palette d t blocks id b c (.loopBody name) ++
        [bracket id .loopEnd (c.step palette d blocks b (.loopBody name))] := by
  rw [stepsLines, stepsLines_emit, stepsLines]

lemma writes_shaped (h : Sound d t) {ss : List Recipe.Step} (hs : Recipe.Shaped ss)
    (c : Compiler) :
    c.Writes (stepsLines palette d t blocks id b c ss) (c.steps palette d blocks b ss) := by
  cases hs with
  | plain hx => exact writes_plain palette blocks id b h hx c
  | @branch xs hx name =>
    rw [stepsLines_append, steps_append]
    refine (writes_plain palette blocks id b h hx c).trans ?_
    generalize c.steps palette d blocks b xs = c
    have hb := writes_body blocks b h (c.emit .branch) name
    rw [stepsLines_emit, stepsLines, stepsLines_emit]
    exact ⟨(puts_bracket id rfl c).trans (hb.puts.trans (puts_bracket id rfl _)),
      neat_branch rfl rfl hb.neat⟩
  | @choice xs hx name name' =>
    rw [stepsLines_append, steps_append]
    refine (writes_plain palette blocks id b h hx c).trans ?_
    generalize c.steps palette d blocks b xs = c
    have hb := writes_body blocks b h (c.emit .branch) name
    have hb' := writes_body blocks b h
      (((c.emit .branch).body d blocks b name).emit .otherwise) name'
    rw [stepsLines_emit, stepsLines, stepsLines_emit, stepsLines, stepsLines_emit]
    exact ⟨(puts_bracket id rfl c).trans (hb.puts.trans ((puts_bracket id rfl _).trans
      (hb'.puts.trans (puts_bracket id rfl _)))), neat_choice rfl rfl rfl hb.neat hb'.neat⟩
  | @loop xs ys op hop hx hy name =>
    rw [stepsLines_append, steps_append]
    refine (writes_plain palette blocks id b h hx c).trans ?_
    generalize c.steps palette d blocks b xs = c
    have hcount : op.operandCount = 0 := by rcases hop with rfl | rfl <;> rfl
    -- what stands between the brackets ends with the body
    have hb := (writes_plain palette blocks id b h hy (c.emit op)).trans
      (writes_loopBody palette blocks id b h _ name)
    rw [stepsLines_emit, stepsLines_append, stepsLines_loopEnd, ← List.append_assoc, steps_cons,
      steps_append]
    exact ⟨(puts_bracket id hcount c).trans (hb.puts.trans (puts_bracket id rfl _)),
      neat_loop hop rfl hb.neat ((endsBody_loopBody palette blocks id b d t _ name).append _)⟩
  | @tested xs hx name =>
    have hc := writes_plain palette blocks id b h hx (c.emit .untilLoop)
    have hb := writes_loopBody palette blocks id b h
      (((c.emit .untilLoop).steps palette d blocks b xs).emit .untilTest) name
    rw [stepsLines_emit, stepsLines_append, stepsLines_emit, stepsLines_loopEnd, steps_cons,
      steps_append]
    exact ⟨(puts_bracket id rfl c).trans (hc.puts.trans ((puts_bracket id rfl _).trans
      (hb.puts.trans (puts_bracket id rfl _)))),
      neat_tested rfl rfl rfl hc.neat hb.neat (endsBody_loopBody palette blocks id b d t _ name)⟩

/-! ### Custom blocks -/

lemma writes_argument (h : Sound d t) (defaults : Signature) (c : Compiler)
    (arg : String × Nat) :
    c.Writes (argumentLines d t blocks id b defaults c arg) (argument d blocks b defaults c arg) := by
  unfold argumentLines argument
  split
  · exact (writes_input blocks id b h c arg.1).trans (writes_emit _ rfl rfl id)
  · obtain ⟨i, hc, hi⟩ := emits_const c (defaults.defaultArgument arg.2)
    have ha := hc.trans (emits_emit _ .addArg)
    refine ⟨puts_added ha.code ha.grows (by simp [Instruction.Full, Opcode.operandCount])
      (fun _ => ?_) (by simp) id, neat_added ha.code (by simp [Opcode.isBracket]) id⟩
    intro j hj x hx
    simp only [List.cons_append, List.nil_append, List.mem_cons, List.not_mem_nil,
      or_false] at hj
    rcases hj with rfl | rfl
    · rw [List.mem_singleton.1 hx]
      exact toNat_ofNat_lt (lt_of_get? hi)
    · simp at hx

lemma writes_arguments (h : Sound d t) (defaults : Signature) (c : Compiler)
    (args : List (String × Nat)) :
    c.Writes (argumentsLines d t blocks id b defaults c args)
      (args.foldl (argument d blocks b defaults) c) := by
  induction args generalizing c with
  | nil => exact .refl c
  | cons arg rest ih => exact (writes_argument blocks id b h defaults c arg).trans (ih _)

/-- Looking up a definition only remembers it. -/
lemma writes_definition (c : Compiler) (code : String) : c.Writes [] (c.definition blocks code).2 := by
  unfold definition
  repeat' split
  all_goals exact ⟨⟨by simp, .refl _, by simp, by simp⟩, neat_nil⟩

lemma writes_callProcedure {c : Compiler} {i : Nat} {code : String}
    (hi : c.tables.procedureCodes[i]? = some code) :
    c.Writes (added id c (c.emitAt .callProcedure i)) (c.emitAt .callProcedure i) := by
  have he := emits_emitAt c .callProcedure i
  refine ⟨puts_operand he rfl (by simp) (fun ht x hx => ?_) id,
    neat_added he.code (by simp [Opcode.isBracket]) id⟩
  have hlt := toNat_ofNat_lt (lt_of_get? hi)
  rw [List.mem_singleton.1 hx]
  exact ⟨hlt, lt_of_lt_of_eq hlt ht.aligned.symm⟩

lemma writes_call (h : Sound d t) (c : Compiler) :
    c.Writes (callLines d t blocks id b c) (c.call d blocks b) := by
  unfold callLines call
  cases b.mutation with
  | none => exact .refl c
  | some m =>
    simp only
    generalize Signature.ofMutation m = s
    have hdef := writes_definition blocks c s.code
    generalize c.definition blocks s.code = found at hdef ⊢
    have hin := emits_internProcedure found.2 s.code
    have hi := get_internProcedure found.2 s.code
    generalize found.2.internProcedure s.code = interned at hin hi ⊢
    have hstart : interned.2.Writes (added id interned.2 (interned.2.emit .initProcedure))
        (interned.2.emit .initProcedure) := writes_emit interned.2 rfl rfl id
    have hargs := writes_arguments blocks id b h (found.1.getD s) (interned.2.emit .initProcedure)
      s.argumentIds.zipIdx
    have hcall := writes_callProcedure id (get?_mono hargs.puts.grows.codes hi)
    rw [List.append_assoc]
    exact hdef.trans ((writes_nil hin).trans (hstart.trans (hargs.trans hcall)))

/-- The head of a custom block emits at most the mark of warp mode. -/
lemma writes_head (c : Compiler) : c.Writes (added id c (c.head blocks b)) (c.head blocks b) := by
  unfold head
  cases (pluggedBlock? blocks b "custom_block").bind (·.mutation) with
  | none => exact writes_nothing (.refl c) id
  | some m =>
    simp only
    generalize Signature.ofMutation m = s
    have hin := emits_internProcedure c s.code
    have hcode : (c.define s).code = c.code ++ [] := hin.code
    have hgrows : c.tables.Grows (c.define s).tables := hin.grows
    cases s.warp with
    | false => exact ⟨puts_added hcode hgrows (by simp) (by simp) (by simp) id,
        neat_added hcode (by simp) id⟩
    | true =>
      have hwarp : ((c.define s).emit .warp).code = c.code ++ [⟨.warp, []⟩] := by
        simp [emit, hcode]
      exact ⟨puts_added hwarp hgrows (by simp [Instruction.Full, Opcode.operandCount])
        (by simp [Instruction.Valid]) (by simp) id,
        neat_added hwarp (by simp [Opcode.isBracket]) id⟩

lemma writes_readArgument (outside : Value) (c : Compiler) :
    c.Writes (added id c (c.readArgument b outside)) (c.readArgument b outside) := by
  unfold readArgument
  simp only
  split
  · next i hi =>
    obtain ⟨s, hs, hi⟩ := Option.bind_eq_some_iff.1 hi
    have hlt : i < s.argumentNames.length := (List.findIdx?_eq_some_iff_getElem.1 hi).1
    have he := emits_emitAt c .readArg i
    refine ⟨⟨?_, he.grows, ?_, ?_⟩, neat_added he.code (by simp [Opcode.isBracket]) id⟩ <;>
      rw [added_of_code he.code]
    · simp [emitAt]
    · simp [Instruction.Full, Opcode.operandCount]
    · rintro - l hl
      rw [List.map_singleton, List.mem_singleton] at hl
      subst hl
      refine ⟨fun x _ => trivial, fun _ => ⟨s, hs, fun x hx => ?_⟩⟩
      rw [List.mem_singleton.1 hx]
      exact toNat_ofNat_lt hlt
  · exact writes_const c outside id

lemma writes_recipe (h : Sound d t) {r : Recipe}
    (hr : ∀ ss ∈ r.plans, Recipe.Shaped ss) (c : Compiler) :
    c.Writes (recipeLines palette d t blocks id b c r) (c.recipe palette d blocks b r) := by
  have hplan : ∀ ss, r.plan? palette b = some ss →
      c.Writes (stepsLines palette d t blocks id b c ss) (c.steps palette d blocks b ss) :=
    fun ss hss => writes_shaped palette blocks id b h (hr ss (Recipe.mem_plans hss)) c
  cases r with
  | steps ss => exact hplan ss rfl
  | needs field ss otherwise => exact hplan _ rfl
  | choose field options otherwise => exact hplan _ rfl
  | definition => exact writes_head blocks id b c
  | call => exact writes_call blocks id b h c
  | argument outside => exact writes_readArgument id b outside c

end

/-! ### Following blocks -/

lemma sound_descend (blocks : BlockMap) (fuel : Nat) :
    Sound (descend .builtin blocks fuel) (trace .builtin blocks fuel) := by
  induction fuel with
  | zero => exact ⟨fun _ c => .refl c, fun _ c => .refl c⟩
  | succ fuel ih =>
    have hr : ∀ {opcode : String} {r : Recipe}, Palette.builtin.recipe? opcode = some r →
        ∀ ss ∈ r.plans, Recipe.Shaped ss :=
      fun h ss hss => Palette.shaped_builtin (Palette.mem_recipes_of_recipe? h) hss
    constructor
    · intro id c
      simp only [descend, trace, value, valueLines]
      cases blocks.get? id with
      | none => exact writes_emit c rfl rfl id
      | some b =>
        simp only
        cases hop : Palette.builtin.recipe? b.opcode with
        | some r => exact writes_recipe .builtin blocks id b ih (hr hop) c
        | none =>
          have he := (emits_markUnsupported c .builtin blocks id).trans (emits_emit _ .null)
          exact ⟨puts_added he.code he.grows (by simp [Instruction.Full, Opcode.operandCount])
            (by simp [Instruction.Valid]) (by simp) id,
            neat_added he.code (by simp [Opcode.isBracket]) id⟩
    · intro first c
      simp only [descend, trace]
      cases first with
      | none => exact .refl c
      | some id =>
        simp only
        cases blocks.get? id with
        | none => exact .refl c
        | some b =>
          simp only
          refine Writes.trans ?_ (ih.stack b.next _)
          simp only [command, commandLines]
          split
          · exact .refl c
          · cases hop : Palette.builtin.recipe? b.opcode with
            | some r => exact writes_recipe .builtin blocks id b ih (hr hop) c
            | none => exact writes_nil (emits_markUnsupported c .builtin blocks id)

lemma writes_root (blocks : BlockMap) (id : String) (mode : Mode) (c : Compiler) :
    c.Writes (rootLines .builtin blocks id mode c) (c.root .builtin blocks id mode) := by
  have hs := sound_descend blocks (depth blocks)
  cases mode with
  | script => exact hs.stack (some id) c
  | reporter => exact hs.value id c
  | predicate =>
    simp only [root, rootLines]
    cases blocks.get? id with
    | none => exact writes_emit c rfl rfl id
    | some b =>
      simp only
      cases hop : Palette.builtin.predicate? b.opcode with
      | none => exact writes_emit c rfl rfl id
      | some r =>
        exact writes_recipe .builtin blocks id b hs (fun ss hss =>
          Palette.shaped_builtin (Palette.mem_recipes_of_predicate? hop) hss) c

/-- A script is written between `start` and `halt`. -/
lemma writes_listing (c : Compiler) (blocks : BlockMap) (id : String) (mode : Mode) :
    c.fresh.Writes (c.listing .builtin blocks id mode)
      (((c.fresh.emit .start).root .builtin blocks id mode).emit .halt) :=
  ((writes_emit c.fresh rfl rfl none).trans (writes_root blocks id mode _)).trans
    (writes_emit _ rfl rfl none)

/-! ### Scripts in turn -/

lemma grows_install (c : Compiler) (s : Signature) (body : Code) :
    c.tables.Grows (c.install s body).tables := by
  have hin := (emits_internProcedure c s.code).grows
  unfold install
  generalize c.internProcedure s.code = interned at hin ⊢
  obtain ⟨i, c'⟩ := interned
  simp only at hin ⊢
  split
  · next hnone =>
    refine hin.trans { Tables.Grows.refl c'.tables with
      places := by simp
      bodies := fun j code hj => ?_
      tidy := fun h => ⟨by simp [h.aligned], h.codes, h.natives⟩ }
    rw [List.getElem?_set_ne, hj]
    rintro rfl
    rw [hnone] at hj
    cases hj
  · exact hin

/-- The last thing is to give a custom block its body. -/
lemma grows_end (c : Compiler) (blocks : BlockMap) (id : String) (mode : Mode) :
    (((c.fresh.emit .start).root .builtin blocks id mode).emit .halt).tables.Grows
      (c.compile .builtin blocks id mode).2.tables := by
  simp only [compile]
  split
  · exact grows_install _ _ _
  · exact .refl _

lemma grows_compile (c : Compiler) (blocks : BlockMap) (id : String) (mode : Mode) :
    c.tables.Grows (c.compile .builtin blocks id mode).2.tables :=
  (writes_listing c blocks id mode).puts.grows.trans (grows_end c blocks id mode)

/-- The code of a script is its listing. -/
lemma compile_eq_listing (c : Compiler) (blocks : BlockMap) (id : String) (mode : Mode) :
    (c.compile .builtin blocks id mode).1 =
      Code.ofInstructions ((c.listing .builtin blocks id mode).map (·.instruction)) := by
  have h := (writes_listing c blocks id mode).puts.code
  rw [show c.fresh.code = [] from rfl, List.nil_append] at h
  rw [← h]
  rfl

lemma allFull_listing (c : Compiler) (blocks : BlockMap) (id : String) (mode : Mode) :
    Code.AllFull ((c.listing .builtin blocks id mode).map (·.instruction)) := by
  intro i hi
  obtain ⟨l, hl, rfl⟩ := List.mem_map.1 hi
  exact (writes_listing c blocks id mode).puts.full l hl

/-- The code of a script is read back as its listing. -/
lemma instructions_compile (c : Compiler) (blocks : BlockMap) (id : String) (mode : Mode) :
    (c.compile .builtin blocks id mode).1.instructions =
      (c.listing .builtin blocks id mode).map (·.instruction) := by
  rw [compile_eq_listing]
  exact Code.instructions_ofInstructions (allFull_listing c blocks id mode)

/-- Compiles some scripts, one after the other. -/
def compileAll (c : Compiler) (palette : Palette) (blocks : BlockMap)
    (units : List (String × Mode)) : Compiler :=
  units.foldl (fun c u => (c.compile palette blocks u.1 u.2).2) c

lemma grows_compileAll (c : Compiler) (blocks : BlockMap) (units : List (String × Mode)) :
    c.tables.Grows (c.compileAll .builtin blocks units).tables := by
  induction units generalizing c with
  | nil => exact .refl _
  | cons u rest ih => exact (grows_compile c blocks u.1 u.2).trans (ih _)

lemma tidy_compileAll (blocks : BlockMap) (units : List (String × Mode)) :
    (Compiler.new.compileAll .builtin blocks units).tables.Tidy :=
  (grows_compileAll .new blocks units).tidy Tables.tidy_empty

/-- Code that was written as a listing, with all that can be said of it before it runs. -/
structure WellFormed (code : Code) (lines : List Line) (t : Tables) : Prop where
  /-- The words are those of the instructions that are read from them. -/
  words : code.words.toList = Code.encode code.instructions
  full : ∀ i ∈ code.instructions, i.Full
  starts : code.instructions.head? = some ⟨.start, []⟩
  ends : code.instructions.getLast? = some ⟨.halt, []⟩
  nested : Code.Nested (code.instructions.map (·.opcode))
  valid : ∀ i ∈ code.instructions, i.Valid t
  /-- The instructions are those of the listing. -/
  listed : code.instructions = lines.map (·.instruction)
  paused : Paused lines
  arguments : ∀ l ∈ lines, l.opcode = .readArg → ∃ s, l.signature = some s ∧
    ∀ x ∈ l.instruction.operands, x.toNat < s.argumentNames.length

/-- What is compiled for a root, whatever was compiled before and will be later. -/
lemma wellFormed_compile (blocks : BlockMap) (before later : List (String × Mode)) (id : String)
    (mode : Mode) :
    let c := Compiler.new.compileAll .builtin blocks before
    let unit := c.compile .builtin blocks id mode
    WellFormed unit.1 (c.listing .builtin blocks id mode)
      (unit.2.compileAll .builtin blocks later).tables := by
  intro c unit
  have hw := writes_listing c blocks id mode
  have hread := instructions_compile c blocks id mode
  have hgrows := (grows_end c blocks id mode).trans (grows_compileAll unit.2 blocks later)
  have hvalid : ∀ l ∈ c.listing .builtin blocks id mode,
      l.Valid (unit.2.compileAll .builtin blocks later).tables := by
    intro l hl
    have h := hw.puts.valid (tidy_compileAll blocks before) l hl
    exact ⟨h.operand.mono hgrows, h.argument⟩
  have hmem : ∀ i ∈ unit.1.instructions, ∃ l ∈ c.listing .builtin blocks id mode,
      l.instruction = i := by
    intro i hi
    rw [hread] at hi
    exact List.mem_map.1 hi
  refine
    { words := ?_
      full := fun i hi => ?_
      starts := ?_
      ends := ?_
      nested := ?_
      valid := fun i hi => ?_
      listed := hread
      paused := hw.neat.paused
      arguments := fun l hl => (hvalid l hl).argument }
  · rw [hread, compile_eq_listing]
    simp
  · obtain ⟨l, hl, rfl⟩ := hmem i hi
    exact hw.puts.full l hl
  · rw [hread, listing, added_emit]
    rfl
  · rw [hread, listing, added_emit, added_emit, List.map_append, List.getLast?_append]
    rfl
  · rw [hread, List.map_map]
    exact hw.neat.nested
  · obtain ⟨l, hl, rfl⟩ := hmem i hi
    exact (hvalid l hl).operand

/-- **Well-formed code**: in a map without cycles, however the compiler was used before and is used later
on, what it emits for a root reads back completely, is framed and nested, pauses in every loop outside of
warp mode, and has operands that are valid when it is emitted and ever after. Where blocks stand under
their own ids, this is the code of all that the root leads to: to follow blocks further changes nothing. -/
theorem compile_wellFormed {blocks : BlockMap} (hac : blocks.Acyclic)
    (before later : List (String × Mode)) (id : String) (mode : Mode) :
    let c := Compiler.new.compileAll .builtin blocks before
    let unit := c.compile .builtin blocks id mode
    WellFormed unit.1 (c.listing .builtin blocks id mode)
        (unit.2.compileAll .builtin blocks later).tables ∧
      (blocks.Keyed → ∀ fuel ≥ depth blocks, ∀ c : Compiler,
        c.rootWithin .builtin blocks fuel id mode = c.root .builtin blocks id mode) :=
  ⟨wellFormed_compile blocks before later id mode,
    fun hkey _ hfuel => rootWithin_eq_root hkey hac .builtin hfuel id mode⟩

/-- The custom block whose body a unit is: the one that is in force at its end. -/
def prototype? (c : Compiler) (palette : Palette) (blocks : BlockMap) (id : String)
    (mode : Mode) : Option Signature :=
  ((c.fresh.emit .start).root palette blocks id mode).signature

/-- The head of a custom block with two arguments, which the next block reads, and below them the
head of another one without arguments. -/
def twoHeads : BlockMap := .ofList [
  ("arg", { id := "arg", opcode := "argument_reporter_string_number"
            fields := .ofList [("VALUE", { value := .text "y" })] }),
  ("first", { id := "first", opcode := "procedures_definition", next := some "say"
              inputs := .ofList [("custom_block", { value := some (.block "two") })] }),
  ("none", { id := "none", opcode := "procedures_prototype"
             mutation := some { code := some "none" } }),
  ("say", { id := "say", opcode := "looks_say", next := some "second"
            inputs := .ofList [("MESSAGE", { value := some (.block "arg") })] }),
  ("second", { id := "second", opcode := "procedures_definition"
               inputs := .ofList [("custom_block", { value := some (.block "none") })] }),
  ("two", { id := "two", opcode := "procedures_prototype"
            mutation := some { code := some "two %s %s"
                               argumentIds := some "[\"a\",\"b\"]"
                               argumentNames := some "[\"x\",\"y\"]" } })]

lemma acyclic_twoHeads : twoHeads.Acyclic :=
  BlockMap.acyclic_of_falling ["arg", "none", "two", "second", "say", "first"].idxOf
    (by decide +kernel)

/-- The code of the stack with both heads, after its lower part was compiled alone and before it is
compiled again. -/
theorem compile_wellFormed_twoHeads :
    let c := Compiler.new.compileAll .builtin twoHeads [("say", .script)]
    let unit := c.compile .builtin twoHeads "first" .script
    twoHeads.Acyclic ∧ twoHeads.Keyed ∧
      WellFormed unit.1 (c.listing .builtin twoHeads "first" .script)
        (unit.2.compileAll .builtin twoHeads [("say", .script)]).tables ∧
      ∀ fuel ≥ depth twoHeads, ∀ c : Compiler,
        c.rootWithin .builtin twoHeads fuel "first" .script = c.root .builtin twoHeads "first" .script := by
  intro c unit
  have hkey : twoHeads.Keyed := by decide +kernel
  obtain ⟨hformed, hwhole⟩ :=
    compile_wellFormed acyclic_twoHeads [("say", .script)] [("say", .script)] "first" .script
  exact ⟨acyclic_twoHeads, hkey, hformed, hwhole hkey⟩

/-- The custom block in force need not be the one whose body the unit is: a unit with two heads
reads an argument of the first, while it becomes the body of the second, which has none. -/
theorem readArg_beyond_prototype :
    twoHeads.Acyclic ∧
      ⟨.readArg, [1]⟩ ∈ (Compiler.new.compile .builtin twoHeads "first" .script).1.instructions ∧
      (Compiler.new.prototype? .builtin twoHeads "first" .script).map
        (·.argumentNames.length) = some 0 :=
  ⟨acyclic_twoHeads, by decide +kernel⟩

end Compiler

end Blockwork
