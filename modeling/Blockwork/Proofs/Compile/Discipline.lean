import Blockwork.Proofs.Compile.Operands

/-!
The operand discipline of whole units. Following the blocks of a map without cycles, each value
leaves one operand and each stack none; so every line of a unit finds its operands, and where the
map is well-kinded nothing lies on the operand stack when a command begins. The way down into the
values is the same for every property of their code, so it is followed once.
-/

namespace Blockwork

namespace Compiler

section

variable {strict : Bool} {t : Tables} {blocks : BlockMap} {fuel : Nat} {id : String} {b : Block}

/-! ### Custom blocks -/

lemma evaluates_readArgument (outside : Value) (c : Compiler) :
    Evaluates t blocks c (added id c (c.readArgument b outside)) (c.readArgument b outside) := by
  unfold readArgument
  simp only
  split
  · exact evaluates_one (emits_emitAt c .readArg _) rfl rfl (by simp) rfl (by simp) id
  · exact evaluates_const c outside id

/-- The operand of an argument is taken by the call that is being prepared. -/
lemma Evaluates.gathered {c c' : Compiler} {ls : List Line} (h : Evaluates t blocks c ls c')
    (before : List Line) :
    Throughout (Proper strict t blocks) before (ls ++ added id c' (c'.emit .addArg)) ∧
      Code.shape t (codeOf (before ++ (ls ++ added id c' (c'.emit .addArg)))) =
        Code.shape t (codeOf before) := by
  obtain ⟨a, ha⟩ := h.shape before
  rw [added_emit]
  constructor
  · refine (h.strictly before).append (throughout_one (proper_plain ?_ rfl rfl))
    rw [ha]
    exact Nat.succ_le_succ (Nat.zero_le _)
  · rw [← List.append_assoc, codeOf, List.map_append, List.map_singleton,
      Code.shape_snoc_plain _ rfl, ha]
    rfl

lemma proper_argument (strict : Bool) (id : String) (defaults : Signature) {arg : String × Nat}
    (hin : GoodInput blocks fuel id b t arg.1) (c : Compiler)
    (hg : (argument (descend .builtin blocks fuel) blocks b defaults c arg).tables.Grows t)
    (before : List Line) :
    let ls := argumentLines (descend .builtin blocks fuel) (trace .builtin blocks fuel) blocks id b
      defaults c arg
    Throughout (Proper strict t blocks) before ls ∧
      Code.shape t (codeOf (before ++ ls)) = Code.shape t (codeOf before) := by
  simp only [argumentLines, argument] at hg ⊢
  split
  · next hsome =>
    simp only [hsome, if_true] at hg ⊢
    exact (hin c hg).gathered before
  · have hadd : added id c ((c.const (defaults.defaultArgument arg.2)).emit .addArg) =
        added id c (c.const (defaults.defaultArgument arg.2)) ++
          added id (c.const (defaults.defaultArgument arg.2))
            ((c.const (defaults.defaultArgument arg.2)).emit .addArg) := by
      obtain ⟨i, he, -⟩ := emits_const c (defaults.defaultArgument arg.2)
      rw [added_of_code (he.trans (emits_emit _ .addArg)).code, added_of_code he.code, added_emit,
        List.map_append]
      simp [bracket, emit]
    rw [hadd]
    exact (evaluates_const c _ id).gathered before

lemma proper_arguments (strict : Bool) (id : String) (defaults : Signature) {args : List (String × Nat)}
    (hin : ∀ arg ∈ args, GoodInput blocks fuel id b t arg.1) (c : Compiler)
    (hg : (args.foldl (argument (descend .builtin blocks fuel) blocks b defaults) c).tables.Grows t)
    (before : List Line) :
    let ls := argumentsLines (descend .builtin blocks fuel) (trace .builtin blocks fuel) blocks id b
      defaults c args
    Throughout (Proper strict t blocks) before ls ∧
      Code.shape t (codeOf (before ++ ls)) = Code.shape t (codeOf before) := by
  induction args generalizing c before with
  | nil => exact ⟨throughout_nil _ _, by simp [argumentsLines]⟩
  | cons arg args ih =>
    have hrest := (composes_grows blocks).arguments ((composes_grows blocks).descend fuel) id b
      defaults (argument (descend .builtin blocks fuel) blocks b defaults c arg) args
    obtain ⟨h1, h2⟩ := proper_argument strict id defaults (hin arg (by simp)) c
      (hrest.trans hg) before
    obtain ⟨h3, h4⟩ := ih (fun a ha => hin a (List.mem_cons_of_mem _ ha)) _ hg (before ++ _)
    refine ⟨h1.append h3, ?_⟩
    rw [argumentsLines, ← List.append_assoc, h4, h2]

lemma carries_call (hin : ∀ name, GoodInput blocks fuel id b t name) (c : Compiler)
    (hg : (c.call (descend .builtin blocks fuel) blocks b).tables.Grows t) :
    Carries strict t blocks
      (callLines (descend .builtin blocks fuel) (trace .builtin blocks fuel) blocks id b c) := by
  unfold callLines
  cases hm : b.mutation with
  | none => exact carries_nil
  | some m =>
    rw [call, hm] at hg
    simp only at hg ⊢
    generalize Signature.ofMutation m = s at hg ⊢
    generalize (c.definition blocks s.code).1.getD s = defaults at hg ⊢
    generalize ((c.definition blocks s.code).2.internProcedure s.code) = interned at hg ⊢
    intro before hf
    obtain ⟨base, ⟨os, hos, hshape⟩, hbase⟩ := hf
    obtain rfl := List.length_eq_zero_iff.1 hos
    rw [added_emit]
    have hinit : Code.shape t (codeOf (before ++ [bracket id .initProcedure interned.2])) =
        ⟨base.origins, base.pending + 1⟩ := by
      rw [codeOf, List.map_append, List.map_singleton, Code.shape_snoc_plain _ rfl, hshape]
      rfl
    obtain ⟨h1, h2⟩ := proper_arguments strict id defaults
      (fun arg _ => hin arg.1) (interned.2.emit .initProcedure) hg
      (before ++ [bracket id .initProcedure interned.2])
    rw [added_of_code (emits_emitAt _ .callProcedure interned.1).code]
    constructor
    · refine Throughout.append (Throughout.append (throughout_one (proper_plain ?_ rfl rfl)) h1)
        (throughout_one ⟨?_, fun hstrict _ => ?_, fun n hn => by cases hn⟩)
      · exact Nat.zero_le _
      · exact Nat.zero_le _
      · rw [← List.append_assoc, h2, hinit, hbase hstrict]
        rfl
    · rw [List.map_singleton, ← List.append_assoc, codeOf, List.map_append, List.map_singleton,
        Code.shape_snoc_settles _ rfl]
      exact fits_blank

/-- The head of a custom block emits at most the mark of warp mode. -/
lemma carries_head (c : Compiler) : Carries strict t blocks (added id c (c.head blocks b)) := by
  have hnone : ∀ c' : Compiler, c'.code = c.code → Carries strict t blocks (added id c c') := by
    intro c' hcode
    rw [added_of_code (show c'.code = c.code ++ [] by simpa using hcode)]
    exact carries_nil
  unfold head
  cases (pluggedBlock? blocks b "custom_block").bind (·.mutation) with
  | none => exact hnone c rfl
  | some m =>
    have hcode : (c.define (Signature.ofMutation m)).code = c.code := by
      have := (emits_internProcedure c (Signature.ofMutation m).code).code
      rwa [List.append_nil] at this
    simp only
    split
    · have hwarp : ((c.define (Signature.ofMutation m)).emit .warp).code =
          c.code ++ [⟨.warp, []⟩] := by rw [← hcode]; rfl
      rw [added_of_code hwarp]
      exact carries_idle (by simp [Line.opcode]) rfl rfl rfl (by simp [Line.opcode])
    · exact hnone _ hcode

/-! ### Blocks that stand for values -/

/-- A property of code that single emissions have, and the recipes of values if their inputs have it. -/
structure HoldsOfValues (t : Tables) (blocks : BlockMap)
    (Q : Compiler → List Line → Compiler → Prop) : Prop where
  const : ∀ (id : String) (c : Compiler) (v : Value), Q c (added id c (c.const v)) (c.const v)
  var : ∀ (id : String) (c : Compiler) (r : Reference),
    Q c (added id c (c.variableOp .read r)) (c.variableOp .read r)
  list : ∀ (id : String) (c : Compiler) (r : Reference),
    Q c (added id c (c.listOp .read r)) (c.listOp .read r)
  null : ∀ (id : String) (c : Compiler), Q c (added id c (c.emit .null)) (c.emit .null)
  unknown : ∀ (id : String) (c : Compiler),
    Q c (added id c ((c.markUnsupported .builtin blocks id).emit .null))
      ((c.markUnsupported .builtin blocks id).emit .null)
  recipe : ∀ {fuel : Nat} {id : String} {b : Block} {r : Recipe}, blocks.get? id = some b →
    (Palette.builtin.recipe? b.opcode = some r ∧ Palette.isReporter b.opcode = true ∨
      Palette.builtin.predicate? b.opcode = some r) →
    (∀ name, b.holdsStack name = false → ∀ c : Compiler,
      (c.input (descend .builtin blocks fuel) blocks b name).tables.Grows t →
      Q c (inputLines (descend .builtin blocks fuel) (trace .builtin blocks fuel) blocks id b c name)
        (c.input (descend .builtin blocks fuel) blocks b name)) →
    ∀ c : Compiler, (c.recipe .builtin (descend .builtin blocks fuel) blocks b r).tables.Grows t →
      Q c (recipeLines .builtin (descend .builtin blocks fuel) (trace .builtin blocks fuel) blocks id
        b c r) (c.recipe .builtin (descend .builtin blocks fuel) blocks b r)

section

variable {Q : Compiler → List Line → Compiler → Prop} (hQ : HoldsOfValues t blocks Q)

include hQ

lemma HoldsOfValues.input_of_value (name : String)
    (h : ∀ id', b.source blocks name = .block id' → ∀ c : Compiler,
      ((descend .builtin blocks fuel).value id' c).tables.Grows t →
      Q c ((trace .builtin blocks fuel).value id' c) ((descend .builtin blocks fuel).value id' c))
    (c : Compiler) (hg : (c.input (descend .builtin blocks fuel) blocks b name).tables.Grows t) :
    Q c (inputLines (descend .builtin blocks fuel) (trace .builtin blocks fuel) blocks id b c name)
      (c.input (descend .builtin blocks fuel) blocks b name) := by
  unfold inputLines
  rw [input_eq] at hg ⊢
  cases hs : b.source blocks name with
  | block id' =>
    rw [hs] at hg
    exact h id' hs c hg
  | value v => exact hQ.const id c v
  | var r => exact hQ.var id c r
  | list r => exact hQ.list id c r
  | nothing => exact hQ.null id c

/-- A block that stands for a value. -/
lemma HoldsOfValues.value (hk : blocks.ValuesKinded) (hac : blocks.Acyclic)
    (hrank : blocks.rank id < fuel)
    (hid : ∀ x ∈ blocks.get? id, Palette.isCommand x.opcode = false) (c : Compiler)
    (hg : ((descend .builtin blocks fuel).value id c).tables.Grows t) :
    Q c ((trace .builtin blocks fuel).value id c) ((descend .builtin blocks fuel).value id c) := by
  induction fuel generalizing id c with
  | zero => simp at hrank
  | succ fuel ih =>
    simp only [descend, trace, Compiler.value, valueLines] at hg ⊢
    cases hb : blocks.get? id with
    | none => exact hQ.null id c
    | some b =>
      rw [hb] at hg
      simp only at hg ⊢
      cases hr : Palette.builtin.recipe? b.opcode with
      | none => exact hQ.unknown id c
      | some r =>
        rw [hr] at hg
        have hrep : Palette.isReporter b.opcode = true := by
          have := hid b hb
          simpa [Palette.isCommand, hr] using this
        refine hQ.recipe hb (Or.inl ⟨hr, hrep⟩) (fun name hn => ?_) c hg
        refine hQ.input_of_value name fun id' hs c' hg' => ih ?_ (fun x hx => ?_) c' hg'
        · have := BlockMap.rank_lt hac (BlockMap.leads_of_source hb hs)
          omega
        · exact hk.value hb hn hs hx

/-- An input of a block within reach. -/
lemma HoldsOfValues.input (hk : blocks.ValuesKinded) (hac : blocks.Acyclic)
    (hb : blocks.get? id = some b) (hrank : blocks.rank id ≤ fuel) {name : String}
    (hn : b.holdsStack name = false) (c : Compiler)
    (hg : (c.input (descend .builtin blocks fuel) blocks b name).tables.Grows t) :
    Q c (inputLines (descend .builtin blocks fuel) (trace .builtin blocks fuel) blocks id b c name)
      (c.input (descend .builtin blocks fuel) blocks b name) := by
  refine hQ.input_of_value name (fun id' hs c' hg' =>
    hQ.value hk hac ?_ (fun x hx => hk.value hb hn hs hx) c' hg') c hg
  exact lt_of_lt_of_le (BlockMap.rank_lt hac (BlockMap.leads_of_source hb hs)) hrank

/-- The condition of a hat. -/
lemma HoldsOfValues.condition (hk : blocks.ValuesKinded) (hac : blocks.Acyclic) (c : Compiler)
    (hg : (c.root .builtin blocks id .predicate).tables.Grows t) :
    Q c (rootLines .builtin blocks id .predicate c) (c.root .builtin blocks id .predicate) := by
  simp only [root, rootLines] at hg ⊢
  cases hb : blocks.get? id with
  | none => exact hQ.null id c
  | some b =>
    rw [hb] at hg
    simp only at hg ⊢
    cases hr : Palette.builtin.predicate? b.opcode with
    | none => exact hQ.null id c
    | some r =>
      rw [hr] at hg
      refine hQ.recipe hb (Or.inr hr) (fun name hn => hQ.input hk hac hb ?_ hn) c hg
      have := blocks.rank_le id
      unfold depth
      omega

end

/-- No recipe of a condition calls or defines a custom block. -/
lemma plain_of_predicate {r : Recipe} (hr : Palette.builtin.predicate? b.opcode = some r) :
    r ≠ .call ∧ r ≠ .definition := by
  have hplan := Palette.plan_of_predicate hr b
  constructor <;>
  · rintro rfl
    cases hplan

/-! ### Blocks -/

/-- The recipes of reporters and of conditions. -/
lemma evaluates_recipe (ht : t.Tidy) (hb : blocks.get? id = some b) {r : Recipe}
    (hr : Palette.builtin.recipe? b.opcode = some r ∨ Palette.builtin.predicate? b.opcode = some r)
    (hplans : ∀ ss ∈ r.plans, Recipe.isReport ss = true) (hcall : r ≠ .call)
    (hdef : r ≠ .definition)
    (hin : ∀ name, b.holdsStack name = false → GoodInput blocks fuel id b t name) (c : Compiler)
    (hg : (c.recipe .builtin (descend .builtin blocks fuel) blocks b r).tables.Grows t) :
    Evaluates t blocks c
      (recipeLines .builtin (descend .builtin blocks fuel) (trace .builtin blocks fuel) blocks id b c r)
      (c.recipe .builtin (descend .builtin blocks fuel) blocks b r) := by
  have hplan : ∀ ss, r.plan? .builtin b = some ss → (afterSteps blocks fuel b c ss).tables.Grows t →
      Evaluates t blocks c (linesOf blocks fuel id b c ss) (afterSteps blocks fuel b c ss) := by
    intro ss hss hg
    have hhas : b.HasPlan ss := ⟨r, hr, hss⟩
    exact evaluates_plan ht hhas hb (fun s hs name hn => hin name (hhas.not_holdsStack hs hn))
      (hplans ss (Recipe.mem_plans hss)) c hg
  cases r with
  | steps ss => exact hplan ss rfl hg
  | needs field ss otherwise => exact hplan _ rfl hg
  | choose field options otherwise => exact hplan _ rfl hg
  | definition => exact absurd rfl hdef
  | call => exact absurd rfl hcall
  | argument outside => exact evaluates_readArgument outside c

/-- The recipes of commands. -/
lemma carries_recipe (ht : t.Tidy) (hb : blocks.get? id = some b) {r : Recipe}
    (hr : Palette.builtin.recipe? b.opcode = some r) (hrep : Palette.isReporter b.opcode = false)
    (hin : ∀ name, b.holdsStack name = false → GoodInput blocks fuel id b t name)
    (hbody : b.isControl = true → ∀ name ∈ ["SUBSTACK", "SUBSTACK2"],
      GoodBody blocks fuel b strict t name) (c : Compiler)
    (hg : (c.recipe .builtin (descend .builtin blocks fuel) blocks b r).tables.Grows t) :
    Carries strict t blocks
      (recipeLines .builtin (descend .builtin blocks fuel) (trace .builtin blocks fuel) blocks id b
        c r) := by
  obtain ⟨sec, hsec, hlook⟩ := List.exists_of_findSome?_eq_some hr
  have hmem := mem_of_lookup hlook
  have hplan : ∀ ss, r.plan? .builtin b = some ss → (afterSteps blocks fuel b c ss).tables.Grows t →
      Carries strict t blocks (linesOf blocks fuel id b c ss) := by
    intro ss hss hg
    have hhas : b.HasPlan ss := ⟨r, Or.inl hr, hss⟩
    have hss' := Recipe.mem_plans hss
    refine carries_plan ht hhas hb (fun s hs name hn => hin name (hhas.not_holdsStack hs hn)) ?_
      (Palette.balanced_of_command sec hsec _ hmem hrep ss hss') c hg
    intro s hs name hn
    obtain ⟨hname, hcontrol⟩ := Palette.body?_of_plan sec hsec _ hmem ss hss' s hs name hn
    exact hbody hcontrol name hname
  cases r with
  | steps ss => exact hplan ss rfl hg
  | needs field ss otherwise => exact hplan _ rfl hg
  | choose field options otherwise => exact hplan _ rfl hg
  | definition => exact carries_head c
  | call => exact carries_call (fun name => hin name (Block.not_holdsStack_of_call hr name)) c hg
  | argument outside =>
    have key : ∀ s ∈ Palette.builtin.sections, ∀ e ∈ s.recipes, e.2.plans = [] →
        e.2 ≠ .call → e.2 ≠ .definition → Palette.isReporter e.1 = true := by decide +kernel
    have := key sec hsec _ hmem rfl (by simp) (by simp)
    rw [hrep] at this
    cases this

lemma reports_of_reporter {r : Recipe} (hr : Palette.builtin.recipe? b.opcode = some r)
    (hrep : Palette.isReporter b.opcode = true) :
    (∀ ss ∈ r.plans, Recipe.isReport ss = true) ∧ r ≠ .call ∧ r ≠ .definition := by
  have key : ∀ e ∈ Reporter.table, e.2.recipe ≠ .call ∧ e.2.recipe ≠ .definition := by decide
  obtain ⟨x, hx⟩ := Option.isSome_iff_exists.1 hrep
  rw [Reporter.recipe?_of_reporter hx] at hr
  cases hr
  exact ⟨Palette.report_of_reporter _ (mem_of_lookup hx), key _ (mem_of_lookup hx)⟩

lemma evaluates_values (ht : t.Tidy) (blocks : BlockMap) :
    HoldsOfValues t blocks (Evaluates t blocks) where
  const id c v := evaluates_const c v id
  var id c r := evaluates_variable c r id
  list id c r := evaluates_list c r id
  null id c := evaluates_null c id
  unknown id c :=
    evaluates_one ((emits_markUnsupported c .builtin blocks id).trans (emits_emit _ .null)) rfl rfl
      (by simp) rfl (by simp) id
  recipe := by
    rintro fuel id b r hb (⟨hr, hrep⟩ | hr) hin c hg
    · obtain ⟨hplans, hcall, hdef⟩ := reports_of_reporter hr hrep
      exact evaluates_recipe ht hb (Or.inl hr) hplans hcall hdef hin c hg
    · obtain ⟨hcall, hdef⟩ := plain_of_predicate hr
      obtain ⟨sec, hsec, hlook⟩ := List.exists_of_findSome?_eq_some hr
      exact evaluates_recipe ht hb (Or.inr hr)
        (Palette.report_of_predicate sec hsec _ (mem_of_lookup hlook)) hcall hdef hin c hg

/-- The value of an input of a block within reach. -/
lemma goodInput (ht : t.Tidy) (hk : blocks.ValuesKinded) (hac : blocks.Acyclic)
    (hb : blocks.get? id = some b) (hrank : blocks.rank id ≤ fuel) {name : String}
    (hn : b.holdsStack name = false) : GoodInput blocks fuel id b t name :=
  (evaluates_values ht blocks).input hk hac hb hrank hn

/-- A command of a stack. -/
lemma carries_command (ht : t.Tidy) (hk : blocks.ValuesKinded) (hac : blocks.Acyclic)
    (hb : blocks.get? id = some b) (hrank : blocks.rank id ≤ fuel)
    (hrep : strict = true → Palette.isReporter b.opcode = false)
    (hbody : b.isControl = true → ∀ name ∈ ["SUBSTACK", "SUBSTACK2"],
      GoodBody blocks fuel b strict t name) (c : Compiler)
    (hg : (c.command .builtin (descend .builtin blocks fuel) blocks id b).tables.Grows t) :
    Carries strict t blocks
      (commandLines .builtin (descend .builtin blocks fuel) (trace .builtin blocks fuel) blocks id b
        c) := by
  simp only [command, commandLines] at hg ⊢
  split
  · exact carries_nil
  · next hhat =>
    simp only [hhat, Bool.false_eq_true, if_false] at hg
    cases hr : Palette.builtin.recipe? b.opcode with
    | none => exact carries_nil
    | some r =>
      rw [hr] at hg
      have hin : ∀ name, b.holdsStack name = false → GoodInput blocks fuel id b t name :=
        fun name hn => goodInput ht hk hac hb hrank hn
      cases hrep' : Palette.isReporter b.opcode with
      | false => exact carries_recipe ht hb hr hrep' hin hbody c hg
      | true =>
        cases strict with
        | true =>
          rw [hrep rfl] at hrep'
          cases hrep'
        | false =>
          obtain ⟨hplans, hcall, hdef⟩ := reports_of_reporter hr hrep'
          exact (evaluates_recipe ht hb (Or.inl hr) hplans hcall hdef hin c hg).carries

/-- What a stack may begin with. -/
def Startable (strict : Bool) (blocks : BlockMap) (fuel : Nat) (first : Option String) : Prop :=
  ∀ id ∈ first, ∀ x ∈ blocks.get? id, blocks.rank id < fuel ∧
    (strict = true → Palette.isReporter x.opcode = false)

lemma Startable.next (hac : blocks.Acyclic) (hstrict : strict = true → blocks.WellKinded)
    (hb : blocks.get? id = some b) (hrank : blocks.rank id ≤ fuel)
    (hrep : strict = true → Palette.isReporter b.opcode = false) :
    Startable strict blocks fuel b.next := by
  intro id' hid' x hx
  refine ⟨lt_of_lt_of_le (BlockMap.rank_lt hac ?_) hrank, fun hs => ?_⟩
  · exact BlockMap.leads_of_next hb hid' (by rw [hx]; rfl)
  · exact (hstrict hs (id, b) (Dictionary.mem_of_get? hb)).below (hrep hs) id' hid' x hx

lemma Startable.body (hkey : blocks.Keyed) (hac : blocks.Acyclic)
    (hstrict : strict = true → blocks.WellKinded) (hb : blocks.get? id = some b)
    (hrank : blocks.rank id ≤ fuel) (hcontrol : b.isControl = true) {name : String}
    (hname : name ∈ ["SUBSTACK", "SUBSTACK2"]) :
    Startable strict blocks fuel (bodyId? blocks b name) := by
  intro id' hid' x hx
  obtain ⟨hp, hsome⟩ := bodyId?_eq_some hkey hid'
  refine ⟨lt_of_lt_of_le (BlockMap.rank_lt hac ?_) hrank, fun hs => ?_⟩
  · exact BlockMap.leads_of_plugged hb hp hsome
  · exact (hstrict hs (id, b) (Dictionary.mem_of_get? hb)).bodies hcontrol name hname id' hp x hx

/-- A stack of blocks. -/
lemma carries_stack (ht : t.Tidy) (hkey : blocks.Keyed) (hk : blocks.ValuesKinded)
    (hac : blocks.Acyclic) (hstrict : strict = true → blocks.WellKinded) {first : Option String}
    (hfirst : Startable strict blocks fuel first) (c : Compiler)
    (hg : ((descend .builtin blocks fuel).stack first c).tables.Grows t) :
    Carries strict t blocks ((trace .builtin blocks fuel).stack first c) := by
  induction fuel generalizing first c with
  | zero => exact carries_nil
  | succ fuel ih =>
    simp only [descend, trace] at hg ⊢
    cases first with
    | none => exact carries_nil
    | some id =>
      simp only at hg ⊢
      cases hb : blocks.get? id with
      | none => exact carries_nil
      | some b =>
        rw [hb] at hg
        simp only at hg ⊢
        obtain ⟨hrank, hrep⟩ := hfirst id rfl b hb
        have hrank := Nat.le_of_lt_succ hrank
        have hbelow := ((composes_grows blocks).descend fuel).stack b.next
          (c.command .builtin (descend .builtin blocks fuel) blocks id b)
        refine Carries.append ?_ (ih (.next hac hstrict hb hrank hrep) _ hg)
        refine carries_command ht hk hac hb hrank hrep (fun hcontrol name hname c' hg' => ?_) c
          (hbelow.trans hg)
        exact ih (.body hkey hac hstrict hb hrank hcontrol hname) c' hg'

/-! ### Where commands begin -/

/-- In the lines of a stack, those of a block begin after some others: the block is the first of the
stack, or it stands further down, or in a stack that the first block holds. -/
inductive Begins (blocks : BlockMap) (x : String) :
    (fuel : Nat) → (first : Option String) → Compiler → List Line → Prop
  | here {fuel : Nat} (c : Compiler) : Begins blocks x (fuel + 1) (some x) c []
  | further {fuel : Nat} {id : String} {b : Block} {c : Compiler} {pre : List Line}
      (hb : blocks.get? id = some b)
      (h : Begins blocks x fuel b.next (c.command .builtin (descend .builtin blocks fuel) blocks id b)
        pre) :
      Begins blocks x (fuel + 1) (some id) c
        (commandLines .builtin (descend .builtin blocks fuel) (trace .builtin blocks fuel) blocks id b
          c ++ pre)
  | held {fuel : Nat} {id : String} {b : Block} {c : Compiler} {pre : List Line} {r : Recipe}
      {done rest : List Recipe.Step} {s : Recipe.Step} {name : String}
      (hb : blocks.get? id = some b) (hhat : Palette.builtin.isHat b.opcode = false)
      (hr : Palette.builtin.recipe? b.opcode = some r)
      (hplan : r.plan? .builtin b = some (done ++ s :: rest)) (hs : s.body? = some name)
      (h : Begins blocks x fuel (bodyId? blocks b name) (afterSteps blocks fuel b c done) pre) :
      Begins blocks x (fuel + 1) (some id) c (linesOf blocks fuel id b c done ++ pre)

lemma recipe_of_plan {r : Recipe} {ss : List Recipe.Step} (h : r.plan? .builtin b = some ss)
    (c : Compiler) :
    c.recipe .builtin (descend .builtin blocks fuel) blocks b r = afterSteps blocks fuel b c ss := by
  cases r <;> simp only [Recipe.plan?, Option.some.injEq, reduceCtorEq] at h <;> subst h <;> rfl

/-- A command whose recipe is a list of steps. -/
lemma command_of_plan {r : Recipe} {ss : List Recipe.Step}
    (hhat : Palette.builtin.isHat b.opcode = false) (hr : Palette.builtin.recipe? b.opcode = some r)
    (hplan : r.plan? .builtin b = some ss) (c : Compiler) :
    c.command .builtin (descend .builtin blocks fuel) blocks id b = afterSteps blocks fuel b c ss := by
  rw [command, hhat, hr]
  exact recipe_of_plan hplan c

/-- What the first steps enter into the tables stays there. -/
lemma grows_prefix {r : Recipe} {done ss : List Recipe.Step}
    (hr : Palette.builtin.recipe? b.opcode = some r) (hplan : r.plan? .builtin b = some ss)
    (hdone : done <+: ss) (c : Compiler) (hg : (afterSteps blocks fuel b c ss).tables.Grows t) :
    (afterSteps blocks fuel b c done).tables.Grows t := by
  have hwarp := no_warp_builtin r (Palette.mem_recipes_of_recipe? hr) _ (Recipe.mem_plans hplan)
  obtain ⟨rest, rfl⟩ := hdone
  rw [afterSteps_append] at hg
  exact (grows_steps (fun hw => hwarp (List.mem_append_right _ hw)) _).trans hg

/-- The pause at the end of a loop's body enters nothing into the tables. -/
lemma tables_body {s : Recipe.Step} {name : String} (hs : s.body? = some name) (c : Compiler) :
    (afterStep blocks fuel b c s).tables =
      ((descend .builtin blocks fuel).stack (bodyId? blocks b name) c).tables := by
  cases s <;> cases hs
  · rfl
  · simp only [afterStep, step]
    split <;> rfl

/-- Where a command of a stack begins, nothing is there but what the stack began with. -/
lemma Begins.fits (ht : t.Tidy) (hkey : blocks.Keyed) (hk : blocks.WellKinded)
    (hac : blocks.Acyclic) {x : String} {first : Option String} {c : Compiler} {pre : List Line}
    (h : Begins blocks x fuel first c pre) (hfirst : Startable true blocks fuel first)
    (hg : ((descend .builtin blocks fuel).stack first c).tables.Grows t) (before : List Line)
    (hf : Fits true 0 (Code.shape t (codeOf before))) :
    Fits true 0 (Code.shape t (codeOf (before ++ pre))) := by
  induction h generalizing before with
  | here c => rwa [List.append_nil]
  | @further fuel id b c pre hb h ih =>
    simp only [descend, hb] at hg
    obtain ⟨hrank, hrep⟩ := hfirst id rfl b hb
    have hrank := Nat.le_of_lt_succ hrank
    have hbelow := ((composes_grows blocks).descend fuel).stack b.next
      (c.command .builtin (descend .builtin blocks fuel) blocks id b)
    rw [← List.append_assoc]
    refine ih (.next hac (fun _ => hk) hb hrank hrep) hg _ ?_
    refine (carries_command ht hk.values hac hb hrank hrep (fun hcontrol name hname c' hg' => ?_) c
      (hbelow.trans hg) before hf).2
    exact carries_stack ht hkey hk.values hac (fun _ => hk)
      (.body hkey hac (fun _ => hk) hb hrank hcontrol hname) c' hg'
  | @held fuel id b c pre r done rest s name hb hhat hr hplan hs h ih =>
    simp only [descend, hb] at hg
    obtain ⟨hrank, hrep⟩ := hfirst id rfl b hb
    have hrank := Nat.le_of_lt_succ hrank
    have hbelow := ((composes_grows blocks).descend fuel).stack b.next
      (c.command .builtin (descend .builtin blocks fuel) blocks id b)
    have hhas : b.HasPlan (done ++ s :: rest) := ⟨r, Or.inl hr, hplan⟩
    obtain ⟨sec, hsec, hlook⟩ := List.exists_of_findSome?_eq_some hr
    have hmem := mem_of_lookup hlook
    have hss := Recipe.mem_plans hplan
    have hgplan := hbelow.trans hg
    rw [command_of_plan hhat hr hplan] at hgplan
    have hgs : (afterSteps blocks fuel b c (done ++ [s])).tables.Grows t :=
      grows_prefix hr hplan ⟨rest, by simp⟩ c hgplan
    have hgdone := grows_prefix hr hplan (List.prefix_append done _) c hgplan
    have hstart : ∀ y ∈ done ++ s :: rest, ∀ n ∈ y.body?,
        Startable true blocks fuel (bodyId? blocks b n) := by
      intro y hy n hn
      obtain ⟨hname, hcontrol⟩ := Palette.body?_of_plan sec hsec _ hmem _ hss y hy n hn
      exact .body hkey hac (fun _ => hk) hb hrank hcontrol hname
    -- the steps before the stack use up what they evaluate
    obtain ⟨k, hdone, hrest⟩ := Recipe.height?_append
      (beq_iff_eq.1 (Palette.balanced_of_command sec hsec _ hmem (hrep rfl) _ hss))
    obtain ⟨-, -, hzero, -⟩ := Recipe.height?_cons hrest
    have hk0 : k = 0 := by
      cases s <;> cases hs <;> exact hzero rfl
    subst hk0
    have hsteps := (proper_steps ht hhas hb
      (fun y hy n hn => goodInput ht hk.values hac hb hrank (hhas.not_holdsStack hy hn))
      (fun y hy n hn c' hg' => carries_stack ht hkey hk.values hac (fun _ => hk)
        (hstart y hy n hn) c' hg') c before
      (show done ++ s :: rest = [] ++ (done ++ s :: rest) from rfl) hdone hgdone
      (by simpa [linesOf, stepsLines] using hf)).2
    rw [← List.append_assoc]
    refine ih (hstart s (by simp) name hs) ?_ _ hsteps
    rwa [afterSteps_snoc, tables_body hs] at hgs

/-! ### Units -/

/-- Nothing that a unit starts from is a reporter. -/
lemma IsRoot.startable (hkey : blocks.Keyed) (h : IsRoot blocks id) :
    Startable strict blocks (depth blocks) (some id) := by
  have key : ∀ e ∈ Reporter.table, Palette.builtin.isHat e.1 = false ∧
      e.1 ≠ "procedures_definition" := by decide
  obtain ⟨b, hmem, hkind⟩ := h
  rintro _ ⟨⟩ x hx
  rw [hkey.get? hmem, Option.mem_some_iff] at hx
  subst hx
  refine ⟨?_, fun _ => ?_⟩
  · have := blocks.rank_le id
    unfold depth
    omega
  · by_contra hrep
    obtain ⟨r, hr⟩ := Option.isSome_iff_exists.1 (Bool.not_eq_false _ ▸ hrep)
    obtain ⟨h1, h2⟩ := key _ (mem_of_lookup hr)
    rcases hkind with hk | hk
    · rw [h1] at hk
      cases hk
    · exact h2 hk

/-- Nothing is left at the end of a script. -/
lemma carries_halt (id : Option String) (c : Compiler) :
    Carries strict t blocks [bracket id .halt c] := by
  intro before hf
  refine ⟨throughout_one ⟨Nat.zero_le _, fun hstrict _ => ?_, fun n hn => by cases hn⟩, ?_⟩
  · obtain ⟨base, ⟨os, hos, hshape⟩, hbase⟩ := hf
    rw [hshape, List.length_eq_zero_iff.1 hos, hbase hstrict]
    rfl
  · rw [codeOf, List.map_append, List.map_singleton, Code.shape_snoc_settles _ rfl]
    exact fits_blank

lemma listing_eq (c : Compiler) (id : String) (mode : Mode) :
    c.listing .builtin blocks id mode = [bracket none .start c.fresh] ++
      rootLines .builtin blocks id mode (c.fresh.emit .start) ++
        [bracket none .halt ((c.fresh.emit .start).root .builtin blocks id mode)] := by
  rw [listing, added_emit, added_emit]

lemma carries_start (c : Compiler) : Carries strict t blocks [bracket none .start c] :=
  carries_idle (by simp [Line.opcode, bracket]) rfl rfl rfl (by simp [Line.opcode, bracket])

/-- The lines of a script. -/
lemma carries_script (ht : t.Tidy) (hkey : blocks.Keyed) (hk : blocks.ValuesKinded)
    (hac : blocks.Acyclic) (hstrict : strict = true → blocks.WellKinded) (hid : IsRoot blocks id)
    (c : Compiler) (hg : (c.compile .builtin blocks id .script).2.tables.Grows t) :
    Carries strict t blocks (c.listing .builtin blocks id .script) := by
  have hend := (grows_end c blocks id .script).trans hg
  rw [listing_eq]
  refine ((carries_start _).append ?_).append (carries_halt _ _)
  exact carries_stack ht hkey hk hac hstrict (hid.startable hkey) _ hend

/-- The lines of a condition. -/
lemma evaluates_condition (ht : t.Tidy) (hk : blocks.ValuesKinded) (hac : blocks.Acyclic)
    (c : Compiler) (hg : (c.root .builtin blocks id .predicate).tables.Grows t) :
    Evaluates t blocks c (rootLines .builtin blocks id .predicate c)
      (c.root .builtin blocks id .predicate) :=
  (evaluates_values ht blocks).condition hk hac c hg

/-- A condition settles nothing before its end. -/
lemma carries_condition (ht : t.Tidy) (hk : blocks.ValuesKinded) (hac : blocks.Acyclic)
    (c : Compiler) (hg : (c.compile .builtin blocks id .predicate).2.tables.Grows t) :
    Carries false t blocks (c.listing .builtin blocks id .predicate) ∧
      ∀ l ∈ c.listing .builtin blocks id .predicate,
        l.opcode = .halt ∨ l.instruction.settles t = false := by
  have heval := evaluates_condition ht hk hac (c.fresh.emit .start)
    ((grows_end c blocks id .predicate).trans hg)
  rw [listing_eq]
  refine ⟨((carries_start _).append heval.carries).append (carries_halt _ _), fun l hl => ?_⟩
  simp only [List.mem_append, List.mem_singleton] at hl
  rcases hl with (rfl | hl) | rfl
  · exact Or.inr rfl
  · exact Or.inr (heval.pushes.quiet _ (List.mem_map_of_mem hl))
  · exact Or.inl rfl

/-- A condition is no body of a custom block. -/
lemma prototype?_condition (ht : t.Tidy) (hk : blocks.ValuesKinded) (hac : blocks.Acyclic)
    (c : Compiler) (hg : (c.compile .builtin blocks id .predicate).2.tables.Grows t) :
    c.prototype? .builtin blocks id .predicate = none :=
  (evaluates_condition ht hk hac (c.fresh.emit .start)
    ((grows_end c blocks id .predicate).trans hg)).signature

end

end Compiler

/-! ### The code of routines -/

open Compiler in
/-- A routine of a program, line by line: where it is strict, nothing is left where a line settles,
but for the value of a condition at its end. -/
structure Program.Laid (strict : Bool) (p : Program) (blocks : BlockMap) (r : Routine)
    (ls : List Line) : Prop where
  unit : ∃ c id mode, p.Compiled blocks r c id mode ∧ ls = c.listing .builtin blocks id mode
  holds : p.Holds r (codeOf ls)
  nested : Code.Nested (ls.map (·.opcode))
  paused : Paused ls
  valid : ∀ l ∈ ls, l.instruction.Valid p.tables
  ends : ∃ body last, ls = body ++ [last] ∧ last.opcode = .halt
  proper : ∀ pre l post, ls = pre ++ l :: post →
    Proper (strict && (r != .predicate || l.opcode != .halt)) p.tables blocks pre l
  condition : r = .predicate → ∀ l ∈ ls, l.opcode = .halt ∨ l.instruction.settles p.tables = false

namespace Compiler

variable {strict : Bool} {p : Program} {blocks : BlockMap} {r : Routine} {c : Compiler} {id : String}
  {mode : Mode}

lemma Proper.weaken {s s' : Bool} (h : s' = true → s = true) {t : Tables} {history : List Line}
    {l : Line} (hp : Proper s t blocks history l) : Proper s' t blocks history l :=
  ⟨hp.supplied, fun hs => hp.clean (h hs), hp.fed⟩

/-- The listing of a unit is what the routine consists of. -/
lemma laid_of_compiled (hkey : blocks.Keyed) (hk : blocks.ValuesKinded) (hac : blocks.Acyclic)
    (hstrict : strict = true → blocks.WellKinded) (h : p.Compiled blocks r c id mode) :
    p.Laid strict blocks r (c.listing .builtin blocks id mode) := by
  have hcompiled := h
  obtain ⟨⟨code, hcode, hu⟩, hkind⟩ := h
  have hw := writes_listing c blocks id mode
  obtain ⟨hgrows, ht⟩ := hu.listed
  have hmode : mode = .script ∧ r ≠ .predicate ∨ mode = .predicate ∧ r = .predicate := by
    cases r with
    | main => exact Or.inl ⟨hkind, by simp⟩
    | predicate => exact Or.inr ⟨hkind, rfl⟩
    | procedure i =>
      refine Or.inl ⟨?_, by simp⟩
      cases mode with
      | script => rfl
      | reporter => exact absurd rfl hkind.1
      | predicate =>
        have := hkind.2
        rw [prototype?_condition ht hk hac c hu.grows] at this
        cases this
  refine
    { unit := ⟨c, id, mode, hcompiled, rfl⟩
      holds := ⟨by rw [hcode, hu.code, compile_eq_listing], allFull_listing c blocks id mode⟩
      nested := hw.neat.nested
      paused := hw.neat.paused
      valid := fun l hl => (hw.puts.valid hu.tidy l hl).operand.mono hgrows
      ends := ⟨_, _, listing_eq c id mode, rfl⟩
      proper := ?_
      condition := ?_ }
  · rcases hmode with ⟨rfl, hr⟩ | ⟨rfl, rfl⟩
    · have hcarries := carries_script ht hkey hk hac hstrict hu.root c hu.grows
      intro pre l post he
      refine ((hcarries [] fits_blank).1 pre l post he).weaken fun hs => ?_
      exact (Bool.and_eq_true_iff.1 hs).1
    · obtain ⟨hcarries, hquiet⟩ := carries_condition ht hk hac c hu.grows
      intro pre l post he
      have hloose := (hcarries [] fits_blank).1 pre l post he
      rcases hquiet l (by simp [he]) with hl | hl
      · exact hloose.weaken fun hs => by simp [hl] at hs
      · exact hloose.of_quiet hl
  · rintro rfl
    rcases hmode with ⟨-, hr⟩ | ⟨rfl, -⟩
    · exact absurd rfl hr
    · exact (carries_condition ht hk hac c hu.grows).2

/-- In the listing of a unit, the lines of a command begin after some others. -/
def BeginsIn (blocks : BlockMap) (x : String) (c : Compiler) (id : String) (mode : Mode)
    (pre : List Line) : Prop :=
  mode = .script ∧ ∃ rest, pre = bracket none .start c.fresh :: rest ∧
    Begins blocks x (depth blocks) (some id) (c.fresh.emit .start) rest

/-- No operands are there when a command begins. -/
lemma shape_begins (hkey : blocks.Keyed) (hk : blocks.WellKinded) (hac : blocks.Acyclic)
    (h : p.Compiled blocks r c id mode) {x : String} {pre : List Line}
    (hx : BeginsIn blocks x c id mode pre) : Code.shape p.tables (codeOf pre) = .blank := by
  obtain ⟨⟨code, -, hu⟩, -⟩ := h
  obtain ⟨rfl, rest, rfl, hbegins⟩ := hx
  obtain ⟨hgrows, ht⟩ := hu.listed
  have hstart := (show Carries true p.tables blocks [bracket none .start c.fresh] from
    carries_start c.fresh) [] fits_blank
  obtain ⟨base, ⟨os, hos, hshape⟩, hbase⟩ :=
    hbegins.fits ht hkey hk hac (hu.root.startable hkey) hgrows _ hstart.2
  rw [List.length_eq_zero_iff.1 hos, hbase rfl] at hshape
  exact hshape

end Compiler

end Blockwork
