import Blockwork.Proofs.Compile.WellFormed
import Blockwork.Proofs.Machine.Instructions
import Blockwork.Proofs.Machine.Slots
import Blockwork.Thread

/-!
Reporters are compiled correctly. The code of a block that gives a value, wherever it stands and
whatever lies on the operand stack, pushes the value that the evaluator gives and changes the world
as the evaluator does.
-/

namespace Blockwork

/-- Every position in a table fits into an operand. -/
structure Tables.Small (t : Tables) : Prop where
  constants : t.constants.length ≤ UInt32.size
  vars : t.vars.length ≤ UInt32.size
  lists : t.lists.length ≤ UInt32.size
  natives : t.natives.length ≤ UInt32.size
  codes : t.procedureCodes.length ≤ UInt32.size

instance (t : Tables) : Decidable t.Small :=
  decidable_of_iff
    (t.constants.length ≤ UInt32.size ∧ t.vars.length ≤ UInt32.size ∧
      t.lists.length ≤ UInt32.size ∧ t.natives.length ≤ UInt32.size ∧
      t.procedureCodes.length ≤ UInt32.size)
    ⟨fun ⟨h1, h2, h3, h4, h5⟩ => ⟨h1, h2, h3, h4, h5⟩,
      fun h => ⟨h.constants, h.vars, h.lists, h.natives, h.codes⟩⟩

/-- What code does in a scene: it takes some values and leaves others. -/
abbrev Effect := Scene → List Value → World → List Value × World

namespace Compiler

open Machine (Does)

/-- Code that was emitted up to a state of the compiler can run in a program and a scene. -/
structure Suits (c : Compiler) (p : Program) (s : Scene) : Prop where
  grows : c.tables.Grows p.tables
  small : p.tables.Small
  signature : s.signature = c.signature
  names : ∀ sig, s.signature = some sig → sig.argumentNames.length ≤ UInt32.size

lemma Suits.before {c c' : Compiler} {is : List Instruction} {p : Program} {s : Scene}
    (h : c'.Suits p s) (he : c.Emits is c') : c.Suits p s :=
  ⟨he.grows.trans h.grows, h.small, h.signature.trans he.signature, h.names⟩

/-- The code that is emitted between two states of the compiler takes `n` values and has an
effect, wherever it can run. -/
def Means (c : Compiler) (n : Nat) (e : Effect) (c' : Compiler) : Prop :=
  ∃ is, c.Emits is c' ∧ Code.AllFull is ∧
    ∀ (p : Program) (s : Scene), c'.Suits p s →
      ∀ vs w, vs.length = n → Does p s is vs w (e s vs w).1 (e s vs w).2

/-- The code pushes one value. -/
def Gives (c : Compiler) (v : Scene → World → Value × World) (c' : Compiler) : Prop :=
  c.Means 0 (fun s _ w => ([(v s w).1], (v s w).2)) c'

lemma Means.congr {c c' : Compiler} {n : Nat} {e e' : Effect} (h : c.Means n e c')
    (he : ∀ s vs w, s.signature = c.signature → vs.length = n → e s vs w = e' s vs w) :
    c.Means n e' c' := by
  obtain ⟨is, hi, hf, hd⟩ := h
  refine ⟨is, hi, hf, fun p s hs vs w hvs => ?_⟩
  rw [← he s vs w (hs.before hi).signature hvs]
  exact hd p s hs vs w hvs

lemma Means.trans {c c' c'' : Compiler} {n k : Nat} {e e' : Effect} (h : c.Means n e c')
    (hk : ∀ s vs w, vs.length = n → (e s vs w).1.length = k) (h' : c'.Means k e' c'') :
    c.Means n (fun s vs w => e' s (e s vs w).1 (e s vs w).2) c'' := by
  obtain ⟨is, hi, hf, hd⟩ := h
  obtain ⟨js, hj, hf', hd'⟩ := h'
  refine ⟨is ++ js, hi.trans hj, hf.append hf', fun p s hs vs w hvs => ?_⟩
  exact (hd p s (hs.before hj) vs w hvs).trans (hd' p s hs _ _ (hk s vs w hvs))

/-- A value is pushed on top of others. -/
lemma Gives.onTop {c c' : Compiler} {v : Scene → World → Value × World} (h : c.Gives v c')
    (n : Nat) : c.Means n (fun s vs w => (vs ++ [(v s w).1], (v s w).2)) c' := by
  obtain ⟨is, hi, hf, hd⟩ := h
  refine ⟨is, hi, hf, fun p s hs vs w _ => ?_⟩
  have := (hd p s hs [] w rfl).under vs
  rwa [List.append_nil] at this

/-- Nothing is emitted. -/
lemma means_nothing {c c' : Compiler} (h : c.Emits [] c') (n : Nat) :
    c.Means n (fun _ vs w => (vs, w)) c' :=
  ⟨[], h, by simp [Code.AllFull], fun _ _ _ vs w _ => .nil vs w⟩

/-- One instruction without operand. -/
lemma means_emit (c : Compiler) {op : Opcode} (hop : op.operandCount = 0) {n : Nat} {e : Effect}
    (h : ∀ (p : Program) s vs w, vs.length = n →
      Does p s [⟨op, []⟩] vs w (e s vs w).1 (e s vs w).2) :
    c.Means n e (c.emit op) :=
  ⟨[⟨op, []⟩], emits_emit c op, by simpa [Code.AllFull, Instruction.Full] using hop.symm,
    fun p s _ => h p s⟩

/-- One instruction with an operand. -/
lemma means_operand {c c' : Compiler} {op : Opcode} {x : UInt32} (he : c.Emits [⟨op, [x]⟩] c')
    (hop : op.operandCount = 1) {n : Nat} {e : Effect}
    (h : ∀ (p : Program) s vs w, c'.Suits p s → vs.length = n →
      Does p s [⟨op, [x]⟩] vs w (e s vs w).1 (e s vs w).2) :
    c.Means n e c' :=
  ⟨[⟨op, [x]⟩], he, by simpa [Code.AllFull, Instruction.Full] using hop.symm,
    fun p s hs vs w hvs => h p s vs w hs hvs⟩

lemma gives_null (c : Compiler) : c.Gives (fun _ w => (.empty, w)) (c.emit .null) :=
  means_emit c rfl fun p s vs w hvs => by
    obtain rfl := List.length_eq_zero_iff.1 hvs
    exact Machine.does_null w

lemma gives_const (c : Compiler) (v : Value) : c.Gives (fun _ w => (v, w)) (c.const v) := by
  obtain ⟨i, he, hi⟩ := emits_const c v
  refine means_operand he rfl fun p s vs w hs hvs => ?_
  obtain rfl := List.length_eq_zero_iff.1 hvs
  exact Machine.does_const
    (get?_toNat_ofNat hs.small.constants (get?_mono hs.grows.constants hi)) w

lemma gives_readVar (c : Compiler) (r : Reference) :
    c.Gives (fun s w => (s.varValue w r.id, w)) (c.variableOp .read r) := by
  obtain ⟨i, x, he, hi, hx⟩ := emits_variableOp c .read r
  refine means_operand he rfl fun p s vs w hs hvs => ?_
  obtain rfl := List.length_eq_zero_iff.1 hvs
  rw [← hx]
  exact Machine.does_readVar (get?_toNat_ofNat hs.small.vars (get?_mono hs.grows.vars hi)) w

lemma means_listOp (c : Compiler) (r : Reference) {op : ListOp} {n : Nat}
    (hn : Machine.listArity op = some n) :
    c.Means n (fun s vs w => ([(Reporter.onList s r.id op vs w).1],
      (Reporter.onList s r.id op vs w).2)) (c.listOp op r) := by
  obtain ⟨i, x, he, hi, hx⟩ := emits_listOp c op r
  refine means_operand he rfl fun p s vs w hs hvs => ?_
  rw [← hx]
  exact Machine.does_list (get?_toNat_ofNat hs.small.lists (get?_mono hs.grows.lists hi))
    (hvs ▸ hn) w

/-- A native that leaves the machine as it is. -/
lemma means_callNative (c : Compiler) {n : Native} (hpops : n.pops = n.arity)
    {v : Scene → List Value → World → Option Value} {e : Scene → List Value → World → World}
    (h : ∀ (m : Machine) s vs w, m.target = s.target → vs.length = n.arity →
      n.run m w (vs[0]?.getD .empty) (vs[1]?.getD .empty) = ⟨m, e s vs w, v s vs w, .go⟩) :
    c.Means n.arity (fun s vs w => ((v s vs w).toList, e s vs w)) (c.callNative n) := by
  obtain ⟨i, he, hi⟩ := emits_callNative c n
  refine means_operand he rfl fun p s vs w hs hvs => ?_
  exact Machine.does_native (get?_toNat_ofNat hs.small.natives (get?_mono hs.grows.natives hi))
    hvs hpops fun m hm => h m s vs w hm hvs

/-- A native that only looks around and gives a value. -/
lemma means_reading (c : Compiler) {n : Native} (hpops : n.pops = n.arity)
    {f : Scene → List Value → World → Value}
    (h : ∀ (m : Machine) s vs w, m.target = s.target → vs.length = n.arity →
      n.run m w (vs[0]?.getD .empty) (vs[1]?.getD .empty) = ⟨m, w, some (f s vs w), .go⟩) :
    c.Means n.arity (fun s vs w => ([f s vs w], w)) (c.callNative n) :=
  means_callNative c hpops h

/-- An argument is read by its position, which the code and the scene agree on. -/
lemma gives_readArgument (c : Compiler) (b : Block) (outside : Value) :
    c.Gives (fun s w => (s.argument (b.fieldValue "VALUE").toText outside, w))
      (c.readArgument b outside) := by
  unfold readArgument
  simp only
  split
  · next i hi =>
    refine means_operand (emits_emitAt c .readArg i) rfl fun p s vs w hs hvs => ?_
    obtain rfl := List.length_eq_zero_iff.1 hvs
    have hsig := (hs.before (emits_emitAt c .readArg i)).signature
    obtain ⟨sig, hsome, hidx⟩ := Option.bind_eq_some_iff.1 hi
    have hlt : i < sig.argumentNames.length := (List.findIdx?_eq_some_iff_getElem.1 hidx).1
    have hword : (UInt32.ofNat i).toNat = i := by
      rw [UInt32.toNat_ofNat']
      exact Nat.mod_eq_of_lt (lt_of_lt_of_le hlt (hs.names sig (hsig.trans hsome)))
    have := Machine.does_readArg (p := p) (s := s) (x := UInt32.ofNat i) w
    rw [hword] at this
    simpa [Scene.argument, hsig, hi] using this
  · next hi =>
    refine (gives_const c outside).congr fun s vs w hsig _ => ?_
    simp [Scene.argument, hsig, hi]

/-! ### Inputs -/

section

variable {d : Descent} {blocks : BlockMap} {b : Block}
  {value : Scene → String → World → Value × World}

/-- Whatever stands for the value of an input is compiled to code that gives its value. -/
def GivesInputs (d : Descent) (blocks : BlockMap) (b : Block)
    (value : Scene → String → World → Value × World) : Prop :=
  ∀ name id, b.holdsStack name = false → b.source blocks name = .block id →
    ∀ c : Compiler, c.Gives (fun s w => value s id w) (d.value id c)

lemma gives_input (h : GivesInputs d blocks b value) {name : String}
    (hn : b.holdsStack name = false) (c : Compiler) :
    c.Gives (fun s w => inputValue blocks s (value s) b name w) (c.input d blocks b name) := by
  rw [input_eq]
  unfold inputValue
  cases hs : b.source blocks name with
  | block id => exact h name id hn hs c
  | value v => exact gives_const c v
  | var r => exact gives_readVar c r
  | list r => exact means_listOp c r rfl
  | nothing => exact gives_null c

lemma means_inputs (palette : Palette) (h : GivesInputs d blocks b value) {names : List String}
    (hn : ∀ name ∈ names, b.holdsStack name = false) (c : Compiler) :
    c.Means 0 (fun s _ w => inputValues blocks s (value s) b names w)
      (c.steps palette d blocks b (names.map .input)) := by
  induction names generalizing c with
  | nil =>
    refine (means_nothing (.refl c) 0).congr fun s vs w _ hvs => ?_
    rw [List.length_eq_zero_iff.1 hvs]
    rfl
  | cons name names ih =>
    obtain ⟨is, hi, hf, hd⟩ := gives_input h (hn name (by simp)) c
    obtain ⟨js, hj, hf', hd'⟩ := ih (fun n hmem => hn n (List.mem_cons_of_mem _ hmem))
      (c.input d blocks b name)
    refine ⟨is ++ js, hi.trans hj, hf.append hf', fun p s hs vs w hvs => ?_⟩
    obtain rfl := List.length_eq_zero_iff.1 hvs
    -- the first value lies below the others while these are evaluated
    exact (hd p s (hs.before hj) [] w rfl).trans
      ((hd' p s hs [] _ rfl).under [(inputValue blocks s (value s) b name w).1])

/-- A block that evaluates its inputs and then does one thing with them. -/
lemma gives_after_inputs (palette : Palette) (h : GivesInputs d blocks b value)
    {names : List String} (hn : ∀ name ∈ names, b.holdsStack name = false) {c c' : Compiler}
    {f : Scene → List Value → World → Value × World}
    (hf : (c.steps palette d blocks b (names.map .input)).Means names.length
      (fun s vs w => ([(f s vs w).1], (f s vs w).2)) c') :
    c.Gives (fun s w =>
      f s (inputValues blocks s (value s) b names w).1
        (inputValues blocks s (value s) b names w).2) c' :=
  (means_inputs palette h hn c).trans (fun s vs w _ => by simp) hf

end

/-! ### Reporters -/

/-- The steps of the block with a choice of functions. -/
lemma mathPlan_eq (text : String) :
    ((Palette.builtin.option? "OPERATOR" text).bind fun n => MathChoice.options.lookup n) =
      (MathChoice.table.lookup text).map fun f => [.input "NUM", f.step] := by
  have hsome : ∀ e ∈ MathChoice.table, ((Palette.builtin.option? "OPERATOR" e.1).bind fun n =>
      MathChoice.options.lookup n) = some [.input "NUM", e.2.step] := by decide
  have hnames : ∀ s ∈ Palette.builtin.sections, ∀ e ∈ s.options, e.1.1 = "OPERATOR" →
      (MathChoice.table.lookup e.1.2).isSome := by decide
  cases ht : MathChoice.table.lookup text with
  | some f => exact hsome (text, f) (mem_of_lookup ht)
  | none =>
    have hnone : Palette.builtin.option? "OPERATOR" text = none := by
      rw [Palette.option?, List.findSome?_eq_none_iff]
      intro s hs
      cases ho : s.options.lookup ("OPERATOR", text) with
      | none => rfl
      | some n =>
        have := hnames s hs _ (mem_of_lookup ho) rfl
        simp [ht] at this
    rw [hnone]
    rfl

end Compiler

namespace Reporter

/-- A list reporter has as many inputs as its instruction takes. -/
def isFit : Reporter → Bool
  | .list inputs op => Machine.listArity op == some inputs.length
  | _ => true

lemma isFit_of_mem : ∀ e ∈ Reporter.table, e.2.isFit = true := by decide

lemma not_holdsStack_of_mem : ∀ e ∈ table,
    (Palette.control.recipes.lookup e.1).isSome = false ∧
      (e.1 == "procedures_definition") = false := by
  decide

lemma not_holdsStack {b : Block} {r : Reporter} (h : of? b.opcode = some r) (name : String) :
    b.holdsStack name = false := by
  obtain ⟨h1, h2⟩ := not_holdsStack_of_mem _ (mem_of_lookup h)
  rw [Block.holdsStack, Block.isControl, h1, h2]
  rfl

end Reporter

namespace Compiler

lemma recipe_math (d : Descent) (blocks : BlockMap) (b : Block) (c : Compiler) :
    c.recipe .builtin d blocks b Reporter.math.recipe =
      c.steps .builtin d blocks b
        ((b.mathChoice?.map fun f => [.input "NUM", f.step]).getD [.const (.number 0)]) := by
  simp only [Reporter.recipe, recipe, Block.mathChoice?]
  cases b.field? "OPERATOR" with
  | none => rfl
  | some f =>
    simp only [Option.bind_some, ← mathPlan_eq]
    rfl

section

variable {d : Descent} {blocks : BlockMap} {b : Block}
  {value : Scene → String → World → Value × World}

lemma steps_onVariable (c : Compiler) {f : Field} (hf : b.field? Recipe.variableField = some f)
    (names : List String) (op : VariableOp) :
    c.steps .builtin d blocks b (.variableEntry :: names.map .input ++ [.var op]) =
      ((c.internVariable f.reference).2.steps .builtin d blocks b (names.map .input)).variableOp op
        f.reference := by
  rw [List.cons_append, steps_cons, steps_append]
  simp [step, hf]

lemma steps_onList (c : Compiler) {f : Field} (hf : b.field? Recipe.listField = some f)
    (names : List String) (op : ListOp) :
    c.steps .builtin d blocks b (.listEntry :: names.map .input ++ [.list op]) =
      ((c.internList f.reference).2.steps .builtin d blocks b (names.map .input)).listOp op
        f.reference := by
  rw [List.cons_append, steps_cons, steps_append]
  simp [step, hf]

/-- The code of a reporter gives what the reporter makes of the values of its inputs. -/
def GivesReporter (d : Descent) (blocks : BlockMap) (b : Block)
    (value : Scene → String → World → Value × World) (r : Reporter) (c : Compiler) : Prop :=
  c.Gives (fun s w => r.apply s b (inputValues blocks s (value s) b (r.inputs b) w).1
    (inputValues blocks s (value s) b (r.inputs b) w).2) (c.recipe .builtin d blocks b r.recipe)

/-- Without a choice the input is not even evaluated. -/
lemma gives_math (h : GivesInputs d blocks b value) (hn : b.holdsStack "NUM" = false)
    (c : Compiler) : GivesReporter d blocks b value .math c := by
  unfold GivesReporter
  rw [recipe_math]
  cases hm : b.mathChoice? with
  | none =>
    refine (gives_const c (.number 0)).congr fun s vs w _ _ => ?_
    simp [Reporter.inputs, hm, inputValues, Reporter.apply]
  | some f =>
    simp only [Reporter.inputs, hm, Option.isSome_some, if_true]
    refine gives_after_inputs .builtin h (by simpa using hn) ?_
    cases f with
    | unary f =>
      refine means_emit _ rfl fun p s vs w hvs => ?_
      obtain ⟨x, rfl⟩ := List.length_eq_one_iff.1 hvs
      simpa [Reporter.apply, hm, MathChoice.apply] using Machine.does_unary f x w
    | other f =>
      refine (means_reading _ rfl fun m s vs w _ _ => rfl).congr fun s vs w _ hvs => ?_
      obtain ⟨x, rfl⟩ := List.length_eq_one_iff.1 hvs
      simp [Reporter.apply, hm, MathChoice.apply]

/-- The property is a constant below the object. -/
lemma gives_attributeOf (h : GivesInputs d blocks b value) (hn : b.holdsStack "OBJECT" = false)
    (c : Compiler) : GivesReporter d blocks b value .attributeOf c := by
  have hprop := gives_const c (b.fieldValue "PROPERTY")
  have hobj := (gives_input h hn (c.const (b.fieldValue "PROPERTY"))).onTop 1
  have hcall : Means _ 2 _ (((c.const (b.fieldValue "PROPERTY")).input d blocks b
      "OBJECT").callNative .attributeOf) := means_reading _ rfl fun m s vs w _ _ => rfl
  exact ((hprop.trans (fun _ _ _ _ => rfl) hobj).trans (fun _ _ _ _ => rfl) hcall).congr
    fun s vs w _ _ => rfl

lemma gives_var (c : Compiler) : GivesReporter d blocks b value .var c := by
  simp only [GivesReporter, Reporter.recipe, Recipe.onVariable, recipe]
  cases hf : b.field? Recipe.variableField with
  | none =>
    refine (gives_null c).congr fun s vs w _ _ => ?_
    simp [Reporter.inputs, inputValues, Reporter.apply, hf]
  | some f =>
    have hentry := means_nothing (emits_internVariable c f.reference) 0
    have hread := gives_readVar (c.internVariable f.reference).2 f.reference
    have hcode : c.steps .builtin d blocks b [.variableEntry, .var .read] =
        (c.internVariable f.reference).2.variableOp .read f.reference :=
      steps_onVariable c hf [] .read
    simp only [Option.isSome_some, if_true]
    change c.Gives _ (c.steps .builtin d blocks b [.variableEntry, .var .read])
    rw [hcode]
    refine (hentry.trans (fun _ _ _ h => h) hread).congr fun s vs w _ _ => ?_
    simp [Reporter.apply, hf, Reporter.inputs, inputValues]

/-- Without a field for the list the inputs are not evaluated. -/
lemma gives_list (h : GivesInputs d blocks b value) {names : List String} {op : ListOp}
    (hn : ∀ name ∈ names, b.holdsStack name = false)
    (harity : Machine.listArity op = some names.length) (c : Compiler) :
    GivesReporter d blocks b value (.list names op) c := by
  simp only [GivesReporter, Reporter.recipe, Recipe.onList, recipe]
  cases hf : b.field? Recipe.listField with
  | none =>
    refine (gives_null c).congr fun s vs w _ _ => ?_
    simp [Reporter.inputs, inputValues, Reporter.apply, hf]
  | some f =>
    have hentry := means_nothing (emits_internList c f.reference) 0
    have hread := gives_after_inputs .builtin h hn
      (means_listOp ((c.internList f.reference).2.steps .builtin d blocks b
        (names.map .input)) f.reference harity)
    simp only [Option.isSome_some, if_true, steps_onList c hf]
    refine (hentry.trans (fun _ _ _ h => h) hread).congr fun s vs w _ _ => ?_
    simp [Reporter.apply, hf, Reporter.inputs]

lemma gives_reporter (h : GivesInputs d blocks b value) {r : Reporter}
    (hr : Reporter.of? b.opcode = some r) (c : Compiler) : GivesReporter d blocks b value r c := by
  have hn := Reporter.not_holdsStack hr
  cases r with
  | unary a f =>
    refine gives_after_inputs .builtin h (fun _ _ => hn _)
      (means_emit _ rfl fun p s vs w hvs => ?_)
    obtain ⟨x, rfl⟩ := List.length_eq_one_iff.1 hvs
    exact Machine.does_unary f x w
  | binary a a' f =>
    refine gives_after_inputs .builtin h (fun _ _ => hn _)
      (means_emit _ rfl fun p s vs w hvs => ?_)
    obtain ⟨x, y, rfl⟩ := List.length_eq_two.1 hvs
    exact Machine.does_binary f x y w
  | random a a' =>
    refine gives_after_inputs .builtin h (fun _ _ => hn _)
      (means_emit _ rfl fun p s vs w hvs => ?_)
    obtain ⟨x, y, rfl⟩ := List.length_eq_two.1 hvs
    exact Machine.does_random x y w
  | math => exact gives_math h (hn _) c
  | reading q =>
    have hm : c.Means 0 (fun s _ w => ([Native.read q w s.target], w))
        (c.callNative (.reading q)) :=
      means_reading c rfl fun m s vs w ht _ => by rw [Native.run, ht]
    exact hm.congr fun s vs w _ _ => rfl
  | keyPressed =>
    have hkey : ∀ name ∈ ["KEY_OPTION"], b.holdsStack name = false := fun _ _ => hn _
    refine gives_after_inputs .builtin h hkey ?_
    refine (means_reading _ rfl fun m s vs w _ _ => rfl).congr fun s vs w _ hvs => ?_
    obtain ⟨x, rfl⟩ := List.length_eq_one_iff.1 hvs
    rfl
  | attributeOf => exact gives_attributeOf h (hn _) c
  | var => exact gives_var c
  | list names op =>
    have hfit := Reporter.isFit_of_mem _ (mem_of_lookup hr)
    exact gives_list h (fun _ _ => hn _) (by simpa [Reporter.isFit] using hfit) c
  | argument outside => exact gives_readArgument c b outside

end

/-- The code of a block that is no command gives the value of the block. -/
lemma gives_value {blocks : BlockMap} (hk : blocks.ValuesKinded) (ha : blocks.Acyclic)
    {fuel depth : Nat} {id : String} (hfuel : blocks.rank id < fuel)
    (hdepth : blocks.rank id < depth)
    (hid : ∀ x, blocks.get? id = some x → Palette.isCommand x.opcode = false) (c : Compiler) :
    c.Gives (fun s w => evaluateTo blocks s depth id w)
      ((descend .builtin blocks fuel).value id c) := by
  induction fuel generalizing depth id c with
  | zero => omega
  | succ fuel ih =>
    obtain ⟨depth, rfl⟩ : ∃ k, depth = k + 1 := ⟨depth - 1, by omega⟩
    simp only [descend, value, evaluateTo]
    cases hb : blocks.get? id with
    | none => exact gives_null c
    | some b =>
      simp only
      cases hr : Reporter.of? b.opcode with
      | some r =>
        rw [Reporter.recipe?_of_reporter hr]
        refine gives_reporter (fun name id' hn hs c' => ?_) hr c
        have hlt := BlockMap.rank_lt ha (BlockMap.leads_of_source hb hs)
        exact ih (by omega) (by omega) (fun x hx => hk.value hb hn hs hx) c'
      | none =>
        rw [Palette.recipe?_of_neither (hid b hb) hr]
        have hmark := means_nothing (emits_markUnsupported c .builtin blocks id) 0
        exact (hmark.trans (fun _ _ _ h => h) (gives_null _)).congr fun s vs w _ _ => rfl

/-- Deeper evaluation changes nothing. -/
lemma gives_evaluate {blocks : BlockMap} (hk : blocks.ValuesKinded) (ha : blocks.Acyclic)
    {fuel : Nat} {id : String} (hfuel : blocks.rank id < fuel)
    (hid : ∀ x, blocks.get? id = some x → Palette.isCommand x.opcode = false) (c : Compiler) :
    c.Gives (fun s w => evaluate blocks s id w) ((descend .builtin blocks fuel).value id c) :=
  gives_value hk ha hfuel (Nat.lt_succ_of_le (BlockMap.rank_le blocks id)) hid c

end Compiler

/-! ### Running a reporter -/

lemma Compiler.compile_eq_framed {c : Compiler} {blocks : BlockMap} {id : String} {mode : Mode}
    {is : List Instruction}
    (h : ((c.fresh.emit .start).root .builtin blocks id mode).code =
      (c.fresh.emit .start).code ++ is) :
    (c.compile .builtin blocks id mode).1 = .ofInstructions (Code.framed is) := by
  have hcode : (((c.fresh.emit .start).root .builtin blocks id mode).emit .halt).code =
      Code.framed is := by
    rw [(emits_emit _ .halt).code, h]
    rfl
  rw [Code.ofInstructions, ← hcode]
  rfl

namespace Machine

/-- A new machine is at work on the scene of its target. -/
lemma acts_new (p : Program) (target : TargetId) (w : World) :
    Acts p (.new target (new p target w).2.targets) ((new p target w).1.reset .main) := by
  obtain ⟨hv, hl⟩ := new_slots p target w
  refine ⟨rfl, rfl, rfl, fun i r hr => ?_, fun i r hr => ?_, rfl⟩
  · simp only [Scene.new, Shelf.resolveVariable_eq]
    exact hv i r hr
  · simp only [Scene.new, Shelf.resolveList_eq]
    exact hl i r hr

/-- Code that pushes one value runs to the end of its script and leaves that value. -/
lemma runs_framed {p : Program} {s : Scene} {is : List Instruction} {m : Machine} {w w' : World}
    {v : Value} {call : Call} (hp : p.Holds m.routine (Code.framed is)) (ha : m.address = 0)
    (hm : Acts p s m) (hc : m.calls = [call]) (hst : m.stack = [])
    (h : Does p s is [] w [v] w') :
    Runs p (m, w) ((m.put (Code.extent (Code.framed is)) [v]).finish, w') := by
  have hbody := ((does_start w).trans h) [] [⟨.halt, []⟩] m [] hp ha hm hst
  have hhalt := @runs_halt p (m.put (Code.extent (⟨.start, []⟩ :: is)) [v])
    (⟨.start, []⟩ :: is) [] hp rfl hm.running w'
  have hstop : ∀ m' : Machine, m'.calls = [call] → m'.stopScript = m'.finish := by
    intro m' h'
    simp only [stopScript, h']
  rw [← hstop (m.put _ [v]) hc]
  exact hbody.trans hhalt

end Machine

namespace Thread

/-- What it means that evaluating a thread's script in a world gives a value and a new world. -/
structure Reports (t : Thread) (fuel : Nat) (w : World) (v : Value) (w' : World) : Prop where
  value : (t.runReporter fuel w).1 = v
  world : (t.runReporter fuel w).2.2 = w'
  /-- One slice is enough, and it leaves nothing but the value. -/
  pass : ((t.machine.reset .main).run fuel t.program { w with currentThread := t.id }).1.status =
      .finished ∧
    ((t.machine.reset .main).run fuel t.program { w with currentThread := t.id }).1.stack = [v]
  targets : w'.targets = w.targets
  questions : w'.questions = w.questions
  requests : w'.requests = w.requests
  /-- Evaluated again with the same readings of the host, it gives the same value. -/
  again : ((t.runReporter fuel w).2.1.runReporter fuel
    { (t.runReporter fuel w).2.2 with host := w.host }).1 = v

/-- A slice that leaves a value gives it, now and whenever the host reads the same again. -/
lemma reports_of_run {t : Thread} {fuel : Nat} {w w' : World} {m : Machine} {v : Value}
    (hrun : (t.machine.reset .main).run fuel t.program { w with currentThread := t.id } = (m, w'))
    (hm : m.status = .finished) (hst : m.stack = [v])
    (hslots : m.target = t.machine.target ∧ m.vars = t.machine.vars ∧ m.lists = t.machine.lists)
    (hd : World.Draws { w with currentThread := t.id } w') : t.Reports fuel w v w' := by
  have heval : ∀ (t' : Thread) (w₁ : World), t'.id = t.id → t'.program = t.program →
      t'.machine.reset .main = t.machine.reset .main →
      { w₁ with currentThread := t.id } = { w with currentThread := t.id } →
      t'.runReporter fuel w₁ = (v, { t' with machine := m.finish }, w') := by
    intro t' w₁ hid hp hr hw
    have hs : slices fuel t.program maxPasses (t.machine.reset .main)
        { w with currentThread := t.id } = (m, w') := by
      rw [maxPasses, slices, hrun]
      simp [hm]
    rw [runReporter, evaluate, hid, hp, hr, hw, hs]
    simp [Machine.isFinished, Machine.isFaulted, Machine.result?, hm, hst]
  have hfirst := heval t w rfl rfl rfl rfl
  have hreset : m.finish.reset .main = t.machine.reset .main := by
    obtain ⟨h1, h2, h3⟩ := hslots
    simp [Machine.reset, Machine.finish, h1, h2, h3]
  have hagain := heval { t with machine := m.finish } { w' with host := w.host } rfl rfl hreset
  obtain ⟨draws, hw'⟩ := hd
  refine ⟨by rw [hfirst], by rw [hfirst], ⟨by rw [hrun, hm], by rw [hrun, hst]⟩,
    by rw [hw'], by rw [hw'], by rw [hw'], ?_⟩
  simp only [hfirst]
  rw [hagain (by rw [hw'])]

/-- **Reporters**: in a map without cycles where no command stands for a value, evaluating the code
of a block that is no command gives the value of the block, in one slice that leaves nothing else on
the stack, draws the same random numbers in the same order and changes nothing, whatever has been
compiled with the same compiler before and after, and whatever has happened to the world since the
thread was made. What stands in the stacks of the map does not matter. -/
theorem runReporter_correct {blocks : BlockMap} (hk : blocks.ValuesKinded) (ha : blocks.Acyclic)
    {root : String}
    (hroot : ∀ b, blocks.get? root = some b → Palette.isCommand b.opcode = false)
    (before later : List (String × Compiler.Mode)) (predicate : Option Code) (id : ThreadId)
    (script : Nat) (target : TargetId) (w w₁ : World) :
    let c := Compiler.new.compileAll .builtin blocks before
    let unit := c.compile .builtin blocks root .reporter
    let p : Program := ⟨unit.1, predicate, (unit.2.compileAll .builtin blocks later).tables⟩
    let made := Thread.new id script p target w
    let expected := Blockwork.evaluate blocks (.new target made.2.targets) root
      { w₁ with currentThread := id }
    p.tables.Small → ∃ n, ∀ fuel ≥ n, made.1.Reports fuel w₁ expected.1 expected.2 := by
  intro c unit p made expected hsmall
  have hfuel : blocks.rank root < Compiler.depth blocks := by
    have := BlockMap.rank_le blocks root
    unfold Compiler.depth
    omega
  obtain ⟨is, hi, hf, hd⟩ := Compiler.gives_evaluate hk ha hfuel hroot (c.fresh.emit .start)
  -- the unit is the code of the root between its start and its end
  have hmain : p.Holds .main (Code.framed is) :=
    ⟨congrArg some (Compiler.compile_eq_framed hi.code), Code.allFull_framed hf⟩
  have hgrows : ((c.fresh.emit .start).root .builtin blocks root .reporter).tables.Grows
      p.tables :=
    (Compiler.grows_end c blocks root .reporter).trans (Compiler.grows_compileAll _ blocks later)
  have hsuits : ((c.fresh.emit .start).root .builtin blocks root .reporter).Suits p
      (.new target made.2.targets) :=
    ⟨hgrows, hsmall, hi.signature.symm, by simp [Scene.new]⟩
  have hacts := Machine.acts_new p target w
  have hruns := Machine.runs_framed hmain rfl hacts rfl rfl
    (hd p _ hsuits [] { w₁ with currentThread := id } rfl)
  obtain ⟨n, hn⟩ := Machine.run_of_runs hacts.running hruns rfl
  exact ⟨n, fun fuel hfuel => reports_of_run (hn fuel hfuel) rfl rfl ⟨rfl, rfl, rfl⟩
    (draws_evaluateTo _ _ _ _ _)⟩

/-- Joins the length of a text with what lies under a block that does not exist. -/
def joinedLength : BlockMap := .ofList [
  ("join", { id := "join", opcode := "operator_join"
             inputs := .ofList [("STRING1", { value := some (.block "length") }),
               ("STRING2", { value := some (.block "gone"), shadow := some (.value (.text "!")) })] }),
  ("length", { id := "length", opcode := "operator_length"
               inputs := .ofList [("STRING", { value := some (.value (.text "abc")) })] })]

/-- The length of the text is evaluated first, and the shadow stands for the missing block. -/
theorem runReporter_joinedLength :
    let unit := Compiler.new.compile .builtin joinedLength "join" .reporter
    let made := Thread.new 0 0 ⟨unit.1, none, unit.2.tables⟩ ⟨0, 0⟩ {}
    ∃ n, ∀ fuel ≥ n, made.1.Reports fuel {} (.text "3!") {} := by
  have hacyclic : joinedLength.Acyclic :=
    BlockMap.acyclic_of_falling (fun id => if id = "join" then 1 else 0) (by decide +kernel)
  have hroot : ∀ b ∈ joinedLength.get? "join", Palette.isCommand b.opcode = false := by
    decide +kernel
  have hvalue : (Blockwork.evaluate joinedLength (.new ⟨0, 0⟩ .empty) "join" {}).1 =
      .text "3!" := by
    decide +kernel
  have h := runReporter_correct (by decide +kernel) hacyclic hroot [] [] none 0 0 ⟨0, 0⟩ {} {}
    (by decide +kernel)
  rw [← hvalue]
  exact h

end Thread

end Blockwork
