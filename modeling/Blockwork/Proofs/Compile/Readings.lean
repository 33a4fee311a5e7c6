import Blockwork.Proofs.Compile.Discipline

/-!
The code of a value only reads. Each of its lines takes some operands and gives one; no such
instruction writes to a variable or a list, and of the natives only those give a value that report.
So it is enough to follow the descent of the compiler and to count what each line gives.
-/

namespace Blockwork

namespace Recipe

/-- Every step gives one operand, but for those that only enter something into the tables. -/
def isReading (ss : List Step) : Bool :=
  ss.all fun s => s.gives == 1 || s == .variableEntry || s == .listEntry

end Recipe

namespace Palette

lemma reading_of_reporter : ∀ e ∈ Reporter.table, ∀ ss ∈ e.2.recipe.plans,
    Recipe.isReading ss = true := by
  decide +kernel

lemma reading_of_predicate : ∀ s ∈ builtin.sections, ∀ e ∈ s.predicates, ∀ ss ∈ e.2.plans,
    Recipe.isReading ss = true := by
  decide +kernel

end Palette

namespace Compiler

/-- Each line gives one operand. -/
def Yields (t : Tables) (ls : List Line) : Prop := ∀ l ∈ ls, l.instruction.gives t = 1

section

variable {t : Tables} {blocks : BlockMap} {fuel : Nat} {id : String} {b : Block}

lemma yields_nil : Yields t [] := fun _ hl => (List.not_mem_nil hl).elim

lemma Yields.append {xs ys : List Line} (hx : Yields t xs) (hy : Yields t ys) :
    Yields t (xs ++ ys) := by
  intro l hl
  rcases List.mem_append.1 hl with hl | hl
  · exact hx l hl
  · exact hy l hl

lemma yields_nothing {c c' : Compiler} (he : c.Emits [] c') (id : Option String) :
    Yields t (added id c c') := by
  rw [added_of_code he.code]
  exact yields_nil

lemma yields_one {c c' : Compiler} {i : Instruction} (he : c.Emits [i] c') (hg : i.gives t = 1)
    (id : Option String) : Yields t (added id c c') := by
  rw [added_of_code he.code]
  simpa [Yields] using hg

lemma yields_opcode {c c' : Compiler} {i : Instruction} (he : c.Emits [i] c')
    (hg : i.opcode.gives = 1) (id : Option String) : Yields t (added id c c') := by
  refine yields_one he ?_ id
  rw [Instruction.gives_of_ne, hg]
  intro hx
  rw [hx] at hg
  cases hg

lemma yields_const (c : Compiler) (v : Value) (id : Option String) :
    Yields t (added id c (c.const v)) := by
  obtain ⟨i, he, -⟩ := emits_const c v
  exact yields_opcode he rfl id

lemma yields_null (c : Compiler) (id : Option String) : Yields t (added id c (c.emit .null)) :=
  yields_opcode (emits_emit c .null) rfl id

lemma yields_variableOp (c : Compiler) {op : VariableOp} (r : Reference)
    (hg : (Opcode.var op).gives = 1) (id : Option String) :
    Yields t (added id c (c.variableOp op r)) := by
  obtain ⟨i, x, he, -⟩ := emits_variableOp c op r
  exact yields_opcode he hg id

lemma yields_listOp (c : Compiler) {op : ListOp} (r : Reference) (hg : (Opcode.list op).gives = 1)
    (id : Option String) : Yields t (added id c (c.listOp op r)) := by
  obtain ⟨i, x, he, -⟩ := emits_listOp c op r
  exact yields_opcode he hg id

lemma yields_readArgument (outside : Value) (c : Compiler) :
    Yields t (added id c (c.readArgument b outside)) := by
  unfold readArgument
  simp only
  split
  · exact yields_opcode (emits_emitAt c .readArg _) rfl id
  · exact yields_const c outside id

/-! ### Inputs and steps -/

variable (blocks fuel id b t) in
/-- The lines of an input only read. -/
def YieldsInput (name : String) : Prop :=
  ∀ c : Compiler, (c.input (descend .builtin blocks fuel) blocks b name).tables.Grows t →
    Yields t
      (inputLines (descend .builtin blocks fuel) (trace .builtin blocks fuel) blocks id b c name)

lemma yields_step (ht : t.Tidy) {s : Recipe.Step}
    (hs : s.gives = 1 ∨ s = .variableEntry ∨ s = .listEntry)
    (hin : ∀ name ∈ s.input?, YieldsInput t blocks fuel id b name) (c : Compiler)
    (hg : (afterStep blocks fuel b c s).tables.Grows t) : Yields t (lineOf blocks fuel id b c s) := by
  rcases hs with hone | rfl | rfl
  · cases s with
    | input name => exact hin name rfl c hg
    | condition name =>
      have hgood := hin name rfl c
      simp only [lineOf, afterStep, stepLines, step] at hg ⊢
      rcases condition_cases .builtin blocks b (descend .builtin blocks fuel) c name with he | he <;>
        rw [he] at hg ⊢
      · exact (hgood hg).append (yields_nothing (.refl _) id)
      · refine (hgood hg).append ?_
        rw [added_of_code (emits_not_not _).code]
        simp [Yields, Instruction.gives_of_ne, Opcode.gives]
    | const v => exact yields_const c v id
    | field name => exact yields_const c _ id
    | emit op => exact yields_opcode (emits_emit c op) hone id
    | call n =>
      obtain ⟨i, he, hi⟩ := emits_callNative c n
      refine yields_one he ?_ id
      rw [Instruction.gives_of_native (native?_callNative ht hi hg)]
      exact hone
    | var op =>
      simp only [lineOf, stepLines, step]
      split
      · exact yields_variableOp c _ hone id
      · exact yields_nothing (.refl c) id
    | list op =>
      simp only [lineOf, stepLines, step]
      split
      · exact yields_listOp c _ hone id
      · exact yields_nothing (.refl c) id
    | body | loopBody | variableEntry | listEntry => cases hone
  · simp only [lineOf, stepLines, step]
    split
    · exact yields_nothing (emits_internVariable c _) id
    · exact yields_nothing (.refl c) id
  · simp only [lineOf, stepLines, step]
    split
    · exact yields_nothing (emits_internList c _) id
    · exact yields_nothing (.refl c) id

lemma yields_steps (ht : t.Tidy) {ss : List Recipe.Step}
    (hs : ∀ s ∈ ss, s.gives = 1 ∨ s = .variableEntry ∨ s = .listEntry)
    (hin : ∀ s ∈ ss, ∀ name ∈ s.input?, YieldsInput t blocks fuel id b name) (c : Compiler)
    (hg : (afterSteps blocks fuel b c ss).tables.Grows t) :
    Yields t (linesOf blocks fuel id b c ss) := by
  induction ss generalizing c with
  | nil => exact yields_nil
  | cons s ss ih =>
    obtain ⟨hfirst, hrest⟩ := List.forall_mem_cons.1 hs
    obtain ⟨hin, hins⟩ := List.forall_mem_cons.1 hin
    have hwarp : Recipe.Step.emit .warp ∉ ss := fun hmem => by
      rcases hrest _ hmem with h | h | h <;> cases h
    exact (yields_step ht hfirst hin c ((grows_steps hwarp _).trans hg)).append (ih hrest hins _ hg)

/-! ### Values -/

lemma yields_recipe (ht : t.Tidy) {r : Recipe}
    (hr : Palette.builtin.recipe? b.opcode = some r ∨ Palette.builtin.predicate? b.opcode = some r)
    (hplans : ∀ ss ∈ r.plans, Recipe.isReading ss = true) (hcall : r ≠ .call) (hdef : r ≠ .definition)
    (hin : ∀ name, b.holdsStack name = false → YieldsInput t blocks fuel id b name) (c : Compiler)
    (hg : (c.recipe .builtin (descend .builtin blocks fuel) blocks b r).tables.Grows t) :
    Yields t (recipeLines .builtin (descend .builtin blocks fuel) (trace .builtin blocks fuel) blocks
      id b c r) := by
  have hplan : ∀ ss, r.plan? .builtin b = some ss → (afterSteps blocks fuel b c ss).tables.Grows t →
      Yields t (linesOf blocks fuel id b c ss) := by
    intro ss hss hg
    have hhas : b.HasPlan ss := ⟨r, hr, hss⟩
    refine yields_steps ht (fun s hs => ?_) (fun s hs name hn => hin name (hhas.not_holdsStack hs hn))
      c hg
    have := List.all_eq_true.1 (hplans ss (Recipe.mem_plans hss)) s hs
    simpa [or_assoc] using this
  cases r with
  | steps ss => exact hplan ss rfl hg
  | needs field ss otherwise => exact hplan _ rfl hg
  | choose field options otherwise => exact hplan _ rfl hg
  | definition => exact absurd rfl hdef
  | call => exact absurd rfl hcall
  | argument outside => exact yields_readArgument outside c

lemma yields_values (ht : t.Tidy) (blocks : BlockMap) :
    HoldsOfValues t blocks fun _ ls _ => Yields t ls where
  const id c v := yields_const c v id
  var id c r := yields_variableOp c r rfl id
  list id c r := yields_listOp c r rfl id
  null id c := yields_null c id
  unknown id c :=
    yields_opcode ((emits_markUnsupported c .builtin blocks id).trans (emits_emit _ .null)) rfl id
  recipe := by
    rintro fuel id b r - (⟨hr, hrep⟩ | hr) hin c hg
    · obtain ⟨x, hx⟩ := Option.isSome_iff_exists.1 hrep
      obtain ⟨-, hcall, hdef⟩ := reports_of_reporter hr hrep
      obtain rfl : x.recipe = r := Option.some.inj ((Reporter.recipe?_of_reporter hx).symm.trans hr)
      exact yields_recipe ht (Or.inl hr) (Palette.reading_of_reporter _ (mem_of_lookup hx)) hcall hdef
        hin c hg
    · obtain ⟨hcall, hdef⟩ := plain_of_predicate hr
      obtain ⟨sec, hsec, hlook⟩ := List.exists_of_findSome?_eq_some hr
      exact yields_recipe ht (Or.inr hr)
        (Palette.reading_of_predicate sec hsec _ (mem_of_lookup hlook)) hcall hdef hin c hg

/-- An input of a block within reach. -/
lemma yieldsInput (ht : t.Tidy) (hk : blocks.ValuesKinded) (hac : blocks.Acyclic)
    (hb : blocks.get? id = some b) (hrank : blocks.rank id ≤ fuel) {name : String}
    (hn : b.holdsStack name = false) : YieldsInput t blocks fuel id b name :=
  (yields_values ht blocks).input hk hac hb hrank hn

end

section

variable {strict : Bool} {p : Program} {blocks : BlockMap} {ls : List Line}

/-- Between its start and its end, the condition of a hat only reads, and it leaves one operand. -/
lemma exists_reading (hk : blocks.ValuesKinded) (hac : blocks.Acyclic)
    (h : p.Laid strict blocks .predicate ls) :
    ∃ first seg last, ls = first :: (seg ++ [last]) ∧ first.opcode = .start ∧ last.opcode = .halt ∧
      Yields p.tables seg ∧ Code.shape p.tables (codeOf [first]) = .blank ∧
      (Code.shape p.tables (codeOf (first :: seg))).origins.length = 1 := by
  obtain ⟨c, id, mode, hcompiled, rfl⟩ := h.unit
  obtain ⟨⟨code, hcode, hu⟩, hmode⟩ := hcompiled
  have hmode : mode = .predicate := hmode
  subst hmode
  obtain ⟨hgrows, ht⟩ := hu.listed
  have hyields := (yields_values ht blocks).condition hk hac (c.fresh.emit .start) hgrows
  have heval := evaluates_condition ht hk hac (c.fresh.emit .start) hgrows
  have hstart : Code.shape p.tables (codeOf [bracket none .start c.fresh]) = .blank := rfl
  refine ⟨_, rootLines .builtin blocks id .predicate (c.fresh.emit .start), _,
    listing_eq c id .predicate, rfl, rfl, hyields, hstart, ?_⟩
  rw [← List.singleton_append, codeOf, List.map_append, ← codeOf, ← codeOf, heval.pushes.shape]
  exact congrArg (fun s : Shape => s.origins.length + 1) hstart

lemma yields_laid (hk : blocks.ValuesKinded) (hac : blocks.Acyclic)
    (h : p.Laid strict blocks .predicate ls) :
    ∀ l ∈ ls, l.opcode = .start ∨ l.opcode = .halt ∨ l.instruction.gives p.tables = 1 := by
  obtain ⟨first, seg, last, rfl, hfirst, hlast, hyields, -, -⟩ := exists_reading hk hac h
  intro l hl
  simp only [List.mem_cons, List.mem_append, List.not_mem_nil, or_false] at hl
  rcases hl with rfl | hl | rfl
  · exact Or.inl hfirst
  · exact Or.inr (Or.inr (hyields l hl))
  · exact Or.inr (Or.inl hlast)

end

end Compiler

end Blockwork
