import Blockwork.Palette.Builtin
import Blockwork.Proofs.Code.Nesting
import Blockwork.Proofs.Compile.Listing

/-!
The shape of what recipes emit. A recipe either evaluates and emits in a straight line, or it puts
stacks of blocks between matching brackets; so whatever the blocks refer to, if that is emitted in
good shape then so is the block. Nothing is asked of the blocks: they may refer to each other in
any way.
-/

namespace Blockwork

/-! ### Operands -/

/-- The operand is a position in the table that the opcode reads. -/
def Instruction.Valid (t : Tables) (i : Instruction) : Prop :=
  ∀ x ∈ i.operands,
    match i.opcode with
    | .const => x.toNat < t.constants.length
    | .var _ => x.toNat < t.vars.length
    | .list _ => x.toNat < t.lists.length
    | .exec => x.toNat < t.natives.length
    | .callProcedure => x.toNat < t.procedureCodes.length ∧ x.toNat < t.procedures.length
    | _ => True

lemma Instruction.Valid.mono {s t : Tables} {i : Instruction} (h : i.Valid s)
    (hg : s.Grows t) : i.Valid t := by
  intro x hx
  have := h x hx
  rcases i with ⟨op, xs⟩
  cases op <;> simp only at this ⊢
  case const => exact lt_of_lt_of_le this hg.constants.length_le
  case var => exact lt_of_lt_of_le this hg.vars.length_le
  case list => exact lt_of_lt_of_le this hg.lists.length_le
  case exec => exact lt_of_lt_of_le this hg.natives.length_le
  case callProcedure =>
    exact ⟨lt_of_lt_of_le this.1 hg.codes.length_le, lt_of_lt_of_le this.2 hg.places⟩

/-- A word holds a position or, past the range of words, a smaller one. -/
lemma toNat_ofNat_lt {i n : Nat} (h : i < n) : (UInt32.ofNat i).toNat < n := by
  rw [UInt32.toNat_ofNat']
  exact lt_of_le_of_lt (Nat.mod_le _ _) h

lemma lt_of_get? {α : Type} {xs : List α} {i : Nat} {a : α} (h : xs[i]? = some a) :
    i < xs.length :=
  (List.getElem?_eq_some_iff.1 h).1

/-- Within the range of words it holds the position itself. -/
lemma get?_toNat_ofNat {α : Type} {xs : List α} {i : Nat} {a : α} (hs : xs.length ≤ UInt32.size)
    (h : xs[i]? = some a) : xs[(UInt32.ofNat i).toNat]? = some a := by
  have hi : (UInt32.ofNat i).toNat = i := by
    rw [UInt32.toNat_ofNat']
    exact Nat.mod_eq_of_lt (lt_of_lt_of_le (lt_of_get? h) hs)
  rw [hi, h]

namespace Line

/-- The operand is valid, and an argument that is read is one of the custom block in whose body
the line stands. -/
structure Valid (t : Tables) (l : Line) : Prop where
  operand : l.instruction.Valid t
  argument : l.opcode = .readArg → ∃ s, l.signature = some s ∧
    ∀ x ∈ l.instruction.operands, x.toNat < s.argumentNames.length

end Line

namespace Compiler

/-- On the way from one state of the compiler to another these lines were written, with all
operands in place. -/
structure Puts (c : Compiler) (ls : List Line) (c' : Compiler) : Prop where
  code : c'.code = c.code ++ ls.map (·.instruction)
  grows : c.tables.Grows c'.tables
  full : ∀ l ∈ ls, l.instruction.Full
  valid : c.tables.Tidy → ∀ l ∈ ls, l.Valid c'.tables

lemma Puts.refl (c : Compiler) : c.Puts [] c := ⟨by simp, .refl _, by simp, by simp⟩

lemma Puts.trans {c c' c'' : Compiler} {xs ys : List Line} (h : c.Puts xs c')
    (k : c'.Puts ys c'') : c.Puts (xs ++ ys) c'' where
  code := by rw [k.code, h.code, List.map_append, List.append_assoc]
  grows := h.grows.trans k.grows
  full := by
    intro l hl
    rcases List.mem_append.1 hl with hl | hl
    · exact h.full l hl
    · exact k.full l hl
  valid := by
    intro ht l hl
    rcases List.mem_append.1 hl with hl | hl
    · exact ⟨(h.valid ht l hl).operand.mono k.grows, (h.valid ht l hl).argument⟩
    · exact k.valid (h.grows.tidy ht) l hl

/-- What is emitted at once is one piece of lines. -/
lemma puts_added {c c' : Compiler} {is : List Instruction} (hcode : c'.code = c.code ++ is)
    (hgrows : c.tables.Grows c'.tables) (hfull : ∀ i ∈ is, i.Full)
    (hvalid : c.tables.Tidy → ∀ i ∈ is, i.Valid c'.tables)
    (harg : ∀ i ∈ is, i.opcode ≠ .readArg) (id : Option String) :
    c.Puts (added id c c') c' := by
  rw [added_of_code hcode]
  refine ⟨by simp [hcode, Function.comp_def], hgrows, ?_, ?_⟩
  · simpa using hfull
  · intro ht l hl
    obtain ⟨i, hi, rfl⟩ := List.mem_map.1 hl
    exact ⟨hvalid ht i hi, fun hop => absurd hop (harg i hi)⟩

lemma puts_emit (c : Compiler) {op : Opcode} (h : op.operandCount = 0) (id : Option String) :
    c.Puts (added id c (c.emit op)) (c.emit op) := by
  refine puts_added (emits_emit c op).code (.refl _) ?_ ?_ ?_ id <;>
    simp only [List.mem_singleton, forall_eq]
  · exact h.symm
  · exact fun _ x hx => by simp at hx
  · rintro rfl
    simp [Opcode.operandCount] at h

lemma puts_nothing {c c' : Compiler} (h : c.Emits [] c') (id : Option String) :
    c.Puts (added id c c') c' :=
  puts_added h.code h.grows (by simp) (by simp) (by simp) id

lemma puts_operand {c c' : Compiler} {op : Opcode} {x : UInt32} (h : c.Emits [⟨op, [x]⟩] c')
    (hop : op.operandCount = 1) (harg : op ≠ .readArg)
    (hvalid : c.tables.Tidy → Instruction.Valid c'.tables ⟨op, [x]⟩) (id : Option String) :
    c.Puts (added id c c') c' := by
  refine puts_added h.code h.grows ?_ ?_ ?_ id <;> simp only [List.mem_singleton, forall_eq]
  · exact hop.symm
  · exact hvalid
  · exact harg

lemma puts_const (c : Compiler) (v : Value) (id : Option String) :
    c.Puts (added id c (c.const v)) (c.const v) := by
  obtain ⟨i, h, hi⟩ := emits_const c v
  refine puts_operand h rfl (by simp) (fun _ x hx => ?_) id
  rw [List.mem_singleton.1 hx]
  exact toNat_ofNat_lt (lt_of_get? hi)

lemma puts_callNative (c : Compiler) (n : Native) (id : Option String) :
    c.Puts (added id c (c.callNative n)) (c.callNative n) := by
  obtain ⟨i, h, hi⟩ := emits_callNative c n
  refine puts_operand h rfl (by simp) (fun _ x hx => ?_) id
  rw [List.mem_singleton.1 hx]
  exact toNat_ofNat_lt (lt_of_get? hi)

lemma puts_variableOp (c : Compiler) (op : VariableOp) (r : Reference) (id : Option String) :
    c.Puts (added id c (c.variableOp op r)) (c.variableOp op r) := by
  obtain ⟨i, s, h, hi, -⟩ := emits_variableOp c op r
  refine puts_operand h rfl (by simp) (fun _ x hx => ?_) id
  rw [List.mem_singleton.1 hx]
  exact toNat_ofNat_lt (lt_of_get? hi)

lemma puts_listOp (c : Compiler) (op : ListOp) (r : Reference) (id : Option String) :
    c.Puts (added id c (c.listOp op r)) (c.listOp op r) := by
  obtain ⟨i, s, h, hi, -⟩ := emits_listOp c op r
  refine puts_operand h rfl (by simp) (fun _ x hx => ?_) id
  rw [List.mem_singleton.1 hx]
  exact toNat_ofNat_lt (lt_of_get? hi)

/-! ### Brackets and pauses -/

/-- Every end of a loop comes right after a pause, unless it was written in warp mode. -/
def Paused (ls : List Line) : Prop :=
  ∀ before l after, ls = before ++ l :: after → l.opcode = .loopEnd →
    l.warp = true ∨ ∃ k, before.getLast? = some k ∧ k.opcode = .breakFrame

lemma Paused.append {xs ys : List Line} (hx : Paused xs) (hy : Paused ys) :
    Paused (xs ++ ys) := by
  intro before l after he hl
  rcases append_eq_split he with ⟨rest, hxs, -⟩ | ⟨mid, rfl, hys⟩
  · exact hx before l rest hxs hl
  · rcases hy mid l after hys hl with h | ⟨k, hk, hop⟩
    · exact Or.inl h
    · exact Or.inr ⟨k, by rw [List.getLast?_append, hk]; rfl, hop⟩

lemma paused_of_no_loopEnd {ls : List Line} (h : ∀ l ∈ ls, l.opcode ≠ .loopEnd) : Paused ls := by
  intro before l after he hl
  exact absurd hl (h l (by simp [he]))

/-- Lines whose brackets match and whose loops pause. -/
structure Neat (ls : List Line) : Prop where
  nested : Code.Nested (ls.map (·.opcode))
  paused : Paused ls

lemma Neat.append {xs ys : List Line} (hx : Neat xs) (hy : Neat ys) : Neat (xs ++ ys) :=
  ⟨by rw [List.map_append]; exact .append hx.nested hy.nested, hx.paused.append hy.paused⟩

lemma neat_nil : Neat [] := ⟨.nil, paused_of_no_loopEnd (by simp)⟩

lemma neat_of_plain {ls : List Line} (h : ∀ l ∈ ls, l.opcode.isBracket = false) : Neat ls := by
  refine ⟨?_, paused_of_no_loopEnd fun l hl he => ?_⟩
  · induction ls with
    | nil => exact .nil
    | cons l rest ih =>
      exact .append (.plain (h l (by simp))) (ih fun k hk => h k (List.mem_cons_of_mem _ hk))
  · have := h l hl
    rw [he] at this
    simp [Opcode.isBracket] at this

lemma neat_added {c c' : Compiler} {is : List Instruction} (h : c'.code = c.code ++ is)
    (hp : ∀ i ∈ is, i.opcode.isBracket = false) (id : Option String) :
    Neat (added id c c') := by
  rw [added_of_code h]
  refine neat_of_plain fun l hl => ?_
  obtain ⟨i, hi, rfl⟩ := List.mem_map.1 hl
  exact hp i hi

/-! ### Lines between brackets -/

lemma Paused.cons {l : Line} {ls : List Line} (hl : l.opcode ≠ .loopEnd) (h : Paused ls) :
    Paused (l :: ls) := by
  have hone : Paused [l] := paused_of_no_loopEnd (by simpa using hl)
  exact hone.append h

lemma Paused.snoc {l : Line} {ls : List Line} (h : Paused ls)
    (hl : l.opcode ≠ .loopEnd ∨ l.warp = true ∨
      ∃ k, ls.getLast? = some k ∧ k.opcode = .breakFrame) : Paused (ls ++ [l]) := by
  intro before m after he hm
  rcases List.eq_nil_or_concat after with rfl | ⟨init, last, rfl⟩
  · obtain ⟨rfl, hlast⟩ := List.append_inj' he rfl
    cases hlast
    rcases hl with hl | hl | hl
    · exact absurd hm hl
    · exact Or.inl hl
    · exact Or.inr hl
  · have he' : ls ++ [l] = (before ++ m :: init) ++ [last] := by simpa using he
    exact h before m init (List.append_inj' he' rfl).1 hm

lemma neat_branch {x y : Line} {ls : List Line} (hx : x.opcode = .branch)
    (hy : y.opcode = .endBranch) (h : Neat ls) : Neat (x :: (ls ++ [y])) := by
  refine ⟨?_, .cons (by simp [hx]) (h.paused.snoc (Or.inl (by simp [hy])))⟩
  simp only [List.map_cons, List.map_append, List.map_nil, hx, hy]
  exact .branch h.nested

lemma neat_choice {x y z : Line} {ls ms : List Line} (hx : x.opcode = .branch)
    (hy : y.opcode = .otherwise) (hz : z.opcode = .endBranch) (h : Neat ls) (k : Neat ms) :
    Neat (x :: (ls ++ y :: (ms ++ [z]))) := by
  refine ⟨?_, .cons (by simp [hx]) (h.paused.append (.cons (by simp [hy])
    (k.paused.snoc (Or.inl (by simp [hz])))))⟩
  simp only [List.map_cons, List.map_append, List.map_nil, hx, hy, hz]
  exact .choice h.nested k.nested

/-- The end of a loop body is a pause or was written in warp mode. -/
def EndsBody (ls : List Line) (y : Line) : Prop :=
  y.warp = true ∨ ∃ k, ls.getLast? = some k ∧ k.opcode = .breakFrame

lemma neat_loop {x y : Line} {ls : List Line} (hx : x.opcode = .forever ∨ x.opcode = .times)
    (hy : y.opcode = .loopEnd) (h : Neat ls) (he : EndsBody ls y) : Neat (x :: (ls ++ [y])) := by
  refine ⟨?_, .cons (by rcases hx with hx | hx <;> simp [hx]) (h.paused.snoc (Or.inr he))⟩
  simp only [List.map_cons, List.map_append, List.map_nil, hy]
  exact .loop hx h.nested

lemma neat_tested {x y z : Line} {ls ms : List Line} (hx : x.opcode = .untilLoop)
    (hy : y.opcode = .untilTest) (hz : z.opcode = .loopEnd) (h : Neat ls) (k : Neat ms)
    (he : EndsBody ms z) : Neat (x :: (ls ++ y :: (ms ++ [z]))) := by
  refine ⟨?_, .cons (by simp [hx]) (h.paused.append (.cons (by simp [hy])
    (k.paused.snoc (Or.inr he))))⟩
  simp only [List.map_cons, List.map_append, List.map_nil, hx, hy, hz]
  exact .tested h.nested k.nested

/-- These lines were written in good shape. -/
structure Writes (c : Compiler) (ls : List Line) (c' : Compiler) : Prop where
  puts : c.Puts ls c'
  neat : Neat ls

lemma Writes.refl (c : Compiler) : c.Writes [] c := ⟨.refl c, neat_nil⟩

lemma Writes.trans {c c' c'' : Compiler} {xs ys : List Line} (h : c.Writes xs c')
    (k : c'.Writes ys c'') : c.Writes (xs ++ ys) c'' :=
  ⟨h.puts.trans k.puts, h.neat.append k.neat⟩

lemma writes_nil {c c' : Compiler} (h : c.Emits [] c') : c.Writes [] c' :=
  ⟨⟨by simpa using h.code, h.grows, by simp, by simp⟩, neat_nil⟩

lemma writes_nothing {c c' : Compiler} (h : c.Emits [] c') (id : Option String) :
    c.Writes (added id c c') c' :=
  ⟨puts_nothing h id, neat_added h.code (by simp) id⟩

lemma writes_emit (c : Compiler) {op : Opcode} (h : op.operandCount = 0)
    (hp : op.isBracket = false) (id : Option String) :
    c.Writes (added id c (c.emit op)) (c.emit op) :=
  ⟨puts_emit c h id, neat_added (emits_emit c op).code (by simpa using hp) id⟩

lemma writes_const (c : Compiler) (v : Value) (id : Option String) :
    c.Writes (added id c (c.const v)) (c.const v) := by
  obtain ⟨i, h, -⟩ := emits_const c v
  exact ⟨puts_const c v id, neat_added h.code (by simp [Opcode.isBracket]) id⟩

lemma writes_callNative (c : Compiler) (n : Native) (id : Option String) :
    c.Writes (added id c (c.callNative n)) (c.callNative n) := by
  obtain ⟨i, h, -⟩ := emits_callNative c n
  exact ⟨puts_callNative c n id, neat_added h.code (by simp [Opcode.isBracket]) id⟩

lemma writes_variableOp (c : Compiler) (op : VariableOp) (r : Reference) (id : Option String) :
    c.Writes (added id c (c.variableOp op r)) (c.variableOp op r) := by
  obtain ⟨i, s, h, -⟩ := emits_variableOp c op r
  exact ⟨puts_variableOp c op r id, neat_added h.code (by simp [Opcode.isBracket]) id⟩

lemma writes_listOp (c : Compiler) (op : ListOp) (r : Reference) (id : Option String) :
    c.Writes (added id c (c.listOp op r)) (c.listOp op r) := by
  obtain ⟨i, s, h, -⟩ := emits_listOp c op r
  exact ⟨puts_listOp c op r id, neat_added h.code (by simp [Opcode.isBracket]) id⟩

end Compiler

/-! ### Recipes -/

namespace Recipe

/-- Evaluates or emits, without brackets. -/
def Step.isPlain : Step → Bool
  | .body _ | .loopBody _ => false
  | .emit op => !op.isBracket && op.operandCount == 0
  | _ => true

/-- The steps of recipes: straight lines, and stacks of blocks between brackets. -/
inductive Shaped : List Step → Prop
  | plain {xs : List Step} (h : xs.all Step.isPlain = true) : Shaped xs
  | branch {xs : List Step} (h : xs.all Step.isPlain = true) (name : String) :
      Shaped (xs ++ [.emit .branch, .body name, .emit .endBranch])
  | choice {xs : List Step} (h : xs.all Step.isPlain = true) (name name' : String) :
      Shaped (xs ++ [.emit .branch, .body name, .emit .otherwise, .body name', .emit .endBranch])
  | loop {xs ys : List Step} {op : Opcode} (hop : op = .forever ∨ op = .times)
      (hx : xs.all Step.isPlain = true) (hy : ys.all Step.isPlain = true) (name : String) :
      Shaped (xs ++ .emit op :: (ys ++ [.loopBody name, .emit .loopEnd]))
  | tested {xs : List Step} (h : xs.all Step.isPlain = true) (name : String) :
      Shaped (.emit .untilLoop :: (xs ++ [.emit .untilTest, .loopBody name, .emit .loopEnd]))

/-- All lists of steps that a recipe may choose from. -/
def plans : Recipe → List (List Step)
  | .steps ss => [ss]
  | .needs _ ss otherwise => [ss, otherwise]
  | .choose _ options otherwise => otherwise :: options.map (·.2)
  | _ => []

lemma mem_plans {palette : Palette} {b : Block} {r : Recipe} {ss : List Step}
    (h : r.plan? palette b = some ss) : ss ∈ r.plans := by
  cases r with
  | steps xs => simp_all [plan?, plans]
  | needs field xs ys =>
    simp only [plan?, Option.some.injEq] at h
    rw [← h]
    split <;> simp [plans]
  | choose field options ys =>
    simp only [plan?, Option.some.injEq] at h
    rw [← h]
    cases hc : (do
        let f ← b.field? field
        let n ← palette.option? field f.value.toText
        options.lookup n) with
    | none => simp [plans]
    | some xs =>
      obtain ⟨f, -, hc⟩ := Option.bind_eq_some_iff.1 hc
      obtain ⟨n, -, hc⟩ := Option.bind_eq_some_iff.1 hc
      exact List.mem_cons_of_mem _ (List.mem_map.2 ⟨_, mem_of_lookup hc, rfl⟩)
  | _ => simp [plan?] at h

end Recipe

namespace Palette

/-- All recipes of a palette, those of conditions included. -/
def recipes (p : Palette) : List Recipe :=
  p.sections.flatMap fun s => s.recipes.map (·.2) ++ s.predicates.map (·.2)

lemma mem_recipes_of_recipe? {p : Palette} {opcode : String} {r : Recipe}
    (h : p.recipe? opcode = some r) : r ∈ p.recipes := by
  obtain ⟨s, hs, hr⟩ := List.exists_of_findSome?_eq_some h
  refine List.mem_flatMap.2 ⟨s, hs, List.mem_append_left _ ?_⟩
  exact List.mem_map.2 ⟨_, mem_of_lookup hr, rfl⟩

lemma mem_recipes_of_predicate? {p : Palette} {opcode : String} {r : Recipe}
    (h : p.predicate? opcode = some r) : r ∈ p.recipes := by
  obtain ⟨s, hs, hr⟩ := List.exists_of_findSome?_eq_some h
  refine List.mem_flatMap.2 ⟨s, hs, List.mem_append_right _ ?_⟩
  exact List.mem_map.2 ⟨_, mem_of_lookup hr, rfl⟩

/-- The recipes outside of the control section have no brackets. -/
lemma plain_of_other_section :
    ∀ s ∈ [events, looks, motion, operators, sensing, data, myBlocks],
      ∀ r ∈ s.recipes.map (·.2) ++ s.predicates.map (·.2), ∀ ss ∈ r.plans,
        ss.all Recipe.Step.isPlain = true := by
  decide

lemma shaped_control : ∀ e ∈ control.recipes, ∀ ss ∈ e.2.plans, Recipe.Shaped ss := by
  have hforever : Recipe.Shaped [.emit .forever, .loopBody "SUBSTACK", .emit .loopEnd] :=
    @Recipe.Shaped.loop [] [] _ (Or.inl rfl) rfl rfl _
  have hrepeat : Recipe.Shaped [.input "TIMES", .emit .times, .loopBody "SUBSTACK", .emit .loopEnd] :=
    @Recipe.Shaped.loop [.input "TIMES"] [] _ (Or.inr rfl) rfl rfl _
  have huntil : Recipe.Shaped [.emit .untilLoop, .condition "CONDITION", .emit .untilTest,
      .loopBody "SUBSTACK", .emit .loopEnd] :=
    @Recipe.Shaped.tested [.condition "CONDITION"] rfl _
  have hwhile : Recipe.Shaped [.emit .untilLoop, .condition "CONDITION", .emit (.unary .not),
      .emit .untilTest, .loopBody "SUBSTACK", .emit .loopEnd] :=
    @Recipe.Shaped.tested [.condition "CONDITION", .emit (.unary .not)] rfl _
  have heach : Recipe.Shaped [.variableEntry, .input "VALUE", .emit (.unary .ceiling), .emit .times,
      .emit .round, .var .set, .loopBody "SUBSTACK", .emit .loopEnd] :=
    @Recipe.Shaped.loop [.variableEntry, .input "VALUE", .emit (.unary .ceiling)]
      [.emit .round, .var .set] _ (Or.inr rfl) rfl rfl _
  have hif : Recipe.Shaped [.condition "CONDITION", .emit .branch, .body "SUBSTACK",
      .emit .endBranch] :=
    @Recipe.Shaped.branch [.condition "CONDITION"] rfl _
  have hchoice : Recipe.Shaped [.condition "CONDITION", .emit .branch, .body "SUBSTACK",
      .emit .otherwise, .body "SUBSTACK2", .emit .endBranch] :=
    @Recipe.Shaped.choice [.condition "CONDITION"] rfl _ _
  have hlater : ∀ e ∈ control.recipes.drop 7, ∀ ss ∈ e.2.plans, ss.all Recipe.Step.isPlain = true := by
    decide
  intro e he ss hss
  rw [← List.take_append_drop 7 control.recipes, List.mem_append] at he
  rcases he with he | he
  · simp only [control, List.take_succ_cons, List.take_zero, List.mem_cons, List.not_mem_nil,
      or_false] at he
    rcases he with rfl | rfl | rfl | rfl | rfl | rfl | rfl <;>
      simp only [Recipe.plans, List.mem_cons, List.not_mem_nil, or_false] at hss
    · rw [hss]; exact hforever
    · rw [hss]; exact hrepeat
    · rw [hss]; exact huntil
    · rw [hss]; exact hwhile
    · rcases hss with rfl | rfl
      · exact heach
      · exact .plain rfl
    · rw [hss]; exact hif
    · rw [hss]; exact hchoice
  · exact .plain (hlater e he ss hss)

/-- Every recipe of the palette is shaped. -/
lemma shaped_builtin {r : Recipe} (h : r ∈ builtin.recipes) {ss : List Recipe.Step} (hss : ss ∈ r.plans) :
    Recipe.Shaped ss := by
  obtain ⟨s, hs, hr⟩ := List.mem_flatMap.1 h
  rcases List.mem_cons.1 hs with rfl | hs
  · rw [show control.predicates = [] from rfl, List.map_nil, List.append_nil] at hr
    obtain ⟨e, he, rfl⟩ := List.mem_map.1 hr
    exact shaped_control e he ss hss
  · exact .plain (plain_of_other_section s hs r hr ss hss)

end Palette

end Blockwork
