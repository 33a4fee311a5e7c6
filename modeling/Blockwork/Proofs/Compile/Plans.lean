import Blockwork.Proofs.Code.Operands
import Blockwork.Proofs.Compile.Units

/-!
The operands of recipes. Followed step by step, the recipe of a command finds the operands that it
takes and uses up all that it evaluates; the recipe of a reporter leaves one value. This is checked
once for every recipe of the palette, by counting, and does not depend on the blocks.
-/

namespace Blockwork

namespace Recipe.Step

/-- Evaluates one value. -/
def isValue : Step → Bool
  | .input _ | .condition _ | .const _ | .field _ => true
  | _ => false

/-- How many operands a step takes. -/
def takes : Step → Nat
  | .emit op => op.takes
  | .call n => n.pops
  | .var op => (Opcode.var op).takes
  | .list op => (Opcode.list op).takes
  | _ => 0

/-- How many operands it leaves. -/
def gives : Step → Nat
  | .input _ | .condition _ | .const _ | .field _ => 1
  | .emit op => op.gives
  | .call n => if n.reports then 1 else 0
  | .var op => (Opcode.var op).gives
  | .list op => (Opcode.list op).gives
  | _ => 0

/-- Nothing that was evaluated before it is left. -/
def settles : Step → Bool
  | .emit op => op.settles
  | .call n => !n.reports
  | .body _ | .loopBody _ => true
  | _ => false

/-- A native has its inputs right before it, and one that may be retried has a checkpoint before
them. -/
def isFed (done : List Step) : Step → Bool
  | .emit op => op.operandCount == 0 && op != .initProcedure && op != .addArg && op != .warp
  | .call n =>
    n.pops == n.arity && decide (n.arity ≤ done.length) &&
      (done.drop (done.length - n.arity)).all isValue &&
      (!n.retries || (done.reverse.dropWhile isValue).head? == some (.emit .checkpoint))
  | _ => true

/-- The native that it calls. -/
def native? : Step → Option Native
  | .call n => some n
  | _ => none

/-- The field that it reads. -/
def field? : Step → Option String
  | .var _ => some variableField
  | .list _ => some listField
  | _ => none

/-- The input whose value it evaluates. -/
def input? : Step → Option String
  | .input name | .condition name => some name
  | _ => none

/-- The input whose stack it compiles. -/
def body? : Step → Option String
  | .body name | .loopBody name => some name
  | _ => none

lemma value_counts {s : Step} (h : s.isValue = true) :
    s.settles = false ∧ s.gives = 1 ∧ s.takes = 0 := by
  cases s <;> simp [isValue, settles, gives, takes] at h ⊢

lemma input?_of_not_value {s : Step} (h : ¬ s.isValue = true) : s.input? = none := by
  cases s <;> simp [isValue, input?] at h ⊢

lemma body?_of_quiet {s : Step} (h : s.settles = false) : s.body? = none := by
  cases s <;> simp [settles, body?] at h ⊢

lemma eq_call_of_native? {s : Step} {n : Native} (h : s.native? = some n) : s = .call n := by
  cases s <;> simp [native?] at h ⊢
  exact h

end Recipe.Step

namespace Recipe

/-- The operands after some steps, counted from `h` operands after the steps that are `done`; none
if an operand is missing or left over where nothing may be left. -/
def height? (done : List Step) (h : Nat) : List Step → Option Nat
  | [] => some h
  | s :: ss =>
    if s.isFed done && decide (s.takes ≤ h) && (!s.settles || h - s.takes + s.gives == 0) then
      height? (done ++ [s]) (h - s.takes + s.gives) ss
    else none

/-- Uses up what it evaluates. -/
def isBalanced (ss : List Step) : Bool := height? [] 0 ss == some 0

/-- Leaves one value, which the last step gives. -/
def isReport (ss : List Step) : Bool :=
  ss.all (!·.settles) && height? [] 0 ss == some 1 &&
    (ss.getLast?).any fun last => last.gives == 1 && height? [] 0 ss.dropLast == some last.takes

/-- Reads a field only if the block has it. -/
def isGuarded : Recipe → Bool
  | .steps ss => ss.all (·.field?.isNone)
  | .needs field ss otherwise =>
    ss.all (fun s => s.field?.all (· == field)) && otherwise.all (·.field?.isNone)
  | .choose _ options otherwise =>
    options.all (·.2.all (·.field?.isNone)) && otherwise.all (·.field?.isNone)
  | _ => true

lemma height?_cons {done : List Step} {h h' : Nat} {s : Step} {ss : List Step}
    (hh : height? done h (s :: ss) = some h') :
    s.isFed done = true ∧ s.takes ≤ h ∧ (s.settles = true → h - s.takes + s.gives = 0) ∧
      height? (done ++ [s]) (h - s.takes + s.gives) ss = some h' := by
  rw [height?] at hh
  split at hh
  · next hc =>
    simp only [Bool.and_eq_true, decide_eq_true_eq, Bool.or_eq_true, Bool.not_eq_true',
      beq_iff_eq] at hc
    exact ⟨hc.1.1, hc.1.2, fun hs => hc.2.resolve_left (by simp [hs]), hh⟩
  · cases hh

/-- The operands after the first ones of some steps. -/
lemma height?_append {done : List Step} {h h' : Nat} {xs ys : List Step}
    (hh : height? done h (xs ++ ys) = some h') :
    ∃ k, height? done h xs = some k ∧ height? (done ++ xs) k ys = some h' := by
  induction xs generalizing done h with
  | nil => exact ⟨h, rfl, by simpa using hh⟩
  | cons s xs ih =>
    obtain ⟨hfed, htakes, hzero, hrest⟩ := height?_cons hh
    obtain ⟨k, hk, hys⟩ := ih hrest
    refine ⟨k, ?_, by simpa using hys⟩
    rw [height?, hfed, decide_eq_true htakes, Bool.and_self, Bool.true_and, if_pos, hk]
    cases hs : s.settles with
    | false => rfl
    | true => simp [hzero hs]

/-- What a report consists of. -/
lemma isReport_split {ss : List Step} (h : isReport ss = true) :
    (∀ s ∈ ss, s.settles = false) ∧ height? [] 0 ss = some 1 ∧ ∃ xs last, ss = xs ++ [last] ∧
      last.gives = 1 ∧ last.isFed xs = true ∧ height? [] 0 xs = some last.takes := by
  simp only [isReport, Bool.and_eq_true, List.all_eq_true, Bool.not_eq_true', beq_iff_eq,
    Option.any_eq_true] at h
  obtain ⟨⟨hquiet, hone⟩, last, hlast, hgives, hbefore⟩ := h
  obtain ⟨xs, rfl⟩ := List.getLast?_eq_some_iff.1 hlast
  rw [List.dropLast_concat] at hbefore
  obtain ⟨k, -, hend⟩ := height?_append hone
  rw [List.nil_append] at hend
  exact ⟨hquiet, hone, xs, last, rfl, hgives, (height?_cons hend).1, hbefore⟩

end Recipe

namespace Palette

/-- The recipes of commands are balanced. -/
lemma balanced_of_command : ∀ s ∈ builtin.sections, ∀ e ∈ s.recipes, isReporter e.1 = false →
    ∀ ss ∈ e.2.plans, Recipe.isBalanced ss = true := by
  decide +kernel

/-- The recipes of reporters and of conditions leave one value. -/
lemma report_of_reporter : ∀ e ∈ Reporter.table, ∀ ss ∈ e.2.recipe.plans,
    Recipe.isReport ss = true := by
  decide +kernel

lemma report_of_predicate : ∀ s ∈ builtin.sections, ∀ e ∈ s.predicates, ∀ ss ∈ e.2.plans,
    Recipe.isReport ss = true := by
  decide +kernel

lemma guarded_builtin : ∀ r ∈ builtin.recipes, r.isGuarded = true := by
  decide +kernel

/-- Values are evaluated in no input that holds a stack. -/
lemma input?_of_plan : ∀ r ∈ builtin.recipes, ∀ ss ∈ r.plans, ∀ s ∈ ss, ∀ name ∈ s.input?,
    name ≠ "SUBSTACK" ∧ name ≠ "SUBSTACK2" := by
  decide +kernel

/-- Stacks are compiled from the inputs of control blocks. -/
lemma body?_of_plan : ∀ s ∈ builtin.sections, ∀ e ∈ s.recipes, ∀ ss ∈ e.2.plans, ∀ x ∈ ss,
    ∀ name ∈ x.body?, name ∈ ["SUBSTACK", "SUBSTACK2"] ∧
      (control.recipes.lookup e.1).isSome = true := by
  decide +kernel

/-- The conditions of hats are lists of steps. -/
lemma plan_of_predicate {opcode : String} {r : Recipe} (h : builtin.predicate? opcode = some r) :
    ∀ b : Block, (r.plan? .builtin b).isSome = true := by
  have key : ∀ s ∈ builtin.sections, ∀ e ∈ s.predicates,
      e.2 ≠ .call ∧ e.2 ≠ .definition ∧ e.2.plans ≠ [] := by
    decide
  obtain ⟨s, hs, hr⟩ := List.exists_of_findSome?_eq_some h
  obtain ⟨h1, h2, h3⟩ := key s hs _ (mem_of_lookup hr)
  intro b
  cases r <;> simp_all [Recipe.plan?, Recipe.plans]

end Palette

/-- All inputs of a call hold values. -/
lemma Block.not_holdsStack_of_call {b : Block}
    (h : Palette.builtin.recipe? b.opcode = some .call) (name : String) :
    b.holdsStack name = false := by
  have hc : (Palette.control.recipes.lookup "procedures_call").isSome = false := by decide
  simp [holdsStack, isControl, Palette.opcode_of_call h, hc]

/-- The steps by which a block is compiled, for its value, in a stack or for the condition of its
hat. -/
def Block.HasPlan (b : Block) (ss : List Recipe.Step) : Prop :=
  ∃ r, (Palette.builtin.recipe? b.opcode = some r ∨ Palette.builtin.predicate? b.opcode = some r) ∧
    r.plan? .builtin b = some ss

namespace Block

variable {b : Block} {ss : List Recipe.Step}

lemma HasPlan.mem (h : b.HasPlan ss) : ∃ r ∈ Palette.builtin.recipes, ss ∈ r.plans ∧
    r.plan? .builtin b = some ss := by
  obtain ⟨r, hr | hr, hss⟩ := h
  · exact ⟨r, Palette.mem_recipes_of_recipe? hr, Recipe.mem_plans hss, hss⟩
  · exact ⟨r, Palette.mem_recipes_of_predicate? hr, Recipe.mem_plans hss, hss⟩

/-- The fields that the steps read are there. -/
lemma HasPlan.field (h : b.HasPlan ss) : ∀ s ∈ ss, ∀ f ∈ s.field?, (b.field? f).isSome = true := by
  obtain ⟨r, hr, -, hss⟩ := h.mem
  have hg := Palette.guarded_builtin r hr
  have hnone : ∀ {xs : List Recipe.Step}, xs.all (·.field?.isNone) = true →
      ∀ s ∈ xs, ∀ f ∈ s.field?, (b.field? f).isSome = true := by
    intro xs hx s hs f hf
    rw [List.all_eq_true] at hx
    have := hx s hs
    rw [Option.mem_def.1 hf] at this
    cases this
  cases r with
  | steps xs =>
    cases hss
    exact hnone hg
  | needs field xs otherwise =>
    simp only [Recipe.isGuarded, Bool.and_eq_true] at hg
    simp only [Recipe.plan?, Option.some.injEq] at hss
    split at hss
    · next hf =>
      subst hss
      intro s hs f hfield
      have := List.all_eq_true.1 hg.1 s hs
      rw [Option.mem_def.1 hfield] at this
      rw [show f = field by simpa using this]
      exact hf
    · subst hss
      exact hnone hg.2
  | choose field options otherwise =>
    simp only [Recipe.isGuarded, Bool.and_eq_true, List.all_eq_true] at hg
    rcases List.mem_cons.1 (Recipe.mem_plans hss) with rfl | hmem
    · exact hnone (List.all_eq_true.2 hg.2)
    · obtain ⟨o, ho, rfl⟩ := List.mem_map.1 hmem
      exact hnone (List.all_eq_true.2 (hg.1 o ho))
  | _ => simp [Recipe.plan?] at hss

lemma HasPlan.no_head (h : b.HasPlan ss) : b.opcode ≠ "procedures_definition" := by
  intro he
  obtain ⟨r, hr, hss⟩ := h
  rw [he, Palette.kind_definition.2.1, Palette.kind_definition.2.2] at hr
  rcases hr with hr | hr
  · cases hr
    cases hss
  · cases hr

/-- The inputs that the steps evaluate hold values. -/
lemma HasPlan.not_holdsStack (h : b.HasPlan ss) {s : Recipe.Step} (hs : s ∈ ss) {name : String}
    (hn : name ∈ s.input?) : b.holdsStack name = false := by
  obtain ⟨r, hr, hmem, -⟩ := h.mem
  obtain ⟨h1, h2⟩ := Palette.input?_of_plan r hr ss hmem s hs name hn
  simp [holdsStack, h1, h2, h.no_head]

end Block

end Blockwork
