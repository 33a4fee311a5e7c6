import Blockwork.Proofs.Compile.Readings

/-!
The lines of blocks that wait. Wherever a command begins in the listing of a unit, its lines stand
together, and behind them begins the next command. A block that waits for the clock evaluates its
inputs and starts the clock before its checkpoint, one that waits for a condition evaluates it behind
the checkpoint; so what is tried again is the question for the time in the one case, and the condition
in the other.
-/

namespace Blockwork

namespace Compiler

section

variable {t : Tables} {blocks : BlockMap} {fuel : Nat} {x : String} {b : Block}

/-! ### The lines of a command -/

/-- The lines of a command, followed to the depth `fuel` by the compiler `c`; its table entries are
among those of `t`. -/
structure Emitted (t : Tables) (blocks : BlockMap) (x : String) (b : Block) (fuel : Nat)
    (c : Compiler) (ls : List Line) : Prop where
  lines : ls = commandLines .builtin (descend .builtin blocks fuel) (trace .builtin blocks fuel) blocks x
    b c
  rank : blocks.rank x ≤ fuel
  grows : (c.command .builtin (descend .builtin blocks fuel) blocks x b).tables.Grows t

lemma commandLines_of_plan {r : Recipe} {ss : List Recipe.Step}
    (hhat : Palette.builtin.isHat b.opcode = false) (hr : Palette.builtin.recipe? b.opcode = some r)
    (hplan : r.plan? .builtin b = some ss) (c : Compiler) :
    commandLines .builtin (descend .builtin blocks fuel) (trace .builtin blocks fuel) blocks x b c =
      linesOf blocks fuel x b c ss := by
  -- a call has no plan, so it is not the case that is set apart
  have hcall : r ≠ .call := by
    rintro rfl
    cases hplan
  rw [commandLines, hhat, hr]
  simp only [recipeLines, hplan, Bool.false_eq_true, if_false]

/-- Where a command of a stack begins, there stand its lines; where they end, the next one begins. -/
lemma Begins.emitted (hkey : blocks.Keyed) (hk : blocks.WellKinded) (hac : blocks.Acyclic)
    (hb : blocks.get? x = some b) {first : Option String} {c : Compiler} {pre : List Line}
    (h : Begins blocks x fuel first c pre) (hfirst : Startable true blocks fuel first)
    (hg : ((descend .builtin blocks fuel).stack first c).tables.Grows t) :
    ∃ ls post, (trace .builtin blocks fuel).stack first c = pre ++ (ls ++ post) ∧
      (∃ k c', Emitted t blocks x b k c' ls) ∧
      ∀ y ∈ b.next, (blocks.get? y).isSome → Begins blocks y fuel first c (pre ++ ls) := by
  induction h with
  | @here fuel c =>
    simp only [descend, hb] at hg
    have hbelow := ((composes_grows blocks).descend fuel).stack b.next
      (c.command .builtin (descend .builtin blocks fuel) blocks x b)
    obtain ⟨hrank, -⟩ := hfirst x rfl b hb
    have hrank := Nat.le_of_lt_succ hrank
    refine ⟨_, (trace .builtin blocks fuel).stack b.next
      (c.command .builtin (descend .builtin blocks fuel) blocks x b), ?_,
      ⟨fuel, c, rfl, hrank, hbelow.trans hg⟩, fun y hy hsome => ?_⟩
    · simp only [trace, hb, List.nil_append]
    · -- the next block has a smaller rank, so there is depth left for it
      have hlt := lt_of_lt_of_le (BlockMap.rank_lt hac (BlockMap.leads_of_next hb hy hsome)) hrank
      obtain ⟨k, rfl⟩ := Nat.exists_eq_succ_of_ne_zero (Nat.ne_of_gt (Nat.zero_lt_of_lt hlt))
      have hnext : Begins blocks y (k + 1) b.next
          (c.command .builtin (descend .builtin blocks (k + 1)) blocks x b) [] := by
        rw [Option.mem_def.1 hy]
        exact .here _
      have := Begins.further hb hnext
      rwa [List.append_nil] at this
  | @further fuel id b' c pre hb' h ih =>
    simp only [descend, hb'] at hg
    obtain ⟨hrank, hrep⟩ := hfirst id rfl b' hb'
    obtain ⟨ls, post, hlines, hemitted, hnext⟩ :=
      ih (.next hac (fun _ => hk) hb' (Nat.le_of_lt_succ hrank) hrep) hg
    refine ⟨ls, post, ?_, hemitted, fun y hy hsome => ?_⟩
    · simp only [trace, hb', hlines, List.append_assoc]
    · rw [List.append_assoc]
      exact .further hb' (hnext y hy hsome)
  | @held fuel id b' c pre r done rest s name hb' hhat hr hplan hs h ih =>
    simp only [descend, hb'] at hg
    obtain ⟨hrank, hrep⟩ := hfirst id rfl b' hb'
    have hrank := Nat.le_of_lt_succ hrank
    have hbelow := ((composes_grows blocks).descend fuel).stack b'.next
      (c.command .builtin (descend .builtin blocks fuel) blocks id b')
    have hgs : (afterSteps blocks fuel b' c (done ++ [s])).tables.Grows t := by
      have hgplan := hbelow.trans hg
      rw [command_of_plan hhat hr hplan] at hgplan
      exact grows_prefix hr hplan ⟨rest, by simp⟩ c hgplan
    obtain ⟨sec, hsec, hlook⟩ := List.exists_of_findSome?_eq_some hr
    obtain ⟨hname, hcontrol⟩ := Palette.body?_of_plan sec hsec _ (mem_of_lookup hlook) _
      (Recipe.mem_plans hplan) s (by simp) name hs
    rw [afterSteps_snoc, tables_body hs] at hgs
    obtain ⟨ls, post, hlines, hemitted, hnext⟩ :=
      ih (.body hkey hac (fun _ => hk) hb' hrank hcontrol hname) hgs
    -- what the block emits: the steps before the stack, the stack, and what comes behind it
    obtain ⟨more, hmore⟩ : ∃ more, linesOf blocks fuel id b' (afterSteps blocks fuel b' c done)
        (s :: rest) = (trace .builtin blocks fuel).stack (bodyId? blocks b' name)
          (afterSteps blocks fuel b' c done) ++ more := by
      cases s <;> cases hs
      · exact ⟨_, rfl⟩
      · exact ⟨_, List.append_assoc _ _ _⟩
    refine ⟨ls, post ++ more ++ (trace .builtin blocks fuel).stack b'.next
        (c.command .builtin (descend .builtin blocks fuel) blocks id b'), ?_, hemitted,
      fun y hy hsome => ?_⟩
    · simp only [trace, hb', commandLines_of_plan hhat hr hplan]
      rw [linesOf_append, hmore, hlines]
      simp only [List.append_assoc]
    · rw [List.append_assoc]
      exact .held hb' hhat hr hplan hs (hnext y hy hsome)

/-- Where a command begins in the listing of a unit, there stand its lines; where they end, the next
one begins. -/
lemma BeginsIn.emitted (hkey : blocks.Keyed) (hk : blocks.WellKinded) (hac : blocks.Acyclic)
    {p : Program} {r : Routine} {c : Compiler} {id : String} {mode : Mode}
    (h : p.Compiled blocks r c id mode) {pre : List Line} (hx : BeginsIn blocks x c id mode pre)
    (hb : blocks.get? x = some b) :
    ∃ ls post, c.listing .builtin blocks id mode = pre ++ (ls ++ post) ∧ p.tables.Tidy ∧
      (∃ k c', Emitted p.tables blocks x b k c' ls) ∧
      ∀ y ∈ b.next, (blocks.get? y).isSome → BeginsIn blocks y c id mode (pre ++ ls) := by
  obtain ⟨⟨code, -, hu⟩, -⟩ := h
  obtain ⟨rfl, rest, rfl, hbegins⟩ := hx
  obtain ⟨hgrows, ht⟩ := hu.listed
  obtain ⟨ls, post, hlines, hemitted, hnext⟩ :=
    hbegins.emitted hkey hk hac hb (hu.root.startable hkey) hgrows
  refine ⟨ls, post ++ [bracket none .halt ((c.fresh.emit .start).root .builtin blocks id .script)], ?_,
    ht, hemitted, fun y hy hsome => ⟨rfl, rest ++ ls, rfl, hnext y hy hsome⟩⟩
  rw [listing_eq, rootLines, hlines]
  simp only [List.append_assoc, List.nil_append, List.cons_append]

end

/-! ### Blocks that wait for the clock -/

/-- How a block waits for the clock: the inputs that it evaluates, of which the last one is the
duration, the native that starts the clock, and those that are called when the time is over. -/
structure Timed where
  inputs : List String
  start : Native
  done : List Native

namespace Timed

/-- The steps up to the end of the inputs, the start of the clock, the checkpoint and the question for
the time. -/
def reading (d : Timed) : List Recipe.Step := d.inputs.map .input

def starting (d : Timed) : List Recipe.Step := d.reading ++ [.call d.start]

def marking (d : Timed) : List Recipe.Step := d.starting ++ [.emit .checkpoint]

def asking (d : Timed) : List Recipe.Step := d.marking ++ [.call .wait]

/-- The steps of a block that waits for the clock. -/
def steps (d : Timed) : List Recipe.Step := d.asking ++ d.done.map .call

/-- The blocks that wait for the clock. -/
def table : List (String × Timed) := [
  ("control_wait", ⟨["DURATION"], .startWait, []⟩),
  ("looks_sayforsecs", ⟨["MESSAGE", "SECS"], .startBubble .say, [.clearBubble]⟩),
  ("looks_thinkforsecs", ⟨["MESSAGE", "SECS"], .startBubble .think, [.clearBubble]⟩)]

lemma inputs_ne_nil : ∀ e ∈ table, e.2.inputs ≠ [] := by decide

lemma done_of_mem : ∀ e ∈ table, e.2.done = [] ∨ e.2.done = [.clearBubble] := by decide

lemma recipe?_of_mem : ∀ e ∈ table, Palette.builtin.isHat e.1 = false ∧
    Palette.builtin.recipe? e.1 = some (.steps e.2.steps) := by
  decide +kernel

end Timed

/-- The lines of a block that waits for the clock. -/
structure TimedLines (t : Tables) (blocks : BlockMap) (x : String) (b : Block) (d : Timed) where
  inputs : List (List Line)
  start : Line
  check : Line
  wait : Line
  done : List Line
  reads : List.Forall₂ (InputOf t blocks x b) (d.inputs.map .input) inputs
  yields : Yields t inputs.flatten
  starts : start.instruction.native? t = some d.start
  checks : check.opcode = .checkpoint
  waits : wait.instruction.native? t = some .wait
  ends : done.map (·.instruction.native? t) = d.done.map some

namespace TimedLines

variable {t : Tables} {blocks : BlockMap} {x : String} {b : Block} {d : Timed}
  (ls : TimedLines t blocks x b d)

/-- The lines up to each of the places that the steps have. -/
def reading : List Line := ls.inputs.flatten

def starting : List Line := ls.reading ++ [ls.start]

def marking : List Line := ls.starting ++ [ls.check]

def asking : List Line := ls.marking ++ [ls.wait]

/-- All lines of the block. -/
def all : List Line := ls.asking ++ ls.done

end TimedLines

/-! ### Blocks that wait for a condition -/

/-- The steps of a block that waits for a condition, up to the condition. -/
def evaluating : List Recipe.Step := [.emit .checkpoint, .condition "CONDITION"]

/-- All of them. -/
def testing : List Recipe.Step := evaluating ++ [.call .waitUntil]

lemma recipe?_waitUntil : Palette.builtin.isHat "control_wait_until" = false ∧
    Palette.builtin.recipe? "control_wait_until" = some (.steps testing) := by
  decide +kernel

/-- The lines of a block that waits for a condition. -/
structure ConditionLines (t : Tables) (blocks : BlockMap) (x : String) (b : Block) where
  check : Line
  condition : List Line
  test : Line
  reads : InputOf t blocks x b (.condition "CONDITION") condition
  yields : Yields t condition
  checks : check.opcode = .checkpoint
  tests : test.instruction.native? t = some .waitUntil

namespace ConditionLines

variable {t : Tables} {blocks : BlockMap} {x : String} {b : Block} (ls : ConditionLines t blocks x b)

/-- The lines up to the condition. -/
def evaluating : List Line := [ls.check] ++ ls.condition

/-- All lines of the block. -/
def all : List Line := ls.evaluating ++ [ls.test]

end ConditionLines

section

variable {t : Tables} {blocks : BlockMap} {fuel : Nat} {x : String} {b : Block}

lemma lineOf_call (ht : t.Tidy) {n : Native} (c : Compiler)
    (hg : (afterStep blocks fuel b c (.call n)).tables.Grows t) :
    ∃ l, lineOf blocks fuel x b c (.call n) = [l] ∧ l.instruction.native? t = some n := by
  obtain ⟨i, he, hi⟩ := emits_callNative c n
  exact ⟨_, added_of_code he.code x, native?_callNative ht hi hg⟩

lemma linesOf_calls (ht : t.Tidy) (ns : List Native) (c : Compiler)
    (hg : (afterSteps blocks fuel b c (ns.map .call)).tables.Grows t) :
    (linesOf blocks fuel x b c (ns.map .call)).map (·.instruction.native? t) = ns.map some := by
  induction ns generalizing c with
  | nil => rfl
  | cons n ns ih =>
    obtain ⟨l, hl, hn⟩ := lineOf_call (x := x) ht c
      ((grows_steps (by simp) (afterStep blocks fuel b c (.call n))).trans hg)
    have hcons : linesOf blocks fuel x b c ((n :: ns).map .call) = lineOf blocks fuel x b c (.call n) ++
        linesOf blocks fuel x b (afterStep blocks fuel b c (.call n)) (ns.map .call) := rfl
    rw [hcons, hl, List.map_append, ih _ hg, List.map_singleton, hn]
    rfl

/-- What a block that waits for the clock emits. -/
lemma Emitted.timed (ht : t.Tidy) (hk : blocks.ValuesKinded) (hac : blocks.Acyclic)
    (hb : blocks.get? x = some b) {d : Timed} (hd : (b.opcode, d) ∈ Timed.table) {c : Compiler}
    {ls : List Line} (h : Emitted t blocks x b fuel c ls) :
    ∃ ls' : TimedLines t blocks x b d, ls'.all = ls := by
  obtain ⟨hhat, hr⟩ := Timed.recipe?_of_mem _ hd
  have hplan : (Recipe.steps d.steps).plan? .builtin b = some d.steps := rfl
  have hhas : b.HasPlan d.steps := ⟨_, Or.inl hr, hplan⟩
  have hgrows := h.grows
  rw [command_of_plan hhat hr hplan] at hgrows
  have hfirst : ∀ {done : List Recipe.Step}, done <+: d.steps →
      (afterSteps blocks fuel b c done).tables.Grows t := fun hdone =>
    grows_prefix hr hplan hdone c hgrows
  have hasking : d.asking <+: d.steps := List.prefix_append _ _
  have hstarting : d.starting <+: d.steps :=
    ((List.prefix_append _ _).trans (List.prefix_append d.marking _)).trans hasking
  have hreading : d.reading <+: d.steps := (List.prefix_append _ _).trans hstarting
  have hvalues : ∀ s ∈ d.reading, s.isValue = true ∧ s.gives = 1 := by
    intro s hs
    obtain ⟨name, -, rfl⟩ := List.mem_map.1 hs
    exact ⟨rfl, rfl⟩
  have hin : ∀ s ∈ d.reading, ∀ name ∈ s.input?, b.holdsStack name = false :=
    fun s hs name hn => hhas.not_holdsStack (hreading.subset hs) hn
  have hreads : List.Forall₂ (InputOf t blocks x b) d.reading (segments blocks fuel x b c d.reading) :=
    evaluates_segments (fun s hs => (hvalues s hs).1) (fun s hs name hn =>
      goodInput ht hk hac hb h.rank (hin s hs name hn)) c (hfirst hreading)
  have hyields : Yields t (linesOf blocks fuel x b c d.reading) :=
    yields_steps ht (fun s hs => Or.inl (hvalues s hs).2) (fun s hs name hn =>
      yieldsInput ht hk hac hb h.rank (hin s hs name hn)) c (hfirst hreading)
  -- behind the inputs each step emits one line
  obtain ⟨start, hstart, hstarts⟩ := lineOf_call (x := x) ht (n := d.start)
    (afterSteps blocks fuel b c d.reading) (afterSteps_snoc (b := b) c _ _ ▸ hfirst hstarting)
  obtain ⟨wait, hwait, hwaits⟩ := lineOf_call (x := x) ht (n := .wait)
    (afterSteps blocks fuel b c d.marking) (afterSteps_snoc (b := b) c _ _ ▸ hfirst hasking)
  have hends := linesOf_calls (x := x) ht d.done (afterSteps blocks fuel b c d.asking)
    (afterSteps_append (b := b) c _ _ ▸ hgrows)
  refine ⟨⟨_, start, bracket x .checkpoint (afterSteps blocks fuel b c d.starting), wait, _, hreads,
    by rwa [flatten_segments], hstarts, rfl, hwaits, hends⟩, ?_⟩
  have hlines : linesOf blocks fuel x b c d.steps = linesOf blocks fuel x b c d.asking ++
      linesOf blocks fuel x b (afterSteps blocks fuel b c d.asking) (d.done.map .call) :=
    linesOf_append c _ _
  have hask : linesOf blocks fuel x b c d.asking = linesOf blocks fuel x b c d.marking ++ [wait] :=
    hwait ▸ linesOf_snoc c _ _
  have hmark : linesOf blocks fuel x b c d.marking = linesOf blocks fuel x b c d.starting ++
      [bracket x .checkpoint (afterSteps blocks fuel b c d.starting)] :=
    (linesOf_snoc c _ _).trans (congrArg _ (added_emit _ _ _))
  have hbegin : linesOf blocks fuel x b c d.starting =
      (segments blocks fuel x b c d.reading).flatten ++ [start] := by
    rw [flatten_segments, ← hstart]
    exact linesOf_snoc c _ _
  rw [h.lines, commandLines_of_plan hhat hr hplan, hlines, hask, hmark, hbegin]
  rfl

/-- What a block that waits for a condition emits. -/
lemma Emitted.condition (ht : t.Tidy) (hk : blocks.ValuesKinded) (hac : blocks.Acyclic)
    (hb : blocks.get? x = some b) (hop : b.opcode = "control_wait_until") {c : Compiler}
    {ls : List Line} (h : Emitted t blocks x b fuel c ls) :
    ∃ ls' : ConditionLines t blocks x b, ls'.all = ls := by
  obtain ⟨hhat, hr⟩ := hop ▸ recipe?_waitUntil
  have hplan : (Recipe.steps testing).plan? .builtin b = some testing := rfl
  have hhas : b.HasPlan testing := ⟨_, Or.inl hr, hplan⟩
  have hgrows := h.grows
  rw [command_of_plan hhat hr hplan] at hgrows
  have hevaluating : evaluating <+: testing := List.prefix_append _ _
  have hcondition := grows_prefix hr hplan hevaluating c hgrows
  have hstack : b.holdsStack "CONDITION" = false :=
    hhas.not_holdsStack (s := .condition "CONDITION") (hevaluating.subset (by simp [evaluating])) rfl
  have hreads : Evaluates t blocks (c.emit .checkpoint)
      (lineOf blocks fuel x b (c.emit .checkpoint) (.condition "CONDITION"))
      (afterSteps blocks fuel b c evaluating) :=
    evaluates_step rfl (fun name hn => Option.some.inj hn ▸ goodInput ht hk hac hb h.rank hstack) _
      hcondition
  have hyields : Yields t (lineOf blocks fuel x b (c.emit .checkpoint) (.condition "CONDITION")) :=
    yields_step ht (Or.inl rfl)
      (fun name hn => Option.some.inj hn ▸ yieldsInput ht hk hac hb h.rank hstack) _ hcondition
  obtain ⟨test, htest, htests⟩ := lineOf_call (x := x) ht (n := .waitUntil)
    (afterSteps blocks fuel b c evaluating) (afterSteps_snoc (b := b) c _ _ ▸ hgrows)
  refine ⟨⟨bracket x .checkpoint c, _, test, ⟨rfl, hreads.pushes, fuel, _, rfl⟩, hyields, rfl, htests⟩,
    ?_⟩
  have hmark : linesOf blocks fuel x b c evaluating = [bracket x .checkpoint c] ++
      lineOf blocks fuel x b (c.emit .checkpoint) (.condition "CONDITION") := by
    rw [← added_emit, evaluating, linesOf, stepsLines, stepsLines, stepsLines, List.append_nil]
    rfl
  have hlines : linesOf blocks fuel x b c testing = linesOf blocks fuel x b c evaluating ++ [test] :=
    htest ▸ linesOf_snoc c _ _
  rw [h.lines, commandLines_of_plan hhat hr hplan, hlines, hmark]
  rfl

end

end Compiler

end Blockwork
