import Blockwork.Proofs.Compile.Plans

/-!
The operands of emitted code. Where no command stands for a value, code for a value adds one operand
to what was there, and every instruction finds the operands that it takes. Where also no reporter
stands in a stack, code for a stack starts and ends with nothing on the operand stack, and so does
every command in it. A native has the values of its block's own inputs on top of the stack, and one
that may be retried has a checkpoint of its own block before them.

All this is said of the listing of a unit, line by line, with the lines before each.
-/

namespace Blockwork

/-- The natives are finitely many. -/
def Native.all : List Native :=
  ([.startWait, .wait, .waitUntil, .stopAll, .stopThisScript, .stopOtherScripts, .createClone,
    .deleteClone, .broadcast, .broadcastAndWait, .timerAbove, .loudnessAbove, .bubble .say,
    .bubble .think, .startBubble .say, .startBubble .think, .clearBubble, .setVisible true,
    .setVisible false, .resetTimer, .ask, .keyPressed, .attributeOf, .print] : List Native) ++
  [Motion.steps, .turnRight, .turnLeft, .goTo, .setX, .setY, .changeX, .changeY, .point].map motion ++
  [MathFunction.ln, .log, .exp, .tenPower].map math ++
  [Reading.xPosition, .yPosition, .direction, .answer, .timer, .mouseX, .mouseY, .mouseDown,
    .loudness].map reading ++
  [Control.yield, .yieldValue, .retryUnless, .join, .stop, .finish, .suspend, .suspendSettled,
    .finishYield, .finishSuspend, .dropAll].map control

lemma Native.mem_all (n : Native) : n ∈ all := by
  cases n with
  | bubble k | startBubble k => cases k <;> decide
  | setVisible v => cases v <;> decide
  | motion m => cases m <;> decide
  | math f => cases f <;> decide
  | reading r => cases r <;> decide
  | control c => cases c <;> decide
  | _ => decide

/-- The natives of a table can be counted by operands. -/
lemma Tables.Tidy.natives_le {t : Tables} (h : t.Tidy) : t.natives.length ≤ UInt32.size := by
  have hsub : t.natives ⊆ Native.all := fun n _ => n.mem_all
  have hle := (h.natives.subperm hsub).length_le
  exact le_trans hle (by decide)

namespace Compiler

/-- The instructions of some lines. -/
abbrev codeOf (ls : List Line) : List Instruction := ls.map (·.instruction)

/-! ### Lines with their history -/

/-- Every line has a property together with all the lines before it. -/
def Throughout (Q : List Line → Line → Prop) (before ls : List Line) : Prop :=
  ∀ pre l post, ls = pre ++ l :: post → Q (before ++ pre) l

lemma throughout_nil (Q : List Line → Line → Prop) (before : List Line) :
    Throughout Q before [] := by
  intro pre l post h
  simp at h

lemma throughout_one {Q : List Line → Line → Prop} {before : List Line} {l : Line}
    (h : Q before l) : Throughout Q before [l] := by
  intro pre k post he
  rcases pre with _ | ⟨x, pre⟩
  · cases he
    simpa using h
  · simp at he

lemma Throughout.append {Q : List Line → Line → Prop} {before xs ys : List Line}
    (hx : Throughout Q before xs) (hy : Throughout Q (before ++ xs) ys) :
    Throughout Q before (xs ++ ys) := by
  intro pre l post he
  rcases append_eq_split he with ⟨rest, hxs, -⟩ | ⟨mid, rfl, hys⟩
  · exact hx pre l rest hxs
  · rw [← List.append_assoc]
    exact hy mid l post hys

/-- Lines that evaluate the value of one step of a block, such as one of its inputs. -/
structure InputOf (t : Tables) (blocks : BlockMap) (id : String) (b : Block) (s : Recipe.Step)
    (seg : List Line) : Prop where
  value : s.isValue = true
  pushes : Code.Pushes t (codeOf seg)
  lines : ∃ fuel c, seg =
    stepLines .builtin (descend .builtin blocks fuel) (trace .builtin blocks fuel) blocks id b c s

/-- A native is called by a step of a block, right after the values of the steps before it. If it
may be retried, a checkpoint of the block stands before those, with nothing between that settles. -/
structure Fed (t : Tables) (blocks : BlockMap) (history : List Line) (l : Line) (n : Native) :
    Prop where
  pops : n.pops = n.arity
  inputs : ∃ id b zs vs rest before segs, l.block = some id ∧ blocks.get? id = some b ∧
    b.HasPlan (zs ++ (vs ++ .call n :: rest)) ∧ vs.length = n.arity ∧
    history = before ++ List.flatten segs ∧ List.Forall₂ (InputOf t blocks id b) vs segs
  checkpoint : n.retries = true → ∃ before k mid, history = before ++ k :: mid ∧
    k.opcode = .checkpoint ∧ k.block = l.block ∧ ∀ x ∈ mid, x.instruction.settles t = false

/-- A line finds its operands; if one is strict, it leaves none where it settles. -/
structure Proper (strict : Bool) (t : Tables) (blocks : BlockMap) (history : List Line) (l : Line) :
    Prop where
  supplied : l.instruction.takes t ≤ (Code.shape t (codeOf history)).origins.length
  clean : strict = true → l.instruction.settles t = true →
    (Code.shape t (codeOf history)).after t (Code.extent (codeOf history)) l.instruction = .blank
  fed : ∀ n, l.instruction.native? t = some n → Fed t blocks history l n

/-- Lines that evaluate a value. -/
structure Evaluates (t : Tables) (blocks : BlockMap) (c : Compiler) (ls : List Line)
    (c' : Compiler) : Prop where
  pushes : Code.Pushes t (codeOf ls)
  proper : ∀ before, Throughout (Proper false t blocks) before ls
  signature : c'.signature = c.signature

/-- Some operands lie on top of a shape. -/
def Over (base : Shape) (h : Nat) (s : Shape) : Prop :=
  ∃ os, os.length = h ∧ s = ⟨os ++ base.origins, base.pending⟩

/-- There are some operands; if one is strict, nothing else. -/
def Fits (strict : Bool) (h : Nat) (s : Shape) : Prop :=
  ∃ base, Over base h s ∧ (strict = true → base = .blank)

/-- Lines of commands: they start and end without operands of their own. -/
def Carries (strict : Bool) (t : Tables) (blocks : BlockMap) (ls : List Line) : Prop :=
  ∀ before, Fits strict 0 (Code.shape t (codeOf before)) →
    Throughout (Proper strict t blocks) before ls ∧
      Fits strict 0 (Code.shape t (codeOf (before ++ ls)))

section

variable {strict : Bool} {t : Tables} {blocks : BlockMap}

lemma Over.self (s : Shape) : Over s 0 s := ⟨[], rfl, rfl⟩

lemma Over.le {base s : Shape} {h : Nat} (hs : Over base h s) : h ≤ s.origins.length := by
  obtain ⟨os, rfl, rfl⟩ := hs
  simp

lemma fits_blank : Fits strict 0 .blank := ⟨.blank, .self _, fun _ => rfl⟩

/-- What takes and gives operands moves the top. -/
lemma Over.move {base s : Shape} {h k : Nat} (hs : Over base h s) (hk : k ≤ h) (new : List Nat) :
    Over base (h - k + new.length) ⟨new ++ s.origins.drop k, s.pending⟩ := by
  obtain ⟨os, rfl, rfl⟩ := hs
  refine ⟨new ++ os.drop k, by simp; omega, ?_⟩
  rw [List.drop_append_of_le_length hk, List.append_assoc]

/-- For those who are not strict, operands may be left over. -/
lemma fits_loose (s : Shape) : Fits false 0 s :=
  ⟨s, .self s, by simp⟩

lemma carries_nil : Carries strict t blocks [] := by
  intro before hf
  exact ⟨throughout_nil _ _, by simpa using hf⟩

lemma Carries.append {xs ys : List Line} (hx : Carries strict t blocks xs)
    (hy : Carries strict t blocks ys) : Carries strict t blocks (xs ++ ys) := by
  intro before hf
  obtain ⟨h1, h2⟩ := hx before hf
  obtain ⟨h3, h4⟩ := hy (before ++ xs) h2
  exact ⟨h1.append h3, by simpa using h4⟩

/-- One who is not strict asks for nothing where a line does not settle. -/
lemma Proper.of_quiet {history : List Line} {l : Line} (h : Proper false t blocks history l)
    (hq : l.instruction.settles t = false) : Proper strict t blocks history l :=
  ⟨h.supplied, fun _ hs => by simp [hq] at hs, h.fed⟩

lemma Evaluates.strictly {c c' : Compiler} {ls : List Line} (h : Evaluates t blocks c ls c')
    (before : List Line) : Throughout (Proper strict t blocks) before ls := by
  intro pre l post he
  refine (h.proper before pre l post he).of_quiet (h.pushes.quiet _ ?_)
  rw [he]
  simp

lemma Evaluates.shape {c c' : Compiler} {ls : List Line} (h : Evaluates t blocks c ls c')
    (before : List Line) : ∃ a, Code.shape t (codeOf (before ++ ls)) =
      ⟨a :: (Code.shape t (codeOf before)).origins, (Code.shape t (codeOf before)).pending⟩ := by
  rw [codeOf, List.map_append]
  exact ⟨_, h.pushes.shape _⟩

lemma Evaluates.ne_nil {c c' : Compiler} {ls : List Line} (h : Evaluates t blocks c ls c') :
    ls ≠ [] := by
  rintro rfl
  obtain ⟨a, ha⟩ := h.shape []
  have := congrArg (fun s : Shape => s.origins.length) ha
  simp at this

/-- A value that nobody takes, for those who do not mind. -/
lemma Evaluates.carries {c c' : Compiler} {ls : List Line} (h : Evaluates t blocks c ls c') :
    Carries false t blocks ls := by
  intro before _
  exact ⟨h.strictly before, fits_loose _⟩

/-! ### Single instructions -/

lemma proper_plain {history : List Line} {l : Line}
    (hs : l.instruction.takes t ≤ (Code.shape t (codeOf history)).origins.length)
    (hq : l.instruction.settles t = false) (hn : l.instruction.native? t = none) :
    Proper strict t blocks history l :=
  ⟨hs, fun _ h => by simp [hq] at h, fun n h => by simp [hn] at h⟩

/-- A line that neither takes nor gives anything. -/
lemma carries_idle {l : Line} (hx : l.opcode ≠ .exec) (ht : l.opcode.takes = 0)
    (hg : l.opcode.gives = 0) (hs : l.opcode.settles = false) (hp : l.opcode ≠ .initProcedure) :
    Carries strict t blocks [l] := by
  have htakes := (Instruction.takes_of_ne (t := t) hx).trans ht
  have hgives := (Instruction.gives_of_ne (t := t) hx).trans hg
  have hsettles := (Instruction.settles_of_ne (t := t) hx).trans hs
  have hcall := (Instruction.not_bracket_of_not_settles hsettles).2.1
  intro before hf
  refine ⟨throughout_one (proper_plain (by rw [htakes]; exact Nat.zero_le _) hsettles
    (Instruction.native?_of_ne hx)), ?_⟩
  rw [codeOf, List.map_append, List.map_singleton, Code.shape_snoc_plain _ hsettles]
  have hsame : (Code.shape t (codeOf before)).after t (Code.extent (codeOf before)) l.instruction =
      Code.shape t (codeOf before) := by
    ext1
    · simp only [Shape.after, htakes, hgives, List.drop_zero]
      rfl
    · unfold Line.opcode at hp
      cases hop : l.instruction.opcode <;> simp_all [Shape.after]
  rw [hsame]
  exact hf

lemma evaluates_one {c c' : Compiler} {i : Instruction} (he : c.Emits [i] c')
    (ht : i.opcode.takes = 0) (hg : i.opcode.gives = 1) (hx : i.opcode ≠ .exec)
    (hs : i.opcode.settles = false) (hp : i.opcode ≠ .initProcedure) (id : Option String) :
    Evaluates t blocks c (added id c c') c' := by
  rw [added_of_code he.code]
  have htakes := (Instruction.takes_of_ne (t := t) hx).trans ht
  have hsettles := (Instruction.settles_of_ne (t := t) hx).trans hs
  refine ⟨?_, fun before => throughout_one (proper_plain ?_ hsettles ?_), he.signature⟩
  · exact Code.pushes_one hsettles htakes ((Instruction.gives_of_ne hx).trans hg) hp
  · rw [htakes]
    exact Nat.zero_le _
  · exact Instruction.native?_of_ne hx

lemma evaluates_const (c : Compiler) (v : Value) (id : Option String) :
    Evaluates t blocks c (added id c (c.const v)) (c.const v) := by
  obtain ⟨i, he, -⟩ := emits_const c v
  exact evaluates_one he rfl rfl (by simp) rfl (by simp) id

lemma evaluates_variable (c : Compiler) (r : Reference) (id : Option String) :
    Evaluates t blocks c (added id c (c.variableOp .read r)) (c.variableOp .read r) := by
  obtain ⟨i, x, he, -⟩ := emits_variableOp c .read r
  exact evaluates_one he rfl rfl (by simp) rfl (by simp) id

lemma evaluates_list (c : Compiler) (r : Reference) (id : Option String) :
    Evaluates t blocks c (added id c (c.listOp .read r)) (c.listOp .read r) := by
  obtain ⟨i, x, he, -⟩ := emits_listOp c .read r
  exact evaluates_one he rfl rfl (by simp) rfl (by simp) id

lemma evaluates_null (c : Compiler) (id : Option String) :
    Evaluates t blocks c (added id c (c.emit .null)) (c.emit .null) :=
  evaluates_one (emits_emit c .null) rfl rfl (by simp) rfl (by simp) id

/-- The truth value of a value. -/
lemma Evaluates.negated {c c' : Compiler} {ls : List Line} (h : Evaluates t blocks c ls c')
    (id : Option String) :
    Evaluates t blocks c (ls ++ added id c' (c'.emit (.unary .not))) (c'.emit (.unary .not)) := by
  rw [added_of_code (emits_emit c' (.unary .not)).code]
  refine ⟨?_, fun before => (h.proper before).append (throughout_one (proper_plain ?_ rfl rfl)),
    h.signature⟩
  · rw [codeOf, List.map_append]
    exact h.pushes.snoc rfl rfl rfl (by simp)
  · obtain ⟨a, ha⟩ := h.shape before
    rw [ha]
    exact Nat.succ_le_succ (Nat.zero_le _)

end

/-! ### Steps of recipes -/

/-- Tables grow from the first line to the last. -/
lemma composes_grows (blocks : BlockMap) :
    Composes blocks fun c _ c' => c.tables.Grows c'.tables where
  append := fun h k => h.trans k
  piece := fun _ h => h.emits.grows
  head := fun _ _ id c => (writes_head blocks (id.getD "") _ c).puts.grows

/-- Nothing but heads emits the mark of warp mode. -/
lemma no_warp_builtin : ∀ r ∈ Palette.builtin.recipes, ∀ ss ∈ r.plans, .emit .warp ∉ ss := by
  decide

section

variable (blocks : BlockMap) (fuel : Nat) (id : String) (b : Block)

/-- The lines of a step, with what the block refers to followed to some depth. -/
abbrev lineOf (c : Compiler) (s : Recipe.Step) : List Line :=
  stepLines .builtin (descend .builtin blocks fuel) (trace .builtin blocks fuel) blocks id b c s

/-- The lines of some steps. -/
abbrev linesOf (c : Compiler) (ss : List Recipe.Step) : List Line :=
  stepsLines .builtin (descend .builtin blocks fuel) (trace .builtin blocks fuel) blocks id b c ss

abbrev afterStep (c : Compiler) (s : Recipe.Step) : Compiler :=
  c.step .builtin (descend .builtin blocks fuel) blocks b s

abbrev afterSteps (c : Compiler) (ss : List Recipe.Step) : Compiler :=
  c.steps .builtin (descend .builtin blocks fuel) blocks b ss

/-- The value of an input is evaluated. -/
def GoodInput (t : Tables) (name : String) : Prop :=
  ∀ c : Compiler, (c.input (descend .builtin blocks fuel) blocks b name).tables.Grows t →
    Evaluates t blocks c
      (inputLines (descend .builtin blocks fuel) (trace .builtin blocks fuel) blocks id b c name)
      (c.input (descend .builtin blocks fuel) blocks b name)

/-- The stack in an input is carried through. -/
def GoodBody (strict : Bool) (t : Tables) (name : String) : Prop :=
  ∀ c : Compiler, (c.body (descend .builtin blocks fuel) blocks b name).tables.Grows t →
    Carries strict t blocks ((trace .builtin blocks fuel).stack (bodyId? blocks b name) c)

/-- One line that does what a step says. -/
structure LineOf (t : Tables) (s : Recipe.Step) (l : Line) : Prop where
  block : l.block = some id
  takes : l.instruction.takes t = s.takes
  gives : l.instruction.gives t = s.gives
  settles : l.instruction.settles t = s.settles
  native : l.instruction.native? t = s.native?
  calm : l.opcode ≠ .initProcedure ∧ l.opcode ≠ .callProcedure

end

section

variable {strict : Bool} {t : Tables} {blocks : BlockMap} {fuel : Nat} {id : String} {b : Block}

lemma afterSteps_snoc (c : Compiler) (ss : List Recipe.Step) (s : Recipe.Step) :
    afterSteps blocks fuel b c (ss ++ [s]) =
      afterStep blocks fuel b (afterSteps blocks fuel b c ss) s := by
  rw [afterSteps, steps_append]
  rfl

lemma afterSteps_append (c : Compiler) (xs ys : List Recipe.Step) :
    afterSteps blocks fuel b c (xs ++ ys) =
      afterSteps blocks fuel b (afterSteps blocks fuel b c xs) ys :=
  steps_append .builtin blocks b c xs ys

lemma linesOf_append (c : Compiler) (xs ys : List Recipe.Step) :
    linesOf blocks fuel id b c (xs ++ ys) =
      linesOf blocks fuel id b c xs ++ linesOf blocks fuel id b (afterSteps blocks fuel b c xs) ys :=
  stepsLines_append _ _ _ _ c xs ys

lemma linesOf_snoc (c : Compiler) (ss : List Recipe.Step) (s : Recipe.Step) :
    linesOf blocks fuel id b c (ss ++ [s]) = linesOf blocks fuel id b c ss ++
      lineOf blocks fuel id b (afterSteps blocks fuel b c ss) s := by
  rw [linesOf_append]
  exact congrArg _ (List.append_nil _)

lemma grows_steps {ss : List Recipe.Step} (hss : .emit .warp ∉ ss) (c : Compiler) :
    c.tables.Grows (afterSteps blocks fuel b c ss).tables :=
  (composes_grows blocks).steps ((composes_grows blocks).descend fuel) "" b hss c

lemma native?_callNative (ht : t.Tidy) {c : Compiler} {n : Native} {i : Nat}
    (hi : (c.callNative n).tables.natives[i]? = some n) (hg : (c.callNative n).tables.Grows t) :
    (Instruction.mk .exec [UInt32.ofNat i]).native? t = some n := by
  rw [Instruction.native?_exec]
  exact get?_toNat_ofNat ht.natives_le (get?_mono hg.natives hi)

/-- A line without native. -/
lemma lineOf_plain {c c' : Compiler} {i : Instruction} {s : Recipe.Step} (he : c.Emits [i] c')
    (hx : i.opcode ≠ .exec) (htakes : i.opcode.takes = s.takes) (hgives : i.opcode.gives = s.gives)
    (hsettles : i.opcode.settles = s.settles) (hn : s.native? = none)
    (hcalm : i.opcode ≠ .initProcedure ∧ i.opcode ≠ .callProcedure) :
    ∃ l, added id c c' = [l] ∧ LineOf id t s l := by
  rw [added_of_code he.code]
  refine ⟨_, rfl, rfl, ?_, ?_, ?_, ?_, hcalm⟩
  · exact (Instruction.takes_of_ne hx).trans htakes
  · exact (Instruction.gives_of_ne hx).trans hgives
  · exact (Instruction.settles_of_ne hx).trans hsettles
  · exact (Instruction.native?_of_ne hx).trans hn.symm

/-- The steps that emit one instruction. -/
lemma lineOf_step (ht : t.Tidy) (id : String) {s : Recipe.Step} {done : List Recipe.Step}
    (hfed : s.isFed done = true) (hfield : ∀ f ∈ s.field?, (b.field? f).isSome = true)
    (hin : s.input? = none) (hbody : s.body? = none) (c : Compiler)
    (hg : (afterStep blocks fuel b c s).tables.Grows t) :
    lineOf blocks fuel id b c s = [] ∧ s.takes = 0 ∧ s.gives = 0 ∧ s.settles = false ∨
      ∃ l, lineOf blocks fuel id b c s = [l] ∧ LineOf id t s l := by
  cases s with
  | input name => cases hin
  | condition name => cases hin
  | body name => cases hbody
  | loopBody name => cases hbody
  | emit op =>
    simp only [Recipe.Step.isFed, Bool.and_eq_true, beq_iff_eq, bne_iff_ne] at hfed
    obtain ⟨⟨⟨hcount, hinit⟩, -⟩, -⟩ := hfed
    refine Or.inr (lineOf_plain (emits_emit c op) ?_ rfl rfl rfl rfl ⟨hinit, ?_⟩)
    · rintro rfl
      cases hcount
    · rintro rfl
      cases hcount
  | call n =>
    obtain ⟨i, he, hi⟩ := emits_callNative c n
    have hn := native?_callNative ht hi hg
    right
    simp only [lineOf, stepLines, step]
    rw [added_of_code he.code]
    exact ⟨_, rfl, rfl, Instruction.takes_of_native hn, Instruction.gives_of_native hn,
      Instruction.settles_of_native hn, hn, by simp [Line.opcode]⟩
  | const v =>
    obtain ⟨i, he, -⟩ := emits_const c v
    exact Or.inr (lineOf_plain he (by simp) rfl rfl rfl rfl (by simp))
  | field name =>
    obtain ⟨i, he, -⟩ := emits_const c (b.fieldValue name)
    exact Or.inr (lineOf_plain he (by simp) rfl rfl rfl rfl (by simp))
  | variableEntry =>
    refine Or.inl ⟨?_, rfl, rfl, rfl⟩
    simp only [lineOf, stepLines, step]
    split
    · exact added_of_code (emits_internVariable c _).code id
    · exact added_of_code (Emits.refl c).code id
  | listEntry =>
    refine Or.inl ⟨?_, rfl, rfl, rfl⟩
    simp only [lineOf, stepLines, step]
    split
    · exact added_of_code (emits_internList c _).code id
    · exact added_of_code (Emits.refl c).code id
  | var op =>
    obtain ⟨f, hf⟩ := Option.isSome_iff_exists.1 (hfield _ rfl)
    obtain ⟨i, x, he, -⟩ := emits_variableOp c op f.reference
    simp only [lineOf, stepLines, step, hf]
    exact Or.inr (lineOf_plain he (by simp) rfl rfl (by cases op <;> rfl) rfl (by simp))
  | list op =>
    obtain ⟨f, hf⟩ := Option.isSome_iff_exists.1 (hfield _ rfl)
    obtain ⟨i, x, he, -⟩ := emits_listOp c op f.reference
    simp only [lineOf, stepLines, step, hf]
    exact Or.inr (lineOf_plain he (by simp) rfl rfl (by cases op <;> rfl) rfl (by simp))

/-- A step that evaluates a value does so. -/
lemma evaluates_step {s : Recipe.Step} (hs : s.isValue = true)
    (hin : ∀ name ∈ s.input?, GoodInput blocks fuel id b t name) (c : Compiler)
    (hg : (afterStep blocks fuel b c s).tables.Grows t) :
    Evaluates t blocks c (lineOf blocks fuel id b c s) (afterStep blocks fuel b c s) := by
  cases s with
  | input name => exact hin name rfl c hg
  | condition name =>
    have hgood := hin name rfl c
    simp only [lineOf, afterStep, stepLines, step] at hg ⊢
    rcases condition_cases .builtin blocks b (descend .builtin blocks fuel) c name with he | he <;>
      rw [he] at hg ⊢
    · rw [added_of_code (Emits.refl _).code, List.map_nil, List.append_nil]
      exact hgood hg
    · have hn := ((hgood hg).negated id).negated id
      rw [List.append_assoc] at hn
      convert hn using 2
      rw [added_of_code (emits_not_not _).code, added_emit, added_emit]
      rfl
  | const v => exact evaluates_const c v id
  | field name => exact evaluates_const c _ id
  | _ => cases hs

/-- What one line does to the shape. -/
lemma LineOf.shape {s : Recipe.Step} {l : Line} (h : LineOf id t s l) (before : List Line) :
    Code.shape t (codeOf (before ++ [l])) = if s.settles then .blank else
      ⟨List.replicate s.gives (Code.extent (codeOf before)) ++
        (Code.shape t (codeOf before)).origins.drop s.takes,
        (Code.shape t (codeOf before)).pending⟩ := by
  rw [codeOf, List.map_append, List.map_singleton, Code.shape_snoc, Shape.step, h.settles]
  cases s.settles with
  | true => rfl
  | false =>
    simp only [Bool.false_eq_true, if_false, Shape.after, h.gives, h.takes]
    ext1
    · rfl
    · obtain ⟨h1, h2⟩ := h.calm
      simp only [Line.opcode] at h1 h2
      cases hop : l.instruction.opcode <;> simp_all

/-- What a step without stacks does to the shape. -/
lemma shape_step (ht : t.Tidy) {s : Recipe.Step} {done : List Recipe.Step}
    (hfed : s.isFed done = true) (hfield : ∀ f ∈ s.field?, (b.field? f).isSome = true)
    (hin : ∀ name ∈ s.input?, GoodInput blocks fuel id b t name) (hbody : s.body? = none)
    (c : Compiler) (hg : (afterStep blocks fuel b c s).tables.Grows t) (before : List Line) :
    Code.shape t (codeOf (before ++ lineOf blocks fuel id b c s)) = if s.settles then .blank else
      ⟨List.replicate s.gives (Code.extent (codeOf (before ++ (lineOf blocks fuel id b c s).dropLast)))
        ++ (Code.shape t (codeOf before)).origins.drop s.takes,
        (Code.shape t (codeOf before)).pending⟩ := by
  by_cases hval : s.isValue = true
  · have he := (evaluates_step hval hin c hg).pushes.shape (codeOf before)
    have hs := Recipe.Step.value_counts hval
    rw [hs.1, hs.2.1, hs.2.2]
    simp only [codeOf, List.map_append, List.map_dropLast] at he ⊢
    exact he
  · have hnone := Recipe.Step.input?_of_not_value hval
    rcases lineOf_step ht id hfed hfield hnone hbody c hg with ⟨hl, h1, h2, h3⟩ | ⟨l, hl, hline⟩
    · rw [hl, h1, h2, h3]
      simp
    · rw [hl, hline.shape before]
      simp

/-- A step without stacks finds its operands and moves the top of them. -/
lemma proper_step (ht : t.Tidy) {s : Recipe.Step} {done : List Recipe.Step}
    (hfed : s.isFed done = true) (hfield : ∀ f ∈ s.field?, (b.field? f).isSome = true)
    (hin : ∀ name ∈ s.input?, GoodInput blocks fuel id b t name) (hbody : s.body? = none)
    (c : Compiler) (hg : (afterStep blocks fuel b c s).tables.Grows t) {before : List Line} {h : Nat}
    (hf : Fits strict h (Code.shape t (codeOf before))) (htakes : s.takes ≤ h)
    (hzero : s.settles = true → h - s.takes + s.gives = 0)
    (hnative : ∀ n, s = .call n → ∀ l, LineOf id t s l → Fed t blocks before l n) :
    Throughout (Proper strict t blocks) before (lineOf blocks fuel id b c s) ∧
      Fits strict (h - s.takes + s.gives)
        (Code.shape t (codeOf (before ++ lineOf blocks fuel id b c s))) := by
  obtain ⟨base, hover, hbase⟩ := hf
  have hmove : ∀ a, Over base (h - s.takes + s.gives) ⟨List.replicate s.gives a ++
      (Code.shape t (codeOf before)).origins.drop s.takes, (Code.shape t (codeOf before)).pending⟩ := by
    intro a
    have := hover.move htakes (List.replicate s.gives a)
    rwa [List.length_replicate] at this
  constructor
  · by_cases hval : s.isValue = true
    · exact (evaluates_step hval hin c hg).strictly before
    · have hnone := Recipe.Step.input?_of_not_value hval
      rcases lineOf_step ht id hfed hfield hnone hbody c hg with ⟨hl, -⟩ | ⟨l, hl, hline⟩
      · rw [hl]
        exact throughout_nil _ _
      · rw [hl]
        refine throughout_one ⟨?_, fun hstrict hs => ?_, fun n hn => ?_⟩
        · rw [hline.takes]
          exact le_trans htakes hover.le
        · -- all that there was has been taken, and nothing is given
          obtain ⟨os, hos, hshape⟩ := hmove (Code.extent (codeOf before))
          rw [hzero (by rw [← hline.settles, hs]), List.length_eq_zero_iff] at hos
          rw [hbase hstrict, hos] at hshape
          simp only [Shape.after, hline.gives, hline.takes]
          obtain ⟨h1, h2⟩ := hline.calm
          simp only [Line.opcode] at h1 h2
          have horigins := congrArg Shape.origins hshape
          have hpending : (Code.shape t (codeOf before)).pending = 0 :=
            congrArg Shape.pending hshape
          ext1
          · exact horigins
          · -- it is none of those that prepare and make a call
            simp only
            exact hpending
        · rw [hline.native] at hn
          exact hnative n (Recipe.Step.eq_call_of_native? hn) l hline
  · rw [shape_step ht hfed hfield hin hbody c hg before]
    cases hs : s.settles with
    | true =>
      rw [hzero hs]
      exact fits_blank
    | false => exact ⟨base, hmove _, hbase⟩

/-! ### Natives and their inputs -/

/-- The lines of each step. -/
def segments (blocks : BlockMap) (fuel : Nat) (id : String) (b : Block) :
    Compiler → List Recipe.Step → List (List Line)
  | _, [] => []
  | c, s :: ss =>
    lineOf blocks fuel id b c s :: segments blocks fuel id b (afterStep blocks fuel b c s) ss

lemma flatten_segments (c : Compiler) (ss : List Recipe.Step) :
    (segments blocks fuel id b c ss).flatten = linesOf blocks fuel id b c ss := by
  induction ss generalizing c with
  | nil => rfl
  | cons s ss ih =>
    rw [segments, List.flatten_cons, ih]
    rfl

/-- Values one after the other. -/
lemma evaluates_segments {ss : List Recipe.Step} (hs : ∀ s ∈ ss, s.isValue = true)
    (hin : ∀ s ∈ ss, ∀ name ∈ s.input?, GoodInput blocks fuel id b t name) (c : Compiler)
    (hg : (afterSteps blocks fuel b c ss).tables.Grows t) :
    List.Forall₂ (InputOf t blocks id b) ss (segments blocks fuel id b c ss) := by
  induction ss generalizing c with
  | nil => exact .nil
  | cons s ss ih =>
    have hwarp : .emit .warp ∉ ss := fun h => by
      have := hs _ (List.mem_cons_of_mem _ h)
      cases this
    have hstep : (afterStep blocks fuel b c s).tables.Grows t :=
      (grows_steps hwarp (afterStep blocks fuel b c s)).trans hg
    refine .cons ⟨hs s (by simp), ?_, fuel, c, rfl⟩ (ih ?_ ?_ _ hg)
    · exact (evaluates_step (hs s (by simp)) (hin s (by simp)) c hstep).pushes
    · exact fun x hx => hs x (List.mem_cons_of_mem _ hx)
    · exact fun x hx => hin x (List.mem_cons_of_mem _ hx)

/-- Nothing settles among values. -/
lemma quiet_inputs {vs : List Recipe.Step} {segs : List (List Line)}
    (h : List.Forall₂ (InputOf t blocks id b) vs segs) :
    ∀ x ∈ segs.flatten, x.instruction.settles t = false := by
  induction h with
  | nil => simp
  | cons hs _ ih =>
    intro x hx
    rcases List.mem_append.1 hx with hx | hx
    · exact hs.pushes.quiet _ (List.mem_map_of_mem hx)
    · exact ih x hx

/-- What stands before a checkpoint, and the values after it. -/
lemma split_checkpoint {done : List Recipe.Step}
    (h : (done.reverse.dropWhile Recipe.Step.isValue).head? = some (.emit .checkpoint)) :
    ∃ zs vs, done = zs ++ .emit .checkpoint :: vs ∧ ∀ s ∈ vs, s.isValue = true := by
  obtain ⟨ys, hys⟩ := List.head?_eq_some_iff.1 h
  have hsplit := List.takeWhile_append_dropWhile (p := Recipe.Step.isValue) (l := done.reverse)
  have hall := List.all_takeWhile (p := Recipe.Step.isValue) (l := done.reverse)
  rw [hys] at hsplit
  generalize done.reverse.takeWhile Recipe.Step.isValue = vs at hsplit hall
  refine ⟨ys.reverse, vs.reverse, ?_, fun s hs => ?_⟩
  · rw [← List.reverse_reverse done, ← hsplit]
    simp
  · exact List.all_eq_true.1 hall s (List.mem_reverse.1 hs)

/-- A native that is called after some steps has its inputs. -/
lemma fed_call {plan : List Recipe.Step} (hplan : b.HasPlan plan) (hb : blocks.get? id = some b)
    {done rest : List Recipe.Step} {n : Native} (he : plan = done ++ .call n :: rest)
    (hfed : (Recipe.Step.call n).isFed done = true)
    (hin : ∀ s ∈ plan, ∀ name ∈ s.input?, GoodInput blocks fuel id b t name) (c : Compiler)
    (hg : (afterSteps blocks fuel b c done).tables.Grows t) (before : List Line) {l : Line}
    (hl : l.block = some id) :
    Fed t blocks (before ++ linesOf blocks fuel id b c done) l n := by
  simp only [Recipe.Step.isFed, Bool.and_eq_true, beq_iff_eq, decide_eq_true_eq, List.all_eq_true,
    Bool.or_eq_true, Bool.not_eq_true'] at hfed
  obtain ⟨⟨⟨hpops, hlen⟩, hvalues⟩, hretry⟩ := hfed
  have hmem : ∀ s ∈ done, s ∈ plan := fun s hs => by
    rw [he]
    exact List.mem_append_left _ hs
  -- the lines of the last steps are values, wherever the steps are cut
  have hcut : ∀ zs vs, done = zs ++ vs → (∀ s ∈ vs, s.isValue = true) →
      linesOf blocks fuel id b c done = linesOf blocks fuel id b c zs ++
          (segments blocks fuel id b (afterSteps blocks fuel b c zs) vs).flatten ∧
        List.Forall₂ (InputOf t blocks id b) vs
          (segments blocks fuel id b (afterSteps blocks fuel b c zs) vs) := by
    rintro zs vs rfl hvs
    refine ⟨by rw [linesOf_append, flatten_segments], ?_⟩
    refine evaluates_segments hvs (fun s hs => hin s (hmem s (List.mem_append_right _ hs))) _ ?_
    rwa [afterSteps_append] at hg
  refine ⟨hpops, ?_, fun hn => ?_⟩
  · obtain ⟨hlines, hsegs⟩ := hcut (done.take (done.length - n.arity))
      (done.drop (done.length - n.arity)) (List.take_append_drop _ _).symm hvalues
    refine ⟨id, b, done.take (done.length - n.arity), done.drop (done.length - n.arity), rest,
      before ++ linesOf blocks fuel id b c (done.take (done.length - n.arity)), _, hl, hb, ?_, ?_,
      by rw [hlines, List.append_assoc], hsegs⟩
    · rwa [← List.append_assoc, List.take_append_drop, ← he]
    · rw [List.length_drop]
      omega
  · obtain ⟨zs, vs, hdone, hvs⟩ := split_checkpoint (hretry.resolve_left (by simp [hn]))
    obtain ⟨hlines, hsegs⟩ := hcut (zs ++ [.emit .checkpoint]) vs (by rw [hdone]; simp) hvs
    refine ⟨before ++ linesOf blocks fuel id b c zs,
      bracket id .checkpoint (afterSteps blocks fuel b c zs),
      (segments blocks fuel id b (afterSteps blocks fuel b c (zs ++ [.emit .checkpoint])) vs).flatten,
      ?_, rfl, hl.symm, quiet_inputs hsegs⟩
    have hmark : lineOf blocks fuel id b (afterSteps blocks fuel b c zs) (.emit .checkpoint) =
        [bracket id .checkpoint (afterSteps blocks fuel b c zs)] := added_emit _ _ _
    rw [hlines, linesOf_snoc, hmark]
    simp only [List.append_assoc, List.singleton_append]

/-- The body of a loop pauses at its end, or does not. -/
lemma carries_loopBody {name : String} (hbody : GoodBody blocks fuel b strict t name) (c : Compiler)
    (hg : (afterStep blocks fuel b c (.loopBody name)).tables.Grows t) :
    Carries strict t blocks (lineOf blocks fuel id b c (.loopBody name)) := by
  have hgood := hbody c
  simp only [lineOf, afterStep, stepLines, step] at hg ⊢
  generalize c.body (descend .builtin blocks fuel) blocks b name = c' at hg hgood ⊢
  cases hw : c'.warp with
  | true =>
    simp only [hw, if_true] at hg ⊢
    rw [added_of_code (Emits.refl c').code, List.map_nil, List.append_nil]
    exact hgood hg
  | false =>
    simp only [hw, Bool.false_eq_true, if_false] at hg ⊢
    rw [added_emit]
    exact (hgood hg).append (carries_idle (by simp [Line.opcode, bracket]) rfl rfl rfl
      (by simp [Line.opcode, bracket]))

/-- Some steps of a recipe, taken in order, find their operands. -/
lemma proper_steps (ht : t.Tidy) {plan : List Recipe.Step} (hplan : b.HasPlan plan)
    (hb : blocks.get? id = some b)
    (hin : ∀ s ∈ plan, ∀ name ∈ s.input?, GoodInput blocks fuel id b t name)
    (hbody : ∀ s ∈ plan, ∀ name ∈ s.body?, GoodBody blocks fuel b strict t name) (c : Compiler)
    (before : List Line) {rest done more : List Recipe.Step} {h h' : Nat}
    (he : plan = done ++ (rest ++ more)) (hh : Recipe.height? done h rest = some h')
    (hg : (afterSteps blocks fuel b c (done ++ rest)).tables.Grows t)
    (hf : Fits strict h (Code.shape t (codeOf (before ++ linesOf blocks fuel id b c done)))) :
    Throughout (Proper strict t blocks) (before ++ linesOf blocks fuel id b c done)
        (linesOf blocks fuel id b (afterSteps blocks fuel b c done) rest) ∧
      Fits strict h' (Code.shape t (codeOf (before ++ linesOf blocks fuel id b c (done ++ rest)))) := by
  induction rest generalizing done h with
  | nil =>
    cases hh
    rw [List.append_nil]
    exact ⟨throughout_nil _ _, hf⟩
  | cons s rest ih =>
    obtain ⟨hfed, htakes, hzero, hrest⟩ := Recipe.height?_cons hh
    have hs : s ∈ plan := by simp [he]
    have hcons : done ++ s :: rest = (done ++ [s]) ++ rest := by simp
    have hwarp : .emit .warp ∉ s :: rest := fun hw => by
      obtain ⟨r, hr, hmem, -⟩ := hplan.mem
      refine no_warp_builtin r hr plan hmem ?_
      rw [he]
      exact List.mem_append_right _ (List.mem_append_left _ hw)
    have hgdone : (afterSteps blocks fuel b c done).tables.Grows t := by
      rw [afterSteps_append] at hg
      exact (grows_steps hwarp _).trans hg
    have hstep : (afterStep blocks fuel b (afterSteps blocks fuel b c done) s).tables.Grows t := by
      rw [hcons, afterSteps_append, afterSteps_snoc] at hg
      exact (grows_steps (fun hw => hwarp (List.mem_cons_of_mem _ hw)) _).trans hg
    -- the step itself: a stack, or what moves the top of the operands
    have hone : Throughout (Proper strict t blocks) (before ++ linesOf blocks fuel id b c done)
          (lineOf blocks fuel id b (afterSteps blocks fuel b c done) s) ∧
        Fits strict (h - s.takes + s.gives)
          (Code.shape t (codeOf (before ++ linesOf blocks fuel id b c (done ++ [s])))) := by
      rw [linesOf_snoc, ← List.append_assoc]
      have hstack : s.body? ≠ none → Carries strict t blocks
          (lineOf blocks fuel id b (afterSteps blocks fuel b c done) s) ∧
          s.settles = true ∧ s.takes = 0 ∧ s.gives = 0 := by
        intro hne
        cases s with
        | body name => exact ⟨hbody _ hs name rfl _ hstep, rfl, rfl, rfl⟩
        | loopBody name => exact ⟨carries_loopBody (hbody _ hs name rfl) _ hstep, rfl, rfl, rfl⟩
        | _ => exact absurd rfl hne
      by_cases hnone : s.body? = none
      · refine proper_step ht hfed (hplan.field s hs) (hin s hs) hnone _ hstep hf htakes hzero ?_
        rintro n rfl l hl
        exact fed_call hplan hb he hfed hin c hgdone before hl.block
      · obtain ⟨hcarries, hsettles, h1, h2⟩ := hstack hnone
        have hh0 := hzero hsettles
        rw [h1, h2] at hh0 ⊢
        simp only [Nat.sub_zero, Nat.add_zero] at hh0 ⊢
        rw [hh0] at hf ⊢
        exact hcarries _ hf
    obtain ⟨h1, h2⟩ := ih (by simp [he]) hrest (by rwa [hcons] at hg) hone.2
    rw [hcons]
    refine ⟨?_, h2⟩
    rw [linesOf_snoc, ← List.append_assoc, afterSteps_snoc] at h1
    exact hone.1.append h1

/-- The steps of a command. -/
lemma carries_plan (ht : t.Tidy) {plan : List Recipe.Step} (hplan : b.HasPlan plan)
    (hb : blocks.get? id = some b)
    (hin : ∀ s ∈ plan, ∀ name ∈ s.input?, GoodInput blocks fuel id b t name)
    (hbody : ∀ s ∈ plan, ∀ name ∈ s.body?, GoodBody blocks fuel b strict t name)
    (hbal : Recipe.isBalanced plan = true) (c : Compiler)
    (hg : (afterSteps blocks fuel b c plan).tables.Grows t) :
    Carries strict t blocks (linesOf blocks fuel id b c plan) := by
  intro before hf
  have hproper := proper_steps ht hplan hb hin hbody c before
    (show plan = [] ++ (plan ++ []) by simp) (beq_iff_eq.1 hbal) hg
    (by simpa [linesOf, stepsLines] using hf)
  simpa [linesOf, stepsLines, afterSteps] using hproper

/-! ### Steps of reporters -/

/-- Steps without stacks leave the signature as it is. -/
lemma signature_step {s : Recipe.Step} (hin : ∀ name ∈ s.input?, GoodInput blocks fuel id b t name)
    (hbody : s.body? = none) (c : Compiler) (hg : (afterStep blocks fuel b c s).tables.Grows t) :
    (afterStep blocks fuel b c s).signature = c.signature := by
  by_cases hval : s.isValue = true
  · exact (evaluates_step hval hin c hg).signature
  · cases s with
    | input name | condition name | const v | field name => exact absurd rfl hval
    | body name | loopBody name => cases hbody
    | emit op | call n => rfl
    | variableEntry | listEntry | var op | list op =>
      simp only [afterStep, step]
      split <;> rfl

/-- Some steps that do not settle, taken from a recipe, move the top of the operands. -/
lemma over_steps (ht : t.Tidy) {plan : List Recipe.Step} (hplan : b.HasPlan plan)
    (hin : ∀ s ∈ plan, ∀ name ∈ s.input?, GoodInput blocks fuel id b t name)
    (hquiet : ∀ s ∈ plan, s.settles = false) (c : Compiler) (before : List Line)
    {rest done more : List Recipe.Step} {h h' : Nat} {base : Shape}
    (he : plan = done ++ (rest ++ more)) (hh : Recipe.height? done h rest = some h')
    (hg : (afterSteps blocks fuel b c (done ++ rest)).tables.Grows t)
    (hf : Over base h (Code.shape t (codeOf (before ++ linesOf blocks fuel id b c done)))) :
    Over base h' (Code.shape t (codeOf (before ++ linesOf blocks fuel id b c (done ++ rest)))) ∧
      (afterSteps blocks fuel b c (done ++ rest)).signature =
        (afterSteps blocks fuel b c done).signature ∧
      ∀ l ∈ linesOf blocks fuel id b (afterSteps blocks fuel b c done) rest,
        l.instruction.settles t = false := by
  induction rest generalizing done h with
  | nil =>
    cases hh
    rw [List.append_nil]
    exact ⟨hf, rfl, by simp [linesOf, stepsLines]⟩
  | cons s rest ih =>
    obtain ⟨hfed, htakes, -, hrest⟩ := Recipe.height?_cons hh
    have hs : s ∈ plan := by simp [he]
    have hbody := Recipe.Step.body?_of_quiet (hquiet s hs)
    have hwarp : .emit .warp ∉ rest := fun hw => by
      have hmem : .emit .warp ∈ plan := by simp [he, hw]
      obtain ⟨r, hr, hmem', -⟩ := hplan.mem
      exact no_warp_builtin r hr plan hmem' hmem
    have hcons : done ++ s :: rest = (done ++ [s]) ++ rest := by simp
    have hstep : (afterStep blocks fuel b (afterSteps blocks fuel b c done) s).tables.Grows t := by
      rw [hcons, afterSteps_append, afterSteps_snoc] at hg
      exact (grows_steps hwarp _).trans hg
    have hover : Over base (h - s.takes + s.gives)
        (Code.shape t (codeOf (before ++ linesOf blocks fuel id b c (done ++ [s])))) := by
      rw [linesOf_snoc, ← List.append_assoc, shape_step ht hfed (hplan.field s hs) (hin s hs) hbody _
        hstep, hquiet s hs]
      have := hf.move htakes (List.replicate s.gives (Code.extent (codeOf
        ((before ++ linesOf blocks fuel id b c done) ++
          (lineOf blocks fuel id b (afterSteps blocks fuel b c done) s).dropLast))))
      rwa [List.length_replicate] at this
    have hcalm : ∀ l ∈ lineOf blocks fuel id b (afterSteps blocks fuel b c done) s,
        l.instruction.settles t = false := by
      intro l hl
      by_cases hval : s.isValue = true
      · exact (evaluates_step hval (hin s hs) _ hstep).pushes.quiet _ (List.mem_map_of_mem hl)
      · have hnone := Recipe.Step.input?_of_not_value hval
        rcases lineOf_step ht id hfed (hplan.field s hs) hnone hbody _ hstep with
          ⟨hnil, -⟩ | ⟨k, hk, hline⟩
        · rw [hnil] at hl
          cases hl
        · rw [hk, List.mem_singleton] at hl
          rw [hl, hline.settles, hquiet s hs]
    obtain ⟨h1, h2, h3⟩ := ih (by simp [he]) hrest (by rwa [hcons] at hg) hover
    rw [hcons]
    refine ⟨h1, ?_, ?_⟩
    · rw [h2, afterSteps_snoc]
      exact signature_step (hin s hs) hbody _ hstep
    · intro l hl
      rw [afterSteps_snoc] at h3
      rcases List.mem_append.1 hl with hl | hl
      · exact hcalm l hl
      · exact h3 l hl

/-- The steps of a reporter. -/
lemma evaluates_plan (ht : t.Tidy) {plan : List Recipe.Step} (hplan : b.HasPlan plan)
    (hb : blocks.get? id = some b)
    (hin : ∀ s ∈ plan, ∀ name ∈ s.input?, GoodInput blocks fuel id b t name)
    (hrep : Recipe.isReport plan = true) (c : Compiler)
    (hg : (afterSteps blocks fuel b c plan).tables.Grows t) :
    Evaluates t blocks c (linesOf blocks fuel id b c plan) (afterSteps blocks fuel b c plan) := by
  obtain ⟨hquiet, hone, xs, last, rfl, hgives, hfed, hxs⟩ := Recipe.isReport_split hrep
  have hbody : ∀ s ∈ xs ++ [last], s.body? = none := fun s hs =>
    Recipe.Step.body?_of_quiet (hquiet s hs)
  obtain ⟨r, hr, hmem, -⟩ := hplan.mem
  have hwarp := no_warp_builtin r hr _ hmem
  have hlast : last ∈ xs ++ [last] := by simp
  have hstep : (afterStep blocks fuel b (afterSteps blocks fuel b c xs) last).tables.Grows t := by
    rwa [afterSteps_snoc] at hg
  have hgx : (afterSteps blocks fuel b c xs).tables.Grows t := by
    rw [afterSteps_append] at hg
    exact (grows_steps (fun h => hwarp (List.mem_append_right _ h)) _).trans hg
  have hnil : ∀ before : List Line, before ++ linesOf blocks fuel id b c [] = before := fun before =>
    List.append_nil before
  have hwhole := over_steps ht hplan hin hquiet c []
    (show xs ++ [last] = [] ++ ((xs ++ [last]) ++ []) by simp) hone hg (Over.self _)
  refine ⟨⟨?_, fun before => ?_⟩, fun before => ?_, hwhole.2.1⟩
  · intro i hi
    obtain ⟨l, hl, rfl⟩ := List.mem_map.1 hi
    exact hwhole.2.2 l hl
  · -- the last step takes all that the others gave
    obtain ⟨before, rfl⟩ : ∃ ls : List Line, codeOf ls = before :=
      ⟨before.map fun i => ⟨i, none, none, false⟩, by simp [Function.comp_def]⟩
    obtain ⟨⟨os, hos, hshape⟩, -⟩ := over_steps ht hplan hin hquiet c before
      (show xs ++ [last] = [] ++ (xs ++ [last]) from rfl) hxs hgx (by rw [hnil]; exact Over.self _)
    rw [List.nil_append] at hshape
    have hend := shape_step ht hfed (hplan.field last hlast) (hin last hlast) (hbody last hlast) _
      hstep (before ++ linesOf blocks fuel id b c xs)
    have hne : lineOf blocks fuel id b (afterSteps blocks fuel b c xs) last ≠ [] := by
      by_cases hval : last.isValue = true
      · exact (evaluates_step hval (hin last hlast) _ hstep).ne_nil
      · rcases lineOf_step ht id hfed (hplan.field last hlast)
          (Recipe.Step.input?_of_not_value hval) (hbody last hlast) _ hstep with
          ⟨-, -, hnone, -⟩ | ⟨l, hl, -⟩
        · rw [hgives] at hnone
          cases hnone
        · rw [hl]
          simp
    rw [hquiet last hlast, hgives, hshape, ← hos] at hend
    simp only [Bool.false_eq_true, if_false, List.drop_left, List.append_assoc] at hend
    rw [← List.map_dropLast, ← List.map_append, linesOf_snoc, List.dropLast_append_of_ne_nil hne]
    rw [← List.map_append]
    exact hend
  · have hfits : Fits false 0 (Code.shape t (codeOf (before ++ linesOf blocks fuel id b c []))) :=
      fits_loose _
    have hproper := proper_steps ht hplan hb hin
      (fun s hs name hname => by simp [hbody s hs] at hname) c before
      (show xs ++ [last] = [] ++ ((xs ++ [last]) ++ []) by simp) hone hg hfits
    rw [hnil] at hproper
    exact hproper.1

end

end Compiler

end Blockwork
