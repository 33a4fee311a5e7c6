import Blockwork.Proofs.Correct.Commands
import Blockwork.Proofs.Machine.Slices

/-!
Scripts are compiled correctly. The code of a stack does what the interpreter does, by induction on
the steps of the interpreter: a custom block may call itself, so neither the blocks nor the code
give an order to go by.
-/

namespace Blockwork

namespace Compiler

open Machine (Performs bodyCode)

variable {blocks : BlockMap}

/-- Under a block that is no head of a custom block nothing gets a name. -/
lemma below_of_no_head {b : Block} (h : b.head? blocks = none) (s : Scene) :
    s.below blocks b = s := by
  simp [Scene.below, h]

/-- An input that names a missing block holds no stack. -/
lemma runStack_bodyId? (hkey : blocks.Keyed) (b : Block) (name : String) (steps : Nat) (s : Scene)
    (w : World) :
    runStack blocks steps s (b.plugged? name) w = runStack blocks steps s (bodyId? blocks b name) w := by
  cases steps with
  | zero => rfl
  | succ steps =>
    cases hid : bodyId? blocks b name with
    | some id => rw [(bodyId?_eq_some hkey hid).1]
    | none =>
      have hnone : (b.plugged? name).bind blocks.get? = none := by
        simpa [bodyId?, pluggedBlock?] using hid
      simp [runStack, hnone]

/-- What is to be shown for a number of steps of the interpreter: wherever it is deep enough to
follow a stack, the code does what the interpreter does. -/
def EnactsStacks (blocks : BlockMap) (steps : Nat) : Prop :=
  ∀ (fuel : Nat) (first : Option String) (c : Compiler),
    (∀ id ∈ first, (blocks.get? id).isSome → blocks.rank id < fuel) →
    (∀ id ∈ first, ∀ x ∈ blocks.get? id, x.head? blocks = none) → c.Known blocks →
    c.Enacts blocks (fun s w => runStack blocks steps s first w)
      ((descend .builtin blocks fuel).stack first c)

section

variable (hk : blocks.WellKinded) (ha : blocks.Acyclic) (hkey : blocks.Keyed) (ho : blocks.Orderly)

include hk ha in
/-- What stands for the inputs of a block gives its value. -/
lemma givesInputs {id : String} {b : Block} (hb : blocks.get? id = some b) {fuel : Nat}
    (hfuel : blocks.rank id ≤ fuel) :
    GivesInputs (descend .builtin blocks fuel) blocks b (evaluate blocks) := by
  intro name id' hn hs c
  have hlt := BlockMap.rank_lt ha (BlockMap.leads_of_source hb hs)
  exact gives_evaluate hk.values ha (by omega) (fun x hx => hk.value hb hn hs hx) c

include ha hkey ho in
lemma enactsBodies {steps : Nat} (h : EnactsStacks blocks steps) {id : String} {b : Block}
    (hb : blocks.get? id = some b) {fuel : Nat} (hfuel : blocks.rank id ≤ fuel) :
    EnactsBodies (descend .builtin blocks fuel) blocks b (runStack blocks steps) := by
  intro name c hc
  refine (h fuel (bodyId? blocks b name) c (fun id' hid' hsome => ?_) (fun id' hid' => ?_)
    hc).congr fun s w _ => runStack_bodyId? hkey b name steps s w
  · have hplug := (bodyId?_eq_some hkey hid').1
    have hlt := BlockMap.rank_lt ha (BlockMap.leads_of_plugged hb hplug hsome)
    omega
  · obtain ⟨hplug, hsome⟩ := bodyId?_eq_some hkey hid'
    exact head?_of_leads ho (BlockMap.leads_of_plugged hb hplug hsome)

include hk ha hkey ho in
/-- One more step of the interpreter. -/
lemma enactsStacks_succ {steps : Nat} (h : EnactsStacks blocks steps)
    (hcustom : Custom blocks (runStack blocks steps)) : EnactsStacks blocks (steps + 1) := by
  intro fuel first c hrank hhead hc
  cases hfirst : first.bind blocks.get? with
  | none =>
    rw [stack_of_none hfirst]
    refine (enacts_nothing (.refl c)).congr fun s w _ => ?_
    simp only [runStack, hfirst]
  | some b =>
    obtain ⟨id, rfl, hb⟩ := Option.bind_eq_some_iff.1 hfirst
    have hno := hhead id rfl b hb
    obtain ⟨fuel, rfl⟩ : ∃ k, fuel = k + 1 :=
      ⟨fuel - 1, by have := hrank id rfl (by simp [hb]); omega⟩
    have hfuel : blocks.rank id ≤ fuel := Nat.le_of_lt_succ (hrank id rfl (by simp [hb]))
    have hkeeping : (descend .builtin blocks fuel).Keeping blocks b :=
      keeping_of_descend hkey ho (keeps_descend hkey ho fuel).1 (keeps_descend hkey ho fuel).2 hb
    have hblock := enacts_block id (sound_descend blocks fuel) hkeeping
      (givesInputs hk ha hb hfuel) (enactsBodies ha hkey ho h hb hfuel) ho hno hcustom hc steps
    have hbelow := h fuel b.next _ (fun id' hid' hsome => by
      have := BlockMap.rank_lt ha (BlockMap.leads_of_next hb hid' hsome)
      omega) (head?_below ho hb) ((keeps_command hkeeping hno id c).known hc)
    rw [stack_of_some hb]
    refine (hblock.trans hbelow).congr fun s w _ => ?_
    simp only [runStack, hfirst, below_of_no_head hno]
    rfl

/-! ### Heads of custom blocks -/

/-- The head of a custom block gives names to its arguments. -/
lemma runStack_head {id : String} {b : Block} {d : Signature} (hb : blocks.get? id = some b)
    (h : b.head? blocks = some d) (steps : Nat) (s : Scene) (w : World) :
    runStack blocks (steps + 1) s (some id) w =
      runStack blocks steps { s with signature := some d } b.next w := by
  obtain ⟨hhat, hrec, -⟩ := Palette.kind_definition
  have hof : Command.of? "procedures_definition" = some .head := by decide
  have hrun : runBlock blocks (runStack blocks steps) steps s b w = some (.done, w) := by
    simp only [runBlock, opcode_of_head? h, hhat, hrec, hof]
    rfl
  have hbelow : s.below blocks b = { s with signature := some d } := by
    simp [Scene.below, h]
  simp only [runStack, Option.bind_some, hb, hrun, hbelow]

/-- The instruction that the head of a custom block leaves. -/
def headCode (d : Signature) : List Instruction := if d.warp then [⟨.warp, []⟩] else []

lemma code_head {b : Block} {d : Signature} (h : b.head? blocks = some d) (c : Compiler) :
    (c.head blocks b).code = c.code ++ headCode d := by
  have hdefine : (c.define d).code = c.code := by
    have := (emits_internProcedure c d.code).code
    simpa [define] using this
  rw [head_of_head? (opcode_of_head? h) h, headCode]
  split
  · rw [(emits_emit _ .warp).code, hdefine]
  · rw [hdefine, List.append_nil]

include ha ho in
/-- The script of a custom block is its head and code that does what its stack does. -/
lemma enacts_root_head {steps : Nat} (h : EnactsStacks blocks steps) {id : String} {b : Block}
    {d : Signature} (hb : blocks.get? id = some b) (hd : b.head? blocks = some d) {c : Compiler}
    (hc : c.Known blocks) :
    ∃ is, (c.root .builtin blocks id .script).code = c.code ++ (headCode d ++ is) ∧
      Code.AllFull is ∧
      ∀ (p : Program) (s : Scene), (c.root .builtin blocks id .script).Suits p s →
        Linked blocks p.tables → ∀ w r, runStack blocks steps s b.next w = some r →
          Performs p s is w r := by
  have hrank : ∀ id' ∈ b.next, (blocks.get? id').isSome → blocks.rank id' < 2 * blocks.size := by
    intro id' hid' hsome
    have hlt := BlockMap.rank_lt ha (BlockMap.leads_of_next hb hid' hsome)
    have hle := BlockMap.rank_le blocks id
    omega
  obtain ⟨is, hi, hf, hp⟩ := h (2 * blocks.size) b.next (c.head blocks b) hrank (head?_below ho hb)
    ((rooted_head ho hb hd c).known hc)
  rw [root_head hb hd]
  exact ⟨is, by rw [hi.code, code_head hd, List.append_assoc], hf, hp⟩

include ha hkey ho in
/-- The bodies that calls find do what the stacks of the custom blocks do. -/
lemma custom_runStack (hn : blocks.NamesFit) {steps : Nat} (h : EnactsStacks blocks steps) :
    Custom blocks (runStack blocks (steps + 1)) := by
  intro code id d hhead p hl hsmall i hi s args w r hr
  obtain ⟨e, he, hat⟩ := List.exists_of_findSome?_eq_some hhead
  obtain ⟨-, hd, -, rfl⟩ := BlockMap.headAt?_eq_some.1 hat
  have hb := hkey.get? he
  obtain ⟨c, i', hc, hi', hbody, hgrows⟩ := hl.bodied code e.1 d hhead
  obtain ⟨is, hcode, hf, hp⟩ := enacts_root_head ha ho h hb hd (c := c.fresh.emit .start) hc
  -- the codes of custom blocks are told apart
  obtain rfl : i = i' := by
    have hlt := lt_of_get? hi
    exact (List.getElem?_inj hlt hl.tidy.codes).1 (hi.trans hi'.symm)
  have hfull : Code.AllFull (headCode d ++ is) := by
    refine .append ?_ hf
    unfold headCode
    split
    · exact allFull_emit rfl
    · simp [Code.AllFull]
  refine ⟨is, ⟨?_, Code.allFull_framed hfull⟩, ?_⟩
  · simp only [Program.code?, hbody, Option.join_some]
    exact congrArg some (compile_eq_framed hcode)
  · rw [runStack_head hb hd] at hr
    refine hp p _ ⟨?_, hsmall, ?_, ?_⟩ hl w r hr
    · exact (grows_end c blocks e.1 .script).trans hgrows
    · exact (signature_root_head hkey ho hb hd _).symm
    · intro sig hsig
      cases hsig
      exact hn e he d hd

include hk ha hkey ho in
/-- **Stacks**: the code of a stack does what the interpreter does. -/
theorem enactsStacks (hn : blocks.NamesFit) (steps : Nat) : EnactsStacks blocks steps := by
  induction steps using Nat.strong_induction_on with
  | _ steps ih =>
    cases steps with
    | zero =>
      intro fuel first c _ hhead hc
      exact enacts_never ((sound_descend blocks fuel).stack first c)
        ((keeps_descend hkey ho fuel).2 first hhead c)
    | succ steps =>
      refine enactsStacks_succ hk ha hkey ho (ih steps (by omega)) ?_
      cases steps with
      | zero => intro _ _ _ _ _ _ _ _ _ _ _ _ _ hr; cases hr
      | succ steps => exact custom_runStack ha hkey ho hn (ih steps (by omega))

end

/-- The code of any script, between its start and its end. -/
lemma enacts_root (hk : blocks.WellKinded) (ha : blocks.Acyclic) (hkey : blocks.Keyed)
    (ho : blocks.Orderly) (hn : blocks.NamesFit) (steps : Nat) (root : String) {c : Compiler}
    (hc : c.Known blocks) (hsig : c.signature = none) :
    ∃ (warp : Bool) (is : List Instruction) (sig : Option Signature),
      (c.root .builtin blocks root .script).code =
        c.code ++ ((if warp then [⟨.warp, []⟩] else []) ++ is) ∧ Code.AllFull is ∧
      ∀ (p : Program) (s : Scene), s.signature = none → p.tables.Small →
        (c.root .builtin blocks root .script).tables.Grows p.tables → Linked blocks p.tables →
        ∀ w r, runStack blocks steps s (some root) w = some r →
          Performs p { s with signature := sig } is w r := by
  have hstacks := enactsStacks hk ha hkey ho hn
  by_cases hroot : ∀ x ∈ blocks.get? root, x.head? blocks = none
  · have hrank : blocks.rank root < depth blocks := by
      have := BlockMap.rank_le blocks root
      unfold depth
      omega
    obtain ⟨is, hi, hf, hp⟩ := hstacks steps (depth blocks) (some root) c
      (fun id hid _ => by cases hid; exact hrank) (fun id hid => by cases hid; exact hroot) hc
    refine ⟨false, is, none, hi.code, hf, fun p s hs hsmall hgrows hl w r hr => ?_⟩
    have hs' : { s with signature := none } = s := by rw [← hs]
    rw [hs']
    exact hp p s ⟨hgrows, hsmall, by rw [hs, hi.signature, hsig], by simp [hs]⟩ hl w r hr
  · obtain ⟨b, hb, h⟩ : ∃ b, blocks.get? root = some b ∧ b.head? blocks ≠ none := by
      simpa only [not_forall, exists_prop, Option.mem_def] using hroot
    obtain ⟨d, hd⟩ := Option.ne_none_iff_exists'.1 h
    cases steps with
    | zero =>
      obtain ⟨is, hcode, hf, -⟩ := enacts_root_head ha ho (hstacks 0) hb hd hc
      exact ⟨d.warp, is, none, hcode, hf, fun _ _ _ _ _ _ _ _ hr => by cases hr⟩
    | succ steps =>
      obtain ⟨is, hcode, hf, hp⟩ := enacts_root_head ha ho (hstacks steps) hb hd hc
      refine ⟨d.warp, is, some d, hcode, hf, fun p s _ hsmall hgrows hl w r hr => ?_⟩
      rw [runStack_head hb hd] at hr
      refine hp p _ ⟨hgrows, hsmall, (signature_root_head hkey ho hb hd c).symm, ?_⟩ hl w r hr
      intro sig hsig'
      cases hsig'
      exact hn (root, b) (Dictionary.mem_of_get? hb) d hd

end Compiler

/-! ### Running a script -/

namespace Machine

lemma steady_new (p : Program) (target : TargetId) (w : World) :
    Steady p (.new target (new p target w).2.targets) (new p target w).1 :=
  ⟨acts_new p target w, by simp [new, reset]⟩

/-- What the arguments are called is no matter of the machine. -/
lemma Steady.named {p : Program} {s : Scene} {m : Machine} (h : Steady p s m)
    (sig : Option Signature) : Steady p { s with signature := sig } m :=
  ⟨⟨h.running, h.promise, h.target, h.vars, h.lists, h.arguments⟩, h.loops⟩

lemma enterWarp_put (m : Machine) (a : Nat) (st : List Value) :
    (m.put a st).enterWarp = m.enterWarp.put a st := by
  unfold enterWarp
  rw [put_calls]
  repeat' split
  all_goals rfl

lemma enterWarp_stack (m : Machine) : m.enterWarp.stack = m.stack := by
  unfold enterWarp
  repeat' split
  all_goals rfl

lemma enterWarp_script {m : Machine} {call : Call} (hc : m.calls = [call]) :
    ∃ call', m.enterWarp.calls = [call'] ∧ call'.routine = call.routine := by
  unfold enterWarp
  rw [hc]
  simp only
  split
  · exact ⟨call, hc, rfl⟩
  · exact ⟨_, rfl, rfl⟩

lemma Steady.enterWarp {p : Program} {s : Scene} {m : Machine} (h : Steady p s m) :
    Steady p s m.enterWarp := by
  unfold Machine.enterWarp
  cases hc : m.calls with
  | nil => exact h
  | cons c rest =>
    have hargs := h.arguments
    have hloops := h.loops
    rw [hc] at hargs hloops
    simp only
    split
    · exact h
    · exact ⟨⟨h.running, h.promise, h.target, h.vars, h.lists, hargs⟩, by simpa using hloops⟩

/-- A script runs to its end. -/
lemma reaches_end {p : Program} {s : Scene} {m : Machine} (hm : Steady p s m) {call : Call}
    (hc : m.calls = [call]) (ha : m.address = 0) {warp : Bool} {is : List Instruction}
    (hp : p.Holds call.routine (bodyCode warp is)) {sig : Option Signature} {w : World}
    {r : Ending × World} (h : Performs p { s with signature := sig } is w r) :
    ∃ m', Reaches p (m, w) (m', r.2) ∧ m'.status = .finished := by
  set top : List Instruction := ⟨.start, []⟩ :: if warp then [⟨.warp, []⟩] else [] with htop
  have hcode : p.Holds call.routine (top ++ (is ++ [⟨.halt, []⟩])) := by
    simpa [bodyCode, Code.framed, htop] using hp
  have hroutine : ∀ {m : Machine} {c : Call}, m.calls = [c] → m.routine = c.routine := by
    intro m c h
    simp [routine, h]
  -- the mark of warp mode changes nothing that the rest of the script depends on
  obtain ⟨m₁, call₁, hreach, hm₁, hc₁, hr₁⟩ : ∃ (m₁ : Machine) (call₁ : Call),
      Reaches p (m, w) (m₁.put (Code.extent top) m₁.stack, w) ∧ Steady p s m₁ ∧
        m₁.calls = [call₁] ∧ call₁.routine = call.routine := by
    have hstart := @reaches_idle p m hm.running m.stack w [] _ .start (Or.inl rfl)
      (by rw [hroutine hc]; exact hcode)
    rw [Code.extent_nil, ← ha, put_self] at hstart
    cases warp with
    | false => exact ⟨m, call, hstart, hm, hc, rfl⟩
    | true =>
      have hwarp := @reaches_execute p m hm.running m.stack w [⟨.start, []⟩] _ ⟨.warp, []⟩
        (by rw [hroutine hc]; exact hcode) _ rfl
      obtain ⟨call', hc', hr'⟩ := enterWarp_script hc
      refine ⟨m.enterWarp, call', hstart.trans ?_, hm.enterWarp, hc', hr'⟩
      simp only [execute, enterWarp_put] at hwarp
      rw [enterWarp_stack]
      exact hwarp
  have hfinish : ∀ a st, (m₁.put a st).stopScript.status = .finished := by
    intro a st
    simp [stopScript, hc₁, finish]
  rw [← hr₁, ← hroutine hc₁] at hcode
  have hends := h.from hcode (hm₁.named sig)
  obtain ⟨e, w'⟩ := r
  cases e with
  | stopped =>
    obtain ⟨b, hb⟩ := hends
    exact ⟨_, hreach.trans hb, hfinish b _⟩
  | done =>
    have hhalt := (@runs_halt p (m₁.put (Code.extent (top ++ is)) m₁.stack) (top ++ is) []
      (by simpa using hcode) rfl hm₁.running w').reaches
    exact ⟨_, hreach.trans (Reaches.trans hends hhalt), hfinish _ _⟩

end Machine

namespace Thread

/-- **Scripts**: take a well-kinded map without cycles in which custom blocks are defined by scripts
of their own. If the interpreter comes to the end of a script, then a thread that runs the code of
the script in slices finishes and has done the same to the world, whatever has been compiled with
the same compiler before and after, and whatever has happened to the world since the thread was
made. -/
theorem run_correct {blocks : BlockMap} (hk : blocks.WellKinded) (ha : blocks.Acyclic)
    (hkey : blocks.Keyed) (ho : blocks.Orderly) (hn : blocks.NamesFit)
    (before later : List (String × Compiler.Mode)) (root : String) (predicate : Option Code)
    (id : ThreadId) (script : Nat) (target : TargetId) (w w₁ : World) :
    let c := (Engine.compileDefinitions .builtin blocks .new).compileAll .builtin blocks before
    let unit := c.compile .builtin blocks root .script
    let p : Program := ⟨unit.1, predicate, (unit.2.compileAll .builtin blocks later).tables⟩
    let made := Thread.new id script p target w
    p.tables.Small → ∀ steps ending w',
      runStack blocks steps (.new target made.2.targets) (some root)
        { w₁ with currentThread := id } = some (ending, w') →
      ∃ n, ∀ fuel ≥ n, ∀ k ≥ n,
        (turns fuel k (made.1, w₁)).1.isFinished = true ∧ (turns fuel k (made.1, w₁)).2 = w' := by
  intro c unit p made hsmall steps ending w' hrun
  obtain ⟨hknown, hlinked⟩ := Compiler.linked_definitions hkey ho
  have hc : c.Known blocks := Compiler.known_compileAll hkey ho hknown before
  have hl : Compiler.Linked blocks p.tables :=
    ((hlinked.compileAll hkey ho before).compileAll hkey ho [(root, .script)]).compileAll hkey ho later
  obtain ⟨warp, is, sig, hcode, hf, hperf⟩ := Compiler.enacts_root hk ha hkey ho hn steps root
    (c := c.fresh.emit .start) hc rfl
  have hgrows : ((c.fresh.emit .start).root .builtin blocks root .script).tables.Grows p.tables :=
    (Compiler.grows_end c blocks root .script).trans (Compiler.grows_compileAll _ blocks later)
  have hmain : p.Holds .main (Machine.bodyCode warp is) := by
    refine ⟨congrArg some (Compiler.compile_eq_framed hcode), Code.allFull_framed (.append ?_ hf)⟩
    split
    · exact Compiler.allFull_emit rfl
    · simp [Code.AllFull]
  obtain ⟨m, hreach, hm⟩ := Machine.reaches_end (Machine.steady_new p target w) rfl rfl hmain
    (hperf p _ rfl hsmall hgrows hl _ _ hrun)
  exact finishes_of_reaches hreach rfl hm

/-- A sprite with a variable. -/
def sprite : World :=
  { targets := ⟨[⟨0, some { name := "Sprite", isStage := false
                            vars := [{ id := "sum", name := "sum", value := .number 0 }] }⟩], []⟩ }

/-- The value of the variable. -/
def sum? (w : World) : Option Value :=
  ((w.targets.get? ⟨0, 0⟩).bind (·.variableNamed? "sum")).map (·.value)

/-- Adds up the numbers from the argument down to one, by a custom block that calls itself, and
does so twice. -/
def summing : BlockMap := .ofList [
  ("again", { id := "again", opcode := "control_repeat", topLevel := true
              inputs := .ofList [("TIMES", { value := some (.value (.number 2)) }),
                ("SUBSTACK", { value := some (.block "call") })] }),
  ("call", { id := "call", opcode := "procedures_call"
             mutation := some { code := some "down %s", argumentIds := some "[\"a\"]" }
             inputs := .ofList [("a", { value := some (.value (.number 2)) })] }),
  ("down", { id := "down", opcode := "procedures_definition", next := some "if", topLevel := true
             inputs := .ofList [("custom_block", { value := some (.block "signature") })] }),
  ("signature", { id := "signature", opcode := "procedures_prototype"
                  mutation := some { code := some "down %s", argumentIds := some "[\"a\"]"
                                     argumentNames := some "[\"n\"]" } }),
  ("if", { id := "if", opcode := "control_if", next := some "change"
           inputs := .ofList [("CONDITION", { value := some (.block "less") }),
             ("SUBSTACK", { value := some (.block "stop") })] }),
  ("less", { id := "less", opcode := "operator_lt"
             inputs := .ofList [("OPERAND1", { value := some (.block "n") }),
               ("OPERAND2", { value := some (.value (.number 1)) })] }),
  ("stop", { id := "stop", opcode := "control_stop"
             fields := .ofList [("STOP_OPTION", { value := .text "this script" })] }),
  ("change", { id := "change", opcode := "data_changevariableby", next := some "deeper"
               fields := .ofList [("VARIABLE", { value := .text "sum", id := some "sum" })]
               inputs := .ofList [("VALUE", { value := some (.block "n") })] }),
  ("deeper", { id := "deeper", opcode := "procedures_call"
               mutation := some { code := some "down %s", argumentIds := some "[\"a\"]" }
               inputs := .ofList [("a", { value := some (.block "minus") })] }),
  ("minus", { id := "minus", opcode := "operator_subtract"
              inputs := .ofList [("NUM1", { value := some (.block "n") }),
                ("NUM2", { value := some (.value (.number 1)) })] }),
  ("n", { id := "n", opcode := "argument_reporter_string_number"
          fields := .ofList [("VALUE", { value := .text "n" })] })]

/-- The script gives way at the end of each round and before each call of the custom block by
itself, and adds up to six. -/
theorem run_summing :
    let unit := (Engine.compileDefinitions .builtin summing .new).compile .builtin summing "again"
      .script
    let made := Thread.new 0 0 ⟨unit.1, none, unit.2.tables⟩ ⟨0, 0⟩ sprite
    ∃ n, ∀ fuel ≥ n, ∀ k ≥ n, (turns fuel k (made.1, sprite)).1.isFinished = true ∧
      sum? (turns fuel k (made.1, sprite)).2 = some (.number 6) := by
  intro unit made
  have hacyclic : summing.Acyclic := BlockMap.acyclic_of_falling
    ["n", "stop", "signature", "call", "less", "minus", "deeper", "change", "if", "down",
      "again"].idxOf (by decide +kernel)
  have hrun : (runStack summing 20 (.new ⟨0, 0⟩ made.2.targets) (some "again")
      { sprite with currentThread := 0 }).map (fun r => sum? r.2) = some (some (.number 6)) := by
    decide +kernel
  obtain ⟨⟨ending, w'⟩, hr, hsum⟩ := Option.map_eq_some_iff.1 hrun
  obtain ⟨n, hn⟩ := run_correct (by decide +kernel) hacyclic (by decide +kernel)
    (by decide +kernel) (by decide +kernel) [] [] "again" none 0 0 ⟨0, 0⟩ sprite sprite
    (by decide +kernel) 20 ending w' hr
  refine ⟨n, fun fuel hfuel k hk => ⟨(hn fuel hfuel k hk).1, ?_⟩⟩
  rw [← hsum]
  exact congrArg sum? (hn fuel hfuel k hk).2

/-- A custom block that calls another one without its argument. That one has a default of its own, but
a prototype that belongs to no definition comes first in the map. -/
def strayed : BlockMap := .ofList [
  ("flag", { id := "flag", opcode := "event_whenflagclicked", next := some "callOuter"
             topLevel := true }),
  ("callOuter", { id := "callOuter", opcode := "procedures_call"
                  mutation := some { code := some "outer" } }),
  ("aouter", { id := "aouter", opcode := "procedures_definition", next := some "inner"
               topLevel := true
               inputs := .ofList [("custom_block", { value := some (.block "protoO") })] }),
  ("protoO", { id := "protoO", opcode := "procedures_prototype"
               mutation := some { code := some "outer" } }),
  ("inner", { id := "inner", opcode := "procedures_call"
              mutation := some { code := some "put %s", argumentIds := some "[\"a\"]" } }),
  ("zput", { id := "zput", opcode := "procedures_definition", next := some "set", topLevel := true
             inputs := .ofList [("custom_block", { value := some (.block "protoP") })] }),
  ("protoP", { id := "protoP", opcode := "procedures_prototype"
               mutation := some { code := some "put %s", argumentIds := some "[\"a\"]"
                                  argumentNames := some "[\"x\"]"
                                  argumentDefaults := some "[\"own\"]" } }),
  ("set", { id := "set", opcode := "data_setvariableto"
            fields := .ofList [("VARIABLE", { value := .text "sum", id := some "sum" })]
            inputs := .ofList [("VALUE", { value := some (.block "arg") })] }),
  ("arg", { id := "arg", opcode := "argument_reporter_string_number"
            fields := .ofList [("VALUE", { value := .text "x" })] }),
  ("astray", { id := "astray", opcode := "procedures_prototype"
               mutation := some { code := some "put %s", argumentIds := some "[\"a\"]"
                                  argumentNames := some "[\"x\"]"
                                  argumentDefaults := some "[\"stray\"]" } })]

/-- The call in the first custom block is compiled before the definition of the second one, and takes
the default of the stray prototype: the first signature with some code must be that of the
definition. -/
theorem run_strayed :
    let unit := (Engine.compileDefinitions .builtin strayed .new).compile .builtin strayed "flag"
      .script
    let made := Thread.new 0 0 ⟨unit.1, none, unit.2.tables⟩ ⟨0, 0⟩ sprite
    strayed.WellKinded ∧ strayed.Acyclic ∧
      (strayed.entries.filterMap fun e => (e.2.head? strayed).map (·.code)).Nodup ∧
      (runStack strayed 20 (.new ⟨0, 0⟩ made.2.targets) (some "flag")
        { sprite with currentThread := 0 }).map (fun r => sum? r.2) = some (some (.text "own")) ∧
      (turns 100 1 (made.1, sprite)).1.isFinished = true ∧
      sum? (turns 100 1 (made.1, sprite)).2 = some (.text "stray") := by
  refine ⟨by decide +kernel, BlockMap.acyclic_of_falling
    ["arg", "protoO", "protoP", "astray", "set", "zput", "inner", "aouter", "callOuter",
      "flag"].idxOf (by decide +kernel), ?_⟩
  decide +kernel

end Thread

end Blockwork
