import Blockwork.Proofs.Code.Loops
import Blockwork.Proofs.Compile.Discipline

/-!
What one step can do. A machine that stands at a line of a routine, with the loops around the line
open and the operands of the line on its stack, goes on in the same activation, calls a custom block,
goes back to the caller, or is finished. All that later modules say about runs is derived from this.
-/

namespace Blockwork

namespace Native

/-- What a native may do to the machine that calls it. -/
inductive Outcome (n : Native) (m : Machine) : Reply → Prop
  | stays {timer : Option Machine.Timer} {promise : Option Promise} {w : World} {v : Option Value}
      {pause : Pause} (hv : v.isSome = n.reports) (hp : pause = .retry → n.retries = true) :
      Outcome n m ⟨{ m with timer, promise }, w, v, pause⟩
  | stops {w : World} (hr : n.reports = false) : Outcome n m ⟨m.stopScript, w, none, .go⟩
  | ends {promise : Option Promise} {w : World} {pause : Pause} (hr : n.reports = false)
      (hp : pause ≠ .retry) : Outcome n m ⟨{ m.finish with promise }, w, none, pause⟩

lemma outcome_run (n : Native) (m : Machine) (w : World) (a b : Value) :
    Outcome n m (n.run m w a b) := by
  have hgo : ∀ {v : Option Value} {w : World}, v.isSome = n.reports → Outcome n m ⟨m, w, v, .go⟩ :=
    fun hv => .stays hv (by simp)
  cases n
  case control c =>
    cases c
    case retryUnless => exact .stays rfl fun _ => rfl
    case stop => exact .stops rfl
    case finish => exact .ends rfl (by simp)
    case finishYield => exact .ends rfl (by simp)
    case finishSuspend => exact .ends rfl (by simp)
    all_goals exact .stays rfl (by simp)
  case wait =>
    simp only [run]
    split
    · exact .stays rfl fun _ => rfl
    · exact .stays rfl (by simp)
  case waitUntil => exact .stays rfl fun _ => rfl
  case stopAll => exact .ends rfl (by simp)
  case stopThisScript => exact .stops rfl
  case createClone =>
    simp only [run]
    split <;> exact hgo rfl
  case deleteClone =>
    simp only [run]
    split
    · exact .ends rfl (by simp)
    · exact hgo rfl
  all_goals exact .stays rfl (by simp)

lemma reports_of_retries {n : Native} (h : n.retries = true) : n.reports = false := by
  cases n
  case control c => cases c <;> first | rfl | cases h
  all_goals first | rfl | cases h

end Native

lemma Opcode.isBracket_of_opensLoop {op : Opcode} (h : op.opensLoop = true) :
    op.isBracket = true := by
  cases op <;> first | rfl | cases h

namespace Machine

/-- Neither finished nor faulted. -/
def Status.isLive : Status → Bool
  | .finished | .faulted _ => false
  | _ => true

/-! ### Single instructions -/

lemma pop_eq (m : Machine) :
    m.pop = (m.stack.head?.getD .empty, { m with stack := m.stack.drop 1 }) := by
  unfold pop
  cases h : m.stack with
  | nil =>
    cases m
    simp_all
  | cons v rest => simp

/-- How many calls are being prepared after an instruction. -/
def preparing (op : Opcode) (n : Nat) : Nat :=
  match op with
  | .initProcedure => n + 1
  | .callProcedure => n - 1
  | _ => n

/-- An instruction has been done, and the machine goes on with the next one. -/
structure InPlace (op : Opcode) (m m' : Machine) : Prop where
  stack : ∃ vs : List Value, vs.length = op.gives ∧ m'.stack = vs ++ m.stack.drop op.takes
  pending : m'.pending.length = preparing op m.pending.length
  checkpoint : m'.checkpoint = if op = .checkpoint then some m.address else m.checkpoint
  address : m'.address = m.address
  loops : m'.loops = m.loops
  calls : m'.calls = m.calls
  status : m'.status = m.status ∨ m'.status = .yielded

lemma inPlace_of_stack {op : Opcode}
    (hop : op ≠ .initProcedure ∧ op ≠ .callProcedure ∧ op ≠ .checkpoint) (m : Machine)
    (vs : List Value) (hvs : vs.length = op.gives) :
    InPlace op m { m with stack := vs ++ m.stack.drop op.takes } where
  stack := ⟨vs, hvs, rfl⟩
  pending := by
    obtain ⟨hinit, hcall, -⟩ := hop
    cases op <;> first | rfl | contradiction
  checkpoint := by rw [if_neg hop.2.2]
  address := rfl
  loops := rfl
  calls := rfl
  status := Or.inl rfl

/-- Instructions that move no control. -/
lemma inPlace_execute {p : Program} {op : Opcode} {operand : Nat}
    (hb : op.isBracket = true → op = .endBranch)
    (hhalt : op ≠ .halt) (hexec : op ≠ .exec) (hcall : op ≠ .callProcedure) (hwarp : op ≠ .warp)
    (hconst : op = .const → (p.tables.constants[operand]?).isSome) (code : Code) (a : Nat)
    (m : Machine) (w : World) : InPlace op m (execute p code a op operand m w).1 := by
  have hone : ∀ {op : Opcode} (v : Value),
      (op ≠ .initProcedure ∧ op ≠ .callProcedure ∧ op ≠ .checkpoint) → op.gives = 1 →
      InPlace op m { m with stack := v :: m.stack.drop op.takes } :=
    fun v hop hg => inPlace_of_stack hop m [v] hg.symm
  have hnone : ∀ {op : Opcode},
      (op ≠ .initProcedure ∧ op ≠ .callProcedure ∧ op ≠ .checkpoint) → op.gives = 0 →
      InPlace op m { m with stack := m.stack.drop op.takes } :=
    fun hop hg => inPlace_of_stack hop m [] hg.symm
  cases op
  case halt => exact absurd rfl hhalt
  case exec => exact absurd rfl hexec
  case callProcedure => exact absurd rfl hcall
  case warp => exact absurd rfl hwarp
  case start | endBranch => exact hnone (by simp) rfl
  case const =>
    obtain ⟨v, hv⟩ := Option.isSome_iff_exists.1 (hconst rfl)
    simp only [execute, hv]
    exact hone v (by simp) rfl
  case null | readArg => exact hone _ (by simp) rfl
  case checkpoint => exact ⟨⟨[], rfl, rfl⟩, rfl, rfl, rfl, rfl, rfl, Or.inl rfl⟩
  case round => exact hone _ (by simp) rfl
  case unary f =>
    simp only [execute, pop_eq]
    exact hone _ (by simp) rfl
  case binary f =>
    simp only [execute, pop_eq, List.drop_drop]
    exact hone _ (by simp) rfl
  case random =>
    simp only [execute, pop_eq, List.drop_drop]
    exact hone _ (by simp) rfl
  case var f =>
    cases f <;> simp only [execute, stepVariable, pop_eq]
    case read => exact hone _ (by simp) rfl
    all_goals
      split
      all_goals exact hnone (by simp) rfl
  case list f =>
    cases f <;> simp only [execute, stepList, pop_eq, List.drop_drop]
    case read | item | indexOf | length | contains =>
      exact hone _ (by simp) rfl
    all_goals exact hnone (by simp) rfl
  case initProcedure => exact ⟨⟨[], rfl, rfl⟩, rfl, rfl, rfl, rfl, rfl, Or.inl rfl⟩
  case addArg =>
    simp only [execute, addArgument, pop_eq]
    split
    · exact hnone (by simp) rfl
    · next hpending =>
      exact ⟨⟨[], rfl, rfl⟩, by rw [hpending]; rfl, rfl, rfl, rfl, rfl, Or.inl rfl⟩
  case breakFrame =>
    simp only [execute]
    split
    · exact ⟨⟨[], rfl, rfl⟩, rfl, rfl, rfl, rfl, rfl, Or.inr rfl⟩
    · exact ⟨⟨[], rfl, rfl⟩, rfl, rfl, rfl, rfl, rfl, Or.inl rfl⟩
  all_goals cases hb rfl

/-! ### Natives -/

lemma resume_of_ne {r : Native.Reply} (h : r.pause ≠ .retry) (a pops : Nat) :
    resume a pops r = { r.machine with
      stack := r.value.toList ++ r.machine.stack.drop pops
      status := if r.pause != .go && r.machine.status == .running then .yielded
        else r.machine.status } := by
  obtain ⟨m, w, v, pause⟩ := r
  cases pause with
  | retry => exact absurd rfl h
  | go => cases v <;> rfl
  | yield => by_cases hm : m.status = .running <;> cases v <;> simp [resume, push, hm]

lemma resume_retry {m : Machine} {k : Nat} (hk : m.checkpoint = some k) (hm : m.status = .running)
    (w : World) (a pops : Nat) :
    resume a pops ⟨m, w, none, .retry⟩ =
      { m with stack := m.stack.drop pops, address := k, status := .yielded } := by
  simp [resume, hk, hm]

/-- Going on after a native moves the machine, and leaves the rest as the native left it. -/
lemma resume_frame (r : Native.Reply) (a pops : Nat) :
    ∃ address stack status, resume a pops r = { r.machine with address, stack, status } := by
  obtain ⟨m, w, v, pause⟩ := r
  by_cases h : pause = .retry
  · subst h
    cases hk : m.checkpoint with
    | none => exact ⟨a, m.stack, .yielded, by simp [resume, hk]⟩
    | some k =>
      refine ⟨k, v.toList ++ m.stack.drop pops,
        if m.status == .running then .yielded else m.status, ?_⟩
      cases v <;> by_cases hm : m.status = .running <;> simp [resume, push, hk, hm]
  · exact ⟨m.address, _, _, resume_of_ne h a pops⟩

/-- Then it may wait for its promise, which changes its status only. -/
lemma awaited_frame (r : Native.Reply) (a pops : Nat) (w : World) : ∃ address stack status,
    (resume a pops r).awaitPromise w = { r.machine with address, stack, status } := by
  obtain ⟨address, stack, status, he⟩ := resume_frame r a pops
  rw [he, awaitPromise]
  split
  · exact ⟨address, stack, .awaiting, rfl⟩
  · exact ⟨address, stack, status, rfl⟩

/-- A jump changes nothing but the address. -/
lemma jumpPast_frame (m : Machine) (code : Code) (a : Nat) :
    ∃ address, m.jumpPast code a = { m with address } := by
  unfold jumpPast
  split
  · exact ⟨_, rfl⟩
  · exact ⟨m.address, rfl⟩

/-- A machine after a native call: finished, or behind the call, or back at the checkpoint with the
slice over, or back at the caller. -/
lemma callNative_cases {m : Machine} {n : Native} (hm : m.status = .running)
    (hlen : n.arity ≤ m.stack.length) (hretry : n.retries = true → m.checkpoint.isSome) (w : World)
    (a : Nat) :
    let m' := (m.callNative w n a).1
    m'.status = .finished ∨
    (∃ vs timer promise status, vs.length = (if n.reports then 1 else 0) ∧ status.isLive = true ∧
      m' = { m with stack := vs ++ m.stack.drop n.pops, timer, promise, status }) ∨
    (∃ timer promise status address, n.retries = true ∧ status.isLive = true ∧ status ≠ .running ∧
      m.checkpoint = some address ∧
      m' = { m with stack := m.stack.drop n.pops, timer, promise, status, address }) ∨
    ∃ c d rest status, n.reports = false ∧ m.calls = c :: d :: rest ∧ status.isLive = true ∧
      m' = { m.returnFrom c (d :: rest) with stack := m.stack.drop n.pops, status } := by
  have hawait : ∀ (x : Machine) (w : World), ∃ status, x.awaitPromise w = { x with status } ∧
      (x.status = .finished → status = .finished) ∧ (x.status.isLive = true → status.isLive = true) ∧
      (x.status ≠ .running → status ≠ .running) := by
    intro x w
    unfold awaitPromise
    split
    · next h =>
      exact ⟨.awaiting, rfl, fun hf => by simp [hf] at h, fun _ => rfl, fun _ => by simp⟩
    · exact ⟨x.status, rfl, fun h => h, fun h => h, fun h => h⟩
  simp only [callNative, if_neg (Nat.not_lt.2 hlen)]
  generalize (m.stack.take n.arity).reverse = inputs
  have hout := n.outcome_run m w (inputs[0]?.getD .empty) (inputs[1]?.getD .empty)
  generalize n.run m w (inputs[0]?.getD .empty) (inputs[1]?.getD .empty) = r at hout
  obtain ⟨status, hs, hfin, hlive, hrun⟩ := hawait (resume a n.pops r) r.world
  rw [hs]
  cases hout with
  | @stays timer promise w v pause hv hp =>
    by_cases hpause : pause = .retry
    · subst hpause
      have hretries := hp rfl
      obtain ⟨k, hk⟩ := Option.isSome_iff_exists.1 (hretry hretries)
      obtain rfl : v = none := by
        rw [Native.reports_of_retries hretries] at hv
        simpa using hv
      rw [resume_retry (m := { m with timer, promise }) hk hm] at hlive hrun ⊢
      exact Or.inr (Or.inr (Or.inl ⟨timer, promise, status, k, hretries, hlive rfl,
        hrun (by simp), hk, rfl⟩))
    · rw [resume_of_ne hpause] at hlive ⊢
      refine Or.inr (Or.inl ⟨v.toList, timer, promise, status, ?_, hlive ?_, rfl⟩)
      · rw [← hv]
        cases v <;> rfl
      · simp only [hm]
        split <;> rfl
  | stops hr =>
    rw [resume_of_ne (by simp)] at hfin hlive ⊢
    cases hcalls : m.calls with
    | nil => exact Or.inl (hfin (by simp [stopScript, hcalls, finish]))
    | cons c rest =>
      cases rest with
      | nil => exact Or.inl (hfin (by simp [stopScript, hcalls, finish]))
      | cons d rest =>
        have hstop : m.stopScript = m.returnFrom c (d :: rest) := by simp [stopScript, hcalls]
        rw [hstop] at hlive ⊢
        refine Or.inr (Or.inr (Or.inr ⟨c, d, rest, status, hr, rfl, hlive ?_, rfl⟩))
        change m.status.isLive = true
        rw [hm]
        rfl
  | ends hr hp =>
    rw [resume_of_ne hp] at hfin ⊢
    refine Or.inl (hfin ?_)
    simp [finish]

/-! ### Operands of instructions -/

lemma operand_of_full {i : Instruction} (hf : i.Full) (hop : i.opcode.operandCount = 1) :
    ∃ x ∈ i.operands, i.operand = x.toNat := by
  obtain ⟨x, hx⟩ := List.length_eq_one_iff.1 (hf.trans hop)
  exact ⟨x, by rw [hx]; simp, by simp [Instruction.operand, hx]⟩

lemma isSome_constant {t : Tables} {i : Instruction} (hf : i.Full) (hv : i.Valid t)
    (hop : i.opcode = .const) : (t.constants[i.operand]?).isSome := by
  obtain ⟨x, hx, ho⟩ := operand_of_full hf (by rw [hop]; rfl)
  have := hv x hx
  rw [hop] at this
  rwa [ho, isSome_getElem?]

lemma exists_native {t : Tables} {i : Instruction} (hf : i.Full) (hv : i.Valid t)
    (hop : i.opcode = .exec) : ∃ n, i.native? t = some n ∧ t.natives[i.operand]? = some n := by
  obtain ⟨x, hx, ho⟩ := operand_of_full hf (by rw [hop]; rfl)
  have := hv x hx
  rw [hop] at this
  refine ⟨t.natives[x.toNat], ?_, ?_⟩
  · rw [Instruction.native?, if_pos hop, ho, List.getElem?_eq_getElem]
  · rw [ho, List.getElem?_eq_getElem]

/-! ### Lines -/

/-- The loop that an instruction opens. -/
def LoopKind.isOf : LoopKind → Opcode → Bool
  | .times _ _, .times | .until, .untilLoop | .forever, .forever => true
  | _, _ => false

lemma LoopKind.isOf_times (i j : Nat) (x y : Float) (op : Opcode) :
    (LoopKind.times i x).isOf op = (LoopKind.times j y).isOf op := by
  cases op <;> rfl

/-- An open loop is the one that opens at some place: its rounds begin behind it. -/
def Loop.IsOf (l : Loop) (o : Nat × Opcode) : Prop := l.kind.isOf o.2 = true ∧ l.start = o.1 + 1

/-- The own loops of an activation are those that are open after some lines. -/
def Inside (own : List Loop) (pre : List Line) : Prop :=
  List.Forall₂ Loop.IsOf own (Code.opened (pre.map (·.opcode)))

/-- Where a line may lead within its routine: to the next line, or, if it settles, behind a line
that settles too. -/
def Leads (t : Tables) (pre : List Line) (l : Line) (pre' : List Line) : Prop :=
  pre' = pre ++ [l] ∨ l.instruction.settles t = true ∧
    ∃ init k, pre' = init ++ [k] ∧ k.instruction.settles t = true

/-- An instruction has taken and given its operands. -/
structure Operates (t : Tables) (i : Instruction) (m m' : Machine) : Prop where
  stack : ∃ vs : List Value, vs.length = i.gives t ∧ m'.stack = vs ++ m.stack.drop (i.takes t)
  pending : m'.pending.length = preparing i.opcode m.pending.length

open Compiler in
/-- The checkpoint is the last one that was passed, as long as nothing has settled since. -/
def Marked (t : Tables) (checkpoint : Option Nat) (pre : List Line) : Prop :=
  ∀ before k mid, pre = before ++ k :: mid → k.opcode = .checkpoint →
    (∀ x ∈ mid, x.instruction.settles t = false) →
      checkpoint = some (Code.extent (codeOf (before ++ [k])))

/-- The operands of some shape are there; if one is strict, nothing else. -/
def Loaded (strict : Bool) (s : Shape) (m : Machine) : Prop :=
  s.origins.length ≤ m.stack.length ∧
    (strict = true → m.stack.length = s.origins.length ∧ m.pending.length = s.pending)

open Compiler in
/-- A machine stands at a line of a routine, in an activation `c` above others: its own loops and
operands are those that the lines before say. -/
structure Stands (strict : Bool) (p : Program) (blocks : BlockMap) (ls pre : List Line) (l : Line)
    (post : List Line) (c : Call) (rest : List Call) (own outer : List Loop) (m : Machine) : Prop where
  laid : p.Laid strict blocks c.routine ls
  lines : ls = pre ++ l :: post
  address : m.address = Code.extent (codeOf pre)
  calls : m.calls = c :: rest
  loops : m.loops = own ++ outer
  inside : Inside own pre
  marked : Marked p.tables m.checkpoint pre
  loaded : Loaded strict (Code.shape p.tables (codeOf pre)) m

open Compiler in
/-- A machine that stood at a line, in an activation `c` above others, with the loops `outer` of the
others: it goes on in the same activation, or in a new one, or it goes back. -/
inductive Stepped (p : Program) (ls pre : List Line) (l : Line) (c : Call)
    (rest : List Call) (outer : List Loop) (m m' : Machine) : Prop
  | stays (pre' post' : List Line) (own' : List Loop) (c' : Call) (lines : ls = pre' ++ post')
      (more : post' ≠ []) (on : l.opcode ≠ .halt) (leads : Leads p.tables pre l pre')
      (forward : m'.status = .running → pre.length < pre'.length ∨ l.opcode = .loopEnd)
      (address : m'.address = Code.extent (codeOf pre')) (loops : m'.loops = own' ++ outer)
      (inside : Inside own' pre') (calls : m'.calls = c' :: rest)
      (same : c'.routine = c.routine ∧ c'.returnTo = c.returnTo ∧ c'.openLoops = c.openLoops)
      (marks : ∀ k ∈ pre'.getLast?, k.opcode = .checkpoint → m'.checkpoint = some m'.address)
      (keeps : l.opcode ≠ .checkpoint → m'.checkpoint = m.checkpoint)
  | calls (i : Nat) (arguments : List Value) (called : l.opcode = .callProcedure)
      (code : (p.code? (.procedure i)).isSome) (address : m'.address = 0)
      (loops : m'.loops = m.loops) (calls : m'.calls =
        ⟨.procedure i, Code.extent (codeOf (pre ++ [l])), arguments, false, m.loops.length⟩ :: c :: rest)
      (fresh : m'.status = .running → m.warpDepth = 0 → ∀ d ∈ c :: rest, d.routine ≠ .procedure i)
  | returns (d : Call) (rest' : List Call) (above : rest = d :: rest')
      (settles : l.instruction.settles p.tables = true) (address : m'.address = c.returnTo)
      (loops : m'.loops = m.loops.drop (m.loops.length - c.openLoops)) (calls : m'.calls = rest)

section

open Compiler

variable {strict : Bool} {p : Program} {blocks : BlockMap} {ls pre post : List Line} {l : Line}
  {c : Call} {rest : List Call} {own outer : List Loop} {m : Machine}

lemma map_opcode (ls : List Line) : (codeOf ls).map (·.opcode) = ls.map (·.opcode) := by
  simp [codeOf, Line.opcode]

lemma width_lines (ls : List Line) : Code.width (ls.map (·.opcode)) = Code.extent (codeOf ls) := by
  rw [← map_opcode]
  rfl

/-- Behind every line but the end there is another one. -/
lemma more_lines (h : p.Laid strict blocks c.routine ls) {init tail : List Line} {k : Line}
    (he : ls = init ++ k :: tail) (hk : k.opcode ≠ .halt) : tail ≠ [] := by
  rintro rfl
  obtain ⟨body, last, hbody, hlast⟩ := h.ends
  rw [he] at hbody
  obtain ⟨-, hkl⟩ := List.append_inj' hbody rfl
  cases hkl
  exact hk hlast

/-- A step of a machine whose address is where some line stands. -/
lemma step_of_laid {r : Routine} (hlaid : p.Laid strict blocks r ls) (hlines : ls = pre ++ l :: post)
    (hroutine : m.routine = r) (haddress : m.address = Code.extent (codeOf pre)) (w : World) :
    step p m w = execute p (.ofInstructions (codeOf ls)) (Code.extent (codeOf pre)) l.opcode
      l.instruction.operand (m.put (Code.extent (codeOf (pre ++ [l]))) m.stack) w := by
  have hholds := hlaid.holds
  rw [hlines, codeOf, List.map_append, List.map_cons] at hholds ⊢
  rw [Machine.step_eq (hroutine ▸ hholds) haddress,
    show codeOf (pre ++ [l]) = codeOf pre ++ [l.instruction] by simp [codeOf]]
  rfl

lemma full_of_laid {r : Routine} (hlaid : p.Laid strict blocks r ls) (hlines : ls = pre ++ l :: post) :
    l.instruction.Full ∧ l.instruction.Valid p.tables := by
  have hl : l ∈ ls := by
    rw [hlines]
    simp
  exact ⟨hlaid.holds.full _ (List.mem_map_of_mem hl), hlaid.valid l hl⟩

lemma Stands.routine (h : Stands strict p blocks ls pre l post c rest own outer m) :
    m.routine = c.routine := by
  simp [Machine.routine, h.calls]

lemma Stands.step_eq (h : Stands strict p blocks ls pre l post c rest own outer m) (w : World) :
    step p m w = execute p (.ofInstructions (codeOf ls)) (Code.extent (codeOf pre)) l.opcode
      l.instruction.operand (m.put (Code.extent (codeOf (pre ++ [l]))) m.stack) w :=
  step_of_laid h.laid h.lines h.routine h.address w

/-- The line finds its operands. -/
lemma Stands.takes_le (h : Stands strict p blocks ls pre l post c rest own outer m) :
    l.instruction.takes p.tables ≤ m.stack.length :=
  le_trans (h.laid.proper pre l post h.lines).supplied h.loaded.1

/-- On to the next line. -/
lemma Stands.next (h : Stands strict p blocks ls pre l post c rest own outer m) {m' : Machine}
    (hop : l.opcode.opensLoop = false) (hend : l.opcode ≠ .loopEnd) (hhalt : l.opcode ≠ .halt)
    (c' : Call) (hc : c'.routine = c.routine ∧ c'.returnTo = c.returnTo ∧ c'.openLoops = c.openLoops)
    (ha : m'.address = Code.extent (codeOf (pre ++ [l]))) (hl : m'.loops = m.loops)
    (hcalls : m'.calls = c' :: rest)
    (hcp : m'.checkpoint = if l.opcode = .checkpoint then some m'.address else m.checkpoint) :
    Stepped p ls pre l c rest outer m m' := by
  refine .stays (pre ++ [l]) post own c' (by rw [h.lines]; simp) (more_lines h.laid h.lines hhalt)
    hhalt (Or.inl rfl) (fun _ => Or.inl (by simp)) ha (by rw [hl, h.loops]) ?_ hcalls hc ?_ ?_
  · rw [Inside, List.map_append, List.map_singleton, Code.opened_snoc,
      Code.openStep_other hop hend]
    exact h.inside
  · intro k hk hkop
    rw [List.getLast?_concat, Option.mem_some_iff] at hk
    subst hk
    rw [hcp, if_pos hkop]
  · intro hne
    rw [hcp, if_neg hne]

/-! ### Brackets -/

lemma jumpPast_eq {code : Code} {a target : Nat} (h : code.jump? a = some target) (m : Machine) :
    m.jumpPast code a = { m with address := target + 1 } := by
  rw [jumpPast, h]

lemma Stands.site (h : Stands strict p blocks ls pre l post c rest own outer m) :
    Code.Site (pre.map (·.opcode)) l.opcode (post.map (·.opcode)) := by
  have hnested := h.laid.nested
  rw [h.lines, List.map_append, List.map_cons] at hnested
  exact hnested.site rfl

lemma Stands.jump? (h : Stands strict p blocks ls pre l post c rest own outer m) :
    (Code.ofInstructions (codeOf ls)).jump? (Code.extent (codeOf pre)) =
      Code.jumpFrom (pre.map (·.opcode) ++ l.opcode :: post.map (·.opcode))
        (Code.width (pre.map (·.opcode))) := by
  rw [Code.jump?_eq_jumpFrom h.laid.holds.full, map_opcode, width_lines, h.lines, List.map_append,
    List.map_cons]

lemma split_lines {post : List Line} {xs ys : List Opcode} {op : Opcode}
    (h : post.map (·.opcode) = xs ++ op :: ys) :
    ∃ before k tail, post = before ++ k :: tail ∧ before.map (·.opcode) = xs ∧ k.opcode = op ∧
      tail.map (·.opcode) = ys := by
  obtain ⟨before, behind, rfl, hx, hrest⟩ := List.map_eq_append_iff.1 h
  obtain ⟨k, tail, rfl, hk, hy⟩ := List.map_eq_cons_iff.1 hrest
  exact ⟨before, k, tail, rfl, hx, hk, hy⟩

/-- The bracket at which a jump over some lines ends, with the loops that are open behind it. -/
def Skips (ls pre : List Line) (l : Line) (post : List Line) (opened : List (Nat × Opcode)) : Prop :=
  ∃ xs k tail, post = xs ++ k :: tail ∧ k.opcode.isBracket = true ∧
    (Code.ofInstructions (codeOf ls)).jump? (Code.extent (codeOf pre)) =
      some (Code.extent (codeOf (pre ++ l :: xs))) ∧
    Code.opened ((pre ++ l :: (xs ++ [k])).map (·.opcode)) = opened

lemma Stands.skips_branch (h : Stands strict p blocks ls pre l post c rest own outer m)
    (hop : l.opcode = .branch ∨ l.opcode = .otherwise) :
    Skips ls pre l post (Code.opened (pre.map (·.opcode))) := by
  obtain ⟨xs, close, ys, hpost, hx, hclose⟩ : ∃ xs close ys, post.map (·.opcode) = xs ++ close :: ys ∧
      Code.Nested xs ∧ (close = .otherwise ∨ close = .endBranch) := by
    have hsite := h.site
    rcases hop with hop | hop <;> rw [hop] at hsite
    · exact hsite
    · obtain ⟨xs, ys, hpost, hx⟩ := hsite
      exact ⟨xs, _, ys, hpost, hx, Or.inr rfl⟩
  have hjump := @Code.jumpFrom_branch (pre.map (·.opcode)) xs ys l.opcode close hop hx hclose
  rw [← hpost, ← h.jump?] at hjump
  obtain ⟨before, k, tail, rfl, rfl, rfl, -⟩ := split_lines hpost
  refine ⟨before, k, tail, rfl, by rcases hclose with h | h <;> rw [h] <;> rfl, ?_, ?_⟩
  · rw [hjump, ← width_lines, List.map_append, List.map_cons]
  · have hsplit : (pre ++ l :: (before ++ [k])).map (·.opcode) =
        ((pre.map (·.opcode) ++ [l.opcode]) ++ before.map (·.opcode)) ++ [k.opcode] := by simp
    rw [hsplit, Code.opened_snoc, Code.openStep_other, Code.opened_append_nested hx, Code.opened_snoc,
      Code.openStep_other]
    · rcases hop with h | h <;> rw [h] <;> rfl
    · rcases hop with h | h <;> rw [h] <;> simp
    · rcases hclose with h | h <;> rw [h] <;> rfl
    · rcases hclose with h | h <;> rw [h] <;> simp

lemma Stands.skips_loop (h : Stands strict p blocks ls pre l post c rest own outer m)
    (hop : l.opcode.opensLoop = true) :
    Skips ls pre l post (Code.opened (pre.map (·.opcode))) := by
  obtain ⟨xs, ys, hpost, hbody⟩ : ∃ xs ys, post.map (·.opcode) = xs ++ .loopEnd :: ys ∧
      Code.LoopBody l.opcode xs := by
    have hsite := h.site
    cases hl : l.opcode <;> rw [hl] at hop hsite <;> cases hop <;> exact hsite
  have hjump := Code.jumpFrom_loopBody hbody (pre.map (·.opcode)) ys
  rw [← hpost, ← h.jump?] at hjump
  obtain ⟨before, k, tail, rfl, rfl, hk, -⟩ := split_lines hpost
  refine ⟨before, k, tail, rfl, by rw [hk]; rfl, ?_, ?_⟩
  · rw [hjump, ← width_lines, List.map_append, List.map_cons]
  · have hsplit : (pre ++ l :: (before ++ [k])).map (·.opcode) =
        (pre.map (·.opcode) ++ l.opcode :: before.map (·.opcode)) ++ [k.opcode] := by simp
    rw [hsplit, Code.opened_snoc, hk, Code.openStep_loopEnd, Code.opened_loopBody hbody]
    rfl

lemma Stands.skips_test (h : Stands strict p blocks ls pre l post c rest own outer m)
    (hop : l.opcode = .untilTest) :
    ∃ o os, Code.opened (pre.map (·.opcode)) = o :: os ∧ Skips ls pre l post os := by
  have hsite := h.site
  rw [hop] at hsite
  obtain ⟨before, xs, ys, tail, hpre, hpost, hx, hy⟩ := hsite
  have hjump := @Code.jumpFrom_test before xs ys tail hx hy
  have hall : before ++ .untilLoop :: (xs ++ .untilTest :: (ys ++ .loopEnd :: tail)) =
      pre.map (·.opcode) ++ l.opcode :: post.map (·.opcode) := by
    simp [hpre, hpost, hop]
  rw [hall, ← hpre, ← h.jump?] at hjump
  obtain ⟨mid, k, tail', rfl, rfl, hk, -⟩ := split_lines hpost
  have hopen : Code.opened (pre.map (·.opcode)) = (Code.width before, .untilLoop) ::
      Code.opened before := by
    rw [hpre, show before ++ Opcode.untilLoop :: xs = (before ++ [.untilLoop]) ++ xs by simp,
      Code.opened_append_nested hx, Code.opened_snoc, Code.openStep_opener rfl]
  refine ⟨_, _, hopen, mid, k, tail', rfl, by rw [hk]; rfl, ?_, ?_⟩
  · rw [hjump, ← width_lines, List.map_append, List.map_cons, hpre, hop]
    simp
  · have hsplit : (pre ++ l :: (mid ++ [k])).map (·.opcode) =
        (before ++ .untilLoop :: (xs ++ .untilTest :: mid.map (·.opcode))) ++ [k.opcode] := by
      simp [hpre, hop]
    rw [hsplit, Code.opened_snoc, hk, Code.openStep_loopEnd,
      Code.opened_loopBody (Code.LoopBody.tested hx hy)]
    rfl

lemma settles_of_opcode {t : Tables} {l : Line} {op : Opcode} (h : l.opcode = op) (hx : op ≠ .exec) :
    l.instruction.settles t = op.settles := by
  subst h
  exact Instruction.settles_of_ne hx

lemma bracket_facts {t : Tables} {l : Line} (h : l.opcode.isBracket = true) :
    l.opcode ≠ .checkpoint ∧ l.opcode ≠ .halt ∧ l.opcode.operandCount = 0 ∧
      l.instruction.settles t = true := by
  cases hop : l.opcode <;> rw [hop] at h <;> cases h <;>
    exact ⟨by simp, by simp, rfl, settles_of_opcode hop (by simp)⟩

/-- Brackets take no words for operands. -/
lemma extent_bracket (ls : List Line) {l : Line} (h : l.opcode.isBracket = true) :
    Code.extent (codeOf (ls ++ [l])) = Code.extent (codeOf ls) + 1 := by
  have hcount : l.instruction.opcode.operandCount = 0 := (bracket_facts (t := {}) h).2.2.1
  rw [show codeOf (ls ++ [l]) = codeOf ls ++ [l.instruction] by simp [codeOf], Code.extent_append,
    Code.extent_cons, Code.extent_nil, hcount]

/-- Behind a line that is no checkpoint there is nothing to mark. -/
lemma unmarked_snoc {ls : List Line} {l : Line} {P : Prop} (hl : l.opcode ≠ .checkpoint) :
    ∀ k ∈ (ls ++ [l]).getLast?, k.opcode = .checkpoint → P := by
  intro k hk hkop
  rw [List.getLast?_concat, Option.mem_some_iff] at hk
  subst hk
  exact absurd hkop hl

/-- A jump over some lines, behind the bracket that closes them. -/
lemma Stands.over (h : Stands strict p blocks ls pre l post c rest own outer m)
    {opened : List (Nat × Opcode)} (hskips : Skips ls pre l post opened)
    (hl : l.opcode.isBracket = true) {own' : List Loop}
    (hown : List.Forall₂ Loop.IsOf own' opened) {x : Machine} (hloops : x.loops = own' ++ outer)
    (hcalls : x.calls = m.calls) (hcp : x.checkpoint = m.checkpoint) :
    Stepped p ls pre l c rest outer m
      (x.jumpPast (.ofInstructions (codeOf ls)) (Code.extent (codeOf pre))) := by
  obtain ⟨xs, k, tail, hpost, hk, hjump, rfl⟩ := hskips
  obtain ⟨hnot, hhalt, -, hsettles⟩ := bracket_facts (t := p.tables) hk
  have hsplit : pre ++ l :: (xs ++ [k]) = (pre ++ l :: xs) ++ [k] := by simp
  have hlines : ls = (pre ++ l :: xs) ++ k :: tail := by simp [h.lines, hpost]
  rw [jumpPast_eq hjump]
  refine .stays (pre ++ l :: (xs ++ [k])) tail own' c (by simp [h.lines, hpost])
    (more_lines h.laid hlines hhalt) (bracket_facts (t := p.tables) hl).2.1
    (Or.inr ⟨(bracket_facts hl).2.2.2, _, k, hsplit, hsettles⟩)
    (fun _ => Or.inl (by simp)) ?_ hloops hown (by rw [← h.calls, ← hcalls]) ⟨rfl, rfl, rfl⟩ ?_
    fun _ => hcp
  · rw [hsplit, extent_bracket _ hk]
  · rw [hsplit]
    exact unmarked_snoc hnot

/-- Into a loop. -/
lemma Stands.open (h : Stands strict p blocks ls pre l post c rest own outer m) {kind : LoopKind}
    (hk : kind.isOf l.opcode = true) {x : Machine}
    (ha : x.address = Code.extent (codeOf (pre ++ [l]))) (hloops : x.loops = m.loops)
    (hcalls : x.calls = m.calls) (hcp : x.checkpoint = m.checkpoint) :
    Stepped p ls pre l c rest outer m (x.openLoop kind) := by
  have hopens : l.opcode.opensLoop = true := by
    cases kind <;> cases hl : l.opcode <;> rw [hl] at hk <;> cases hk <;> rfl
  have hbracket := Opcode.isBracket_of_opensLoop hopens
  obtain ⟨hnot, hhalt, -, -⟩ := bracket_facts (t := p.tables) hbracket
  refine .stays (pre ++ [l]) post (⟨kind, x.address⟩ :: own) c (by rw [h.lines]; simp)
    (more_lines h.laid h.lines hhalt) hhalt (Or.inl rfl) (fun _ => Or.inl (by simp)) ha ?_ ?_
    (by rw [← h.calls, ← hcalls]; rfl) ⟨rfl, rfl, rfl⟩ (unmarked_snoc hnot) fun _ => hcp
  · change _ :: x.loops = _
    rw [hloops, h.loops]
    rfl
  · rw [Inside, List.map_append, List.map_singleton, Code.opened_snoc, Code.openStep_opener hopens]
    refine .cons ⟨hk, ?_⟩ h.inside
    rw [ha, width_lines, extent_bracket _ hbracket]

lemma endRound_same (m : Machine) : m.endRound.status = m.status ∧ m.endRound.stack = m.stack ∧
    m.endRound.pending = m.pending := by
  unfold Machine.endRound
  repeat' split
  all_goals exact ⟨rfl, rfl, rfl⟩

/-- The end of a round: back to the start of the loop, or out of it. -/
lemma Stands.endRound (h : Stands strict p blocks ls pre l post c rest own outer m)
    (hop : l.opcode = .loopEnd) :
    Stepped p ls pre l c rest outer m
      (m.put (Code.extent (codeOf (pre ++ [l]))) m.stack).endRound := by
  have hsite := h.site
  rw [hop] at hsite
  obtain ⟨before, opener, xs, hpre, hbody⟩ := hsite
  have hinside := h.inside
  rw [Inside, hpre, Code.opened_loopBody hbody] at hinside
  obtain ⟨x, own', hx, hown', rfl⟩ := List.forall₂_cons_right_iff.1 hinside
  obtain ⟨init, k, tail, rfl, rfl, rfl, -⟩ := split_lines hpre
  obtain ⟨hkind, hstart⟩ := hx
  have hopens : k.opcode.opensLoop = true := hbody.opensLoop
  have hkbracket := Opcode.isBracket_of_opensLoop hopens
  have hbracket : l.opcode.isBracket = true := by rw [hop]; rfl
  obtain ⟨hnot, -, -, hsettles⟩ := bracket_facts (t := p.tables) hkbracket
  obtain ⟨hlnot, hhalt, -, hlsettles⟩ := bracket_facts (t := p.tables) hbracket
  -- the start of the rounds is right behind the opening
  have hagain : ∀ {m' : Machine} {kind : LoopKind}, kind.isOf k.opcode = true →
      m'.address = x.start → m'.loops = ⟨kind, x.start⟩ :: (own' ++ outer) → m'.calls = m.calls →
      m'.checkpoint = m.checkpoint →
      Stepped p ls (init ++ k :: tail) l c rest outer m m' := by
    intro m' kind hkind' ha hloops hcalls hcp
    refine .stays (init ++ [k]) (tail ++ l :: post) (⟨kind, x.start⟩ :: own') c
      (by rw [h.lines]; simp) (by simp) hhalt (Or.inr ⟨hlsettles, init, k, rfl, hsettles⟩)
      (fun _ => Or.inr hop) ?_ hloops ?_ (by rw [hcalls, h.calls]) ⟨rfl, rfl, rfl⟩
      (unmarked_snoc hnot) fun _ => hcp
    · rw [ha, hstart, width_lines, extent_bracket _ hkbracket]
    · rw [Inside, List.map_append, List.map_singleton, Code.opened_snoc, Code.openStep_opener hopens]
      exact .cons ⟨hkind', hstart⟩ hown'
  have hmloops : m.loops = x :: (own' ++ outer) := h.loops
  obtain ⟨kind, start⟩ := x
  unfold Machine.endRound
  simp only [put_loops, hmloops]
  cases kind with
  | times done count =>
    simp only
    split
    · -- the last round
      refine .stays (init ++ k :: tail ++ [l]) post own' c (by rw [h.lines]; simp)
        (more_lines h.laid h.lines hhalt) hhalt (Or.inl rfl) (fun _ => Or.inr hop) rfl rfl ?_
        h.calls ⟨rfl, rfl, rfl⟩ (unmarked_snoc hlnot) fun _ => rfl
      rw [Inside, List.map_append, hpre, List.map_singleton, hop, Code.opened_snoc,
        Code.openStep_loopEnd, Code.opened_loopBody hbody]
      exact hown'
    · exact hagain ((LoopKind.isOf_times _ _ _ _ _).trans hkind) rfl rfl rfl rfl
  | «until» => exact hagain hkind rfl rfl rfl rfl
  | forever => exact hagain hkind rfl rfl rfl rfl

/-! ### Calls and natives -/

/-- Back to the checkpoint of the block. -/
lemma Stands.retry (h : Stands strict p blocks ls pre l post c rest own outer m) {n : Native}
    (hn : l.instruction.native? p.tables = some n) (hretries : n.retries = true) {m' : Machine}
    (hs : m'.status ≠ .running) (ha : m.checkpoint = some m'.address) (hloops : m'.loops = m.loops)
    (hcalls : m'.calls = m.calls) (hcp : m'.checkpoint = m.checkpoint) :
    Stepped p ls pre l c rest outer m m' := by
  obtain ⟨before, k, mid, rfl, hk, -, hmid⟩ :=
    ((h.laid.proper pre l post h.lines).fed n hn).checkpoint hretries
  have hmark := h.marked before k mid rfl hk hmid
  have hlsettles : l.instruction.settles p.tables = true := by
    rw [Instruction.settles_of_native hn, Native.reports_of_retries hretries]
    rfl
  have hquiet : Code.Nested (mid.map (·.opcode)) :=
    (neat_of_plain fun x hx => (Instruction.not_bracket_of_not_settles (hmid x hx)).1).nested
  have hhalt : l.opcode ≠ .halt := by
    rw [show l.opcode = _ from Instruction.opcode_of_native? hn]
    simp
  refine .stays (before ++ [k]) (mid ++ l :: post) own c (by rw [h.lines]; simp) (by simp) hhalt
    (Or.inr ⟨hlsettles, before, k, rfl, ?_⟩) (fun hrun => absurd hrun hs) ?_
    (by rw [hloops, h.loops]) ?_ (by rw [hcalls, h.calls]) ⟨rfl, rfl, rfl⟩
    (fun y _ _ => by rw [hcp, ha]) fun _ => hcp
  · exact settles_of_opcode hk (by simp)
  · rw [ha] at hmark
    exact Option.some.inj hmark
  · have hinside := h.inside
    rw [Inside, show before ++ k :: mid = (before ++ [k]) ++ mid by simp, List.map_append,
      Code.opened_append_nested hquiet] at hinside
    exact hinside

lemma Stands.full (h : Stands strict p blocks ls pre l post c rest own outer m) :
    l.instruction.Full ∧ l.instruction.Valid p.tables := full_of_laid h.laid h.lines

/-- The result of a step: the machine is finished, or the instruction is done. -/
def Result (p : Program) (ls pre : List Line) (l : Line) (c : Call) (rest : List Call)
    (outer : List Loop) (m m' : Machine) : Prop :=
  m'.status = .finished ∨ m'.status.isLive = true ∧ Operates p.tables l.instruction m m' ∧
    Stepped p ls pre l c rest outer m m'

/-- Natives find their inputs. -/
lemma Stands.native (h : Stands strict p blocks ls pre l post c rest own outer m)
    (hm : m.status = .running) (hop : l.opcode = .exec) (w : World) :
    Result p ls pre l c rest outer m (step p m w).1 := by
  obtain ⟨n, hn, hentry⟩ := exists_native h.full.1 h.full.2 hop
  have hfed := (h.laid.proper pre l post h.lines).fed n hn
  have hlen : n.arity ≤ m.stack.length := by
    have := h.takes_le
    rwa [Instruction.takes_of_native hn, hfed.pops] at this
  have hcp : n.retries = true → m.checkpoint.isSome := fun hretries => by
    obtain ⟨before, k, mid, hpre, hk, -, hmid⟩ := hfed.checkpoint hretries
    rw [h.marked before k mid hpre hk hmid]
    rfl
  have hsettles : n.reports = false → l.instruction.settles p.tables = true := fun hr => by
    rw [Instruction.settles_of_native hn, hr]
    rfl
  have hprep : ∀ k, preparing l.instruction.opcode k = k := fun k => by
    rw [show l.instruction.opcode = _ from hop]
    rfl
  rw [h.step_eq w, hop]
  simp only [execute, hentry]
  set x := m.put (Code.extent (codeOf (pre ++ [l]))) m.stack with hx
  rcases callNative_cases (m := x) hm hlen hcp w (Code.extent (codeOf pre)) with
    hfin | ⟨vs, timer, promise, status, hvs, hlive, he⟩ |
    ⟨timer, promise, status, a, hretries, hlive, hrun, ha, he⟩ |
    ⟨d, e, rest', status, hr, hcalls, hlive, he⟩
  · exact Or.inl hfin
  · rw [he]
    refine Or.inr ⟨hlive, ⟨⟨vs, by rw [Instruction.gives_of_native hn, hvs],
      by rw [Instruction.takes_of_native hn]; rfl⟩, (hprep _).symm⟩, ?_⟩
    refine h.next ?_ ?_ ?_ c ⟨rfl, rfl, rfl⟩ rfl rfl h.calls ?_ <;> rw [hop]
    · rfl
    · simp
    · simp
    · simp [hx, put]
  · rw [he]
    refine Or.inr ⟨hlive, ⟨⟨[], ?_, by rw [Instruction.takes_of_native hn]; rfl⟩, (hprep _).symm⟩, ?_⟩
    · rw [Instruction.gives_of_native hn, Native.reports_of_retries hretries]
      rfl
    · exact h.retry hn hretries hrun ha rfl rfl rfl
  · rw [he]
    have hrest : d = c ∧ rest = e :: rest' := by
      have := hcalls.symm.trans h.calls
      simpa using And.intro (List.cons.inj this).1 (List.cons.inj this).2.symm
    obtain ⟨rfl, rfl⟩ := hrest
    refine Or.inr ⟨hlive, ⟨⟨[], ?_, by rw [Instruction.takes_of_native hn]; rfl⟩, (hprep _).symm⟩, ?_⟩
    · rw [Instruction.gives_of_native hn, hr]
      rfl
    · exact .returns e rest' rfl (hsettles hr) rfl rfl rfl

/-- Calls of custom blocks; without a body they do nothing. -/
lemma Stands.call (h : Stands strict p blocks ls pre l post c rest own outer m)
    (hm : m.status = .running) (hop : l.opcode = .callProcedure) (w : World) :
    Result p ls pre l c rest outer m (step p m w).1 := by
  have hiop : l.instruction.opcode = .callProcedure := hop
  have hx : l.instruction.opcode ≠ .exec := by simp [hiop]
  rw [h.step_eq w, hop]
  simp only [execute, Machine.callProcedure]
  split
  · next hcode =>
    refine Or.inr ⟨?_, ⟨⟨[], ?_, ?_⟩, ?_⟩, ?_⟩
    · simp only [put, hm]
      split <;> rfl
    · simp [Instruction.gives_of_ne hx, hiop, Opcode.gives]
    · simp [Instruction.takes_of_ne hx, hiop, Opcode.takes, put]
    · simp [preparing, hiop, put]
    · refine .calls l.instruction.operand (m.pending.head?.getD []) hop hcode rfl rfl
        (by simp [put, h.calls]) ?_
      intro hrun hdepth d hd hroutine
      have hrec : (m.calls.any fun c => c.routine == .procedure l.instruction.operand) = true := by
        rw [h.calls, List.any_eq_true]
        exact ⟨d, hd, by simp [hroutine]⟩
      simp [put, hrec, hdepth] at hrun
  · refine Or.inr ⟨by simp [put, hm, Status.isLive], ⟨⟨[], ?_, ?_⟩, ?_⟩, ?_⟩
    · simp [Instruction.gives_of_ne hx, hiop, Opcode.gives]
    · simp [Instruction.takes_of_ne hx, hiop, Opcode.takes, put]
    · simp [preparing, hiop, put]
    · refine h.next ?_ ?_ ?_ c ⟨rfl, rfl, rfl⟩ rfl rfl h.calls ?_ <;> rw [hop]
      · rfl
      · simp
      · simp
      · simp [put]

lemma operates_of_pop {t : Tables} {i : Instruction} {m m' : Machine} (hx : i.opcode ≠ .exec)
    (hp : ∀ k, preparing i.opcode k = k) (hg : i.opcode.gives = 0)
    (hs : m'.stack = m.stack.drop i.opcode.takes) (hm : m'.pending = m.pending) :
    Operates t i m m' :=
  ⟨⟨[], by rw [Instruction.gives_of_ne hx, hg]; rfl, by rw [Instruction.takes_of_ne hx, hs]; rfl⟩,
    by rw [hm, hp]⟩

/-- A step that only takes its operands from the stack. -/
lemma Stepped.result (h : Stepped p ls pre l c rest outer m m') (hm : m.status = .running)
    (hx : l.instruction.opcode ≠ .exec) (hp : ∀ k, preparing l.instruction.opcode k = k)
    (hg : l.instruction.opcode.gives = 0) (hs : m'.status = m.status)
    (hst : m'.stack = m.stack.drop l.instruction.opcode.takes) (hpend : m'.pending = m.pending) :
    Result p ls pre l c rest outer m m' :=
  Or.inr ⟨by rw [hs, hm]; rfl, operates_of_pop hx hp hg hst hpend, h⟩

/-- Instructions that move no control. -/
lemma Stands.plain (h : Stands strict p blocks ls pre l post c rest own outer m)
    (hm : m.status = .running) (hb : l.opcode.isBracket = true → l.opcode = .endBranch)
    (hhalt : l.opcode ≠ .halt) (hexec : l.opcode ≠ .exec) (hcall : l.opcode ≠ .callProcedure)
    (hwarp : l.opcode ≠ .warp) (w : World) : Result p ls pre l c rest outer m (step p m w).1 := by
  have hopen : l.opcode.opensLoop = false ∧ l.opcode ≠ .loopEnd := by
    cases hop : l.opcode <;> simp_all [Opcode.isBracket, Opcode.opensLoop]
  rw [h.step_eq w]
  have hin := inPlace_execute hb hhalt hexec hcall hwarp
    (fun hc => isSome_constant h.full.1 h.full.2 hc) (.ofInstructions (codeOf ls))
    (Code.extent (codeOf pre)) (m.put (Code.extent (codeOf (pre ++ [l]))) m.stack) w
  generalize (execute p (.ofInstructions (codeOf ls)) (Code.extent (codeOf pre)) l.opcode
    l.instruction.operand (m.put (Code.extent (codeOf (pre ++ [l]))) m.stack) w).1 = m' at hin
  obtain ⟨vs, hvs, hstack⟩ := hin.stack
  refine Or.inr ⟨?_, ⟨⟨vs, by rw [Instruction.gives_of_ne hexec, hvs]; rfl, ?_⟩, hin.pending⟩, ?_⟩
  · rcases hin.status with hs | hs <;> rw [hs]
    · rw [put_status, hm]
      rfl
    · rfl
  · rw [hstack, Instruction.takes_of_ne hexec]
    rfl
  · refine h.next hopen.1 hopen.2 hhalt c ⟨rfl, rfl, rfl⟩ hin.address hin.loops
      (hin.calls.trans h.calls) ?_
    rw [hin.checkpoint, hin.address]
    rfl

lemma Stands.halt (h : Stands strict p blocks ls pre l post c rest own outer m)
    (hm : m.status = .running) (hop : l.opcode = .halt) (w : World) :
    Result p ls pre l c rest outer m (step p m w).1 := by
  have hiop : l.instruction.opcode = .halt := hop
  rw [h.step_eq w, hop]
  simp only [execute, stopScript, put_calls, h.calls]
  cases hrest : rest with
  | nil => exact Or.inl rfl
  | cons d rest' =>
    refine Or.inr ⟨?_, operates_of_pop ?_ ?_ ?_ ?_ rfl, .returns d rest' rfl ?_ rfl rfl rfl⟩
    · change m.status.isLive = true
      rw [hm]
      rfl
    · simp [hiop]
    · intro k
      rw [hiop]
      rfl
    · rw [hiop]
      rfl
    · rw [hiop]
      rfl
    · exact settles_of_opcode hop (by simp)

lemma Stands.warp (h : Stands strict p blocks ls pre l post c rest own outer m)
    (hm : m.status = .running) (hop : l.opcode = .warp) (w : World) :
    Result p ls pre l c rest outer m (step p m w).1 := by
  have hiop : l.instruction.opcode = .warp := hop
  have hresult : ∀ {m' : Machine} (c' : Call), (c'.routine = c.routine ∧ c'.returnTo = c.returnTo ∧
      c'.openLoops = c.openLoops) → m'.status = m.status → m'.stack = m.stack →
      m'.pending = m.pending → m'.address = Code.extent (codeOf (pre ++ [l])) → m'.loops = m.loops →
      m'.calls = c' :: rest → m'.checkpoint = m.checkpoint →
      Result p ls pre l c rest outer m m' := by
    intro m' c' hc hs hst hp ha hl hcalls hcp
    have hstep : Stepped p ls pre l c rest outer m m' := by
      refine h.next ?_ ?_ ?_ c' hc ha hl hcalls ?_ <;> rw [hop]
      · rfl
      · simp
      · simp
      · simpa using hcp
    exact hstep.result hm (by simp [hiop]) (fun k => by rw [hiop]; rfl) (by rw [hiop]; rfl) hs
      (by rw [hst, hiop]; rfl) hp
  rw [h.step_eq w, hop]
  simp only [execute, enterWarp, put_calls, h.calls]
  split
  · exact hresult c ⟨rfl, rfl, rfl⟩ rfl rfl rfl rfl rfl h.calls rfl
  · exact hresult { c with warp := true } ⟨rfl, rfl, rfl⟩ rfl rfl rfl rfl rfl rfl rfl

/-- Brackets take their operand from the stack and leave calls alone. -/
lemma Stepped.result_bracket (h : Stepped p ls pre l c rest outer m m') (hm : m.status = .running)
    (hb : l.opcode.isBracket = true) (hs : m'.status = m.status)
    (hst : m'.stack = m.stack.drop l.instruction.opcode.takes) (hp : m'.pending = m.pending) :
    Result p ls pre l c rest outer m m' := by
  refine h.result hm ?_ (fun k => ?_) ?_ hs hst hp
  · change l.opcode ≠ .exec
    intro hx
    rw [hx] at hb
    cases hb
  · change preparing l.opcode k = k
    cases hop : l.opcode <;> rw [hop] at hb <;> first | rfl | cases hb
  · change l.opcode.gives = 0
    cases hop : l.opcode <;> rw [hop] at hb <;> first | rfl | cases hb

/-- A bracket that jumps over some lines. -/
lemma Stands.result_over (h : Stands strict p blocks ls pre l post c rest own outer m)
    (hm : m.status = .running) (hb : l.opcode.isBracket = true) {opened : List (Nat × Opcode)}
    (hskips : Skips ls pre l post opened) {own' : List Loop}
    (hown : List.Forall₂ Loop.IsOf own' opened) {x : Machine} (hloops : x.loops = own' ++ outer)
    (hcalls : x.calls = m.calls) (hcp : x.checkpoint = m.checkpoint) (hs : x.status = m.status)
    (hst : x.stack = m.stack.drop l.instruction.opcode.takes) (hp : x.pending = m.pending) :
    Result p ls pre l c rest outer m
      (x.jumpPast (.ofInstructions (codeOf ls)) (Code.extent (codeOf pre))) := by
  have hover := h.over hskips hb hown hloops hcalls hcp
  obtain ⟨address, he⟩ := jumpPast_frame x (.ofInstructions (codeOf ls)) (Code.extent (codeOf pre))
  rw [he] at hover ⊢
  exact hover.result_bracket hm hb hs hst hp

/-- A bracket that opens and closes no loop and does not jump. -/
lemma Stands.result_next (h : Stands strict p blocks ls pre l post c rest own outer m)
    (hm : m.status = .running) (hb : l.opcode.isBracket = true)
    (hopen : l.opcode.opensLoop = false) (hend : l.opcode ≠ .loopEnd) {vs : List Value}
    (hvs : vs = m.stack.drop l.instruction.opcode.takes) :
    Result p ls pre l c rest outer m (m.put (Code.extent (codeOf (pre ++ [l]))) vs) := by
  obtain ⟨hnot, hhalt, -, -⟩ := bracket_facts (t := p.tables) hb
  have hstep : Stepped p ls pre l c rest outer m (m.put (Code.extent (codeOf (pre ++ [l]))) vs) :=
    h.next hopen hend hhalt c ⟨rfl, rfl, rfl⟩ rfl rfl h.calls (by rw [if_neg hnot]; rfl)
  exact hstep.result_bracket hm hb rfl hvs rfl

/-- Brackets take their operand and lead on, over some lines, or around. -/
lemma Stands.bracket (h : Stands strict p blocks ls pre l post c rest own outer m)
    (hm : m.status = .running) (hb : l.opcode.isBracket = true) (hne : l.opcode ≠ .endBranch)
    (w : World) : Result p ls pre l c rest outer m (step p m w).1 := by
  have hbracket := hb
  have htakes : ∀ {op : Opcode}, l.opcode = op → l.instruction.opcode.takes = op.takes :=
    fun ho => by rw [show l.instruction.opcode = _ from ho]
  have hopened : ∀ {x : Machine} {kind : LoopKind}, kind.isOf l.opcode = true →
      x.address = Code.extent (codeOf (pre ++ [l])) → x.loops = m.loops → x.calls = m.calls →
      x.checkpoint = m.checkpoint → x.status = m.status →
      x.stack = m.stack.drop l.instruction.opcode.takes → x.pending = m.pending →
      Result p ls pre l c rest outer m (x.openLoop kind) :=
    fun hk ha hl hc hcp hs hst hp => (h.open hk ha hl hc hcp).result_bracket hm hbracket hs hst hp
  rw [h.step_eq w]
  cases hop : l.opcode <;> rw [hop] at hb <;> cases hb <;> simp only [execute, pop_eq, put_stack]
  case endBranch => exact absurd hop hne
  case branch =>
    split
    · exact h.result_next hm hbracket (by rw [hop]; rfl) (by simp [hop]) (by rw [htakes hop]; rfl)
    · exact h.result_over hm hbracket (h.skips_branch (Or.inl hop)) h.inside h.loops rfl rfl rfl
        (by rw [htakes hop]; rfl) rfl
  case otherwise =>
    exact h.result_over hm hbracket (h.skips_branch (Or.inr hop)) h.inside h.loops rfl rfl rfl
      (by rw [htakes hop]; rfl) rfl
  case forever =>
    exact hopened (by rw [hop]; rfl) rfl rfl rfl rfl rfl (by rw [htakes hop]; rfl) rfl
  case untilLoop =>
    exact hopened (by rw [hop]; rfl) rfl rfl rfl rfl rfl (by rw [htakes hop]; rfl) rfl
  case times =>
    split
    · exact hopened (by rw [hop]; rfl) rfl rfl rfl rfl rfl (by rw [htakes hop]; rfl) rfl
    · exact h.result_over hm hbracket (h.skips_loop (by rw [hop]; rfl)) h.inside h.loops rfl rfl rfl
        (by rw [htakes hop]; rfl) rfl
  case untilTest =>
    split
    · -- out of the loop that stands innermost
      obtain ⟨o, os, hopened, hskips⟩ := h.skips_test hop
      have hinside := h.inside
      rw [Inside, hopened] at hinside
      obtain ⟨x, own', -, hown', rfl⟩ := List.forall₂_cons_right_iff.1 hinside
      refine h.result_over hm hbracket hskips hown' ?_ rfl rfl rfl (by rw [htakes hop]; rfl) rfl
      simp only [put_loops, h.loops]
      rfl
    · exact h.result_next hm hbracket (by rw [hop]; rfl) (by simp [hop]) (by rw [htakes hop]; rfl)
  case loopEnd =>
    obtain ⟨h1, h2, h3⟩ := endRound_same (m.put (Code.extent (codeOf (pre ++ [l]))) m.stack)
    exact (h.endRound hop).result_bracket hm hbracket h1 (by rw [h2, htakes hop]; rfl) h3

/-- **One step** of a machine that stands at a line. -/
lemma Stands.result (h : Stands strict p blocks ls pre l post c rest own outer m)
    (hm : m.status = .running) (w : World) :
    Result p ls pre l c rest outer m (step p m w).1 := by
  by_cases hexec : l.opcode = .exec
  · exact h.native hm hexec w
  by_cases hcall : l.opcode = .callProcedure
  · exact h.call hm hcall w
  by_cases hhalt : l.opcode = .halt
  · exact h.halt hm hhalt w
  by_cases hwarp : l.opcode = .warp
  · exact h.warp hm hwarp w
  by_cases hb : l.opcode.isBracket = true → l.opcode = .endBranch
  · exact h.plain hm hb hhalt hexec hcall hwarp w
  · rw [Classical.not_imp] at hb
    exact h.bracket hm hb.1 hb.2 w

end

end Machine

end Blockwork
