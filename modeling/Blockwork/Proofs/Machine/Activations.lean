import Blockwork.Proofs.Machine.Flow
import Blockwork.Proofs.Machine.Stepping

/-!
A machine inside of custom blocks, by its caller and by what each activation has done of its
instructions and has still to do. From these follow the address, the open loops and the calls; so what
an instruction does can be told without addresses, and what a native does that waits for nothing can be
told without the place where it is called.
-/

namespace Blockwork

/-- Yields, retries or waits for a promise. The natives that no block uses are counted among these. -/
def Native.waits : Native → Bool
  | .startWait | .wait | .waitUntil | .startBubble _ | .broadcastAndWait | .ask | .control _ => true
  | _ => false

namespace Machine

/-! ### Places -/

/-- The machine at the place in the code where another one is. -/
def moved (m x : Machine) : Machine :=
  { m with address := x.address, loops := x.loops, calls := x.calls, warpDepth := x.warpDepth }

@[simp] lemma moved_moved (m x y : Machine) : (m.moved x).moved y = m.moved y := rfl
@[simp] lemma moved_self (m : Machine) : m.moved m = m := rfl
@[simp] lemma moved_stack (m x : Machine) : (m.moved x).stack = m.stack := rfl
@[simp] lemma moved_status (m x : Machine) : (m.moved x).status = m.status := rfl
@[simp] lemma moved_promise (m x : Machine) : (m.moved x).promise = m.promise := rfl
@[simp] lemma moved_loops (m x : Machine) : (m.moved x).loops = x.loops := rfl
@[simp] lemma moved_calls (m x : Machine) : (m.moved x).calls = x.calls := rfl
@[simp] lemma moved_address (m x : Machine) : (m.moved x).address = x.address := rfl
@[simp] lemma moved_warpDepth (m x : Machine) : (m.moved x).warpDepth = x.warpDepth := rfl

/-- An activation of a custom block, by what it has done of its instructions and has still to do. -/
structure Frame where
  index : Nat
  arguments : List Value
  warp : Bool
  done : List Instruction
  todo : List Instruction
  /-- The open loops, the innermost first. -/
  kinds : List LoopKind

/-- Open loops by their kinds; each starts right behind the instruction that opens it. -/
def loopsAt (kinds : List LoopKind) (done : List Instruction) : List Loop :=
  List.zipWith (fun k o => ⟨k, o.1 + 1⟩) kinds (Code.opened (done.map (·.opcode)))

namespace Frame

def loops (f : Frame) : List Loop := loopsAt f.kinds f.done

/-- The same activation at another instruction. -/
def put (f : Frame) (done todo : List Instruction) (kinds : List LoopKind) : Frame :=
  { f with done, todo, kinds }

/-- An activation in a program. -/
structure In (p : Program) (f : Frame) : Prop where
  holds : p.Holds (.procedure f.index) (f.done ++ f.todo)
  nested : Code.Nested ((f.done ++ f.todo).map (·.opcode))
  kinds : f.kinds.length = (Code.opened (f.done.map (·.opcode))).length

variable {p : Program} {f : Frame}

lemma In.put (h : f.In p) {xs ys : List Instruction} {ks : List LoopKind}
    (hcode : xs ++ ys = f.done ++ f.todo)
    (hkinds : ks.length = (Code.opened (xs.map (·.opcode))).length) : (f.put xs ys ks).In p where
  holds := by
    simp only [Frame.put, hcode]
    exact h.holds
  nested := by
    simp only [Frame.put, hcode]
    exact h.nested
  kinds := hkinds

lemma map_kind_loops (h : f.kinds.length = (Code.opened (f.done.map (·.opcode))).length) :
    f.loops.map (·.kind) = f.kinds := by
  unfold loops loopsAt
  generalize Code.opened (f.done.map (·.opcode)) = os at h
  generalize f.kinds = ks at h
  induction ks generalizing os with
  | nil => simp
  | cons k ks ih =>
    cases os with
    | nil => simp at h
    | cons o os => simpa using ih os (by simpa using h)

end Frame

/-- Where the machine goes on inside of some activations, the innermost first. -/
def addressIn (m : Machine) : List Frame → Nat
  | [] => m.address
  | f :: _ => Code.extent f.done

def loopsIn (m : Machine) : List Frame → List Loop
  | [] => m.loops
  | f :: fs => f.loops ++ m.loopsIn fs

def callsIn (m : Machine) : List Frame → List Call
  | [] => m.calls
  | f :: fs =>
    { routine := .procedure f.index, returnTo := m.addressIn fs, arguments := f.arguments
      warp := f.warp, openLoops := (m.loopsIn fs).length } :: m.callsIn fs

/-- The machine inside of some activations that it has called. -/
def within (m : Machine) (fs : List Frame) : Machine :=
  { m with
    address := m.addressIn fs
    loops := m.loopsIn fs
    calls := m.callsIn fs
    warpDepth := m.warpDepth + fs.countP (·.warp) }

lemma callsIn_ne_nil {m : Machine} (h : m.calls ≠ []) (fs : List Frame) : m.callsIn fs ≠ [] := by
  cases fs with
  | nil => exact h
  | cons f fs => simp [callsIn]

/-- Going back ends the innermost activation and nothing else. -/
lemma stopScript_within {base : Machine} (h : base.calls ≠ []) (m : Machine) (f : Frame)
    (fs : List Frame) : (m.moved (base.within (f :: fs))).stopScript = m.moved (base.within fs) := by
  obtain ⟨d, rest, hd⟩ := List.exists_cons_of_ne_nil (callsIn_ne_nil h fs)
  have hloops : (f.loops ++ base.loopsIn fs).drop
      ((f.loops ++ base.loopsIn fs).length - (base.loopsIn fs).length) = base.loopsIn fs := by
    rw [List.length_append, Nat.add_sub_cancel]
    exact List.drop_left
  have hdepth : (if f.warp then base.warpDepth + (f :: fs).countP (·.warp) - 1
      else base.warpDepth + (f :: fs).countP (·.warp)) = base.warpDepth + fs.countP (·.warp) := by
    cases hw : f.warp <;> simp [hw]
  simp only [stopScript, moved, within, callsIn, hd, returnFrom, loopsIn, hloops, hdepth]

/-! ### Instructions in place -/

/-- The number of the round depends on the kinds of the open loops only. -/
lemma roundsDone_congr {ls ls' : List Loop} (h : ls.map (·.kind) = ls'.map (·.kind)) :
    roundsDone ls = roundsDone ls' := by
  induction ls generalizing ls' with
  | nil =>
    obtain rfl : ls' = [] := by simpa using h.symm
    rfl
  | cons l ls ih =>
    obtain ⟨k, a⟩ := l
    cases ls' with
    | nil => simp at h
    | cons l' ls' =>
      obtain ⟨k', a'⟩ := l'
      simp only [List.map_cons, List.cons.injEq] at h
      obtain ⟨rfl, h⟩ := h
      cases k <;> simp [roundsDone, ih h]

/-- Works on operands, variables, lists and arguments, wherever the machine is. -/
def isQuiet : Opcode → Bool
  | .start | .endBranch | .const | .null | .round | .unary _ | .binary _ | .random | .var _ | .list _
  | .initProcedure | .addArg | .readArg => true
  | _ => false

/-- A quiet instruction does the same at two places that have the same arguments and are in the same
round. -/
lemma execute_moved {op : Opcode} (hop : isQuiet op = true) {p q : Program}
    (hconst : q.tables.constants = p.tables.constants) (code code' : Code) (a a' x : Nat)
    (m : Machine) {u v : Machine} (hround : roundsDone u.loops = roundsDone v.loops)
    (hargs : ∀ i, u.readArgument i = v.readArgument i) (w : World) :
    execute p code a op x (m.moved u) w =
      ((execute q code' a' op x (m.moved v) w).1.moved u,
        (execute q code' a' op x (m.moved v) w).2) := by
  cases op
  case const =>
    simp only [execute, hconst]
    cases p.tables.constants[x]? <;> rfl
  case round =>
    simp only [execute, moved_loops, hround]
    rfl
  case readArg =>
    have hread : ∀ u : Machine, (m.moved u).readArgument x = u.readArgument x := fun _ => rfl
    simp only [execute, hread, hargs]
    rfl
  case unary f => simp only [execute, pop_eq]; rfl
  case binary f => simp only [execute, pop_eq]; rfl
  case random => simp only [execute, pop_eq]; rfl
  case var f =>
    have hvars : ∀ u : Machine, (m.moved u).vars = m.vars := fun _ => rfl
    cases f <;> simp only [execute, stepVariable, pop_eq, hvars]
    case read => rfl
    all_goals cases m.vars[x]? <;> rfl
  case list f => cases f <;> simp only [execute, stepList, pop_eq] <;> rfl
  case addArg =>
    simp only [execute, addArgument, pop_eq]
    cases hp : m.pending <;> simp [moved, hp]
  case start | endBranch | null | initProcedure => rfl
  all_goals cases hop

/-- A quiet instruction leaves the machine running, unless it faults. -/
lemma status_quiet {op : Opcode} (hop : isQuiet op = true) (p : Program) (code : Code) (a x : Nat)
    (m : Machine) (w : World) :
    (execute p code a op x m w).1.promise = m.promise ∧
      ((execute p code a op x m w).1.status = m.status ∨
        (execute p code a op x m w).1.status.isLive = false) := by
  cases op
  case const =>
    simp only [execute]
    cases p.tables.constants[x]? with
    | none => exact ⟨rfl, .inr rfl⟩
    | some v => exact ⟨rfl, .inl rfl⟩
  case var f =>
    cases f <;> simp only [execute, stepVariable, pop_eq]
    case read => exact ⟨rfl, .inl rfl⟩
    all_goals
      cases m.vars[x]? <;> exact ⟨rfl, .inl rfl⟩
  case list f =>
    cases f <;> simp [execute, stepList, pop_eq, push]
  case addArg =>
    simp only [execute, addArgument, pop_eq]
    split <;> exact ⟨rfl, .inl rfl⟩
  case unary | binary | random =>
    simp only [execute, pop_eq]
    exact ⟨rfl, .inl rfl⟩
  case start | endBranch | null | initProcedure | round | readArg => exact ⟨rfl, .inl rfl⟩
  all_goals cases hop

/-- What a quiet instruction does, at all places that have the same arguments and are in the same round. -/
lemma execute_quiet {op : Opcode} (hop : isQuiet op = true) (p : Program) (x : Nat) (m u : Machine)
    (w : World) : ∃ m' w', m'.promise = m.promise ∧ (m'.status = m.status ∨ m'.status.isLive = false) ∧
      ∀ (q : Program) (code : Code) (a : Nat) (v : Machine),
        q.tables.constants = p.tables.constants → roundsDone v.loops = roundsDone u.loops →
        (∀ i, v.readArgument i = u.readArgument i) →
        execute q code a op x (m.moved v) w = (Machine.moved m' v, w') := by
  have hkeeps := status_quiet hop p (.ofInstructions []) 0 x (m.moved u) w
  exact ⟨_, _, hkeeps.1, hkeeps.2, fun q code a v hconst hround hargs =>
    execute_moved hop hconst.symm code _ a _ x m hround hargs w⟩

/-! ### Steps inside of an activation -/

section

variable {p : Program} {base m : Machine} {f : Frame} {fs : List Frame} {i : Instruction}
  {xs ys rest : List Instruction} {w : World}

/-- A step does the first instruction that the innermost activation has still to do. -/
lemma step_within (h : f.In p) (hi : f.todo = i :: rest) :
    step p (m.moved (base.within (f :: fs))) w =
      execute p (.ofInstructions (f.done ++ i :: rest)) (Code.extent f.done) i.opcode i.operand
        ((m.moved (base.within (f :: fs))).put (Code.extent (f.done ++ [i])) m.stack) w := by
  have hholds := h.holds
  rw [hi] at hholds
  exact @step_eq p (m.moved (base.within (f :: fs))) i f.done rest hholds rfl w

/-- An activation that stands elsewhere with the same loops. -/
lemma put_within {done todo : List Instruction} {kinds : List LoopKind}
    (h : (f.put done todo kinds).loops = f.loops) (st : List Value) :
    (m.moved (base.within (f :: fs))).put (Code.extent done) st =
      { m with stack := st }.moved (base.within (f.put done todo kinds :: fs)) := by
  simp only [moved, within, callsIn, loopsIn, h]
  rfl

lemma loops_put_of_opened {done todo : List Instruction}
    (h : Code.opened (done.map (·.opcode)) = Code.opened (f.done.map (·.opcode))) :
    (f.put done todo f.kinds).loops = f.loops := by
  simp only [Frame.loops, Frame.put, loopsAt, h]

lemma opened_next (hopen : i.opcode.opensLoop = false) (hend : i.opcode ≠ .loopEnd) :
    Code.opened ((f.done ++ [i]).map (·.opcode)) = Code.opened (f.done.map (·.opcode)) := by
  rw [List.map_append, List.map_singleton, Code.opened_snoc, Code.openStep_other hopen hend]

/-- Loops stay as they are behind an instruction that is not about loops. -/
lemma next_within (hopen : i.opcode.opensLoop = false) (hend : i.opcode ≠ .loopEnd)
    (st : List Value) :
    (m.moved (base.within (f :: fs))).put (Code.extent (f.done ++ [i])) st =
      { m with stack := st }.moved (base.within (f.put (f.done ++ [i]) rest f.kinds :: fs)) :=
  put_within (loops_put_of_opened (opened_next hopen hend)) st

/-- A jump past the end of a bracket. -/
lemma jump_within {j : Instruction} (hcount : j.opcode.operandCount = 0) {code : Code}
    (hjump : code.jump? (Code.extent f.done) = some (Code.extent (f.done ++ i :: xs)))
    {kinds : List LoopKind} {b : Nat}
    (hloops : (f.put (f.done ++ i :: (xs ++ [j])) rest kinds).loops = f.loops) (st : List Value) :
    ((m.moved (base.within (f :: fs))).put b st).jumpPast code (Code.extent f.done) =
      { m with stack := st }.moved
        (base.within (f.put (f.done ++ i :: (xs ++ [j])) rest kinds :: fs)) := by
  have hnext : Code.extent (f.done ++ i :: xs) + 1 = Code.extent (f.done ++ i :: (xs ++ [j])) := by
    simp [hcount]
    omega
  rw [jumpPast_put hjump, hnext, put_within hloops]

/-- A branch, or the choice behind it, with the code up to its partner. -/
structure Bracket (i : Instruction) (xs : List Instruction) (j : Instruction) : Prop where
  first : i.opcode = .branch ∨ i.opcode = .otherwise
  last : j.opcode = .otherwise ∨ j.opcode = .endBranch
  nested : Code.Nested (xs.map (·.opcode))

lemma Bracket.opened {j : Instruction} (h : Bracket i xs j) :
    Code.opened ((f.done ++ i :: (xs ++ [j])).map (·.opcode)) = Code.opened (f.done.map (·.opcode)) := by
  have hi : i.opcode.opensLoop = false ∧ i.opcode ≠ .loopEnd := by
    rcases h.first with h | h <;> simp [h, Opcode.opensLoop]
  have hj : j.opcode.opensLoop = false ∧ j.opcode ≠ .loopEnd := by
    rcases h.last with h | h <;> simp [h, Opcode.opensLoop]
  have hsplit : (f.done ++ i :: (xs ++ [j])).map (·.opcode) =
      ((f.done.map (·.opcode) ++ [i.opcode]) ++ xs.map (·.opcode)) ++ [j.opcode] := by simp
  rw [hsplit, Code.opened_snoc, Code.openStep_other hj.1 hj.2, Code.opened_append_nested h.nested,
    Code.opened_snoc, Code.openStep_other hi.1 hi.2]

lemma Bracket.jump {j : Instruction} (h : Bracket i xs j) (hf : f.In p)
    (hi : f.todo = i :: (xs ++ j :: rest)) {b : Nat} (st : List Value) :
    ((m.moved (base.within (f :: fs))).put b st).jumpPast
        (.ofInstructions (f.done ++ i :: (xs ++ j :: rest))) (Code.extent f.done) =
      { m with stack := st }.moved
        (base.within (f.put (f.done ++ i :: (xs ++ [j])) rest f.kinds :: fs)) := by
  have hfull := hf.holds.full
  rw [hi] at hfull
  refine jump_within (by rcases h.last with h | h <;> simp [h, Opcode.operandCount]) ?_
    (loops_put_of_opened h.opened) st
  rw [Code.jump?_eq_jumpFrom hfull]
  simpa [Code.extent] using Code.jumpFrom_branch h.first h.nested h.last

/-- A branch goes on behind itself or behind its partner. -/
lemma step_branch {j : Instruction} (h : f.In p) (hi : f.todo = i :: (xs ++ j :: rest))
    (hop : i.opcode = .branch) (hb : Bracket i xs j) :
    step p (m.moved (base.within (f :: fs))) w =
      ({ m with stack := m.stack.drop 1 }.moved (base.within
        ((if (m.stack.head?.getD .empty).toBool
          then f.put (f.done ++ [i]) (xs ++ j :: rest) f.kinds
          else f.put (f.done ++ i :: (xs ++ [j])) rest f.kinds) :: fs)), w) := by
  rw [step_within h hi, hop]
  simp only [execute, pop_eq, put_stack]
  split
  · rw [← next_within (by simp [hop, Opcode.opensLoop]) (by simp [hop])]
    rfl
  · rw [← hb.jump h hi]
    rfl

lemma step_otherwise {j : Instruction} (h : f.In p) (hi : f.todo = i :: (xs ++ j :: rest))
    (hop : i.opcode = .otherwise) (hb : Bracket i xs j) :
    step p (m.moved (base.within (f :: fs))) w =
      (m.moved (base.within (f.put (f.done ++ i :: (xs ++ [j])) rest f.kinds :: fs)), w) := by
  rw [step_within h hi, hop]
  exact congrArg (·, w) (hb.jump h hi m.stack)

/-- A loop that opens starts right behind its opening. -/
lemma open_within (hop : i.opcode.opensLoop = true) (kind : LoopKind) (st : List Value) :
    ((m.moved (base.within (f :: fs))).put (Code.extent (f.done ++ [i])) st).openLoop kind =
      { m with stack := st }.moved
        (base.within (f.put (f.done ++ [i]) rest (kind :: f.kinds) :: fs)) := by
  have hcount : i.opcode.operandCount = 0 := by
    generalize i.opcode = op at hop
    cases op <;> first | rfl | cases hop
  have hloops : (f.put (f.done ++ [i]) rest (kind :: f.kinds)).loops =
      ⟨kind, Code.extent (f.done ++ [i])⟩ :: f.loops := by
    simp [Frame.loops, Frame.put, loopsAt, Code.opened_snoc, Code.openStep_opener hop, Code.extent,
      hcount]
  simp only [openLoop, moved, within, callsIn, loopsIn, hloops]
  rfl

/-- The kind of a loop that has no count. -/
def openKind? : Opcode → Option LoopKind
  | .forever => some .forever
  | .untilLoop => some .until
  | _ => none

lemma step_open {kind : LoopKind} (h : f.In p) (hi : f.todo = i :: rest)
    (hop : openKind? i.opcode = some kind) :
    step p (m.moved (base.within (f :: fs))) w =
      (m.moved (base.within (f.put (f.done ++ [i]) rest (kind :: f.kinds) :: fs)), w) := by
  have hcases : i.opcode = .forever ∧ kind = .forever ∨ i.opcode = .untilLoop ∧ kind = .until := by
    generalize i.opcode = op at hop
    cases op <;> simp_all [openKind?]
  rw [step_within h hi]
  have hopen : i.opcode.opensLoop = true := by
    rcases hcases with ⟨h, -⟩ | ⟨h, -⟩ <;> simp [h, Opcode.opensLoop]
  refine Eq.trans ?_ (congrArg (·, w) (open_within hopen kind m.stack))
  rcases hcases with ⟨h, rfl⟩ | ⟨h, rfl⟩ <;> simp only [h, execute]

/-- The loop around the place is the innermost one. -/
lemma opened_inLoop {before : List Instruction} {o : Instruction} (ho : o.opcode.opensLoop = true)
    (hx : Code.Nested (xs.map (·.opcode)) ∨ Code.LoopBody o.opcode (xs.map (·.opcode))) :
    Code.opened ((before ++ o :: xs).map (·.opcode)) =
      (Code.extent before, o.opcode) :: Code.opened (before.map (·.opcode)) := by
  rw [List.map_append, List.map_cons]
  rcases hx with hx | hx
  · have hsplit : before.map (·.opcode) ++ o.opcode :: xs.map (·.opcode) =
        (before.map (·.opcode) ++ [o.opcode]) ++ xs.map (·.opcode) := by simp
    rw [hsplit, Code.opened_append_nested hx, Code.opened_snoc, Code.openStep_opener ho]
    rfl
  · exact Code.opened_loopBody hx _

lemma opened_open {before : List Instruction} {o : Instruction} (ho : o.opcode.opensLoop = true) :
    Code.opened ((before ++ [o]).map (·.opcode)) =
      (Code.extent before, o.opcode) :: Code.opened (before.map (·.opcode)) :=
  opened_inLoop ho (.inl .nil)

lemma loops_inLoop {before : List Instruction} {o : Instruction} {k : LoopKind} {ks : List LoopKind}
    (ho : o.opcode.opensLoop = true)
    (hx : Code.Nested (xs.map (·.opcode)) ∨ Code.LoopBody o.opcode (xs.map (·.opcode))) :
    loopsAt (k :: ks) (before ++ o :: xs) =
      ⟨k, Code.extent (before ++ [o])⟩ :: loopsAt ks before := by
  have hcount : o.opcode.operandCount = 0 := by
    generalize o.opcode = op at ho
    cases op <;> first | rfl | cases ho
  simp only [loopsAt, opened_inLoop ho hx, List.zipWith_cons_cons, Code.extent_append,
    Code.extent_cons, hcount, Code.extent_nil]

/-- Behind the end of a loop the loop is closed. -/
lemma opened_afterLoop {before : List Instruction} {o j : Instruction} (hj : j.opcode = .loopEnd)
    (hx : Code.LoopBody o.opcode (xs.map (·.opcode))) :
    Code.opened ((before ++ o :: (xs ++ [j])).map (·.opcode)) =
      Code.opened (before.map (·.opcode)) := by
  have hsplit : (before ++ o :: (xs ++ [j])).map (·.opcode) =
      (before.map (·.opcode) ++ o.opcode :: xs.map (·.opcode)) ++ [.loopEnd] := by simp [hj]
  rw [hsplit, Code.opened_snoc, Code.openStep_loopEnd, Code.opened_loopBody hx, List.tail_cons]

lemma loops_afterLoop {before : List Instruction} {o j : Instruction} (ks : List LoopKind)
    (hj : j.opcode = .loopEnd) (hx : Code.LoopBody o.opcode (xs.map (·.opcode))) :
    loopsAt ks (before ++ o :: (xs ++ [j])) = loopsAt ks before := by
  rw [loopsAt, opened_afterLoop hj hx]
  rfl

lemma step_times {j : Instruction} (h : f.In p) (hi : f.todo = i :: (xs ++ j :: rest))
    (hop : i.opcode = .times) (hend : j.opcode = .loopEnd) (hx : Code.Nested (xs.map (·.opcode))) :
    step p (m.moved (base.within (f :: fs))) w =
      let count := Number.round (m.stack.head?.getD .empty).toNumber
      ({ m with stack := m.stack.drop 1 }.moved (base.within
        ((if count ≥ 1 then f.put (f.done ++ [i]) (xs ++ j :: rest) (.times 0 count :: f.kinds)
          else f.put (f.done ++ i :: (xs ++ [j])) rest f.kinds) :: fs)), w) := by
  have hfull := h.holds.full
  rw [hi] at hfull
  have hout : (f.put (f.done ++ i :: (xs ++ [j])) rest f.kinds).loops = f.loops :=
    loops_afterLoop f.kinds hend (.plain (.inr hop) hx)
  have hjump : (Code.ofInstructions (f.done ++ i :: (xs ++ j :: rest))).jump? (Code.extent f.done) =
      some (Code.extent (f.done ++ i :: xs)) := by
    rw [Code.jump?_eq_jumpFrom hfull]
    simpa [Code.extent, hop, hend] using @Code.jumpFrom_loop _ _ _ .times rfl hx
  rw [step_within h hi, hop]
  simp only [execute, pop_eq, put_stack]
  split
  · rw [← open_within (by simp [hop, Opcode.opensLoop])]
    rfl
  · rw [← jump_within (by simp [hend, Opcode.operandCount]) hjump hout]
    rfl

/-- A test that comes out true goes on behind the end of its loop. -/
lemma step_untilTest {before : List Instruction} {o j : Instruction} {k : LoopKind}
    {ks : List LoopKind} (h : f.In p)
    (hdone : f.done = before ++ o :: xs) (hi : f.todo = i :: (ys ++ j :: rest))
    (ho : o.opcode = .untilLoop) (hop : i.opcode = .untilTest) (hend : j.opcode = .loopEnd)
    (hx : Code.Nested (xs.map (·.opcode))) (hy : Code.Nested (ys.map (·.opcode)))
    (hkinds : f.kinds = k :: ks) :
    step p (m.moved (base.within (f :: fs))) w =
      ({ m with stack := m.stack.drop 1 }.moved (base.within
        ((if (m.stack.head?.getD .empty).toBool then f.put (f.done ++ i :: (ys ++ [j])) rest ks
          else f.put (f.done ++ [i]) (ys ++ j :: rest) f.kinds) :: fs)), w) := by
  have hfull := h.holds.full
  rw [hi] at hfull
  have hjump : (Code.ofInstructions (f.done ++ i :: (ys ++ j :: rest))).jump? (Code.extent f.done) =
      some (Code.extent (f.done ++ i :: ys)) := by
    rw [Code.jump?_eq_jumpFrom hfull]
    simpa [Code.extent, hdone, ho, hop, hend] using
      @Code.jumpFrom_test (before.map (·.opcode)) _ _ (rest.map (·.opcode)) hx hy
  have hnext : Code.extent (f.done ++ i :: ys) + 1 = Code.extent (f.done ++ i :: (ys ++ [j])) := by
    simp [hend, Opcode.operandCount]
    omega
  have hin : f.loops = ⟨k, Code.extent (before ++ [o])⟩ :: loopsAt ks before := by
    rw [Frame.loops, hkinds, hdone]
    exact loops_inLoop (by simp [ho, Opcode.opensLoop]) (.inl hx)
  have hout : (f.put (f.done ++ i :: (ys ++ [j])) rest ks).loops = loopsAt ks before := by
    have hbody : Code.LoopBody o.opcode ((xs ++ i :: ys).map (·.opcode)) := by
      rw [ho, List.map_append, List.map_cons, hop]
      exact .tested hx hy
    have hsplit : f.done ++ i :: (ys ++ [j]) = before ++ o :: ((xs ++ i :: ys) ++ [j]) := by
      simp [hdone]
    simp only [Frame.loops, Frame.put, hsplit]
    exact loops_afterLoop ks hend hbody
  rw [step_within h hi, hop]
  simp only [execute, pop_eq, put_stack]
  split
  · simp only [jumpPast, hjump, hnext, put_loops, moved, within, callsIn, loopsIn, hin, hout,
      List.cons_append, List.tail_cons]
    rfl
  · rw [← next_within (by simp [hop, Opcode.opensLoop]) (by simp [hop])]
    rfl

/-- The kind of a loop in its next round, if there is one. -/
def nextRound : LoopKind → Option LoopKind
  | .times done count =>
    if Float.ofNat (done + 1) ≥ count then none else some (.times (done + 1) count)
  | k => some k

lemma endRound_eq {n : Machine} {k : LoopKind} {a : Nat} {ls : List Loop}
    (h : n.loops = ⟨k, a⟩ :: ls) :
    n.endRound = (nextRound k).elim { n with loops := ls }
      fun k' => { n with loops := ⟨k', a⟩ :: ls, address := a } := by
  cases k with
  | times done count =>
    simp only [endRound, h, nextRound]
    split <;> rfl
  | _ => simp only [endRound, h, nextRound, Option.elim_some]

/-- The end of a round goes back to the start of the loop, or leaves it. -/
lemma step_loopEnd {before : List Instruction} {o : Instruction} {k : LoopKind} {ks : List LoopKind}
    (h : f.In p) (hdone : f.done = before ++ o :: xs) (hi : f.todo = i :: rest)
    (hop : i.opcode = .loopEnd) (hx : Code.LoopBody o.opcode (xs.map (·.opcode)))
    (hkinds : f.kinds = k :: ks) :
    step p (m.moved (base.within (f :: fs))) w =
      (m.moved (base.within ((nextRound k).elim (f.put (f.done ++ [i]) rest ks)
        (fun k' => f.put (before ++ [o]) (xs ++ i :: rest) (k' :: ks)) :: fs)), w) := by
  have hin : f.loops = ⟨k, Code.extent (before ++ [o])⟩ :: loopsAt ks before := by
    rw [Frame.loops, hkinds, hdone]
    exact loops_inLoop hx.opensLoop (.inr hx)
  have hout : (f.put (f.done ++ [i]) rest ks).loops = loopsAt ks before := by
    have hsplit : f.done ++ [i] = before ++ o :: (xs ++ [i]) := by simp [hdone]
    simp only [Frame.loops, Frame.put, hsplit]
    exact loops_afterLoop ks hop hx
  have hback : ∀ k', (f.put (before ++ [o]) (xs ++ i :: rest) (k' :: ks)).loops =
      ⟨k', Code.extent (before ++ [o])⟩ :: loopsAt ks before :=
    fun k' => loops_inLoop hx.opensLoop (.inl .nil)
  have hround : ((m.moved (base.within (f :: fs))).put (Code.extent (f.done ++ [i])) m.stack).loops =
      ⟨k, Code.extent (before ++ [o])⟩ :: (loopsAt ks before ++ base.loopsIn fs) := by
    rw [← List.cons_append, ← hin]
    rfl
  rw [step_within h hi, hop]
  simp only [execute, endRound_eq hround]
  cases nextRound k with
  | none =>
    simp only [Option.elim_none, moved, within, callsIn, loopsIn, hout]
    rfl
  | some k' =>
    simp only [Option.elim_some, moved, within, callsIn, loopsIn, hback]
    rfl

/-- Where the code ends the activation does. -/
lemma step_end (hbase : base.calls ≠ []) (h : f.In p) (hi : f.todo = []) :
    step p (m.moved (base.within (f :: fs))) w = (m.moved (base.within fs), w) := by
  have hholds := h.holds
  rw [hi, List.append_nil] at hholds
  have hword : (Code.ofInstructions f.done).words[Code.extent f.done]? = none := by
    rw [Code.words_ofInstructions, List.getElem?_toArray, List.getElem?_eq_none_iff,
      Code.length_encode hholds.full]
    exact Nat.le_refl _
  have hcode : p.code? (m.moved (base.within (f :: fs))).routine = some (.ofInstructions f.done) :=
    hholds.code
  have haddress : (m.moved (base.within (f :: fs))).address = Code.extent f.done := rfl
  simp only [step, hcode, haddress, hword, Option.bind_none, stopScript_within hbase]

lemma step_halt (hbase : base.calls ≠ []) (h : f.In p) (hi : f.todo = i :: rest)
    (hop : i.opcode = .halt) :
    step p (m.moved (base.within (f :: fs))) w = (m.moved (base.within fs), w) := by
  have hnext := @next_within base m f fs i rest (by simp [hop, Opcode.opensLoop]) (by simp [hop]) m.stack
  rw [step_within h hi, hnext, hop]
  exact congrArg (·, w) (stopScript_within hbase m _ fs)

lemma step_start (h : f.In p) (hi : f.todo = i :: rest) (hop : i.opcode = .start) :
    step p (m.moved (base.within (f :: fs))) w =
      (m.moved (base.within (f.put (f.done ++ [i]) rest f.kinds :: fs)), w) := by
  have hnext := @next_within base m f fs i rest (by rw [hop]; rfl) (by simp [hop]) m.stack
  rw [step_within h hi, hnext, hop]
  rfl

/-! ### Pauses -/

lemma step_breakFrame (h : f.In p) (hi : f.todo = i :: rest) (hop : i.opcode = .breakFrame)
    (hrun : m.status = .running) :
    step p (m.moved (base.within (f :: fs))) w =
      ({ m with status := if (base.within (f :: fs)).warpDepth == 0 then .yielded else .running }.moved
        (base.within (f.put (f.done ++ [i]) rest f.kinds :: fs)), w) := by
  have hnext := @next_within base m f fs i rest (by rw [hop]; rfl) (by simp [hop]) m.stack
  have hdepth : (base.within (f.put (f.done ++ [i]) rest f.kinds :: fs)).warpDepth =
      (base.within (f :: fs)).warpDepth := rfl
  rw [step_within h hi, hnext, hop]
  simp only [execute, moved_warpDepth, hdepth]
  cases (base.within (f :: fs)).warpDepth == 0 with
  | true => rfl
  | false =>
    simp only [Bool.false_eq_true, if_false, ← hrun]

lemma step_warp (h : f.In p) (hi : f.todo = i :: rest) (hop : i.opcode = .warp) :
    step p (m.moved (base.within (f :: fs))) w =
      (m.moved (base.within ({ f.put (f.done ++ [i]) rest f.kinds with warp := true } :: fs)), w) := by
  have hnext := @next_within base m f fs i rest (by rw [hop]; rfl) (by simp [hop]) m.stack
  rw [step_within h hi, hnext, hop]
  cases hw : f.warp with
  | true =>
    have hsame : ({ f.put (f.done ++ [i]) rest f.kinds with warp := true } : Frame) =
        f.put (f.done ++ [i]) rest f.kinds := by
      simp only [Frame.put, hw]
    rw [hsame]
    simp only [execute, enterWarp, moved, within, callsIn, Frame.put, hw, if_true]
  | false =>
    simp only [execute, enterWarp, moved, within, callsIn, Frame.put, hw, Bool.false_eq_true, if_false,
      List.countP_cons, if_true]
    rfl

/-! ### Calls -/

/-- Whether a call gives way. -/
def callStatus (n : Machine) (i : Nat) : Status :=
  if n.calls.any (·.routine == .procedure i) && n.warpDepth == 0 then .yielded else n.status

lemma callStatus_cases {n : Machine} (hn : n.status = .running) (i : Nat) :
    callStatus n i = .running ∨ callStatus n i = .yielded ∧ n.warpDepth = 0 := by
  unfold callStatus
  split
  · next h =>
    simp only [Bool.and_eq_true, beq_iff_eq] at h
    exact .inr ⟨rfl, h.2⟩
  · exact .inl hn

/-- A call of a custom block that has a body starts a new activation. -/
lemma step_call {is : List Instruction} (h : f.In p) (hi : f.todo = i :: rest)
    (hop : i.opcode = .callProcedure) (hbody : (p.code? (.procedure i.operand)).isSome) :
    step p (m.moved (base.within (f :: fs))) w =
      ({ m with pending := m.pending.tail
                status := callStatus (m.moved (base.within (f :: fs))) i.operand }.moved
        (base.within (⟨i.operand, m.pending.head?.getD [], false, [], is, []⟩ ::
          f.put (f.done ++ [i]) rest f.kinds :: fs)), w) := by
  have hloops : (f.put (f.done ++ [i]) rest f.kinds).loops = f.loops :=
    loops_put_of_opened (opened_next (by simp [hop, Opcode.opensLoop]) (by simp [hop]))
  rw [step_within h hi, hop]
  simp only [execute, callProcedure, hbody, if_true, moved, within, callsIn, loopsIn, hloops]
  rfl

lemma step_call_none (h : f.In p) (hi : f.todo = i :: rest) (hop : i.opcode = .callProcedure)
    (hbody : p.code? (.procedure i.operand) = none) :
    step p (m.moved (base.within (f :: fs))) w =
      ({ m with pending := m.pending.tail }.moved
        (base.within (f.put (f.done ++ [i]) rest f.kinds :: fs)), w) := by
  have hnext := @next_within base m f fs i rest (by simp [hop, Opcode.opensLoop]) (by simp [hop]) m.stack
  rw [step_within h hi, hnext, hop]
  simp only [execute, callProcedure, hbody, Option.isSome_none]
  rfl

end

/-! ### Natives that do not wait -/

/-- What a native that does not wait does depends on the target and the world, not on where the machine
is. -/
lemma run_calm {n : Native} (hn : n.waits = false) (m : Machine) (w : World) (x y : Value) :
    (∃ v w', ∀ u, n.run (m.moved u) w x y = ⟨m.moved u, w', v, .go⟩) ∨
    (∀ u, n.run (m.moved u) w x y = ⟨(m.moved u).stopScript, w, none, .go⟩) ∨
    ∃ w', ∀ u, n.run (m.moved u) w x y = ⟨(m.moved u).finish, w', none, .go⟩ := by
  have htarget : ∀ u, (m.moved u).target = m.target := fun _ => rfl
  cases n <;> simp only [Native.run, htarget]
  case stopThisScript => exact .inr (.inl fun _ => trivial)
  case stopAll => exact .inr (.inr ⟨_, fun _ => rfl⟩)
  case deleteClone =>
    split
    · exact .inr (.inr ⟨_, fun _ => rfl⟩)
    · exact .inl ⟨_, _, fun _ => rfl⟩
  case createClone =>
    split
    · exact .inl ⟨_, _, fun _ => rfl⟩
    · exact .inl ⟨_, _, fun _ => rfl⟩
  all_goals first | exact .inl ⟨_, _, fun _ => rfl⟩ | cases hn

lemma resume_calm {m : Machine} (hp : m.promise = none) (w : World) (v : Option Value) (a pops : Nat) :
    (resume a pops ⟨m, w, v, .go⟩).awaitPromise w =
      { m with stack := v.toList ++ m.stack.drop pops } := by
  have hresume : resume a pops ⟨m, w, v, .go⟩ = { m with stack := v.toList ++ m.stack.drop pops } := by
    cases v <;> rfl
  rw [hresume]
  exact awaitPromise_of_none (m := { m with stack := v.toList ++ m.stack.drop pops }) hp w

/-- A call of such a native goes on, goes back to the caller, or is the end. -/
lemma callNative_calm {n : Native} (hn : n.waits = false) {m : Machine} (hp : m.promise = none)
    (w : World) :
    (∃ st w', ∀ u a, (m.moved u).callNative w n a = ({ m with stack := st }.moved u, w')) ∨
    (∃ st, ∀ u a v, (m.moved u).stopScript = m.moved v →
      (m.moved u).callNative w n a = ({ m with stack := st }.moved v, w)) ∨
    ∃ m' w', m'.status.isLive = false ∧
      ∀ u a, ∃ v, (m.moved u).callNative w n a = (Machine.moved m' v, w') := by
  by_cases hlen : m.stack.length < n.arity
  · refine .inr (.inr ⟨m.fault .missingInput, w, rfl, fun u a => ⟨u, ?_⟩⟩)
    simp only [callNative, moved_stack, hlen, if_true]
    rfl
  · simp only [callNative, moved_stack, hlen, if_false]
    generalize (m.stack.take n.arity).reverse[0]?.getD .empty = x
    generalize (m.stack.take n.arity).reverse[1]?.getD .empty = y
    rcases run_calm hn m w x y with ⟨v, w', hrun⟩ | hrun | ⟨w', hrun⟩
    · refine .inl ⟨v.toList ++ m.stack.drop n.pops, w', fun u a => ?_⟩
      rw [hrun]
      exact congrArg (·, w') (@resume_calm (m.moved u) hp w' v a n.pops)
    · refine .inr (.inl ⟨m.stack.drop n.pops, fun u a v hv => ?_⟩)
      rw [hrun, hv]
      exact congrArg (·, w) (@resume_calm (m.moved v) hp w none a n.pops)
    · refine .inr (.inr ⟨{ m.finish with stack := m.stack.drop n.pops }, w', rfl, fun u a =>
        ⟨(m.moved u).finish, ?_⟩⟩)
      rw [hrun]
      exact congrArg (·, w') (@resume_calm (m.moved u).finish hp w' none a n.pops)

end Machine

end Blockwork
