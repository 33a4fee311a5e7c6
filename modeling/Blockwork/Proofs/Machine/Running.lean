import Blockwork.Machine.Step
import Blockwork.Proofs.Code.Placement
import Mathlib.Logic.Relation

/-!
Running code from where it stands. A routine is known by its instructions; a machine whose address
is where one of them stands does that instruction next.
-/

namespace Blockwork

/-- The words that instructions take. -/
def Code.extent (is : List Instruction) : Nat := Code.width (is.map (·.opcode))

namespace Instruction

/-- The operand, if there is one. -/
def operand (i : Instruction) : Nat := (i.operands.head?.map (·.toNat)).getD 0

end Instruction

/-- The code of a routine, by its instructions. -/
structure Program.Holds (p : Program) (r : Routine) (is : List Instruction) : Prop where
  code : p.code? r = some (.ofInstructions is)
  full : Code.AllFull is

namespace Code

@[simp] lemma extent_nil : extent [] = 0 := rfl

@[simp] lemma extent_append (xs ys : List Instruction) : extent (xs ++ ys) = extent xs + extent ys := by
  simp [extent]

@[simp] lemma extent_cons (i : Instruction) (rest : List Instruction) :
    extent (i :: rest) = 1 + i.opcode.operandCount + extent rest := by
  simp [extent]

end Code

/-- The code of a script around what its blocks are compiled to. -/
def Code.framed (is : List Instruction) : List Instruction :=
  ⟨.start, []⟩ :: (is ++ [⟨.halt, []⟩])

lemma Code.allFull_framed {is : List Instruction} (h : Code.AllFull is) :
    Code.AllFull (Code.framed is) := by
  intro i hi
  simp only [framed, List.mem_cons, List.mem_append, List.not_mem_nil, or_false] at hi
  rcases hi with rfl | hi | rfl
  · rfl
  · exact h i hi
  · rfl

namespace Machine

/-- The machine at another address and with other operands. -/
def put (m : Machine) (address : Nat) (stack : List Value) : Machine := { m with address, stack }

section

variable (m : Machine) (a b : Nat) (st st' : List Value)

@[simp] lemma put_address : (m.put a st).address = a := rfl
@[simp] lemma put_stack : (m.put a st).stack = st := rfl
@[simp] lemma put_put : (m.put a st).put b st' = m.put b st' := rfl
@[simp] lemma put_self : m.put m.address m.stack = m := rfl
@[simp] lemma put_routine : (m.put a st).routine = m.routine := rfl
@[simp] lemma put_status : (m.put a st).status = m.status := rfl
@[simp] lemma put_loops : (m.put a st).loops = m.loops := rfl
@[simp] lemma put_calls : (m.put a st).calls = m.calls := rfl
@[simp] lemma put_pending : (m.put a st).pending = m.pending := rfl
@[simp] lemma put_warpDepth : (m.put a st).warpDepth = m.warpDepth := rfl
@[simp] lemma put_promise : (m.put a st).promise = m.promise := rfl

end

/-- Instructions without an operand do not look at the word that comes next. -/
lemma execute_operand {op : Opcode} (h : op.operandCount = 0) (p : Program) (code : Code)
    (address x y : Nat) (m : Machine) (w : World) :
    execute p code address op x m w = execute p code address op y m w := by
  cases op <;> simp [Opcode.operandCount] at h <;> rfl

/-- A step does the instruction that stands at the address. -/
lemma step_eq {p : Program} {m : Machine} {i : Instruction} {pre post : List Instruction}
    (h : p.Holds m.routine (pre ++ i :: post)) (ha : m.address = Code.extent pre) (w : World) :
    step p m w = execute p (.ofInstructions (pre ++ i :: post)) (Code.extent pre) i.opcode i.operand
      (m.put (Code.extent (pre ++ [i])) m.stack) w := by
  have hpre : Code.AllFull pre := h.full.left
  have hi : i.operands.length = i.opcode.operandCount := h.full i (by simp)
  have hword : (Code.ofInstructions (pre ++ i :: post)).words[Code.extent pre]? =
      some i.opcode.toWord := by
    simpa [Code.extent] using @Code.word_at pre i post hpre
  have hnext : Code.extent (pre ++ [i]) = Code.extent pre + 1 + i.opcode.operandCount := by
    simp
    omega
  unfold step
  rw [h.code]
  simp only [ha, hword, Option.bind_some, Opcode.ofWord?_toWord, hnext]
  obtain ⟨op, xs⟩ := i
  rcases xs with _ | ⟨x, _ | ⟨y, xs⟩⟩
  · exact execute_operand hi.symm p _ _ _ _ _ _
  · have hx : (Code.ofInstructions (pre ++ ⟨op, [x]⟩ :: post)).words[Code.extent pre + 1]? =
        some x := by
      simpa [Code.extent] using @Code.operand_at pre op x post hpre
    rw [hx]
    rfl
  · cases op <;> simp [Opcode.operandCount] at hi

/-- One step of a running machine. -/
def Steps (p : Program) (s s' : Machine × World) : Prop :=
  s.1.status = .running ∧ s' = step p s.1 s.2

/-- Some steps of a machine that runs all the time. -/
def Runs (p : Program) : Machine × World → Machine × World → Prop :=
  Relation.ReflTransGen (Steps p)

lemma Runs.refl (p : Program) (s : Machine × World) : Runs p s s := Relation.ReflTransGen.refl

lemma Runs.trans {p : Program} {s s' s'' : Machine × World} (h : Runs p s s')
    (k : Runs p s' s'') : Runs p s s'' := Relation.ReflTransGen.trans h k

lemma Runs.step {p : Program} {m : Machine} {w : World} (h : m.status = .running) :
    Runs p (m, w) (step p m w) := Relation.ReflTransGen.single ⟨h, rfl⟩

lemma runs_instruction {p : Program} {m : Machine} {i : Instruction}
    {pre post : List Instruction} (h : p.Holds m.routine (pre ++ i :: post))
    (ha : m.address = Code.extent pre) (hm : m.status = .running) (w : World) :
    Runs p (m, w) (execute p (.ofInstructions (pre ++ i :: post)) (Code.extent pre) i.opcode
      i.operand (m.put (Code.extent (pre ++ [i])) m.stack) w) := by
  rw [← step_eq h ha w]
  exact .step hm

lemma runs_halt {p : Program} {m : Machine} {pre post : List Instruction}
    (h : p.Holds m.routine (pre ++ ⟨.halt, []⟩ :: post)) (ha : m.address = Code.extent pre)
    (hm : m.status = .running) (w : World) :
    Runs p (m, w) ((m.put (Code.extent (pre ++ [⟨.halt, []⟩])) m.stack).stopScript, w) :=
  runs_instruction h ha hm w

/-- A run takes a certain number of steps of a slice. -/
lemma steps_of_runs {p : Program} {s s' : Machine × World} (h : Runs p s s') :
    ∃ n, ∀ fuel, steps p (n + fuel) s.1 s.2 = steps p fuel s'.1 s'.2 := by
  induction h with
  | refl => exact ⟨0, fun fuel => by rw [Nat.zero_add]⟩
  | tail _ hs ih =>
    obtain ⟨n, hn⟩ := ih
    obtain ⟨hrun, rfl⟩ := hs
    refine ⟨n + 1, fun fuel => ?_⟩
    rw [Nat.add_assoc, hn, Nat.add_comm 1 fuel, steps, hrun]
    rfl

lemma wake_of_running {m : Machine} (h : m.status = .running) : m.wake = m := by
  cases m
  simp_all [wake]

lemma steps_of_not_running {p : Program} {m : Machine} (h : m.status ≠ .running) (fuel : Nat)
    (w : World) : steps p fuel m w = (m, w) := by
  cases fuel with
  | zero => rfl
  | succ fuel => simp [steps, h]

/-- A run to the end is one slice. -/
lemma run_of_runs {p : Program} {m m' : Machine} {w w' : World} (hm : m.status = .running)
    (h : Runs p (m, w) (m', w')) (hm' : m'.status = .finished) :
    ∃ n, ∀ fuel ≥ n, run fuel p m w = (m', w') := by
  obtain ⟨n, hn⟩ := steps_of_runs h
  refine ⟨n, fun fuel hfuel => ?_⟩
  obtain ⟨k, rfl⟩ := Nat.exists_eq_add_of_le hfuel
  have hready : m.isReady w = true := by simp [isReady, hm]
  simp only [run, hready, if_true, wake_of_running hm, hn k]
  rw [steps_of_not_running (by simp [hm'])]
  simp [giveUp, hm']

end Machine

end Blockwork
