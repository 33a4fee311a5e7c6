import Blockwork.Proofs.Compile.Readings
import Blockwork.Proofs.Machine.Effects
import Blockwork.Proofs.Machine.Flow

/-!
Machines that read. An instruction that gives an operand computes it from those that it takes and from
what it finds in the world. It changes nothing there, but perhaps a random number is drawn, and nothing
of the machine but the operands. The condition of a hat consists of such instructions.
-/

namespace Blockwork

namespace Native

/-- A reporter leaves its value and goes on. -/
lemma run_of_reports {n : Native} (hr : n.reports = true) (hn : n.isControl = false) (m : Machine)
    (w : World) (a b : Value) : ∃ v, n.run m w a b = ⟨m, w, some v, .go⟩ := by
  cases n
  case control => cases hn
  case timerAbove | loudnessAbove | math | reading | keyPressed | attributeOf => exact ⟨_, rfl⟩
  all_goals cases hr

end Native

namespace Machine

section

variable {m : Machine} {w : World}

lemma draws_place (m : Machine) (w : World) (i : Nat) (index : Value) (extra : Nat) (acceptAll : Bool) :
    w.Draws (m.place w i index extra acceptAll).2 := by
  unfold place
  simp only
  split
  · exact w.draws_draw
  · exact .refl w

/-- Instructions other than natives. -/
lemma execute_of_gives {op : Opcode} (hg : op.gives = 1) {p : Program} {operand : Nat}
    (hconst : op = .const → (p.tables.constants[operand]?).isSome) (code : Code) (a : Nat)
    (m : Machine) (w : World) : ∃ v w', w.Draws w' ∧
      execute p code a op operand m w = ({ m with stack := v :: m.stack.drop op.takes }, w') := by
  have hsame : ∀ {op : Opcode} {v : Value}, ∃ v' w', w.Draws w' ∧
      (({ m with stack := v :: m.stack.drop op.takes } : Machine), w) =
        ({ m with stack := v' :: m.stack.drop op.takes }, w') := ⟨_, w, .refl w, rfl⟩
  cases op
  case const =>
    obtain ⟨v, hv⟩ := Option.isSome_iff_exists.1 (hconst rfl)
    simp only [execute, hv]
    exact ⟨v, w, .refl w, rfl⟩
  case null | readArg | round => exact ⟨_, w, .refl w, rfl⟩
  case unary f =>
    simp only [execute, pop_eq]
    exact ⟨_, w, .refl w, rfl⟩
  case binary f =>
    simp only [execute, pop_eq, List.drop_drop]
    exact ⟨_, w, .refl w, rfl⟩
  case random =>
    simp only [execute, pop_eq, List.drop_drop]
    exact ⟨_, _, w.draws_draw, rfl⟩
  case var f =>
    cases f
    case read => exact ⟨_, w, .refl w, rfl⟩
    all_goals cases hg
  case list f =>
    cases f <;> simp only [execute, stepList, pop_eq]
    case read | length | indexOf | contains => exact ⟨_, w, .refl w, rfl⟩
    case item => exact ⟨_, _, draws_place _ w _ _ _ _, rfl⟩
    all_goals cases hg
  all_goals cases hg

end

section

open Compiler

variable {strict : Bool} {p : Program} {blocks : BlockMap} {ls pre post : List Line} {l : Line}
  {c : Call} {rest : List Call} {own outer : List Loop} {m : Machine} {w : World}

/-- A line that gives an operand does nothing else. -/
lemma gives_of_laid {r : Routine} (hlaid : p.Laid strict blocks r ls) (hlines : ls = pre ++ l :: post)
    (hroutine : m.routine = r) (haddress : m.address = Code.extent (codeOf pre))
    (hlen : l.instruction.takes p.tables ≤ m.stack.length) (hl : l.instruction.gives p.tables = 1)
    (hp : m.promise = none) (w : World) :
    ∃ v w', w.Draws w' ∧ step p m w = (m.put (Code.extent (codeOf (pre ++ [l])))
      (v :: m.stack.drop (l.instruction.takes p.tables)), w') := by
  obtain ⟨hfull, hvalid⟩ := full_of_laid hlaid hlines
  rw [step_of_laid hlaid hlines hroutine haddress w]
  by_cases hop : l.opcode = .exec
  · obtain ⟨n, hn, hentry⟩ := exists_native hfull hvalid hop
    have hreports : n.reports = true := by
      rw [Instruction.gives_of_native hn] at hl
      by_contra hnot
      rw [if_neg hnot] at hl
      cases hl
    have hfed := (hlaid.proper pre l post hlines).fed n hn
    have hpops : n.pops = n.arity := hfed.pops
    rw [Instruction.takes_of_native hn, hpops] at hlen
    rw [hop, Instruction.takes_of_native hn]
    simp only [execute, hentry]
    generalize Code.extent (codeOf (pre ++ [l])) = a
    rw [callNative, if_neg (Nat.not_lt.2 (show n.arity ≤ (m.put a m.stack).stack.length from hlen))]
    simp only
    generalize ((m.put a m.stack).stack.take n.arity).reverse = inputs
    obtain ⟨v, hv⟩ := n.run_of_reports hreports hfed.calls.not_control (m.put a m.stack) w
      (inputs[0]?.getD .empty) (inputs[1]?.getD .empty)
    have hstays : (m.put a (v :: m.stack.drop n.pops)).awaitPromise w =
        m.put a (v :: m.stack.drop n.pops) := awaitPromise_of_none (m := m.put a _) hp w
    rw [hv]
    exact ⟨v, w, .refl w, congrArg (·, w) hstays⟩
  · rw [Instruction.gives_of_ne hop] at hl
    rw [Instruction.takes_of_ne hop]
    obtain ⟨v, w', hw, he⟩ := execute_of_gives hl
      (fun hconst => isSome_constant hfull hvalid hconst) (.ofInstructions (codeOf ls))
      (Code.extent (codeOf pre)) (m.put (Code.extent (codeOf (pre ++ [l]))) m.stack) w
    exact ⟨v, w', hw, he⟩

lemma Stands.gives (hs : Stands strict p blocks ls pre l post c rest own outer m)
    (hl : l.instruction.gives p.tables = 1) (hp : m.promise = none) (w : World) :
    ∃ v w', w.Draws w' ∧ step p m w = (m.put (Code.extent (codeOf (pre ++ [l])))
      (v :: m.stack.drop (l.instruction.takes p.tables)), w') :=
  gives_of_laid hs.laid hs.lines hs.routine hs.address hs.takes_le hl hp w

/-- What the start and the end of a routine do to the world, and all between that reads. -/
lemma Stands.draws (hs : Stands strict p blocks ls pre l post c rest own outer m)
    (hl : l.opcode = .start ∨ l.opcode = .halt ∨ l.instruction.gives p.tables = 1)
    (hp : m.promise = none) (w : World) : w.Draws (step p m w).2 := by
  rcases hl with hl | hl | hl
  · rw [hs.step_eq w, hl]
    exact .refl w
  · rw [hs.step_eq w, hl]
    exact .refl w
  · obtain ⟨v, w', hw, he⟩ := hs.gives hl hp w
    rw [he]
    exact hw

/-! ### Conditions -/

/-- On its way a condition draws random numbers, and that is all. -/
lemma Reachable.draws_runs (hlaid : ∀ r, (p.code? r).isSome → ∃ ls, p.Laid strict blocks r ls)
    (hk : blocks.ValuesKinded) (hac : blocks.Acyclic) (h : Reachable p m)
    (hc : m.routine = .predicate) {y : Machine × World} (hruns : Runs p (m, w) y) :
    w.Draws y.2 := by
  induction hruns with
  | refl => exact .refl w
  | @tail y z hy hs ih =>
    obtain ⟨hrun, rfl⟩ := hs
    have hroutine := (h.condition_runs hlaid hc hy).2.resolve_left (by rw [hrun]; simp)
    obtain ⟨ls, pre, l, post, c, rest, own, outer, hstands, -⟩ :=
      (((h.runs hy).inOrder hlaid).resolve_left (by rw [hrun]; simp)).2
    have hcr : c.routine = .predicate := by
      simpa [Machine.routine, hstands.calls] using hroutine
    have hl := yields_laid hk hac (hcr ▸ hstands.laid) l (by rw [hstands.lines]; simp)
    exact ih.trans (hstands.draws hl ((h.runs hy).no_promise hlaid (Or.inl hrun)) y.2)

lemma Reachable.draws_slices (hlaid : ∀ r, (p.code? r).isSome → ∃ ls, p.Laid strict blocks r ls)
    (hk : blocks.ValuesKinded) (hac : blocks.Acyclic) (fuel passes : Nat) (h : Reachable p m)
    (hc : m.routine = .predicate) (w : World) : w.Draws (Thread.slices fuel p passes m w).2 := by
  induction passes generalizing m w with
  | zero => exact .refl w
  | succ passes ih =>
    -- one slice, after which the condition may go on
    have hrun : w.Draws (m.run fuel p w).2 ∧
        ((m.run fuel p w).1.status = .yielded → (m.run fuel p w).1.routine = .predicate) := by
      unfold Machine.run
      split
      · next hready =>
        have hruns := runs_steps p fuel m.wake w
        have hdraws := (h.wake hready).draws_runs hlaid hk hac hc hruns
        refine ⟨hdraws, fun hy => ?_⟩
        simp only [giveUp] at hy ⊢
        split
        · next hg =>
          rw [if_pos hg] at hy
          cases hy
        · next hg =>
          rw [if_neg hg] at hy
          exact ((h.wake hready).condition_runs hlaid hc hruns).2.resolve_left (by rw [hy]; simp)
      · exact ⟨.refl w, fun _ => hc⟩
    simp only [Thread.slices]
    split
    · next hy =>
      have hyield := beq_iff_eq.1 hy
      exact hrun.1.trans (ih (h.run fuel w (by simp [hyield])) (hrun.2 hyield) _)
    · exact hrun.1

end

end Machine

/-- **Conditions only read**: the world stays as it is, but for the random numbers that are drawn and
the note of who is running. -/
lemma Thread.draws_runPredicate {strict : Bool} {blocks : BlockMap} {t : Thread}
    (hlaid : ∀ r, (t.program.code? r).isSome → ∃ ls, t.program.Laid strict blocks r ls)
    (hk : blocks.ValuesKinded) (hac : blocks.Acyclic) (h : Machine.Reachable t.program t.machine)
    (fuel : Nat) (w : World) :
    ∃ id, World.Draws { w with currentThread := id } (t.runPredicate fuel w).2.2 := by
  unfold runPredicate
  split
  · exact ⟨w.currentThread, .refl w⟩
  · next hp =>
    have hsome : t.program.predicate.isSome := Option.ne_none_iff_isSome.1 (by simpa using hp)
    exact ⟨t.id, (h.condition hsome).draws_slices hlaid hk hac fuel maxPasses rfl
      { w with currentThread := t.id }⟩

end Blockwork
