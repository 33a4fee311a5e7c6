import Blockwork.Proofs.Machine.Walks

/-!
The condition of a hat. Its code reads from its start to its end, so a machine that is put to it gets there
in one slice, and the operand that is left is the value of the condition. How many steps this takes depends
on the code alone: a slice that has as many comes to the end, and one that has fewer is given up.
-/

namespace Blockwork

namespace Machine

section

open Compiler

variable {p : Program} {blocks : BlockMap} {ls : List Line} {m : Machine} {w : World}

/-- A machine goes through the lines of a condition and leaves one value. -/
lemma walks_condition (hk : blocks.ValuesKinded) (hac : blocks.Acyclic)
    (hlaid : p.Laid true blocks .predicate ls) (m : Machine) (w : World) :
    ∃ m' v w', Walks p (m.reset .predicate, w) (places .predicate [] ls) (m', w') ∧
      m'.status = .finished ∧ m'.stack = [v] := by
  obtain ⟨first, seg, last, hls, hfirst, hlast, hyields, hblank, hshape⟩ := exists_reading hk hac hlaid
  set start := (m.reset .predicate).put (Code.extent (codeOf [first])) [] with hstart
  -- the start, what is read, and the end
  have hbegins : Walks p (m.reset .predicate, w) (places .predicate [] [first]) (start, w) := by
    refine Faces.walks (m := m.reset .predicate) ⟨rfl, rfl, rfl, rfl⟩ ?_ first
    rw [step_of_laid (m := m.reset .predicate) hlaid
      (show ls = [] ++ first :: (seg ++ [last]) from hls) rfl rfl, hfirst]
    rfl
  have hfaces : Faces .predicate [first] start := ⟨rfl, rfl, rfl, rfl⟩
  obtain ⟨st, w', hst, -, hreads⟩ := hfaces.reads hlaid
    (show ls = [first] ++ (seg ++ [last]) from hls) hyields (by rw [hblank]; rfl) w
  rw [List.singleton_append] at hst hreads
  obtain ⟨v, rfl⟩ := List.length_eq_one_iff.1 (hst.trans hshape)
  have hends : Walks p (start.put (Code.extent (codeOf (first :: seg))) [v], w')
      (places .predicate (first :: seg) [last])
      ((start.put (Code.extent (codeOf (first :: seg ++ [last]))) [v]).finish, w') := by
    refine Faces.walks (m := start.put (Code.extent (codeOf (first :: seg))) [v])
      ⟨rfl, rfl, rfl, rfl⟩ ?_ last
    rw [step_of_laid (m := start.put (Code.extent (codeOf (first :: seg))) [v]) hlaid
      (show ls = (first :: seg) ++ last :: [] from hls) rfl rfl, hlast]
    rfl
  have hall := hbegins.trans (hreads.trans hends)
  have hplaces : places .predicate [] ls = places .predicate [] [first] ++
      (places .predicate [first] seg ++ places .predicate (first :: seg) [last]) := by
    rw [hls, ← List.singleton_append, places_append, places_append]
    rfl
  exact ⟨_, v, w', hplaces ▸ hall, rfl, rfl⟩

end

end Machine

namespace Thread

/-- The condition of its hat leaves a value: put to the condition, the machine of the thread runs to its end,
and the value is all that is on its stack then. -/
def Leaves (t : Thread) (w : World) (v : Value) (w' : World) : Prop :=
  ∃ m : Machine, Machine.Runs t.program (t.machine.reset .predicate, { w with currentThread := t.id })
    (m, w') ∧ m.status = .finished ∧ m.stack = [v]

lemma slices_of_run {fuel passes : Nat} {p : Program} {m : Machine} {w : World} (hpasses : 0 < passes)
    (h : (m.run fuel p w).1.status ≠ .yielded) : slices fuel p passes m w = m.run fuel p w := by
  cases passes with
  | zero => exact absurd hpasses (Nat.lt_irrefl 0)
  | succ passes => simp [slices, h]

/-- **Conditions say what their code leaves**, in a certain number of steps. -/
lemma exists_leaves {blocks : BlockMap} {t : Thread} {ls : List Line} (hk : blocks.ValuesKinded)
    (hac : blocks.Acyclic) (hlaid : t.program.Laid true blocks .predicate ls) (w : World) :
    ∃ v w' n, t.Leaves w v w' ∧ ∀ fuel,
      ((t.runPredicate fuel w).2.1.machine.isFaulted = false ↔ n ≤ fuel) ∧
      (n ≤ fuel → (t.runPredicate fuel w).1 = v.toBool ∧ (t.runPredicate fuel w).2.2 = w') := by
  obtain ⟨m, v, w', hwalk, hend, hst⟩ :=
    Machine.walks_condition hk hac hlaid t.machine { w with currentThread := t.id }
  have hsome : t.program.predicate.isNone = false := by
    have := hlaid.holds.code
    simp [Program.code?] at this
    simp [this]
  refine ⟨v, w', (Machine.places .predicate [] ls).length, ⟨m, hwalk.runs, hend, hst⟩, fun fuel => ?_⟩
  simp only [runPredicate, hsome, Bool.false_eq_true, if_false, evaluate]
  rcases Nat.lt_or_ge fuel (Machine.places .predicate [] ls).length with hlt | hge
  · have hover := Machine.Walks.overruns (m := t.machine.reset .predicate) rfl hwalk hlt
    rw [slices_of_run (by decide) (by rw [hover]; simp)]
    simp [Machine.isFaulted, hover, Nat.not_le.2 hlt]
  · have hrun := Machine.Walks.run (m := t.machine.reset .predicate) rfl hwalk (by simp [hend]) hge
    rw [slices_of_run (by decide) (by rw [hrun, hend]; simp), hrun]
    simp [Machine.isFinished, Machine.isFaulted, Machine.finish, Machine.result?, hend, hst, hge]

end Thread

end Blockwork
