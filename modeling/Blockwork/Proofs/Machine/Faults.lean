import Blockwork.Proofs.Machine.Reachable

/-!
Scripts that do not fault. Whatever stands in the stacks of a script, its machine finds the inputs of
its natives and the entries of its tables, as long as the values of blocks are values. A command that
is plugged into a value leaves nothing on the stack, and the native above it lacks an input.
-/

namespace Blockwork

namespace Machine

/-- **No faults**: a machine that runs a compiled script finds every input, constant and native, if
only the values of its blocks are values. A slice that is not given up does not fault either. -/
theorem unfaulted_of_valuesKinded {blocks : BlockMap} (hkey : blocks.Keyed)
    (hk : blocks.ValuesKinded) (hac : blocks.Acyclic) {target : TargetId} {s : Script}
    (hs : s ∈ (Engine.compileTarget .builtin target blocks).1) {m : Machine}
    (h : Reachable s.program m) (f : Fault) :
    m.status ≠ .faulted f ∧
      ∀ fuel w, (m.run fuel s.program w).1.status = .faulted f → f = .overrun := by
  have hlaid := Engine.laid_of_mem false hkey hk hac (by simp) hs
  exact ⟨h.not_faulted hlaid f, fun fuel w => h.fault_run hlaid⟩

/-- A sum stands in a script like a command, above a block that nobody knows. -/
def straySum : BlockMap := .ofList [
  ("flag", { id := "flag", opcode := "event_whenflagclicked", topLevel := true, next := some "sum" }),
  ("sum", { id := "sum", opcode := "operator_add", next := some "unknown" }),
  ("unknown", { id := "unknown", opcode := "music_playNote", next := some "say" }),
  ("say", { id := "say", opcode := "looks_say"
            inputs := .ofList [("MESSAGE", { value := some (.block "nobody") })] })]

/-- Its program. -/
def strayScript : Script :=
  (Engine.compileTarget .builtin ⟨0, 0⟩ straySum).1.head (by decide +kernel)

lemma strayScript_mem : strayScript ∈ (Engine.compileTarget .builtin ⟨0, 0⟩ straySum).1 :=
  List.head_mem _

/-- Its sum is still there when the script says something. -/
theorem unfaulted_straySum : ¬ straySum.WellKinded ∧
    ∃ m, Reachable strayScript.program m ∧ m.status = .running ∧ m.stack.length = 2 ∧
      ∀ f fuel w, (m.run fuel strayScript.program w).1.status = .faulted f → f = .overrun := by
  have hac : straySum.Acyclic := BlockMap.acyclic_of_falling
    (fun id => ["say", "unknown", "sum", "flag"].idxOf id) (by decide +kernel)
  obtain ⟨m, hreach, hm, hstack⟩ : ∃ m, Reachable strayScript.program m ∧ m.status = .running ∧
      m.stack.length = 2 :=
    ⟨_, (Reachable.new ⟨0, 0⟩ {}).steps 5 {}, by decide +kernel⟩
  refine ⟨by decide +kernel, m, hreach, hm, hstack, fun f => ?_⟩
  exact (unfaulted_of_valuesKinded (by decide +kernel) (by decide +kernel) hac strayScript_mem
    hreach f).2

/-- A command is plugged into what a block says. -/
def saysCommand : BlockMap := .ofList [
  ("flag", { id := "flag", opcode := "event_whenflagclicked", topLevel := true, next := some "say" }),
  ("say", { id := "say", opcode := "looks_say"
            inputs := .ofList [("MESSAGE", { value := some (.block "show") })] }),
  ("show", { id := "show", opcode := "looks_show" })]

/-- There is nothing to say, not even an empty text. -/
theorem missingInput_saysCommand : saysCommand.Keyed ∧ saysCommand.Acyclic ∧
    ∃ s ∈ (Engine.compileTarget .builtin ⟨0, 0⟩ saysCommand).1, ∃ m, Reachable s.program m ∧
      m.status = .faulted .missingInput := by
  have hac : saysCommand.Acyclic := BlockMap.acyclic_of_falling
    (fun id => ["show", "say", "flag"].idxOf id) (by decide +kernel)
  refine ⟨by decide +kernel, hac,
    (Engine.compileTarget .builtin ⟨0, 0⟩ saysCommand).1.head (by decide +kernel), List.head_mem _,
    _, (Reachable.new ⟨0, 0⟩ {}).steps 3 {}, by decide +kernel⟩

end Machine

end Blockwork
