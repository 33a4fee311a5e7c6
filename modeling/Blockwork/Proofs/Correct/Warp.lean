import Blockwork.Proofs.Compile.Bodies
import Blockwork.Proofs.Engine.Sound
import Blockwork.Proofs.Machine.Alone

/-!
Custom blocks in warp. The warp flag decides when a custom block gives way to others and nothing else: a
machine that runs alone does the same with the flag and without it, and with it no slice ends inside of
the custom block, provided that its head starts a script of its own.
-/

namespace Blockwork

namespace Machine.Solo

lemma Same.symm {depth : Nat} {s t : Solo} (h : s.Same depth t) : t.Same depth s := by
  have hended : t.isOver depth = true → t.machine = s.machine.moved t.machine := by
    intro hover
    rw [h.ended (h.together.trans hover), moved_moved, moved_self]
  refine ⟨h.world.symm, h.deeds.symm, h.together.symm, hended, fun hover hlive => ?_⟩
  rw [hended hover, moved_status] at hlive
  exact (h.back (h.together.trans hover) hlive).symm

/-- A slice that ends before all is over. -/
lemma not_unbroken {p : Program} {depth : Nat} {s : Solo} (fuel : Nat)
    (hover : ∀ n ≤ fuel, (s.after p depth (n + 1)).isOver depth = false)
    (hend : (s.after p depth (fuel + 1)).machine.status ≠ .running) : ¬ s.Unbroken p depth := by
  intro h
  obtain ⟨n, hn, -, hlast | ⟨rfl, hlast⟩⟩ := h fuel
  · rw [hover n hn] at hlast
    cases hlast
  · exact hend hlast

end Machine.Solo

namespace Engine

open Machine

/-- **Warp changes only the schedule**: take maps without cycles that differ in the flags of custom
blocks, where nothing in a body waits, and a machine that runs alone and calls a custom block. With the
one map it comes to an end if it does with the other; it does the same, one instruction after the other,
with the same world after each; and it ends in the same state. In a custom block with the flag whose
head no block refers to, a slice goes on until all is over. -/
theorem warp_schedules {blocks blocks' : BlockMap} (hplay : blocks.Playable) (hone : blocks.SingleHeads)
    (hfree : blocks.WaitFree) (hpaced : blocks.Paced blocks') {target : TargetId} {s s' : Script}
    (hs : s ∈ (compileTarget .builtin target blocks).1)
    (hs' : s' ∈ (compileTarget .builtin target blocks').1) {i : Nat}
    (hbody : (s.program.code? (.procedure i)).isSome) {m : Machine} (hcalls : m.calls ≠ [])
    (hm : m.status = .running) (hpromise : m.promise = none) (arguments : List Value) (w : World) :
    let depth := m.calls.length
    let start : Solo := { machine := m.called i arguments, world := w }
    let first := start.after s.program depth
    let second := start.after s'.program depth
    ((∃ n, (first n).isOver depth = true) ↔ ∃ k, (second k).isOver depth = true) ∧
    (∀ n, ∃ k, (first n).Same depth (second k)) ∧ (∀ k, ∃ n, (first n).Same depth (second k)) ∧
    (∀ n k, (first n).isOver depth = true → (second k).isOver depth = true →
      (first n).Same depth (second k)) ∧
    ∀ id b sig, blocks'.get? id = some b → b.head? blocks' = some sig → sig.warp = true →
      (∀ a, ¬ blocks.Leads a id) → s.program.tables.procedureCodes[i]? = some sig.code →
      ∀ k, (second k).isOver depth = false → (second k).Unbroken s'.program depth := by
  intro depth start first second
  have hkey := hplay.keyed
  have hcalm := calm_of_mem hkey hfree hs
  have hcalm' := calm_of_mem (hpaced.keyed hkey) (hpaced.waitFree hfree) hs'
  have hsame := unpaused_of_mem hpaced hs hs'
  obtain ⟨code', hcode'⟩ : ∃ code', s'.program.code? (.procedure i) = some code' := by
    refine Option.isSome_iff_exists.1 ?_
    have hcodes := congrArg (fun p : Program => (p.code? (.procedure i)).isSome) hsame
    simp only [Program.code?_unpaused, Option.isSome_map] at hcodes
    rw [← hcodes]
    exact hbody
  have hforth : ∀ n, ∃ k, (first n).Same depth (second k) :=
    same_of_unpaused hsame hcalm hcalm' hbody hcalls (.inl hm) hpromise arguments w
  have hback : ∀ k, ∃ n, (first n).Same depth (second k) := by
    intro k
    obtain ⟨n, hn⟩ := same_of_unpaused hsame.symm hcalm' hcalm (by rw [hcode']; rfl) hcalls (.inl hm)
      hpromise arguments w k
    exact ⟨n, hn.symm⟩
  refine ⟨⟨fun ⟨n, hn⟩ => ?_, fun ⟨k, hk⟩ => ?_⟩, hforth, hback, fun n k hn hk => ?_, ?_⟩
  · obtain ⟨k, hk⟩ := hforth n
    exact ⟨k, hk.together ▸ hn⟩
  · obtain ⟨n, hn⟩ := hback k
    exact ⟨n, hn.together ▸ hk⟩
  · obtain ⟨k', hk'⟩ := hforth n
    have hend : second k' = second k := Solo.eq_of_isOver (hk'.together ▸ hn) hk
    exact hend ▸ hk'
  · intro id b sig hb hsig hwarp htop hi k hk
    have hi' : s'.program.tables.procedureCodes[i]? = some sig.code := by
      have hcodes := congrArg (fun p : Program => p.tables.procedureCodes[i]?) hsame
      exact hcodes.symm.trans hi
    obtain ⟨rest, hrest⟩ := body_of_warp (hpaced.keyed hkey) (hpaced.singleHeads hone) hs' hb hsig hwarp
      (fun a ha => htop a (hpaced.leads ha)) hi' hcode'
    exact unbroken_called hcalm' hcode' hrest hcalls (.inl hm) hpromise arguments w k hk

/-- A custom block that calls another one in a loop, which has a loop of its own. -/
def spinning : BlockMap := .ofList [
  ("flag", { id := "flag", opcode := "event_whenflagclicked", next := some "call", topLevel := true }),
  ("call", { id := "call", opcode := "procedures_call", mutation := some { code := some "spin" } }),
  ("spin", { id := "spin", opcode := "procedures_definition", next := some "again", topLevel := true
             inputs := .ofList [("custom_block", { value := some (.block "spins") })] }),
  ("spins", { id := "spins", opcode := "procedures_prototype"
              mutation := some { code := some "spin" } }),
  ("again", { id := "again", opcode := "control_repeat"
              inputs := .ofList [("TIMES", { value := some (.value (.number 2)) }),
                ("SUBSTACK", { value := some (.block "turn") })] }),
  ("turn", { id := "turn", opcode := "procedures_call", mutation := some { code := some "blink" } }),
  ("blink", { id := "blink", opcode := "procedures_definition", next := some "twice", topLevel := true
              inputs := .ofList [("custom_block", { value := some (.block "blinks") })] }),
  ("blinks", { id := "blinks", opcode := "procedures_prototype"
               mutation := some { code := some "blink" } }),
  ("twice", { id := "twice", opcode := "control_repeat"
              inputs := .ofList [("TIMES", { value := some (.value (.number 2)) }),
                ("SUBSTACK", { value := some (.block "hide") })] }),
  ("hide", { id := "hide", opcode := "looks_hide", next := some "show" }),
  ("show", { id := "show", opcode := "looks_show" })]

/-- The same with the flag for the outer one. -/
def spinningInWarp : BlockMap := spinning.setWarp "spins" (some (.text "true"))

def spinScript : Script := (compileTarget .builtin ⟨0, 0⟩ spinning).1.head (by decide +kernel)

def spinScriptInWarp : Script := (compileTarget .builtin ⟨0, 0⟩ spinningInWarp).1.head (by decide +kernel)

/-- The outer one is called by a new machine. -/
def spinStart : Solo :=
  { machine := (Machine.new spinScript.program ⟨0, 0⟩ {}).1.called 1 [], world := {} }

/-- Without the flag the slice ends inside of the inner loop, with it the slice goes on; both end in the
same state. -/
theorem warp_schedules_spinning :
    spinning.Playable ∧ spinning.WaitFree ∧ ¬ spinStart.Unbroken spinScript.program 1 ∧
      spinStart.Unbroken spinScriptInWarp.program 1 ∧
      ∃ n k, (spinStart.after spinScript.program 1 n).isOver 1 = true ∧
        (spinStart.after spinScript.program 1 n).Same 1 (spinStart.after spinScriptInWarp.program 1 k) := by
  have hplay : spinning.Playable := ⟨by decide +kernel, by decide +kernel, BlockMap.acyclic_of_falling
    ["show", "hide", "twice", "blinks", "blink", "turn", "again", "spins", "spin", "call", "flag"].idxOf
    (by decide +kernel)⟩
  have hfree : spinning.WaitFree := BlockMap.waitFree_of_forall (by decide +kernel)
  have hroot : ∀ e ∈ spinning.entries, "spin" ∉ e.2.refers := by decide +kernel
  have hover : (spinStart.after spinScript.program 1 60).isOver 1 = true := by decide +kernel
  obtain ⟨b, sig, hb, hsig, hflag, hplace⟩ : ∃ b sig, spinningInWarp.get? "spin" = some b ∧
      b.head? spinningInWarp = some sig ∧ sig.warp = true ∧
      spinScript.program.tables.procedureCodes[1]? = some sig.code :=
    ⟨_, _, rfl, rfl, by decide +kernel, by decide +kernel⟩
  obtain ⟨-, hforth, -, -, hwarp⟩ := warp_schedules (i := 1) hplay (by decide +kernel) hfree
    (spinning.paced_setWarp "spins" (some (.text "true"))) (List.head_mem _ : spinScript ∈ _)
    (List.head_mem _ : spinScriptInWarp ∈ _) (by decide +kernel)
    (by decide +kernel : (Machine.new spinScript.program ⟨0, 0⟩ {}).1.calls ≠ []) rfl rfl [] {}
  obtain ⟨k, hk⟩ := hforth 60
  refine ⟨hplay, hfree, Solo.not_unbroken 10 (by decide +kernel) (by decide +kernel), ?_, 60, k, hover, hk⟩
  exact hwarp "spin" b sig hb hsig hflag
    (fun a ⟨x, hx, hr, _⟩ => hroot (a, x) (Dictionary.mem_of_get? hx) hr) hplace 0 (by decide +kernel)

/-- A custom block that has its head at the end of another one, below a loop. -/
def delayed : BlockMap := .ofList [
  ("flag", { id := "flag", opcode := "event_whenflagclicked", next := some "call", topLevel := true }),
  ("call", { id := "call", opcode := "procedures_call", mutation := some { code := some "two" } }),
  ("first", { id := "first", opcode := "procedures_definition", next := some "repeat", topLevel := true
              inputs := .ofList [("custom_block", { value := some (.block "one") })] }),
  ("one", { id := "one", opcode := "procedures_prototype", mutation := some { code := some "one" } }),
  ("repeat", { id := "repeat", opcode := "control_repeat", next := some "second"
               inputs := .ofList [("TIMES", { value := some (.value (.number 3)) }),
                 ("SUBSTACK", { value := some (.block "change") })] }),
  ("change", { id := "change", opcode := "data_changevariableby"
               fields := .ofList [("VARIABLE", { value := .text "sum", id := some "sum" })]
               inputs := .ofList [("VALUE", { value := some (.value (.number 1)) })] }),
  ("second", { id := "second", opcode := "procedures_definition"
               inputs := .ofList [("custom_block", { value := some (.block "two") })] }),
  ("two", { id := "two", opcode := "procedures_prototype", mutation := some { code := some "two" } })]

/-- The same with the flag for the second one. -/
def delayedInWarp : BlockMap := delayed.setWarp "two" (some (.text "true"))

def delayedScript : Script := (compileTarget .builtin ⟨0, 0⟩ delayedInWarp).1.head (by decide +kernel)

/-- The second one is called by a new machine. -/
def delayedStart : Solo :=
  { machine := (Machine.new delayedScript.program ⟨0, 0⟩ {}).1.called 1 [], world := {} }

/-- The loop above the head is part of the body but comes before the machine goes into warp, so that the
slice ends inside of it. -/
theorem broken_delayed :
    delayed.WellKinded ∧ delayed.Acyclic ∧ delayed.SingleHeads ∧ delayed.WaitFree ∧
      delayed.Paced delayedInWarp ∧ delayedScript ∈ (compileTarget .builtin ⟨0, 0⟩ delayedInWarp).1 ∧
      (delayedScript.program.code? (.procedure 1)).isSome ∧
      (∃ b sig, delayedInWarp.get? "second" = some b ∧ b.head? delayedInWarp = some sig ∧
        sig.warp = true ∧ delayedScript.program.tables.procedureCodes[1]? = some sig.code) ∧
      delayedStart.isOver 1 = false ∧ ¬ delayedStart.Unbroken delayedScript.program 1 := by
  refine ⟨by decide +kernel, BlockMap.acyclic_of_falling
    ["one", "two", "second", "change", "repeat", "first", "call", "flag"].idxOf (by decide +kernel),
    by decide +kernel, BlockMap.waitFree_of_forall (by decide +kernel), delayed.paced_setWarp _ _,
    List.head_mem _, by decide +kernel, ⟨_, _, rfl, rfl, by decide +kernel, by decide +kernel⟩,
    by decide +kernel, Solo.not_unbroken 5 (by decide +kernel) (by decide +kernel)⟩

end Engine

end Blockwork
