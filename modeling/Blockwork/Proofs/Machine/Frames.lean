import Blockwork.Proofs.Machine.Reachable

/-!
The loops and activations of a machine mirror the nesting of its code. The machine keeps the loops of
all activations in one list; cut where each activation was called, each part is what lies around the
place where that activation stands.
-/

namespace Blockwork

namespace Machine

/-- An activation stands at an instruction of its routine, and its own loops are those around it,
the outermost first. -/
def Mirrors (p : Program) (r : Routine) (a : Nat) (own : List Loop) : Prop :=
  ∃ code, p.code? r = some code ∧ (∃ op, (a, op) ∈ Code.addressed 0 code.instructions) ∧
    List.Forall₂ Loop.IsOf own.reverse (code.enclosing a)

/-- The activations of a machine, the innermost first, which stands at an address: each has its own
loops on top of those that were open when it was called, and its caller stands where it goes back
to. -/
inductive Framed (p : Program) : (calls : List Call) → (address : Nat) → (loops : List Loop) → Prop
  | script {c : Call} {a : Nat} {own : List Loop} (hopen : c.openLoops = 0)
      (h : Mirrors p c.routine a own) : Framed p [c] a own
  | called {c d : Call} {rest : List Call} {a : Nat} {own loops : List Loop}
      (hopen : c.openLoops = loops.length) (h : Mirrors p c.routine a own)
      (hd : Framed p (d :: rest) c.returnTo loops) : Framed p (c :: d :: rest) a (own ++ loops)

section

open Compiler

variable {strict : Bool} {p : Program} {blocks : BlockMap} {c : Call} {rest : List Call}

/-- What is open after some lines lies around the next one. -/
lemma mirrors_of_inside {r : Routine} {ls pre post : List Line} {l : Line} {own : List Loop}
    (hlaid : p.Laid strict blocks r ls) (hlines : ls = pre ++ l :: post) (hin : Inside own pre) :
    Mirrors p r (Code.extent (codeOf pre)) own := by
  have hcode : codeOf ls = codeOf pre ++ codeOf (l :: post) := by rw [hlines, codeOf, List.map_append]
  have hnested : Code.Nested ((codeOf ls).map (·.opcode)) := by
    rw [map_opcode]
    exact hlaid.nested
  have hfull := hlaid.holds.full
  refine ⟨_, hlaid.holds.code, ⟨l.opcode, ?_⟩, ?_⟩
  · rw [Code.instructions_ofInstructions hfull, Code.addressed_eq_place, map_opcode, hlines,
      List.map_append, Code.place_append, Nat.zero_add, width_lines]
    exact List.mem_append_right _ (by simp)
  · rw [hcode] at hfull hnested ⊢
    rw [Code.extent, Code.enclosing_ofInstructions hfull hnested, map_opcode]
    exact List.forall₂_reverse_iff.2 hin

/-- The waiting activations mirror the nesting around their calls. -/
lemma Waiting.framed {outer : List Loop} (h : Waiting strict p blocks c rest outer) {a : Nat}
    {own : List Loop} (hm : Mirrors p c.routine a own) :
    Framed p (c :: rest) a (own ++ outer) := by
  induction h generalizing a own with
  | bottom hopen =>
    rw [List.append_nil]
    exact .script hopen hm
  | above _ hlaid hlines hpost _ hreturn hinside hopen _ ih =>
    obtain ⟨l, post, rfl⟩ := List.exists_cons_of_ne_nil hpost
    refine .called hopen hm (ih ?_)
    rw [hreturn]
    exact mirrors_of_inside hlaid hlines hinside

end

/-- **Frames mirror the nesting**: a machine that runs a compiled script stands at an instruction,
and the loops of each activation are those around the place where it stands. When a native asks to be
called again, the checkpoint is that of the same block. -/
theorem framed_of_reachable {blocks : BlockMap} (hkey : blocks.Keyed) (hk : blocks.WellKinded)
    (hac : blocks.Acyclic) {target : TargetId} {s : Script}
    (hs : s ∈ (Engine.compileTarget .builtin target blocks).1) {m : Machine}
    (h : Reachable s.program m) (hm : m.status ≠ .finished) :
    Framed s.program m.calls m.address m.loops ∧
      ∃ c id mode, s.program.Compiled blocks m.routine c id mode ∧
        ∃ pre l post, c.listing .builtin blocks id mode = pre ++ l :: post ∧
          m.address = Code.extent (Compiler.codeOf pre) ∧
          ∀ n, l.instruction.native? s.program.tables = some n →
            ∀ (m' : Machine) (w : World) (x y : Value), (n.run m' w x y).pause = .retry →
              ∃ before k mid, pre = before ++ k :: mid ∧ k.opcode = .checkpoint ∧
                k.block = l.block ∧ (∀ i ∈ mid, i.opcode ≠ .checkpoint) ∧
                m.checkpoint = some (Code.extent (Compiler.codeOf (before ++ [k]))) := by
  obtain ⟨ls, pre, l, post, c, rest, own, outer, hstands, hwait⟩ :=
    ((h.inOrder (Engine.laid_of_mem true hkey hk.values hac (fun _ => hk) hs)).resolve_left hm).2
  constructor
  · rw [hstands.calls, hstands.loops, hstands.address]
    exact hwait.framed (mirrors_of_inside hstands.laid hstands.lines hstands.inside)
  · obtain ⟨comp, id, mode, hcompiled, hls⟩ := hstands.laid.unit
    have hroutine : m.routine = c.routine := by simp [routine, hstands.calls]
    refine ⟨comp, id, mode, hroutine ▸ hcompiled, pre, l, post, hls ▸ hstands.lines, hstands.address, ?_⟩
    intro n hn m' w x y hpause
    have hretries : n.retries = true := by
      have hout := n.outcome_run m' w x y
      generalize n.run m' w x y = r at hout hpause
      cases hout with
      | stays _ hp => exact hp hpause
      | stops => cases hpause
      | ends _ hp => exact absurd hpause hp
    obtain ⟨before, k, mid, hpre, hk', hblock, hmid⟩ :=
      ((hstands.laid.proper pre l post hstands.lines).fed n hn).checkpoint hretries
    refine ⟨before, k, mid, hpre, hk', hblock, fun i hi => ?_, hstands.marked before k mid hpre hk' hmid⟩
    exact (Instruction.not_bracket_of_not_settles (hmid i hi)).2.2

/-- A script that calls a custom block again and again, which waits inside of a loop. -/
def waitingInside : BlockMap := .ofList [
  ("flag", { id := "flag", opcode := "event_whenflagclicked", topLevel := true
             next := some "again" }),
  ("again", { id := "again", opcode := "control_forever"
              inputs := .ofList [("SUBSTACK", { value := some (.block "call") })] }),
  ("call", { id := "call", opcode := "procedures_call"
             mutation := some { code := some "pause" } }),
  ("head", { id := "head", opcode := "procedures_definition", topLevel := true
             next := some "until"
             inputs := .ofList [("custom_block", { value := some (.block "proto") })] }),
  ("proto", { id := "proto", opcode := "procedures_prototype"
              mutation := some { code := some "pause" } }),
  ("until", { id := "until", opcode := "control_repeat_until"
              inputs := .ofList [("SUBSTACK", { value := some (.block "wait") })] }),
  ("wait", { id := "wait", opcode := "control_wait_until" })]

/-- Its program. -/
def waitingScript : Script :=
  (Engine.compileTarget .builtin ⟨0, 0⟩ waitingInside).1.head (by decide +kernel)

lemma waitingScript_mem : waitingScript ∈ (Engine.compileTarget .builtin ⟨0, 0⟩ waitingInside).1 :=
  List.head_mem _

/-- After some steps it waits in the loop of the custom block, in the loop of the script. -/
theorem framed_waitingInside : ∃ m, Reachable waitingScript.program m ∧ m.status = .running ∧
    m.calls.length = 2 ∧ m.loops.length = 2 ∧ m.checkpoint = some 7 ∧
    Framed waitingScript.program m.calls m.address m.loops := by
  have hac : waitingInside.Acyclic := BlockMap.acyclic_of_falling
    (fun id => ["proto", "wait", "until", "head", "call", "again", "flag"].idxOf id)
    (by decide +kernel)
  obtain ⟨m, hreach, hm, hcalls, hloops, hmark⟩ : ∃ m, Reachable waitingScript.program m ∧
      m.status = .running ∧ m.calls.length = 2 ∧ m.loops.length = 2 ∧ m.checkpoint = some 7 :=
    ⟨_, (Reachable.new ⟨0, 0⟩ {}).steps 14 {}, by decide +kernel⟩
  exact ⟨m, hreach, hm, hcalls, hloops, hmark, (framed_of_reachable (by decide +kernel)
    (by decide +kernel) hac waitingScript_mem hreach (by rw [hm]; simp)).1⟩

end Machine

end Blockwork
