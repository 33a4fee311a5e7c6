import Blockwork.Proofs.Machine.Reachable

/-!
The operands of a machine while it runs. For each operand on the stack we keep in mind where it was
pushed. When a command begins no operands are there, and a native that is called finds what the
inputs of its own block have pushed.
-/

namespace Blockwork

namespace Machine

/-- The instruction that comes next. -/
def instruction? (p : Program) (m : Machine) : Option Instruction :=
  (p.code? m.routine).bind fun code => (Code.decode (code.words.toList.drop m.address)).head?

/-- Where the operands were pushed, after the next instruction: it takes some off, and those that it
puts there are its own. -/
def pushedAfter (p : Program) (m : Machine) (os : List (Routine × Nat)) : List (Routine × Nat) :=
  match m.instruction? p with
  | none => os
  | some i => List.replicate (i.gives p.tables) (m.routine, m.address) ++ os.drop (i.takes p.tables)

/-- The states of a machine, with the place where each operand was pushed, the topmost first. -/
inductive Traced (p : Program) : Machine → List (Routine × Nat) → Prop
  | new (target : TargetId) (w : World) : Traced p (new p target w).1 []
  | step {m : Machine} {os : List (Routine × Nat)} (h : Traced p m os) (hm : m.status = .running)
      (w : World) : Traced p (step p m w).1 (m.pushedAfter p os)
  | wake {m : Machine} {os : List (Routine × Nat)} (h : Traced p m os) {w : World}
      (hw : m.isReady w = true) : Traced p m.wake os
  | kill {m : Machine} {os : List (Routine × Nat)} (h : Traced p m os) : Traced p m.finish os
  | restart {m : Machine} {os : List (Routine × Nat)} (h : Traced p m os) :
      Traced p (m.reset .main) []
  | condition {m : Machine} {os : List (Routine × Nat)} (h : Traced p m os)
      (hp : p.predicate.isSome) : Traced p (m.reset .predicate) []

/-- Every state has its operands pushed somewhere. -/
lemma Reachable.traced {p : Program} {m : Machine} (h : Reachable p m) : ∃ os, Traced p m os := by
  induction h with
  | new target w => exact ⟨_, .new target w⟩
  | step _ hm w ih =>
    obtain ⟨os, h⟩ := ih
    exact ⟨_, h.step hm w⟩
  | wake _ hw ih =>
    obtain ⟨os, h⟩ := ih
    exact ⟨_, h.wake hw⟩
  | kill _ ih =>
    obtain ⟨os, h⟩ := ih
    exact ⟨_, h.kill⟩
  | restart _ ih =>
    obtain ⟨os, h⟩ := ih
    exact ⟨_, h.restart⟩
  | condition _ hp ih =>
    obtain ⟨os, h⟩ := ih
    exact ⟨_, h.condition hp⟩

section

open Compiler

variable {strict : Bool} {p : Program} {blocks : BlockMap} {ls pre post : List Line} {l : Line}
  {c : Call} {rest : List Call} {own outer : List Loop} {m : Machine}

/-- The line at which a machine stands is the instruction that comes next. -/
lemma Stands.instruction? (h : Stands strict p blocks ls pre l post c rest own outer m) :
    m.instruction? p = some l.instruction := by
  have hcode : codeOf ls = codeOf pre ++ l.instruction :: codeOf post := by
    rw [h.lines]
    simp [codeOf]
  have hfull := h.laid.holds.full
  rw [hcode] at hfull
  rw [Machine.instruction?, h.routine, h.laid.holds.code, Option.bind_some, h.address, hcode,
    Code.words_ofInstructions, Code.encode_append, Code.extent, ← Code.length_encode hfull.left,
    List.drop_left, Code.decode_encode hfull.right]
  rfl

/-- Where the values of some inputs in turn are pushed: by the last line of each. -/
def pushers (before : List Line) : List (List Line) → List Nat
  | [] => []
  | seg :: segs => pushers (before ++ seg) segs ++ [Code.extent (codeOf (before ++ seg.dropLast))]

lemma length_pushers (before : List Line) (segs : List (List Line)) :
    (pushers before segs).length = segs.length := by
  induction segs generalizing before with
  | nil => rfl
  | cons seg segs ih => simp [pushers, ih]

/-- Inputs that are evaluated in turn leave one operand each. -/
lemma origins_inputs {t : Tables} {id : String} {b : Block} {vs : List Recipe.Step}
    {segs : List (List Line)} (h : List.Forall₂ (InputOf t blocks id b) vs segs)
    (before : List Line) :
    (Code.shape t (codeOf (before ++ segs.flatten))).origins =
      pushers before segs ++ (Code.shape t (codeOf before)).origins := by
  induction h generalizing before with
  | nil => simp [pushers]
  | @cons v seg vs segs hseg _ ih =>
    have hshape := hseg.pushes.shape (codeOf before)
    have hdrop : codeOf before ++ (codeOf seg).dropLast = codeOf (before ++ seg.dropLast) := by
      simp [codeOf, List.map_dropLast]
    rw [List.flatten_cons, ← List.append_assoc, ih,
      show codeOf (before ++ seg) = codeOf before ++ codeOf seg by simp [codeOf], hshape, hdrop]
    simp [pushers]

/-- The topmost operands, as many as a native takes, are the inputs of the block that calls it: the
values of the steps right before the call, each pushed by the last instruction of its input. -/
def OwnInputs (t : Tables) (blocks : BlockMap) (r : Routine) (pre : List Line) (l : Line) (n : Native)
    (os : List (Routine × Nat)) : Prop :=
  ∃ id b zs vs rest before segs, l.block = some id ∧ blocks.get? id = some b ∧
    b.HasPlan (zs ++ (vs ++ .call n :: rest)) ∧ vs.length = n.arity ∧
    pre = before ++ List.flatten segs ∧ List.Forall₂ (InputOf t blocks id b) vs segs ∧
    os.take n.arity = (pushers before segs).map (r, ·)

lemma Stands.ownInputs (h : Stands strict p blocks ls pre l post c rest own outer m) {n : Native}
    (hn : l.instruction.native? p.tables = some n) :
    OwnInputs p.tables blocks c.routine pre l n
      ((Code.shape p.tables (codeOf pre)).origins.map (c.routine, ·)) := by
  obtain ⟨id, b, zs, vs, rest, before, segs, hblock, hb, hplan, hlen, hpre, hin⟩ :=
    ((h.laid.proper pre l post h.lines).fed n hn).inputs
  refine ⟨id, b, zs, vs, rest, before, segs, hblock, hb, hplan, hlen, hpre, hin, ?_⟩
  have hcount : n.arity = (pushers before segs).length := by
    rw [length_pushers, ← hin.length_eq, hlen]
  rw [hpre, origins_inputs hin, List.map_append, List.take_append_of_le_length (by simp [hcount]),
    List.take_of_length_le (by simp [hcount])]

/-- The places where operands were pushed are those that the lines before say. -/
lemma Traced.stands (hlaid : ∀ r, (p.code? r).isSome → ∃ ls, p.Laid true blocks r ls)
    {os : List (Routine × Nat)} (h : Traced p m os) :
    m.status = .finished ∨ m.status.isLive = true ∧
      ∃ ls pre l post c rest own outer, Stands true p blocks ls pre l post c rest own outer m ∧
        Waiting true p blocks c rest outer ∧
        os = (Code.shape p.tables (codeOf pre)).origins.map (c.routine, ·) := by
  have hreset : ∀ (m : Machine) {entry : Routine}, (p.code? entry).isSome →
      ∃ ls pre l post c rest own outer,
        Stands true p blocks ls pre l post c rest own outer (m.reset entry) ∧
        Waiting true p blocks c rest outer ∧
        [] = (Code.shape p.tables (codeOf pre)).origins.map (c.routine, ·) := by
    intro m entry he
    obtain ⟨ls, hls⟩ := hlaid entry he
    obtain ⟨l, post, hs⟩ := @stands_first true p blocks ls { routine := entry } [] (m.reset entry)
      hls rfl rfl ⟨Nat.zero_le _, fun _ => ⟨rfl, rfl⟩⟩
    exact ⟨ls, [], l, post, _, [], [], [], hs, .bottom rfl, rfl⟩
  induction h with
  | new target w => exact Or.inr ⟨rfl, hreset _ rfl⟩
  | @step m os _ hm w ih =>
    rcases ih with hfin | ⟨-, ls, pre, l, post, c, rest, own, outer, hs, hwait, rfl⟩
    · rw [hm] at hfin
      cases hfin
    rcases hs.passes hlaid hwait hm w with hfin |
      ⟨hlive, ls', pre', l', post', c', rest', own', outer', hs', hwait', hfollows⟩
    · exact Or.inl hfin
    refine Or.inr ⟨hlive, ls', pre', l', post', c', rest', own', outer', hs', hwait', ?_⟩
    have hafter : m.pushedAfter p ((Code.shape p.tables (codeOf pre)).origins.map (c.routine, ·)) =
        (Code.shape p.tables (codeOf pre')).origins.map (c.routine, ·) := by
      rw [pushedAfter, hs.instruction?, hfollows.shape rfl, hs.routine, hs.address]
      simp [Shape.after, List.map_drop]
    rw [hafter]
    rcases hfollows.within with hsame | hblank
    · rw [hsame]
    · rw [hblank]
      rfl
  | @wake m os _ w hw ih =>
    rcases ih with hfin | ⟨-, ls, pre, l, post, c, rest, own, outer, hs, hwait, hos⟩
    · simp [isReady, hfin] at hw
    · refine Or.inr ⟨rfl, ls, pre, l, post, c, rest, own, outer, ?_, hwait, hos⟩
      exact ⟨hs.laid, hs.lines, hs.address, hs.calls, hs.loops, hs.inside, hs.marked, hs.loaded⟩
  | kill => exact Or.inl rfl
  | restart => exact Or.inr ⟨rfl, hreset _ rfl⟩
  | condition _ hp => exact Or.inr ⟨rfl, hreset _ (show (p.code? .predicate).isSome from hp)⟩

end

/-- **Operands**: when a command begins, no operands are there and no call is being prepared. Every
instruction finds the operands that it takes, and a native finds those that the inputs of its own
block have pushed. -/
theorem operands_of_traced {blocks : BlockMap} (hkey : blocks.Keyed) (hk : blocks.WellKinded)
    (hac : blocks.Acyclic) {target : TargetId} {s : Script}
    (hs : s ∈ (Engine.compileTarget .builtin target blocks).1) {m : Machine}
    {os : List (Routine × Nat)} (h : Traced s.program m os) (hm : m.status ≠ .finished) :
    m.status.isLive = true ∧ os.length = m.stack.length ∧
      ∃ c id mode, s.program.Compiled blocks m.routine c id mode ∧
        ∃ pre l post, c.listing .builtin blocks id mode = pre ++ l :: post ∧
          m.address = Code.extent (Compiler.codeOf pre) ∧
          m.instruction? s.program = some l.instruction ∧
          (∀ x, Compiler.BeginsIn blocks x c id mode pre → m.stack = [] ∧ m.pending = []) ∧
          l.instruction.takes s.program.tables ≤ m.stack.length ∧
          (m.status = .running → ∀ w, (step s.program m w).1.status = .finished ∨
            Operates s.program.tables l.instruction m (step s.program m w).1) ∧
          ∀ n, l.instruction.native? s.program.tables = some n →
            n.pops = n.arity ∧ n.arity ≤ m.stack.length ∧
              OwnInputs s.program.tables blocks m.routine pre l n os := by
  obtain ⟨hlive, ls, pre, l, post, c, rest, own, outer, hstands, -, rfl⟩ :=
    (h.stands (Engine.laid_of_mem true hkey hk.values hac (fun _ => hk) hs)).resolve_left hm
  obtain ⟨comp, id, mode, hcompiled, hls⟩ := hstands.laid.unit
  obtain ⟨hlen, hpending⟩ := hstands.loaded.2 rfl
  have hroutine := hstands.routine
  refine ⟨hlive, by rw [hlen, List.length_map], comp, id, mode, hroutine ▸ hcompiled, pre, l, post,
    hls ▸ hstands.lines, hstands.address, hstands.instruction?, fun x hx => ?_, hstands.takes_le,
    fun hrun w => ?_, fun n hn => ?_⟩
  · rw [Compiler.shape_begins hkey hk hac hcompiled hx] at hlen hpending
    exact ⟨List.length_eq_zero_iff.1 hlen, List.length_eq_zero_iff.1 hpending⟩
  · exact (hstands.result hrun w).imp_right fun hr => hr.2.1
  · have hpops := ((hstands.laid.proper pre l post hstands.lines).fed n hn).pops
    refine ⟨hpops, ?_, hroutine ▸ hstands.ownInputs hn⟩
    have := hstands.takes_le
    rwa [Instruction.takes_of_native hn, hpops] at this

/-- A sprite that goes to a place, of which one coordinate is a sum. -/
def goesToSum : BlockMap := .ofList [
  ("flag", { id := "flag", opcode := "event_whenflagclicked", topLevel := true, next := some "go" }),
  ("go", { id := "go", opcode := "motion_gotoxy"
           inputs := .ofList [("X", { value := some (.block "sum") }),
             ("Y", { value := some (.value (.text "3")) })] }),
  ("sum", { id := "sum", opcode := "operator_add"
            inputs := .ofList [("NUM1", { value := some (.value (.text "1")) }),
              ("NUM2", { value := some (.value (.text "2")) })] })]

/-- Its program. -/
def goingScript : Script :=
  (Engine.compileTarget .builtin ⟨0, 0⟩ goesToSum).1.head (by decide +kernel)

lemma goingScript_mem : goingScript ∈ (Engine.compileTarget .builtin ⟨0, 0⟩ goesToSum).1 :=
  List.head_mem _

/-- When it goes, both coordinates are there, pushed by the inputs of the block. -/
theorem operands_goesToSum : ∃ m os pre l n, Traced goingScript.program m os ∧
    m.status = .running ∧ m.stack.length = 2 ∧ os.length = 2 ∧
    l.instruction.native? goingScript.program.tables = some n ∧ n.arity = 2 ∧
    OwnInputs goingScript.program.tables goesToSum m.routine pre l n os := by
  have hac : goesToSum.Acyclic := BlockMap.acyclic_of_falling
    (fun id => ["sum", "go", "flag"].idxOf id) (by decide +kernel)
  obtain ⟨m, hreach, hm, hstack, i, n, hi, hn, harity⟩ : ∃ m, Reachable goingScript.program m ∧
      m.status = .running ∧ m.stack.length = 2 ∧ ∃ i n, m.instruction? goingScript.program = some i ∧
        i.native? goingScript.program.tables = some n ∧ n.arity = 2 := by
    refine ⟨_, (Reachable.new ⟨0, 0⟩ {}).steps 5 {}, by decide +kernel, by decide +kernel,
      ⟨.exec, [0]⟩, .motion .goTo, by decide +kernel, by decide +kernel, by decide +kernel⟩
  obtain ⟨os, htraced⟩ := hreach.traced
  obtain ⟨-, hlen, c, id, mode, -, pre, l, post, -, -, hnext, -, -, -, hnative⟩ :=
    operands_of_traced (by decide +kernel) (by decide +kernel) hac goingScript_mem htraced
      (by rw [hm]; simp)
  rw [hi, Option.some.injEq] at hnext
  subst hnext
  exact ⟨m, os, pre, l, n, htraced, hm, hstack, hlen.trans hstack, hn, harity, (hnative n hn).2.2⟩

end Machine

end Blockwork
