import Blockwork.Proofs.Machine.Stepping

/-!
The states that a machine can get into: by steps, by new slices, and by being killed or started over,
whatever happens to the world in between. In all of them that are not finished the machine stands at
a line of its routine, and every activation below stands behind the call that it waits for.
-/

namespace Blockwork

namespace Machine

/-- The states of a machine for a program. The world may change at any time: between two slices
promises are settled and other threads run. -/
inductive Reachable (p : Program) : Machine → Prop
  | new (target : TargetId) (w : World) : Reachable p (new p target w).1
  | step {m : Machine} (h : Reachable p m) (hm : m.status = .running) (w : World) :
      Reachable p (step p m w).1
  | wake {m : Machine} (h : Reachable p m) {w : World} (hw : m.isReady w = true) : Reachable p m.wake
  | kill {m : Machine} (h : Reachable p m) : Reachable p m.finish
  | restart {m : Machine} (h : Reachable p m) : Reachable p (m.reset .main)
  | condition {m : Machine} (h : Reachable p m) (hp : p.predicate.isSome) :
      Reachable p (m.reset .predicate)

lemma Reachable.steps {p : Program} {m : Machine} (h : Reachable p m) (fuel : Nat) (w : World) :
    Reachable p (steps p fuel m w).1 := by
  induction fuel generalizing m w with
  | zero => exact h
  | succ fuel ih =>
    rw [Machine.steps]
    split
    · next hm => exact ih (h.step (beq_iff_eq.1 hm) w) _
    · exact h

/-- A slice that ends leads from one state to another. -/
lemma Reachable.run {p : Program} {m : Machine} (h : Reachable p m) (fuel : Nat) (w : World)
    (hf : (m.run fuel p w).1.status ≠ .faulted .overrun) : Reachable p (m.run fuel p w).1 := by
  unfold Machine.run at hf ⊢
  split
  · next hw =>
    simp only [hw, if_true] at hf
    have hsteps := (h.wake hw).steps fuel w
    have hnot : ((Machine.steps p fuel m.wake w).1.status == .running) = false := by
      by_contra hrun
      rw [Bool.not_eq_false] at hrun
      simp [giveUp, hrun, fault] at hf
    simpa [giveUp, hnot] using hsteps
  · exact h

/-! ### Activations -/

open Compiler in
/-- The activations below `c`, each behind the call of the one above it and with its own loops open;
`outer` are the loops of all of them. -/
inductive Waiting (strict : Bool) (p : Program) (blocks : BlockMap) :
    (c : Call) → (rest : List Call) → (outer : List Loop) → Prop
  | bottom {c : Call} (hopen : c.openLoops = 0) : Waiting strict p blocks c [] []
  | above {c d : Call} {rest : List Call} {ls before post : List Line} {call : Line}
      {own outer : List Loop} (hc : c.routine ≠ .predicate)
      (hlaid : p.Laid strict blocks d.routine ls) (hlines : ls = (before ++ [call]) ++ post)
      (hpost : post ≠ []) (hcall : call.opcode = .callProcedure)
      (hreturn : c.returnTo = Code.extent (codeOf (before ++ [call])))
      (hinside : Inside own (before ++ [call])) (hopen : c.openLoops = (own ++ outer).length)
      (h : Waiting strict p blocks d rest outer) :
      Waiting strict p blocks c (d :: rest) (own ++ outer)

/-- The machine stands at a line, and so do its callers. -/
def InOrder (strict : Bool) (p : Program) (blocks : BlockMap) (m : Machine) : Prop :=
  ∃ ls pre l post c rest own outer, Stands strict p blocks ls pre l post c rest own outer m ∧
    Waiting strict p blocks c rest outer

section

open Compiler

variable {strict : Bool} {p : Program} {blocks : BlockMap} {ls pre post : List Line} {l : Line}
  {c : Call} {rest : List Call} {own outer : List Loop} {m m' : Machine}

/-- What counts about an activation is where it runs and where it goes back to. -/
lemma Waiting.congr {c' : Call} (h : Waiting strict p blocks c rest outer)
    (hc : c'.routine = c.routine ∧ c'.returnTo = c.returnTo ∧ c'.openLoops = c.openLoops) :
    Waiting strict p blocks c' rest outer := by
  obtain ⟨h1, h2, h3⟩ := hc
  cases h with
  | bottom hopen => exact .bottom (h3.trans hopen)
  | above hnp hlaid hlines hpost hcall hreturn hinside hopen h =>
    exact .above (h1 ▸ hnp) hlaid hlines hpost hcall (h2.trans hreturn) hinside (h3.trans hopen) h

/-! ### Operands -/

lemma pending_after (t : Tables) (s : Shape) (a : Nat) (i : Instruction) :
    (s.after t a i).pending = preparing i.opcode s.pending := by
  unfold Shape.after preparing
  cases i.opcode <;> rfl

/-- Where a line settles, nothing is left. -/
lemma Stands.after_blank (h : Stands strict p blocks ls pre l post c rest own outer m)
    (hl : l.instruction.settles p.tables = true) (hr : c.routine ≠ .predicate ∨ l.opcode ≠ .halt)
    (hstrict : strict = true) :
    (Code.shape p.tables (codeOf pre)).after p.tables (Code.extent (codeOf pre)) l.instruction =
      .blank :=
  (h.laid.proper pre l post h.lines).clean (by simpa [hstrict] using hr) hl

/-- The operands after an instruction. -/
lemma Stands.loads_after (h : Stands strict p blocks ls pre l post c rest own outer m)
    (ho : Operates p.tables l.instruction m m') :
    Loaded strict ((Code.shape p.tables (codeOf pre)).after p.tables (Code.extent (codeOf pre))
      l.instruction) m' := by
  obtain ⟨vs, hvs, hstack⟩ := ho.stack
  have hlen : m'.stack.length =
      l.instruction.gives p.tables + (m.stack.length - l.instruction.takes p.tables) := by
    rw [hstack, List.length_append, List.length_drop, hvs]
  have horigins : ((Code.shape p.tables (codeOf pre)).after p.tables (Code.extent (codeOf pre))
      l.instruction).origins.length = l.instruction.gives p.tables +
        ((Code.shape p.tables (codeOf pre)).origins.length - l.instruction.takes p.tables) := by
    simp [Shape.after]
  constructor
  · rw [horigins, hlen]
    have := h.loaded.1
    omega
  · intro hs
    obtain ⟨h1, h2⟩ := h.loaded.2 hs
    exact ⟨by rw [horigins, hlen, h1], by rw [pending_after, ho.pending, h2]⟩

lemma Stands.loads_blank (h : Stands strict p blocks ls pre l post c rest own outer m)
    (hl : l.instruction.settles p.tables = true) (hr : c.routine ≠ .predicate ∨ l.opcode ≠ .halt)
    (ho : Operates p.tables l.instruction m m') : Loaded strict .blank m' := by
  refine ⟨Nat.zero_le _, fun hs => ?_⟩
  have := (h.loads_after ho).2 hs
  rwa [h.after_blank hl hr hs] at this

/-- The shape behind a line is that after the line, or blank. -/
lemma Leads.shape {pre' : List Line} (h : Leads p.tables pre l pre') :
    l.instruction.settles p.tables = true ∧ Code.shape p.tables (codeOf pre') = .blank ∨
      Code.shape p.tables (codeOf pre') = (Code.shape p.tables (codeOf pre)).after p.tables
        (Code.extent (codeOf pre)) l.instruction := by
  rcases h with rfl | ⟨hl, init, k, rfl, hk⟩
  · rw [codeOf, List.map_append, List.map_singleton]
    by_cases hl : l.instruction.settles p.tables = true
    · exact Or.inl ⟨hl, Code.shape_snoc_settles _ hl⟩
    · exact Or.inr (Code.shape_snoc_plain _ (Bool.not_eq_true _ ▸ hl))
  · rw [codeOf, List.map_append, List.map_singleton]
    exact Or.inl ⟨hl, Code.shape_snoc_settles _ hk⟩

/-- The checkpoint stays the last one that was passed. -/
lemma Stands.marks (h : Stands strict p blocks ls pre l post c rest own outer m)
    {pre' : List Line} (hleads : Leads p.tables pre l pre')
    (ha : m'.address = Code.extent (codeOf pre'))
    (hmarks : ∀ k ∈ pre'.getLast?, k.opcode = .checkpoint → m'.checkpoint = some m'.address)
    (hkeeps : l.opcode ≠ .checkpoint → m'.checkpoint = m.checkpoint) :
    Marked p.tables m'.checkpoint pre' := by
  intro before k mid hpre hk hmid
  rcases List.eq_nil_or_concat mid with rfl | ⟨mid', x, rfl⟩
  · rw [hmarks k (by simp [hpre]) hk, ha, hpre]
  · -- the last line does not settle, so it is the one that was done
    have hx : x.instruction.settles p.tables = false := hmid x (by simp)
    have hend : before ++ k :: mid'.concat x = (before ++ k :: mid') ++ [x] := by simp
    rw [hend] at hpre
    rcases hleads with rfl | ⟨-, init, y, rfl, hy⟩
    · obtain ⟨hpre', hlx⟩ := List.append_inj' hpre rfl
      cases hlx
      rw [hkeeps (Instruction.not_bracket_of_not_settles hx).2.2]
      exact h.marked before k mid' hpre' hk fun y hy => hmid y (by simp [hy])
    · obtain ⟨-, hyx⟩ := List.append_inj' hpre rfl
      cases hyx
      rw [hx] at hy
      cases hy

/-! ### Steps -/

lemma marked_nil (t : Tables) (checkpoint : Option Nat) : Marked t checkpoint [] := by
  intro before k mid hpre
  simp at hpre

/-- At the start of a routine. -/
lemma stands_first (hlaid : p.Laid strict blocks c.routine ls) (ha : m.address = 0)
    (hcalls : m.calls = c :: rest) (hs : Loaded strict .blank m) :
    ∃ l post, Stands strict p blocks ls [] l post c rest [] m.loops m := by
  obtain ⟨body, last, hbody, -⟩ := hlaid.ends
  have hne : ls ≠ [] := by simp [hbody]
  obtain ⟨l, post, rfl⟩ := List.exists_cons_of_ne_nil hne
  exact ⟨l, post, hlaid, rfl, ha, hcalls, rfl, .nil, marked_nil _ _, hs⟩

/-- Behind a call no checkpoint counts. -/
lemma marked_call {before : List Line} {call : Line} (hcall : call.opcode = .callProcedure)
    (checkpoint : Option Nat) : Marked p.tables checkpoint (before ++ [call]) := by
  intro before' k mid hpre hk hmid
  rcases List.eq_nil_or_concat mid with rfl | ⟨mid', x, rfl⟩
  · obtain ⟨-, hkc⟩ := List.append_inj' hpre rfl
    cases hkc
    rw [hcall] at hk
    cases hk
  · rw [show before' ++ k :: mid'.concat x = (before' ++ k :: mid') ++ [x] by simp] at hpre
    obtain ⟨-, hxc⟩ := List.append_inj' hpre rfl
    cases hxc
    exact absurd hcall (Instruction.not_bracket_of_not_settles (hmid call (by simp))).2.1

/-- How the place after a step follows the line that was done, in the routines `r` and `r'`. -/
structure Follows (strict : Bool) (t : Tables) (pre : List Line) (l : Line) (r : Routine)
    (pre' : List Line) (r' : Routine) : Prop where
  /-- If one is strict, the operands are those after the line. -/
  shape : strict = true → Code.shape t (codeOf pre') =
    (Code.shape t (codeOf pre)).after t (Code.extent (codeOf pre)) l.instruction
  /-- There are none in another activation. -/
  within : r' = r ∨ Code.shape t (codeOf pre') = .blank
  /-- Right before stands the line itself, or one that settles. -/
  behind : ∀ k ∈ pre'.getLast?, k = l ∨ k.instruction.settles t = true

/-- From line to line: after a step the machine is finished, or it stands at a line again. -/
lemma Stands.passes (hlaid : ∀ r, (p.code? r).isSome → ∃ ls, p.Laid strict blocks r ls)
    (hs : Stands strict p blocks ls pre l post c rest own outer m)
    (hwait : Waiting strict p blocks c rest outer) (hm : m.status = .running) (w : World) :
    (step p m w).1.status = .finished ∨ (step p m w).1.status.isLive = true ∧
      ∃ ls' pre' l' post' c' rest' own' outer',
        Stands strict p blocks ls' pre' l' post' c' rest' own' outer' (step p m w).1 ∧
        Waiting strict p blocks c' rest' outer' ∧
        Follows strict p.tables pre l c.routine pre' c'.routine := by
  rcases hs.result hm w with hfin | ⟨hlive, ho, hstep⟩
  · exact Or.inl hfin
  refine Or.inr ⟨hlive, ?_⟩
  generalize (Machine.step p m w).1 = m' at ho hstep
  cases hstep with
  | stays pre' post' own' c' lines more on leads forward address loops inside calls same marks keeps =>
    obtain ⟨l', tail, rfl⟩ := List.exists_cons_of_ne_nil more
    have hmark := hs.marks leads address marks keeps
    have hbehind : ∀ k ∈ pre'.getLast?, k = l ∨ k.instruction.settles p.tables = true := by
      rintro k hk
      rcases leads with rfl | ⟨-, init, x, rfl, hx⟩ <;>
        rw [List.getLast?_concat, Option.mem_some_iff] at hk <;> subst hk
      · exact Or.inl rfl
      · exact Or.inr hx
    rcases leads.shape with ⟨hl, hshape⟩ | hshape
    · refine ⟨ls, pre', l', tail, c', rest, own', outer, ?_, hwait.congr same, fun hstrict => ?_,
        Or.inl same.1, hbehind⟩
      · exact ⟨same.1 ▸ hs.laid, lines, address, calls, loops, inside, hmark,
          hshape ▸ hs.loads_blank hl (Or.inr on) ho⟩
      · rw [hshape, hs.after_blank hl (Or.inr on) hstrict]
    · refine ⟨ls, pre', l', tail, c', rest, own', outer, ?_, hwait.congr same, fun _ => hshape,
        Or.inl same.1, hbehind⟩
      exact ⟨same.1 ▸ hs.laid, lines, address, calls, loops, inside, hmark,
        hshape ▸ hs.loads_after ho⟩
  | calls i arguments called code address loops calls fresh =>
    have hsettles : l.instruction.settles p.tables = true := settles_of_opcode called (by simp)
    have hhalt : l.opcode ≠ .halt := by simp [called]
    obtain ⟨ls', hls'⟩ := hlaid _ code
    obtain ⟨l', post', hs'⟩ := stands_first (c := ⟨.procedure i, _, arguments, false, _⟩) hls' address
      calls (hs.loads_blank hsettles (Or.inr hhalt) ho)
    refine ⟨ls', [], l', post', _, c :: rest, [], m'.loops, hs', ?_, fun hstrict =>
      (hs.after_blank hsettles (Or.inr hhalt) hstrict).symm, Or.inr rfl, by simp⟩
    rw [loops, hs.loops]
    refine .above (by simp) hs.laid (by rw [hs.lines]; simp) (more_lines hs.laid hs.lines hhalt) called
      rfl ?_ rfl hwait
    rw [Inside, List.map_append, List.map_singleton, Code.opened_snoc, called,
      Code.openStep_other rfl (by simp)]
    exact hs.inside
  | returns d rest' above settles address loops calls =>
    subst above
    cases hwait with
    | @above _ _ _ ls' before post' call own' outer' hc hlaid' hlines hpost hcall hreturn hinside hopen
        hwait' =>
      obtain ⟨l', tail, rfl⟩ := List.exists_cons_of_ne_nil hpost
      have hsettles : call.instruction.settles p.tables = true := settles_of_opcode hcall (by simp)
      have hblank : Code.shape p.tables (codeOf (before ++ [call])) = .blank := by
        rw [codeOf, List.map_append, List.map_singleton]
        exact Code.shape_snoc_settles _ hsettles
      refine ⟨ls', before ++ [call], l', tail, d, rest', own', outer', ?_, hwait', fun hstrict => ?_,
        Or.inr hblank, fun k hk => ?_⟩
      · refine ⟨hlaid', hlines, address.trans hreturn, calls, ?_, hinside, marked_call hcall _, ?_⟩
        · rw [loops, hs.loops, hopen, List.length_append, Nat.add_sub_cancel, List.drop_left]
        · rw [hblank]
          exact hs.loads_blank settles (Or.inl hc) ho
      · rw [hblank, hs.after_blank settles (Or.inl hc) hstrict]
      · rw [List.getLast?_concat, Option.mem_some_iff] at hk
        exact Or.inr (hk ▸ hsettles)

/-- A step keeps the order. -/
lemma InOrder.step (hlaid : ∀ r, (p.code? r).isSome → ∃ ls, p.Laid strict blocks r ls)
    (h : InOrder strict p blocks m) (hm : m.status = .running) (w : World) :
    (step p m w).1.status = .finished ∨
      (step p m w).1.status.isLive = true ∧ InOrder strict p blocks (step p m w).1 := by
  obtain ⟨ls, pre, l, post, c, rest, own, outer, hs, hwait⟩ := h
  rcases hs.passes hlaid hwait hm w with
    hfin | ⟨hlive, ls', pre', l', post', c', rest', own', outer', hs', hwait', -⟩
  · exact Or.inl hfin
  · exact Or.inr ⟨hlive, ls', pre', l', post', c', rest', own', outer', hs', hwait'⟩

/-- What the order depends on. -/
lemma InOrder.congr (h : InOrder strict p blocks m) (ha : m'.address = m.address)
    (hst : m'.stack = m.stack) (hl : m'.loops = m.loops) (hc : m'.calls = m.calls)
    (hp : m'.pending = m.pending) (hcp : m'.checkpoint = m.checkpoint) :
    InOrder strict p blocks m' := by
  obtain ⟨ls, pre, l, post, c, rest, own, outer, hs, hwait⟩ := h
  refine ⟨ls, pre, l, post, c, rest, own, outer, ?_, hwait⟩
  exact ⟨hs.laid, hs.lines, ha.trans hs.address, hc.trans hs.calls, hl.trans hs.loops, hs.inside,
    hcp ▸ hs.marked, by rw [Loaded, hst, hp]; exact hs.loaded⟩

lemma inOrder_reset (hlaid : ∀ r, (p.code? r).isSome → ∃ ls, p.Laid strict blocks r ls)
    {entry : Routine} (he : (p.code? entry).isSome) (m : Machine) :
    InOrder strict p blocks (m.reset entry) := by
  obtain ⟨ls, hls⟩ := hlaid entry he
  obtain ⟨l, post, hs⟩ := @stands_first strict p blocks ls { routine := entry } [] (m.reset entry)
    hls rfl rfl ⟨Nat.zero_le _, fun _ => ⟨rfl, rfl⟩⟩
  exact ⟨ls, [], l, post, _, [], [], [], hs, .bottom rfl⟩

/-- **Order**: a machine that is not finished stands at a line of its routine, and so do its
callers. It never faults. -/
lemma Reachable.inOrder (hlaid : ∀ r, (p.code? r).isSome → ∃ ls, p.Laid strict blocks r ls)
    (h : Reachable p m) :
    m.status = .finished ∨ m.status.isLive = true ∧ InOrder strict p blocks m := by
  induction h with
  | new target w => exact Or.inr ⟨rfl, inOrder_reset hlaid rfl _⟩
  | @step m _ hm w ih =>
    rcases ih with hfin | ⟨-, hin⟩
    · rw [hm] at hfin
      cases hfin
    · exact hin.step hlaid hm w
  | @wake m _ w hw ih =>
    rcases ih with hfin | ⟨-, hin⟩
    · simp [isReady, hfin] at hw
    · exact Or.inr ⟨rfl, hin.congr rfl rfl rfl rfl rfl rfl⟩
  | kill => exact Or.inl rfl
  | restart => exact Or.inr ⟨rfl, inOrder_reset hlaid rfl _⟩
  | condition _ hp =>
    exact Or.inr ⟨rfl, inOrder_reset hlaid (show (p.code? .predicate).isSome from hp) _⟩

lemma Reachable.not_faulted (hlaid : ∀ r, (p.code? r).isSome → ∃ ls, p.Laid strict blocks r ls)
    (h : Reachable p m) (f : Fault) : m.status ≠ .faulted f := by
  intro hf
  rcases h.inOrder hlaid with hfin | ⟨hlive, -⟩
  · rw [hf] at hfin
    cases hfin
  · rw [hf] at hlive
    cases hlive

/-- A slice faults only when it is given up. -/
lemma Reachable.fault_run (hlaid : ∀ r, (p.code? r).isSome → ∃ ls, p.Laid strict blocks r ls)
    (h : Reachable p m) {fuel : Nat} {w : World} {f : Fault}
    (hf : (m.run fuel p w).1.status = .faulted f) : f = .overrun := by
  by_contra hne
  refine (h.run fuel w fun ho => hne ?_).not_faulted hlaid f hf
  rw [hf] at ho
  exact Status.faulted.inj ho

end

end Machine

/-- The routines of a compiled script are laid out line by line. -/
lemma Engine.laid_of_mem (strict : Bool) {blocks : BlockMap} (hkey : blocks.Keyed)
    (hk : blocks.ValuesKinded) (hac : blocks.Acyclic) (hstrict : strict = true → blocks.WellKinded)
    {target : TargetId} {s : Script} (hs : s ∈ (Engine.compileTarget .builtin target blocks).1) :
    ∀ r, (s.program.code? r).isSome → ∃ ls, s.program.Laid strict blocks r ls := by
  intro r hr
  obtain ⟨c, id, mode, h⟩ := Engine.compiled_of_mem hs hr
  exact ⟨_, Compiler.laid_of_compiled hkey hk hac hstrict h⟩

end Blockwork
