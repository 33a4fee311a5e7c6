import Blockwork.Proofs.Machine.Unpaused
import Mathlib.Data.Nat.Find

/-!
A machine that runs alone, from inside of a custom block until it is back at the caller. Nothing comes
between its slices, so all that it does is told by its instructions and the worlds that they leave. A
program and the same program without pauses do the same one after the other: a pause moves only the
machine that is at it, and as a machine meets an instruction that is no pause before it is at the end
of its code, each of the two gets wherever the other one gets.

In warp no slice ends inside of the custom block.
-/

namespace Blockwork

namespace Machine

/-- The opcode of the next instruction. -/
def next? (p : Program) (m : Machine) : Option Opcode :=
  (p.code? m.routine).bind fun code => code.words[m.address]?.bind Opcode.ofWord?

/-- A machine that runs alone, and what it has done so far: the opcodes of its instructions but the
pauses, each with the world that it left. -/
structure Solo where
  machine : Machine
  world : World
  deeds : List (Option Opcode × World) := []

namespace Solo

/-- Has left all but the first `depth` activations, or has ended. -/
def isOver (depth : Nat) (s : Solo) : Bool :=
  decide (s.machine.calls.length ≤ depth) || !s.machine.status.isLive

/-- One instruction. A machine that gave way goes on at once, as there is nobody else. -/
def move (p : Program) (depth : Nat) (s : Solo) : Solo :=
  if s.isOver depth || !s.machine.isReady s.world then s
  else
    let (m, w) := step p s.machine.wake s.world
    let op := next? p s.machine
    ⟨m, w, if op.any Opcode.isPause then s.deeds else s.deeds ++ [(op, w)]⟩

/-- Some instructions. -/
def after (p : Program) (depth n : Nat) (s : Solo) : Solo := (move p depth)^[n] s

/-- The same has been done by both, and they have come to the same end if to any. Who is back at the
caller is in the same state; who has ended differs in nothing but its place in the code. -/
structure Same (depth : Nat) (s t : Solo) : Prop where
  world : s.world = t.world
  deeds : s.deeds = t.deeds
  together : s.isOver depth = t.isOver depth
  ended : s.isOver depth = true → s.machine = t.machine.moved s.machine
  back : s.isOver depth = true → s.machine.status.isLive = true → s.machine = t.machine

/-- A slice that starts here goes on until all is over, whatever number of steps it is given. -/
def Unbroken (p : Program) (depth : Nat) (s : Solo) : Prop :=
  ∀ fuel, ∃ n, n ≤ fuel ∧
    steps p (n + 1) s.machine.wake s.world =
      ((s.after p depth (n + 1)).machine, (s.after p depth (n + 1)).world) ∧
    ((s.after p depth (n + 1)).isOver depth = true ∨
      n = fuel ∧ (s.after p depth (n + 1)).machine.status = .running)

section

variable {p : Program} {depth : Nat} {s : Solo}

lemma after_succ (p : Program) (depth n : Nat) (s : Solo) :
    s.after p depth (n + 1) = (s.move p depth).after p depth n := Function.iterate_succ_apply ..

lemma after_add (p : Program) (depth n k : Nat) (s : Solo) :
    s.after p depth (n + k) = (s.after p depth n).after p depth k := by
  rw [Nat.add_comm]
  exact Function.iterate_add_apply ..

lemma move_of_isOver (h : s.isOver depth = true) : s.move p depth = s := by simp [move, h]

lemma after_of_isOver (h : s.isOver depth = true) (n : Nat) : s.after p depth n = s :=
  Function.iterate_fixed (move_of_isOver h) n

lemma move_of_live (h : s.isOver depth = false)
    (hm : s.machine.status = .running ∨ s.machine.status = .yielded) :
    s.move p depth = ⟨(step p s.machine.wake s.world).1, (step p s.machine.wake s.world).2,
      if (next? p s.machine).any Opcode.isPause then s.deeds
      else s.deeds ++ [(next? p s.machine, (step p s.machine.wake s.world).2)]⟩ := by
  have hready : s.machine.isReady s.world = true := by
    rcases hm with hm | hm <;> simp [isReady, hm]
  simp [move, h, hready]

lemma move_eq {m' : Machine} {w' : World} (h : s.isOver depth = false)
    (hm : s.machine.status = .running ∨ s.machine.status = .yielded)
    (hstep : step p s.machine.wake s.world = (m', w')) :
    (s.move p depth).machine = m' ∧ (s.move p depth).world = w' := by
  rw [move_of_live h hm, hstep]
  exact ⟨rfl, rfl⟩

/-- Who is over at some time stays so. -/
lemma eq_of_isOver {n k : Nat} (hn : (s.after p depth n).isOver depth = true)
    (hk : (s.after p depth k).isOver depth = true) : s.after p depth n = s.after p depth k := by
  rcases Nat.le_total n k with h | h
  · obtain ⟨j, rfl⟩ := Nat.exists_eq_add_of_le h
    rw [after_add, after_of_isOver hn]
  · obtain ⟨j, rfl⟩ := Nat.exists_eq_add_of_le h
    rw [after_add, after_of_isOver hk]

/-- As long as nothing ends a slice, its steps are the instructions one after the other. -/
lemma steps_eq_after {n : Nat} (hs : s.machine.status = .running ∨ s.machine.status = .yielded)
    (hover : ∀ k ≤ n, (s.after p depth k).isOver depth = false)
    (hrun : ∀ k < n, (s.after p depth (k + 1)).machine.status = .running) :
    steps p (n + 1) s.machine.wake s.world =
      ((s.after p depth (n + 1)).machine, (s.after p depth (n + 1)).world) := by
  induction n generalizing s with
  | zero =>
    have hmove := @move_of_live p depth s (hover 0 (Nat.le_refl 0)) hs
    change _ = ((s.move p depth).machine, (s.move p depth).world)
    rw [hmove]
    rfl
  | succ n ih =>
    have hmove := @move_of_live p depth s (hover 0 (Nat.zero_le _)) hs
    have hnext : (s.move p depth).machine.status = .running := hrun 0 (Nat.succ_pos n)
    have hrest := @ih (s.move p depth) (.inl hnext)
      (fun k hk => by rw [← after_succ]; exact hover (k + 1) (Nat.succ_le_succ hk))
      (fun k hk => by rw [← after_succ]; exact hrun (k + 1) (Nat.succ_lt_succ hk))
    rw [wake_of_running hnext, ← after_succ] at hrest
    rw [← hrest, hmove]
    rfl

end

end Solo

/-! ### With and without pauses -/

section

variable {p : Program} {base m n : Machine} {f : Frame} {fs : List Frame}

lemma length_callsIn (m : Machine) (fs : List Frame) :
    (m.callsIn fs).length = fs.length + m.calls.length := by
  induction fs with
  | nil => simp [callsIn]
  | cons f fs ih => simp [callsIn, ih]; omega

lemma next?_within (h : f.In p) (hm : m.moved (base.within (f :: fs)) = m) :
    next? p m = f.todo.head?.map (·.opcode) := by
  have hcode : p.code? m.routine = some (.ofInstructions (f.done ++ f.todo)) := by
    rw [← hm]
    exact h.holds.code
  have haddress : m.address = Code.extent f.done := by
    rw [← hm]
    rfl
  have hfull := h.holds.full
  simp only [next?, hcode, haddress, Option.bind_some, Code.words_ofInstructions,
    List.getElem?_toArray]
  cases hi : f.todo with
  | nil =>
    rw [hi, List.append_nil] at hfull
    have hnone : (Code.encode f.done)[Code.extent f.done]? = none := by
      rw [List.getElem?_eq_none_iff, Code.length_encode hfull]
      exact Nat.le_refl _
    simp [hnone]
  | cons i rest =>
    have hword := @Code.word_at f.done i rest hfull.left
    simp only [Code.extent, hword]
    simp

lemma Beside.calls (h : Beside p base fs m n) : m.calls = base.callsIn fs := by
  rw [← h.place]
  rfl

lemma Beside.otherPlace (h : Beside p base fs m n) :
    n.moved (base.within (fs.map Frame.unpaused)) = n := by
  have hother := congrArg (fun x => n.moved x) h.other
  exact hother.symm

lemma Beside.otherCalls (h : Beside p base fs m n) : n.calls = base.callsIn (fs.map Frame.unpaused) := by
  rw [← h.otherPlace]
  rfl

lemma isLive_of_live (h : m.status = .running ∨ m.status = .yielded) : m.status.isLive = true := by
  rcases h with h | h <;> rw [h] <;> rfl

/-- Inside of an activation it is not over, in either program. -/
lemma Beside.isOver (h : Beside p base fs m n) (w : World)
    (ds : List (Option Opcode × World)) :
    Solo.isOver base.calls.length ⟨m, w, ds⟩ = fs.isEmpty ∧
      Solo.isOver base.calls.length ⟨n, w, ds⟩ = fs.isEmpty := by
  simp only [Solo.isOver, h.calls, h.otherCalls, length_callsIn, isLive_of_live h.live,
    isLive_of_live h.otherLive, List.length_map]
  cases fs <;> simp

/-- Two machines that have done the same, one of them without pauses: they are beside each other, or have
ended in the same way. -/
structure Solo.Twin (p : Program) (base : Machine) (s t : Solo) : Prop where
  world : s.world = t.world
  deeds : s.deeds = t.deeds
  machines : (s.machine.status.isLive = false ∧ s.machine = t.machine.moved s.machine) ∨
    ∃ fs, Beside p base fs s.machine t.machine

variable {s t : Solo}

lemma Beside.notOver (h : Beside p base (f :: fs) s.machine t.machine) :
    s.isOver base.calls.length = false ∧ t.isOver base.calls.length = false :=
  ⟨(h.isOver s.world s.deeds).1, (h.isOver t.world t.deeds).2⟩

/-- Without a pause both machines move on. -/
lemma Solo.Twin.kept (hb : Beside p base (f :: fs) s.machine t.machine) (h : s.Twin p base t)
    (hcalm : p.Calm) (hbase : base.calls ≠ [])
    (hkept : ∀ i rest, f.todo = i :: rest → i.opcode.isPause = false) :
    (s.move p base.calls.length).Twin p base (t.move p.unpaused base.calls.length) := by
  have hf := (List.forall_mem_cons.1 hb.frames).1
  have hown : (next? p s.machine).any Opcode.isPause = false := by
    rw [next?_within hf hb.place]
    cases hi : f.todo with
    | nil => rfl
    | cons i rest => exact hkept i rest hi
  have hother : next? p.unpaused t.machine = next? p s.machine := by
    rw [next?_within hf hb.place, next?_within hf.unpaused hb.otherPlace]
    cases hi : f.todo with
    | nil => simp [Frame.unpaused, hi]
    | cons i rest => simp [Frame.unpaused, hi, Code.unpaused_cons (hkept i rest hi)]
  have hjoint := hb.step hcalm hbase hkept s.world
  rw [Solo.move_of_live hb.notOver.1 hb.live, Solo.move_of_live hb.notOver.2 hb.otherLive, ← h.world,
    ← h.deeds]
  simp only [hown, hother, Bool.false_eq_true, if_false]
  refine ⟨hjoint.world, by rw [hjoint.world], ?_⟩
  rcases hjoint.outcome with hend | ⟨fs', hb', -⟩
  · exact .inl hend
  · exact .inr ⟨fs', hb'⟩

/-- A pause is passed by the machine that is at it. -/
lemma Solo.Twin.pause (hb : Beside p base (f :: fs) s.machine t.machine) (h : s.Twin p base t)
    {i : Instruction} {rest : List Instruction} (hi : f.todo = i :: rest)
    (hpause : i.opcode.isPause = true) :
    (s.move p base.calls.length).Twin p base t ∧ ∃ f', f'.todo = rest ∧
      Beside p base (f' :: fs) (s.move p base.calls.length).machine t.machine := by
  have hf := (List.forall_mem_cons.1 hb.frames).1
  have hown : (next? p s.machine).any Opcode.isPause = true := by
    rw [next?_within hf hb.place, hi]
    exact hpause
  obtain ⟨hworld, -, f', htodo, -, hb'⟩ := hb.pause hi hpause s.world
  rw [Solo.move_of_live hb.notOver.1 hb.live]
  simp only [hown, if_true]
  exact ⟨⟨hworld.trans h.world, h.deeds, .inr ⟨_, hb'⟩⟩, f', htodo, hb'⟩

/-- Both are over at the same time. -/
lemma Solo.Twin.isOver (h : s.Twin p base t) :
    s.isOver base.calls.length = t.isOver base.calls.length := by
  rcases h.machines with ⟨hend, hsame⟩ | ⟨fs, hb⟩
  · have hend' : t.machine.status.isLive = false := by
      rw [hsame] at hend
      exact hend
    simp [Solo.isOver, hend, hend']
  · rw [(hb.isOver s.world s.deeds).1]
    exact ((hb.isOver t.world t.deeds).2).symm

/-- Twins that are not over are beside each other, inside of an activation. -/
lemma Solo.Twin.inside (h : s.Twin p base t) (hover : t.isOver base.calls.length = false) :
    ∃ f fs, Beside p base (f :: fs) s.machine t.machine := by
  rcases h.machines with ⟨hend, -⟩ | ⟨fs, hb⟩
  · rw [← h.isOver, Solo.isOver, hend] at hover
    simp at hover
  · cases fs with
    | nil =>
      rw [(hb.isOver t.world t.deeds).2] at hover
      cases hover
    | cons f fs => exact ⟨f, fs, hb⟩

/-- One instruction with pauses is one without them, or none. -/
lemma Solo.Twin.move (h : s.Twin p base t) (hcalm : p.Calm) (hbase : base.calls ≠ []) :
    (s.move p base.calls.length).Twin p base (t.move p.unpaused base.calls.length) ∨
      (s.move p base.calls.length).Twin p base t := by
  cases hover : t.isOver base.calls.length with
  | true =>
    rw [Solo.move_of_isOver (h.isOver.trans hover)]
    exact .inr h
  | false =>
    obtain ⟨f, fs, hb⟩ := h.inside hover
    by_cases hkept : ∀ i rest, f.todo = i :: rest → i.opcode.isPause = false
    · exact .inl (h.kept hb hcalm hbase hkept)
    · simp only [not_forall] at hkept
      obtain ⟨i, rest, hi, hpause⟩ := hkept
      exact .inr (h.pause hb hi (by simpa using hpause)).1

/-- One instruction without pauses is some with them: the pauses before it come first. -/
lemma Solo.Twin.catchUp (h : s.Twin p base t) (hcalm : p.Calm) (hbase : base.calls ≠ []) :
    ∃ n, (s.after p base.calls.length n).Twin p base (t.move p.unpaused base.calls.length) := by
  cases hover : t.isOver base.calls.length with
  | true =>
    rw [Solo.move_of_isOver hover]
    exact ⟨0, h⟩
  | false =>
    obtain ⟨f, fs, hb⟩ := h.inside hover
    generalize htodo : f.todo = todo at hb
    induction todo generalizing s f with
    | nil => exact ⟨1, h.kept hb hcalm hbase (by simp [htodo])⟩
    | cons i rest ih =>
      cases hpause : i.opcode.isPause with
      | false =>
        refine ⟨1, h.kept hb hcalm hbase fun j rest' hj => ?_⟩
        cases htodo.symm.trans hj
        exact hpause
      | true =>
        obtain ⟨htwin, f', htodo', hb'⟩ := h.pause hb htodo hpause
        obtain ⟨n, hn⟩ := ih htwin f' hb' htodo'
        exact ⟨n + 1, by rw [Solo.after_succ]; exact hn⟩

/-- Whatever is reached with pauses is reached without them. -/
lemma Solo.Twin.forth (h : s.Twin p base t) (hcalm : p.Calm) (hbase : base.calls ≠ []) (n : Nat) :
    ∃ k, (s.after p base.calls.length n).Twin p base (t.after p.unpaused base.calls.length k) := by
  induction n generalizing s t with
  | zero => exact ⟨0, h⟩
  | succ n ih =>
    rw [Solo.after_succ]
    rcases h.move hcalm hbase with h' | h'
    · obtain ⟨k, hk⟩ := ih h'
      exact ⟨k + 1, by rw [Solo.after_succ]; exact hk⟩
    · exact ih h'

/-- And the other way round. -/
lemma Solo.Twin.back (h : s.Twin p base t) (hcalm : p.Calm) (hbase : base.calls ≠ []) (n : Nat) :
    ∃ k, (s.after p base.calls.length k).Twin p base (t.after p.unpaused base.calls.length n) := by
  induction n generalizing s t with
  | zero => exact ⟨0, h⟩
  | succ n ih =>
    obtain ⟨j, hj⟩ := h.catchUp hcalm hbase
    obtain ⟨k, hk⟩ := ih hj
    exact ⟨j + k, by rw [Solo.after_add, Solo.after_succ]; exact hk⟩

/-- Back at the caller the two machines are the same. -/
lemma Beside.eq_of_nil (h : Beside p base [] m n) : m = n := by
  have hother := h.other
  rw [wake_of_running (h.back rfl).1, wake_of_running (h.back rfl).2] at hother
  exact h.place.symm.trans hother.symm

lemma Solo.Twin.end_cases (h : s.Twin p base t) (hover : s.isOver base.calls.length = true) :
    (t.machine.status.isLive = false ∧ s.machine = t.machine.moved s.machine) ∨
      (t.machine.status.isLive = true ∧ s.machine = t.machine) := by
  rcases h.machines with ⟨hend, hsame⟩ | ⟨fs, hb⟩
  · exact .inl ⟨by rw [hsame] at hend; exact hend, hsame⟩
  · cases fs with
    | nil => exact .inr ⟨isLive_of_live hb.otherLive, hb.eq_of_nil⟩
    | cons f fs =>
      rw [hb.notOver.1] at hover
      cases hover

/-- What two programs have done that are the same without pauses. -/
lemma Solo.Twin.same {p q : Program} {s' : Solo} (h : s.Twin p base t) (h' : s'.Twin q base t) :
    s.Same base.calls.length s' := by
  have hover := h.isOver.trans h'.isOver.symm
  refine ⟨h.world.trans h'.world.symm, h.deeds.trans h'.deeds.symm, hover, fun hs => ?_, fun hs hlive => ?_⟩
  · rcases h.end_cases hs with ⟨hend, hsame⟩ | ⟨hlive, hsame⟩
    · rcases h'.end_cases (hover.symm.trans hs) with ⟨-, hsame'⟩ | ⟨hlive', -⟩
      · rw [hsame']
        exact hsame
      · rw [hlive'] at hend
        cases hend
    · rcases h'.end_cases (hover.symm.trans hs) with ⟨hend', -⟩ | ⟨-, hsame'⟩
      · rw [hlive] at hend'
        cases hend'
      · rw [hsame, hsame', moved_self]
  · rcases h.end_cases hs with ⟨hend, hsame⟩ | ⟨hlive', hsame⟩
    · rw [hsame, moved_status, hend] at hlive
      cases hlive
    · rcases h'.end_cases (hover.symm.trans hs) with ⟨hend', -⟩ | ⟨-, hsame'⟩
      · rw [hlive'] at hend'
        cases hend'
      · exact hsame.trans hsame'.symm

/-! ### Calls -/

/-- A custom block is called: the machine is at the start of a new activation. -/
def called (m : Machine) (i : Nat) (arguments : List Value) : Machine :=
  (m.enter i arguments false).put 0 m.stack

/-- The first frame of a call. -/
def Frame.first (i : Nat) (arguments : List Value) (is : List Instruction) : Frame :=
  ⟨i, arguments, false, [], is, []⟩

lemma called_eq (m : Machine) (i : Nat) (arguments : List Value) (is : List Instruction) :
    m.called i arguments = m.moved (m.within [.first i arguments is]) := by
  simp [called, enter, put, moved, within, addressIn, loopsIn, callsIn, Frame.first, Frame.loops,
    loopsAt]

/-- A machine that has just been called is its own twin. -/
lemma twin_called {i : Nat} {code : Code} (hcalm : p.Calm)
    (hcode : p.code? (.procedure i) = some code) (hm : m.status = .running ∨ m.status = .yielded)
    (hp : m.promise = none) (arguments : List Value) (w : World) :
    Beside p m [.first i arguments code.instructions] (m.called i arguments) (m.called i arguments) ∧
      Solo.Twin p m ⟨m.called i arguments, w, []⟩ ⟨m.called i arguments, w, []⟩ := by
  have hin : (Frame.first i arguments code.instructions).In p :=
    ⟨hcalm.holds i code hcode, hcalm.nested i code hcode, rfl⟩
  have hplace := called_eq m i arguments code.instructions
  have hother := called_eq m i arguments (Code.unpaused code.instructions)
  have hb : Beside p m [.first i arguments code.instructions] (m.called i arguments)
      (m.called i arguments) := by
    refine ⟨by simpa using hin, ?_, ?_, hm, hm, by simp, hp⟩
    · rw [hplace, moved_moved]
    · conv_lhs => rw [hother]
      rfl
  exact ⟨hb, rfl, rfl, .inr ⟨_, hb⟩⟩

/-- Two programs that are the same without pauses do the same when a custom block is called. -/
lemma same_of_unpaused {q : Program} (hpq : p.unpaused = q.unpaused) (hp : p.Calm) (hq : q.Calm)
    {i : Nat} (hbody : (p.code? (.procedure i)).isSome) (hcalls : m.calls ≠ [])
    (hm : m.status = .running ∨ m.status = .yielded) (hpromise : m.promise = none)
    (arguments : List Value) (w : World) (n : Nat) :
    ∃ k, Solo.Same m.calls.length (Solo.after p m.calls.length n ⟨m.called i arguments, w, []⟩)
      (Solo.after q m.calls.length k ⟨m.called i arguments, w, []⟩) := by
  obtain ⟨code, hcode⟩ := Option.isSome_iff_exists.1 hbody
  obtain ⟨code', hcode'⟩ : ∃ code', q.code? (.procedure i) = some code' := by
    have hcodes := p.code?_unpaused i
    rw [hpq, q.code?_unpaused, hcode] at hcodes
    cases hc : q.code? (.procedure i) with
    | none => rw [hc] at hcodes; cases hcodes
    | some code' => exact ⟨code', rfl⟩
  obtain ⟨j, hj⟩ := (twin_called hp hcode hm hpromise arguments w).2.forth hp hcalls n
  obtain ⟨k, hk⟩ := (twin_called hq hcode' hm hpromise arguments w).2.back hq hcalls j
  rw [← hpq] at hk
  exact ⟨k, hj.same hk⟩

/-! ### In warp -/

/-- The outermost activation is in warp. -/
def Warped (fs : List Frame) : Prop := ∃ g, fs.getLast? = some g ∧ g.warp = true

lemma Warped.depth (h : Warped fs) (base : Machine) : (base.within fs).warpDepth ≠ 0 := by
  obtain ⟨g, hg, hw⟩ := h
  have hpos : 0 < fs.countP (·.warp) := List.countP_pos_iff.2 ⟨g, List.mem_of_getLast? hg, hw⟩
  simp only [within]
  omega

lemma Onward.warped {fs' : List Frame} (h : Onward f fs fs') (hw : Warped (f :: fs)) :
    fs' = [] ∨ Warped fs' := by
  obtain ⟨g, hg, hgw⟩ := hw
  cases fs with
  | nil =>
    obtain rfl : f = g := by simpa using hg
    rcases h with rfl | ⟨f', hf', rfl | ⟨k, rfl⟩⟩
    · exact .inl rfl
    · exact .inr ⟨f', rfl, hf' hgw⟩
    · exact .inr ⟨f', rfl, hf' hgw⟩
  | cons k fs =>
    rw [List.getLast?_cons_cons] at hg
    rcases h with rfl | ⟨f', -, rfl | ⟨l, rfl⟩⟩
    · exact .inr ⟨g, hg, hgw⟩
    · exact .inr ⟨g, by rw [List.getLast?_cons_cons]; exact hg, hgw⟩
    · exact .inr ⟨g, by rw [List.getLast?_cons_cons, List.getLast?_cons_cons]; exact hg, hgw⟩

/-- Inside of activations of which the outermost is in warp. -/
def Solo.Driven (p : Program) (base : Machine) (s : Solo) : Prop :=
  ∃ fs n, Beside p base fs s.machine n ∧ Warped fs

/-- In warp an instruction does not end the slice, unless all is over. -/
lemma Solo.Driven.move (h : s.Driven p base) (hcalm : p.Calm) (hbase : base.calls ≠ []) :
    (s.move p base.calls.length).isOver base.calls.length = true ∨
      (s.move p base.calls.length).Driven p base ∧
        (s.move p base.calls.length).machine.status = .running := by
  obtain ⟨fs, n, hb, hw⟩ := h
  cases fs with
  | nil => obtain ⟨g, hg, -⟩ := hw; cases hg
  | cons f fs =>
    have hdepth := hw.depth base
    have hover : s.isOver base.calls.length = false := (hb.isOver s.world s.deeds).1
    by_cases hkept : ∀ i rest, f.todo = i :: rest → i.opcode.isPause = false
    · have hjoint := hb.step hcalm hbase hkept s.world
      rw [Solo.move_of_live hover hb.live]
      rcases hjoint.outcome with ⟨hend, -⟩ | ⟨fs', hb', honward⟩
      · exact .inl (by simp [Solo.isOver, hend])
      · rcases honward.warped hw with rfl | hw'
        · exact .inl (hb'.isOver _ _).1
        · exact .inr ⟨⟨fs', _, hb', hw'⟩, hb'.live.resolve_right fun hy => hdepth (hjoint.yields hy)⟩
    · simp only [not_forall] at hkept
      obtain ⟨i, rest, hi, hpause⟩ := hkept
      obtain ⟨-, hyield, f', -, hwarp, hb'⟩ := hb.pause hi (by simpa using hpause) s.world
      rw [Solo.move_of_live hover hb.live]
      refine .inr ⟨⟨f' :: fs, n, hb', ?_⟩, hb'.live.resolve_right fun hy => hdepth (hyield hy)⟩
      have honward : Onward f fs (f' :: fs) := .inr ⟨f', fun hf => hwarp (.inl hf), .inl rfl⟩
      exact (honward.warped hw).resolve_left (by simp)

lemma Solo.Driven.after (h : s.Driven p base) (hcalm : p.Calm) (hbase : base.calls ≠ []) (n : Nat) :
    (s.after p base.calls.length (n + 1)).isOver base.calls.length = true ∨
      (s.after p base.calls.length (n + 1)).machine.status = .running := by
  induction n generalizing s with
  | zero => exact (h.move hcalm hbase).imp id And.right
  | succ n ih =>
    rw [Solo.after_succ]
    rcases h.move hcalm hbase with hover | ⟨hdriven, -⟩
    · rw [Solo.after_of_isOver hover]
      exact .inl hover
    · exact ih hdriven

/-- A machine that does not give way inside has slices that go on until all is over. -/
lemma Solo.unbroken {depth : Nat} (hs : s.machine.status = .running ∨ s.machine.status = .yielded)
    (hover : s.isOver depth = false)
    (h : ∀ n, (s.after p depth (n + 1)).isOver depth = true ∨
      (s.after p depth (n + 1)).machine.status = .running) : s.Unbroken p depth := by
  intro fuel
  -- the steps of a slice are those of the run as long as nothing before them is over
  have hslice : ∀ n, (∀ k < n, (s.after p depth (k + 1)).isOver depth = false) →
      steps p (n + 1) s.machine.wake s.world =
        ((s.after p depth (n + 1)).machine, (s.after p depth (n + 1)).world) := by
    intro n hn
    refine Solo.steps_eq_after hs (fun k hk => ?_) fun k hk =>
      (h k).resolve_left (by rw [hn k hk]; simp)
    cases k with
    | zero => exact hover
    | succ k => exact hn k hk
  by_cases hex : ∃ n ≤ fuel, (s.after p depth (n + 1)).isOver depth = true
  · classical
    obtain ⟨hle, hfirst⟩ := Nat.find_spec hex
    refine ⟨Nat.find hex, hle, hslice _ fun k hk => ?_, .inl hfirst⟩
    have hnot := Nat.find_min hex hk
    simp only [not_and, Bool.not_eq_true] at hnot
    exact hnot (Nat.le_of_lt (Nat.lt_of_lt_of_le hk hle))
  · simp only [not_exists, not_and, Bool.not_eq_true] at hex
    refine ⟨fuel, Nat.le_refl _, hslice fuel fun k hk => hex k (Nat.le_of_lt hk), .inr ⟨rfl, ?_⟩⟩
    exact (h fuel).resolve_left (by rw [hex fuel (Nat.le_refl _)]; simp)

lemma exists_beside {M : Machine} (hfs : ∀ g ∈ fs, g.In p) (hrun : M.status = .running)
    (hp : M.promise = none) : ∃ n, Beside p base fs (M.moved (base.within fs)) n :=
  ⟨M.moved (base.within (fs.map Frame.unpaused)), hfs, rfl, rfl, .inl hrun, .inl hrun,
    fun _ => ⟨hrun, hrun⟩, hp⟩

/-- A custom block that starts with going into warp gives way nowhere. -/
lemma running_called {i : Nat} {code : Code} {rest : List Instruction} (hcalm : p.Calm)
    (hcode : p.code? (.procedure i) = some code)
    (hwarp : code.instructions = ⟨.start, []⟩ :: ⟨.warp, []⟩ :: rest) (hcalls : m.calls ≠ [])
    (hm : m.status = .running ∨ m.status = .yielded) (hp : m.promise = none)
    (arguments : List Value) (w : World) (n : Nat) :
    (Solo.after p m.calls.length (n + 1) ⟨m.called i arguments, w, []⟩).isOver m.calls.length = true ∨
      (Solo.after p m.calls.length (n + 1) ⟨m.called i arguments, w, []⟩).machine.status = .running := by
  have hb := (twin_called hcalm hcode hm hp arguments w).1
  set f := Frame.first i arguments code.instructions with hf
  have hin : f.In p := hb.frames f (by simp)
  have hM := hb.wake_promise
  have hstart := @step_start p m (m.called i arguments).wake f [] ⟨.start, []⟩ (⟨.warp, []⟩ :: rest) w hin
    hwarp rfl
  rw [← hb.wake] at hstart
  set f₁ := f.put (f.done ++ [⟨.start, []⟩]) (⟨.warp, []⟩ :: rest) f.kinds
  have hin₁ : f₁.In p := hin.put (by simp [hf, Frame.first, hwarp]) rfl
  have hnext := @step_warp p m (m.called i arguments).wake f₁ [] ⟨.warp, []⟩ rest w hin₁ rfl rfl
  have hin₂ : ({ f₁.put (f₁.done ++ [⟨.warp, []⟩]) rest f₁.kinds with warp := true } : Frame).In p := by
    obtain ⟨hholds, hnested, hkinds⟩ := @Frame.In.put p f₁ hin₁ (f₁.done ++ [⟨.warp, []⟩]) rest f₁.kinds
      (by simp [f₁, Frame.put]) rfl
    exact ⟨hholds, hnested, hkinds⟩
  generalize hwake : (m.called i arguments).wake = M at hM hstart hnext
  have hrun : M.status = .running := by rw [← hwake]; rfl
  set s : Solo := ⟨m.called i arguments, w, []⟩
  have h₁ : (s.move p m.calls.length).machine = M.moved (m.within [f₁]) ∧
      (s.move p m.calls.length).world = w := Solo.move_eq (hb.isOver w []).1 hm (by rw [hwake]; exact hstart)
  obtain ⟨n₁, hb₁⟩ := @exists_beside p m [f₁] M (by simpa using hin₁) hrun hM
  have hrun₁ : (s.move p m.calls.length).machine.status = .running := by rw [h₁.1]; exact hrun
  have h₂ : ((s.move p m.calls.length).move p m.calls.length).machine = _ ∧ _ = w :=
    Solo.move_eq (by rw [← h₁.1] at hb₁; exact (hb₁.isOver _ _).1) (.inl hrun₁)
      (by rw [wake_of_running hrun₁, h₁.1, h₁.2]; exact hnext)
  obtain ⟨n₂, hb₂⟩ := @exists_beside p m _ M (List.forall_mem_singleton.2 hin₂) hrun hM
  rw [← h₂.1] at hb₂
  rw [Solo.after_succ]
  cases n with
  | zero => exact .inr hrun₁
  | succ n =>
    rw [Solo.after_succ]
    cases n with
    | zero =>
      refine .inr ?_
      change ((s.move p m.calls.length).move p m.calls.length).machine.status = .running
      rw [h₂.1]
      exact hrun
    | succ n => exact Solo.Driven.after ⟨_, n₂, hb₂, _, rfl, rfl⟩ hcalm hcalls n

/-- A custom block that starts with going into warp runs in one slice. -/
lemma unbroken_called {i : Nat} {code : Code} {rest : List Instruction} (hcalm : p.Calm)
    (hcode : p.code? (.procedure i) = some code)
    (hwarp : code.instructions = ⟨.start, []⟩ :: ⟨.warp, []⟩ :: rest) (hcalls : m.calls ≠ [])
    (hm : m.status = .running ∨ m.status = .yielded) (hp : m.promise = none)
    (arguments : List Value) (w : World) (n : Nat)
    (hn : (Solo.after p m.calls.length n ⟨m.called i arguments, w, []⟩).isOver m.calls.length = false) :
    (Solo.after p m.calls.length n ⟨m.called i arguments, w, []⟩).Unbroken p m.calls.length := by
  have hrun := running_called hcalm hcode hwarp hcalls hm hp arguments w
  refine Solo.unbroken ?_ hn fun k => ?_
  · cases n with
    | zero => exact hm
    | succ n => exact .inl ((hrun n).resolve_left (by rw [hn]; simp))
  · rw [← Solo.after_add]
    exact hrun (n + k)

end

end Machine

end Blockwork
