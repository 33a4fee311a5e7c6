import Blockwork.Proofs.Code.Pauses
import Blockwork.Proofs.Machine.Activations

/-!
A program beside the same program without pauses. Without them the same activations stand at other
addresses, with the same loops open; so an instruction that is not a pause does the same in both
programs, and a pause does nothing but to tell when the slice ends.

All of this is about custom blocks that wait for nothing.
-/

namespace Blockwork

namespace Program

/-- The custom blocks wait for nothing. -/
structure Calm (p : Program) : Prop where
  holds : ∀ i code, p.code? (.procedure i) = some code → p.Holds (.procedure i) code.instructions
  nested : ∀ i code, p.code? (.procedure i) = some code →
    Code.Nested (code.instructions.map (·.opcode))
  marks : ∀ i code, p.code? (.procedure i) = some code → ∀ x ∈ code.instructions,
    x.opcode ≠ .checkpoint
  natives : ∀ i code, p.code? (.procedure i) = some code → ∀ x ∈ code.instructions,
    x.opcode = .exec → ∀ n, p.tables.natives[x.operand]? = some n → n.waits = false

lemma Holds.unpaused {p : Program} {i : Nat} {is : List Instruction} (h : p.Holds (.procedure i) is) :
    p.unpaused.Holds (.procedure i) (Code.unpaused is) where
  code := by rw [code?_unpaused, h.code, Option.map_some, Code.instructions_ofInstructions h.full]
  full := Code.allFull_unpaused h.full

end Program

namespace Machine

namespace Frame

variable {p : Program} {f : Frame}

/-- The same activation without pauses. -/
def unpaused (f : Frame) : Frame :=
  { f with warp := false, done := Code.unpaused f.done, todo := Code.unpaused f.todo }

lemma In.unpaused (h : f.In p) : f.unpaused.In p.unpaused where
  holds := by
    simp only [Frame.unpaused, ← Code.unpaused_append]
    exact h.holds.unpaused
  nested := by
    simp only [Frame.unpaused, ← Code.unpaused_append, Code.map_unpaused]
    exact h.nested.active
  kinds := by
    simp only [Frame.unpaused, Code.map_unpaused, Code.length_opened_active]
    exact h.kinds

end Frame

/-! ### One step beside the other -/

/-- A machine inside of some activations, and one inside of the same activations without pauses. They
may differ in whether they gave way. -/
structure Beside (p : Program) (base : Machine) (fs : List Frame) (m n : Machine) : Prop where
  frames : ∀ f ∈ fs, f.In p
  place : m.moved (base.within fs) = m
  other : n.wake = m.wake.moved (base.within (fs.map Frame.unpaused))
  live : m.status = .running ∨ m.status = .yielded
  otherLive : n.status = .running ∨ n.status = .yielded
  /-- Who is back at the caller has not given way on the way. -/
  back : fs = [] → m.status = .running ∧ n.status = .running
  promise : m.promise = none

/-- The activations after a step: the innermost one goes on, calls another, or is over. -/
def Onward (f : Frame) (fs fs' : List Frame) : Prop :=
  fs' = fs ∨ ∃ f', (f.warp = true → f'.warp = true) ∧ (fs' = f' :: fs ∨ ∃ g, fs' = g :: f' :: fs)

lemma onward_put (f : Frame) (fs : List Frame) (xs ys : List Instruction) (ks : List LoopKind) :
    Onward f fs (f.put xs ys ks :: fs) :=
  .inr ⟨f.put xs ys ks, fun h => h, .inl rfl⟩

lemma onward_call (f g : Frame) (fs : List Frame) (xs ys : List Instruction) (ks : List LoopKind) :
    Onward f fs (g :: f.put xs ys ks :: fs) :=
  .inr ⟨f.put xs ys ks, fun h => h, .inr ⟨g, rfl⟩⟩

/-- What a step leads to in both programs: the same world, and machines that are again beside each
other or both ended in the same way. -/
structure Joint (p : Program) (base : Machine) (f : Frame) (fs : List Frame) (x y : Machine × World) :
    Prop where
  world : x.2 = y.2
  outcome : (x.1.status.isLive = false ∧ x.1 = y.1.moved x.1) ∨
    ∃ fs', Beside p base fs' x.1 y.1 ∧ Onward f fs fs'
  yields : x.1.status = .yielded → (base.within (f :: fs)).warpDepth = 0

section

variable {p : Program} {base m : Machine} {f : Frame} {fs fs' : List Frame} {w : World}

lemma joint_of_eq {x y : Machine × World} {m' : Machine} {w' : World}
    (hx : x = (m'.moved (base.within fs'), w'))
    (hy : y = (m'.moved (base.within (fs'.map Frame.unpaused)), w')) (hrun : m'.status = .running)
    (hp : m'.promise = none) (hfs : ∀ g ∈ fs', g.In p) (honward : Onward f fs fs') :
    Joint p base f fs x y := by
  subst hx hy
  refine ⟨rfl, .inr ⟨fs', ⟨hfs, rfl, rfl, .inl hrun, .inl hrun, fun _ => ⟨hrun, hrun⟩, hp⟩, honward⟩, fun h => ?_⟩
  rw [moved_status, hrun] at h
  cases h

lemma joint_of_end {x y : Machine × World} {m' u v : Machine} {w' : World}
    (hx : x = (m'.moved u, w')) (hy : y = (m'.moved v, w')) (hend : m'.status.isLive = false) :
    Joint p base f fs x y := by
  subst hx hy
  refine ⟨rfl, .inl ⟨hend, rfl⟩, fun h => ?_⟩
  rw [moved_status] at h
  rw [h] at hend
  cases hend


lemma joint_put {x y : Machine × World} {m' : Machine} {w' : World} {xs ys : List Instruction}
    {ks : List LoopKind} (h : f.In p) (hfs : ∀ g ∈ fs, g.In p) (hcode : xs ++ ys = f.done ++ f.todo)
    (hks : ks.length = (Code.opened (xs.map (·.opcode))).length)
    (hx : x = (m'.moved (base.within (f.put xs ys ks :: fs)), w'))
    (hy : y = (m'.moved (base.within (f.unpaused.put (Code.unpaused xs) (Code.unpaused ys) ks ::
      fs.map Frame.unpaused)), w')) (hrun : m'.status = .running) (hp : m'.promise = none) :
    Joint p base f fs x y :=
  joint_of_eq hx hy hrun hp (List.forall_mem_cons.2 ⟨h.put hcode hks, hfs⟩)
    (onward_put f fs xs ys ks)

/-- The machines are in the same round of the same loop. -/
lemma roundsDone_unpaused (base : Machine) {fs : List Frame} (h : ∀ f ∈ fs, f.In p) :
    roundsDone (base.loopsIn fs) = roundsDone (base.loopsIn (fs.map Frame.unpaused)) := by
  refine roundsDone_congr ?_
  induction fs with
  | nil => rfl
  | cons f fs ih =>
    obtain ⟨hf, hfs⟩ := List.forall_mem_cons.1 h
    simp only [List.map_cons, loopsIn, List.map_append, f.map_kind_loops hf.kinds,
      f.unpaused.map_kind_loops hf.unpaused.kinds, ih hfs]
    rfl

/-! #### Brackets and their partners -/

variable {i : Instruction} {rest : List Instruction}

lemma split_of_map {is : List Instruction} {xs ys : List Opcode} {op : Opcode}
    (h : is.map (·.opcode) = xs ++ op :: ys) :
    ∃ js j rest, is = js ++ j :: rest ∧ js.map (·.opcode) = xs ∧ j.opcode = op ∧
      rest.map (·.opcode) = ys := by
  obtain ⟨js, ks, rfl, hjs, hks⟩ := List.map_eq_append_iff.1 h
  obtain ⟨j, rest, rfl, hj, hrest⟩ := List.map_eq_cons_iff.1 hks
  exact ⟨js, j, rest, rfl, hjs, hj, hrest⟩

lemma Frame.In.site (h : f.In p) (hi : f.todo = i :: rest) :
    Code.Site (f.done.map (·.opcode)) i.opcode (rest.map (·.opcode)) := by
  have hnested := h.nested
  rw [hi, List.map_append, List.map_cons] at hnested
  exact hnested.site rfl

/-- The two programs do the same from the innermost activation on. -/
def Agree (p : Program) (base m : Machine) (f : Frame) (fs : List Frame) (w : World) : Prop :=
  Joint p base f fs (step p (m.moved (base.within (f :: fs))) w)
    (step p.unpaused (m.moved (base.within (f.unpaused :: fs.map Frame.unpaused))) w)

section

variable (h : f.In p) (hfs : ∀ g ∈ fs, g.In p) (hi : f.todo = i :: rest) (hrun : m.status = .running)
  (hp : m.promise = none)

include h hfs hi hrun hp

lemma agree_branch (hop : i.opcode = .branch) : Agree p base m f fs w := by
  have hsite := h.site hi
  rw [hop] at hsite
  obtain ⟨xs, close, ys, hmap, hx, hclose⟩ := hsite
  obtain ⟨xs, j, rest, rfl, rfl, hj, -⟩ := split_of_map hmap
  rw [← hj] at hclose
  have hikept : i.opcode.isPause = false := by rw [hop]; rfl
  have hjkept : j.opcode.isPause = false := by rcases hclose with h | h <;> rw [h] <;> rfl
  have hb : Bracket i xs j := ⟨.inl hop, hclose, hx⟩
  have hb' : Bracket i (Code.unpaused xs) j :=
    ⟨.inl hop, hclose, by rw [Code.map_unpaused]; exact hx.active⟩
  have hi' : f.unpaused.todo = i :: (Code.unpaused xs ++ j :: Code.unpaused rest) := by
    simp [Frame.unpaused, hi, Code.unpaused_cons hikept, Code.unpaused_cons hjkept]
  have hx := @step_branch p base m f fs i xs rest w j h hi hop hb
  have hy := @step_branch p.unpaused base m f.unpaused (fs.map Frame.unpaused) i _ _ w j h.unpaused hi'
    hop hb'
  cases hv : (m.stack.head?.getD .empty).toBool with
  | true =>
    simp only [hv, if_true] at hx hy
    refine joint_put h hfs (by simp [hi]) ?_ hx ?_ hrun hp
    · rw [opened_next (by rw [hop]; rfl) (by simp [hop])]
      exact h.kinds
    · rw [hy]
      simp [Frame.unpaused, Code.unpaused_cons hikept, Code.unpaused_cons hjkept]
  | false =>
    simp only [hv, Bool.false_eq_true, if_false] at hx hy
    refine joint_put h hfs (by simp [hi]) ?_ hx ?_ hrun hp
    · rw [hb.opened]
      exact h.kinds
    · rw [hy]
      simp [Frame.unpaused, Code.unpaused_cons hikept, Code.unpaused_cons hjkept]

lemma agree_otherwise (hop : i.opcode = .otherwise) : Agree p base m f fs w := by
  have hsite := h.site hi
  rw [hop] at hsite
  obtain ⟨xs, ys, hmap, hx⟩ := hsite
  obtain ⟨xs, j, rest, rfl, rfl, hj, -⟩ := split_of_map hmap
  have hikept : i.opcode.isPause = false := by rw [hop]; rfl
  have hjkept : j.opcode.isPause = false := by rw [hj]; rfl
  have hb : Bracket i xs j := ⟨.inr hop, .inr hj, hx⟩
  have hb' : Bracket i (Code.unpaused xs) j :=
    ⟨.inr hop, .inr hj, by rw [Code.map_unpaused]; exact hx.active⟩
  have hi' : f.unpaused.todo = i :: (Code.unpaused xs ++ j :: Code.unpaused rest) := by
    simp [Frame.unpaused, hi, Code.unpaused_cons hikept, Code.unpaused_cons hjkept]
  refine joint_put h hfs (by simp [hi]) ?_ (step_otherwise h hi hop hb) ?_ hrun hp
  · rw [hb.opened]
    exact h.kinds
  · rw [step_otherwise h.unpaused hi' hop hb']
    simp [Frame.unpaused, Code.unpaused_cons hikept, Code.unpaused_cons hjkept]

lemma agree_open {kind : LoopKind} (hop : openKind? i.opcode = some kind) :
    Agree p base m f fs w := by
  have hopen : i.opcode.opensLoop = true ∧ i.opcode.isPause = false := by
    generalize i.opcode = op at hop
    cases op <;> simp_all [openKind?, Opcode.opensLoop, Opcode.isPause]
  have hi' : f.unpaused.todo = i :: Code.unpaused rest := by
    simp [Frame.unpaused, hi, Code.unpaused_cons hopen.2]
  refine joint_put h hfs (by simp [hi]) ?_ (step_open h hi hop) ?_ hrun hp
  · rw [opened_open hopen.1, List.length_cons, List.length_cons, h.kinds]
  · rw [step_open h.unpaused hi' hop]
    simp [Frame.unpaused, Code.unpaused_cons hopen.2]

lemma agree_times (hop : i.opcode = .times) : Agree p base m f fs w := by
  have hsite := h.site hi
  rw [hop] at hsite
  obtain ⟨xs, ys, hmap, hbody⟩ := hsite
  obtain ⟨xs, j, rest, rfl, rfl, hj, -⟩ := split_of_map hmap
  have hx : Code.Nested (xs.map (·.opcode)) := by
    cases hbody with
    | plain _ hx => exact hx
  have hx' : Code.Nested ((Code.unpaused xs).map (·.opcode)) := by
    rw [Code.map_unpaused]
    exact hx.active
  have hikept : i.opcode.isPause = false := by rw [hop]; rfl
  have hjkept : j.opcode.isPause = false := by rw [hj]; rfl
  have hi' : f.unpaused.todo = i :: (Code.unpaused xs ++ j :: Code.unpaused rest) := by
    simp [Frame.unpaused, hi, Code.unpaused_cons hikept, Code.unpaused_cons hjkept]
  have hstep := @step_times p base m f fs i xs rest w j h hi hop hj hx
  have hother := @step_times p.unpaused base m f.unpaused (fs.map Frame.unpaused) i _ _ w j h.unpaused
    hi' hop hj hx'
  by_cases hv : Number.round (m.stack.head?.getD .empty).toNumber ≥ 1
  · simp only [hv, if_true] at hstep hother
    refine joint_put h hfs (by simp [hi]) ?_ hstep ?_ hrun hp
    · rw [opened_open (by rw [hop]; rfl), List.length_cons, List.length_cons, h.kinds]
    · rw [hother]
      simp [Frame.unpaused, Code.unpaused_cons hikept, Code.unpaused_cons hjkept]
  · simp only [hv, if_false] at hstep hother
    refine joint_put h hfs (by simp [hi]) ?_ hstep ?_ hrun hp
    · rw [opened_afterLoop hj (.plain (.inr hop) hx)]
      exact h.kinds
    · rw [hother]
      simp [Frame.unpaused, Code.unpaused_cons hikept, Code.unpaused_cons hjkept]

lemma agree_untilTest (hop : i.opcode = .untilTest) : Agree p base m f fs w := by
  have hsite := h.site hi
  rw [hop] at hsite
  obtain ⟨before, xs, ys, zs, hpre, hmap, hx, hy⟩ := hsite
  obtain ⟨before, o, xs, hdone, rfl, ho, rfl⟩ := split_of_map hpre
  obtain ⟨ys, j, rest, rfl, rfl, hj, -⟩ := split_of_map hmap
  have hnested : ∀ {zs : List Instruction}, Code.Nested (zs.map (·.opcode)) →
      Code.Nested ((Code.unpaused zs).map (·.opcode)) := fun hz => by
    rw [Code.map_unpaused]
    exact hz.active
  have hokept : o.opcode.isPause = false := by rw [ho]; rfl
  have hikept : i.opcode.isPause = false := by rw [hop]; rfl
  have hjkept : j.opcode.isPause = false := by rw [hj]; rfl
  have hi' : f.unpaused.todo = i :: (Code.unpaused ys ++ j :: Code.unpaused rest) := by
    simp [Frame.unpaused, hi, Code.unpaused_cons hikept, Code.unpaused_cons hjkept]
  have hdone' : f.unpaused.done = Code.unpaused before ++ o :: Code.unpaused xs := by
    simp [Frame.unpaused, hdone, Code.unpaused_cons hokept]
  have hopened := @opened_inLoop xs before o (by rw [ho]; rfl) (.inl hx)
  have hkinds := h.kinds
  rw [hdone, hopened] at hkinds
  obtain ⟨k, ks, hks⟩ := List.exists_cons_of_length_eq_add_one hkinds
  have hstep := @step_untilTest p base m f fs i xs ys rest w before o j k ks h hdone hi ho hop hj hx hy hks
  have hother := @step_untilTest p.unpaused base m f.unpaused (fs.map Frame.unpaused) i _ _ _ w _ o j k ks
    h.unpaused hdone' hi' ho hop hj (hnested hx) (hnested hy) hks
  cases hv : (m.stack.head?.getD .empty).toBool with
  | true =>
    simp only [hv, if_true] at hstep hother
    refine joint_put h hfs (by simp [hi]) ?_ hstep ?_ hrun hp
    · have hsplit : f.done ++ i :: (ys ++ [j]) = before ++ o :: ((xs ++ i :: ys) ++ [j]) := by
        simp [hdone]
      have hbody : Code.LoopBody o.opcode ((xs ++ i :: ys).map (·.opcode)) := by
        rw [ho, List.map_append, List.map_cons, hop]
        exact .tested hx hy
      rw [hsplit, opened_afterLoop hj hbody]
      rw [hks] at hkinds
      simpa using hkinds
    · rw [hother]
      simp [Frame.unpaused, Code.unpaused_cons hikept, Code.unpaused_cons hjkept]
  | false =>
    simp only [hv, Bool.false_eq_true, if_false] at hstep hother
    refine joint_put h hfs (by simp [hi]) ?_ hstep ?_ hrun hp
    · rw [opened_next (by rw [hop]; rfl) (by simp [hop])]
      exact h.kinds
    · rw [hother]
      simp [Frame.unpaused, Code.unpaused_cons hikept, Code.unpaused_cons hjkept]

lemma agree_loopEnd (hop : i.opcode = .loopEnd) : Agree p base m f fs w := by
  have hsite := h.site hi
  rw [hop] at hsite
  obtain ⟨before, opener, xs, hpre, hx⟩ := hsite
  obtain ⟨before, o, xs, hdone, rfl, rfl, rfl⟩ := split_of_map hpre
  have hokept : o.opcode.isPause = false := by
    have := hx.opensLoop
    generalize o.opcode = op at this
    cases op <;> first | rfl | cases this
  have hikept : i.opcode.isPause = false := by rw [hop]; rfl
  have hx' : Code.LoopBody o.opcode ((Code.unpaused xs).map (·.opcode)) := by
    rw [Code.map_unpaused]
    exact hx.active
  have hi' : f.unpaused.todo = i :: Code.unpaused rest := by
    simp [Frame.unpaused, hi, Code.unpaused_cons hikept]
  have hdone' : f.unpaused.done = Code.unpaused before ++ o :: Code.unpaused xs := by
    simp [Frame.unpaused, hdone, Code.unpaused_cons hokept]
  have hkinds := h.kinds
  rw [hdone, @opened_inLoop xs before o hx.opensLoop (.inr hx)] at hkinds
  obtain ⟨k, ks, hks⟩ := List.exists_cons_of_length_eq_add_one hkinds
  rw [hks] at hkinds
  have hstep := @step_loopEnd p base m f fs i xs rest w before o k ks h hdone hi hop hx hks
  have hother := @step_loopEnd p.unpaused base m f.unpaused (fs.map Frame.unpaused) i _ _ w _ o k ks
    h.unpaused hdone' hi' hop hx' hks
  cases hk : nextRound k with
  | none =>
    simp only [hk, Option.elim_none] at hstep hother
    refine joint_put h hfs (by simp [hi]) ?_ hstep ?_ hrun hp
    · have hsplit : f.done ++ [i] = before ++ o :: (xs ++ [i]) := by simp [hdone]
      rw [hsplit, opened_afterLoop hop hx]
      simpa using hkinds
    · rw [hother]
      simp [Frame.unpaused, Code.unpaused_cons hikept]
  | some k' =>
    simp only [hk, Option.elim_some] at hstep hother
    refine joint_put h hfs (by simp [hi, hdone]) ?_ hstep ?_ hrun hp
    · rw [opened_open hx.opensLoop]
      simpa using hkinds
    · rw [hother]
      simp [Code.unpaused_cons hikept, Code.unpaused_cons hokept]

lemma agree_halt (hbase : base.calls ≠ []) (hop : i.opcode = .halt) : Agree p base m f fs w := by
  have hi' : f.unpaused.todo = i :: Code.unpaused rest := by
    simp [Frame.unpaused, hi, @Code.unpaused_cons i (by rw [hop]; rfl)]
  exact joint_of_eq (step_halt hbase h hi hop) (step_halt hbase h.unpaused hi' hop) hrun hp hfs
    (.inl rfl)

lemma agree_call (hcalm : p.Calm) (hop : i.opcode = .callProcedure) : Agree p base m f fs w := by
  have hikept : i.opcode.isPause = false := by rw [hop]; rfl
  have hi' : f.unpaused.todo = i :: Code.unpaused rest := by
    simp [Frame.unpaused, hi, Code.unpaused_cons hikept]
  have hnext : (f.put (f.done ++ [i]) rest f.kinds).In p := by
    refine h.put (by simp [hi]) ?_
    rw [opened_next (by rw [hop]; rfl) (by simp [hop])]
    exact h.kinds
  have hmap : (f.put (f.done ++ [i]) rest f.kinds).unpaused =
      f.unpaused.put (f.unpaused.done ++ [i]) (Code.unpaused rest) f.unpaused.kinds := by
    simp [Frame.unpaused, Frame.put, Code.unpaused_cons hikept]
  have hcode := p.code?_unpaused i.operand
  cases hbody : p.code? (.procedure i.operand) with
  | none =>
    rw [hbody, Option.map_none] at hcode
    refine joint_of_eq (step_call_none h hi hop hbody) ?_ hrun hp (List.forall_mem_cons.2 ⟨hnext, hfs⟩)
      (onward_put ..)
    rw [List.map_cons, hmap]
    exact step_call_none h.unpaused hi' hop hcode
  | some code =>
    rw [hbody, Option.map_some] at hcode
    have hstep := @step_call p base m f fs i rest w code.instructions h hi hop (by rw [hbody]; rfl)
    have hother := @step_call p.unpaused base m f.unpaused (fs.map Frame.unpaused) i _ w
      (Code.unpaused code.instructions) h.unpaused hi' hop (by rw [hcode]; rfl)
    have hnew : Frame.In p ⟨i.operand, m.pending.head?.getD [], false, [], code.instructions, []⟩ :=
      ⟨hcalm.holds _ _ hbody, hcalm.nested _ _ hbody, rfl⟩
    have hlive := @callStatus_cases (m.moved (base.within (f :: fs))) hrun i.operand
    have hlive' := @callStatus_cases (m.moved (base.within (f.unpaused :: fs.map Frame.unpaused))) hrun
      i.operand
    unfold Agree
    rw [hstep, hother]
    refine ⟨rfl, .inr ⟨_ :: f.put (f.done ++ [i]) rest f.kinds :: fs,
      ⟨List.forall_mem_cons.2 ⟨hnew, List.forall_mem_cons.2 ⟨hnext, hfs⟩⟩, rfl, ?_, ?_, ?_, by simp, hp⟩,
      onward_call ..⟩, ?_⟩
    · rw [List.map_cons, List.map_cons, hmap]
      simp only [wake, moved, hp, ite_self]
      rfl
    · exact hlive.imp id And.left
    · exact hlive'.imp id And.left
    · intro hy
      rcases hlive with hl | hl
      · rw [moved_status, hl] at hy
        cases hy
      · exact hl.2

lemma agree_exec (hbase : base.calls ≠ []) (hcalm : p.Calm) (hop : i.opcode = .exec) :
    Agree p base m f fs w := by
  have hikept : i.opcode.isPause = false := by rw [hop]; rfl
  have hi' : f.unpaused.todo = i :: Code.unpaused rest := by
    simp [Frame.unpaused, hi, Code.unpaused_cons hikept]
  have hkinds : f.kinds.length = (Code.opened ((f.done ++ [i]).map (·.opcode))).length := by
    rw [opened_next (by rw [hop]; rfl) (by simp [hop])]
    exact h.kinds
  have hnext := @next_within base m f fs i rest (by rw [hop]; rfl) (by simp [hop]) m.stack
  have hnext' := @next_within base m f.unpaused (fs.map Frame.unpaused) i (Code.unpaused rest)
    (by rw [hop]; rfl) (by simp [hop]) m.stack
  have hnatives : p.unpaused.tables.natives = p.tables.natives := rfl
  unfold Agree
  rw [step_within h hi, step_within h.unpaused hi', hnext, hnext', hop]
  simp only [execute, hnatives]
  cases hn : p.tables.natives[i.operand]? with
  | none => exact @joint_of_end p base f fs _ _ (m.fault .badNative) _ _ w rfl rfl rfl
  | some n =>
    have hwaits : n.waits = false := by
      refine hcalm.natives f.index _ h.holds.code i ?_ hop n hn
      rw [Code.instructions_ofInstructions h.holds.full, hi]
      simp
    have hcode : f.done ++ [i] ++ rest = f.done ++ f.todo := by simp [hi]
    rcases @callNative_calm n hwaits m hp w with ⟨st, w', hcall⟩ | ⟨st, hcall⟩ | ⟨m', w', hend, hcall⟩
    · refine joint_put h hfs hcode hkinds (hcall _ _) ?_ hrun hp
      rw [Code.unpaused_append, Code.unpaused_cons hikept]
      exact hcall _ _
    · exact joint_of_eq (hcall _ _ _ (stopScript_within hbase m _ _))
        (hcall _ _ _ (stopScript_within hbase m _ _)) hrun hp hfs (.inl rfl)
    · obtain ⟨u, hu⟩ := hcall (base.within (f.put (f.done ++ [i]) rest f.kinds :: fs))
        (Code.extent f.done)
      obtain ⟨v, hv⟩ := hcall (base.within (f.unpaused.put (f.unpaused.done ++ [i]) (Code.unpaused rest)
        f.unpaused.kinds :: fs.map Frame.unpaused)) (Code.extent f.unpaused.done)
      exact joint_of_end hu hv hend

lemma agree_quiet (hop : isQuiet i.opcode = true) : Agree p base m f fs w := by
  have hplain : i.opcode.isPause = false ∧ i.opcode.opensLoop = false ∧ i.opcode ≠ .loopEnd := by
    generalize i.opcode = op at hop
    cases op <;> simp_all [isQuiet, Opcode.isPause, Opcode.opensLoop]
  obtain ⟨hikept, hopen, hend⟩ := hplain
  have hi' : f.unpaused.todo = i :: Code.unpaused rest := by
    simp [Frame.unpaused, hi, Code.unpaused_cons hikept]
  have hnext : (f.put (f.done ++ [i]) rest f.kinds).In p := by
    refine h.put (by simp [hi]) ?_
    rw [opened_next hopen hend]
    exact h.kinds
  have hmap : (f.put (f.done ++ [i]) rest f.kinds).unpaused =
      f.unpaused.put (f.unpaused.done ++ [i]) (Code.unpaused rest) f.unpaused.kinds := by
    simp [Frame.unpaused, Frame.put, Code.unpaused_cons hikept]
  obtain ⟨m', w', hp', hstatus, hexec⟩ := execute_quiet hop p i.operand m
    (base.within (f.put (f.done ++ [i]) rest f.kinds :: fs)) w
  have hstep : step p (m.moved (base.within (f :: fs))) w =
      (m'.moved (base.within (f.put (f.done ++ [i]) rest f.kinds :: fs)), w') := by
    rw [step_within h hi, next_within hopen hend]
    exact hexec p _ _ _ rfl rfl fun _ => rfl
  have hother : step p.unpaused (m.moved (base.within (f.unpaused :: fs.map Frame.unpaused))) w =
      (m'.moved (base.within ((f.put (f.done ++ [i]) rest f.kinds :: fs).map Frame.unpaused)), w') := by
    rw [step_within h.unpaused hi', next_within hopen hend, List.map_cons, hmap]
    refine hexec p.unpaused _ _ _ rfl ?_ fun _ => rfl
    rw [← hmap]
    exact (roundsDone_unpaused base (List.forall_mem_cons.2 ⟨hnext, hfs⟩)).symm
  rcases hstatus with hs | hs
  · exact joint_of_eq hstep hother (hs.trans hrun) (hp'.trans hp)
      (List.forall_mem_cons.2 ⟨hnext, hfs⟩) (onward_put ..)
  · exact joint_of_end hstep hother hs

/-- An instruction that is not a pause does the same in both programs. -/
lemma agree_kept (hbase : base.calls ≠ []) (hcalm : p.Calm) (hkept : i.opcode.isPause = false) :
    Agree p base m f fs w := by
  cases hop : i.opcode
  case branch => exact agree_branch h hfs hi hrun hp hop
  case otherwise => exact agree_otherwise h hfs hi hrun hp hop
  case forever => exact agree_open h hfs hi hrun hp (by rw [hop]; rfl)
  case untilLoop => exact agree_open h hfs hi hrun hp (by rw [hop]; rfl)
  case times => exact agree_times h hfs hi hrun hp hop
  case untilTest => exact agree_untilTest h hfs hi hrun hp hop
  case loopEnd => exact agree_loopEnd h hfs hi hrun hp hop
  case halt => exact agree_halt h hfs hi hrun hp hbase hop
  case callProcedure => exact agree_call h hfs hi hrun hp hcalm hop
  case exec => exact agree_exec h hfs hi hrun hp hbase hcalm hop
  case checkpoint =>
    refine absurd hop (hcalm.marks f.index _ h.holds.code i ?_)
    rw [Code.instructions_ofInstructions h.holds.full, hi]
    simp
  case breakFrame | warp => rw [hop] at hkept; cases hkept
  all_goals exact agree_quiet h hfs hi hrun hp (by rw [hop]; rfl)

end

lemma agree_end (h : f.In p) (hfs : ∀ g ∈ fs, g.In p) (hi : f.todo = []) (hrun : m.status = .running)
    (hp : m.promise = none) (hbase : base.calls ≠ []) : Agree p base m f fs w := by
  have hi' : f.unpaused.todo = [] := by simp [Frame.unpaused, hi]
  exact joint_of_eq (step_end hbase h hi) (step_end hbase h.unpaused hi') hrun hp hfs (.inl rfl)

end

/-! ### Machines beside each other -/

section

variable {p : Program} {base m n : Machine} {f : Frame} {fs : List Frame} {w : World}

lemma Beside.wake (h : Beside p base fs m n) : m.wake = m.wake.moved (base.within fs) := by
  conv_lhs => rw [← h.place]
  rfl

lemma Beside.wake_promise (h : Beside p base fs m n) : m.wake.promise = none := by
  rcases h.live with hm | hm <;> simp [Machine.wake, hm, h.promise]

/-- Two machines at something else than a pause do the same. -/
lemma Beside.step (h : Beside p base (f :: fs) m n) (hcalm : p.Calm) (hbase : base.calls ≠ [])
    (hkept : ∀ i rest, f.todo = i :: rest → i.opcode.isPause = false) (w : World) :
    Joint p base f fs (Machine.step p m.wake w) (Machine.step p.unpaused n.wake w) := by
  obtain ⟨hf, hfs⟩ := List.forall_mem_cons.1 h.frames
  rw [h.other, h.wake]
  cases hi : f.todo with
  | nil => exact agree_end hf hfs hi rfl h.wake_promise hbase
  | cons i rest => exact agree_kept hf hfs hi rfl h.wake_promise hbase hcalm (hkept i rest hi)

/-- A pause moves only the machine that is at it. -/
lemma Beside.pause (h : Beside p base (f :: fs) m n) {i : Instruction} {rest : List Instruction}
    (hi : f.todo = i :: rest) (hpause : i.opcode.isPause = true) (w : World) :
    (Machine.step p m.wake w).2 = w ∧
      ((Machine.step p m.wake w).1.status = .yielded → (base.within (f :: fs)).warpDepth = 0) ∧
      ∃ f', f'.todo = rest ∧ (f.warp = true ∨ i.opcode = .warp → f'.warp = true) ∧
        Beside p base (f' :: fs) (Machine.step p m.wake w).1 n := by
  obtain ⟨hf, hfs⟩ := List.forall_mem_cons.1 h.frames
  have hplain : i.opcode.opensLoop = false ∧ i.opcode ≠ .loopEnd := by
    generalize i.opcode = op at hpause
    cases op <;> simp_all [Opcode.isPause, Opcode.opensLoop]
  have hnext : (f.put (f.done ++ [i]) rest f.kinds).In p := by
    refine hf.put (by simp [hi]) ?_
    rw [opened_next hplain.1 hplain.2]
    exact hf.kinds
  have hsame : ∀ warp, ({ f.put (f.done ++ [i]) rest f.kinds with warp := warp } : Frame).unpaused =
      f.unpaused := by
    intro warp
    simp [Frame.unpaused, Frame.put, hi, Code.unpaused_cons_of_pause hpause]
  have hp := h.wake_promise
  have hbeside : ∀ (warp : Bool) (s : Status), (s = .running ∨ s = .yielded) →
      Beside p base ({ f.put (f.done ++ [i]) rest f.kinds with warp := warp } :: fs)
        ({ m.wake with status := s }.moved
          (base.within ({ f.put (f.done ++ [i]) rest f.kinds with warp := warp } :: fs))) n := by
    intro warp s hs
    refine ⟨List.forall_mem_cons.2 ⟨⟨hnext.holds, hnext.nested, hnext.kinds⟩, hfs⟩, rfl, ?_, hs,
      h.otherLive, by simp, hp⟩
    rw [h.other, List.map_cons, List.map_cons, hsame]
    simp only [Machine.wake, moved, h.promise, ite_self]
  rw [h.wake]
  have hop : i.opcode = .breakFrame ∨ i.opcode = .warp := by
    generalize i.opcode = op at hpause
    cases op <;> simp_all [Opcode.isPause]
  rcases hop with hop | hop
  · rw [step_breakFrame hf hi hop rfl]
    refine ⟨rfl, fun hy => ?_, _, rfl, fun hw => ?_, hbeside f.warp _ ?_⟩
    · by_contra hdepth
      simp [hdepth] at hy
    · exact hw.resolve_right (by simp [hop])
    · split
      · exact .inr rfl
      · exact .inl rfl
  · rw [step_warp hf hi hop]
    exact ⟨rfl, by simp [Machine.wake], _, rfl, fun _ => rfl, hbeside true .running (.inl rfl)⟩

end

end Machine

end Blockwork
