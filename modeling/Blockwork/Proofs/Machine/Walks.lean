import Blockwork.Proofs.Machine.Readings
import Blockwork.Proofs.Machine.Straight

/-!
Walks through the code: runs with the places of the instructions that are done, in order. A machine
does what it does step by step in only one way, so a walk to a state in which it gives way is a whole
slice, and nothing but what stands at those places is done in it.
-/

namespace Blockwork

/-- What gives an operand keeps those that were there. -/
lemma Instruction.not_settles_of_gives {t : Tables} {i : Instruction} (h : i.gives t = 1) :
    i.settles t = false := by
  cases hn : i.native? t with
  | some n =>
    rw [gives_of_native hn] at h
    rw [settles_of_native hn]
    cases hr : n.reports with
    | true => rfl
    | false => simp [hr] at h
  | none =>
    simp only [gives, settles, hn, Option.elim_none] at h ⊢
    cases hop : i.opcode <;> rw [hop] at h <;> first | rfl | cases h

namespace Machine

/-- A run of a machine that runs all the time, with the places of the instructions that it does. -/
inductive Walks (p : Program) : Machine × World → List (Routine × Nat) → Machine × World → Prop
  | done (x : Machine × World) : Walks p x [] x
  | step {m : Machine} {w : World} {as : List (Routine × Nat)} {y : Machine × World}
      (hm : m.status = .running) (h : Walks p (step p m w) as y) :
      Walks p (m, w) ((m.routine, m.address) :: as) y

/-- What slices in some worlds leave behind, one slice after the other. -/
def slicesIn (fuel : Nat) (p : Program) : Machine → List World → List (Machine × World)
  | _, [] => []
  | m, w :: ws => m.run fuel p w :: slicesIn fuel p (m.run fuel p w).1 ws

/-- The machine after these slices. -/
def sliced (fuel : Nat) (p : Program) (m : Machine) (ws : List World) : Machine :=
  ws.foldl (fun m w => (m.run fuel p w).1) m

section

variable {p : Program} {m m' : Machine} {w w' : World} {x y z : Machine × World}
  {as bs : List (Routine × Nat)}

lemma Walks.trans (h : Walks p x as y) (k : Walks p y bs z) : Walks p x (as ++ bs) z := by
  induction h with
  | done => exact k
  | step hm _ ih => exact .step hm (ih k)

/-- A walk is as many steps as there are places on it. -/
lemma Walks.steps (h : Walks p x as y) (fuel : Nat) :
    steps p (as.length + fuel) x.1 x.2 = steps p fuel y.1 y.2 := by
  induction h with
  | done => rw [List.length_nil, Nat.zero_add]
  | @step m w as y hm _ ih =>
    rw [List.length_cons, Nat.add_right_comm, Machine.steps, hm]
    exact ih

/-- On its way the machine is running. -/
lemma Walks.running (h : Walks p x as y) {fuel : Nat} (hfuel : fuel < as.length) :
    (Machine.steps p fuel x.1 x.2).1.status = .running := by
  induction h generalizing fuel with
  | done => exact absurd hfuel (Nat.not_lt_zero fuel)
  | @step m w as y hm _ ih =>
    cases fuel with
    | zero => exact hm
    | succ fuel =>
      rw [Machine.steps, hm]
      exact ih (Nat.lt_of_succ_lt_succ hfuel)

/-- A walk to where the machine stops is a slice, if there are as many steps. -/
lemma Walks.run (hready : m.isReady w = true) (h : Walks p (m.wake, w) as (m', w'))
    (hm' : m'.status ≠ .running) {fuel : Nat} (hfuel : as.length ≤ fuel) :
    m.run fuel p w = (m', w') := by
  obtain ⟨k, rfl⟩ := Nat.exists_eq_add_of_le hfuel
  have hsteps : Machine.steps p (as.length + k) m.wake w = (m', w') :=
    (h.steps k).trans (steps_of_not_running hm' k w')
  simp [Machine.run, hready, hsteps, giveUp, hm']

/-- With fewer steps the slice is given up. -/
lemma Walks.overruns (hready : m.isReady w = true) (h : Walks p (m.wake, w) as (m', w'))
    {fuel : Nat} (hfuel : fuel < as.length) : (m.run fuel p w).1.status = .faulted .overrun := by
  have hrun := h.running hfuel
  simp only [Machine.run, hready, if_true, giveUp]
  rw [if_pos (beq_iff_eq.2 hrun)]
  rfl

lemma Walks.runs (h : Walks p x as y) : Runs p x y := by
  induction h with
  | done x => exact .refl p x
  | step hm _ ih => exact (Runs.step hm).trans ih

end

/-! ### Waits that are tried again -/

/-- A wait that is tried once in every slice. A slice that begins in the state `entry` first does what
stands at `mark`, and then the wait is tried, which does what stands at `again`. If it is over in a world,
the machine goes on to the state `past`; if not, it gives way, and from then on it is in the state `held`
whenever a slice begins. The world is left as `left` says. -/
structure Polls (p : Program) (mark again : List (Routine × Nat)) (entry held past : Machine)
    (ends : World → Bool) (left : World → World) : Prop where
  ready : ∀ u, entry.isReady u = true
  yields : held.status = .yielded
  marks : ∀ u, Walks p (entry.wake, u) mark (held.wake, u)
  stays : ∀ u, ends u = false → Walks p (held.wake, u) again (held, left u)
  leaves : ∀ u, ends u = true → Walks p (held.wake, u) again (past, left u)

/-- What comes of a wait in slices one after the other: each of them gives way as long as the wait is
not over, and the first in which it is over goes on. -/
structure Waits (p : Program) (mark again : List (Routine × Nat)) (entry held past : Machine)
    (ends : World → Bool) (left : World → World) : Prop
    extends Polls p mark again entry held past ends left where
  slices : ∀ us fuel, mark.length + again.length ≤ fuel → (∀ u ∈ us, ends u = false) →
    slicesIn fuel p entry us = us.map fun u => (held, left u)
  moves : ∀ us u fuel, mark.length + again.length ≤ fuel → (∀ v ∈ us, ends v = false) →
    ends u = true → Walks p ((sliced fuel p entry us).wake, u)
      ((if us.isEmpty then mark else []) ++ again) (past, left u)

section

variable {p : Program} {mark again : List (Routine × Nat)} {entry held past : Machine}
  {ends : World → Bool} {left : World → World} {us : List World} {fuel : Nat}

/-- A wait can be taken up where it was left. -/
lemma Polls.resume (h : Polls p mark again entry held past ends left) :
    Polls p [] again held held past ends left where
  ready := fun u => by simp [isReady, h.yields]
  yields := h.yields
  marks := fun u => .done _
  stays := h.stays
  leaves := h.leaves

/-- One slice in which the wait is not over. -/
lemma Polls.run (h : Polls p mark again entry held past ends left) {u : World} (hu : ends u = false)
    (hfuel : mark.length + again.length ≤ fuel) : entry.run fuel p u = (held, left u) :=
  Walks.run (h.ready u) ((h.marks u).trans (h.stays u hu)) (by simp [h.yields])
    (by rwa [List.length_append])

lemma Polls.slices (h : Polls p mark again entry held past ends left)
    (hfuel : mark.length + again.length ≤ fuel) (hus : ∀ u ∈ us, ends u = false) :
    slicesIn fuel p entry us = us.map fun u => (held, left u) := by
  induction us generalizing mark entry with
  | nil => rfl
  | cons u us ih =>
    obtain ⟨hu, hus⟩ := List.forall_mem_cons.1 hus
    rw [slicesIn, h.run hu hfuel, ih h.resume (by simp; omega) hus, List.map_cons]

lemma Polls.sliced (h : Polls p mark again entry held past ends left)
    (hfuel : mark.length + again.length ≤ fuel) (hus : ∀ u ∈ us, ends u = false) :
    Machine.sliced fuel p entry us = if us.isEmpty then entry else held := by
  induction us generalizing mark entry with
  | nil => rfl
  | cons u us ih =>
    obtain ⟨hu, hus⟩ := List.forall_mem_cons.1 hus
    have hrest := ih h.resume (by simp; omega) hus
    rw [Machine.sliced, List.foldl_cons, h.run hu hfuel]
    rw [Machine.sliced] at hrest
    rw [hrest, ite_self]
    rfl

/-- From the law of one slice to all of them. -/
lemma Polls.waits (h : Polls p mark again entry held past ends left) :
    Waits p mark again entry held past ends left where
  toPolls := h
  slices := fun _ _ hfuel hus => h.slices hfuel hus
  moves := by
    intro us u fuel hfuel hus hu
    rw [h.sliced hfuel hus]
    cases us with
    | nil => exact (h.marks u).trans (h.leaves u hu)
    | cons v vs => exact h.leaves u hu

end

/-! ### Lines -/

section

open Compiler

variable {p : Program} {blocks : BlockMap} {r : Routine} {ls pre post : List Line} {l : Line}
  {m : Machine}

/-- The places of some lines that stand behind others. -/
def places (r : Routine) (before : List Line) : List Line → List (Routine × Nat)
  | [] => []
  | l :: ls => (r, Code.extent (codeOf before)) :: places r (before ++ [l]) ls

lemma places_append (r : Routine) (before xs ys : List Line) :
    places r before (xs ++ ys) = places r before xs ++ places r (before ++ xs) ys := by
  induction xs generalizing before with
  | nil => simp [places]
  | cons x xs ih => simp [places, ih]

/-- The machine is about to do what stands behind some lines of a routine. -/
structure Faces (r : Routine) (pre : List Line) (m : Machine) : Prop where
  running : m.status = .running
  promise : m.promise = none
  routine : m.routine = r
  address : m.address = Code.extent (codeOf pre)

/-- A single line. -/
lemma Faces.walks (h : Faces r pre m) {w : World} {y : Machine × World} (hstep : step p m w = y)
    (l : Line) : Walks p (m, w) (places r pre [l]) y := by
  have := Walks.step (p := p) h.running (.done (step p m w))
  rwa [hstep, h.routine, h.address] at this

/-- Lines that read leave their values on the stack: as many as their shape says. -/
lemma Faces.reads (hlaid : p.Laid true blocks r ls) {seg : List Line} (hls : ls = pre ++ (seg ++ post))
    (hseg : Yields p.tables seg) (h : Faces r pre m)
    (hlen : m.stack.length = (Code.shape p.tables (codeOf pre)).origins.length) (w : World) :
    ∃ st w', st.length = (Code.shape p.tables (codeOf (pre ++ seg))).origins.length ∧ w.Draws w' ∧
      Walks p (m, w) (places r pre seg) (m.put (Code.extent (codeOf (pre ++ seg))) st, w') := by
  induction seg generalizing pre m w with
  | nil =>
    refine ⟨m.stack, w, by simpa using hlen, .refl w, ?_⟩
    rw [List.append_nil, ← h.address, put_self]
    exact .done _
  | cons l seg ih =>
    obtain ⟨hl, hseg⟩ := List.forall_mem_cons.1 hseg
    have hproper := (hlaid.proper pre l (seg ++ post) hls).supplied
    rw [← hlen] at hproper
    obtain ⟨v, w₁, hw₁, hstep⟩ :=
      gives_of_laid hlaid hls h.routine h.address hproper hl h.promise w
    -- what gives a value does not settle, so the shape is moved as the stack is
    have hshape : (v :: m.stack.drop (l.instruction.takes p.tables)).length =
        (Code.shape p.tables (codeOf (pre ++ [l]))).origins.length := by
      rw [codeOf, List.map_append, List.map_singleton,
        Code.shape_snoc_plain _ (Instruction.not_settles_of_gives hl), Shape.after, hl]
      simp [hlen]
    have hrest : ls = (pre ++ [l]) ++ (seg ++ post) := by
      rw [hls]
      simp
    obtain ⟨st, w', hst, hw', hwalk⟩ := ih (m := m.put (Code.extent (codeOf (pre ++ [l]))) _) hrest hseg
      ⟨h.running, h.promise, h.routine, rfl⟩ hshape w₁
    rw [List.append_assoc, List.singleton_append] at hst hwalk
    exact ⟨st, w', hst, hw₁.trans hw', (h.walks hstep l).trans hwalk⟩

/-- The checkpoint is noted. -/
lemma Faces.marks (hlaid : p.Laid true blocks r ls) (hls : ls = pre ++ l :: post)
    (hl : l.opcode = .checkpoint) (h : Faces r pre m) {next : Nat}
    (hnext : Code.extent (codeOf (pre ++ [l])) = next) (w : World) :
    Walks p (m, w) (places r pre [l]) ({ m with address := next, checkpoint := some next }, w) := by
  refine h.walks ?_ l
  rw [step_of_laid hlaid hls h.routine h.address, hl, hnext]
  rfl

/-- A native finds its inputs on the stack and answers. -/
lemma Faces.calls (hlaid : p.Laid true blocks r ls) (hls : ls = pre ++ l :: post) {n : Native}
    (hn : l.instruction.native? p.tables = some n) (h : Faces r pre m)
    (hlen : n.arity ≤ m.stack.length) {next : Nat} (hnext : Code.extent (codeOf (pre ++ [l])) = next)
    {w w' : World} {x m' : Machine} {v : Option Value} {pause : Native.Pause}
    (hanswer : (m.put next m.stack).reply w n = ⟨x, w', v, pause⟩)
    (hresume : resume (Code.extent (codeOf pre)) n.pops ⟨x, w', v, pause⟩ = m')
    (hm' : m'.promise = none) : Walks p (m, w) (places r pre [l]) (m', w') := by
  refine h.walks ?_ l
  have hop : l.opcode = .exec := Instruction.opcode_of_native? hn
  have hentry : p.tables.natives[l.instruction.operand]? = some n :=
    (if_pos (show l.instruction.opcode = .exec from hop)).symm.trans hn
  rw [step_of_laid hlaid hls h.routine h.address, hop, hnext]
  simp only [execute, hentry]
  have henough : ¬(m.put next m.stack).stack.length < n.arity := Nat.not_lt.2 hlen
  generalize m.put next m.stack = y at hanswer henough
  rw [callNative, if_neg henough]
  change ((resume _ _ (y.reply w n)).awaitPromise (y.reply w n).world, (y.reply w n).world) = _
  rw [hanswer, hresume, awaitPromise_of_none hm']

end

end Machine

end Blockwork
