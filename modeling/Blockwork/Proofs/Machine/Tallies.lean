import Blockwork.Proofs.Machine.Stepping
import Blockwork.Thread

/-!
The count of activations in warp. A machine keeps their number beside the activations themselves: it
goes up when an activation enters warp and down when one returns. What ends the script cuts off all
activations but the lowest and leaves the number as it is. Until then the number is exact, in whatever
code, so that a return never takes anything from zero.

This does not hang on the natives that there are. A native is taken here as any function of the machine
and its world that is built in, or that does no more than ask the machine to stop, to finish, to pause
or to wait. One thing is excluded: that it asks for a retry of a script that it has ended. Without a
checkpoint such a retry would set the machine going again, with one activation and the old number.
-/

namespace Blockwork

/-- What answers the call of a native: a reply and how many values are taken off the stack, or nothing
where an input is missing. -/
abbrev Callee := Machine → World → Option (Native.Reply × Nat)

namespace Native

/-- A native as what answers its call. -/
def callee (n : Native) : Callee := fun m w =>
  if m.stack.length < n.arity then none
  else
    let inputs := (m.stack.take n.arity).reverse
    some (n.run m w (inputs[0]?.getD .empty) (inputs[1]?.getD .empty), n.pops)

lemma outcome_callee {n : Native} {m : Machine} {w : World} {r : Reply} {pops : Nat}
    (h : n.callee m w = some (r, pops)) : Outcome n m r := by
  unfold callee at h
  split at h
  · cases h
  · obtain ⟨rfl, -⟩ := Prod.mk.inj (Option.some.inj h)
    exact n.outcome_run m w _ _

/-- What a machine has come to in the hands of a native that has done no more than ask. The world may
have changed in any way; the latest pause counts. -/
inductive Asked (m : Machine) : Reply → Prop
  | nothing (w : World) : Asked m ⟨m, w, none, .go⟩
  | stop {r : Reply} (h : Asked m r) : Asked m { r with machine := r.machine.stopScript }
  | finish {r : Reply} (h : Asked m r) : Asked m { r with machine := r.machine.finish }
  | yield {r : Reply} (h : Asked m r) : Asked m { r with pause := .yield }
  | retry {r : Reply} (h : Asked m r) : Asked m { r with pause := .retry }
  | suspend {r : Reply} (h : Asked m r) (p : Promise) :
      Asked m { r with machine := { r.machine with promise := some p } }

end Native

/-- Built in, or does no more than ask, and asks for no retry of a script that it has ended. -/
def Callee.Tame (f : Callee) : Prop :=
  (∃ n : Native, f = n.callee) ∨
    ∀ m w r pops, m.status = .running → f m w = some (r, pops) →
      Native.Asked m r ∧ (r.machine.status = .finished → r.pause ≠ .retry)

namespace Machine

/-! ### Steps with other natives -/

/-- The operand of a call of a native, if that is the next instruction. -/
def called? (p : Program) (m : Machine) : Option Nat :=
  (p.code? m.routine).bind fun code =>
    match code.words[m.address]?.bind Opcode.ofWord? with
    | some .exec => some (code.words[m.address + 1]?.getD 0).toNat
    | _ => none

/-- Behind a call of a native. -/
def pastCall (m : Machine) : Machine := { m with address := m.address + 2 }

/-- Goes on as the call of a native is answered. -/
def answered (m : Machine) (w : World) : Option (Native.Reply × Nat) → Machine × World
  | none => (m.pastCall.fault .missingInput, w)
  | some (r, pops) => ((resume m.address pops r).awaitPromise r.world, r.world)

/-- One step, the natives given by position. -/
def stepBy (natives : Nat → Option Callee) (p : Program) (m : Machine) (w : World) :
    Machine × World :=
  match m.called? p with
  | none => step p m w
  | some i =>
    match natives i with
    | none => (m.pastCall.fault .badNative, w)
    | some f => m.answered w (f m.pastCall w)

def stepsBy (natives : Nat → Option Callee) (p : Program) :
    (fuel : Nat) → Machine → World → Machine × World
  | 0, m, w => (m, w)
  | fuel + 1, m, w =>
    if m.status == .running then
      let (m, w) := stepBy natives p m w
      stepsBy natives p fuel m w
    else (m, w)

def runBy (natives : Nat → Option Callee) (fuel : Nat) (p : Program) (m : Machine) (w : World) :
    Machine × World :=
  if m.isReady w then
    let (m, w) := stepsBy natives p fuel m.wake w
    (m.giveUp, w)
  else (m, w)

/-- The natives in the tables of a program. -/
def callees (p : Program) (i : Nat) : Option Callee := p.tables.natives[i]?.map Native.callee

lemma answered_callee (m : Machine) (w : World) (n : Native) :
    m.answered w (n.callee m.pastCall w) = m.pastCall.callNative w n m.address := by
  unfold Native.callee callNative
  split <;> rfl

lemma stepBy_callees (p : Program) (m : Machine) (w : World) :
    stepBy (callees p) p m w = step p m w := by
  unfold stepBy called? step
  cases p.code? m.routine with
  | none => rfl
  | some code =>
    rw [Option.bind_some]
    dsimp only
    cases code.words[m.address]?.bind Opcode.ofWord? with
    | none => rfl
    | some op =>
      cases op
      case exec =>
        simp only [callees, execute]
        cases p.tables.natives[(code.words[m.address + 1]?.getD 0).toNat]? with
        | none => rfl
        | some n => exact m.answered_callee w n
      all_goals rfl

/-- With its own natives a program runs as it does. -/
lemma runBy_callees (fuel : Nat) (p : Program) (m : Machine) (w : World) :
    runBy (callees p) fuel p m w = m.run fuel p w := by
  have hsteps : ∀ fuel m w, stepsBy (callees p) p fuel m w = steps p fuel m w := by
    intro fuel
    induction fuel with
    | zero => exact fun _ _ => rfl
    | succ fuel ih =>
      intro m w
      simp only [stepsBy, steps, stepBy_callees, ih]
  simp only [runBy, run, hsteps]

/-- The next instruction calls a native, which gives a reply. -/
def Replies (natives : Nat → Option Callee) (p : Program) (m : Machine) (w : World)
    (r : Native.Reply) (pops : Nat) : Prop :=
  ∃ i f, m.called? p = some i ∧ natives i = some f ∧ f m.pastCall w = some (r, pops)

lemma stepBy_cases (natives : Nat → Option Callee) (p : Program) (m : Machine) (w : World) :
    m.called? p = none ∧ stepBy natives p m w = step p m w ∨
    (∃ f, stepBy natives p m w = (m.pastCall.fault f, w)) ∨
    ∃ r pops, Replies natives p m w r pops ∧
      stepBy natives p m w = ((resume m.address pops r).awaitPromise r.world, r.world) := by
  unfold stepBy
  cases hcalled : m.called? p with
  | none => exact .inl ⟨rfl, rfl⟩
  | some i =>
    dsimp only
    cases hf : natives i with
    | none => exact .inr (.inl ⟨_, rfl⟩)
    | some f =>
      dsimp only
      cases hr : f m.pastCall w with
      | none => exact .inr (.inl ⟨_, rfl⟩)
      | some x => exact .inr (.inr ⟨x.1, x.2, ⟨i, f, hcalled, hf, hr⟩, rfl⟩)

lemma stepsBy_of_not_running {natives : Nat → Option Callee} {p : Program} {m : Machine}
    (h : m.status ≠ .running) (fuel : Nat) (w : World) : stepsBy natives p fuel m w = (m, w) := by
  cases fuel with
  | zero => rfl
  | succ fuel => simp [stepsBy, h]

/-! ### Single instructions -/

lemma status_stopScript (m : Machine) :
    m.stopScript.status = m.status ∨ m.stopScript.status = .finished := by
  unfold stopScript
  split
  · exact .inl rfl
  · exact .inr rfl

/-- What an instruction does to the activations, if it calls no native. -/
inductive Shift (m : Machine) : Machine → Prop
  | goes {m' : Machine} (cs : List Call) (hcs : ∀ c ∈ cs, c.warp = false)
      (hcalls : m'.calls = cs ++ m.calls) (hdepth : m'.warpDepth = m.warpDepth)
      (hstatus : m'.status = m.status ∨ (∃ f, m'.status = .faulted f) ∨
        m'.status = .yielded ∧ m.warpDepth = 0) : Shift m m'
  | stops : Shift m m.stopScript
  | warps : Shift m m.enterWarp

lemma Shift.stays {m m' : Machine} (hcalls : m'.calls = m.calls) (hdepth : m'.warpDepth = m.warpDepth)
    (hstatus : m'.status = m.status) : Shift m m' :=
  .goes [] (by simp) hcalls hdepth (.inl hstatus)

lemma shift_execute {op : Opcode} (hop : op ≠ .exec) (p : Program) (code : Code) (a operand : Nat)
    (m : Machine) (w : World) : Shift m (execute p code a op operand m w).1 := by
  have hjump : ∀ (m' : Machine), m'.calls = m.calls → m'.warpDepth = m.warpDepth →
      m'.status = m.status → Shift m (m'.jumpPast code a) := by
    intro m' hcalls hdepth hstatus
    unfold jumpPast
    split <;> exact .stays hcalls hdepth hstatus
  cases op
  case exec => exact absurd rfl hop
  case halt => exact .stops
  case warp => exact .warps
  case const =>
    simp only [execute]
    split
    · exact .stays rfl rfl rfl
    · exact .goes [] (by simp) rfl rfl (.inr (.inl ⟨_, rfl⟩))
  case breakFrame =>
    simp only [execute]
    split
    · next h => exact .goes [] (by simp) rfl rfl (.inr (.inr ⟨rfl, beq_iff_eq.1 h⟩))
    · exact .stays rfl rfl rfl
  case callProcedure =>
    simp only [execute, callProcedure]
    split
    · refine .goes [_] (by simp) rfl rfl ?_
      dsimp only
      split
      · next h => exact .inr (.inr ⟨rfl, by simpa using (Bool.and_eq_true_iff.1 h).2⟩)
      · exact .inl rfl
    · exact .stays rfl rfl rfl
  case list f =>
    cases f <;> simp only [execute, stepList, pop_eq, push]
    all_goals exact .stays rfl rfl rfl
  case var f =>
    cases f <;> simp only [execute, stepVariable, pop_eq, push] <;> repeat' split
    all_goals exact .stays rfl rfl rfl
  all_goals
    simp only [execute, pop_eq, push, endRound, addArgument, openLoop]
    repeat' split
  all_goals first | exact .stays rfl rfl rfl | exact hjump _ rfl rfl rfl

lemma Shift.warpDepth_of_yielded {m m' : Machine} (h : Shift m m') (hm : m.status = .running)
    (hs : m'.status = .yielded) : m'.warpDepth = 0 := by
  cases h with
  | stops => rcases m.status_stopScript with he | he <;> rw [hs] at he <;> simp [hm] at he
  | warps =>
    have he : m.enterWarp.status = m.status := by
      unfold enterWarp
      split
      · rfl
      · split <;> rfl
    rw [hs, hm] at he
    cases he
  | goes cs hcs hcalls hdepth hstatus =>
    rw [hs, hm] at hstatus
    rcases hstatus with he | ⟨f, he⟩ | ⟨-, hzero⟩
    · cases he
    · cases he
    · exact hdepth.trans hzero

lemma shift_step {p : Program} {m : Machine} (h : m.called? p = none) (w : World) :
    ∃ address, Shift { m with address } (step p m w).1 := by
  unfold step
  cases hcode : p.code? m.routine with
  | none => exact ⟨m.address, .stops⟩
  | some code =>
    dsimp only
    cases hword : code.words[m.address]?.bind Opcode.ofWord? with
    | none => exact ⟨m.address, .stops⟩
    | some op =>
      have hop : op ≠ .exec := by
        rintro rfl
        simp [called?, hcode, hword] at h
      exact ⟨_, shift_execute hop p code m.address _ _ w⟩

/-! ### The count -/

/-- The books of a machine that was last set to the start of a routine: the lowest activation is one of
this routine, the count of activations in warp is never too small, and right until the script has ended;
then only the lowest activation is left and nothing is open. -/
structure Tallied (entry : Routine) (m : Machine) : Prop where
  lowest : m.calls.getLast?.map (·.routine) = some entry
  covers : m.calls.countP (·.warp) ≤ m.warpDepth
  exact : m.status ≠ .finished → m.warpDepth = m.calls.countP (·.warp)
  ended : m.status = .finished →
    m.calls.length = 1 ∧ m.loops = [] ∧ m.pending = [] ∧ m.timer = none

namespace Tallied

variable {entry : Routine} {m m' : Machine}

/-- A return takes nothing from zero. -/
lemma warpDepth_pos (h : Tallied entry m) {c : Call} {rest : List Call} (hcalls : m.calls = c :: rest)
    (hc : c.warp = true) : 0 < m.warpDepth := by
  have hcovers := h.covers
  rw [hcalls, List.countP_cons_of_pos hc] at hcovers
  omega

/-- As long as the script goes on, only the activations and the count matter. -/
lemma goes (h : Tallied entry m) (hm : m.status ≠ .finished) (hm' : m'.status ≠ .finished)
    (hcalls : m'.calls = m.calls) (hdepth : m'.warpDepth = m.warpDepth) : Tallied entry m' where
  lowest := hcalls ▸ h.lowest
  covers := hcalls ▸ hdepth ▸ h.covers
  exact _ := by rw [hcalls, hdepth, h.exact hm]
  ended hfin := absurd hfin hm'

lemma frame (h : Tallied entry m) (address : Nat) (stack : List Value) (promise : Option Promise)
    {status : Status} (hs : status = .finished ↔ m.status = .finished) :
    Tallied entry { m with address, stack, promise, status } where
  lowest := h.lowest
  covers := h.covers
  exact hne := h.exact fun hfin => hne (hs.2 hfin)
  ended hfin := h.ended (hs.1 hfin)

lemma pastCall (h : Tallied entry m) : Tallied entry m.pastCall :=
  h.frame (m.address + 2) m.stack m.promise Iff.rfl

lemma finish (h : Tallied entry m) : Tallied entry m.finish := by
  have hlowest := h.lowest
  cases hlast : m.calls.getLast? with
  | none => simp [hlast] at hlowest
  | some c =>
    have hfinish : m.finish.calls = [c] := by rw [Machine.finish, hlast, Option.toList_some]
    have hcovers : [c].countP (·.warp) ≤ m.calls.countP (·.warp) := by
      obtain ⟨init, hcalls⟩ := List.getLast?_eq_some_iff.1 hlast
      rw [hcalls, List.countP_append]
      exact Nat.le_add_left _ _
    refine ⟨?_, ?_, fun hne => absurd rfl hne, fun _ => ⟨by rw [hfinish]; rfl, rfl, rfl, rfl⟩⟩
    · rw [hfinish, ← hlowest, hlast]
      rfl
    · rw [hfinish]
      exact hcovers.trans h.covers

lemma stopScript (h : Tallied entry m) : Tallied entry m.stopScript := by
  unfold Machine.stopScript
  split
  case h_2 => exact h.finish
  case h_1 c d rest hcalls =>
    -- more than one activation is left, so the script has not ended
    have hm : m.status ≠ .finished := fun hfin => by simpa [hcalls] using (h.ended hfin).1
    have hexact := h.exact hm
    have hlowest := h.lowest
    rw [hcalls] at hexact hlowest
    have hdepth : (m.returnFrom c (d :: rest)).warpDepth = (d :: rest).countP (·.warp) := by
      rw [List.countP_cons] at hexact
      simp only [returnFrom]
      cases hc : c.warp <;> simp [hc] at hexact ⊢ <;> omega
    exact ⟨hlowest, hdepth.ge, fun _ => hdepth, fun hfin => absurd hfin hm⟩

/-- When the script has ended there is nothing more to end. -/
lemma finish_eq (h : Tallied entry m) (hm : m.status = .finished) : m.finish = m := by
  obtain ⟨hlength, hloops, hpending, htimer⟩ := h.ended hm
  obtain ⟨c, hc⟩ := List.length_eq_one_iff.1 hlength
  cases m
  simp_all [Machine.finish]

/-- What the instructions other than calls of natives do is kept account of. -/
lemma shift (h : Tallied entry m) (hm : m.status = .running) (hs : Shift m m') : Tallied entry m' := by
  have hlowest := h.lowest
  have hexact := h.exact (by simp [hm])
  cases hs with
  | stops => exact h.stopScript
  | goes cs hcs hcalls hdepth hstatus =>
    have hlive : m'.status ≠ .finished := by
      rcases hstatus with hs | ⟨f, hs⟩ | ⟨hs, -⟩ <;> simp [hs, hm]
    have hnew : cs.countP (·.warp) = 0 := List.countP_eq_zero.2 fun c hc => by simp [hcs c hc]
    have hcount : m'.warpDepth = m'.calls.countP (·.warp) := by
      rw [hcalls, List.countP_append, hnew, Nat.zero_add, hdepth, hexact]
    refine ⟨?_, hcount.ge, fun _ => hcount, fun hfin => absurd hfin hlive⟩
    cases hlast : m.calls.getLast? with
    | none => simp [hlast] at hlowest
    | some c => rw [hcalls, List.getLast?_append, hlast, Option.some_or, ← hlowest, hlast]
  | warps =>
    have hlive : m.status ≠ .finished := by simp [hm]
    cases hcalls : m.calls with
    | nil => simp [hcalls] at hlowest
    | cons c rest =>
      simp only [enterWarp, hcalls]
      split
      · exact h
      · next hc =>
        rw [hcalls] at hlowest
        rw [hcalls, List.countP_cons_of_neg hc] at hexact
        have hcount : m.warpDepth + 1 = ({ c with warp := true } :: rest).countP (·.warp) := by
          rw [List.countP_cons_of_pos rfl, hexact]
        refine ⟨?_, hcount.ge, fun _ => hcount, fun hfin => absurd hfin hlive⟩
        cases rest with
        | nil => exact hlowest
        | cons d rest => exact hlowest

/-- However much a native asks, the books are in order. -/
lemma asked (h : Tallied entry m) {r : Native.Reply} (hr : Native.Asked m r) :
    Tallied entry r.machine := by
  induction hr with
  | nothing => exact h
  | stop _ ih => exact ih.stopScript
  | finish _ ih => exact ih.finish
  | yield _ ih | retry _ ih => exact ih
  | suspend _ p ih => exact ih.frame _ _ (some p) Iff.rfl

end Tallied

/-! ### Calls of natives -/

lemma status_asked {m : Machine} {r : Native.Reply} (hr : Native.Asked m r) :
    r.machine.status = m.status ∨ r.machine.status = .finished := by
  induction hr with
  | nothing => exact .inl rfl
  | finish => exact .inr rfl
  | stop _ ih =>
    rcases status_stopScript _ with hs | hs
    · rwa [hs]
    · exact .inr hs
  | yield _ ih | retry _ ih | suspend _ _ ih => exact ih

/-- The machine goes on, or the script has ended and nothing is to be tried again. -/
def Sober (r : Native.Reply) : Prop :=
  r.machine.status = .running ∨ r.machine.status = .finished ∧ r.pause ≠ .retry

lemma tallied_answer {f : Callee} (hf : f.Tame) {entry : Routine} {m : Machine}
    (h : Tallied entry m) (hm : m.status = .running) {w : World} {r : Native.Reply} {pops : Nat}
    (hr : f m w = some (r, pops)) : Tallied entry r.machine ∧ Sober r := by
  have hlive : m.status ≠ .finished := by simp [hm]
  rcases hf with ⟨n, rfl⟩ | hf
  · cases Native.outcome_callee hr with
    | stays => exact ⟨h.goes hlive hlive rfl rfl, .inl hm⟩
    | stops =>
      exact ⟨h.stopScript, m.status_stopScript.imp (·.trans hm) fun hs => ⟨hs, by simp⟩⟩
    | ends _ hp => exact ⟨h.finish.frame _ _ _ Iff.rfl, .inr ⟨rfl, hp⟩⟩
  · obtain ⟨hasked, hretry⟩ := hf m w r pops hm hr
    exact ⟨h.asked hasked, (status_asked hasked).imp (·.trans hm) fun hs => ⟨hs, hretry hs⟩⟩

lemma status_resume {r : Native.Reply} (hr : Sober r) (a pops : Nat) :
    (resume a pops r).status =
      if r.machine.status = .running ∧ r.pause ≠ .go then .yielded else r.machine.status := by
  by_cases hp : r.pause = .retry
  · have hm : r.machine.status = .running := hr.resolve_right fun h => h.2 hp
    obtain ⟨m, w, v, pause⟩ := r
    obtain rfl : pause = .retry := hp
    cases hk : m.checkpoint <;> cases v <;> simp_all [resume, push]
  · rw [resume_of_ne hp]
    cases hpause : r.pause <;> simp_all

/-- The machine goes on as the native left it, but for its place, its operands and its status. -/
lemma resume_awaitPromise {r : Native.Reply} (hr : Sober r) (a pops : Nat) (w : World) :
    ∃ address stack status,
      (resume a pops r).awaitPromise w = { r.machine with address, stack, status } ∧
      (status = .finished ↔ r.machine.status = .finished) ∧ (status = .yielded → r.pause ≠ .go) := by
  obtain ⟨address, stack, status, he⟩ := resume_frame r a pops
  have hstatus := status_resume hr a pops
  rw [he] at hstatus ⊢
  replace hstatus : status = _ := hstatus
  have hfin : status = .finished ↔ r.machine.status = .finished := by
    rw [hstatus]
    split
    · next h => simp [h.1]
    · exact Iff.rfl
  have hpause : status = .yielded → r.pause ≠ .go := by
    rintro hy hgo
    rw [if_neg fun h => h.2 hgo] at hstatus
    rcases hr with hm | ⟨hm, -⟩ <;> simp [hy, hm] at hstatus
  unfold awaitPromise
  split
  · next h =>
    have hlive : status ≠ .finished := by simpa using (Bool.and_eq_true_iff.1 h).1
    exact ⟨address, stack, .awaiting, rfl, by simpa using mt hfin.2 hlive, fun h => by cases h⟩
  · exact ⟨address, stack, status, rfl, hfin, hpause⟩

variable {natives : Nat → Option Callee} {p : Program} {entry : Routine} {m : Machine}

lemma Tallied.replies (hnatives : ∀ i f, natives i = some f → f.Tame) (h : Tallied entry m)
    (hm : m.status = .running) {w : World} {r : Native.Reply} {pops : Nat}
    (hr : Replies natives p m w r pops) : Tallied entry r.machine ∧ Sober r := by
  obtain ⟨i, f, -, hf, hr⟩ := hr
  exact tallied_answer (hnatives i f hf) h.pastCall hm hr

lemma Tallied.stepBy (hnatives : ∀ i f, natives i = some f → f.Tame) (h : Tallied entry m)
    (hm : m.status = .running) (w : World) : Tallied entry (stepBy natives p m w).1 := by
  have hlive : m.status ≠ .finished := by simp [hm]
  rcases stepBy_cases natives p m w with ⟨hcalled, he⟩ | ⟨f, he⟩ | ⟨r, pops, hr, he⟩ <;> rw [he]
  · obtain ⟨address, hs⟩ := shift_step hcalled w
    exact Tallied.shift (m := { m with address }) (h.goes hlive hlive rfl rfl) hm hs
  · exact h.goes hlive (by simp [fault]) rfl rfl
  · obtain ⟨htallied, hsober⟩ := h.replies hnatives hm hr
    obtain ⟨address, stack, status, he, hfin, -⟩ :=
      resume_awaitPromise hsober m.address pops r.world
    rw [he]
    exact htallied.frame address stack _ hfin

/-- In warp a slice ends only where a native asks for it. -/
lemma stepBy_yields (hnatives : ∀ i f, natives i = some f → f.Tame) (h : Tallied entry m)
    (hm : m.status = .running) {w : World} (hs : (stepBy natives p m w).1.status = .yielded)
    (hd : 0 < (stepBy natives p m w).1.warpDepth) :
    ∃ r pops, Replies natives p m w r pops ∧ r.pause ≠ .go := by
  rcases stepBy_cases natives p m w with ⟨hcalled, he⟩ | ⟨f, he⟩ | ⟨r, pops, hr, he⟩ <;>
    rw [he] at hs hd
  · obtain ⟨address, hshift⟩ := shift_step hcalled w
    rw [hshift.warpDepth_of_yielded hm hs] at hd
    omega
  · cases hs
  · obtain ⟨-, hsober⟩ := h.replies hnatives hm hr
    obtain ⟨address, stack, status, he, -, hpause⟩ :=
      resume_awaitPromise hsober m.address pops r.world
    rw [he] at hs
    exact ⟨r, pops, hr, hpause hs⟩

/-! ### Runs -/

/-- The states of a machine that was last set to the start of a routine, for given natives: it is made,
takes steps, starts a slice, gives one up, is killed and is reset; the world may change at any time. -/
inductive Led (natives : Nat → Option Callee) (p : Program) : (entry : Routine) → Machine → Prop
  | new (target : TargetId) (w : World) : Led natives p .main (Machine.new p target w).1
  | step {entry : Routine} {m : Machine} (h : Led natives p entry m) (hm : m.status = .running)
      (w : World) : Led natives p entry (Machine.stepBy natives p m w).1
  | wake {entry : Routine} {m : Machine} (h : Led natives p entry m) {w : World}
      (hw : m.isReady w = true) : Led natives p entry m.wake
  | giveUp {entry : Routine} {m : Machine} (h : Led natives p entry m) : Led natives p entry m.giveUp
  | kill {entry : Routine} {m : Machine} (h : Led natives p entry m) : Led natives p entry m.finish
  | reset {entry : Routine} {m : Machine} (h : Led natives p entry m) (entry' : Routine) :
      Led natives p entry' (m.reset entry')

lemma tallied_reset (m : Machine) (entry : Routine) : Tallied entry (m.reset entry) where
  lowest := rfl
  covers := Nat.le_refl _
  exact _ := rfl
  ended h := by cases h

lemma Led.tallied (hnatives : ∀ i f, natives i = some f → f.Tame) (h : Led natives p entry m) :
    Tallied entry m := by
  induction h with
  | new => exact tallied_reset _ _
  | step _ hm w ih => exact ih.stepBy hnatives hm w
  | @wake entry m _ w hw ih =>
    refine ih.goes ?_ (by simp [Machine.wake]) rfl rfl
    intro hfin
    simp [isReady, hfin] at hw
  | @giveUp entry m _ ih =>
    unfold Machine.giveUp
    split
    · next hm =>
      rw [beq_iff_eq] at hm
      exact ih.goes (by simp [hm]) (by simp [fault]) rfl rfl
    · exact ih
  | kill _ ih => exact ih.finish
  | reset => exact tallied_reset _ _

lemma Led.stepsBy (h : Led natives p entry m) (fuel : Nat) (w : World) :
    Led natives p entry (stepsBy natives p fuel m w).1 := by
  induction fuel generalizing m w with
  | zero => exact h
  | succ fuel ih =>
    rw [Machine.stepsBy]
    split
    · next hm => exact ih (h.step (beq_iff_eq.1 hm) w) _
    · exact h

lemma Led.runBy (h : Led natives p entry m) (fuel : Nat) (w : World) :
    Led natives p entry (runBy natives fuel p m w).1 := by
  unfold Machine.runBy
  split
  · next hw => exact ((h.wake hw).stepsBy fuel w).giveUp
  · exact h

/-- Steps that end otherwise than for want of fuel have a last one. -/
lemma exists_last_step (hm : m.status = .running) {fuel : Nat} {w : World}
    (hend : (stepsBy natives p fuel m w).1.status ≠ .running) :
    ∃ k < fuel, ∃ m' w', stepsBy natives p k m w = (m', w') ∧ m'.status = .running ∧
      stepsBy natives p fuel m w = stepBy natives p m' w' := by
  induction fuel generalizing m w with
  | zero => exact absurd hm hend
  | succ fuel ih =>
    have hsucc : ∀ k, stepsBy natives p (k + 1) m w =
        stepsBy natives p k (stepBy natives p m w).1 (stepBy natives p m w).2 := by
      intro k
      simp [stepsBy, hm]
    by_cases hnext : (stepBy natives p m w).1.status = .running
    · rw [hsucc] at hend ⊢
      obtain ⟨k, hk, m', w', he, hrun, hlast⟩ := ih hnext hend
      exact ⟨k + 1, by omega, m', w', by rw [hsucc, he], hrun, hlast⟩
    · refine ⟨0, by omega, m, w, rfl, hm, ?_⟩
      rw [hsucc, stepsBy_of_not_running hnext]

/-- A slice that ends with a pause has a last step, and it is this step that pauses. -/
lemma exists_pausing_step {fuel : Nat} {w : World}
    (hs : (runBy natives fuel p m w).1.status = .yielded) :
    m.isReady w = true ∧ ∃ k < fuel, ∃ m' w', stepsBy natives p k m.wake w = (m', w') ∧
      m'.status = .running ∧ runBy natives fuel p m w = stepBy natives p m' w' := by
  have hready : m.isReady w = true := by
    by_contra hnot
    rw [Bool.not_eq_true] at hnot
    simp only [runBy, hnot, Bool.false_eq_true, if_false] at hs
    simp [isReady, hs] at hnot
  have hend : (stepsBy natives p fuel m.wake w).1.status ≠ .running := by
    intro hrun
    simp [runBy, hready, giveUp, hrun, fault] at hs
  have hrun : runBy natives fuel p m w = stepsBy natives p fuel m.wake w := by
    simp [runBy, hready, giveUp, hend]
  rw [hrun]
  exact ⟨hready, exists_last_step rfl hend⟩

/-- **The count of warp is right** in whatever code and with whatever natives. The lowest activation is
always there and is the one of the routine that the machine was set to; the count is never below the
number of activations in warp and is that number until the script has ended, also while a native is at
work, so that the return from one in warp always finds something to take away. A machine whose script
has ended stays as it is, whether it is run or killed. And a slice that ends in warp ends with a native
that asked for it. -/
theorem tallied_of_led {natives : Nat → Option Callee}
    (hnatives : ∀ i f, natives i = some f → f.Tame) {p : Program} {entry : Routine} {m : Machine}
    (h : Led natives p entry m) :
    Tallied entry m ∧
    (∀ r, Native.Asked m.pastCall r → Tallied entry r.machine ∧
      ∀ c rest, r.machine.calls = c :: rest → c.warp = true → 0 < r.machine.warpDepth) ∧
    (m.status = .finished → m.finish = m ∧ ∀ fuel w, m.runBy natives fuel p w = (m, w)) ∧
    ∀ fuel w, Led natives p entry (m.runBy natives fuel p w).1 ∧
      ((m.runBy natives fuel p w).1.status = .yielded →
        0 < (m.runBy natives fuel p w).1.warpDepth →
          ∃ k < fuel, ∃ m' w' r pops, m.wake.stepsBy natives p k w = (m', w') ∧
            m'.status = .running ∧ Replies natives p m' w' r pops ∧ r.pause ≠ .go ∧
              m.runBy natives fuel p w = stepBy natives p m' w') := by
  have htallied := h.tallied hnatives
  refine ⟨htallied, fun r hr => ?native, fun hm => ⟨htallied.finish_eq hm, fun fuel w => ?still⟩,
    fun fuel w => ⟨h.runBy fuel w, fun hs hd => ?paused⟩⟩
  case native =>
    have hasked := htallied.pastCall.asked hr
    exact ⟨hasked, fun c rest hcalls hc => hasked.warpDepth_pos hcalls hc⟩
  case still =>
    have hready : m.isReady w = false := by simp [isReady, hm]
    simp [Machine.runBy, hready]
  case paused =>
    obtain ⟨hready, k, hk, m', w', hbefore, hrun, he⟩ := exists_pausing_step hs
    have hled := (h.wake hready).stepsBy k w
    rw [hbefore] at hled
    rw [he] at hs hd ⊢
    obtain ⟨r, pops, hr, hpause⟩ := stepBy_yields hnatives (hled.tallied hnatives) hrun hs hd
    exact ⟨k, hk, m', w', r, pops, hbefore, hrun, hr, hpause, rfl⟩

/-- A custom block in warp that calls two natives. -/
def warped : Program where
  main := .ofInstructions [⟨.start, []⟩, ⟨.initProcedure, []⟩, ⟨.callProcedure, [0]⟩]
  tables :=
    { procedures := [some (.ofInstructions
        [⟨.start, []⟩, ⟨.warp, []⟩, ⟨.warp, []⟩, ⟨.exec, [0]⟩, ⟨.exec, [1]⟩])] }

/-- The first one pauses, the second one ends the script and pauses. -/
def pauses (i : Nat) : Option Callee :=
  [(Native.control .yield).callee, fun m w => some (⟨m.finish, w, none, .yield⟩, 0)][i]?

lemma tame_pauses (i : Nat) (f : Callee) (hf : pauses i = some f) : f.Tame := by
  have hmem := List.mem_of_getElem? hf
  simp only [List.mem_cons, List.not_mem_nil, or_false] at hmem
  rcases hmem with rfl | rfl
  · exact .inl ⟨_, rfl⟩
  · refine .inr fun m w r pops _ hr => ?_
    cases hr
    exact ⟨.yield (.finish (.nothing w)), fun _ => by simp⟩

/-- Its first slice ends in warp, its second one with a count that is too high. -/
theorem tallied_of_led_warped :
    let x := (Machine.new warped ⟨0, 0⟩ {}).1.runBy pauses 9 warped {}
    let y := x.1.runBy pauses 9 warped x.2
    (x.1.status = .yielded ∧ x.1.warpDepth = 1 ∧ x.1.calls.countP (·.warp) = 1 ∧
      ∃ m w r pops, m.status = .running ∧ Replies pauses warped m w r pops ∧ r.pause ≠ .go ∧
        x = stepBy pauses warped m w) ∧
    y.1.status = .finished ∧ y.1.warpDepth = 1 ∧ y.1.calls.countP (·.warp) = 0 ∧
      y.1.finish = y.1 ∧ ∀ fuel w, y.1.runBy pauses fuel warped w = (y.1, w) := by
  have hx : let x := (Machine.new warped ⟨0, 0⟩ {}).1.runBy pauses 9 warped {}
      x.1.status = .yielded ∧ x.1.warpDepth = 1 ∧ x.1.calls.countP (·.warp) = 1 := by
    decide +kernel
  have hy : let x := (Machine.new warped ⟨0, 0⟩ {}).1.runBy pauses 9 warped {}
      let y := x.1.runBy pauses 9 warped x.2
      y.1.status = .finished ∧ y.1.warpDepth = 1 ∧ y.1.calls.countP (·.warp) = 0 := by
    decide +kernel
  obtain ⟨-, -, -, hruns⟩ := tallied_of_led tame_pauses (.new (p := warped) ⟨0, 0⟩ {})
  obtain ⟨hled, hpaused⟩ := hruns 9 {}
  generalize (Machine.new warped ⟨0, 0⟩ {}).1.runBy pauses 9 warped {} = x at *
  obtain ⟨hyielded, hdepth, hcount⟩ := hx
  obtain ⟨hfinished, hkept, hnone⟩ := hy
  obtain ⟨k, -, m, w, r, pops, -, hm, hr, hpause, he⟩ := hpaused hyielded (by rw [hdepth]; decide)
  obtain ⟨-, -, hstill, -⟩ := tallied_of_led tame_pauses (hled.runBy 9 x.2)
  exact ⟨⟨hyielded, hdepth, hcount, m, w, r, pops, hm, hr, hpause, he⟩, hfinished, hkept, hnone,
    hstill hfinished⟩

/-- A retry of a script that a native has ended would set the machine going again, with a count that is
too high. -/
example :
    let natives (_ : Nat) : Option Callee := some fun m w => some (⟨m.finish, w, none, .retry⟩, 0)
    let x := (Machine.new warped ⟨0, 0⟩ {}).1.runBy natives 9 warped {}
    x.1.status = .yielded ∧ x.1.warpDepth = 1 ∧ x.1.calls.countP (·.warp) = 0 := by
  decide +kernel

/-! ### Threads -/

lemma tame_callees (p : Program) {i : Nat} {f : Callee} (h : callees p i = some f) : f.Tame := by
  obtain ⟨n, -, rfl⟩ := Option.map_eq_some_iff.1 h
  exact .inl ⟨n, rfl⟩

lemma Led.run (h : Led (callees p) p entry m) (fuel : Nat) (w : World) :
    Led (callees p) p entry (m.run fuel p w).1 :=
  runBy_callees fuel p m w ▸ h.runBy fuel w

lemma Led.slices (h : Led (callees p) p entry m) (fuel passes : Nat) (w : World) :
    Led (callees p) p entry (Thread.slices fuel p passes m w).1 := by
  induction passes generalizing m w with
  | zero => exact h
  | succ passes ih =>
    rw [Thread.slices]
    dsimp only
    split
    · exact ih (h.run fuel w) _
    · exact h.run fuel w

/-- All that is done with a thread leads its machine through such states, so its books are always in
order. -/
theorem tallied_thread {t : Thread}
    (h : Led (callees t.program) t.program entry t.machine) :
    Tallied entry t.machine ∧
    ∀ fuel w,
      Led (callees t.program) t.program entry (t.run fuel w).1.machine ∧
      Led (callees t.program) t.program entry (t.kill w).1.machine ∧
      Led (callees t.program) t.program .main (t.restart w).1.machine ∧
      ∀ r, Led (callees t.program) t.program r (t.evaluate fuel r w).2.1.machine := by
  refine ⟨h.tallied fun _ _ hf => tame_callees t.program hf, fun fuel w =>
    ⟨h.run fuel _, h.kill, h.reset .main, fun r => ?_⟩⟩
  have hslices := (h.reset r).slices fuel Thread.maxPasses { w with currentThread := t.id }
  unfold Thread.evaluate
  dsimp only
  split
  · exact hslices
  · exact hslices.kill

end Machine

end Blockwork
