import Blockwork.Proofs.Machine.SlicesEnd
import Blockwork.Proofs.World.Mail

/-!
What a machine does to the mail. Of all instructions only some natives touch it: they make a request,
or they make a promise, send a question or a broadcast with it and wait. So a slice sends some
requests, and at its end perhaps one promise, for which it waits. No instruction moves a machine to
another target or its variables and lists to another place.
-/

namespace Blockwork

/-- May start scripts. -/
def Request.starts : Request → Bool
  | .broadcast _ _ | .startClone _ => true
  | _ => false

/-- Makes requests that may start scripts. -/
def Native.starts : Native → Bool
  | .broadcast | .broadcastAndWait | .createClone => true
  | _ => false

/-- Serves hand-written code only. -/
def Native.isControl : Native → Bool
  | .control _ => true
  | _ => false

/-- Some step of a block calls a native. -/
def BlockMap.Calls (blocks : BlockMap) (n : Native) : Prop :=
  ∃ id b zs rest, blocks.get? id = some b ∧ b.HasPlan (zs ++ .call n :: rest)

/-! ### What stays as it is -/

namespace Machine

/-- Where a machine lives, and where its variables and lists do. -/
def home (m : Machine) : TargetId × List Slot × List Slot := (m.target, m.vars, m.lists)

lemma home_stopScript (m : Machine) : m.stopScript.home = m.home := by
  unfold stopScript
  split <;> rfl

lemma home_native (n : Native) (m : Machine) (w : World) (x y : Value) :
    (n.run m w x y).machine.home = m.home := by
  cases n
  case control c => cases c <;> first | rfl | exact m.home_stopScript
  case stopThisScript => exact m.home_stopScript
  all_goals
    simp only [Native.run]
    repeat' split
  all_goals rfl

lemma home_callNative (m : Machine) (w : World) (n : Native) (a : Nat) :
    (m.callNative w n a).1.home = m.home := by
  unfold callNative
  split
  · rfl
  · simp only
    rw [← home_native n m w (((m.stack.take n.arity).reverse)[0]?.getD .empty)
      (((m.stack.take n.arity).reverse)[1]?.getD .empty)]
    obtain ⟨address, stack, status, he⟩ := awaited_frame (n.run m w
      (((m.stack.take n.arity).reverse)[0]?.getD .empty)
      (((m.stack.take n.arity).reverse)[1]?.getD .empty)) a n.pops _
    rw [he]
    rfl

lemma promise_stopScript (m : Machine) : m.stopScript.promise = m.promise := by
  unfold stopScript
  split <;> rfl

/-- Nothing but natives makes a machine wait for something else. -/
lemma kept_execute {op : Opcode} (hop : op ≠ .exec) (p : Program) (code : Code) (a operand : Nat)
    (m : Machine) (w : World) : (execute p code a op operand m w).1.home = m.home ∧
      (execute p code a op operand m w).1.promise = m.promise := by
  have hjump : ∀ (m : Machine) (code : Code) (a : Nat),
      ((m.jumpPast code a).home, (m.jumpPast code a).promise) = (m.home, m.promise) := by
    intro m code a
    obtain ⟨address, he⟩ := m.jumpPast_frame code a
    rw [he]
    rfl
  refine Prod.mk.inj (?_ : (_, _) = (_, _))
  cases op
  case exec => exact absurd rfl hop
  case halt => exact congrArg₂ Prod.mk m.home_stopScript m.promise_stopScript
  case list f => cases f <;> simp [execute, stepList, pop_eq, push, home]
  case var f =>
    cases f <;> simp only [execute, stepVariable, pop_eq, push] <;> repeat' split
    all_goals rfl
  all_goals
    simp only [execute, pop_eq, push, endRound, addArgument, callProcedure, openLoop, enterWarp]
    repeat' split
  all_goals first | rfl | exact hjump _ _ _

/-- A machine stays on its target, whatever its code. -/
lemma home_step (p : Program) (m : Machine) (w : World) : (step p m w).1.home = m.home := by
  unfold step
  split
  · exact m.home_stopScript
  · simp only
    split
    · exact m.home_stopScript
    · next op _ =>
      by_cases hop : op = .exec
      · subst hop
        simp only [execute]
        split
        · exact home_callNative _ w _ _
        · rfl
      · exact (kept_execute hop _ _ _ _ _ w).1

end Machine

/-! ### Natives -/

namespace Native

/-- What a native sends. -/
inductive Sends (n : Native) (m : Machine) (x : Mail) (r : Reply) : Prop
  | nothing (mail : r.world.mail = x) (promise : r.machine.promise = m.promise)
  | request (req : Request) (mail : r.world.mail = ⟨x.questions, x.requests ++ [req], x.promises⟩)
      (promise : r.machine.promise = m.promise) (alone : req.promise? = none)
      (starts : req.starts = true → n.starts = true) (silent : n.reports = false)
  | question (q : Question) (own : q.promise = x.promises.make.1)
      (mail : r.world.mail = ⟨x.questions ++ [q], x.requests, x.promises.make.2⟩)
      (reply : r.machine = { m with promise := some q.promise } ∧ r.pause = .go)
      (silent : n.reports = false)
  | broadcast (name : String) (mail : r.world.mail = ⟨x.questions,
        x.requests ++ [.broadcast name (some x.promises.make.1)], x.promises.make.2⟩)
      (reply : r.machine = { m with promise := some x.promises.make.1 } ∧ r.pause = .go)
      (starts : n.starts = true) (silent : n.reports = false)

lemma sends_run {n : Native} (hn : n.isControl = false) (m : Machine) (w : World) (a b : Value) :
    Sends n m w.mail (n.run m w a b) := by
  cases n
  case control c => cases hn
  case wait =>
    simp only [run]
    split <;> exact .nothing rfl rfl
  case stopAll => exact .request .stopAll rfl rfl rfl (by simp [Request.starts]) rfl
  case stopThisScript => exact .nothing rfl m.promise_stopScript
  case stopOtherScripts =>
    exact .request (.stopOthers m.target w.currentThread) rfl rfl rfl (by simp [Request.starts]) rfl
  case createClone =>
    simp only [run]
    split
    · next id _ =>
      rcases w.mail_createClone id with h | ⟨clone, h⟩
      · exact .nothing h rfl
      · exact .request (.startClone clone) h rfl rfl (fun _ => rfl) rfl
    · exact .nothing rfl rfl
  case deleteClone =>
    simp only [run]
    split
    · rcases w.mail_deleteClone m.target with h | h
      · exact .nothing h rfl
      · exact .request (.killThreadsOf m.target) h rfl rfl (by simp [Request.starts]) rfl
    · exact .nothing rfl rfl
  case broadcast => exact .request (.broadcast a.toText none) rfl rfl rfl (fun _ => rfl) rfl
  case broadcastAndWait => exact .broadcast a.toText rfl ⟨rfl, rfl⟩ rfl rfl
  case ask => exact .question _ rfl (World.mail_ask _ _ _ _) ⟨rfl, rfl⟩ rfl
  case bubble kind => exact .nothing (w.mail_setBubble _ _ _) rfl
  case startBubble kind => exact .nothing (w.mail_setBubble _ _ _) rfl
  case clearBubble => exact .nothing (w.mail_setBubble _ _ _) rfl
  all_goals exact .nothing rfl rfl

lemma covers_run (n : Native) (m : Machine) (w : World) (a b : Value) :
    w.targets.Covers (n.run m w a b).world.targets := by
  cases n
  case control c =>
    cases c <;> exact .refl _
  case wait =>
    simp only [run]
    split <;> exact .refl _
  case createClone =>
    simp only [run]
    split
    · exact w.covers_createClone _
    · exact .refl _
  case deleteClone =>
    simp only [run]
    split
    · exact w.covers_deleteClone _
    · exact .refl _
  case ask => exact World.covers_ask _ _ _ _
  case bubble kind => exact w.covers_setBubble _ _ _
  case startBubble kind => exact w.covers_setBubble _ _ _
  case clearBubble => exact w.covers_setBubble _ _ _
  case setVisible v =>
    refine Arena.covers_modify _ _ fun t _ => ?_
    simp only
    split <;> rfl
  case motion f =>
    refine Arena.covers_modify _ _ fun t _ => ?_
    simp only
    split
    · rfl
    · cases f <;> simp only [move, Target.point] <;> first | rfl | (split <;> rfl)
  all_goals exact .refl _

end Native

/-- No block calls what is for hand-written code. -/
lemma BlockMap.Calls.not_control {blocks : BlockMap} {n : Native} (h : blocks.Calls n) :
    n.isControl = false := by
  have key : ∀ r ∈ Palette.builtin.recipes, ∀ ss ∈ r.plans, ∀ s ∈ ss,
      (s.native?.any Native.isControl) = false := by decide
  obtain ⟨id, b, zs, rest, -, hplan⟩ := h
  obtain ⟨r, hr, hss, -⟩ := hplan.mem
  simpa [Recipe.Step.native?] using key r hr _ hss (.call n) (by simp)

open Compiler in
lemma Compiler.Fed.calls {t : Tables} {blocks : BlockMap} {history : List Line} {l : Line} {n : Native}
    (h : Fed t blocks history l n) : blocks.Calls n := by
  obtain ⟨id, b, zs, vs, rest, -, -, -, hb, hplan, -⟩ := h.inputs
  exact ⟨id, b, zs ++ vs, rest, hb, by rwa [List.append_assoc]⟩

namespace Machine

/-! ### Instructions -/

/-- What an instruction sends, and what the machine waits for then; before, it had the promise
`held`. -/
inductive Posts (n : Option Native) (held : Option Promise) (x : Mail) (m' : Machine) (x' : Mail) :
    Prop
  | nothing (mail : x' = x) (promise : m'.promise = held)
  | request (k : Native) (req : Request) (called : n = some k) (silent : k.reports = false)
      (mail : x' = ⟨x.questions, x.requests ++ [req], x.promises⟩) (promise : m'.promise = held)
      (alone : req.promise? = none) (starts : req.starts = true → k.starts = true)
  | question (k : Native) (q : Question) (called : n = some k) (silent : k.reports = false)
      (own : q.promise = x.promises.make.1)
      (mail : x' = ⟨x.questions ++ [q], x.requests, x.promises.make.2⟩)
      (promise : m'.promise = some q.promise) (waits : m'.status = .awaiting)
  | broadcast (k : Native) (name : String) (called : n = some k) (silent : k.reports = false)
      (mail : x' = ⟨x.questions, x.requests ++ [.broadcast name (some x.promises.make.1)],
        x.promises.make.2⟩)
      (promise : m'.promise = some x.promises.make.1) (waits : m'.status = .awaiting)
      (starts : k.starts = true)

lemma posts_callNative {m : Machine} {n : Native} (hn : n.isControl = false)
    (hm : m.status = .running) (w : World) (a : Nat) :
    Posts (some n) m.promise w.mail (m.callNative w n a).1 (m.callNative w n a).2.mail := by
  have hpromise : ∀ (pops : Nat) (r : Native.Reply),
      ((resume a pops r).awaitPromise r.world).promise = r.machine.promise := by
    intro pops r
    obtain ⟨address, stack, status, he⟩ := awaited_frame r a pops r.world
    rw [he]
  -- with a new promise the machine waits
  have hwaits : ∀ (pops : Nat) (r : Native.Reply) (l : Promise.Ledger),
      r.machine = { m with promise := some l.make.1 } ∧ r.pause = .go → r.world.promises = l.make.2 →
      ((resume a pops r).awaitPromise r.world).status = .awaiting := by
    rintro pops ⟨machine, world, value, pause⟩ l ⟨rfl, rfl⟩ hl
    have hpending := (l.isPending_make l.make.1).2 (Or.inl rfl)
    simp only at hl
    rw [resume_of_ne (by simp)]
    simp [awaitPromise, hm, hl, hpending]
  unfold callNative
  split
  · exact .nothing rfl rfl
  · have hsends := n.sends_run hn m w (((m.stack.take n.arity).reverse)[0]?.getD .empty)
      (((m.stack.take n.arity).reverse)[1]?.getD .empty)
    simp only
    generalize n.run m w (((m.stack.take n.arity).reverse)[0]?.getD .empty)
      (((m.stack.take n.arity).reverse)[1]?.getD .empty) = r at hsends
    cases hsends with
    | nothing mail promise => exact .nothing mail ((hpromise _ r).trans promise)
    | request req mail promise alone starts silent =>
      exact .request n req rfl silent mail ((hpromise _ r).trans promise) alone starts
    | question q own mail reply silent =>
      refine .question n q rfl silent own mail ?_ (hwaits _ r w.promises (own ▸ reply) ?_)
      · rw [hpromise, reply.1]
      · exact congrArg Mail.promises mail
    | broadcast name mail reply starts silent =>
      refine .broadcast n name rfl silent mail ?_ (hwaits _ r w.promises reply ?_) starts
      · rw [hpromise, reply.1]
      · exact congrArg Mail.promises mail

lemma mail_stepList (m : Machine) (w : World) (op : ListOp) (i : Nat) :
    (m.stepList w op i).2.mail = w.mail ∧ w.targets.Covers (m.stepList w op i).2.targets := by
  have hplace : ∀ (m : Machine) index extra all, (m.place w i index extra all).2.mail = w.mail ∧
      (m.place w i index extra all).2.targets = w.targets := by
    intro m index extra all
    simp only [place]
    split <;> exact ⟨rfl, rfl⟩
  have hon : ∀ (m : Machine) (w : World) f, (m.onList w i f).mail = w.mail ∧
      w.targets.Covers (m.onList w i f).targets := by
    intro m w f
    unfold onList
    split
    · exact ⟨rfl, Arena.covers_modify _ _ fun _ _ => rfl⟩
    · exact ⟨rfl, .refl _⟩
  have hboth : ∀ (m m' : Machine) index extra all f,
      (m'.onList (m.place w i index extra all).2 i f).mail = w.mail ∧
        w.targets.Covers (m'.onList (m.place w i index extra all).2 i f).targets := by
    intro m m' index extra all f
    obtain ⟨h1, h2⟩ := hplace m index extra all
    obtain ⟨h3, h4⟩ := hon m' (m.place w i index extra all).2 f
    exact ⟨h3.trans h1, h2 ▸ h4⟩
  have hsame : ∀ (m : Machine) index extra all, (m.place w i index extra all).2.mail = w.mail ∧
      w.targets.Covers (m.place w i index extra all).2.targets := by
    intro m index extra all
    obtain ⟨h1, h2⟩ := hplace m index extra all
    exact ⟨h1, h2 ▸ .refl _⟩
  cases op <;> simp only [stepList, pop_eq]
  case append => exact hon _ _ _
  case deleteAll => exact hon _ _ _
  case delete => split <;> first | exact hboth _ _ _ _ _ _ | exact hsame _ _ _ _
  case insert => split <;> first | exact hboth _ _ _ _ _ _ | exact hsame _ _ _ _
  case replace => split <;> first | exact hboth _ _ _ _ _ _ | exact hsame _ _ _ _
  case item => exact hsame _ _ _ _
  all_goals exact ⟨by trivial, .refl _⟩

/-- Nothing but natives sends anything. -/
lemma mail_execute {op : Opcode} (hop : op ≠ .exec) (p : Program) (code : Code) (a operand : Nat)
    (m : Machine) (w : World) :
    (execute p code a op operand m w).2.mail = w.mail ∧
      w.targets.Covers (execute p code a op operand m w).2.targets := by
  cases op
  case exec => exact absurd rfl hop
  case list f => exact mail_stepList m w f operand
  case var f =>
    cases f <;> simp only [execute, stepVariable, pop_eq] <;> repeat' split
    case read => exact ⟨by trivial, .refl _⟩
    all_goals first
      | exact ⟨rfl, Arena.covers_modify _ _ fun _ _ => rfl⟩
      | exact ⟨by trivial, .refl _⟩
  all_goals
    simp only [execute]
    repeat' split
  all_goals exact ⟨by trivial, .refl _⟩

/-- A step brings no new blocks into the world. -/
lemma covers_step (p : Program) (m : Machine) (w : World) :
    w.targets.Covers (step p m w).2.targets := by
  unfold step
  split
  · exact .refl _
  · next code _ =>
    simp only
    split
    · exact .refl _
    · next op _ =>
      by_cases hop : op = .exec
      · subst hop
        simp only [execute]
        split
        · unfold callNative
          split
          · exact .refl _
          · exact Native.covers_run _ _ _ _ _
        · exact .refl _
      · exact (mail_execute hop p code _ _ _ w).2

lemma covers_runs {p : Program} {x y : Machine × World} (h : Runs p x y) :
    x.2.targets.Covers y.2.targets := by
  induction h with
  | refl => exact .refl _
  | tail _ hs ih =>
    obtain ⟨-, rfl⟩ := hs
    exact ih.trans (covers_step p _ _)

lemma runs_steps (p : Program) (fuel : Nat) (m : Machine) (w : World) :
    Runs p (m, w) (steps p fuel m w) := by
  induction fuel generalizing m w with
  | zero => exact .refl p _
  | succ fuel ih =>
    rw [steps]
    split
    · next hm => exact (Runs.step (beq_iff_eq.1 hm)).trans (ih _ _)
    · exact .refl p _

/-! ### Slices -/

/-- Requests for whose outcome nobody waits; those that may start scripts come from natives that
some block calls. -/
def Plain (blocks : BlockMap) (rs : List Request) : Prop :=
  ∀ r ∈ rs, r.promise? = none ∧ (r.starts = true → ∃ n, blocks.Calls n ∧ n.starts = true)

lemma Plain.snoc {blocks : BlockMap} {rs : List Request} (h : Plain blocks rs) {r : Request}
    (hr : r.promise? = none ∧ (r.starts = true → ∃ n, blocks.Calls n ∧ n.starts = true)) :
    Plain blocks (rs ++ [r]) := by
  intro x hx
  rcases List.mem_append.1 hx with hx | hx
  · exact h x hx
  · rwa [List.mem_singleton.1 hx]

lemma Plain.promises {blocks : BlockMap} {rs : List Request} (h : Plain blocks rs) :
    rs.filterMap Request.promise? = [] :=
  List.filterMap_eq_nil_iff.2 fun r hr => (h r hr).1

/-- What a slice sends, and what the machine waits for then. -/
inductive Sent (blocks : BlockMap) (x : Mail) (m' : Machine) (x' : Mail) : Prop
  | plain (rs : List Request) (only : Plain blocks rs)
      (mail : x' = ⟨x.questions, x.requests ++ rs, x.promises⟩) (promise : m'.promise = none)
  | question (rs : List Request) (only : Plain blocks rs) (q : Question)
      (own : q.promise = x.promises.make.1)
      (mail : x' = ⟨x.questions ++ [q], x.requests ++ rs, x.promises.make.2⟩)
      (promise : m'.promise = some q.promise) (waits : m'.status = .awaiting)
  | broadcast (rs : List Request) (only : Plain blocks rs) (name : String)
      (mail : x' = ⟨x.questions, x.requests ++ (rs ++ [.broadcast name (some x.promises.make.1)]),
        x.promises.make.2⟩)
      (promise : m'.promise = some x.promises.make.1) (waits : m'.status = .awaiting)
      (starts : ∃ n, blocks.Calls n ∧ n.starts = true)

section

open Compiler

variable {strict : Bool} {p : Program} {blocks : BlockMap} {ls pre post : List Line} {l : Line}
  {c : Call} {rest : List Call} {own outer : List Loop} {m : Machine}

/-- The natives of a routine are those that its blocks call. -/
lemma Stands.calls_native (hs : Stands strict p blocks ls pre l post c rest own outer m) {n : Native}
    (hn : l.instruction.native? p.tables = some n) : blocks.Calls n :=
  ((hs.laid.proper pre l post hs.lines).fed n hn).calls

lemma Stands.posts (hs : Stands strict p blocks ls pre l post c rest own outer m)
    (hm : m.status = .running) (w : World) :
    Posts (l.instruction.native? p.tables) m.promise w.mail (step p m w).1 (step p m w).2.mail := by
  rw [hs.step_eq w]
  by_cases hop : l.opcode = .exec
  · obtain ⟨n, hn, hentry⟩ := exists_native hs.full.1 hs.full.2 hop
    rw [hop, hn]
    simp only [execute, hentry]
    exact posts_callNative (m := m.put (Code.extent (codeOf (pre ++ [l]))) m.stack)
      (hs.calls_native hn).not_control hm w _
  · exact .nothing (mail_execute hop _ _ _ _ _ w).1 (kept_execute hop _ _ _ _ _ w).2

/-- A machine that does not wait has no promise. -/
lemma Reachable.no_promise (hlaid : ∀ r, (p.code? r).isSome → ∃ ls, p.Laid strict blocks r ls)
    (h : Reachable p m) : m.status = .running ∨ m.status = .yielded → m.promise = none := by
  induction h with
  | new => exact fun _ => rfl
  | @step m hm hrun w ih =>
    obtain ⟨ls, pre, l, post, c, rest, own, outer, hs, -⟩ :=
      ((hm.inOrder hlaid).resolve_left (by rw [hrun]; simp)).2
    have hnone := ih (Or.inl hrun)
    intro hstatus
    cases hs.posts hrun w with
    | nothing _ promise => rw [promise, hnone]
    | request k req _ _ _ promise => rw [promise, hnone]
    | question k q _ _ _ _ _ waits => simp [waits] at hstatus
    | broadcast k name _ _ _ _ waits => simp [waits] at hstatus
  | @wake m _ w hw ih =>
    intro _
    simp only [Machine.wake]
    split
    · rfl
    · next hawait =>
      refine ih ?_
      cases hs : m.status <;> simp_all [isReady]
  | kill => simp [finish]
  | restart => exact fun _ => rfl
  | condition => exact fun _ => rfl

/-- What is sent on the way through a slice. -/
lemma Reachable.sent (hlaid : ∀ r, (p.code? r).isSome → ∃ ls, p.Laid strict blocks r ls)
    (h : Reachable p m) (hm : m.status = .running) {w : World} {y : Machine × World}
    (hruns : Runs p (m, w) y) : Sent blocks w.mail y.1 y.2.mail := by
  induction hruns with
  | refl =>
    refine .plain [] (by simp [Plain]) ?_ (h.no_promise hlaid (Or.inl hm))
    simp [World.mail]
  | @tail y z hy hs ih =>
    obtain ⟨hrun, rfl⟩ := hs
    -- what came before has sent nothing to wait for, else the slice were over
    obtain ⟨rs, honly, hmail, hnone⟩ : ∃ rs, Plain blocks rs ∧
        y.2.mail = ⟨w.questions, w.requests ++ rs, w.promises⟩ ∧ y.1.promise = none := by
      cases ih with
      | plain rs only mail promise => exact ⟨rs, only, mail, promise⟩
      | question _ _ _ _ _ _ waits => simp [waits] at hrun
      | broadcast _ _ _ _ _ waits => simp [waits] at hrun
    obtain ⟨ls, pre, l, post, c, rest, own, outer, hstands, -⟩ :=
      (((h.runs hy).inOrder hlaid).resolve_left (by rw [hrun]; simp)).2
    have hposts := hstands.posts hrun y.2
    rw [hmail] at hposts
    cases hposts with
    | nothing mail promise => exact .plain rs honly mail (promise.trans hnone)
    | request k req called silent mail promise alone starts =>
      refine .plain (rs ++ [req]) (honly.snoc ⟨alone, fun hr => ?_⟩) ?_ (promise.trans hnone)
      · exact ⟨k, hstands.calls_native called, starts hr⟩
      · rw [mail, ← List.append_assoc]
        rfl
    | question k q called silent own mail promise waits =>
      exact .question rs honly q own mail promise waits
    | broadcast k name called silent mail promise waits starts =>
      refine .broadcast rs honly name ?_ promise waits ⟨k, hstands.calls_native called, starts⟩
      rw [mail, ← List.append_assoc]
      rfl

/-! ### Conditions -/

/-- A condition sends nothing, and it does not leave its routine. -/
lemma Stands.condition (hs : Stands strict p blocks ls pre l post c rest own outer m)
    (hwait : Waiting strict p blocks c rest outer) (hc : c.routine = .predicate)
    (hm : m.status = .running) (w : World) : (step p m w).2.mail = w.mail ∧
      ((step p m w).1.status = .finished ∨ (step p m w).1.routine = .predicate) := by
  have hrest : rest = [] := by
    cases hwait with
    | bottom => rfl
    | above hnot => exact absurd hc hnot
  have hl := hs.laid.condition hc l (by rw [hs.lines]; simp)
  constructor
  · have hnone : ∀ k, l.instruction.native? p.tables = some k → k.reports = false → False := by
      intro k hk hreports
      rcases hl with hl | hl
      · rw [Instruction.native?_of_ne (by rw [show l.instruction.opcode = _ from hl]; simp)] at hk
        cases hk
      · rw [Instruction.settles_of_native hk, hreports] at hl
        cases hl
    cases hs.posts hm w with
    | nothing mail => exact mail
    | request k _ called silent => exact (hnone k called silent).elim
    | question k _ called silent => exact (hnone k called silent).elim
    | broadcast k _ called silent => exact (hnone k called silent).elim
  · rcases hs.result hm w with hfin | ⟨-, -, hstep⟩
    · exact Or.inl hfin
    generalize (Machine.step p m w).1 = m' at hstep
    cases hstep with
    | stays pre' post' own' c' lines more on leads forward address loops inside calls same =>
      exact Or.inr (by simp [Machine.routine, calls, same.1, hc])
    | calls i arguments called =>
      rcases hl with hl | hl
      · rw [called] at hl
        cases hl
      · rw [settles_of_opcode called (by simp)] at hl
        cases hl
    | returns d rest' above =>
      rw [hrest] at above
      cases above

lemma Reachable.condition_runs (hlaid : ∀ r, (p.code? r).isSome → ∃ ls, p.Laid strict blocks r ls)
    (h : Reachable p m) (hc : m.routine = .predicate) {w : World} {y : Machine × World}
    (hruns : Runs p (m, w) y) :
    y.2.mail = w.mail ∧ (y.1.status = .finished ∨ y.1.routine = .predicate) := by
  induction hruns with
  | refl => exact ⟨rfl, Or.inr hc⟩
  | @tail y z hy hs ih =>
    obtain ⟨hrun, rfl⟩ := hs
    have hroutine := ih.2.resolve_left (by rw [hrun]; simp)
    obtain ⟨ls, pre, l, post, c, rest, own, outer, hstands, hwait⟩ :=
      (((h.runs hy).inOrder hlaid).resolve_left (by rw [hrun]; simp)).2
    have hcr : c.routine = .predicate := by
      simpa [Machine.routine, hstands.calls] using hroutine
    obtain ⟨hmail, hend⟩ := hstands.condition hwait hcr hrun y.2
    exact ⟨hmail.trans ih.1, hend⟩

end

lemma covers_run (fuel : Nat) (p : Program) (m : Machine) (w : World) :
    w.targets.Covers (m.run fuel p w).2.targets := by
  unfold run
  split
  · exact covers_runs (runs_steps p fuel m.wake w)
  · exact .refl _

/-- Slices of a condition send nothing. -/
lemma Reachable.condition_slices {strict : Bool} {p : Program} {blocks : BlockMap}
    (hlaid : ∀ r, (p.code? r).isSome → ∃ ls, p.Laid strict blocks r ls) (fuel passes : Nat)
    {m : Machine} (h : Reachable p m) (hc : m.routine = .predicate) (w : World) :
    let y := Thread.slices fuel p passes m w
    y.2.mail = w.mail ∧ w.targets.Covers y.2.targets ∧
      (Reachable p y.1 ∨ y.1.status = .faulted .overrun) := by
  induction passes generalizing m w with
  | zero => exact ⟨rfl, .refl _, Or.inl h⟩
  | succ passes ih =>
    -- one slice, at its end possibly given up
    have hrun : (m.run fuel p w).2.mail = w.mail ∧
        ((m.run fuel p w).1.status = .yielded → (m.run fuel p w).1.routine = .predicate) := by
      unfold Machine.run
      split
      · next hready =>
        obtain ⟨hmail, hend⟩ :=
          (h.wake hready).condition_runs hlaid hc (runs_steps p fuel m.wake w)
        refine ⟨hmail, fun hy => ?_⟩
        simp only [giveUp] at hy ⊢
        split
        · next hg =>
          rw [if_pos hg] at hy
          cases hy
        · next hg =>
          rw [if_neg hg] at hy
          exact hend.resolve_left (by rw [hy]; simp)
      · exact ⟨rfl, fun _ => hc⟩
    have hreach : Reachable p (m.run fuel p w).1 ∨ (m.run fuel p w).1.status = .faulted .overrun := by
      by_cases hf : (m.run fuel p w).1.status = .faulted .overrun
      · exact Or.inr hf
      · exact Or.inl (h.run fuel w hf)
    simp only [Thread.slices]
    split
    · next hy =>
      have hyield := beq_iff_eq.1 hy
      obtain ⟨h1, h2, h3⟩ := ih (hreach.resolve_right (by simp [hyield])) (hrun.2 hyield)
        (m.run fuel p w).2
      exact ⟨h1.trans hrun.1, (covers_run fuel p m w).trans h2, h3⟩
    · exact ⟨hrun.1, covers_run fuel p m w, hreach⟩

end Machine

lemma Machine.giveUp_of_not_faulted {m : Machine} (h : m.giveUp.isFaulted = false) :
    m.giveUp = m := by
  unfold giveUp at h ⊢
  split
  · next hrun =>
    rw [if_pos hrun] at h
    cases h
  · rfl

namespace Thread

/-- A slice of a thread, which does nothing if the thread is not ready. -/
lemma sent_run {strict : Bool} {blocks : BlockMap} {t : Thread}
    (hlaid : ∀ r, (t.program.code? r).isSome → ∃ ls, t.program.Laid strict blocks r ls)
    (h : Machine.Reachable t.program t.machine) (fuel : Nat) (w : World)
    (hf : (t.run fuel w).1.machine.isFaulted = false) :
    t.machine.isReady w = false ∧ (t.run fuel w).1 = t ∧ (t.run fuel w).2.mail = w.mail ∨
      t.machine.isReady w = true ∧
        Machine.Sent blocks w.mail (t.run fuel w).1.machine (t.run fuel w).2.mail := by
  let w' := { w with currentThread := t.id }
  cases hready : t.machine.isReady w with
  | false =>
    have hrun : t.run fuel w = (t, w') := by
      simp only [run, Machine.run]
      rw [if_neg (show ¬ t.machine.isReady w' = true by rw [Bool.not_eq_true]; exact hready)]
    exact Or.inl ⟨rfl, by rw [hrun], by rw [hrun]; rfl⟩
  | true =>
    obtain ⟨y, hy⟩ : ∃ y, Machine.steps t.program fuel t.machine.wake w' = y := ⟨_, rfl⟩
    have hsent := (h.wake hready).sent hlaid rfl (hy ▸ Machine.runs_steps t.program fuel _ w')
    have hrun : t.run fuel w = ({ t with machine := y.1.giveUp }, y.2) := by
      simp only [run, Machine.run]
      rw [if_pos (show t.machine.isReady w' = true from hready), hy]
    rw [hrun] at hf ⊢
    rw [Machine.giveUp_of_not_faulted hf]
    exact Or.inr ⟨rfl, hsent⟩

/-- The condition of a hat leaves nothing behind but its thread. -/
lemma runPredicate_frame {strict : Bool} {blocks : BlockMap} {t : Thread}
    (hlaid : ∀ r, (t.program.code? r).isSome → ∃ ls, t.program.Laid strict blocks r ls)
    (h : Machine.Reachable t.program t.machine) (fuel : Nat) (w : World) :
    let x := t.runPredicate fuel w
    x.2.2.mail = w.mail ∧ w.targets.Covers x.2.2.targets ∧ x.2.1.program = t.program ∧
      (Machine.Reachable t.program x.2.1.machine ∨ x.2.1.machine.status = .faulted .overrun) := by
  unfold runPredicate
  split
  · exact ⟨rfl, .refl _, rfl, Or.inl h⟩
  · next hp =>
    have hsome : t.program.predicate.isSome := Option.ne_none_iff_isSome.1 (by simpa using hp)
    obtain ⟨h1, h2, h3⟩ := (h.condition hsome).condition_slices hlaid fuel maxPasses rfl
      { w with currentThread := t.id }
    refine ⟨h1, h2, rfl, ?_⟩
    simp only [evaluate]
    split
    · exact h3
    · next hfault =>
      refine Or.inl (h3.resolve_right fun ho => hfault ?_).kill
      simp only [Machine.isFaulted, ho]

end Thread

end Blockwork
