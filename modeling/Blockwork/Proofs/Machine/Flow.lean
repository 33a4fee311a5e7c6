import Blockwork.Proofs.Code.Nesting
import Blockwork.Proofs.Machine.Instructions
import Blockwork.Proofs.Number.Floor
import Blockwork.Proofs.Reference.Interpreter

/-!
The flow of control through code that stands for commands. A machine may give way in between and be
woken again, so a way through the code is a chain of steps and wakings. Code for a command leads to
its end and leaves the machine as it found it, or it ends the activation.
-/

namespace Blockwork

namespace Machine

/-- One step, or a new slice for a machine that gave way. -/
def Moves (p : Program) (x y : Machine × World) : Prop :=
  Steps p x y ∨ x.1.status = .yielded ∧ y = (x.1.wake, x.2)

/-- Some steps and slices. -/
def Reaches (p : Program) : Machine × World → Machine × World → Prop :=
  Relation.ReflTransGen (Moves p)

lemma Reaches.refl (p : Program) (x : Machine × World) : Reaches p x x :=
  Relation.ReflTransGen.refl

lemma Reaches.trans {p : Program} {x y z : Machine × World} (h : Reaches p x y)
    (k : Reaches p y z) : Reaches p x z := Relation.ReflTransGen.trans h k

lemma Runs.reaches {p : Program} {x y : Machine × World} (h : Runs p x y) : Reaches p x y :=
  Relation.ReflTransGen.mono (fun _ _ h => Or.inl h) _ _ h

/-- A machine that gave way goes on. -/
lemma reaches_wake {p : Program} {m : Machine} (hm : m.status = .running) (w : World) :
    Reaches p ({ m with status := .yielded }, w) (m, w) := by
  refine Relation.ReflTransGen.single (Or.inr ⟨rfl, ?_⟩)
  cases m
  simp_all [wake]

/-! ### Ends of commands -/

/-- The machine is at work on a scene, and the loops of other activations are not its own. -/
structure Steady (p : Program) (s : Scene) (m : Machine) : Prop extends Acts p s m where
  loops : ∀ c ∈ m.calls.head?, c.openLoops ≤ m.loops.length

lemma Steady.put {p : Program} {s : Scene} {m : Machine} (h : Steady p s m) (a : Nat)
    (st : List Value) : Steady p s (m.put a st) :=
  ⟨h.toActs.put a st, h.loops⟩

/-- From a state the machine gets to an address with all else as in `m`, or its activation ends. -/
def Ends (p : Program) (x : Machine × World) (m : Machine) (a : Nat) : Ending × World → Prop
  | (.done, w) => Reaches p x (m.put a m.stack, w)
  | (.stopped, w) => ∃ b, Reaches p x ((m.put b m.stack).stopScript, w)

variable {p : Program} {s : Scene}

lemma Ends.of_reaches {x y : Machine × World} {m : Machine} {a : Nat} {r : Ending × World}
    (h : Reaches p x y) (k : Ends p y m a r) : Ends p x m a r := by
  obtain ⟨e, w⟩ := r
  cases e with
  | done => exact h.trans k
  | stopped =>
    obtain ⟨b, hb⟩ := k
    exact ⟨b, h.trans hb⟩

/-- What comes after code that ended by itself. -/
lemma Ends.andThen {x : Machine × World} {m : Machine} {a b : Nat} {r : Ending × World}
    (h : Ends p x m a r)
    (k : ∀ w, Reaches p (m.put a m.stack, w) (m.put b m.stack, w)) : Ends p x m b r := by
  obtain ⟨e, w⟩ := r
  cases e with
  | done => exact h.trans (k w)
  | stopped => exact h

@[simp] lemma ends_put (x : Machine × World) (m : Machine) (a b : Nat) (r : Ending × World) :
    Ends p x (m.put a m.stack) b r ↔ Ends p x m b r := by
  obtain ⟨e, w⟩ := r
  cases e <;> rfl

/-- Wherever these instructions stand, running them from the world `w` has the outcome `r`. -/
def Performs (p : Program) (s : Scene) (is : List Instruction) (w : World) (r : Ending × World) :
    Prop :=
  ∀ (pre post : List Instruction) (m : Machine), p.Holds m.routine (pre ++ (is ++ post)) →
    m.address = Code.extent pre → Steady p s m →
    Ends p (m, w) m (Code.extent (pre ++ is)) r

lemma Performs.from {is pre post : List Instruction} {w : World} {r : Ending × World}
    {m : Machine} (h : Performs p s is w r) (hp : p.Holds m.routine (pre ++ (is ++ post)))
    (hm : Steady p s m) :
    Ends p (m.put (Code.extent pre) m.stack, w) m (Code.extent (pre ++ is)) r :=
  (ends_put _ m _ _ _).1 (h pre post (m.put _ m.stack) hp rfl (hm.put _ _))

lemma performs_of_does {is : List Instruction} {w w' : World} (h : Does p s is [] w [] w') :
    Performs p s is w (.done, w') := by
  intro pre post m hp ha hm
  exact (h pre post m m.stack hp ha hm.toActs rfl).reaches

lemma performs_nil (w : World) : Performs p s [] w (.done, w) := performs_of_does (.nil [] w)

lemma Performs.trans {is js : List Instruction} {w w' : World} {r : Ending × World}
    (h : Performs p s is w (.done, w')) (k : Performs p s js w' r) :
    Performs p s (is ++ js) w r := by
  intro pre post m hp ha hm
  have h1 := h pre (js ++ post) m (by simpa using hp) ha hm
  rw [← List.append_assoc]
  exact .of_reaches h1 (k.from (by simpa using hp) hm)

/-- What comes after a stop is not reached. -/
lemma Performs.stopped {is : List Instruction} {w w' : World}
    (h : Performs p s is w (.stopped, w')) (js : List Instruction) :
    Performs p s (is ++ js) w (.stopped, w') := by
  intro pre post m hp ha hm
  exact h pre (js ++ post) m (by simpa using hp) ha hm

/-! ### Changes of variables and lists -/

lemma does_changeVar {x : UInt32} {r : Reference} (h : p.tables.vars[x.toNat]? = some r)
    {op : VariableOp} (hop : op ≠ .read) (v : Value) (w : World) :
    Does p s [⟨.var op, [x]⟩] [v] w [] (Command.onVariable s r.id op [v] w) :=
  does_one fun code a m st hm hst => by
    have hslot := hm.vars _ r h
    cases op with
    | read => exact absurd rfl hop
    | set =>
      simp [execute, stepVariable, pop, hst, hslot, Command.onVariable, Scene.setVariable, put]
    | change =>
      simp [execute, stepVariable, pop, hst, hslot, Command.onVariable, Scene.changeVariable, put]

lemma Acts.onList_eq {m : Machine} (hm : Acts p s m) {i : Nat} {r : Reference}
    (h : p.tables.lists[i]? = some r) (w : World) (f : ItemList → ItemList) :
    m.onList w i f = s.onList r.id f w := by
  simp [onList, hm.lists i r h, Scene.onList]

/-- How many values the commands on lists take. -/
def listChangeArity : ListOp → Option Nat
  | .deleteAll => some 0
  | .append | .delete => some 1
  | .insert | .replace => some 2
  | _ => none

lemma does_changeList {x : UInt32} {r : Reference} (h : p.tables.lists[x.toNat]? = some r)
    {op : ListOp} {vs : List Value} (hop : listChangeArity op = some vs.length) (w : World) :
    Does p s [⟨.list op, [x]⟩] vs w [] (Command.onList s r.id op vs w) := by
  refine does_one fun code a m st hm hst => ?_
  have hon : ∀ st w f, ({ m with stack := st } : Machine).onList w x.toNat f =
      s.onList r.id f w := fun st w f => (hm.put m.address st).onList_eq h w f
  have hplace : ∀ st w index extra acceptAll,
      ({ m with stack := st } : Machine).place w x.toNat index extra acceptAll =
        Scene.place w index (s.listSize w r.id + extra) acceptAll :=
    fun st w index extra acceptAll => (hm.put m.address st).place_eq h w index extra acceptAll
  cases op <;> simp only [listChangeArity, Option.some.injEq, reduceCtorEq] at hop
  case deleteAll =>
    obtain rfl := List.length_eq_zero_iff.1 hop.symm
    have hst' : m.stack = st := by simpa using hst
    simp only [execute, stepList, operand_singleton, Command.onList, hm.onList_eq h]
    rw [← hst']
    rfl
  case append =>
    obtain ⟨v, rfl⟩ := List.length_eq_one_iff.1 hop.symm
    simp only [execute, stepList, operand_singleton, pop, hst, List.reverse_singleton,
      List.singleton_append, hon, Command.onList]
    rfl
  case delete =>
    obtain ⟨v, rfl⟩ := List.length_eq_one_iff.1 hop.symm
    simp only [execute, stepList, operand_singleton, pop, hst, List.reverse_singleton,
      List.singleton_append, hon, hplace, Command.onList, Nat.add_zero]
    rfl
  case insert =>
    obtain ⟨v, index, rfl⟩ := List.length_eq_two.1 hop.symm
    simp only [execute, stepList, operand_singleton, pop, hst, List.reverse_cons, List.reverse_nil,
      List.nil_append, List.cons_append, hon, hplace, Command.onList]
    rfl
  case replace =>
    obtain ⟨index, v, rfl⟩ := List.length_eq_two.1 hop.symm
    simp only [execute, stepList, operand_singleton, pop, hst, List.reverse_cons, List.reverse_nil,
      List.nil_append, List.cons_append, hon, hplace, Command.onList, Nat.add_zero]
    rfl

/-! ### Jumps -/

lemma jump_branch {r : Routine} {pre xs post : List Instruction} {op close : Opcode}
    (h : p.Holds r (pre ++ ⟨op, []⟩ :: (xs ++ ⟨close, []⟩ :: post)))
    (hop : op = .branch ∨ op = .otherwise) (hclose : close = .otherwise ∨ close = .endBranch)
    (hx : Code.Nested (xs.map (·.opcode))) :
    (Code.ofInstructions (pre ++ ⟨op, []⟩ :: (xs ++ ⟨close, []⟩ :: post))).jump?
      (Code.extent pre) = some (Code.extent (pre ++ ⟨op, []⟩ :: xs)) := by
  rw [Code.jump?_eq_jumpFrom h.full]
  simpa [Code.extent] using Code.jumpFrom_branch hop hx hclose

lemma jump_loop {r : Routine} {pre xs post : List Instruction} {op : Opcode}
    (h : p.Holds r (pre ++ ⟨op, []⟩ :: (xs ++ ⟨.loopEnd, []⟩ :: post)))
    (hop : op.opensLoop = true) (hx : Code.Nested (xs.map (·.opcode))) :
    (Code.ofInstructions (pre ++ ⟨op, []⟩ :: (xs ++ ⟨.loopEnd, []⟩ :: post))).jump?
      (Code.extent pre) = some (Code.extent (pre ++ ⟨op, []⟩ :: xs)) := by
  rw [Code.jump?_eq_jumpFrom h.full]
  simpa [Code.extent] using Code.jumpFrom_loop hop hx

lemma jump_test {r : Routine} {pre xs ys post : List Instruction}
    (h : p.Holds r (pre ++ ⟨.untilLoop, []⟩ :: (xs ++ ⟨.untilTest, []⟩ ::
      (ys ++ ⟨.loopEnd, []⟩ :: post))))
    (hx : Code.Nested (xs.map (·.opcode))) (hy : Code.Nested (ys.map (·.opcode))) :
    (Code.ofInstructions (pre ++ ⟨.untilLoop, []⟩ :: (xs ++ ⟨.untilTest, []⟩ ::
      (ys ++ ⟨.loopEnd, []⟩ :: post)))).jump? (Code.extent (pre ++ ⟨.untilLoop, []⟩ :: xs)) =
      some (Code.extent (pre ++ ⟨.untilLoop, []⟩ :: (xs ++ ⟨.untilTest, []⟩ :: ys))) := by
  rw [Code.jump?_eq_jumpFrom h.full]
  simpa [Code.extent] using Code.jumpFrom_test hx hy

lemma jumpPast_put {code : Code} {a t : Nat} (h : code.jump? a = some t) (m : Machine) (b : Nat)
    (st : List Value) : (m.put b st).jumpPast code a = m.put (t + 1) st := by
  simp only [jumpPast, h]
  rfl

/-! ### Single instructions -/

section

variable {m : Machine} (hm : m.status = .running) {st : List Value} {w : World}
  {pre xs ys post : List Instruction}

include hm

lemma reaches_execute {i : Instruction} (hp : p.Holds m.routine (pre ++ i :: post))
    {y : Machine × World}
    (h : execute p (.ofInstructions (pre ++ i :: post)) (Code.extent pre) i.opcode i.operand
      (m.put (Code.extent (pre ++ [i])) st) w = y) :
    Reaches p (m.put (Code.extent pre) st, w) y := by
  rw [← h]
  exact (@runs_instruction p (m.put (Code.extent pre) st) i pre post hp rfl hm w).reaches

/-- Going past an instruction that does nothing. -/
lemma reaches_idle {op : Opcode} (hop : op = .start ∨ op = .endBranch)
    (hp : p.Holds m.routine (pre ++ ⟨op, []⟩ :: post)) :
    Reaches p (m.put (Code.extent pre) st, w) (m.put (Code.extent (pre ++ [⟨op, []⟩])) st, w) := by
  refine reaches_execute hm hp ?_
  rcases hop with rfl | rfl <;> rfl

lemma reaches_branch_true {v : Value} (hv : v.toBool = true)
    (hp : p.Holds m.routine (pre ++ ⟨.branch, []⟩ :: post)) :
    Reaches p (m.put (Code.extent pre) (v :: st), w)
      (m.put (Code.extent (pre ++ [⟨.branch, []⟩])) st, w) := by
  refine reaches_execute hm hp ?_
  simp only [execute, pop, put_stack, hv, if_true]
  rfl

lemma reaches_branch_false {v : Value} (hv : v.toBool = false) {close : Opcode}
    (hclose : close = .otherwise ∨ close = .endBranch) (hx : Code.Nested (xs.map (·.opcode)))
    (hp : p.Holds m.routine (pre ++ ⟨.branch, []⟩ :: (xs ++ ⟨close, []⟩ :: post))) :
    Reaches p (m.put (Code.extent pre) (v :: st), w)
      (m.put (Code.extent (pre ++ ⟨.branch, []⟩ :: (xs ++ [⟨close, []⟩]))) st, w) := by
  have hcount : close.operandCount = 0 := by rcases hclose with rfl | rfl <;> rfl
  refine reaches_execute hm hp ?_
  simp only [execute, pop, put_stack, hv]
  change ((m.put _ st).jumpPast _ _, w) = _
  rw [jumpPast_put (jump_branch hp (Or.inl rfl) hclose hx)]
  simp [hcount, Nat.add_assoc]

/-- The alternative of a branch that was taken is passed over. -/
lemma reaches_otherwise (hx : Code.Nested (xs.map (·.opcode)))
    (hp : p.Holds m.routine (pre ++ ⟨.otherwise, []⟩ :: (xs ++ ⟨.endBranch, []⟩ :: post))) :
    Reaches p (m.put (Code.extent pre) st, w)
      (m.put (Code.extent (pre ++ ⟨.otherwise, []⟩ :: (xs ++ [⟨.endBranch, []⟩]))) st, w) := by
  refine reaches_execute hm hp ?_
  simp only [execute]
  rw [jumpPast_put (jump_branch hp (Or.inr rfl) (Or.inr rfl) hx)]
  simp [Opcode.operandCount, Nat.add_assoc]

end

/-! ### Branches -/

lemma performs_branch {xs ys : List Instruction} {w w' : World} {v : Value} {r : Ending × World}
    (hx : Does p s xs [] w [v] w') (hn : Code.Nested (ys.map (·.opcode)))
    (hyes : v.toBool = true → Performs p s ys w' r)
    (hno : v.toBool = false → r = (.done, w')) :
    Performs p s (xs ++ ⟨.branch, []⟩ :: (ys ++ [⟨.endBranch, []⟩])) w r := by
  intro pre post m hp ha hm
  have hp' : p.Holds m.routine
      ((pre ++ xs) ++ ⟨.branch, []⟩ :: (ys ++ ⟨.endBranch, []⟩ :: post)) := by simpa using hp
  refine .of_reaches (hx pre _ m m.stack (by simpa using hp) ha hm.toActs rfl).reaches ?_
  cases hv : v.toBool with
  | true =>
    refine .of_reaches (reaches_branch_true hm.running hv hp') ?_
    have hbody := @Performs.from _ _ _ ((pre ++ xs) ++ [⟨.branch, []⟩]) (⟨.endBranch, []⟩ :: post)
      _ _ m (hyes hv) (by simpa using hp') hm
    refine hbody.andThen fun w₁ => ?_
    have hend := @reaches_idle p m hm.running m.stack w₁
      (((pre ++ xs) ++ [⟨.branch, []⟩]) ++ ys) post .endBranch (Or.inr rfl) (by simpa using hp')
    simpa using hend
  | false =>
    rw [hno hv]
    simpa [Ends] using reaches_branch_false hm.running hv (Or.inr rfl) hn hp'

lemma performs_choice {xs ys zs : List Instruction} {w w' : World} {v : Value}
    {r : Ending × World} (hx : Does p s xs [] w [v] w') (hy : Code.Nested (ys.map (·.opcode)))
    (hz : Code.Nested (zs.map (·.opcode))) (hyes : v.toBool = true → Performs p s ys w' r)
    (hno : v.toBool = false → Performs p s zs w' r) :
    Performs p s (xs ++ ⟨.branch, []⟩ :: (ys ++ ⟨.otherwise, []⟩ :: (zs ++ [⟨.endBranch, []⟩])))
      w r := by
  intro pre post m hp ha hm
  have hp' : p.Holds m.routine ((pre ++ xs) ++ ⟨.branch, []⟩ ::
      (ys ++ ⟨.otherwise, []⟩ :: (zs ++ ⟨.endBranch, []⟩ :: post))) := by simpa using hp
  refine .of_reaches (hx pre _ m m.stack (by simpa using hp) ha hm.toActs rfl).reaches ?_
  cases hv : v.toBool with
  | true =>
    refine .of_reaches (reaches_branch_true hm.running hv hp') ?_
    have hbody := @Performs.from _ _ _ ((pre ++ xs) ++ [⟨.branch, []⟩])
      (⟨.otherwise, []⟩ :: (zs ++ ⟨.endBranch, []⟩ :: post)) _ _ m (hyes hv) (by simpa using hp') hm
    refine hbody.andThen fun w₁ => ?_
    have hskip := @reaches_otherwise p m hm.running m.stack w₁
      (((pre ++ xs) ++ [⟨.branch, []⟩]) ++ ys) zs post hz (by simpa using hp')
    simpa using hskip
  | false =>
    refine .of_reaches (reaches_branch_false hm.running hv (Or.inl rfl) hy hp') ?_
    have hbody := @Performs.from _ _ _
      ((pre ++ xs) ++ ⟨.branch, []⟩ :: (ys ++ [⟨.otherwise, []⟩])) (⟨.endBranch, []⟩ :: post)
      _ _ m (hno hv) (by simpa using hp') hm
    refine hbody.andThen fun w₁ => ?_
    have hend := @reaches_idle p m hm.running m.stack w₁
      (((pre ++ xs) ++ ⟨.branch, []⟩ :: (ys ++ [⟨.otherwise, []⟩])) ++ zs) post .endBranch
      (Or.inr rfl) (by simpa using hp')
    simpa using hend

/-! ### Loops -/

/-- The machine inside of one more loop. -/
def inLoop (m : Machine) (kind : LoopKind) (start : Nat) : Machine :=
  { m with loops := ⟨kind, start⟩ :: m.loops }

@[simp] lemma inLoop_stack (m : Machine) (kind : LoopKind) (start : Nat) :
    (m.inLoop kind start).stack = m.stack := rfl

@[simp] lemma inLoop_routine (m : Machine) (kind : LoopKind) (start : Nat) :
    (m.inLoop kind start).routine = m.routine := rfl

@[simp] lemma inLoop_calls (m : Machine) (kind : LoopKind) (start : Nat) :
    (m.inLoop kind start).calls = m.calls := rfl

@[simp] lemma inLoop_loops (m : Machine) (kind : LoopKind) (start : Nat) :
    (m.inLoop kind start).loops = ⟨kind, start⟩ :: m.loops := rfl

lemma Steady.inLoop {m : Machine} (h : Steady p s m) (kind : LoopKind) (start : Nat) :
    Steady p s (m.inLoop kind start) :=
  ⟨⟨h.running, h.promise, h.target, h.vars, h.lists, h.arguments⟩, fun c hc =>
    (h.loops c hc).trans (by simp [Machine.inLoop])⟩

/-- A script that is stopped inside of a loop is stopped outside of it. -/
lemma Steady.stopScript_inLoop {m : Machine} (h : Steady p s m) (kind : LoopKind)
    (start b : Nat) :
    ((m.inLoop kind start).put b m.stack).stopScript = (m.put b m.stack).stopScript := by
  have hloops := h.loops
  unfold stopScript
  rcases hc : m.calls with _ | ⟨c, _ | ⟨d, rest⟩⟩
  · simp only [put_calls, inLoop_calls, hc]
    rfl
  · simp only [put_calls, inLoop_calls, hc]
    rfl
  · have hle := hloops c (by simp [hc])
    have hdrop : (⟨kind, start⟩ :: m.loops).drop ((⟨kind, start⟩ :: m.loops).length - c.openLoops) =
        m.loops.drop (m.loops.length - c.openLoops) := by
      rw [List.length_cons, Nat.succ_sub hle, List.drop_succ_cons]
    simp only [put_calls, inLoop_calls, hc, returnFrom, put_loops, inLoop_loops, hdrop]
    rfl

/-- A round that is stopped ends the loop as well; after any other one the loop goes on. -/
lemma Steady.ends_round {m : Machine} (hm : Steady p s m) {x : Machine × World} {kind : LoopKind}
    {start last stop : Nat} {y r : Ending × World} (h : Ends p x (m.inLoop kind start) last y)
    (hdone : y.1 = .done → Ends p ((m.inLoop kind start).put last m.stack, y.2) m stop r)
    (hstopped : y.1 = .stopped → y = r) : Ends p x m stop r := by
  obtain ⟨e, w⟩ := y
  cases e with
  | done => exact .of_reaches h (hdone rfl)
  | stopped =>
    obtain ⟨a, ha⟩ := h
    rw [inLoop_stack, hm.stopScript_inLoop] at ha
    rw [← hstopped rfl]
    exact ⟨a, ha⟩

/-- Rounds of a loop, given what its parts lead to: the test before a round, the body, and the end
of a round. -/
lemma ends_rounds {m : Machine} {start first last stop : Nat} {kind : LoopKind}
    {leave : World → Bool × World} {body : World → Option (Ending × World)} (hm : Steady p s m)
    (hleave : ∀ w, (leave w).1 = true →
      Reaches p ((m.inLoop kind start).put start m.stack, w) (m.put stop m.stack, (leave w).2))
    (hstay : ∀ w, (leave w).1 = false →
      Reaches p ((m.inLoop kind start).put start m.stack, w)
        ((m.inLoop kind start).put first m.stack, (leave w).2))
    (hbody : ∀ w r, body w = some r →
      Ends p ((m.inLoop kind start).put first m.stack, w) (m.inLoop kind start) last r)
    (hback : ∀ w, Reaches p ((m.inLoop kind start).put last m.stack, w)
      ((m.inLoop kind start).put start m.stack, w))
    {steps : Nat} {w : World} {r : Ending × World} (h : rounds leave body steps w = some r) :
    Ends p ((m.inLoop kind start).put start m.stack, w) m stop r := by
  induction steps generalizing w with
  | zero => cases h
  | succ steps ih =>
    simp only [rounds] at h
    cases hl : (leave w).1 with
    | true =>
      rw [hl] at h
      cases h
      exact hleave w hl
    | false =>
      rw [hl] at h
      refine .of_reaches (hstay w hl) ?_
      simp only [Bool.false_eq_true, if_false] at h
      cases hb : body (leave w).2 with
      | none => simp [hb] at h
      | some y =>
        obtain ⟨e, w₁⟩ := y
        refine hm.ends_round (hbody _ _ hb) (fun he => ?_) fun he => ?_
        · cases he
          simp only [hb] at h
          exact .of_reaches (hback w₁) (ih h)
        · cases he
          simpa [hb] using h

/-- A counted loop is followed for all its rounds, or for as many as doubles count until it is
stopped. -/
lemma repeated_of_counted {n : Nat} {body : Nat → World → Option (Ending × World)} {w : World}
    {r : Ending × World} (h : counted n body w = some r) :
    repeated body (min n (2 ^ 53)) 0 w = some r ∧ (r.1 = .done → n ≤ 2 ^ 53) := by
  unfold counted at h
  by_cases hn : n ≤ 2 ^ 53
  · rw [if_pos hn] at h
    exact ⟨by rwa [Nat.min_eq_left hn], fun _ => hn⟩
  · rw [if_neg hn] at h
    obtain ⟨hr, hs⟩ := Option.filter_eq_some_iff.1 h
    refine ⟨by rwa [Nat.min_eq_right (by omega)], fun hd => ?_⟩
    simp [hd] at hs

/-- A loop with a number of rounds: at the end of each one the number that are done is compared. -/
lemma ends_repeated {m : Machine} {start last stop n : Nat} {count : Float}
    {body : Nat → World → Option (Ending × World)} (hm : Steady p s m)
    (hbody : ∀ k w r, body k w = some r → Ends p
      ((m.inLoop (.times k count) start).put start m.stack, w) (m.inLoop (.times k count) start) last r)
    (hout : ∀ k w, count ≤ Float.ofNat (k + 1) →
      Reaches p ((m.inLoop (.times k count) start).put last m.stack, w) (m.put stop m.stack, w))
    (hback : ∀ k w, ¬ count ≤ Float.ofNat (k + 1) →
      Reaches p ((m.inLoop (.times k count) start).put last m.stack, w)
        ((m.inLoop (.times (k + 1) count) start).put start m.stack, w))
    (hcount : ∀ k ≤ 2 ^ 53, count ≤ Float.ofNat k ↔ n ≤ k) {more k : Nat} {w : World}
    {r : Ending × World} (hmore : 0 < more) (hk : k + more = min n (2 ^ 53))
    (hdone : r.1 = .done → n ≤ 2 ^ 53) (h : repeated body more k w = some r) :
    Ends p ((m.inLoop (.times k count) start).put start m.stack, w) m stop r := by
  induction more generalizing k w with
  | zero => exact absurd hmore (Nat.lt_irrefl 0)
  | succ more ih =>
    rw [repeated] at h
    cases hb : body k w with
    | none => simp [hb] at h
    | some y =>
      obtain ⟨e, w₁⟩ := y
      refine hm.ends_round (hbody k w _ hb) (fun he => ?_) fun he => ?_
      · cases he
        simp only [hb] at h
        rcases Nat.eq_zero_or_pos more with rfl | hpos
        · -- the last round: it is done, so all rounds have been counted
          cases h
          have hn := hdone rfl
          exact hout k w₁ ((hcount (k + 1) (by omega)).2 (by omega))
        · have hstay : ¬ count ≤ Float.ofNat (k + 1) := by
            rw [hcount (k + 1) (by omega)]
            omega
          exact .of_reaches (hback k w₁ hstay) (ih hpos (by omega) h)
      · cases he
        simpa [hb] using h

/-- What the end of a round does: it leaves the loop after the last one and starts another one
else. -/
def Turns (kind : Nat → LoopKind) (isLast : Nat → Bool) : Prop :=
  ∀ (m : Machine) (k start a : Nat) (st : List Value),
    ((m.inLoop (kind k) start).put a st).endRound =
      if isLast (k + 1) then m.put a st else (m.inLoop (kind (k + 1)) start).put start st

lemma turns_forever : Turns (fun _ => .forever) fun _ => false := fun _ _ _ _ _ => rfl

lemma turns_until : Turns (fun _ => .until) fun _ => false := fun _ _ _ _ _ => rfl

lemma turns_times (count : Float) :
    Turns (fun k => .times k count) fun k => Float.ofNat k ≥ count := by
  intro m k start a st
  simp only [endRound, put_loops, inLoop_loops]
  by_cases h : Float.ofNat (k + 1) ≥ count
  · simp only [h, if_true, decide_true]
    rfl
  · simp only [h, if_false, decide_false, Bool.false_eq_true]
    rfl

/-- Like `Performs`, inside of a loop of a known kind. -/
def PerformsIn (p : Program) (s : Scene) (kind : LoopKind) (is : List Instruction) (w : World)
    (r : Ending × World) : Prop :=
  ∀ (pre post : List Instruction) (m : Machine) (start : Nat),
    p.Holds m.routine (pre ++ (is ++ post)) → Steady p s m →
    Ends p ((m.inLoop kind start).put (Code.extent pre) m.stack, w) (m.inLoop kind start)
      (Code.extent (pre ++ is)) r

lemma Performs.inLoop {is : List Instruction} {w : World} {r : Ending × World}
    (h : Performs p s is w r) (kind : LoopKind) : PerformsIn p s kind is w r :=
  fun _ _ _ start hp hm => h.from hp (hm.inLoop kind start)

/-- Giving way at the end of a round changes nothing. -/
lemma performs_breakFrame (w : World) : Performs p s [⟨.breakFrame, []⟩] w (.done, w) := by
  intro pre post m hp ha hm
  have h := (runs_instruction hp ha hm.running w).reaches
  simp only [execute, put_warpDepth] at h
  cases hw : m.warpDepth == 0 with
  | true =>
    simp only [hw, if_true] at h
    exact h.trans (@reaches_wake p (m.put (Code.extent (pre ++ [⟨.breakFrame, []⟩])) m.stack)
      hm.running w)
  | false =>
    simp only [hw] at h
    exact h

section

variable {m : Machine} (hm : m.status = .running) {st : List Value} {w : World}
  {pre xs ys post : List Instruction}

include hm

lemma reaches_loopEnd {kind : Nat → LoopKind} {isLast : Nat → Bool} (ht : Turns kind isLast)
    {k start : Nat} (hp : p.Holds m.routine (pre ++ ⟨.loopEnd, []⟩ :: post)) :
    Reaches p ((m.inLoop (kind k) start).put (Code.extent pre) st, w)
      (if isLast (k + 1) then m.put (Code.extent (pre ++ [⟨.loopEnd, []⟩])) st
        else (m.inLoop (kind (k + 1)) start).put start st, w) := by
  refine @reaches_execute p (m.inLoop (kind k) start) hm st w pre post _ hp _ ?_
  simp only [execute]
  rw [ht m k start _ st]

lemma reaches_open {op : Opcode} {kind : LoopKind}
    (hop : op = .forever ∧ kind = .forever ∨ op = .untilLoop ∧ kind = .until)
    (hp : p.Holds m.routine (pre ++ ⟨op, []⟩ :: post)) :
    Reaches p (m.put (Code.extent pre) st, w)
      ((m.inLoop kind (Code.extent (pre ++ [⟨op, []⟩]))).put (Code.extent (pre ++ [⟨op, []⟩])) st,
        w) := by
  refine reaches_execute hm hp ?_
  rcases hop with ⟨rfl, rfl⟩ | ⟨rfl, rfl⟩ <;> rfl

lemma reaches_times {v : Value} (hv : Number.round v.toNumber ≥ 1)
    (hp : p.Holds m.routine (pre ++ ⟨.times, []⟩ :: post)) :
    Reaches p (m.put (Code.extent pre) (v :: st), w)
      ((m.inLoop (.times 0 (Number.round v.toNumber)) (Code.extent (pre ++ [⟨.times, []⟩]))).put
        (Code.extent (pre ++ [⟨.times, []⟩])) st, w) := by
  refine reaches_execute hm hp ?_
  simp only [execute, pop, put_stack, hv, if_true]
  rfl

lemma reaches_times_none {v : Value} (hv : ¬ Number.round v.toNumber ≥ 1)
    (hx : Code.Nested (xs.map (·.opcode)))
    (hp : p.Holds m.routine (pre ++ ⟨.times, []⟩ :: (xs ++ ⟨.loopEnd, []⟩ :: post))) :
    Reaches p (m.put (Code.extent pre) (v :: st), w)
      (m.put (Code.extent (pre ++ ⟨.times, []⟩ :: (xs ++ [⟨.loopEnd, []⟩]))) st, w) := by
  refine reaches_execute hm hp ?_
  simp only [execute, pop, put_stack, hv, if_false]
  change ((m.put _ st).jumpPast _ _, w) = _
  rw [jumpPast_put (jump_loop hp rfl hx)]
  simp [Opcode.operandCount, Nat.add_assoc]

lemma reaches_test_false {v : Value} (hv : v.toBool = false)
    (hp : p.Holds m.routine (pre ++ ⟨.untilTest, []⟩ :: post)) :
    Reaches p (m.put (Code.extent pre) (v :: st), w)
      (m.put (Code.extent (pre ++ [⟨.untilTest, []⟩])) st, w) := by
  refine reaches_execute hm hp ?_
  simp only [execute, pop, put_stack, hv]
  rfl

lemma reaches_test_true {v : Value} (hv : v.toBool = true) {start : Nat}
    (hx : Code.Nested (xs.map (·.opcode))) (hy : Code.Nested (ys.map (·.opcode)))
    (hp : p.Holds m.routine (pre ++ ⟨.untilLoop, []⟩ :: (xs ++ ⟨.untilTest, []⟩ ::
      (ys ++ ⟨.loopEnd, []⟩ :: post)))) :
    Reaches p ((m.inLoop .until start).put (Code.extent (pre ++ ⟨.untilLoop, []⟩ :: xs))
        (v :: st), w)
      (m.put (Code.extent (pre ++ ⟨.untilLoop, []⟩ :: (xs ++ ⟨.untilTest, []⟩ ::
        (ys ++ [⟨.loopEnd, []⟩])))) st, w) := by
  have hp' : p.Holds m.routine ((pre ++ ⟨.untilLoop, []⟩ :: xs) ++ ⟨.untilTest, []⟩ ::
      (ys ++ ⟨.loopEnd, []⟩ :: post)) := by simpa using hp
  refine @reaches_execute p (m.inLoop .until start) hm _ w _ _ _ hp' _ ?_
  have hjump := jump_test hp hx hy
  rw [show pre ++ ⟨.untilLoop, []⟩ :: (xs ++ ⟨.untilTest, []⟩ :: (ys ++ ⟨.loopEnd, []⟩ :: post)) =
    (pre ++ ⟨.untilLoop, []⟩ :: xs) ++ ⟨.untilTest, []⟩ :: (ys ++ ⟨.loopEnd, []⟩ :: post) by simp]
    at hjump
  simp only [execute, pop, put_stack, hv, if_true]
  change ((m.put _ st).jumpPast _ _, w) = _
  rw [jumpPast_put hjump]
  simp [Opcode.operandCount, Nat.add_assoc]

end

lemma performs_forever {body : World → Option (Ending × World)} {is : List Instruction}
    (hbody : ∀ w r, body w = some r → PerformsIn p s .forever is w r) {steps : Nat} {w : World}
    {r : Ending × World} (h : rounds noTest body steps w = some r) :
    Performs p s (⟨.forever, []⟩ :: (is ++ [⟨.loopEnd, []⟩])) w r := by
  intro pre post m hp ha hm
  have hp' : p.Holds m.routine (pre ++ ⟨.forever, []⟩ :: (is ++ ⟨.loopEnd, []⟩ :: post)) := by
    simpa using hp
  have hopen := @reaches_open p m hm.running m.stack w _ _ _ _ (Or.inl ⟨rfl, rfl⟩) hp'
  rw [← ha, put_self] at hopen
  set start := Code.extent (pre ++ [⟨.forever, []⟩]) with hstart
  have hround : ∀ w r, body w = some r → Ends p ((m.inLoop .forever start).put start m.stack, w)
      (m.inLoop .forever start) (Code.extent (pre ++ [⟨.forever, []⟩] ++ is)) r := fun w r hr =>
    hbody w r hr (pre ++ [⟨.forever, []⟩]) (⟨.loopEnd, []⟩ :: post) m _ (by simpa using hp') hm
  have hback : ∀ w, Reaches p ((m.inLoop .forever start).put
      (Code.extent (pre ++ [⟨.forever, []⟩] ++ is)) m.stack, w)
      ((m.inLoop .forever start).put start m.stack, w) := fun w =>
    @reaches_loopEnd p m hm.running m.stack w _ post _ _ turns_forever 0 start (by simpa using hp')
  exact .of_reaches hopen (ends_rounds hm (fun w hl => by cases hl) (fun w _ => .refl p _) hround
    hback h)

/-- A loop with a number of rounds. The machine counts them in doubles, which are exact as far as the
walk goes. -/
lemma performs_times {xs is : List Instruction} {w w' : World} {v : Value}
    {body : Nat → World → Option (Ending × World)} (hx : Does p s xs [] w [v] w')
    (hn : Code.Nested (is.map (·.opcode)))
    (hbody : ∀ k w r, body k w = some r →
      PerformsIn p s (.times k (Number.round v.toNumber)) is w r)
    {r : Ending × World} (h : counted (roundsOf v.toNumber) body w' = some r) :
    Performs p s (xs ++ ⟨.times, []⟩ :: (is ++ [⟨.loopEnd, []⟩])) w r := by
  intro pre post m hp ha hm
  have hp' : p.Holds m.routine
      ((pre ++ xs) ++ ⟨.times, []⟩ :: (is ++ ⟨.loopEnd, []⟩ :: post)) := by
    simpa using hp
  refine .of_reaches (hx pre _ m m.stack (by simpa using hp) ha hm.toActs rfl).reaches ?_
  obtain ⟨hone, hcount⟩ : Number.Counts (Number.round v.toNumber) := Number.counts_floor _
  by_cases hv : 1 ≤ Number.round v.toNumber
  · refine .of_reaches (reaches_times hm.running hv hp') ?_
    have hpos : 0 < min (roundsOf v.toNumber) (2 ^ 53) :=
      lt_min (hone.1 hv) (by decide)
    obtain ⟨hrep, hdone⟩ := repeated_of_counted h
    have hend : ∀ k w, Reaches p
        ((m.inLoop (.times k (Number.round v.toNumber)) _).put
          (Code.extent ((pre ++ xs) ++ [⟨.times, []⟩] ++ is)) m.stack, w) (_, w) := fun k w =>
      @reaches_loopEnd p m hm.running m.stack w ((pre ++ xs) ++ [⟨.times, []⟩] ++ is) post _ _
        (turns_times (Number.round v.toNumber)) k (Code.extent ((pre ++ xs) ++ [⟨.times, []⟩]))
        (by simpa using hp')
    have hloop := ends_repeated hm
      (fun k w r hr => hbody k w r hr ((pre ++ xs) ++ [⟨.times, []⟩]) _ m _ (by simpa using hp') hm)
      (fun k w hk => by simpa only [ge_iff_le, hk, decide_true, if_true] using hend k w)
      (fun k w hk => by
        simpa only [ge_iff_le, hk, decide_false, Bool.false_eq_true, if_false] using hend k w)
      (hcount hv) hpos (Nat.zero_add _) hdone hrep
    simpa using hloop
  · have hnone : roundsOf v.toNumber = 0 := by
      by_contra hne
      exact hv (hone.2 (Nat.one_le_iff_ne_zero.2 hne))
    rw [hnone] at h
    cases h
    simpa [Ends] using reaches_times_none hm.running hv hn hp'

/-- A loop whose rounds begin by writing their number to a variable. -/
lemma performsIn_numbered {x : UInt32} {r : Reference} (h : p.tables.vars[x.toNat]? = some r)
    {is : List Instruction} {k : Nat} {count : Float} {w : World} {out : Ending × World}
    (hbody : Performs p s is (s.setVariable r.id (.ofNat (k + 1)) w) out) :
    PerformsIn p s (.times k count) (⟨.round, []⟩ :: ⟨.var .set, [x]⟩ :: is) w out := by
  intro pre post m start hp hm
  have hloop := hm.inLoop (.times k count) start
  have hround : Reaches p ((m.inLoop (.times k count) start).put (Code.extent pre) m.stack, w)
      ((m.inLoop (.times k count) start).put (Code.extent (pre ++ [⟨.round, []⟩]))
        (.ofNat (k + 1) :: m.stack), w) :=
    @reaches_execute p (m.inLoop (.times k count) start) hm.running m.stack w pre _ _ hp _ rfl
  refine .of_reaches hround ?_
  have hset := @does_changeVar p s x r h .set (by simp) (.ofNat (k + 1)) w
    (pre ++ [⟨.round, []⟩]) (is ++ post)
    ((m.inLoop (.times k count) start).put (Code.extent (pre ++ [⟨.round, []⟩]))
      (.ofNat (k + 1) :: m.stack)) m.stack (by simpa using hp) rfl (hloop.put _ _).toActs rfl
  refine .of_reaches hset.reaches ?_
  have hends := @Performs.from p s is (pre ++ [⟨.round, []⟩, ⟨.var .set, [x]⟩]) post _ _
    (m.inLoop (.times k count) start) hbody (by simpa using hp) hloop
  simpa [Command.onVariable] using hends

/-- A loop with a test before each round. -/
lemma performs_tested {xs is : List Instruction} {test : World → Value × World}
    {body : World → Option (Ending × World)}
    (hx : ∀ w, Does p s xs [] w [(test w).1] (test w).2) (hxn : Code.Nested (xs.map (·.opcode)))
    (hn : Code.Nested (is.map (·.opcode)))
    (hbody : ∀ w r, body w = some r → PerformsIn p s .until is w r) {steps : Nat} {w : World}
    {r : Ending × World}
    (h : rounds (fun w => ((test w).1.toBool, (test w).2)) body steps w = some r) :
    Performs p s (⟨.untilLoop, []⟩ :: (xs ++ ⟨.untilTest, []⟩ :: (is ++ [⟨.loopEnd, []⟩]))) w r := by
  intro pre post m hp ha hm
  have hp' : p.Holds m.routine (pre ++ ⟨.untilLoop, []⟩ :: (xs ++ ⟨.untilTest, []⟩ ::
      (is ++ ⟨.loopEnd, []⟩ :: post))) := by
    simpa using hp
  have hopen := @reaches_open p m hm.running m.stack w _ _ _ _ (Or.inr ⟨rfl, rfl⟩) hp'
  rw [← ha, put_self] at hopen
  refine .of_reaches hopen ?_
  set start := Code.extent (pre ++ [⟨.untilLoop, []⟩]) with hstart
  -- before each round the condition is evaluated inside of the loop
  have htest : ∀ w, Reaches p ((m.inLoop .until start).put start m.stack, w)
      ((m.inLoop .until start).put (Code.extent (pre ++ ⟨.untilLoop, []⟩ :: xs))
        ((test w).1 :: m.stack), (test w).2) := by
    intro w
    have := hx w (pre ++ [⟨.untilLoop, []⟩]) (⟨.untilTest, []⟩ :: (is ++ ⟨.loopEnd, []⟩ :: post))
      ((m.inLoop .until start).put start m.stack) m.stack (by simpa using hp') rfl
      ((hm.inLoop _ _).put _ _).toActs rfl
    simpa using this.reaches
  have hfirst : ∀ w, (test w).1.toBool = false →
      Reaches p ((m.inLoop .until start).put start m.stack, w) ((m.inLoop .until start).put
        (Code.extent (pre ++ ⟨.untilLoop, []⟩ :: (xs ++ [⟨.untilTest, []⟩]))) m.stack,
          (test w).2) := by
    intro w hv
    have hgo := @reaches_test_false p (m.inLoop .until start) hm.running m.stack (test w).2
      (pre ++ ⟨.untilLoop, []⟩ :: xs) (is ++ ⟨.loopEnd, []⟩ :: post) _ hv (by simpa using hp')
    refine (htest w).trans ?_
    simpa using hgo
  have hback : ∀ w, Reaches p ((m.inLoop .until start).put
      (Code.extent (pre ++ ⟨.untilLoop, []⟩ :: (xs ++ ⟨.untilTest, []⟩ :: is))) m.stack, w)
      ((m.inLoop .until start).put start m.stack, w) := by
    intro w
    exact @reaches_loopEnd p m hm.running m.stack w
      (pre ++ ⟨.untilLoop, []⟩ :: (xs ++ ⟨.untilTest, []⟩ :: is)) post _ _ turns_until 0 start
      (by simpa using hp')
  refine ends_rounds hm (fun w hv => ?_) hfirst (fun w r hr => ?_) hback h
  · exact (htest w).trans (reaches_test_true hm.running hv hxn hn hp')
  · have := hbody w r hr (pre ++ ⟨.untilLoop, []⟩ :: (xs ++ [⟨.untilTest, []⟩])) _ m start
      (by simpa using hp') hm
    simpa using this

/-! ### Calls -/

/-- The machine while it gathers the arguments of a call. -/
def gather (m : Machine) (args : List Value) : Machine := { m with pending := args :: m.pending }

@[simp] lemma gather_routine (m : Machine) (args : List Value) :
    (m.gather args).routine = m.routine := rfl

lemma Steady.gather {m : Machine} (h : Steady p s m) (args : List Value) :
    Steady p s (m.gather args) :=
  ⟨⟨h.running, h.promise, h.target, h.vars, h.lists, h.arguments⟩, h.loops⟩

/-- The machine in a new activation of a custom block. -/
def enter (m : Machine) (i : Nat) (args : List Value) (warp : Bool) : Machine :=
  { m with
    calls := { routine := .procedure i, returnTo := m.address, arguments := args, warp,
               openLoops := m.loops.length } :: m.calls
    warpDepth := if warp then m.warpDepth + 1 else m.warpDepth }

@[simp] lemma enter_routine (m : Machine) (i : Nat) (args : List Value) (warp : Bool) :
    (m.enter i args warp).routine = .procedure i := rfl

lemma Steady.enter {m : Machine} (h : Steady p s m) (i : Nat) (args : List Value) (warp : Bool)
    (sig : Option Signature) :
    Steady p { s with signature := sig, arguments := args } (m.enter i args warp) where
  running := h.running
  promise := h.promise
  target := h.target
  vars := h.vars
  lists := h.lists
  arguments := rfl
  loops := fun c hc => by
    cases hc
    exact Nat.le_refl _

/-- The end of an activation leads back to the caller. -/
lemma Steady.stopScript_enter {m : Machine} (h : Steady p s m) (i : Nat) (args : List Value)
    (warp : Bool) (b : Nat) : ((m.enter i args warp).put b m.stack).stopScript = m := by
  obtain ⟨c, hc, -⟩ := Option.map_eq_some_iff.1 h.arguments
  obtain ⟨rest, hcalls⟩ := List.head?_eq_some_iff.1 hc
  unfold stopScript
  simp only [put_calls, Machine.enter, hcalls]
  rw [← hcalls]
  cases warp <;> simp only [returnFrom, put_loops, Nat.sub_self, List.drop_zero] <;> rfl

section

variable {m : Machine} (hm : m.status = .running) {st args : List Value} {w : World}
  {pre post : List Instruction}

include hm

lemma reaches_initProcedure (hp : p.Holds m.routine (pre ++ ⟨.initProcedure, []⟩ :: post)) :
    Reaches p (m.put (Code.extent pre) st, w)
      ((m.gather []).put (Code.extent (pre ++ [⟨.initProcedure, []⟩])) st, w) :=
  reaches_execute hm hp rfl

lemma reaches_addArg {v : Value} (hp : p.Holds m.routine (pre ++ ⟨.addArg, []⟩ :: post)) :
    Reaches p ((m.gather args).put (Code.extent pre) (v :: st), w)
      ((m.gather (args ++ [v])).put (Code.extent (pre ++ [⟨.addArg, []⟩])) st, w) :=
  @reaches_execute p (m.gather args) hm _ w _ _ _ hp _ rfl

/-- A call of a custom block without a body is passed over. -/
lemma reaches_call_none {x : UInt32}
    (hp : p.Holds m.routine (pre ++ ⟨.callProcedure, [x]⟩ :: post))
    (hnone : p.code? (.procedure x.toNat) = none) :
    Reaches p ((m.gather args).put (Code.extent pre) st, w)
      (m.put (Code.extent (pre ++ [⟨.callProcedure, [x]⟩])) st, w) := by
  refine @reaches_execute p (m.gather args) hm _ w _ _ _ hp _ ?_
  simp only [execute, callProcedure, operand_singleton, hnone]
  rfl

/-- A call enters the custom block, at once or in the next slice. -/
lemma reaches_call {x : UInt32}
    (hp : p.Holds m.routine (pre ++ ⟨.callProcedure, [x]⟩ :: post))
    (hsome : (p.code? (.procedure x.toNat)).isSome) :
    Reaches p ((m.gather args).put (Code.extent pre) st, w)
      (((m.put (Code.extent (pre ++ [⟨.callProcedure, [x]⟩])) st).enter x.toNat args false).put 0
        st, w) := by
  set m' := ((m.put (Code.extent (pre ++ [⟨.callProcedure, [x]⟩])) st).enter x.toNat args false).put
    0 st with hm'
  have hrun : m'.status = .running := hm
  obtain ⟨waits, hw⟩ : ∃ waits : Bool, execute p (.ofInstructions (pre ++
      ⟨.callProcedure, [x]⟩ :: post)) (Code.extent pre) .callProcedure x.toNat
      ((m.gather args).put (Code.extent (pre ++ [⟨.callProcedure, [x]⟩])) st) w =
      ({ m' with status := if waits then .yielded else m'.status }, w) := by
    simp only [execute, callProcedure, hsome, if_true]
    exact ⟨_, rfl⟩
  have hcall := @reaches_execute p (m.gather args) hm st w pre post _ hp _ hw
  cases waits with
  | true => exact hcall.trans (reaches_wake hrun w)
  | false => exact hcall

lemma reaches_warp {i : Nat} (hp : p.Holds (.procedure i) (pre ++ ⟨.warp, []⟩ :: post)) :
    Reaches p ((m.enter i args false).put (Code.extent pre) st, w)
      ((m.enter i args true).put (Code.extent (pre ++ [⟨.warp, []⟩])) st, w) :=
  @reaches_execute p (m.enter i args false) hm _ w _ _ _ hp _ rfl

end

/-- The code of a custom block: the mark of warp mode, if it has one, comes before its stack. -/
def bodyCode (warp : Bool) (is : List Instruction) : List Instruction :=
  Code.framed ((if warp then [⟨.warp, []⟩] else []) ++ is)

/-- A custom block that is called runs and comes back. -/
lemma reaches_body {m : Machine} (hm : Steady p s m) {i : Nat} {warp : Bool}
    {is : List Instruction} (hp : p.Holds (.procedure i) (bodyCode warp is)) {args : List Value}
    {sig : Option Signature} {w : World} {r : Ending × World}
    (h : Performs p { s with signature := sig, arguments := args } is w r) :
    Reaches p ((m.enter i args false).put 0 m.stack, w) (m, r.2) := by
  set top : List Instruction := ⟨.start, []⟩ :: if warp then [⟨.warp, []⟩] else [] with htop
  have hcode : p.Holds (.procedure i) (top ++ (is ++ [⟨.halt, []⟩])) := by
    simpa [bodyCode, Code.framed, htop] using hp
  have hhead : Reaches p ((m.enter i args false).put 0 m.stack, w)
      ((m.enter i args warp).put (Code.extent top) m.stack, w) := by
    have hstart := @reaches_idle p (m.enter i args false) hm.running m.stack w [] _ .start
      (Or.inl rfl) hcode
    refine hstart.trans ?_
    cases warp with
    | false => exact .refl p _
    | true => exact @reaches_warp p m hm.running m.stack args w [⟨.start, []⟩] _ i hcode
  refine hhead.trans ?_
  have hsteady := hm.enter i args warp sig
  have hends := h.from (m := m.enter i args warp) hcode hsteady
  obtain ⟨e, w'⟩ := r
  cases e with
  | stopped =>
    obtain ⟨b, hb⟩ := hends
    rwa [show (m.enter i args warp).stack = m.stack from rfl, hm.stopScript_enter] at hb
  | done =>
    have hhalt := (@runs_halt p ((m.enter i args warp).put (Code.extent (top ++ is)) m.stack)
      (top ++ is) [] (by simpa using hcode) rfl hm.running w').reaches
    rw [put_put, put_stack, hm.stopScript_enter] at hhalt
    exact Reaches.trans hends hhalt

lemma resume_go (m : Machine) (w : World) (a : Nat) : resume a 0 ⟨m, w, none, .go⟩ = m := rfl

lemma awaitPromise_of_none {m : Machine} (h : m.promise = none) (w : World) :
    m.awaitPromise w = m := by
  unfold awaitPromise
  rw [h]
  simp

/-- The command that stops the script. -/
lemma performs_stop {x : UInt32} (h : p.tables.natives[x.toNat]? = some .stopThisScript)
    (w : World) : Performs p s [⟨.exec, [x]⟩] w (.stopped, w) := by
  intro pre post m hp ha hm
  refine ⟨Code.extent (pre ++ [⟨.exec, [x]⟩]), ?_⟩
  have hrun := (runs_instruction hp ha hm.running w).reaches
  set m' := m.put (Code.extent (pre ++ [⟨.exec, [x]⟩])) m.stack
  have hpromise : m'.stopScript.promise = none := by
    unfold stopScript
    split <;> exact hm.promise
  have hcall : ∀ a, m'.callNative w .stopThisScript a = (m'.stopScript, w) := by
    intro a
    simp only [callNative, Native.arity, Nat.not_lt_zero, if_false, Native.run, Native.pops]
    rw [resume_go, awaitPromise_of_none hpromise]
  simp only [execute, operand_singleton, h, hcall] at hrun
  exact hrun

end Machine

end Blockwork
