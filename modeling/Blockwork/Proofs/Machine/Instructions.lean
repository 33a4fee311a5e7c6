import Blockwork.Proofs.Machine.Running
import Blockwork.Proofs.Reference.Evaluator

/-!
What stretches of straight code do: from some operands on top of the stack they leave others, and
they may change the world. What lies further down on the stack, and all the rest of the machine,
stays as it is.
-/

namespace Blockwork

namespace Machine

/-- The machine is at work on the blocks of a scene. -/
structure Acts (p : Program) (s : Scene) (m : Machine) : Prop where
  running : m.status = .running
  promise : m.promise = none
  target : m.target = s.target
  vars : ∀ (i : Nat) (r : Reference), p.tables.vars[i]? = some r →
    m.vars[i]? = some (s.varSlot r.id)
  lists : ∀ (i : Nat) (r : Reference), p.tables.lists[i]? = some r →
    m.lists[i]? = some (s.listSlot r.id)
  arguments : m.calls.head?.map (·.arguments) = some s.arguments

lemma Acts.put {p : Program} {s : Scene} {m : Machine} (h : Acts p s m) (address : Nat)
    (stack : List Value) : Acts p s (m.put address stack) :=
  ⟨h.running, h.promise, h.target, h.vars, h.lists, h.arguments⟩

/-- Wherever these instructions stand, running them takes the values `vs` off the stack, in the
order in which they were pushed, pushes the values `out`, and turns the world `w` into `w'`. -/
def Does (p : Program) (s : Scene) (is : List Instruction) (vs : List Value) (w : World)
    (out : List Value) (w' : World) : Prop :=
  ∀ (pre post : List Instruction) (m : Machine) (st : List Value),
    p.Holds m.routine (pre ++ (is ++ post)) → m.address = Code.extent pre → Acts p s m →
    m.stack = vs.reverse ++ st →
    Runs p (m, w) (m.put (Code.extent (pre ++ is)) (out.reverse ++ st), w')

variable {p : Program} {s : Scene}

lemma Does.nil (vs : List Value) (w : World) : Does p s [] vs w vs w := by
  intro pre post m st _ ha _ hst
  rw [List.append_nil, ← ha, ← hst, put_self]
  exact .refl p (m, w)

lemma Does.trans {is js : List Instruction} {xs ys zs : List Value} {w w' w'' : World}
    (h : Does p s is xs w ys w') (k : Does p s js ys w' zs w'') :
    Does p s (is ++ js) xs w zs w'' := by
  intro pre post m st hp ha hm hst
  refine (h pre (js ++ post) m st (by simpa using hp) ha hm hst).trans ?_
  have := k (pre ++ is) post (m.put (Code.extent (pre ++ is)) (ys.reverse ++ st)) st
    (by simpa using hp) rfl (hm.put _ _) rfl
  simpa using this

/-- Values further down stay where they are. -/
lemma Does.under {is : List Instruction} {xs ys : List Value} {w w' : World}
    (h : Does p s is xs w ys w') (us : List Value) :
    Does p s is (us ++ xs) w (us ++ ys) w' := by
  intro pre post m st hp ha hm hst
  have := h pre post m (us.reverse ++ st) hp ha hm (by simpa using hst)
  simpa using this

/-- A single instruction. -/
lemma does_one {i : Instruction} {vs out : List Value} {w w' : World}
    (h : ∀ (code : Code) (a : Nat) (m : Machine) (st : List Value), Acts p s m →
      m.stack = vs.reverse ++ st →
      execute p code a i.opcode i.operand m w = (m.put m.address (out.reverse ++ st), w')) :
    Does p s [i] vs w out w' := by
  intro pre post m st hp ha hm hst
  have hs := runs_instruction hp ha hm.running w
  rwa [h _ _ (m.put (Code.extent (pre ++ [i])) m.stack) st (hm.put _ _) hst] at hs

/-! ### Instructions without operand -/

lemma does_start (w : World) : Does p s [⟨.start, []⟩] [] w [] w :=
  does_one fun code a m st _ hst => by
    obtain rfl : m.stack = st := hst
    rfl

lemma does_null (w : World) : Does p s [⟨.null, []⟩] [] w [.empty] w :=
  does_one fun code a m st _ hst => by simp [execute, push, put, hst]

lemma does_unary (f : UnaryOp) (x : Value) (w : World) :
    Does p s [⟨.unary f, []⟩] [x] w [f.apply x] w :=
  does_one fun code a m st _ hst => by simp [execute, push, pop, put, hst]

lemma does_binary (f : BinaryOp) (x y : Value) (w : World) :
    Does p s [⟨.binary f, []⟩] [x, y] w [f.apply x y] w :=
  does_one fun code a m st _ hst => by simp [execute, push, pop, put, hst]

lemma does_random (x y : Value) (w : World) :
    Does p s [⟨.random, []⟩] [x, y] w [x.between y w.draw.1] w.draw.2 :=
  does_one fun code a m st _ hst => by simp [execute, push, pop, put, hst]

/-! ### Instructions on tables -/

@[simp] lemma operand_singleton (op : Opcode) (x : UInt32) :
    (Instruction.mk op [x]).operand = x.toNat := rfl

lemma does_const {x : UInt32} {v : Value} (h : p.tables.constants[x.toNat]? = some v)
    (w : World) : Does p s [⟨.const, [x]⟩] [] w [v] w :=
  does_one fun code a m st _ hst => by simp [execute, h, push, put, hst]

lemma does_readArg {x : UInt32} (w : World) :
    Does p s [⟨.readArg, [x]⟩] [] w [s.arguments[x.toNat]?.getD (.number 0)] w :=
  does_one fun code a m st hm hst => by
    obtain ⟨c, hc, he⟩ := Option.map_eq_some_iff.1 hm.arguments
    simp [execute, push, put, hst, readArgument, hc, he]

lemma does_readVar {x : UInt32} {r : Reference} (h : p.tables.vars[x.toNat]? = some r)
    (w : World) : Does p s [⟨.var .read, [x]⟩] [] w [s.varValue w r.id] w :=
  does_one fun code a m st hm hst => by
    simp [execute, stepVariable, hm.vars _ r h, push, put, hst, Scene.varValue]

lemma Acts.list?_eq {m : Machine} (hm : Acts p s m) {i : Nat} {r : Reference}
    (h : p.tables.lists[i]? = some r) (w : World) : m.list? w i = s.list? w r.id := by
  simp [list?, hm.lists i r h, Scene.list?]

lemma Acts.place_eq {m : Machine} (hm : Acts p s m) {i : Nat} {r : Reference}
    (h : p.tables.lists[i]? = some r) (w : World) (index : Value) (extra : Nat)
    (acceptAll : Bool) :
    m.place w i index extra acceptAll =
      Scene.place w index (s.listSize w r.id + extra) acceptAll := by
  unfold place Scene.place Scene.listSize
  rw [hm.list?_eq h]

/-- The reporters on lists and how many values they take. -/
def listArity : ListOp → Option Nat
  | .read | .length => some 0
  | .item | .indexOf | .contains => some 1
  | _ => none

lemma does_list {x : UInt32} {r : Reference} (h : p.tables.lists[x.toNat]? = some r)
    {op : ListOp} {vs : List Value} (hop : listArity op = some vs.length) (w : World) :
    Does p s [⟨.list op, [x]⟩] vs w [(Reporter.onList s r.id op vs w).1]
      (Reporter.onList s r.id op vs w).2 := by
  refine does_one fun code a m st hm hst => ?_
  have hlist := hm.list?_eq h
  cases op <;> simp only [listArity, Option.some.injEq, reduceCtorEq] at hop
  case read =>
    obtain rfl := List.length_eq_zero_iff.1 hop.symm
    simp [execute, stepList, Reporter.onList, push, put, hst, hlist, Scene.listText]
  case length =>
    obtain rfl := List.length_eq_zero_iff.1 hop.symm
    simp [execute, stepList, Reporter.onList, push, put, hst, hlist, Scene.listSize]
  all_goals obtain ⟨v, rfl⟩ := List.length_eq_one_iff.1 hop.symm
  case item =>
    have hplace : ∀ st, ({ m with stack := st } : Machine).place w x.toNat v 0 false =
        Scene.place w v (s.listSize w r.id) false :=
      fun st => (hm.put m.address st).place_eq h w v 0 false
    have hlist' : ∀ st w, ({ m with stack := st } : Machine).list? w x.toNat = s.list? w r.id :=
      fun st w => (hm.put m.address st).list?_eq h w
    simp only [execute, stepList, pop, hst, List.reverse_singleton, List.singleton_append, push,
      operand_singleton, hplace, hlist', Reporter.onList]
    rfl
  case indexOf =>
    simp [execute, stepList, pop, hst, push, put, Reporter.onList, ← hlist, list?]
  case contains =>
    simp [execute, stepList, pop, hst, push, put, Reporter.onList, ← hlist, list?]

/-- A native that only looks at the machine and goes on. -/
lemma does_native {x : UInt32} {n : Native} (h : p.tables.natives[x.toNat]? = some n)
    {vs : List Value} (hvs : vs.length = n.arity) (hpops : n.pops = n.arity) {w w' : World}
    {v : Option Value}
    (hrun : ∀ m : Machine, m.target = s.target →
      n.run m w (vs[0]?.getD .empty) (vs[1]?.getD .empty) = ⟨m, w', v, .go⟩) :
    Does p s [⟨.exec, [x]⟩] vs w v.toList w' := by
  refine does_one fun code a m st hm hst => ?_
  have htake : (m.stack.take n.arity).reverse = vs := by simp [hst, ← hvs]
  have hdrop : m.stack.drop n.arity = st := by simp [hst, ← hvs]
  have hlen : ¬ m.stack.length < n.arity := by simp [hst, ← hvs]
  simp only [execute, operand_singleton, h, callNative, if_neg hlen, htake, hrun m hm.target,
    resume, hpops, hdrop]
  cases v <;> simp [awaitPromise, hm.promise, push, put, hm.running]

end Machine

end Blockwork
