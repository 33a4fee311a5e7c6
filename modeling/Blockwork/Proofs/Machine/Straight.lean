import Blockwork.Proofs.Machine.Stepping

/-!
Reading words as instructions, and running them one after the other. Any sequence of words is the
words of the instructions read from it and a rest that starts with no instruction. Going from
address to address comes to the same instructions, and so does a machine that takes no jump, begins
no round again, calls nothing and returns from nothing.
-/

namespace Blockwork

namespace Opcode

lemma number_table : ∀ n (h : n < table.size), (table[n]).1.number = n := by decide

lemma toWord_of_ofWord? {w : UInt32} {op : Opcode} (h : ofWord? w = some op) : op.toWord = w := by
  rw [ofWord?, Option.map_eq_some_iff] at h
  obtain ⟨x, hx, rfl⟩ := h
  obtain ⟨hlt, rfl⟩ := Array.getElem?_eq_some_iff.1 hx
  rw [toWord, number_table, UInt32.ofNat_toNat]

end Opcode

namespace Code

/-! ### What is read -/

/-- The words left over when reading stops are none, or start with one that is no instruction. -/
def Unread (ws : List UInt32) : Prop := ws = [] ∨ ∃ w rest, ws = w :: rest ∧ Opcode.ofWord? w = none

/-- Nothing is lost in reading. -/
lemma exists_unread (ws : List UInt32) : ∃ rest, ws = encode (decode ws) ++ rest ∧ Unread rest := by
  fun_induction decode ws with
  | case1 => exact ⟨[], rfl, .inl rfl⟩
  | case2 w rest h => exact ⟨w :: rest, rfl, .inr ⟨w, rest, rfl, h⟩⟩
  | case3 w rest op h ih =>
    obtain ⟨left, hleft, hunread⟩ := ih
    refine ⟨left, ?_, hunread⟩
    rw [encode_cons, Opcode.toWord_of_ofWord? h, List.cons_append, List.append_assoc, ← hleft,
      List.take_append_drop]

/-- An instruction behind which another was read has its operand. -/
lemma allFull_of_decode {ws : List UInt32} {pre post : List Instruction} {i : Instruction}
    (h : decode ws = pre ++ i :: post) : AllFull pre := by
  induction pre generalizing ws with
  | nil => exact fun i hi => absurd hi List.not_mem_nil
  | cons j pre ih =>
    rw [decode.eq_def] at h
    split at h
    · cases h
    next w rest =>
    split at h
    · cases h
    next op hop =>
    obtain ⟨rfl, hrest⟩ := List.cons.inj h
    intro k hk
    rcases List.mem_cons.1 hk with rfl | hk
    · -- were the operand missing, nothing would be left to read
      rw [Instruction.Full, List.length_take, Nat.min_eq_left]
      by_contra hlt
      rw [List.drop_of_length_le (by omega), decode] at hrest
      exact absurd hrest.symm (by simp)
    · exact ih hrest k hk

lemma getElem?_place (b : Nat) (ops : List Opcode) (k : Nat) :
    (place b ops)[k]? = ops[k]?.map fun op => (b + width (ops.take k), op) := by
  induction ops generalizing b k with
  | nil => simp
  | cons op rest ih =>
    cases k with
    | zero => simp
    | succ k =>
      simp only [place_cons, List.getElem?_cons_succ, ih, List.take_succ_cons, width_cons,
        Nat.add_assoc]

/-- Each instruction stands behind the words of those before it. -/
lemma getElem?_addressed (ws : List UInt32) (k : Nat) :
    (addressed 0 (decode ws))[k]? =
      (decode ws)[k]?.map fun i => ((encode ((decode ws).take k)).length, i.opcode) := by
  rw [addressed_eq_place, getElem?_place, List.getElem?_map, ← List.map_take]
  cases hk : (decode ws)[k]? with
  | none => rfl
  | some i =>
    obtain ⟨hlt, rfl⟩ := List.getElem?_eq_some_iff.1 hk
    have hsplit : decode ws = (decode ws).take k ++ (decode ws)[k] :: (decode ws).drop (k + 1) := by
      rw [List.cons_getElem_drop_succ, List.take_append_drop]
    rw [length_encode (allFull_of_decode hsplit)]
    simp

/-! ### Going from address to address -/

/-- The instructions found from an address on, each with its address: behind one the next is sought
after its operand, whether that operand is there or not. -/
def walk (words : Array UInt32) (a : Nat) : List (Nat × Opcode) :=
  match h : words[a]?.bind Opcode.ofWord? with
  | none => []
  | some op => (a, op) :: walk words (a + 1 + op.operandCount)
termination_by words.size - a
decreasing_by
  obtain ⟨w, hw, -⟩ := Option.bind_eq_some_iff.1 h
  obtain ⟨hlt, -⟩ := Array.getElem?_eq_some_iff.1 hw
  omega

lemma walk_of_none {words : Array UInt32} {a : Nat}
    (h : words[a]?.bind Opcode.ofWord? = none) : walk words a = [] := by
  rw [walk]
  split
  · rfl
  · simp_all

lemma walk_of_some {words : Array UInt32} {a : Nat} {op : Opcode}
    (h : words[a]?.bind Opcode.ofWord? = some op) :
    walk words a = (a, op) :: walk words (a + 1 + op.operandCount) := by
  rw [walk]
  split <;> simp_all

/-- Both ways of reading agree from every address on. -/
lemma walk_eq_addressed (words : Array UInt32) (a : Nat) :
    walk words a = addressed a (decode (words.toList.drop a)) := by
  fun_induction walk words a with
  | case1 a h =>
    cases hd : words.toList.drop a with
    | nil => simp [decode, addressed]
    | cons w rest =>
      have hw : words[a]? = some w := by simpa using congrArg List.head? hd
      rw [hw, Option.bind_some] at h
      simp [decode, h, addressed]
  | case2 a op h ih =>
    obtain ⟨w, hw, hop⟩ := Option.bind_eq_some_iff.1 h
    obtain ⟨hlt, rfl⟩ := Array.getElem?_eq_some_iff.1 hw
    have hdrop : words.toList.drop a = words[a] :: words.toList.drop (a + 1) := by
      rw [List.drop_eq_getElem_cons (by simpa using hlt), Array.getElem_toList]
    rw [hdrop, decode, hop]
    simp only [addressed, List.drop_drop, ih]

lemma walk_zero (words : Array UInt32) : walk words 0 = addressed 0 (decode words.toList) :=
  walk_eq_addressed words 0

end Code

namespace Machine

/-! ### Going straight on -/

/-- The round that ends is not the last one. -/
def beginsAgain (m : Machine) : Bool :=
  match m.loops with
  | [] => false
  | ⟨.times done count, _⟩ :: _ => !(Float.ofNat (done + 1) ≥ count)
  | _ :: _ => true

/-- What a native answers to the machine that calls it with the inputs on the stack. -/
def reply (m : Machine) (w : World) (n : Native) : Native.Reply :=
  let inputs := (m.stack.take n.arity).reverse
  n.run m w (inputs[0]?.getD .empty) (inputs[1]?.getD .empty)

/-- The instruction read at `address` takes a jump, begins a round again, calls a custom block or
returns from one, or has to be tried again. The machine is as `execute` gets it. -/
def departs (p : Program) (code : Code) (address : Nat) (op : Opcode) (operand : Nat) (m : Machine)
    (w : World) : Bool :=
  match op with
  | .halt => 1 < m.calls.length
  | .branch => !m.pop.1.toBool && (code.jump? address).isSome
  | .otherwise => (code.jump? address).isSome
  | .times => !(Number.round m.pop.1.toNumber ≥ 1) && (code.jump? address).isSome
  | .untilTest => m.pop.1.toBool && (code.jump? address).isSome
  | .loopEnd => m.beginsAgain
  | .callProcedure => (p.code? (.procedure operand)).isSome
  | .exec => p.tables.natives[operand]?.any fun n =>
      n.arity ≤ m.stack.length &&
        ((m.reply w n).pause == .retry || (m.reply w n).machine.calls.length != m.calls.length)
  | _ => false

/-- Goes on in the same routine behind the instruction that was done. -/
structure GoesOn (m m' : Machine) : Prop where
  address : m'.address = m.address
  routine : m'.routine = m.routine

lemma goesOn_of_eq {m m' : Machine} (ha : m'.address = m.address) (hc : m'.calls = m.calls) :
    GoesOn m m' := ⟨ha, by rw [routine, hc, routine]⟩

lemma jumpPast_of_none {code : Code} {a : Nat} (h : (code.jump? a).isSome = false) (m : Machine) :
    m.jumpPast code a = m := by
  rw [Option.isSome_eq_false_iff, Option.isNone_iff_eq_none] at h
  rw [jumpPast, h]

lemma goesOn_finish {m : Machine} (h : m.calls.length ≤ 1) : GoesOn m m.finish := by
  refine goesOn_of_eq rfl ?_
  match hc : m.calls, h with
  | [], _ => simp [finish, hc]
  | [c], _ => simp [finish, hc]

lemma stopScript_of_le {m : Machine} (h : m.calls.length ≤ 1) : m.stopScript = m.finish := by
  match hc : m.calls, h with
  | [], _ => simp [stopScript, hc]
  | [c], _ => simp [stopScript, hc]

lemma goesOn_endRound {m : Machine} (h : m.beginsAgain = false) : GoesOn m m.endRound := by
  unfold beginsAgain at h
  unfold endRound
  split at h
  · next hl => rw [hl]; exact ⟨rfl, rfl⟩
  · next hl =>
    rw [hl]
    simp only [Bool.not_eq_false', decide_eq_true_eq] at h
    simp only [if_pos h]
    exact ⟨rfl, rfl⟩
  · cases h

lemma goesOn_awaitPromise (m : Machine) (w : World) : GoesOn m (m.awaitPromise w) := by
  unfold awaitPromise
  split <;> exact ⟨rfl, rfl⟩

lemma goesOn_enterWarp (m : Machine) : GoesOn m m.enterWarp := by
  unfold enterWarp
  repeat' split
  all_goals first | exact ⟨rfl, rfl⟩ | exact ⟨rfl, by simp_all [routine]⟩

/-- What does not change the number of activations returns from none of them. -/
lemma goesOn_outcome {n : Native} {m : Machine} {r : Native.Reply} (h : n.Outcome m r)
    (hc : r.machine.calls.length = m.calls.length) : GoesOn m r.machine := by
  cases h with
  | stays => exact ⟨rfl, rfl⟩
  | stops =>
    have hle : m.calls.length ≤ 1 := by
      match hcalls : m.calls with
      | [] | [_] => simp
      | _ :: _ :: _ => simp [stopScript, returnFrom, hcalls] at hc
    rw [stopScript_of_le hle]
    exact goesOn_finish hle
  | ends =>
    have hle : m.calls.length ≤ 1 := by
      rw [← hc]
      cases h : m.calls.getLast? <;> simp [finish, h]
    exact ⟨rfl, (goesOn_finish hle).routine⟩

/-- After a native the machine goes on where the native left it, unless it has to try again. -/
lemma goesOn_callNative {m : Machine} {n : Native} (w : World) (a : Nat)
    (h : n.arity ≤ m.stack.length → (m.reply w n).pause ≠ .retry ∧
      (m.reply w n).machine.calls.length = m.calls.length) :
    GoesOn m (m.callNative w n a).1 := by
  unfold callNative
  split
  · exact ⟨rfl, rfl⟩
  next hlen =>
  obtain ⟨hpause, hcalls⟩ := h (Nat.not_lt.1 hlen)
  have hout : n.Outcome m (m.reply w n) := n.outcome_run ..
  change GoesOn m ((resume a n.pops (m.reply w n)).awaitPromise (m.reply w n).world)
  generalize m.reply w n = r at hpause hcalls hout
  have hnative := goesOn_outcome hout hcalls
  have hawait := goesOn_awaitPromise (resume a n.pops r) r.world
  rw [resume_of_ne hpause] at hawait ⊢
  exact ⟨hawait.address.trans hnative.address, hawait.routine.trans hnative.routine⟩

/-- One instruction that does not depart. -/
lemma goesOn_execute {p : Program} {code : Code} {a : Nat} {op : Opcode} {operand : Nat}
    {m : Machine} {w : World} (h : departs p code a op operand m w = false) :
    GoesOn m (execute p code a op operand m w).1 := by
  have hplain (h : InPlace op m (execute p code a op operand m w).1) :
      GoesOn m (execute p code a op operand m w).1 := goesOn_of_eq h.address h.calls
  cases op
  case halt =>
    rw [departs, decide_eq_false_iff_not, Nat.not_lt] at h
    change GoesOn m m.stopScript
    rw [stopScript_of_le h]
    exact goesOn_finish h
  case warp => exact goesOn_enterWarp m
  case const =>
    simp only [execute]
    split <;> exact ⟨rfl, rfl⟩
  case branch | times =>
    simp only [execute, departs, pop_eq, Bool.and_eq_false_imp, Bool.not_eq_true',
      decide_eq_false_iff_not] at h ⊢
    split
    · exact ⟨rfl, rfl⟩
    · next hv =>
      rw [jumpPast_of_none (h (by simpa using hv))]
      exact ⟨rfl, rfl⟩
  case otherwise =>
    simp only [execute, jumpPast_of_none h]
    exact ⟨rfl, rfl⟩
  case untilTest =>
    simp only [execute, departs, pop_eq, Bool.and_eq_false_imp] at h ⊢
    split
    · next hv =>
      rw [jumpPast_of_none (h hv)]
      exact ⟨rfl, rfl⟩
    · exact ⟨rfl, rfl⟩
  case loopEnd => exact goesOn_endRound h
  case callProcedure =>
    rw [departs] at h
    simp only [execute, callProcedure, h, Bool.false_eq_true, if_false]
    exact ⟨rfl, rfl⟩
  case exec =>
    simp only [execute]
    split
    · next n hn =>
      simp only [departs, hn, Option.any_some, Bool.and_eq_false_imp, decide_eq_true_eq,
        Bool.or_eq_false_iff, beq_eq_false_iff_ne, bne_eq_false_iff_eq] at h
      exact goesOn_callNative w a h
    · exact ⟨rfl, rfl⟩
  case forever | untilLoop => exact ⟨rfl, rfl⟩
  all_goals
    exact hplain (inPlace_execute (by simp [Opcode.isBracket]) (by simp) (by simp) (by simp)
      (by simp) (by simp) code a m w)

/-! ### Runs -/

/-- The machine as `execute` gets it: behind the instruction that was read. -/
def advance (m : Machine) (op : Opcode) : Machine :=
  { m with address := m.address + 1 + op.operandCount }

/-- A run in which no instruction departs, slice after slice, with the instructions that were done
and their addresses. Between two slices the world may change. -/
inductive Straight (p : Program) : Machine × World → List (Nat × Opcode) → Machine × World → Prop
  | done (s : Machine × World) : Straight p s [] s
  | step {m : Machine} {w : World} {code : Code} {op : Opcode} {xs : List (Nat × Opcode)}
      {s : Machine × World} (hrun : m.status = .running) (hcode : p.code? m.routine = some code)
      (hop : code.words[m.address]?.bind Opcode.ofWord? = some op)
      (hstay : departs p code m.address op (code.words[m.address + 1]?.getD 0).toNat (m.advance op)
        w = false)
      (hrest : Straight p (m.step p w) xs s) : Straight p (m, w) ((m.address, op) :: xs) s
  /-- What has to be tried again leaves the machine where it is. -/
  | again {m : Machine} {w : World} {xs : List (Nat × Opcode)} {s : Machine × World}
      (hrun : m.status = .running) (haddress : (m.step p w).1.address = m.address)
      (hroutine : (m.step p w).1.routine = m.routine) (hrest : Straight p (m.step p w) xs s) :
      Straight p (m, w) xs s
  | slice {m : Machine} {w w' : World} {xs : List (Nat × Opcode)} {s : Machine × World}
      (hready : m.isReady w' = true) (hrest : Straight p (m.wake, w') xs s) :
      Straight p (m, w) xs s

/-- A straight run does what going from address to address finds. -/
lemma Straight.walk_eq {p : Program} {s s' : Machine × World} {xs : List (Nat × Opcode)}
    (h : Straight p s xs s') {code : Code} (hcode : p.code? s.1.routine = some code) :
    Code.walk code.words s.1.address = xs ++ Code.walk code.words s'.1.address ∧
      s'.1.routine = s.1.routine := by
  induction h with
  | done => exact ⟨rfl, rfl⟩
  | @step m w code' op xs s hrun hcode' hop hstay _ ih =>
    obtain rfl : code' = code := Option.some.inj (hcode'.symm.trans hcode)
    have hstep : m.step p w = execute p code' m.address op
        (code'.words[m.address + 1]?.getD 0).toNat (m.advance op) w := by
      simp only [Machine.step, hcode, hop]
      rfl
    have hgo := goesOn_execute hstay
    rw [← hstep] at hgo
    obtain ⟨hwalk, hroutine⟩ := ih (hgo.routine ▸ hcode)
    rw [hgo.address] at hwalk
    exact ⟨by rw [Code.walk_of_some hop, List.cons_append, ← hwalk]; rfl,
      hroutine.trans hgo.routine⟩
  | again _ haddress hroutine _ ih =>
    obtain ⟨hwalk, hsame⟩ := ih (hroutine ▸ hcode)
    exact ⟨haddress ▸ hwalk, hsame.trans hroutine⟩
  | slice _ _ ih => exact ih hcode

/-- **All readings of code agree**: instructions are read back as they were written, and any words
are the words of the instructions read from them and a rest that is none or starts with no
instruction. Each instruction stands behind the words of those before it; jumps are found by going
from address to address, which comes to the same places; and a straight run from the start does the
first of these instructions, comes to the next one, and where it finds none has done them all. -/
theorem readings_agree :
    (∀ is, Code.AllFull is → (Code.ofWords (Code.encode is).toArray).instructions = is) ∧
    ∀ words : Array UInt32,
      let is := (Code.ofWords words).instructions
      (∃ rest, words.toList = Code.encode is ++ rest ∧ Code.Unread rest) ∧
      (∀ k : Nat, (Code.addressed 0 is)[k]? =
        is[k]?.map fun i => ((Code.encode (is.take k)).length, i.opcode)) ∧
      Code.walk words 0 = Code.addressed 0 is ∧
      (Code.ofWords words).jumps = ((Code.walk words 0).foldl Code.Scan.step .start).jumps ∧
      ∀ (p : Program) (m m' : Machine) (w w' : World) (xs : List (Nat × Opcode)),
        p.code? m.routine = some (Code.ofWords words) → m.address = 0 →
        Straight p (m, w) xs (m', w') →
        (∀ op, words[m'.address]?.bind Opcode.ofWord? = some op →
          xs ++ [(m'.address, op)] <+: Code.addressed 0 is) ∧
        (words[m'.address]?.bind Opcode.ofWord? = none → xs = Code.addressed 0 is) := by
  refine ⟨fun is h => Code.instructions_ofInstructions h, fun words => ⟨Code.exists_unread _,
    Code.getElem?_addressed _, Code.walk_zero words, ?_, ?_⟩⟩
  · rw [Code.walk_zero]
    rfl
  · intro p m m' w w' xs hcode ha hrun
    obtain ⟨hwalk, -⟩ := hrun.walk_eq hcode
    simp only [ha, Code.ofWords, Code.walk_zero] at hwalk
    simp only [Code.instructions, Code.ofWords, hwalk]
    refine ⟨fun op hop => ?_, fun hnone => ?_⟩
    · exact ⟨_, by rw [Code.walk_of_some hop, ← List.append_cons]⟩
    · rw [Code.walk_of_none hnone, List.append_nil]

/-- An operand that looks like the end of a loop, a pause, a branch without an end, and a constant
that lacks its operand. -/
theorem readings_agree_ragged :
    let words : Array UInt32 := #[39, 13, 59, 5, 2]
    let xs : List (Nat × Opcode) := [(0, .var .read), (2, .breakFrame), (3, .branch), (4, .const)]
    let p : Program := { main := ⟨words, []⟩, tables := {} }
    let m := (Machine.new p ⟨0, 0⟩ {}).1
    let m' := { m with address := 6, status := .faulted .badConstant }
    Code.ofWords words = p.main ∧ Straight p (m, {}) xs (m', {}) ∧
      xs = Code.addressed 0 (Code.ofWords words).instructions := by
  intro words xs p m m'
  have hcode : Code.ofWords words = p.main := by cbv
  have hrun : Straight p (m, {}) xs (m', {}) := by
    refine .step rfl rfl rfl rfl ?_
    rw [show m.step p {} = ({ m with address := 2, stack := [.empty] }, {}) from rfl]
    refine .step rfl rfl rfl rfl ?_
    rw [show Machine.step p { m with address := 2, stack := [.empty] } {} =
      ({ m with address := 3, stack := [.empty], status := .yielded }, {}) from rfl]
    refine .slice (show Machine.isReady _ {} = true from rfl) ?_
    refine .step rfl rfl rfl rfl ?_
    rw [show Machine.step p
      (Machine.wake { m with address := 3, stack := [.empty], status := .yielded }) {} =
      ({ m with address := 4 }, {}) from rfl]
    refine .step rfl rfl rfl rfl ?_
    exact .done _
  exact ⟨hcode, hrun, ((readings_agree.2 words).2.2.2.2 p m m' {} {} xs
    (congrArg some hcode.symm) rfl hrun).2 rfl⟩

end Machine

end Blockwork
