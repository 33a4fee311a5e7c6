import Blockwork.Proofs.Compile.Waits
import Blockwork.Proofs.Machine.Operands
import Blockwork.Proofs.Machine.Walks

/-!
Blocks that wait. A block that waits for the clock reads its inputs, starts the clock and gives way; one
that waits for a condition passes its checkpoint at once. From then on both are tried once in each slice,
from the checkpoint: what is done there is the question for the time in the one case, the condition in the
other, and nothing else. While the wait is not over the machine is the same whenever a slice begins, and in
all but address, checkpoint and clock the same as when it came to the block.

A command begins with no operands, so what the inputs leave is exactly what the native takes.
-/

namespace Blockwork

deriving instance DecidableEq for Tables

/-- What is laid down for a routine is its code. -/
lemma Program.Laid.codeOf_eq {p : Program} {blocks : BlockMap} {r : Routine}
    {ls ls' : List Line} (h : p.Laid true blocks r ls) (h' : p.Laid true blocks r ls') :
    Compiler.codeOf ls = Compiler.codeOf ls' := by
  have hcode := Option.some.inj (h.holds.code.symm.trans h'.holds.code)
  rw [← Code.instructions_ofInstructions h.holds.full, hcode,
    Code.instructions_ofInstructions h'.holds.full]

/-- An address tells how far the code goes up to there. -/
lemma Code.prefix_eq_of_extent {xs ys zs : List Instruction} (hx : xs <+: zs) (hy : ys <+: zs)
    (h : Code.extent xs = Code.extent ys) : xs = ys := by
  have hnil : ∀ {ks : List Instruction}, Code.extent ks = 0 → ks = [] := by
    intro ks hks
    cases ks with
    | nil => rfl
    | cons i ks => simp at hks
  rcases List.prefix_or_prefix_of_prefix hx hy with ⟨ks, rfl⟩ | ⟨ks, rfl⟩
  · rw [Code.extent_append, Nat.left_eq_add] at h
    rw [hnil h, List.append_nil]
  · rw [Code.extent_append, Nat.add_eq_left] at h
    rw [hnil h, List.append_nil]

/-- The machine in the middle of a block: its operands, its loops, its activations with their arguments
and the calls that it prepares are as they were. -/
def Machine.amid (m : Machine) (address : Nat) (checkpoint : Option Nat) (timer : Option Machine.Timer)
    (status : Machine.Status) : Machine :=
  { m with address, checkpoint, timer, status }

lemma Machine.wake_amid {m : Machine} (hp : m.promise = none) (a : Nat) (k : Option Nat)
    (t : Option Timer) : (m.amid a k t .yielded).wake = m.amid a k t .running := by
  simp [wake, amid, hp]

/-! ### States of waiting -/

namespace Compiler

namespace TimedLines

variable {t : Tables} {blocks : BlockMap} {x : String} {b : Block} {d : Timed}
  (lines : TimedLines t blocks x b d) (pre : List Line) (m : Machine) (timer : Machine.Timer)

/-- The clock has been started. -/
def begun : Machine :=
  m.amid (Code.extent (codeOf (pre ++ lines.starting))) m.checkpoint timer .yielded

/-- The time was not over. -/
def held : Machine :=
  m.amid (Code.extent (codeOf (pre ++ lines.marking))) (Code.extent (codeOf (pre ++ lines.marking)))
    timer .yielded

/-- The time was over. -/
def asked : Machine :=
  m.amid (Code.extent (codeOf (pre ++ lines.asking))) (Code.extent (codeOf (pre ++ lines.marking))) none
    .running

/-- The block has been done. -/
def past : Machine :=
  m.amid (Code.extent (codeOf (pre ++ lines.all))) (Code.extent (codeOf (pre ++ lines.marking))) none
    .running

end TimedLines

namespace ConditionLines

variable {t : Tables} {blocks : BlockMap} {x : String} {b : Block} (lines : ConditionLines t blocks x b)
  (pre : List Line) (m : Machine)

/-- The condition is to be evaluated. -/
def trying : Machine :=
  m.amid (Code.extent (codeOf (pre ++ [lines.check]))) (Code.extent (codeOf (pre ++ [lines.check])))
    m.timer .running

/-- The condition was false. -/
def held : Machine :=
  m.amid (Code.extent (codeOf (pre ++ [lines.check]))) (Code.extent (codeOf (pre ++ [lines.check])))
    m.timer .yielded

/-- The condition was true, and the block has been done. -/
def past : Machine :=
  m.amid (Code.extent (codeOf (pre ++ lines.all))) (Code.extent (codeOf (pre ++ [lines.check]))) m.timer
    .running

end ConditionLines

/-- The world after the time is over: a bubble is taken away. -/
def Timed.clears (d : Timed) (target : TargetId) (w : World) : World :=
  if d.done.isEmpty then w else w.setBubble target .say ""

end Compiler

namespace Machine

open Compiler

/-- How a block waits for the clock that the machine `m` comes to in the world `w`. First its inputs are
read, of which the last one says for how many seconds; then the clock is started, and the machine gives
way. It waits until that many seconds have gone by, and in the slice in which they have, it does the rest
of the block. -/
structure WaitsForTime (p : Program) {blocks : BlockMap} {x : String} {b : Block} {d : Timed}
    (r : Routine) (pre : List Line) (lines : TimedLines p.tables blocks x b d) (m : Machine) (w : World)
    (seconds : Value) (timer : Timer) : Prop where
  timer_eq : timer = ⟨w.host.clock, seconds.toNumber⟩
  begins : ∃ others w₁, w.Draws w₁ ∧
    Walks p (m, w) (places r pre lines.reading)
      (m.put (Code.extent (codeOf (pre ++ lines.reading))) (seconds :: others), w₁) ∧
    Walks p (m.put (Code.extent (codeOf (pre ++ lines.reading))) (seconds :: others), w₁)
      (places r (pre ++ lines.reading) [lines.start]) (lines.begun pre m timer,
        ((m.put (Code.extent (codeOf (pre ++ lines.starting))) (seconds :: others)).reply w₁
          d.start).world)
  waits : Waits p (places r (pre ++ lines.starting) [lines.check])
    (places r (pre ++ lines.marking) [lines.wait]) (lines.begun pre m timer) (lines.held pre m timer)
    (lines.asked pre m) (fun u => decide (u.host.clock - w.host.clock ≥ seconds.toNumber)) id
  ends : ∀ u, Walks p (lines.asked pre m, u) (places r (pre ++ lines.asking) lines.done)
    (lines.past pre m, d.clears m.target u)

/-- How a block waits for a condition that the machine `m` comes to: `verdict` says of each world what the
condition is there, and what evaluating it leaves of the world. It is evaluated once in every slice, the
one in which the machine comes to the block included, until it is true. -/
structure WaitsForCondition (p : Program) {blocks : BlockMap} {x : String} {b : Block} (r : Routine)
    (pre : List Line) (lines : ConditionLines p.tables blocks x b) (m : Machine)
    (verdict : World → Value × World) : Prop where
  draws : ∀ u : World, u.Draws (verdict u).2
  evaluates : ∀ u, Walks p (lines.trying pre m, u) (places r (pre ++ [lines.check]) lines.condition)
    ((lines.trying pre m).put (Code.extent (codeOf (pre ++ lines.evaluating)))
      ((verdict u).1 :: m.stack), (verdict u).2)
  waits : Waits p (places r pre [lines.check])
    (places r (pre ++ [lines.check]) (lines.condition ++ [lines.test])) m (lines.held pre m)
    (lines.past pre m) (fun u => (verdict u).1.toBool) (fun u => (verdict u).2)

section

variable {p : Program} {blocks : BlockMap} {x : String} {b : Block} {d : Timed} {r : Routine}
  {ls pre post : List Line} {m : Machine} {w : World}

/-! ### Waiting for the clock -/

/-- Natives that start the clock take all inputs. -/
lemma reply_start {op : String} (hd : (op, d) ∈ Timed.table) {m : Machine} {seconds : Value}
    {others : List Value} (hst : m.stack = seconds :: others)
    (hlen : m.stack.length = d.inputs.length) (w : World) :
    d.start.pops = m.stack.length ∧ d.start.arity = m.stack.length ∧
      m.reply w d.start = ⟨{ m with timer := some ⟨w.host.clock, seconds.toNumber⟩ },
        (m.reply w d.start).world, none, .yield⟩ := by
  simp only [Timed.table, List.mem_cons, Prod.mk.injEq, List.not_mem_nil, or_false] at hd
  cases m
  subst hst
  rw [List.length_cons] at hlen
  rcases hd with ⟨-, rfl⟩ | ⟨-, rfl⟩ | ⟨-, rfl⟩
  · obtain rfl := List.length_eq_zero_iff.1 (Nat.succ.inj hlen)
    exact ⟨rfl, rfl, rfl⟩
  all_goals
    obtain ⟨message, rfl⟩ := List.length_eq_one_iff.1 (Nat.succ.inj hlen)
    exact ⟨rfl, rfl, rfl⟩

lemma reply_wait_of_not {m : Machine} {start seconds : Float} (hu : ¬ w.host.clock - start ≥ seconds)
    (ht : m.timer = some ⟨start, seconds⟩) : m.reply w .wait = ⟨m, w, none, .retry⟩ := by
  simp [reply, Native.run, ht, hu]

lemma reply_wait_of {m : Machine} {start seconds : Float} (hu : w.host.clock - start ≥ seconds)
    (ht : m.timer = some ⟨start, seconds⟩) :
    m.reply w .wait = ⟨{ m with timer := none }, w, none, .go⟩ := by
  simp [reply, Native.run, ht, hu]

variable {lines : TimedLines p.tables blocks x b d}

/-- The inputs are read, and the clock is started. -/
lemma begins_time (hlaid : p.Laid true blocks r ls) (hls : ls = pre ++ (lines.all ++ post))
    (hblank : Code.shape p.tables (codeOf pre) = .blank) (hd : (b.opcode, d) ∈ Timed.table)
    (h : Faces r pre m) (hstack : m.stack = []) (w : World) :
    ∃ seconds others w₁, w.Draws w₁ ∧
      Walks p (m, w) (places r pre lines.reading)
        (m.put (Code.extent (codeOf (pre ++ lines.reading))) (seconds :: others), w₁) ∧
      Walks p (m.put (Code.extent (codeOf (pre ++ lines.reading))) (seconds :: others), w₁)
        (places r (pre ++ lines.reading) [lines.start])
        (lines.begun pre m ⟨w.host.clock, seconds.toNumber⟩,
          ((m.put (Code.extent (codeOf (pre ++ lines.starting))) (seconds :: others)).reply w₁
            d.start).world) := by
  have hstart : ls = (pre ++ lines.reading) ++ lines.start ::
      ([lines.check] ++ [lines.wait] ++ lines.done ++ post) := by
    simp [hls, TimedLines.all, TimedLines.asking, TimedLines.marking, TimedLines.starting]
  obtain ⟨st, w₁, hst, hdraws, hreads⟩ := h.reads hlaid (hstart.trans (List.append_assoc _ _ _))
    lines.yields (by rw [hblank, hstack]; rfl) w
  -- what was read is the values of the inputs, and the native takes them all
  have hcount : st.length = d.inputs.length := by
    rw [hst, TimedLines.reading, origins_inputs lines.reads, hblank, List.length_append, length_pushers,
      ← lines.reads.length_eq, List.length_map]
    rfl
  obtain ⟨seconds, others, rfl⟩ : ∃ seconds others, st = seconds :: others :=
    List.exists_cons_of_ne_nil fun hnil => Timed.inputs_ne_nil _ hd <| by
      rw [hnil] at hcount
      exact List.length_eq_zero_iff.1 hcount.symm
  refine ⟨seconds, others, w₁, hdraws, hreads, ?_⟩
  obtain ⟨hpops, harity, hreply⟩ := reply_start hd
    (m := m.put (Code.extent (codeOf (pre ++ lines.starting))) (seconds :: others)) rfl hcount w₁
  have hclock : w₁.host.clock = w.host.clock := by
    obtain ⟨draws, rfl⟩ := hdraws
    rfl
  rw [hclock] at hreply
  have hfaces : Faces r (pre ++ lines.reading)
      (m.put (Code.extent (codeOf (pre ++ lines.reading))) (seconds :: others)) :=
    ⟨h.running, h.promise, h.routine, rfl⟩
  refine hfaces.calls hlaid hstart lines.starts (le_of_eq harity) (by rw [List.append_assoc]; rfl) hreply
    ?_ h.promise
  rw [resume_of_ne (by simp), hpops]
  simp [TimedLines.begun, amid, put, h.running, hstack]

/-- In each slice it is asked whether the time is over. -/
lemma polls_time (hlaid : p.Laid true blocks r ls) (hls : ls = pre ++ (lines.all ++ post))
    (h : Faces r pre m) (start seconds : Float) :
    Polls p (places r (pre ++ lines.starting) [lines.check])
      (places r (pre ++ lines.marking) [lines.wait]) (lines.begun pre m ⟨start, seconds⟩)
      (lines.held pre m ⟨start, seconds⟩) (lines.asked pre m)
      (fun u => decide (u.host.clock - start ≥ seconds)) id := by
  have hcheck : ls = (pre ++ lines.starting) ++ lines.check ::
      ([lines.wait] ++ lines.done ++ post) := by
    simp [hls, TimedLines.all, TimedLines.asking, TimedLines.marking]
  have hwait : ls = (pre ++ lines.marking) ++ lines.wait :: (lines.done ++ post) := by
    simp [hls, TimedLines.all, TimedLines.asking]
  set timer : Timer := ⟨start, seconds⟩
  have hbegun : (lines.begun pre m timer).wake = m.amid (Code.extent (codeOf (pre ++ lines.starting)))
      m.checkpoint timer .running := wake_amid h.promise _ _ _
  have hheld : (lines.held pre m timer).wake = m.amid (Code.extent (codeOf (pre ++ lines.marking)))
      (Code.extent (codeOf (pre ++ lines.marking))) timer .running := wake_amid h.promise _ _ _
  have hfaces : ∀ ks k, Faces r (pre ++ ks)
      (m.amid (Code.extent (codeOf (pre ++ ks))) k timer .running) :=
    fun ks k => ⟨rfl, h.promise, h.routine, rfl⟩
  refine ⟨fun u => rfl, rfl, fun u => ?_, fun u hu => ?_, fun u hu => ?_⟩
  · rw [hbegun, hheld]
    exact (hfaces lines.starting _).marks hlaid hcheck lines.checks (by rw [List.append_assoc]; rfl) u
  · rw [hheld]
    refine (hfaces lines.marking _).calls hlaid hwait lines.waits (Nat.zero_le _)
      (by rw [List.append_assoc]) (reply_wait_of_not (of_decide_eq_false hu) rfl) ?_ h.promise
    exact resume_retry (m := (m.amid _ _ timer .running).put _ m.stack) rfl rfl _ _ _
  · rw [hheld]
    refine (hfaces lines.marking _).calls hlaid hwait lines.waits (Nat.zero_le _)
      (by rw [List.append_assoc]) (reply_wait_of (of_decide_eq_true hu) rfl) ?_ h.promise
    exact resume_of_ne (by simp) _ _

/-- When the time is over, the rest of the block is done. -/
lemma ends_time (hlaid : p.Laid true blocks r ls) (hls : ls = pre ++ (lines.all ++ post))
    (hd : (b.opcode, d) ∈ Timed.table) (h : Faces r pre m) (u : World) :
    Walks p (lines.asked pre m, u) (places r (pre ++ lines.asking) lines.done)
      (lines.past pre m, d.clears m.target u) := by
  have hends := lines.ends
  rcases Timed.done_of_mem _ hd with hnone | hone
  · rw [hnone, List.map_nil, List.map_eq_nil_iff] at hends
    have hall : lines.all = lines.asking := by rw [TimedLines.all, hends, List.append_nil]
    rw [hends, TimedLines.past, hall, Timed.clears, hnone]
    exact .done _
  · rw [hone, List.map_singleton, List.map_eq_singleton_iff] at hends
    obtain ⟨l, hl, hn⟩ := hends
    have hclear : ls = (pre ++ lines.asking) ++ l :: post := by
      simp [hls, TimedLines.all, hl]
    rw [hl, TimedLines.past, TimedLines.all, hl, Timed.clears, hone]
    refine Faces.calls (r := r) (m := lines.asked pre m) hlaid hclear hn
      ⟨rfl, h.promise, h.routine, rfl⟩ (Nat.zero_le _) (by rw [List.append_assoc]) rfl ?_ h.promise
    exact resume_of_ne (by simp) _ _

/-- A block that waits for the clock. -/
lemma waitsForTime (hlaid : p.Laid true blocks r ls) (hls : ls = pre ++ (lines.all ++ post))
    (hblank : Code.shape p.tables (codeOf pre) = .blank) (hd : (b.opcode, d) ∈ Timed.table)
    (h : Faces r pre m) (hstack : m.stack = []) (w : World) :
    ∃ seconds timer, WaitsForTime p r pre lines m w seconds timer := by
  obtain ⟨seconds, others, w₁, hbegins⟩ := begins_time hlaid hls hblank hd h hstack w
  exact ⟨seconds, ⟨w.host.clock, seconds.toNumber⟩, rfl, ⟨others, w₁, hbegins⟩,
    (polls_time hlaid hls h _ _).waits, ends_time hlaid hls hd h⟩

/-! ### Waiting for a condition -/

variable {tested : ConditionLines p.tables blocks x b}

lemma reply_waitUntil {m : Machine} {v : Value} {st : List Value} (hst : m.stack = v :: st) :
    m.reply w .waitUntil = ⟨m, w, none, if v.toBool then .go else .retry⟩ := by
  simp [reply, Native.run, hst, Native.arity]

/-- A block that waits for a condition. -/
lemma waitsForCondition (hlaid : p.Laid true blocks r ls) (hls : ls = pre ++ (tested.all ++ post))
    (h : Faces r pre m) (hstack : m.stack = []) :
    ∃ verdict, WaitsForCondition p r pre tested m verdict := by
  have hcheck : ls = pre ++ tested.check :: (tested.condition ++ ([tested.test] ++ post)) := by
    simp [hls, ConditionLines.all, ConditionLines.evaluating]
  have hread : ls = (pre ++ [tested.check]) ++ (tested.condition ++ ([tested.test] ++ post)) := by
    simp [hcheck]
  have htest : ls = (pre ++ tested.evaluating) ++ tested.test :: post := by
    simp [hls, ConditionLines.all]
  have htrying : Faces r (pre ++ [tested.check]) (tested.trying pre m) :=
    ⟨rfl, h.promise, h.routine, rfl⟩
  -- behind the checkpoint nothing is there, and evaluating the condition adds one operand
  have hmarked : Code.shape p.tables (codeOf (pre ++ [tested.check])) = .blank := by
    rw [codeOf, List.map_append, List.map_singleton]
    exact Code.shape_snoc_settles _ (settles_of_opcode tested.checks (by simp))
  have hverdict : ∀ u : World, ∃ y : Value × World, u.Draws y.2 ∧
      Walks p (tested.trying pre m, u) (places r (pre ++ [tested.check]) tested.condition)
        ((tested.trying pre m).put (Code.extent (codeOf (pre ++ tested.evaluating)))
          (y.1 :: m.stack), y.2) := by
    intro u
    obtain ⟨st, u', hst, hdraws, hwalk⟩ := htrying.reads hlaid hread tested.yields
      (by rw [hmarked]; exact congrArg List.length hstack) u
    have hone : st.length = 1 := by
      rw [hst, codeOf, List.map_append, tested.reads.pushes.shape, hmarked]
      rfl
    obtain ⟨v, rfl⟩ := List.length_eq_one_iff.1 hone
    rw [List.append_assoc] at hwalk
    exact ⟨(v, u'), hdraws, hstack ▸ hwalk⟩
  choose verdict hdraws hevaluates using hverdict
  have hfaces : ∀ v, Faces r (pre ++ tested.evaluating) ((tested.trying pre m).put
      (Code.extent (codeOf (pre ++ tested.evaluating))) (v :: m.stack)) :=
    fun v => ⟨rfl, h.promise, h.routine, rfl⟩
  have hheld : (tested.held pre m).wake = tested.trying pre m := wake_amid h.promise _ _ _
  have hplaces : places r (pre ++ [tested.check]) (tested.condition ++ [tested.test]) =
      places r (pre ++ [tested.check]) tested.condition ++
        places r (pre ++ tested.evaluating) [tested.test] := by
    rw [places_append, List.append_assoc]
    rfl
  -- the test takes the value that the condition left
  have htests : ∀ u {m' : Machine}, resume (Code.extent (codeOf (pre ++ tested.evaluating))) 1
      ⟨(tested.trying pre m).put (Code.extent (codeOf (pre ++ tested.all)))
        ((verdict u).1 :: m.stack), (verdict u).2, none,
        if (verdict u).1.toBool then .go else .retry⟩ = m' → m'.promise = none →
      Walks p ((tested.held pre m).wake, u) (places r (pre ++ [tested.check])
        (tested.condition ++ [tested.test])) (m', (verdict u).2) := by
    intro u m' hresume hm'
    rw [hheld, hplaces]
    exact (hevaluates u).trans ((hfaces _).calls hlaid htest tested.tests
      (by simp [Native.arity]) (by rw [List.append_assoc]; rfl) (reply_waitUntil rfl) hresume hm')
  refine ⟨verdict, hdraws, hevaluates, Polls.waits ⟨fun u => by simp [isReady, h.running], rfl,
    fun u => ?_, fun u hu => htests u ?_ h.promise, fun u hu => htests u ?_ h.promise⟩⟩
  · rw [wake_of_running h.running, hheld, ConditionLines.trying, amid, ← h.running]
    exact h.marks hlaid hcheck tested.checks rfl u
  · rw [if_neg (by simp [hu])]
    exact resume_retry (m := (tested.trying pre m).put _ _) rfl rfl _ _ _
  · rw [if_pos hu]
    exact resume_of_ne (by simp) _ _

/-! ### Where a block is -/

/-- Where nothing is evaluated, the stack is empty. -/
lemma Reachable.stack_of_blank (hlaid : ∀ r, (p.code? r).isSome → ∃ ls, p.Laid true blocks r ls)
    (hm : Reachable p m) (hrun : m.status = .running) (hls : p.Laid true blocks r ls)
    (hpre : pre <+: ls) (hr : m.routine = r) (ha : m.address = Code.extent (codeOf pre))
    (hblank : Code.shape p.tables (codeOf pre) = .blank) : m.stack = [] := by
  obtain ⟨ls', pre', l, post', c, rest, own, outer, hs, -⟩ :=
    ((hm.inOrder hlaid).resolve_left (by rw [hrun]; simp)).2
  have hroutine : c.routine = r := hs.routine.symm.trans hr
  have hcode := Program.Laid.codeOf_eq (hroutine ▸ hs.laid) hls
  have hwhole : codeOf pre' <+: codeOf ls := by
    rw [← hcode, hs.lines]
    exact (List.prefix_append _ _).map _
  have hsame : codeOf pre' = codeOf pre :=
    Code.prefix_eq_of_extent hwhole (hpre.map _) (hs.address.symm.trans ha)
  have hlen := (hs.loaded.2 rfl).1
  rw [hsame, hblank] at hlen
  exact List.length_eq_zero_iff.1 hlen

end

/-- **Waits are polled**: wherever a block that waits stands in a compiled script, a machine that comes to
it does as follows. If the block waits for the clock, the machine reads its inputs, starts the clock and
gives way; in every later slice in which the seconds have not gone by it does nothing but ask for the time,
and gives way again; and in the first in which they have, it goes on to where the next block begins. If the
block waits for a condition, the machine evaluates it once in every slice, from the one in which it comes
to the block, and nothing else; while it is false the machine gives way, and in the first slice in which it
is true it goes on to where the next block begins. Whenever a slice begins, the operands, the loops, and
the activations with their arguments are those with which the machine came to the block. -/
theorem polling_waits {blocks : BlockMap} (hkey : blocks.Keyed) (hk : blocks.WellKinded)
    (hac : blocks.Acyclic) {target : TargetId} {s : Script}
    (hs : s ∈ (Engine.compileTarget .builtin target blocks).1) {r : Routine} {c : Compiler} {id : String}
    {mode : Mode} (hunit : s.program.Compiled blocks r c id mode) {x : String} {b : Block}
    {pre : List Line} (hx : BeginsIn blocks x c id mode pre) (hb : blocks.get? x = some b) {m : Machine}
    (hm : Reachable s.program m) (hrun : m.status = .running) (hr : m.routine = r)
    (ha : m.address = Code.extent (codeOf pre)) (w : World) :
    (∀ d, (b.opcode, d) ∈ Timed.table →
      ∃ (lines : TimedLines s.program.tables blocks x b d) (post : List Line) (seconds : Value)
        (timer : Timer), c.listing .builtin blocks id mode = pre ++ (lines.all ++ post) ∧
        (∀ y ∈ b.next, (blocks.get? y).isSome → BeginsIn blocks y c id mode (pre ++ lines.all)) ∧
        WaitsForTime s.program r pre lines m w seconds timer) ∧
    (b.opcode = "control_wait_until" →
      ∃ (lines : ConditionLines s.program.tables blocks x b) (post : List Line)
        (verdict : World → Value × World),
        c.listing .builtin blocks id mode = pre ++ (lines.all ++ post) ∧
        (∀ y ∈ b.next, (blocks.get? y).isSome → BeginsIn blocks y c id mode (pre ++ lines.all)) ∧
        WaitsForCondition s.program r pre lines m verdict) := by
  have hlaid := Engine.laid_of_mem true hkey hk.values hac (fun _ => hk) hs
  have hls : s.program.Laid true blocks r (c.listing .builtin blocks id mode) :=
    laid_of_compiled hkey hk.values hac (fun _ => hk) hunit
  have hblank := shape_begins hkey hk hac hunit hx
  have hfaces : Faces r pre m := ⟨hrun, hm.no_promise hlaid (Or.inl hrun), hr, ha⟩
  obtain ⟨ls, post, hlines, ht, ⟨fuel, c', hemitted⟩, hnext⟩ := hx.emitted hkey hk hac hunit hb
  have hstack := hm.stack_of_blank hlaid hrun hls ⟨ls ++ post, hlines.symm⟩ hr ha hblank
  constructor
  · intro d hd
    obtain ⟨lines, rfl⟩ := hemitted.timed ht hk.values hac hb hd
    obtain ⟨seconds, timer, hwaits⟩ := waitsForTime hls hlines hblank hd hfaces hstack w
    exact ⟨lines, post, seconds, timer, hlines, hnext, hwaits⟩
  · intro hop
    obtain ⟨lines, rfl⟩ := hemitted.condition ht hk.values hac hb hop
    obtain ⟨verdict, hwaits⟩ := waitsForCondition hls hlines hfaces hstack
    exact ⟨lines, post, verdict, hlines, hnext, hwaits⟩

/-- A block that waits for the mouse. -/
def untilPressed : Block :=
  { id := "until", opcode := "control_wait_until", next := some "say"
    inputs := .ofList [("CONDITION", { value := some (.block "mouse") })] }

/-- A block that says something for a second. -/
def sayHi : Block :=
  { id := "say", opcode := "looks_sayforsecs"
    inputs := .ofList [("MESSAGE", { value := some (.value (.text "Hi")) }),
      ("SECS", { value := some (.value (.text "1")) })] }

/-- A loop that waits for the mouse and then says something. -/
def greetsTwice : BlockMap := .ofList [
  ("flag", { id := "flag", opcode := "event_whenflagclicked", topLevel := true, next := some "twice" }),
  ("twice", { id := "twice", opcode := "control_repeat"
              inputs := .ofList [("TIMES", { value := some (.value (.text "2")) }),
                ("SUBSTACK", { value := some (.block "until") })] }),
  ("until", untilPressed), ("say", sayHi), ("mouse", { id := "mouse", opcode := "sensing_mousedown" })]

/-- Its program. -/
def greetingScript : Script :=
  (Engine.compileTarget .builtin ⟨0, 0⟩ greetsTwice).1.head (by decide +kernel)

lemma greetingScript_mem : greetingScript ∈ (Engine.compileTarget .builtin ⟨0, 0⟩ greetsTwice).1 :=
  List.head_mem _

lemma compiled_greetsTwice :
    greetingScript.program.Compiled greetsTwice .main .new "flag" .script := by
  have hcode : greetingScript.program.main =
      (Compiler.new.compile .builtin greetsTwice "flag" .script).1 := by
    decide +kernel
  have htables : greetingScript.program.tables =
      (Compiler.new.compile .builtin greetsTwice "flag" .script).2.tables := by
    decide +kernel
  exact ⟨⟨_, rfl, ⟨_, List.mem_cons_self, Or.inl (by decide +kernel)⟩, hcode, Tables.tidy_empty,
    htables ▸ .refl _⟩, rfl⟩

/-- The body of the loop stands behind the number of times. -/
lemma begins_of_body {x : String} {b : Block} {c : Compiler} {pre : List Line}
    (hb : greetsTwice.get? "twice" = some b)
    (h : Begins greetsTwice x 9 (some "until")
      (afterSteps greetsTwice 9 b c [.input "TIMES", .emit .times]) pre) :
    Begins greetsTwice x 10 (some "twice") c
      (linesOf greetsTwice 9 "twice" b c [.input "TIMES", .emit .times] ++ pre) := by
  obtain rfl := Option.some.inj hb
  exact .held (r := .steps [.input "TIMES", .emit .times, .loopBody "SUBSTACK", .emit .loopEnd])
    (s := .loopBody "SUBSTACK") hb (by decide +kernel) (by decide +kernel) rfl rfl h

/-- Both blocks that wait stand in the body of the loop. -/
lemma begins_greetsTwice :
    (∃ pre, BeginsIn greetsTwice "until" .new "flag" .script pre ∧ Code.extent (codeOf pre) = 4) ∧
      ∃ pre, BeginsIn greetsTwice "say" .new "flag" .script pre ∧ Code.extent (codeOf pre) = 9 := by
  constructor
  · refine ⟨_, ⟨rfl, _, rfl, @Begins.further _ _ 10 _ _ _ _ rfl (begins_of_body rfl (.here _))⟩, ?_⟩
    decide +kernel
  · refine ⟨_, ⟨rfl, _, rfl, @Begins.further _ _ 10 _ _ _ _ rfl
      (begins_of_body rfl (.further rfl (.here _)))⟩, ?_⟩
    decide +kernel

/-- The mouse is pressed. -/
def pressed : World := { host := { mouseDown := true } }

/-- A machine that comes to the first block waits for the mouse; one that comes to the second, when the
mouse is pressed, waits for a second. -/
theorem polling_waits_greets :
    (∃ pre m lines verdict, Reachable greetingScript.program m ∧ m.loops.length = 1 ∧
      @WaitsForCondition greetingScript.program greetsTwice "until" untilPressed .main pre lines m
        verdict) ∧
    ∃ d pre m lines seconds timer, Reachable greetingScript.program m ∧ m.loops.length = 1 ∧
      @WaitsForTime greetingScript.program greetsTwice "say" sayHi d .main pre lines m pressed seconds
        timer := by
  have hac : greetsTwice.Acyclic := BlockMap.acyclic_of_falling
    (fun id => ["mouse", "say", "until", "twice", "flag"].idxOf id) (by decide +kernel)
  have hcomes := @polling_waits greetsTwice (by decide +kernel) (by decide +kernel) hac _ _
    greetingScript_mem _ _ _ _ compiled_greetsTwice
  obtain ⟨⟨pre, hpre, hlen⟩, ⟨pre', hpre', hlen'⟩⟩ := begins_greetsTwice
  constructor
  · obtain ⟨m, hm, hrun, hr, ha, hloops⟩ : ∃ m, Reachable greetingScript.program m ∧
        m.status = .running ∧ m.routine = .main ∧ m.address = 4 ∧ m.loops.length = 1 :=
      ⟨_, (Reachable.new ⟨0, 0⟩ {}).steps 3 {}, by decide +kernel⟩
    obtain ⟨lines, -, verdict, -, -, hwaits⟩ :=
      (hcomes hpre (b := untilPressed) rfl hm hrun hr (ha.trans hlen.symm) {}).2 rfl
    exact ⟨pre, m, lines, verdict, hm, hloops, hwaits⟩
  · obtain ⟨m, hm, hrun, hr, ha, hloops⟩ : ∃ m, Reachable greetingScript.program m ∧
        m.status = .running ∧ m.routine = .main ∧ m.address = 9 ∧ m.loops.length = 1 :=
      ⟨_, (Reachable.new ⟨0, 0⟩ pressed).steps 6 pressed, by decide +kernel⟩
    obtain ⟨lines, -, seconds, timer, -, -, hwaits⟩ :=
      (hcomes hpre' (b := sayHi) rfl hm hrun hr (ha.trans hlen'.symm) pressed).1 _
        (List.mem_cons_of_mem _ List.mem_cons_self)
    exact ⟨_, pre', m, lines, seconds, timer, hm, hloops, hwaits⟩

end Machine

end Blockwork
