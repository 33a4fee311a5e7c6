import Blockwork.Proofs.Machine.Reachable
import Mathlib.Algebra.Order.BigOperators.Group.List
import Mathlib.Algebra.Order.Ring.Nat

/-!
Every slice ends. A round of a loop ends with a pause, so after its first step a slice only goes
forward in each activation; and it calls no custom block that is active already, so it can call only
so many. What is left to do in all activations, weighted by how many custom blocks are still unused
below them, gets less with each step.
-/

namespace Blockwork

/-! ### Without warp -/

/-- No custom block is in warp. -/
def BlockMap.NoWarp (blocks : BlockMap) : Prop :=
  ∀ e ∈ blocks.entries, ∀ s ∈ e.2.head? blocks, s.warp = false

instance (blocks : BlockMap) : Decidable blocks.NoWarp :=
  inferInstanceAs (Decidable (∀ e ∈ blocks.entries, ∀ s ∈ e.2.head? blocks, s.warp = false))

namespace Compiler

/-- Out of warp mode nothing leads into it. -/
lemma composes_calm {blocks : BlockMap} (hwarp : blocks.NoWarp) : Composes blocks fun c ls c' =>
    c.warp = false → c'.warp = false ∧ ∀ l ∈ ls, l.warp = false ∧ l.opcode ≠ .warp where
  append := by
    intro c c' c'' xs ys h k hc
    obtain ⟨hc', hx⟩ := h hc
    obtain ⟨hc'', hy⟩ := k hc'
    refine ⟨hc'', fun l hl => ?_⟩
    rcases List.mem_append.1 hl with hl | hl
    · exact hx l hl
    · exact hy l hl
  piece := by
    intro c c' is id h hc
    have hc' : c'.warp = false := h.emits.warp.trans hc
    refine ⟨hc', fun l hl => ?_⟩
    rw [added_of_code h.emits.code] at hl
    obtain ⟨i, hi, rfl⟩ := List.mem_map.1 hl
    exact ⟨hc', h.calm i hi⟩
  head := by
    intro a b hb hop id c hc
    cases hs : b.head? blocks with
    | none =>
      rw [head_of_no_head hop hs, added_of_code (List.append_nil c.code).symm]
      exact ⟨hc, by simp⟩
    | some s =>
      have hcalm : s.warp = false := hwarp (a, b) (Dictionary.mem_of_get? hb) s hs
      have hcode : (c.define s).code = c.code ++ [] := (emits_internProcedure c s.code).code
      rw [head_of_head? hop hs, hcalm, if_neg (by simp), added_of_code hcode]
      exact ⟨hcalm, by simp⟩

end Compiler

open Compiler in
/-- In a routine without warp, every end of a loop comes right after a pause. -/
lemma Program.Laid.calm {strict : Bool} {p : Program} {blocks : BlockMap} {r : Routine}
    {ls : List Line} (h : p.Laid strict blocks r ls) (hwarp : blocks.NoWarp) :
    (∀ l ∈ ls, l.opcode ≠ .warp) ∧ ∀ pre l post, ls = pre ++ l :: post → l.opcode = .loopEnd →
      ∃ k, pre.getLast? = some k ∧ k.opcode = .breakFrame := by
  obtain ⟨c, id, mode, -, hls⟩ := h.unit
  have hcalm := ((composes_calm hwarp).listing c id mode rfl).2
  rw [← hls] at hcalm
  refine ⟨fun l hl => (hcalm l hl).2, fun pre l post he hl => ?_⟩
  refine (h.paused pre l post he hl).resolve_left fun hw => ?_
  rw [(hcalm l (by simp [he])).1] at hw
  cases hw

namespace Machine

lemma warpDepth_stopScript (m : Machine) : m.stopScript.warpDepth ≤ m.warpDepth := by
  unfold stopScript
  split
  · simp only [returnFrom]
    split <;> omega
  · exact Nat.le_refl _

lemma warpDepth_callNative (m : Machine) (w : World) (n : Native) (a : Nat) :
    (m.callNative w n a).1.warpDepth ≤ m.warpDepth := by
  have hresume : ∀ (a pops : Nat) (r : Native.Reply) (w : World),
      ((resume a pops r).awaitPromise w).warpDepth = r.machine.warpDepth := by
    intro a pops r w
    obtain ⟨address, stack, status, he⟩ := awaited_frame r a pops w
    rw [he]
  unfold callNative
  split
  · exact Nat.le_refl _
  · simp only [hresume]
    have hout := n.outcome_run m w (((m.stack.take n.arity).reverse)[0]?.getD .empty)
      (((m.stack.take n.arity).reverse)[1]?.getD .empty)
    generalize n.run m w (((m.stack.take n.arity).reverse)[0]?.getD .empty)
      (((m.stack.take n.arity).reverse)[1]?.getD .empty) = r at hout
    cases hout with
    | stays => exact Nat.le_refl _
    | stops => exact m.warpDepth_stopScript
    | ends => exact Nat.le_refl _

/-- Only one instruction leads into warp. -/
lemma warpDepth_execute {op : Opcode} (hop : op ≠ .warp) (p : Program) (code : Code)
    (a operand : Nat) (m : Machine) (w : World) :
    (execute p code a op operand m w).1.warpDepth ≤ m.warpDepth := by
  have hjump : ∀ (m : Machine) (code : Code) (a : Nat),
      (m.jumpPast code a).warpDepth = m.warpDepth := by
    intro m code a
    obtain ⟨address, he⟩ := m.jumpPast_frame code a
    rw [he]
  cases op
  case warp => exact absurd rfl hop
  case halt => exact m.warpDepth_stopScript
  case exec =>
    simp only [execute]
    split
    · exact m.warpDepth_callNative w _ a
    · exact Nat.le_refl _
  case list f =>
    cases f <;> simp [execute, stepList, pop_eq, push]
  case var f =>
    cases f <;> simp only [execute, stepVariable, pop_eq, push] <;> repeat' split
    all_goals exact Nat.le_refl _
  all_goals
    simp only [execute, pop_eq, push, endRound, addArgument, callProcedure, openLoop]
    repeat' split
  all_goals first | exact Nat.le_refl _ | rw [hjump]

/-! ### What is left to do -/

/-- The instructions of a routine from an address on. -/
def remaining (p : Program) (r : Routine) (a : Nat) : Nat :=
  ((p.code? r).map fun code => (Code.decode (code.words.toList.drop a)).length).getD 0

/-- The custom blocks that are not active. -/
def unused (p : Program) (calls : List Call) : Nat :=
  ((List.range p.tables.procedures.length).filter fun i =>
    calls.all (·.routine != .procedure i)).length

/-- What is left to do in some activations, the innermost of them at an address. A call makes one
custom block less available, so its body counts less than the call itself. -/
def weight (p : Program) (bound : Nat) : List Call → Nat → Nat
  | [], _ => 0
  | c :: rest, a =>
    remaining p c.routine a * bound ^ unused p (c :: rest) + weight p bound rest c.returnTo

lemma length_decode_le (ws : List UInt32) : (Code.decode ws).length ≤ ws.length := by
  fun_induction Code.decode ws with
  | case1 => simp
  | case2 => simp
  | case3 w rest op hop ih =>
    rw [List.length_drop] at ih
    simp only [List.length_cons]
    omega

/-- No routine is longer than some bound. -/
lemma exists_bound (p : Program) : ∃ bound, ∀ r, remaining p r 0 < bound := by
  let codes := p.main :: (p.predicate.toList ++ p.tables.procedures.filterMap id)
  refine ⟨(codes.map (·.words.size)).sum + 1, fun r => Nat.lt_succ_of_le ?_⟩
  cases hr : p.code? r with
  | none => simp [remaining, hr]
  | some code =>
    have hmem : code ∈ codes := by
      cases r with
      | main => simp_all [Program.code?, codes]
      | predicate => simp_all [Program.code?, codes]
      | procedure i =>
        have hbody := List.mem_of_getElem? (Option.join_eq_some_iff.1 hr)
        simp [codes, hbody]
    rw [remaining, hr, Option.map_some, Option.getD_some, List.drop_zero]
    exact (length_decode_le _).trans (List.le_sum_of_mem (List.mem_map_of_mem hmem))

lemma unused_congr {p : Program} {c c' : Call} (h : c'.routine = c.routine) (rest : List Call) :
    unused p (c' :: rest) = unused p (c :: rest) := by
  simp [unused, h]

/-- A call of a custom block that is not active makes one less available. -/
lemma unused_call {p : Program} {c : Call} {calls : List Call} {i : Nat}
    (hc : c.routine = .procedure i) (hi : i < p.tables.procedures.length)
    (hfresh : ∀ d ∈ calls, d.routine ≠ .procedure i) :
    unused p (c :: calls) + 1 = unused p calls := by
  have herase : (List.range p.tables.procedures.length).filter (fun j =>
      (c :: calls).all (·.routine != .procedure j)) =
      ((List.range p.tables.procedures.length).filter fun j =>
        calls.all (·.routine != .procedure j)).erase i := by
    rw [(List.nodup_range.filter _).erase_eq_filter, List.filter_filter]
    congr 1
    funext j
    rw [List.all_cons, hc]
    by_cases hj : j = i
    · simp [hj]
    · have hne : (Routine.procedure i != .procedure j) = true := by simp [Ne.symm hj]
      have hne' : (j != i) = true := by simp [hj]
      rw [hne, hne']
  have hmem : i ∈ (List.range p.tables.procedures.length).filter fun j =>
      calls.all (·.routine != .procedure j) := by
    simp only [List.mem_filter, List.mem_range, List.all_eq_true, bne_iff_ne]
    exact ⟨hi, hfresh⟩
  rw [unused, unused, herase, List.length_erase_of_mem hmem]
  exact Nat.sub_add_cancel (List.length_pos_of_mem hmem)

/-- The body of a custom block counts less than the call of it. -/
lemma weight_call {p : Program} {bound : Nat} (hbound : ∀ r, remaining p r 0 < bound) {c d : Call}
    {rest : List Call} {i a : Nat} (hc : c.routine = .procedure i)
    (hi : i < p.tables.procedures.length) (hfresh : ∀ e ∈ d :: rest, e.routine ≠ .procedure i)
    (hleft : remaining p d.routine c.returnTo < remaining p d.routine a) :
    weight p bound (c :: d :: rest) 0 < weight p bound (d :: rest) a := by
  have hnew := unused_call hc hi hfresh
  have hpos : 0 < bound ^ unused p (c :: d :: rest) := Nat.pow_pos (Nat.zero_lt_of_lt (hbound .main))
  have hbody := Nat.mul_lt_mul_of_pos_right (hbound c.routine) hpos
  have hcall := Nat.mul_le_mul_right (bound ^ unused p (d :: rest)) hleft
  rw [Nat.succ_mul] at hcall
  rw [Nat.mul_comm bound, ← Nat.pow_succ, Nat.succ_eq_add_one, hnew] at hbody
  simp only [weight]
  omega

section

open Compiler

variable {strict : Bool} {p : Program} {blocks : BlockMap} {ls pre post : List Line} {l : Line}
  {c : Call} {rest : List Call} {own outer : List Loop} {m : Machine}

lemma remaining_of_laid {r : Routine} (h : p.Laid strict blocks r ls) (hlines : ls = pre ++ post) :
    remaining p r (Code.extent (codeOf pre)) = post.length := by
  have hcode : codeOf ls = codeOf pre ++ codeOf post := by
    rw [hlines]
    simp [codeOf]
  have hfull := h.holds.full
  rw [hcode] at hfull
  rw [remaining, h.holds.code, Option.map_some, Option.getD_some, hcode, Code.words_ofInstructions,
    Code.encode_append, Code.extent, ← Code.length_encode hfull.left, List.drop_left,
    Code.decode_encode hfull.right]
  simp [codeOf]

/-- Each step leaves less to do, but for the end of a round. -/
lemma Stands.weight_lt (hs : Stands strict p blocks ls pre l post c rest own outer m)
    (hm : m.status = .running) (hdepth : m.warpDepth = 0) (hl : l.opcode ≠ .loopEnd) {bound : Nat}
    (hbound : ∀ r, remaining p r 0 < bound) {w : World} (hrun : (step p m w).1.status = .running) :
    weight p bound (step p m w).1.calls (step p m w).1.address < weight p bound m.calls m.address := by
  have hpos : 0 < bound := Nat.zero_lt_of_lt (hbound .main)
  have hleft : remaining p c.routine m.address = post.length + 1 := by
    rw [hs.address, remaining_of_laid hs.laid hs.lines, List.length_cons]
  rcases hs.result hm w with hfin | ⟨-, -, hstep⟩
  · rw [hrun] at hfin
    cases hfin
  generalize (Machine.step p m w).1 = m' at hrun hstep
  cases hstep with
  | stays pre' post' own' c' lines more on leads forward address loops inside calls same marks keeps =>
    have hless : remaining p c'.routine m'.address < remaining p c.routine m.address := by
      rw [hleft, same.1, address, remaining_of_laid hs.laid lines]
      have hlen := congrArg List.length (lines.symm.trans hs.lines)
      have := (forward hrun).resolve_right hl
      simp only [List.length_append, List.length_cons] at hlen
      omega
    rw [hs.calls, calls, weight, weight, unused_congr same.1, same.2.1]
    exact Nat.add_lt_add_right (Nat.mul_lt_mul_of_pos_right hless (Nat.pow_pos hpos)) _
  | calls i arguments called code address loops calls fresh =>
    have hi : i < p.tables.procedures.length := by
      by_contra hi
      simp [Program.code?, Nat.not_lt.1 hi] at code
    have hbehind : remaining p c.routine (Code.extent (codeOf (pre ++ [l]))) = post.length :=
      remaining_of_laid hs.laid (by rw [hs.lines]; simp)
    rw [hs.calls, calls, address]
    exact weight_call hbound rfl hi (fresh hrun hdepth) (by rw [hbehind, hleft]; omega)
  | returns d rest' above settles address loops calls =>
    have := Nat.pow_pos (n := unused p (c :: rest)) hpos
    rw [hs.calls, calls, address, weight, hleft, Nat.succ_mul]
    omega

/-! ### Slices -/

/-- A step that leads to the end of a round is a pause, and the slice is over. -/
lemma Stands.not_loopEnd (hs : Stands strict p blocks ls pre l post c rest own outer m)
    (hwarp : blocks.NoWarp) {pre' post' ls' : List Line} {l' : Line} {r : Routine}
    (hlaid : p.Laid strict blocks r ls') (hlines : ls' = pre' ++ l' :: post')
    (hfollows : Follows strict p.tables pre l c.routine pre' r) (hdepth : m.warpDepth = 0) {w : World}
    (hrun : (step p m w).1.status = .running) : l'.opcode ≠ .loopEnd := by
  intro hl'
  obtain ⟨k, hk, hpause⟩ := (hlaid.calm hwarp).2 pre' l' post' hlines hl'
  rcases hfollows.behind k hk with rfl | hsettles
  · rw [hs.step_eq w, hpause] at hrun
    simp [execute, hdepth] at hrun
  · rw [settles_of_opcode hpause (by simp)] at hsettles
    cases hsettles

/-- Out of warp for ever. -/
lemma Reachable.warpDepth (hlaid : ∀ r, (p.code? r).isSome → ∃ ls, p.Laid strict blocks r ls)
    (hwarp : blocks.NoWarp) (h : Reachable p m) : m.warpDepth = 0 := by
  induction h with
  | new => rfl
  | @step m hm hrun w ih =>
    obtain ⟨ls, pre, l, post, c, rest, own, outer, hs, -⟩ :=
      ((hm.inOrder hlaid).resolve_left (by rw [hrun]; simp)).2
    have hl : l.opcode ≠ .warp := (hs.laid.calm hwarp).1 l (by rw [hs.lines]; simp)
    rw [hs.step_eq w]
    exact Nat.le_zero.1 ((warpDepth_execute hl _ _ _ _ _ _).trans (Nat.le_of_eq ih))
  | wake _ _ ih => exact ih
  | kill _ ih => exact ih
  | restart => rfl
  | condition => rfl

/-- From a line that is no end of a round, the slice goes on to its end. The induction is on what is
left to do. -/
lemma Stands.runs_on (hlaid : ∀ r, (p.code? r).isSome → ∃ ls, p.Laid strict blocks r ls)
    (hwarp : blocks.NoWarp) {bound : Nat} (hbound : ∀ r, remaining p r 0 < bound)
    (h : Reachable p m) (hs : Stands strict p blocks ls pre l post c rest own outer m)
    (hwait : Waiting strict p blocks c rest outer) (hm : m.status = .running)
    (hl : l.opcode ≠ .loopEnd) (w : World) :
    ∃ y, Runs p (m, w) y ∧ y.1.status ≠ .running := by
  induction hn : weight p bound m.calls m.address using Nat.strong_induction_on
    generalizing m ls pre l post c rest own outer w with
  | _ n ih =>
    by_cases hrun : (Machine.step p m w).1.status = .running
    · obtain ⟨-, ls', pre', l', post', c', rest', own', outer', hs', hwait', hfollows⟩ :=
        (hs.passes hlaid hwait hm w).resolve_left (by rw [hrun]; simp)
      have hdepth := h.warpDepth hlaid hwarp
      obtain ⟨y, hy, hend⟩ := ih _ (hn ▸ hs.weight_lt hm hdepth hl hbound hrun) (h.step hm w) hs' hwait'
        hrun (hs.not_loopEnd hwarp hs'.laid hs'.lines hfollows hdepth hrun) (Machine.step p m w).2 rfl
      exact ⟨y, (Runs.step hm).trans hy, hend⟩
    · exact ⟨_, Runs.step hm, hrun⟩

/-- Steps without end are impossible. -/
lemma Reachable.runs_out (hlaid : ∀ r, (p.code? r).isSome → ∃ ls, p.Laid strict blocks r ls)
    (hwarp : blocks.NoWarp) (h : Reachable p m) (hm : m.status = .running) (w : World) :
    ∃ y, Runs p (m, w) y ∧ y.1.status ≠ .running := by
  obtain ⟨bound, hbound⟩ := exists_bound p
  by_cases hrun : (Machine.step p m w).1.status = .running
  · -- only the first step may be the end of a round
    obtain ⟨ls, pre, l, post, c, rest, own, outer, hs, hwait⟩ :=
      ((h.inOrder hlaid).resolve_left (by rw [hm]; simp)).2
    obtain ⟨-, ls', pre', l', post', c', rest', own', outer', hs', hwait', hfollows⟩ :=
      (hs.passes hlaid hwait hm w).resolve_left (by rw [hrun]; simp)
    have hl' := hs.not_loopEnd hwarp hs'.laid hs'.lines hfollows (h.warpDepth hlaid hwarp) hrun
    obtain ⟨y, hy, hend⟩ :=
      hs'.runs_on hlaid hwarp hbound (h.step hm w) hwait' hrun hl' (Machine.step p m w).2
    exact ⟨y, (Runs.step hm).trans hy, hend⟩
  · exact ⟨_, Runs.step hm, hrun⟩

end

lemma Reachable.runs {p : Program} {m : Machine} {w : World} (h : Reachable p m)
    {y : Machine × World} (hy : Runs p (m, w) y) : Reachable p y.1 := by
  induction hy with
  | refl => exact h
  | tail _ hs ih =>
    obtain ⟨hrun, rfl⟩ := hs
    exact ih.step hrun _

/-- **Slices end**: without warp, a slice does only so many steps, from every state and in every
world. -/
lemma Reachable.slice_ends {strict : Bool} {p : Program} {blocks : BlockMap} {m : Machine}
    (hlaid : ∀ r, (p.code? r).isSome → ∃ ls, p.Laid strict blocks r ls) (hwarp : blocks.NoWarp)
    (h : Reachable p m) (w : World) :
    ∃ n m' w', (∀ fuel ≥ n, m.run fuel p w = (m', w')) ∧ Reachable p m' ∧ m'.status ≠ .running := by
  by_cases hready : m.isReady w = true
  · obtain ⟨⟨m', w'⟩, hruns, hend⟩ := (h.wake hready).runs_out hlaid hwarp rfl w
    obtain ⟨n, hn⟩ := steps_of_runs hruns
    refine ⟨n, m', w', fun fuel hfuel => ?_, (h.wake hready).runs hruns, hend⟩
    obtain ⟨k, rfl⟩ := Nat.exists_eq_add_of_le hfuel
    simp only [Machine.run, hready, if_true, hn k]
    rw [steps_of_not_running hend]
    simp [giveUp, hend]
  · refine ⟨0, m, w, fun fuel _ => by rw [Machine.run, if_neg hready], h, fun hm => hready ?_⟩
    simp [isReady, hm]

end Machine

end Blockwork
