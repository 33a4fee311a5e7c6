import Blockwork.Proofs.Code.Placement
import Mathlib.Tactic.Set

/-!
The brackets of code. Branches and loops form one nested structure; a loop that tests its condition
has exactly one test, directly inside. In code of this form the jump of every bracket leads to its
partner, and what lies between two partners opens and closes its own brackets only.
-/

namespace Blockwork

namespace Opcode

/-- Opens, parts or closes a branch or a loop. -/
def isBracket : Opcode → Bool
  | .branch | .otherwise | .endBranch | .forever | .times | .untilLoop | .untilTest
  | .loopEnd => true
  | _ => false

end Opcode

namespace Code

/-- Sequences in which all brackets are matched. -/
inductive Nested : List Opcode → Prop
  | nil : Nested []
  | plain {op : Opcode} (h : op.isBracket = false) : Nested [op]
  | append {xs ys : List Opcode} (hx : Nested xs) (hy : Nested ys) : Nested (xs ++ ys)
  | branch {xs : List Opcode} (hx : Nested xs) :
      Nested (.branch :: (xs ++ [.endBranch]))
  | choice {xs ys : List Opcode} (hx : Nested xs) (hy : Nested ys) :
      Nested (.branch :: (xs ++ .otherwise :: (ys ++ [.endBranch])))
  | loop {op : Opcode} {xs : List Opcode} (h : op = .forever ∨ op = .times) (hx : Nested xs) :
      Nested (op :: (xs ++ [.loopEnd]))
  | tested {xs ys : List Opcode} (hx : Nested xs) (hy : Nested ys) :
      Nested (.untilLoop :: (xs ++ .untilTest :: (ys ++ [.loopEnd])))

/-! ### The scan for jumps -/

namespace Scan

/-- The scan of a sequence that starts at an address. -/
def run (s : Scan) (a : Nat) (ops : List Opcode) : Scan := (place a ops).foldl step s

@[simp] lemma run_nil (s : Scan) (a : Nat) : s.run a [] = s := rfl

@[simp] lemma run_cons (s : Scan) (a : Nat) (op : Opcode) (rest : List Opcode) :
    s.run a (op :: rest) = (s.step (a, op)).run (a + 1 + op.operandCount) rest := rfl

lemma run_append (s : Scan) (a : Nat) (xs ys : List Opcode) :
    s.run a (xs ++ ys) = (s.run a xs).run (a + width xs) ys := by
  simp [run, place_append, List.foldl_append]

lemma step_plain {op : Opcode} (h : op.isBracket = false) (s : Scan) (a : Nat) :
    s.step (a, op) = s := by
  cases op <;> simp_all [Opcode.isBracket, step, Opcode.opensLoop]

/-- The addresses that wait for their jump. -/
def waiting (s : Scan) : List Nat := s.branches ++ s.loops.flatten

/-- A step lets nothing wait but what waited before and its own address. -/
lemma waiting_step (s : Scan) (a : Nat) (op : Opcode) {x : Nat}
    (h : x ∈ (s.step (a, op)).waiting) : x ∈ s.waiting ∨ x = a := by
  obtain ⟨bs, ls, js⟩ := s
  cases op <;> rcases bs with _ | ⟨b, bs⟩ <;> rcases ls with _ | ⟨l, ls⟩ <;>
    simp [step, closeBranch, waiting, Opcode.opensLoop] at h ⊢ <;> grind

/-- A step finds jumps only from addresses that waited. -/
lemma jumps_step (s : Scan) (a : Nat) (op : Opcode) :
    ∃ js, (s.step (a, op)).jumps = js ++ s.jumps ∧ ∀ j ∈ js, j.1 ∈ s.waiting := by
  obtain ⟨bs, ls, qs⟩ := s
  cases op with
  | otherwise | endBranch =>
    rcases bs with _ | ⟨b, bs⟩
    · exact ⟨[], rfl, by simp⟩
    · exact ⟨[(b, a)], rfl, by simp [waiting]⟩
  | loopEnd =>
    rcases ls with _ | ⟨l, ls⟩
    · exact ⟨[], rfl, by simp⟩
    · exact ⟨l.map (·, a), rfl, by simp [waiting]; grind⟩
  | untilTest =>
    rcases ls with _ | ⟨l, ls⟩ <;> exact ⟨[], rfl, by simp⟩
  | _ => exact ⟨[], rfl, by simp⟩

lemma waiting_run {s : Scan} {a : Nat} {ops : List Opcode} {x : Nat}
    (h : x ∈ (s.run a ops).waiting) : x ∈ s.waiting ∨ a ≤ x ∧ x < a + width ops := by
  induction ops generalizing s a with
  | nil => exact Or.inl h
  | cons op rest ih =>
    simp only [width_cons]
    rcases ih h with h | h
    · rcases waiting_step s a op h with h | rfl
      · exact Or.inl h
      · exact Or.inr ⟨Nat.le_refl _, by omega⟩
    · exact Or.inr (by omega)

/-- Jumps that were found stay behind those found later, which come from what waited and from
later addresses. -/
lemma jumps_run (s : Scan) (a : Nat) (ops : List Opcode) :
    ∃ js, (s.run a ops).jumps = js ++ s.jumps ∧ ∀ j ∈ js, j.1 ∈ s.waiting ∨ a ≤ j.1 := by
  induction ops generalizing s a with
  | nil => exact ⟨[], rfl, by simp⟩
  | cons op rest ih =>
    obtain ⟨js, hjs, hj⟩ := ih (s.step (a, op)) (a + 1 + op.operandCount)
    obtain ⟨ks, hks, hk⟩ := jumps_step s a op
    refine ⟨js ++ ks, by rw [run_cons, hjs, hks, List.append_assoc], fun j hmem => ?_⟩
    rcases List.mem_append.1 hmem with h | h
    · rcases hj j h with h | h
      · rcases waiting_step s a op h with h | h
        · exact Or.inl h
        · exact Or.inr (by omega)
      · exact Or.inr (by omega)
    · exact Or.inl (hk j h)

/-! ### Steps at brackets -/

lemma step_branch (s : Scan) (a : Nat) :
    s.step (a, .branch) = { s with branches := a :: s.branches } := rfl

lemma step_otherwise {s : Scan} {b : Nat} {bs : List Nat} (h : s.branches = b :: bs) (a : Nat) :
    s.step (a, .otherwise) = { s with branches := a :: bs, jumps := (b, a) :: s.jumps } := by
  simp [step, closeBranch, h]

lemma step_endBranch {s : Scan} {b : Nat} {bs : List Nat} (h : s.branches = b :: bs) (a : Nat) :
    s.step (a, .endBranch) = { s with branches := bs, jumps := (b, a) :: s.jumps } := by
  simp [step, closeBranch, h]

lemma step_opener {op : Opcode} (h : op.opensLoop = true) (s : Scan) (a : Nat) :
    s.step (a, op) = { s with loops := [a] :: s.loops } := by
  cases op <;> simp_all [Opcode.opensLoop, step]

lemma step_untilTest {s : Scan} {l : List Nat} {ls : List (List Nat)} (h : s.loops = l :: ls)
    (a : Nat) : s.step (a, .untilTest) = { s with loops := (a :: l) :: ls } := by
  simp [step, h]

lemma step_loopEnd {s : Scan} {l : List Nat} {ls : List (List Nat)} (h : s.loops = l :: ls)
    (a : Nat) :
    s.step (a, .loopEnd) = { s with loops := ls, jumps := l.map (·, a) ++ s.jumps } := by
  simp [step, h]

/-- What is nested leaves waiting what waited before. -/
lemma run_nested {ops : List Opcode} (h : Nested ops) (s : Scan) (a : Nat) :
    (s.run a ops).branches = s.branches ∧ (s.run a ops).loops = s.loops := by
  induction h generalizing s a with
  | nil => exact ⟨rfl, rfl⟩
  | plain h => simp [step_plain h]
  | append hx hy ihx ihy =>
    rw [run_append]
    obtain ⟨h1, h2⟩ := ihx s a
    obtain ⟨h3, h4⟩ := ihy (s.run a _) (a + width _)
    exact ⟨h3.trans h1, h4.trans h2⟩
  | branch hx ih =>
    rw [run_cons, run_append, step_branch]
    obtain ⟨h1, h2⟩ := ih _ _
    rw [run_cons, run_nil, step_endBranch h1]
    exact ⟨rfl, h2⟩
  | choice hx hy ihx ihy =>
    rw [run_cons, run_append, step_branch]
    obtain ⟨h1, h2⟩ := ihx _ _
    rw [run_cons, run_append, step_otherwise h1]
    obtain ⟨h3, h4⟩ := ihy _ _
    rw [run_cons, run_nil, step_endBranch h3]
    exact ⟨rfl, h4.trans h2⟩
  | loop h hx ih =>
    rw [run_cons, run_append, step_opener (by rcases h with rfl | rfl <;> rfl)]
    obtain ⟨h1, h2⟩ := ih _ _
    rw [run_cons, run_nil, step_loopEnd h2]
    exact ⟨h1, rfl⟩
  | tested hx hy ihx ihy =>
    rw [run_cons, run_append, step_opener rfl]
    obtain ⟨h1, h2⟩ := ihx _ _
    rw [run_cons, run_append, step_untilTest h2]
    obtain ⟨h3, h4⟩ := ihy _ _
    rw [run_cons, run_nil, step_loopEnd h4]
    exact ⟨h3.trans h1, rfl⟩

/-! ### Where jumps lead -/

lemma lookup_map_pair {l : List Nat} {a : Nat} (t : Nat) (h : a ∈ l) :
    (l.map (·, t)).lookup a = some t := by
  induction l with
  | nil => simp at h
  | cons b rest ih =>
    rw [List.map_cons, List.lookup_cons]
    by_cases hab : a = b
    · simp [hab]
    · have hne : (a == b) = false := by simpa using hab
      rw [hne]
      exact ih (by simpa [hab] using h)

/-- A jump from an address that waits no longer stays as it was found. -/
lemma lookup_run {s : Scan} {a x t : Nat} (ops : List Opcode) (hs : s.jumps.lookup x = some t)
    (hw : x ∉ s.waiting) (hx : x < a) : (s.run a ops).jumps.lookup x = some t := by
  obtain ⟨js, hjs, hj⟩ := jumps_run s a ops
  have hnone : js.lookup x = none := by
    rw [List.lookup_eq_none_iff]
    intro j hmem
    rcases hj j hmem with h | h
    · exact bne_iff_ne.2 fun e : x = j.1 => hw (e ▸ h)
    · exact bne_iff_ne.2 fun e : x = j.1 => by omega
  rw [hjs, List.lookup_append, hnone, hs]
  rfl

end Scan

/-- The jumps of a sequence of opcodes. -/
def jumpFrom (ops : List Opcode) (a : Nat) : Option Nat := (Scan.start.run 0 ops).jumps.lookup a

lemma jump?_eq_jumpFrom {is : List Instruction} (h : AllFull is) (a : Nat) :
    (ofInstructions is).jump? a = jumpFrom (is.map (·.opcode)) a :=
  jump?_ofInstructions h a

lemma waiting_lt {pre : List Opcode} {x : Nat} (h : x ∈ (Scan.start.run 0 pre).waiting) :
    x < width pre := by
  rcases Scan.waiting_run h with h | h
  · simp [Scan.start, Scan.waiting] at h
  · omega

/-- A branch leads to its alternative or to its end. -/
lemma jumpFrom_branch {pre xs post : List Opcode} {op close : Opcode}
    (hop : op = .branch ∨ op = .otherwise) (hx : Nested xs)
    (hclose : close = .otherwise ∨ close = .endBranch) :
    jumpFrom (pre ++ op :: (xs ++ close :: post)) (width pre) =
      some (width (pre ++ op :: xs)) := by
  have hbound : ∀ x ∈ (Scan.start.run 0 pre).waiting, x < width pre := fun x => waiting_lt
  have hcount : op.operandCount = 0 := by rcases hop with rfl | rfl <;> rfl
  unfold jumpFrom
  rw [Scan.run_append, Scan.run_cons, Scan.run_append, Scan.run_cons]
  generalize Scan.start.run 0 pre = s at hbound ⊢
  -- after the opening the address waits on top of some that waited before
  obtain ⟨bs, h1, h2, h3⟩ : ∃ bs, (s.step (0 + width pre, op)).branches = width pre :: bs ∧
      (s.step (0 + width pre, op)).loops = s.loops ∧ ∀ x ∈ bs, x ∈ s.branches := by
    rcases hop with rfl | rfl
    · exact ⟨s.branches, by simp [Scan.step_branch], rfl, fun x hx => hx⟩
    · refine ⟨s.branches.tail, ?_, ?_, fun x hx => List.mem_of_mem_tail hx⟩ <;>
        rcases hs : s.branches with _ | ⟨b, bs⟩ <;> simp [Scan.step, Scan.closeBranch, hs]
  obtain ⟨h4, h5⟩ := Scan.run_nested hx (s.step (0 + width pre, op))
    (0 + width pre + 1 + op.operandCount)
  generalize (s.step (0 + width pre, op)).run (0 + width pre + 1 + op.operandCount) xs = s'
    at h4 h5 ⊢
  rw [h1] at h4
  rw [h2] at h5
  have htarget : 0 + width pre + 1 + op.operandCount + width xs = width (pre ++ op :: xs) := by
    rw [width_append, width_cons]
    omega
  rw [htarget]
  have hlt : width pre < width (pre ++ op :: xs) := by
    rw [width_append, width_cons]
    omega
  have hnot : width pre ∉ bs ++ s.loops.flatten := by
    intro hmem
    have := hbound (width pre) (by simp [Scan.waiting] at hmem ⊢; grind)
    omega
  refine Scan.lookup_run post ?_ ?_ (by omega)
  · rcases hclose with rfl | rfl
    · simp [Scan.step_otherwise h4]
    · simp [Scan.step_endBranch h4]
  · rcases hclose with rfl | rfl
    · simp [Scan.step_otherwise h4, Scan.waiting, h5] at hnot ⊢
      grind
    · simpa [Scan.step_endBranch h4, Scan.waiting, h5] using hnot

/-- Whatever waits for the end of the innermost loop leads there. -/
lemma jumpFrom_loopEnd {pre xs post : List Opcode} {a : Nat} {l : List Nat}
    {ls : List (List Nat)} (hloops : (Scan.start.run 0 pre).loops = l :: ls) (ha : a ∈ l)
    (hls : a ∉ ls.flatten) (hbr : a ∉ (Scan.start.run 0 pre).branches) (hx : Nested xs) :
    jumpFrom (pre ++ (xs ++ .loopEnd :: post)) a = some (width (pre ++ xs)) := by
  have hlt : a < width pre := waiting_lt (by simp [Scan.waiting, hloops, ha])
  unfold jumpFrom
  rw [Scan.run_append, Scan.run_append, Scan.run_cons]
  obtain ⟨h1, h2⟩ := Scan.run_nested hx (Scan.start.run 0 pre) (0 + width pre)
  generalize (Scan.start.run 0 pre).run (0 + width pre) xs = s at h1 h2 ⊢
  rw [hloops] at h2
  have htarget : 0 + width pre + width xs = width (pre ++ xs) := by simp
  rw [htarget]
  refine Scan.lookup_run post ?_ ?_ (by rw [width_append]; omega)
  · rw [Scan.step_loopEnd h2, List.lookup_append, Scan.lookup_map_pair _ ha]
    rfl
  · rw [Scan.step_loopEnd h2]
    simp only [Scan.waiting, h1, List.mem_append, not_or]
    exact ⟨hbr, hls⟩

/-- The opening of a loop leads to the loop's end. -/
lemma jumpFrom_loop {pre xs post : List Opcode} {op : Opcode} (hop : op.opensLoop = true)
    (hx : Nested xs) :
    jumpFrom (pre ++ op :: (xs ++ .loopEnd :: post)) (width pre) =
      some (width (pre ++ op :: xs)) := by
  have hs : Scan.start.run 0 (pre ++ [op]) =
      { Scan.start.run 0 pre with loops := [width pre] :: (Scan.start.run 0 pre).loops } := by
    rw [Scan.run_append, Scan.run_cons, Scan.run_nil, Scan.step_opener hop, Nat.zero_add]
  have hnot : width pre ∉ (Scan.start.run 0 pre).waiting := fun h =>
    Nat.lt_irrefl _ (waiting_lt h)
  simp only [Scan.waiting, List.mem_append, not_or] at hnot
  have h : jumpFrom ((pre ++ [op]) ++ (xs ++ .loopEnd :: post)) (width pre) =
      some (width ((pre ++ [op]) ++ xs)) :=
    jumpFrom_loopEnd (l := [width pre]) (by rw [hs]) (by simp) hnot.2
      (by rw [hs]; exact hnot.1) hx
  simpa [List.append_assoc] using h

/-- The test of a loop leads to the loop's end. -/
lemma jumpFrom_test {pre xs ys post : List Opcode} (hx : Nested xs) (hy : Nested ys) :
    jumpFrom (pre ++ .untilLoop :: (xs ++ .untilTest :: (ys ++ .loopEnd :: post)))
        (width (pre ++ .untilLoop :: xs)) =
      some (width (pre ++ .untilLoop :: (xs ++ .untilTest :: ys))) := by
  set before := pre ++ .untilLoop :: xs with hbefore
  obtain ⟨l, ls, hl⟩ : ∃ l ls, (Scan.start.run 0 before).loops = l :: ls := by
    rw [hbefore, Scan.run_append, Scan.run_cons, Scan.step_opener rfl,
      (Scan.run_nested hx _ _).2]
    exact ⟨_, _, rfl⟩
  have hs : Scan.start.run 0 (before ++ [.untilTest]) =
      { Scan.start.run 0 before with loops := (width before :: l) :: ls } := by
    rw [Scan.run_append, Scan.run_cons, Scan.run_nil, Scan.step_untilTest hl, Nat.zero_add]
  have hnot : width before ∉ (Scan.start.run 0 before).waiting := fun h =>
    Nat.lt_irrefl _ (waiting_lt h)
  simp only [Scan.waiting, hl, List.flatten_cons, List.mem_append, not_or] at hnot
  have h : jumpFrom ((before ++ [.untilTest]) ++ (ys ++ .loopEnd :: post)) (width before) =
      some (width ((before ++ [.untilTest]) ++ ys)) :=
    jumpFrom_loopEnd (l := width before :: l) (by rw [hs]) (by simp) hnot.2.2
      (by rw [hs]; exact hnot.1) hy
  simpa [hbefore, List.append_assoc] using h

end Code

end Blockwork
