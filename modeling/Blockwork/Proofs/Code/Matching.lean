import Blockwork.Proofs.Code.Nesting
import Mathlib

/-!
Where jumps lead in any sequence of words. Code need not be nested: brackets may be left open, close
nothing, or cross. Still the jump of a bracket goes to the first later one that ends it, where the
brackets of its kind between the two open as often as they close. Branches and loops are two kinds
of bracket that take no notice of each other, so one count serves for both.

The scan keeps a stack for each kind. `Bracket.endFrom` follows a single entry of such a stack by
its depth alone; it agrees with the scan on one side and with the count on the other.
-/

namespace Blockwork

namespace Code

/-! ### Kinds of brackets -/

/-- What opens, closes and parts a bracket of one kind. -/
structure Bracket where
  opens : Opcode → Bool
  closes : Opcode → Bool
  parts : Opcode → Bool

namespace Bracket

def branches : Bracket := ⟨(· == .branch), (· == .endBranch), (· == .otherwise)⟩

def loops : Bracket := ⟨Opcode.opensLoop, (· == .loopEnd), fun _ => false⟩

variable (k : Bracket)

/-- Ends what was opened or parted last. -/
def ends (op : Opcode) : Bool := k.closes op || k.parts op

/-- Opens as often as it closes. -/
def Balanced (ops : List Opcode) : Prop := ops.countP k.opens = ops.countP k.closes

end Bracket

/-- The opcodes strictly between two addresses. -/
def between (xs : List (Nat × Opcode)) (a t : Nat) : List Opcode :=
  (xs.filter fun x => a < x.1 && x.1 < t).map (·.2)

namespace Bracket

variable (k : Bracket)

/-- At `t`, behind `a`, stands what may end a bracket, with balanced brackets between them. -/
def Meets (xs : List (Nat × Opcode)) (a t : Nat) : Prop :=
  a < t ∧ (∃ op, (t, op) ∈ xs ∧ k.ends op = true) ∧ k.Balanced (between xs a t)

/-- The first place that ends what stands at `a`. -/
def Partner (xs : List (Nat × Opcode)) (a t : Nat) : Prop := IsLeast {t | k.Meets xs a t} t

end Bracket

/-- Where the jump of an address leads. -/
inductive Leads (xs : List (Nat × Opcode)) (a t : Nat) : Prop
  | branch (h : (a, .branch) ∈ xs ∨ (a, .otherwise) ∈ xs) (ht : Bracket.branches.Partner xs a t)
  | loop {op : Opcode} (h : (a, op) ∈ xs) (hop : op.opensLoop = true)
      (ht : Bracket.loops.Partner xs a t)
  /-- Some loop that was opened before is still open: its end, if it has one, comes later. -/
  | test (h : (a, .untilTest) ∈ xs)
      (hin : ∃ b op, (b, op) ∈ xs ∧ op.opensLoop = true ∧ b < a ∧
        ∀ e, Bracket.loops.Partner xs b e → a < e)
      (ht : Bracket.loops.Partner xs a t)

/-- The addresses that reading comes to in turn; at the last one it stops. -/
def reached (start : Nat) : List Instruction → List Nat
  | [] => [start]
  | i :: rest => start :: reached (start + 1 + i.opcode.operandCount) rest

lemma reached_eq_cons (b : Nat) (is : List Instruction) : ∃ bs, reached b is = b :: bs := by
  cases is with
  | nil => exact ⟨[], rfl⟩
  | cons i rest => exact ⟨_, rfl⟩

/-- Behind an instruction reading goes on after its operand. -/
lemma infix_reached (b : Nat) (pre : List Instruction) (i : Instruction) (post : List Instruction) :
    [b + width (pre.map (·.opcode)), b + width (pre.map (·.opcode)) + 1 + i.opcode.operandCount]
      <:+: reached b (pre ++ i :: post) := by
  induction pre generalizing b with
  | nil =>
    obtain ⟨bs, hbs⟩ := reached_eq_cons (b + 1 + i.opcode.operandCount) post
    exact ⟨[], bs, by simp [reached, hbs]⟩
  | cons j rest ih =>
    obtain ⟨xs, ys, h⟩ := ih (b + 1 + j.opcode.operandCount)
    refine ⟨b :: xs, ys, ?_⟩
    simp only [List.cons_append, reached, List.map_cons, width_cons, ← h]
    simp only [List.cons_append, List.append_assoc, List.cons.injEq, List.append_cancel_left_eq,
      List.nil_append, true_and]
    exact ⟨by omega, by omega, trivial⟩

/-! ### Placed opcodes -/

lemma mem_place_iff {b a : Nat} {ops : List Opcode} {op : Opcode} :
    (a, op) ∈ place b ops ↔ ∃ pre post, ops = pre ++ op :: post ∧ a = b + width pre := by
  constructor
  · intro h
    induction ops generalizing b with
    | nil => simp at h
    | cons x rest ih =>
      rw [place_cons, List.mem_cons] at h
      rcases h with h | h
      · obtain ⟨rfl, rfl⟩ := Prod.mk.injEq .. ▸ h
        exact ⟨[], rest, rfl, rfl⟩
      · obtain ⟨pre, post, rfl, rfl⟩ := ih h
        exact ⟨x :: pre, post, rfl, by rw [width_cons]; omega⟩
  · rintro ⟨pre, post, rfl, rfl⟩
    simp [place_append]

/-- The opcode at an address is only one. -/
lemma opcode_unique {b a : Nat} {ops : List Opcode} {op op' : Opcode} (h : (a, op) ∈ place b ops)
    (h' : (a, op') ∈ place b ops) : op = op' := by
  induction ops generalizing b with
  | nil => simp at h
  | cons x rest ih =>
    rw [place_cons, List.mem_cons] at h h'
    rcases h with h | h <;> rcases h' with h' | h'
    · simp_all
    · have := place_bounds h'
      simp_all
      omega
    · have := place_bounds h
      simp_all
      omega
    · exact ih h h'

lemma between_append_left {xs ys : List (Nat × Opcode)} {a t : Nat} (h : ∀ y ∈ ys, t ≤ y.1) :
    between (xs ++ ys) a t = between xs a t := by
  have hnone : ys.filter (fun x => a < x.1 && x.1 < t) = [] := by
    rw [List.filter_eq_nil_iff]
    intro y hy
    have := h y hy
    simp
    omega
  simp [between, hnone]

lemma map_snd_place (b : Nat) (ops : List Opcode) : (place b ops).map (·.2) = ops := by
  induction ops generalizing b with
  | nil => rfl
  | cons op rest ih => simp [ih]

/-- What lies between two instructions. -/
lemma between_place (pre : List Opcode) (op : Opcode) (xs : List Opcode) (op' : Opcode)
    (post : List Opcode) :
    between (place 0 (pre ++ op :: (xs ++ op' :: post))) (width pre) (width (pre ++ op :: xs)) =
      xs := by
  have hsplit : place 0 (pre ++ op :: (xs ++ op' :: post)) =
      place 0 (pre ++ [op]) ++ (place (width (pre ++ [op])) xs ++
        place (width (pre ++ op :: xs)) (op' :: post)) := by
    have hw : width (pre ++ [op]) + width xs = width (pre ++ op :: xs) := by simp; omega
    rw [← hw, ← place_append, ← Nat.zero_add (width (pre ++ [op])), ← place_append]
    simp
  have hlast : ∀ y ∈ place (width (pre ++ op :: xs)) (op' :: post),
      width (pre ++ op :: xs) ≤ y.1 := fun y hy => (place_bounds hy).1
  have hfirst : (place 0 (pre ++ [op])).filter
      (fun x => width pre < x.1 && x.1 < width (pre ++ op :: xs)) = [] := by
    rw [List.filter_eq_nil_iff, place_append]
    intro y hy
    rcases List.mem_append.1 hy with hy | hy
    · have := (place_bounds hy).2
      simp
      omega
    · simp at hy
      simp [hy]
  have hmid : (place (width (pre ++ [op])) xs).filter
      (fun x => width pre < x.1 && x.1 < width (pre ++ op :: xs)) =
        place (width (pre ++ [op])) xs := by
    rw [List.filter_eq_self]
    intro y hy
    have := place_bounds hy
    simp at this ⊢
    omega
  rw [hsplit, ← List.append_assoc, between_append_left hlast, between, List.filter_append, hfirst,
    hmid, List.nil_append, map_snd_place]

namespace Bracket

variable (k : Bracket)

/-! ### Ends by counting -/

/-- Behind `ops`, which start at `b` at a depth, an end stands at `t` where the depth is gone. -/
def Stops (depth b : Nat) (ops : List Opcode) (t : Nat) : Prop :=
  ∃ xs op ys, ops = xs ++ op :: ys ∧ k.ends op = true ∧ t = b + width xs ∧
    depth + xs.countP k.opens = xs.countP k.closes

/-- The first end at depth zero. -/
def endFrom : (depth b : Nat) → List Opcode → Option Nat
  | _, _, [] => none
  | depth, b, op :: rest =>
    if k.ends op && depth == 0 then some b
    else endFrom (depth + (k.opens op).toNat - (k.closes op).toNat) (b + 1 + op.operandCount) rest

variable {k}

lemma stops_cons {depth b t : Nat} {op : Opcode} {rest : List Opcode}
    (h : ¬ (k.ends op = true ∧ depth = 0)) :
    k.Stops depth b (op :: rest) t ↔
      k.Stops (depth + (k.opens op).toNat - (k.closes op).toNat) (b + 1 + op.operandCount) rest
        t := by
  -- a closing opcode is an end, so there is a depth to take one from
  have hdepth : k.closes op = true → 0 < depth := fun hc =>
    Nat.pos_of_ne_zero fun hd => h ⟨by simp [ends, hc], hd⟩
  have hcount : ∀ xs : List Opcode,
      depth + (op :: xs).countP k.opens = (op :: xs).countP k.closes ↔
        depth + (k.opens op).toNat - (k.closes op).toNat + xs.countP k.opens =
          xs.countP k.closes := by
    intro xs
    cases ho : k.opens op <;> cases hc : k.closes op <;> simp [ho, hc] <;>
      have := hdepth <;> simp [hc] at this <;> omega
  constructor
  · rintro ⟨_ | ⟨x, xs⟩, op', ys, heq, hend, rfl, hc⟩
    · obtain ⟨rfl, rfl⟩ := List.cons.inj heq
      exact absurd ⟨hend, by simpa using hc⟩ h
    · obtain ⟨rfl, rfl⟩ := List.cons.inj heq
      exact ⟨xs, op', ys, rfl, hend, by rw [width_cons]; omega, (hcount xs).1 hc⟩
  · rintro ⟨xs, op', ys, rfl, hend, rfl, hc⟩
    exact ⟨op :: xs, op', ys, rfl, hend, by rw [width_cons]; omega, (hcount xs).2 hc⟩

lemma endFrom_eq_some_iff {depth b t : Nat} {ops : List Opcode} :
    k.endFrom depth b ops = some t ↔ IsLeast {t | k.Stops depth b ops t} t := by
  induction ops generalizing depth b with
  | nil =>
    simp only [endFrom, reduceCtorEq, false_iff]
    rintro ⟨⟨xs, op, ys, h, -⟩, -⟩
    simp at h
  | cons op rest ih =>
    by_cases h : k.ends op = true ∧ depth = 0
    · have hleast : IsLeast {t | k.Stops depth b (op :: rest) t} b := by
        refine ⟨⟨[], op, rest, rfl, h.1, by simp, by simp [h.2]⟩, ?_⟩
        rintro t ⟨xs, -, -, -, -, rfl, -⟩
        omega
      simp only [endFrom, h.1, h.2, beq_self_eq_true, Bool.and_true, if_true, Option.some.injEq]
      rw [h.2] at hleast
      exact ⟨fun e => e ▸ hleast, fun ht => hleast.unique ht⟩
    · have hif : (k.ends op && depth == 0) = false := by
        simpa using h
      rw [endFrom, hif, if_neg (by simp), ih]
      simp only [stops_cons h]

lemma not_stops_of_endFrom {depth b : Nat} {ops : List Opcode} (h : k.endFrom depth b ops = none)
    (t : Nat) : ¬ k.Stops depth b ops t := by
  induction ops generalizing depth b with
  | nil =>
    rintro ⟨xs, op, ys, h, -⟩
    simp at h
  | cons op rest ih =>
    rw [endFrom] at h
    split at h
    · cases h
    · next hif =>
      rw [stops_cons (by simpa using hif)]
      exact ih h

lemma meets_place {pre post : List Opcode} {op : Opcode} {t : Nat} :
    k.Meets (place 0 (pre ++ op :: post)) (width pre) t ↔
      k.Stops 0 (width pre + 1 + op.operandCount) post t := by
  constructor
  · rintro ⟨hlt, ⟨op', hmem, hend⟩, hbal⟩
    rw [mem_place_iff] at hmem
    obtain ⟨before, after, heq, rfl⟩ := hmem
    rw [Nat.zero_add] at hlt hbal ⊢
    -- the end stands behind the instruction, so what is before it starts with all up to it
    obtain ⟨xs, rfl, rfl⟩ : ∃ xs, before = pre ++ op :: xs ∧ post = xs ++ op' :: after := by
      rcases append_eq_split heq with ⟨rest, rfl, -⟩ | ⟨mid, rfl, h⟩
      · rw [width_append] at hlt
        omega
      · rcases cons_eq_split h with ⟨rfl, -, -⟩ | ⟨xs, rfl, rfl⟩
        · simp at hlt
        · exact ⟨xs, rfl, rfl⟩
    rw [between_place] at hbal
    exact ⟨xs, op', after, rfl, hend, by simp; omega, by simpa [Balanced] using hbal⟩
  · rintro ⟨xs, op', ys, rfl, hend, rfl, hc⟩
    have ht : width pre + 1 + op.operandCount + width xs = width (pre ++ op :: xs) := by
      simp
      omega
    rw [ht]
    refine ⟨by rw [width_append, width_cons]; omega,
      ⟨op', mem_place_iff.2 ⟨pre ++ op :: xs, ys, by simp, by simp⟩, hend⟩, ?_⟩
    rw [between_place]
    simpa [Balanced] using hc

lemma partner_place {pre post : List Opcode} {op : Opcode} {t : Nat} :
    k.Partner (place 0 (pre ++ op :: post)) (width pre) t ↔
      k.endFrom 0 (width pre + 1 + op.operandCount) post = some t := by
  rw [endFrom_eq_some_iff, Partner]
  simp only [meets_place]

end Bracket

/-! ### What the scan does with one entry -/

namespace Scan

/-- The addresses that wait for their jump or have found it. -/
def noted (s : Scan) : List Nat := s.waiting ++ s.jumps.map (·.1)

lemma count_noted (s : Scan) (x : Nat) :
    s.noted.count x =
      s.branches.count x + s.loops.flatten.count x + (s.jumps.map (·.1)).count x := by
  rw [noted, waiting, List.count_append, List.count_append]

/-- A step notes its own address at most. -/
lemma count_noted_step (s : Scan) (b : Nat) (op : Opcode) (x : Nat) :
    (s.step (b, op)).noted.count x ≤ s.noted.count x + if b = x then 1 else 0 := by
  by_cases hplain : op.isBracket = false
  · rw [step_plain hplain]
    exact Nat.le_add_right _ _
  obtain ⟨bs, ls, js⟩ := s
  cases op <;> first
    | exact absurd rfl hplain
    | rcases bs with _ | ⟨y, bs⟩ <;> rcases ls with _ | ⟨l, ls⟩ <;>
        simp only [count_noted, step, closeBranch, Opcode.opensLoop, if_true, List.flatten_nil,
          List.flatten_cons, List.map_cons, List.map_append, List.map_map, Function.comp_def,
          List.map_id', List.count_nil, List.count_cons, List.count_append, beq_iff_eq] <;> omega

/-- What neither opens nor parts a bracket, nor tests an open loop, notes nothing. -/
lemma count_noted_step_of_passes {s : Scan} {op : Opcode} (hb : op ≠ .branch ∧ op ≠ .otherwise)
    (hl : op.opensLoop = false) (ht : op = .untilTest → s.loops = []) (b x : Nat) :
    (s.step (b, op)).noted.count x ≤ s.noted.count x := by
  by_cases hplain : op.isBracket = false
  · rw [step_plain hplain]
  obtain ⟨bs, ls, js⟩ := s
  cases op <;> first
    | exact absurd rfl hplain
    | rcases bs with _ | ⟨y, bs⟩ <;> rcases ls with _ | ⟨l, ls⟩ <;>
        simp [step, closeBranch, noted, waiting, Opcode.opensLoop, Function.comp_def,
          List.count_cons] at hb hl ht ⊢ <;> omega

lemma mem_noted_run {s : Scan} {b x : Nat} {ops : List Opcode} (h : x ∈ (s.run b ops).noted) :
    x ∈ s.noted ∨ ∃ op, (x, op) ∈ place b ops := by
  induction ops generalizing s b with
  | nil => exact Or.inl h
  | cons op rest ih =>
    rcases ih h with h | ⟨o, ho⟩
    · have hcount := count_noted_step s b op x
      have hpos := List.count_pos_iff.2 h
      by_cases hb : b = x
      · exact Or.inr ⟨op, by simp [hb]⟩
      · rw [if_neg hb] at hcount
        exact Or.inl (List.count_pos_iff.1 (by omega))
    · exact Or.inr ⟨o, List.mem_cons_of_mem _ ho⟩

lemma mem_noted_of_lookup {s : Scan} {a t : Nat} (h : s.jumps.lookup a = some t) :
    a ∈ s.noted := by
  refine List.mem_append_right _ ?_
  by_contra hno
  have : s.jumps.lookup a = none := List.lookup_eq_none_iff.2 fun j hj =>
    bne_iff_ne.2 fun e : a = j.1 => hno (e ▸ List.mem_map_of_mem hj)
  rw [this] at h
  cases h

/-- What has been met and is not noted never gets a jump. -/
lemma lookup_run_eq_none {s : Scan} {a b : Nat} (h : a ∉ s.noted) (hab : a < b)
    (ops : List Opcode) : (s.run b ops).jumps.lookup a = none := by
  rw [Option.eq_none_iff_forall_ne_some]
  intro t ht
  rcases mem_noted_run (mem_noted_of_lookup ht) with hn | ⟨op, hop⟩
  · exact h hn
  · have := (place_bounds hop).1
    simp only at this
    omega

/-- What is noted was met before `b`, and is noted once. -/
def Fresh (s : Scan) (b : Nat) : Prop := ∀ x, s.noted.count x ≤ if x < b then 1 else 0

lemma fresh_start : start.Fresh 0 := fun x => by simp [noted, waiting, start]

lemma Fresh.step {s : Scan} {b : Nat} (h : s.Fresh b) (op : Opcode) :
    (s.step (b, op)).Fresh (b + 1 + op.operandCount) := by
  intro x
  have h1 := count_noted_step s b op x
  have h2 := h x
  split at h1 <;> split at h2 <;> split <;> omega

lemma Fresh.run {s : Scan} {b : Nat} (h : s.Fresh b) (ops : List Opcode) :
    (s.run b ops).Fresh (b + width ops) := by
  induction ops generalizing s b with
  | nil => simpa using h
  | cons op rest ih =>
    have := ih (h.step op)
    rwa [show b + 1 + op.operandCount + width rest = b + width (op :: rest) by simp; omega] at this

lemma fresh_run_start (ops : List Opcode) : (start.run 0 ops).Fresh (width ops) := by
  simpa using fresh_start.run ops

lemma Fresh.not_noted {s : Scan} {a b : Nat} (h : s.Fresh b) (hab : b ≤ a) : a ∉ s.noted := by
  intro ha
  have hpos := List.count_pos_iff.2 ha
  have := h a
  rw [if_neg (by omega)] at this
  omega

/-- What still waits has no jump. -/
lemma Fresh.lookup_waiting {s : Scan} {a b : Nat} (h : s.Fresh b) (ha : a ∈ s.waiting) :
    s.jumps.lookup a = none := by
  rw [List.lookup_eq_none_iff]
  intro j hj
  refine bne_iff_ne.2 fun e : a = j.1 => ?_
  have hw : 0 < s.waiting.count a := List.count_pos_iff.2 ha
  have hs : 0 < (s.jumps.map (·.1)).count a :=
    List.count_pos_iff.2 (e ▸ List.mem_map_of_mem hj)
  have := h a
  rw [noted, List.count_append] at this
  split at this <;> omega

/-- A jump that was found stays. -/
lemma Fresh.lookup_run {s : Scan} {a b t : Nat} (h : s.Fresh b) (ht : s.jumps.lookup a = some t)
    (ops : List Opcode) : (s.run b ops).jumps.lookup a = some t := by
  refine Scan.lookup_run ops ht (fun hw => ?_) ?_
  · rw [h.lookup_waiting hw] at ht
    cases ht
  · by_contra hge
    exact h.not_noted (by omega) (mem_noted_of_lookup ht)

/-! ### One entry of a stack -/

lemma branches_step {op : Opcode} (s : Scan) (b : Nat)
    (h : op ≠ .branch ∧ op ≠ .otherwise ∧ op ≠ .endBranch) :
    (s.step (b, op)).branches = s.branches := by
  obtain ⟨bs, ls, js⟩ := s
  obtain ⟨h1, h2, h3⟩ := h
  cases op <;> first | contradiction | (rcases ls with _ | ⟨l, ls⟩ <;> rfl)

lemma loops_step {op : Opcode} (s : Scan) (b : Nat) (hop : op.opensLoop = false)
    (h : op ≠ .untilTest ∧ op ≠ .loopEnd) : (s.step (b, op)).loops = s.loops := by
  obtain ⟨bs, ls, js⟩ := s
  obtain ⟨h1, h2⟩ := h
  cases op <;> first | contradiction | (rcases bs with _ | ⟨x, bs⟩ <;> rfl)

/-- An entry on the stack of branches finds its jump at its first end. -/
lemma lookup_branches {s : Scan} {a b : Nat} {us bs : List Nat} (hs : s.Fresh b)
    (h : s.branches = us ++ a :: bs) (ops : List Opcode) :
    (s.run b ops).jumps.lookup a = Bracket.branches.endFrom us.length b ops := by
  induction ops generalizing s b us with
  | nil => exact hs.lookup_waiting (by simp [waiting, h])
  | cons op rest ih =>
    have hfresh := hs.step op
    rw [run_cons, Bracket.endFrom]
    by_cases hop : op ≠ .branch ∧ op ≠ .otherwise ∧ op ≠ .endBranch
    · have hb : ∀ x : Opcode, op ≠ x → (op == x) = false := fun x hx => by simpa using hx
      have hno : Bracket.branches.opens op = false ∧ Bracket.branches.closes op = false ∧
          Bracket.branches.parts op = false := ⟨hb _ hop.1, hb _ hop.2.2, hb _ hop.2.1⟩
      simp only [Bracket.ends, hno, Bool.or_false, Bool.false_and, Bool.false_eq_true, if_false,
        Bool.toNat_false]
      exact ih hfresh ((branches_step s b hop).trans h)
    · obtain rfl | rfl | rfl : op = .branch ∨ op = .otherwise ∨ op = .endBranch := by
        by_contra hc
        exact hop (by simpa [not_or] using hc)
      · exact ih hfresh (show _ = (b :: us) ++ a :: bs by simp [step_branch, h])
      · rcases us with _ | ⟨u, us⟩
        · exact hfresh.lookup_run (by simp [step_otherwise h]) rest
        · have hbs : (s.step (b, .otherwise)).branches = (b :: us) ++ a :: bs := by
            simp [step_otherwise h]
          exact (ih hfresh hbs :)
      · rcases us with _ | ⟨u, us⟩
        · exact hfresh.lookup_run (by simp [step_endBranch h]) rest
        · exact ih hfresh (show _ = us ++ a :: bs by simp [step_endBranch h])

/-- An entry on the stack of loops finds its jump at its first end, and waits if there is none. -/
lemma lookup_loops {s : Scan} {a b : Nat} {us ls : List (List Nat)} {l : List Nat} (hs : s.Fresh b)
    (h : s.loops = us ++ l :: ls) (ha : a ∈ l) (ops : List Opcode) :
    (s.run b ops).jumps.lookup a = Bracket.loops.endFrom us.length b ops ∧
      (Bracket.loops.endFrom us.length b ops = none → a ∈ (s.run b ops).loops.flatten) := by
  induction ops generalizing s b us l with
  | nil =>
    have hmem : a ∈ s.loops.flatten := by simp [h, ha]
    exact ⟨hs.lookup_waiting (List.mem_append_right _ hmem), fun _ => hmem⟩
  | cons op rest ih =>
    have hfresh := hs.step op
    rw [run_cons, Bracket.endFrom]
    by_cases hop : op.opensLoop = true
    · have hno : Bracket.loops.closes op = false ∧ Bracket.loops.parts op = false :=
        ⟨by cases op <;> first | (cases hop; done) | rfl, rfl⟩
      have hyes : Bracket.loops.opens op = true := hop
      simp only [Bracket.ends, hno, hyes, Bool.or_false, Bool.false_and, Bool.false_eq_true,
        if_false, Bool.toNat_false, Bool.toNat_true]
      exact ih hfresh (show _ = ([b] :: us) ++ l :: ls by simp [step_opener hop, h]) ha
    · have hclosed : op.opensLoop = false := by simpa using hop
      by_cases htest : op = .untilTest
      · subst htest
        rcases us with _ | ⟨u, us⟩
        · exact ih hfresh (show _ = [] ++ (b :: l) :: ls by simp [step_untilTest h])
            (List.mem_cons_of_mem _ ha)
        · have hls : (s.step (b, .untilTest)).loops = ((b :: u) :: us) ++ l :: ls := by
            simp [step_untilTest h]
          exact (ih hfresh hls ha :)
      by_cases hend : op = .loopEnd
      · subst hend
        rcases us with _ | ⟨u, us⟩
        · have hfound : (s.step (b, .loopEnd)).jumps.lookup a = some b := by
            rw [step_loopEnd h, List.lookup_append, lookup_map_pair b ha]
            rfl
          exact ⟨hfresh.lookup_run hfound rest, fun hnone => by cases hnone⟩
        · exact ih hfresh (show _ = us ++ l :: ls by simp [step_loopEnd h]) ha
      · have hne : (op == .loopEnd) = false := by simpa using hend
        have hno : Bracket.loops.opens op = false ∧ Bracket.loops.closes op = false ∧
            Bracket.loops.parts op = false := ⟨hclosed, hne, rfl⟩
        simp only [Bracket.ends, hno, Bool.or_false, Bool.false_and, Bool.false_eq_true, if_false,
          Bool.toNat_false]
        exact ih hfresh ((loops_step s b hclosed ⟨htest, hend⟩).trans h) ha

/-- Every open loop is known by the address that opened it. -/
lemma opener_of_loops {pre : List Opcode} {l : List Nat} (h : l ∈ (start.run 0 pre).loops) :
    ∃ xs op ys, pre = xs ++ op :: ys ∧ op.opensLoop = true ∧ width xs ∈ l := by
  induction pre using List.reverseRecOn generalizing l with
  | nil => simp [start] at h
  | append_singleton pre op ih =>
    have hkeep : ∀ {l : List Nat}, l ∈ (start.run 0 pre).loops → ∃ xs op' ys,
        pre ++ [op] = xs ++ op' :: ys ∧ op'.opensLoop = true ∧ width xs ∈ l := by
      intro l hl
      obtain ⟨xs, op', ys, rfl, hop', hmem⟩ := ih hl
      exact ⟨xs, op', ys ++ [op], by simp, hop', hmem⟩
    rw [run_append, run_cons, run_nil, Nat.zero_add] at h
    generalize hs : start.run 0 pre = s at h hkeep
    by_cases hop : op.opensLoop = true
    · rw [step_opener hop, List.mem_cons] at h
      rcases h with rfl | h
      · exact ⟨pre, op, [], rfl, hop, by simp⟩
      · exact hkeep h
    have hclosed : op.opensLoop = false := by simpa using hop
    by_cases htest : op = .untilTest
    · subst htest
      cases hl : s.loops with
      | nil => simp [Scan.step, hl] at h
      | cons u us =>
        rw [step_untilTest hl, List.mem_cons] at h
        rcases h with rfl | h
        · obtain ⟨xs, op', ys, heq, hop', hmem⟩ := hkeep (l := u) (by simp [hl])
          exact ⟨xs, op', ys, heq, hop', List.mem_cons_of_mem _ hmem⟩
        · exact hkeep (by simp [hl, h])
    by_cases hend : op = .loopEnd
    · subst hend
      cases hl : s.loops with
      | nil => simp [Scan.step, hl] at h
      | cons u us =>
        rw [step_loopEnd hl] at h
        exact hkeep (by simp [hl, show l ∈ us from h])
    · rw [loops_step s _ hclosed ⟨htest, hend⟩] at h
      exact hkeep h

end Scan

/-! ### Where every address leads -/

namespace Bracket

variable {k : Bracket}

/-- Whether something ends a bracket depends on what stands up to there only. -/
lemma meets_append {pre post : List Opcode} {a t : Nat} (h : t < width pre) :
    k.Meets (place 0 (pre ++ post)) a t ↔ k.Meets (place 0 pre) a t := by
  have hpost : ∀ y ∈ place (0 + width pre) post, t < y.1 := fun y hy => by
    have := (place_bounds hy).1
    omega
  rw [place_append, Meets, Meets, between_append_left fun y hy => Nat.le_of_lt (hpost y hy)]
  have hmem : ∀ op,
      (t, op) ∈ place 0 pre ++ place (0 + width pre) post ↔ (t, op) ∈ place 0 pre := by
    intro op
    rw [List.mem_append, or_iff_left fun hm => Nat.lt_irrefl _ (hpost _ hm)]
  simp only [hmem]

/-- What ends a bracket within a sequence ends it in whatever goes on from there. -/
lemma partner_append {pre post : List Opcode} {a t : Nat} (h : k.Partner (place 0 pre) a t) :
    k.Partner (place 0 (pre ++ post)) a t := by
  obtain ⟨-, ⟨op, hmem, -⟩, -⟩ := h.1
  have hlt : t < width pre := by simpa using (place_bounds hmem).2
  refine ⟨(meets_append hlt).2 h.1, fun t' ht' => ?_⟩
  rcases Nat.lt_or_ge t' (width pre) with h' | h'
  · exact h.2 ((meets_append h').1 ht')
  · exact Nat.le_trans (Nat.le_of_lt hlt) h'

end Bracket

/-- What became of a loop is read off its own end. -/
lemma Scan.lookup_opener {op : Opcode} (hop : op.opensLoop = true) (pre post : List Opcode) :
    (Scan.start.run 0 (pre ++ op :: post)).jumps.lookup (width pre) =
        Bracket.loops.endFrom 0 (width pre + 1 + op.operandCount) post ∧
      (Bracket.loops.endFrom 0 (width pre + 1 + op.operandCount) post = none →
        width pre ∈ (Scan.start.run 0 (pre ++ op :: post)).loops.flatten) := by
  rw [run_append, run_cons, Nat.zero_add]
  have hopen : ((Scan.start.run 0 pre).step (width pre, op)).loops =
      [] ++ [width pre] :: (Scan.start.run 0 pre).loops :=
    congrArg loops (step_opener hop _ _)
  exact lookup_loops ((fresh_run_start pre).step op) hopen (List.mem_singleton_self _) post

/-- What stands before the end of a first part stands in it. -/
lemma split_of_width_lt {pre post xs ys : List Opcode} {op : Opcode}
    (h : pre ++ post = xs ++ op :: ys) (hlt : width xs < width pre) :
    ∃ mid, pre = xs ++ op :: mid := by
  rcases append_eq_split h with ⟨mid, rfl, -⟩ | ⟨before, rfl, -⟩
  · exact ⟨mid, rfl⟩
  · rw [width_append] at hlt
    omega

/-- A loop that is open was opened before and ends behind the place. -/
lemma opener_of_loops_ne_nil {pre post : List Opcode} {op : Opcode} (hop : op ≠ .loopEnd)
    (hne : (Scan.start.run 0 pre).loops ≠ []) :
    ∃ b o, (b, o) ∈ place 0 (pre ++ op :: post) ∧ o.opensLoop = true ∧ b < width pre ∧
      ∀ e, Bracket.loops.Partner (place 0 (pre ++ op :: post)) b e → width pre < e := by
  obtain ⟨l, ls, hl⟩ := List.exists_cons_of_ne_nil hne
  have hopen : l ∈ (Scan.start.run 0 pre).loops := by simp [hl]
  obtain ⟨xs, o, ys, hpre, ho, hmem⟩ := Scan.opener_of_loops hopen
  have hwait : width xs ∈ (Scan.start.run 0 pre).waiting := by simp [Scan.waiting, hl, hmem]
  have hnone := (Scan.fresh_run_start pre).lookup_waiting hwait
  subst hpre
  rw [(Scan.lookup_opener ho xs ys).1] at hnone
  refine ⟨width xs, o, mem_place_iff.2 ⟨xs, ys ++ op :: post, by simp, by simp⟩, ho,
    by rw [width_append, width_cons]; omega, fun e he => ?_⟩
  by_contra hle
  rcases Nat.lt_or_ge e (width (xs ++ o :: ys)) with hlt | hge
  · exact Bracket.not_stops_of_endFrom hnone e
      (Bracket.meets_place.1 ((Bracket.meets_append hlt).1 he.1))
  · -- at the place itself no loop ends
    obtain rfl : e = width (xs ++ o :: ys) := by omega
    obtain ⟨-, ⟨op', hmem', hend⟩, -⟩ := he.1
    have hthere : (width (xs ++ o :: ys), op) ∈ place 0 ((xs ++ o :: ys) ++ op :: post) :=
      mem_place_iff.2 ⟨xs ++ o :: ys, post, rfl, by simp⟩
    have hloopEnd : op' = .loopEnd := by simpa [Bracket.ends, Bracket.loops] using hend
    exact hop ((opcode_unique hthere hmem').trans hloopEnd)

/-- Some loop is open exactly if one that was opened before does not end before. -/
lemma loops_ne_nil_iff {pre post : List Opcode} {op : Opcode} (hop : op ≠ .loopEnd) :
    (Scan.start.run 0 pre).loops ≠ [] ↔
      ∃ b o, (b, o) ∈ place 0 (pre ++ op :: post) ∧ o.opensLoop = true ∧ b < width pre ∧
        ∀ e, Bracket.loops.Partner (place 0 (pre ++ op :: post)) b e → width pre < e := by
  refine ⟨opener_of_loops_ne_nil hop, ?_⟩
  rintro ⟨b, o, hmem, ho, hlt, hpartner⟩ hnil
  obtain ⟨xs, zs, heq, rfl⟩ := mem_place_iff.1 hmem
  rw [Nat.zero_add] at hlt hpartner
  obtain ⟨ys, rfl⟩ := split_of_width_lt heq hlt
  cases hend : Bracket.loops.endFrom 0 (width xs + 1 + o.operandCount) ys with
  | none =>
    have hopen := (Scan.lookup_opener ho xs ys).2 hend
    rw [hnil] at hopen
    cases hopen
  | some e =>
    have he := Bracket.partner_place.2 hend
    obtain ⟨-, ⟨op', hmem', -⟩, -⟩ := he.1
    have hbefore : e < width (xs ++ o :: ys) := by simpa using (place_bounds hmem').2
    exact absurd (hpartner e (Bracket.partner_append he)) (Nat.not_lt.2 (Nat.le_of_lt hbefore))

section

variable {pre post : List Opcode} {op : Opcode} {t : Nat}

/-- What a bracket leads to, by the ends behind it. -/
lemma leads_place_iff :
    Leads (place 0 (pre ++ op :: post)) (width pre) t ↔
      ((op = .branch ∨ op = .otherwise) ∧
        Bracket.branches.endFrom 0 (width pre + 1 + op.operandCount) post = some t) ∨
      (op.opensLoop = true ∧
        Bracket.loops.endFrom 0 (width pre + 1 + op.operandCount) post = some t) ∨
      (op = .untilTest ∧ (Scan.start.run 0 pre).loops ≠ [] ∧
        Bracket.loops.endFrom 0 (width pre + 1 + op.operandCount) post = some t) := by
  have hmem : (width pre, op) ∈ place 0 (pre ++ op :: post) :=
    mem_place_iff.2 ⟨pre, post, rfl, by simp⟩
  have honly : ∀ {op'}, (width pre, op') ∈ place 0 (pre ++ op :: post) → op = op' :=
    fun h => opcode_unique hmem h
  simp only [← Bracket.partner_place]
  constructor
  · rintro (⟨h, ht⟩ | ⟨h, ho, ht⟩ | ⟨h, hin, ht⟩)
    · exact Or.inl ⟨h.imp honly honly, ht⟩
    · exact Or.inr (Or.inl ⟨honly h ▸ ho, ht⟩)
    · obtain rfl := honly h
      exact Or.inr (Or.inr ⟨rfl, (loops_ne_nil_iff (by simp)).2 hin, ht⟩)
  · rintro (⟨h, ht⟩ | ⟨ho, ht⟩ | ⟨rfl, hne, ht⟩)
    · exact .branch (by rcases h with rfl | rfl <;> simp only [hmem, true_or, or_true]) ht
    · exact .loop hmem ho ht
    · exact .test hmem ((loops_ne_nil_iff (by simp)).1 hne) ht

lemma jumpFrom_at (pre post : List Opcode) (op : Opcode) :
    jumpFrom (pre ++ op :: post) (width pre) =
      (((Scan.start.run 0 pre).step (width pre, op)).run (width pre + 1 + op.operandCount)
        post).jumps.lookup (width pre) := by
  rw [jumpFrom, Scan.run_append, Scan.run_cons, Nat.zero_add]

lemma jumpFrom_eq_branches (h : op = .branch ∨ op = .otherwise) :
    jumpFrom (pre ++ op :: post) (width pre) =
      Bracket.branches.endFrom 0 (width pre + 1 + op.operandCount) post := by
  obtain ⟨bs, hbs⟩ : ∃ bs, ((Scan.start.run 0 pre).step (width pre, op)).branches =
      [] ++ width pre :: bs := by
    rcases h with rfl | rfl
    · exact ⟨_, rfl⟩
    · exact ⟨_, rfl⟩
  rw [jumpFrom_at]
  exact Scan.lookup_branches ((Scan.fresh_run_start pre).step op) hbs post

lemma jumpFrom_eq_loops (h : op.opensLoop = true ∨
      op = .untilTest ∧ (Scan.start.run 0 pre).loops ≠ []) :
    jumpFrom (pre ++ op :: post) (width pre) =
      Bracket.loops.endFrom 0 (width pre + 1 + op.operandCount) post := by
  obtain ⟨l, ls, hls, hl⟩ : ∃ l ls, ((Scan.start.run 0 pre).step (width pre, op)).loops =
      [] ++ l :: ls ∧ width pre ∈ l := by
    rcases h with h | ⟨rfl, h⟩
    · exact ⟨_, _, congrArg Scan.loops (Scan.step_opener h _ _), List.mem_singleton_self _⟩
    · obtain ⟨l, ls, hl⟩ := List.exists_cons_of_ne_nil h
      exact ⟨_, _, congrArg Scan.loops (Scan.step_untilTest hl _), List.mem_cons_self⟩
  rw [jumpFrom_at]
  exact (Scan.lookup_loops ((Scan.fresh_run_start pre).step op) hls hl post).1

lemma jumpFrom_eq_none (hb : ¬ (op = .branch ∨ op = .otherwise)) (hl : op.opensLoop ≠ true)
    (ht : ¬ (op = .untilTest ∧ (Scan.start.run 0 pre).loops ≠ [])) :
    jumpFrom (pre ++ op :: post) (width pre) = none := by
  rw [jumpFrom_at]
  refine Scan.lookup_run_eq_none (fun hn => ?_) (by omega) post
  have hcount := Scan.count_noted_step_of_passes (s := Scan.start.run 0 pre) (not_or.1 hb)
    (by simpa using hl) (fun h => by simpa [h] using ht) (width pre) (width pre)
  have hpos := List.count_pos_iff.2 hn
  exact (Scan.fresh_run_start pre).not_noted (Nat.le_refl _) (List.count_pos_iff.1 (by omega))

end

lemma jumpFrom_eq_some_iff {ops : List Opcode} {a t : Nat} :
    jumpFrom ops a = some t ↔ Leads (place 0 ops) a t := by
  by_cases hex : ∃ op, (a, op) ∈ place 0 ops
  · obtain ⟨op, hmem⟩ := hex
    obtain ⟨pre, post, rfl, rfl⟩ := mem_place_iff.1 hmem
    rw [Nat.zero_add, leads_place_iff]
    by_cases hb : op = .branch ∨ op = .otherwise
    · rw [jumpFrom_eq_branches hb]
      rcases hb with rfl | rfl <;> simp [Opcode.opensLoop]
    by_cases hl : op.opensLoop = true
    · have htest : op ≠ .untilTest := by rintro rfl; cases hl
      rw [jumpFrom_eq_loops (.inl hl)]
      simp [hb, hl, htest]
    by_cases ht : op = .untilTest ∧ (Scan.start.run 0 pre).loops ≠ []
    · rw [jumpFrom_eq_loops (.inr ht)]
      simp [ht, Opcode.opensLoop]
    · rw [jumpFrom_eq_none hb hl ht]
      simp only [reduceCtorEq, hb, hl, false_and, false_or, false_iff]
      exact fun h => ht ⟨h.1, h.2.1⟩
  · -- only what stands in the code is ever noted
    have hnone : jumpFrom ops a = none := by
      rw [Option.eq_none_iff_forall_ne_some]
      intro t ht
      rcases Scan.mem_noted_run (Scan.mem_noted_of_lookup ht) with h | h
      · simp [Scan.noted, Scan.waiting, Scan.start] at h
      · exact hex h
    rw [hnone]
    simp only [reduceCtorEq, false_iff]
    rintro (⟨h, -⟩ | ⟨h, -, -⟩ | ⟨h, -, -⟩)
    · exact hex (h.elim (fun h => ⟨_, h⟩) fun h => ⟨_, h⟩)
    · exact hex ⟨_, h⟩
    · exact hex ⟨_, h⟩

lemma Leads.meets {xs : List (Nat × Opcode)} {a t : Nat} (h : Leads xs a t) :
    ∃ k, (k = Bracket.branches ∨ k = Bracket.loops) ∧ k.Meets xs a t := by
  cases h with
  | branch _ ht => exact ⟨_, .inl rfl, ht.1⟩
  | loop _ _ ht => exact ⟨_, .inr rfl, ht.1⟩
  | test _ _ ht => exact ⟨_, .inr rfl, ht.1⟩

lemma Bracket.operandCount_of_ends {k : Bracket} (hk : k = .branches ∨ k = .loops) {op : Opcode}
    (h : k.ends op = true) : op.operandCount = 0 := by
  rcases hk with rfl | rfl <;> cases op <;> first | rfl | cases h

/-- **Jumps are the matching brackets**: in any sequence of words, an address jumps exactly to the
first later place that ends its bracket, an address that stands at no bracket does not jump, and
every jump goes forward to an instruction without an operand, behind which reading goes on. -/
theorem jump?_eq_some_iff_leads (words : Array UInt32) (a t : Nat) :
    ((ofWords words).jump? a = some t ↔ Leads (addressed 0 (decode words.toList)) a t) ∧
      ((ofWords words).jump? a = some t → a < t ∧
        (∃ op, (t, op) ∈ addressed 0 (decode words.toList) ∧ op.operandCount = 0) ∧
        [t, t + 1] <:+: reached 0 (decode words.toList)) := by
  have hjump : (ofWords words).jump? a = jumpFrom ((decode words.toList).map (·.opcode)) a := by
    simp [jump?, ofWords, jumpsOf, jumpFrom, Scan.run, addressed_eq_place]
  rw [hjump, addressed_eq_place, jumpFrom_eq_some_iff]
  refine ⟨Iff.rfl, fun h => ?_⟩
  obtain ⟨k, hk, hlt, ⟨op, hmem, hend⟩, -⟩ := h.meets
  have hcount := Bracket.operandCount_of_ends hk hend
  refine ⟨hlt, ⟨op, hmem, hcount⟩, ?_⟩
  obtain ⟨pre, post, hops, rfl⟩ := mem_place_iff.1 hmem
  obtain ⟨is, js, his, rfl, hjs⟩ := List.map_eq_append_iff.1 hops
  obtain ⟨i, post', rfl, rfl, -⟩ := List.map_eq_cons_iff.1 hjs
  rw [his]
  simpa [hcount] using infix_reached 0 is i post'

/-- A branch and a loop that cross, and an operand that looks like the end of the loop. -/
theorem jump?_crossing :
    let words : Array UInt32 := #[5, 9, 39, 13, 7, 13, 7]
    (ofWords words).jump? 0 = some 4 ∧ (ofWords words).jump? 1 = some 5 ∧
      Leads (addressed 0 (decode words.toList)) 0 4 ∧
      Leads (addressed 0 (decode words.toList)) 1 5 ∧
      [5, 6] <:+: reached 0 (decode words.toList) := by
  intro words
  have hbranch : (ofWords words).jump? 0 = some 4 := by cbv
  have hloop : (ofWords words).jump? 1 = some 5 := by cbv
  obtain ⟨hleads, hforward⟩ := jump?_eq_some_iff_leads words 1 5
  exact ⟨hbranch, hloop, (jump?_eq_some_iff_leads words 0 4).1.1 hbranch, hleads.1 hloop,
    (hforward hloop).2.2⟩

end Code

end Blockwork
