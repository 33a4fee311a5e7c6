import Blockwork.Proofs.Code.Nesting
import Mathlib.Data.List.Induction

/-!
The loops around an address. In code whose brackets match, each bracket has its partner at a known
place; the loops around an address are those whose opening lies before it and whose end does not,
and they are what a scan up to the address finds open.
-/

namespace Blockwork.Code

/-! ### Where the partners of a bracket are -/

/-- What can stand between the opening and the end of a loop. -/
inductive LoopBody : Opcode → List Opcode → Prop
  | plain {op : Opcode} {xs : List Opcode} (h : op = .forever ∨ op = .times) (hx : Nested xs) :
      LoopBody op xs
  | tested {xs ys : List Opcode} (hx : Nested xs) (hy : Nested ys) :
      LoopBody .untilLoop (xs ++ .untilTest :: ys)

lemma LoopBody.opensLoop {op : Opcode} {xs : List Opcode} (h : LoopBody op xs) :
    op.opensLoop = true := by
  cases h with
  | plain h => rcases h with rfl | rfl <;> rfl
  | tested => rfl

/-- A bracket has its partner. -/
def Site (pre : List Opcode) (op : Opcode) (post : List Opcode) : Prop :=
  match op with
  | .branch => ∃ xs close rest, post = xs ++ close :: rest ∧ Nested xs ∧
      (close = .otherwise ∨ close = .endBranch)
  | .otherwise => ∃ xs rest, post = xs ++ .endBranch :: rest ∧ Nested xs
  | .forever | .times | .untilLoop => ∃ xs rest, post = xs ++ .loopEnd :: rest ∧ LoopBody op xs
  | .untilTest => ∃ before xs ys rest, pre = before ++ .untilLoop :: xs ∧
      post = ys ++ .loopEnd :: rest ∧ Nested xs ∧ Nested ys
  | .loopEnd => ∃ before opener xs, pre = before ++ opener :: xs ∧ LoopBody opener xs
  | _ => True

/-- The partner of a bracket is not affected by what stands around both of them. -/
lemma Site.extend {pre post : List Opcode} {op : Opcode} (h : Site pre op post)
    (before after : List Opcode) : Site (before ++ pre) op (post ++ after) := by
  cases op
  case branch =>
    obtain ⟨xs, close, rest, rfl, hx, hc⟩ := h
    exact ⟨xs, close, rest ++ after, by simp, hx, hc⟩
  case otherwise =>
    obtain ⟨xs, rest, rfl, hx⟩ := h
    exact ⟨xs, rest ++ after, by simp, hx⟩
  case untilTest =>
    obtain ⟨b, xs, ys, rest, rfl, rfl, hx, hy⟩ := h
    exact ⟨before ++ b, xs, ys, rest ++ after, by simp, by simp, hx, hy⟩
  case loopEnd =>
    obtain ⟨b, opener, xs, rfl, hx⟩ := h
    exact ⟨before ++ b, opener, xs, by simp, hx⟩
  case forever | times | untilLoop =>
    obtain ⟨xs, rest, rfl, hx⟩ := h
    exact ⟨xs, rest ++ after, by simp, hx⟩
  all_goals trivial

/-- In a nested sequence every bracket has its partner. -/
lemma Nested.site {ops : List Opcode} (h : Nested ops) {pre post : List Opcode} {op : Opcode}
    (he : ops = pre ++ op :: post) : Site pre op post := by
  have hend : ∀ {x : Opcode}, x = .endBranch → ∀ {pre post : List Opcode} {op : Opcode},
      [x] = pre ++ op :: post → op = .endBranch := by
    rintro x rfl pre post op he
    rcases cons_eq_split he with ⟨-, rfl, -⟩ | ⟨b, -, hb⟩
    · rfl
    · simp at hb
  induction h generalizing pre post op with
  | nil => simp at he
  | @plain o ho =>
    rcases cons_eq_split he with ⟨-, rfl, -⟩ | ⟨b, -, hb⟩
    · cases op <;> simp [Opcode.isBracket] at ho <;> trivial
    · simp at hb
  | append _ _ ihx ihy =>
    rcases append_eq_split he with ⟨rest, hxs, rfl⟩ | ⟨before, rfl, hys⟩
    · exact (ihx hxs).extend [] _
    · simpa using (ihy hys).extend _ []
  | @branch xs hx ih =>
    rcases cons_eq_split he with ⟨rfl, rfl, rfl⟩ | ⟨b, rfl, hb⟩
    · exact ⟨xs, .endBranch, [], rfl, hx, Or.inr rfl⟩
    · rcases append_eq_split hb with ⟨rest, hxs, rfl⟩ | ⟨before, rfl, hys⟩
      · exact (ih hxs).extend [.branch] _
      · rw [hend rfl hys]
        trivial
  | @choice xs ys hx hy ihx ihy =>
    rcases cons_eq_split he with ⟨rfl, rfl, rfl⟩ | ⟨b, rfl, hb⟩
    · exact ⟨xs, .otherwise, ys ++ [.endBranch], rfl, hx, Or.inl rfl⟩
    · rcases append_eq_split hb with ⟨rest, hxs, rfl⟩ | ⟨before, rfl, hb'⟩
      · exact (ihx hxs).extend [.branch] _
      · rcases cons_eq_split hb' with ⟨rfl, rfl, rfl⟩ | ⟨b', rfl, hb''⟩
        · exact ⟨ys, [], rfl, hy⟩
        · rcases append_eq_split hb'' with ⟨rest, hys, rfl⟩ | ⟨before, rfl, hlast⟩
          · have hsite := (ihy hys).extend (.branch :: (xs ++ [.otherwise])) [.endBranch]
            rwa [List.cons_append, List.append_assoc] at hsite
          · rw [hend rfl hlast]
            trivial
  | @loop o xs ho hx ih =>
    rcases cons_eq_split he with ⟨rfl, rfl, rfl⟩ | ⟨b, rfl, hb⟩
    · rcases ho with rfl | rfl
      · exact ⟨xs, [], rfl, .plain (Or.inl rfl) hx⟩
      · exact ⟨xs, [], rfl, .plain (Or.inr rfl) hx⟩
    · rcases append_eq_split hb with ⟨rest, hxs, rfl⟩ | ⟨before, rfl, hlast⟩
      · exact (ih hxs).extend [o] _
      · rcases cons_eq_split hlast with ⟨rfl, rfl, rfl⟩ | ⟨b', -, hb'⟩
        · exact ⟨[], o, xs, by simp, .plain ho hx⟩
        · simp at hb'
  | @tested xs ys hx hy ihx ihy =>
    rcases cons_eq_split he with ⟨rfl, rfl, rfl⟩ | ⟨b, rfl, hb⟩
    · exact ⟨xs ++ .untilTest :: ys, [], by simp, .tested hx hy⟩
    · rcases append_eq_split hb with ⟨rest, hxs, rfl⟩ | ⟨before, rfl, hb'⟩
      · exact (ihx hxs).extend [.untilLoop] _
      · rcases cons_eq_split hb' with ⟨rfl, rfl, rfl⟩ | ⟨b', rfl, hb''⟩
        · exact ⟨[], xs, ys, [], by simp, rfl, hx, hy⟩
        · rcases append_eq_split hb'' with ⟨rest, hys, rfl⟩ | ⟨before, rfl, hlast⟩
          · have hsite := (ihy hys).extend (.untilLoop :: (xs ++ [.untilTest])) [.loopEnd]
            rwa [List.cons_append, List.append_assoc] at hsite
          · rcases cons_eq_split hlast with ⟨rfl, rfl, rfl⟩ | ⟨b'', -, hb'''⟩
            · exact ⟨[], .untilLoop, xs ++ .untilTest :: ys, by simp, .tested hx hy⟩
            · simp at hb'''

/-! ### Open loops -/

/-- The loops that are open after an instruction, the innermost first. -/
def openStep (open_ : List (Nat × Opcode)) (x : Nat × Opcode) : List (Nat × Opcode) :=
  if x.2.opensLoop then x :: open_
  else if x.2 = .loopEnd then open_.tail
  else open_

/-- The loops that a sequence which starts at an address leaves open. -/
def openFrom (open_ : List (Nat × Opcode)) (a : Nat) (ops : List Opcode) : List (Nat × Opcode) :=
  (place a ops).foldl openStep open_

/-- The loops that are open after a sequence, the innermost first. -/
def opened (ops : List Opcode) : List (Nat × Opcode) := openFrom [] 0 ops

@[simp] lemma openFrom_nil (s : List (Nat × Opcode)) (a : Nat) : openFrom s a [] = s := rfl

@[simp] lemma openFrom_cons (s : List (Nat × Opcode)) (a : Nat) (op : Opcode) (ops : List Opcode) :
    openFrom s a (op :: ops) = openFrom (openStep s (a, op)) (a + 1 + op.operandCount) ops := rfl

lemma openFrom_append (s : List (Nat × Opcode)) (a : Nat) (xs ys : List Opcode) :
    openFrom s a (xs ++ ys) = openFrom (openFrom s a xs) (a + width xs) ys := by
  simp [openFrom, place_append, List.foldl_append]

lemma openStep_other {op : Opcode} (h : op.opensLoop = false) (hend : op ≠ .loopEnd)
    (s : List (Nat × Opcode)) (a : Nat) : openStep s (a, op) = s := by
  simp [openStep, h, hend]

lemma openStep_opener {op : Opcode} (h : op.opensLoop = true) (s : List (Nat × Opcode)) (a : Nat) :
    openStep s (a, op) = (a, op) :: s := by
  simp [openStep, h]

lemma openStep_loopEnd (s : List (Nat × Opcode)) (a : Nat) : openStep s (a, .loopEnd) = s.tail := by
  simp [openStep, Opcode.opensLoop]

/-- What is nested leaves open what was open. -/
lemma openFrom_nested {ops : List Opcode} (h : Nested ops) (s : List (Nat × Opcode)) (a : Nat) :
    openFrom s a ops = s := by
  induction h generalizing s a with
  | nil => rfl
  | @plain op h =>
    have hop : op.opensLoop = false ∧ op ≠ .loopEnd := by
      cases op <;> simp_all [Opcode.isBracket, Opcode.opensLoop]
    simp [openStep_other hop.1 hop.2]
  | append _ _ ihx ihy => rw [openFrom_append, ihx, ihy]
  | branch _ ih =>
    simp [openFrom_append, ih, @openStep_other .branch rfl,
      @openStep_other .endBranch rfl]
  | choice _ _ ihx ihy =>
    simp [openFrom_append, ihx, ihy, @openStep_other .branch rfl,
      @openStep_other .otherwise rfl, @openStep_other .endBranch rfl]
  | @loop op xs h _ ih =>
    have hop : op.opensLoop = true := by rcases h with rfl | rfl <;> rfl
    simp [openFrom_append, ih, openStep_opener hop, openStep_loopEnd]
  | tested _ _ ihx ihy =>
    simp [openFrom_append, ihx, ihy, @openStep_opener .untilLoop rfl,
      @openStep_other .untilTest rfl, openStep_loopEnd]

lemma opened_append_nested {xs : List Opcode} (h : Nested xs) (pre : List Opcode) :
    opened (pre ++ xs) = opened pre := by
  rw [opened, openFrom_append, openFrom_nested h]
  rfl

lemma opened_snoc (pre : List Opcode) (op : Opcode) :
    opened (pre ++ [op]) = openStep (opened pre) (width pre, op) := by
  rw [opened, openFrom_append, openFrom_cons, openFrom_nil, Nat.zero_add]
  rfl

/-- Inside of a loop the loop itself is the innermost one. -/
lemma opened_loopBody {op : Opcode} {xs : List Opcode} (h : LoopBody op xs) (pre : List Opcode) :
    opened (pre ++ op :: xs) = (width pre, op) :: opened pre := by
  have hopen : opened (pre ++ [op]) = (width pre, op) :: opened pre := by
    rw [opened_snoc, openStep_opener h.opensLoop]
  cases h with
  | plain _ hx =>
    rw [← hopen, ← opened_append_nested hx (pre ++ [op]), List.append_assoc, List.singleton_append]
  | @tested ys zs hy hz =>
    have hsplit : pre ++ .untilLoop :: (ys ++ .untilTest :: zs) =
        (((pre ++ [.untilLoop]) ++ ys) ++ [.untilTest]) ++ zs := by simp
    rw [hsplit, opened_append_nested hz, opened_snoc, openStep_other rfl (by simp),
      opened_append_nested hy, hopen]

/-- Every opening leads to the end of its loop, with or without a test. -/
lemma jumpFrom_loopBody {op : Opcode} {xs : List Opcode} (h : LoopBody op xs)
    (pre post : List Opcode) :
    jumpFrom (pre ++ op :: (xs ++ .loopEnd :: post)) (width pre) =
      some (width (pre ++ op :: xs)) := by
  cases h with
  | plain hop hx => exact jumpFrom_loop (by rcases hop with rfl | rfl <;> rfl) hx
  | @tested ys zs hy hz =>
    set before := pre ++ .untilLoop :: ys with hbefore
    have hwait : width pre ∉ (Scan.start.run 0 pre).waiting := fun h =>
      Nat.lt_irrefl _ (waiting_lt h)
    simp only [Scan.waiting, List.mem_append, not_or] at hwait
    have hrun : (Scan.start.run 0 before).branches = (Scan.start.run 0 pre).branches ∧
        (Scan.start.run 0 before).loops = [width pre] :: (Scan.start.run 0 pre).loops := by
      rw [hbefore, Scan.run_append, Scan.run_cons, Scan.step_opener rfl, Nat.zero_add]
      exact Scan.run_nested hy _ _
    have htest : Scan.start.run 0 (before ++ [.untilTest]) = { Scan.start.run 0 before with
        loops := [width before, width pre] :: (Scan.start.run 0 pre).loops } := by
      rw [Scan.run_append, Scan.run_cons, Scan.run_nil, Scan.step_untilTest hrun.2, Nat.zero_add]
    have h : jumpFrom ((before ++ [.untilTest]) ++ (zs ++ .loopEnd :: post)) (width pre) =
        some (width ((before ++ [.untilTest]) ++ zs)) :=
      jumpFrom_loopEnd (l := [width before, width pre]) (by rw [htest]) (by simp) hwait.2
        (by rw [htest, hrun.1]; exact hwait.1) hz
    simpa [hbefore, List.append_assoc] using h

/-! ### Loops around an address -/

/-- The loops around an address, the outermost first: they open before it and do not end before
it. -/
def enclosing (code : Code) (x : Nat) : List (Nat × Opcode) :=
  (addressed 0 code.instructions).filter fun o =>
    o.2.opensLoop && decide (o.1 < x) && (code.jump? o.1).any fun e => decide (x ≤ e)

/-- Open loops lie before the end of the sequence, the inner ones behind the outer ones. -/
lemma opened_sorted (ops : List Opcode) :
    (opened ops).Pairwise (fun x y => y.1 < x.1) ∧ ∀ x ∈ opened ops, x.1 < width ops := by
  induction ops using List.reverseRecOn with
  | nil => simp [opened]
  | append_singleton pre op ih =>
    have hlt : width pre < width (pre ++ [op]) := by
      rw [width_append, width_cons]
      omega
    rw [opened_snoc, openStep]
    split
    · refine ⟨List.pairwise_cons.2 ⟨ih.2, ih.1⟩, fun x hx => ?_⟩
      rcases List.mem_cons.1 hx with rfl | hx
      · exact hlt
      · exact Nat.lt_trans (ih.2 x hx) hlt
    · split
      · exact ⟨ih.1.sublist (List.tail_sublist _), fun x hx =>
          Nat.lt_trans (ih.2 x (List.mem_of_mem_tail hx)) hlt⟩
      · exact ⟨ih.1, fun x hx => Nat.lt_trans (ih.2 x hx) hlt⟩

/-- An open loop ends later on. -/
lemma end_of_opened {pre post : List Opcode} (h : Nested (pre ++ post)) {x : Nat × Opcode}
    (hx : x ∈ opened pre) :
    ∃ before xs mid rest, pre = before ++ x.2 :: xs ∧ x.1 = width before ∧
      post = mid ++ .loopEnd :: rest ∧ LoopBody x.2 (xs ++ mid) := by
  induction pre using List.reverseRecOn generalizing post with
  | nil => simp [opened] at hx
  | append_singleton pre op ih =>
    rw [List.append_assoc, List.singleton_append] at h
    -- a loop that was open before goes on being open behind an instruction that does not end it
    have hold : ∀ hx : x ∈ opened pre, (op = .loopEnd → x ∈ (opened pre).tail) →
        ∃ before xs mid rest, pre ++ [op] = before ++ x.2 :: xs ∧ x.1 = width before ∧
          post = mid ++ .loopEnd :: rest ∧ LoopBody x.2 (xs ++ mid) := by
      intro hx htail
      obtain ⟨before, xs, mid, rest, rfl, hwidth, hpost, hbody⟩ := ih h hx
      rcases mid with _ | ⟨o, mid⟩
      · cases hpost
        rw [List.append_nil] at hbody
        have htail := htail rfl
        have hhead := opened_loopBody hbody before
        have hsorted := (opened_sorted (before ++ x.2 :: xs)).1
        rw [hhead] at htail hsorted
        have hlt := (List.pairwise_cons.1 hsorted).1 x htail
        simp only [hwidth] at hlt
        exact absurd hlt (Nat.lt_irrefl _)
      · cases hpost
        exact ⟨before, xs ++ [op], mid, rest, by simp, hwidth, rfl, by simpa using hbody⟩
    rw [opened_snoc, openStep] at hx
    by_cases hop : op.opensLoop = true
    · simp only [hop, if_true, List.mem_cons] at hx
      rcases hx with rfl | hx
      · have hsite := h.site rfl
        obtain ⟨xs, rest, rfl, hbody⟩ : ∃ xs rest, post = xs ++ .loopEnd :: rest ∧
            LoopBody op xs := by
          cases op <;> simp [Opcode.opensLoop] at hop <;> exact hsite
        exact ⟨pre, [], xs, rest, rfl, rfl, rfl, hbody⟩
      · exact hold hx fun he => by simp [he, Opcode.opensLoop] at hop
    · simp only [hop, Bool.false_eq_true, if_false] at hx
      by_cases hend : op = .loopEnd
      · simp only [hend, if_true] at hx
        exact hold (List.mem_of_mem_tail hx) fun _ => hx
      · simp only [hend, if_false] at hx
        exact hold hx fun he => absurd he hend

/-- A loop opens before an address and does not end before it. -/
def isAround (ops : List Opcode) (x : Nat) (o : Nat × Opcode) : Bool :=
  o.2.opensLoop && decide (o.1 < x) && (jumpFrom ops o.1).any fun e => decide (x ≤ e)

/-- An open loop ends at the address or later. -/
lemma le_end_of_opened {pre post : List Opcode} (h : Nested (pre ++ post)) {x : Nat × Opcode}
    (hx : x ∈ opened pre) :
    (jumpFrom (pre ++ post) x.1).any (fun e => decide (width pre ≤ e)) = true := by
  obtain ⟨before, xs, mid, rest, rfl, hwidth, rfl, hbody⟩ := end_of_opened h hx
  have hjump := jumpFrom_loopBody hbody before rest
  have hsplit : before ++ x.2 :: xs ++ (mid ++ .loopEnd :: rest) =
      before ++ x.2 :: ((xs ++ mid) ++ .loopEnd :: rest) := by simp
  rw [hsplit, hwidth, hjump]
  simp only [Option.any_some, decide_eq_true_eq, width_append, width_cons]
  omega

/-- What is open after the first part of a sequence is what lies around the address there. -/
lemma filter_isAround {pre post : List Opcode} (h : Nested (pre ++ post)) :
    (place 0 pre).filter (isAround (pre ++ post) (width pre)) = (opened pre).reverse := by
  induction pre using List.reverseRecOn generalizing post with
  | nil => rfl
  | append_singleton pre op ih =>
    have hlt : width pre < width (pre ++ [op]) := by
      rw [width_append, width_cons]
      omega
    have hends := @le_end_of_opened (pre ++ [op]) post h
    rw [List.append_assoc, List.singleton_append] at h hends ⊢
    set ops := pre ++ op :: post
    -- of the loops around the address before, those remain that do not end there
    have hold : (place 0 pre).filter (isAround ops (width (pre ++ [op]))) =
        (opened pre).reverse.filter fun o =>
          (jumpFrom ops o.1).any fun e => decide (width (pre ++ [op]) ≤ e) := by
      rw [← ih h, List.filter_filter]
      refine List.filter_congr fun o ho => ?_
      have hbefore : o.1 < width pre := by simpa using (place_bounds ho).2
      have hbehind : o.1 < width (pre ++ [op]) := Nat.lt_trans hbefore hlt
      simp only [isAround, hbefore, hbehind, decide_true, Bool.and_true]
      cases jumpFrom ops o.1 with
      | none => simp only [Option.any_none, Bool.and_false]
      | some e =>
        simp only [Option.any_some]
        by_cases he : width (pre ++ [op]) ≤ e
        · rw [decide_eq_true he, decide_eq_true (Nat.le_trans (Nat.le_of_lt hlt) he), Bool.and_true,
            Bool.true_and]
        · rw [decide_eq_false he, Bool.and_false, Bool.false_and]
    rw [place_append, List.filter_append, hold, Nat.zero_add, place_cons, place_nil, opened_snoc]
    by_cases hop : op.opensLoop = true
    · rw [openStep_opener hop, List.reverse_cons]
      rw [opened_snoc, openStep_opener hop] at hends
      congr 1
      · rw [List.filter_eq_self]
        exact fun o ho => hends (List.mem_cons_of_mem _ (List.mem_reverse.1 ho))
      · rw [List.filter_eq_self]
        intro o ho
        rw [List.mem_singleton.1 ho]
        have hown := @hends (width pre, op) (List.mem_cons_self)
        simp only [isAround, hop, hlt, decide_true, Bool.and_self, Bool.true_and]
        exact hown
    · have hnew : List.filter (isAround ops (width (pre ++ [op]))) [(width pre, op)] = [] := by
        simp [isAround, hop]
      rw [hnew, List.append_nil]
      by_cases hend : op = .loopEnd
      · subst hend
        obtain ⟨before, opener, xs, rfl, hbody⟩ := h.site rfl
        rw [openStep_loopEnd, opened_loopBody hbody, List.tail_cons, List.reverse_cons,
          List.filter_append]
        rw [opened_snoc, openStep_loopEnd, opened_loopBody hbody, List.tail_cons] at hends
        have hlast : jumpFrom ops (width before) = some (width (before ++ opener :: xs)) := by
          have := jumpFrom_loopBody hbody before post
          simpa [ops] using this
        have hgone : List.filter (fun o : Nat × Opcode => (jumpFrom ops o.1).any fun e =>
            decide (width (before ++ opener :: xs ++ [.loopEnd]) ≤ e)) [(width before, opener)] = [] := by
          simp [hlast, Opcode.operandCount]
        rw [hgone, List.append_nil, List.filter_eq_self]
        exact fun o ho => hends (List.mem_reverse.1 ho)
      · rw [openStep_other (by simpa using hop) hend]
        rw [opened_snoc, openStep_other (by simpa using hop) hend] at hends
        rw [List.filter_eq_self]
        exact fun o ho => hends (List.mem_reverse.1 ho)

/-- The loops around a boundary are those that the code before it leaves open. -/
lemma enclosing_ofInstructions {pre post : List Instruction} (hf : AllFull (pre ++ post))
    (h : Nested ((pre ++ post).map (·.opcode))) :
    (ofInstructions (pre ++ post)).enclosing (width (pre.map (·.opcode))) =
      (opened (pre.map (·.opcode))).reverse := by
  rw [List.map_append] at h
  have hbehind : (place (0 + width (pre.map (·.opcode))) (post.map (·.opcode))).filter
      (isAround (pre.map (·.opcode) ++ post.map (·.opcode)) (width (pre.map (·.opcode)))) = [] := by
    rw [List.filter_eq_nil_iff]
    intro o ho
    have hle := (place_bounds ho).1
    have hnot : ¬ o.1 < width (pre.map (·.opcode)) := by omega
    simp [isAround, hnot]
  rw [enclosing, instructions_ofInstructions hf, addressed_eq_place, List.map_append, place_append]
  simp only [jump?_eq_jumpFrom hf, List.map_append]
  change List.filter (isAround (pre.map (·.opcode) ++ post.map (·.opcode)) _) _ = _
  rw [List.filter_append, hbehind, List.append_nil]
  exact filter_isAround h

end Blockwork.Code
