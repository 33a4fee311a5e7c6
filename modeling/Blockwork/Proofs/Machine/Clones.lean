import Blockwork.Proofs.Machine.Effects
import Blockwork.Proofs.World.Layout

/-!
What a machine does to the targets of its world. It stays on its own target; and of all instructions
only two natives change the layout. One makes a clone, the other deletes the clone that the machine
runs on, and both leave a request behind. So a slice that asks for nothing has left every target in its
place, and a target that is gone is named in a request to kill its threads.
-/

namespace Blockwork

namespace World

/-- On the way from the first world to the second these requests were made. Whoever lost their place is
named in one of them. -/
structure Makes (rs : List Request) (w w' : World) : Prop where
  requests : w'.requests = w.requests ++ rs
  still : rs = [] → w'.troupe = w.troupe
  tidy : w.targets.Tidy → w'.targets.Tidy
  lives : w.targets.Tidy → ∀ id o, w.targets.origin? id = some o →
    w'.targets.origin? id = some o ∨ .killThreadsOf id ∈ rs

namespace Makes

variable {rs rs' : List Request} {w w' w'' : World}

lemma inPlace (hr : w'.requests = w.requests ++ rs) (ht : w'.troupe = w.troupe) :
    Makes rs w w' where
  requests := hr
  still _ := ht
  tidy h := h.congr (layout_of_troupe ht)
  lives _ id _ ho := Or.inl ((Arena.origin?_congr (layout_of_troupe ht) id).trans ho)

lemma refl (w : World) : Makes [] w w := inPlace (List.append_nil _).symm rfl

lemma trans (h : Makes rs w w') (k : Makes rs' w' w'') : Makes (rs ++ rs') w w'' where
  requests := by rw [k.requests, h.requests, List.append_assoc]
  still hnone := by
    obtain ⟨h1, h2⟩ := List.append_eq_nil_iff.1 hnone
    exact (k.still h2).trans (h.still h1)
  tidy ht := k.tidy (h.tidy ht)
  lives ht id o ho := by
    rcases h.lives ht id o ho with ho' | hkill
    · exact (k.lives (h.tidy ht) id o ho').imp_right (List.mem_append_right _)
    · exact Or.inr (List.mem_append_left _ hkill)

end Makes

/-- What a machine on `self` may do about clones in one step, with the requests that it leaves. -/
inductive Change (self : TargetId) (w : World) : List Request → World → Prop
  /-- Nobody comes or goes. -/
  | keep {rs : List Request} {w' : World} (hone : rs.length ≤ 1)
      (hstart : ∀ c, .startClone c ∉ rs) (hr : w'.requests = w.requests ++ rs)
      (ht : w'.troupe = w.troupe) : Change self w rs w'
  | create {source c : TargetId} {w' : World} (h : w.createClone source = (some c, w')) :
      Change self w [.startClone c] w'
  | delete {t : Target} (ht : w.targets.get? self = some t) (hclone : t.isClone = true) :
      Change self w [.killThreadsOf self] (w.deleteClone self)

section

variable {self source c : TargetId} {rs : List Request} {w w' : World} {t : Target}

lemma Change.nothing (hr : w'.requests = w.requests) (ht : w'.troupe = w.troupe) :
    Change self w [] w' :=
  .keep (Nat.zero_le _) (fun _ => List.not_mem_nil) (hr.trans (List.append_nil _).symm) ht

/-- A clone that is refused leaves no trace. -/
lemma createClone_of_none (h : (w.createClone source).1 = none) : (w.createClone source).2 = w := by
  unfold createClone at h ⊢
  split
  · rfl
  next hlimit =>
  rw [if_neg hlimit] at h
  split
  · rfl
  next t ht =>
  simp only [ht] at h
  split
  · rfl
  · next hstage => simp [hstage] at h

/-- A clone is a copy of its source under a new id, but for the bubble and the origin. -/
lemma createClone_eq_some (h : w.createClone source = (some c, w')) :
    ∃ t, w.targets.get? source = some t ∧ t.isStage = false ∧
      w.targets.cloneCount < w.config.cloneLimit ∧
      w.targets.insert (t.clone (t.cloneOf.getD source)) = (c, w'.targets) ∧
      w' = { w with targets := w'.targets }.request (.startClone c) := by
  unfold createClone at h
  split at h
  · cases h
  next hlimit =>
  split at h
  · cases h
  next t ht =>
  split at h
  · cases h
  next hstage =>
  cases h
  exact ⟨t, ht, by simpa using hstage, Nat.lt_of_not_le hlimit, rfl, rfl⟩

lemma deleteClone_eq (ht : w.targets.get? self = some t) (hclone : t.isClone = true) :
    w.deleteClone self = { w with
      targets := w.targets.remove self
      host := if t.bubble.isSome then w.host.tell (.bubble t.name none) else w.host }.request
        (.killThreadsOf self) := by
  unfold deleteClone
  simp only [ht, hclone, if_true]

/-- Who is no live clone is not deleted. -/
lemma deleteClone_of_not (h : (w.targets.get? self).any (·.isClone) = false) :
    w.deleteClone self = w := by
  unfold deleteClone
  split
  · rfl
  · next t ht =>
    have hnot : t.isClone = false := by simpa [ht] using h
    simp [hnot]

lemma change_deleteClone (w : World) (self : TargetId) :
    ∃ rs, Change self w rs (w.deleteClone self) := by
  cases hclone : (w.targets.get? self).any (·.isClone) with
  | false => exact ⟨[], by rw [deleteClone_of_not hclone]; exact .nothing rfl rfl⟩
  | true =>
    cases ht : w.targets.get? self with
    | none => simp [ht] at hclone
    | some t => exact ⟨_, .delete ht (by simpa [ht] using hclone)⟩

lemma Change.length_le (h : Change self w rs w') : rs.length ≤ 1 := by
  cases h with
  | keep hone => exact hone
  | create | delete => exact Nat.le_refl 1

lemma Change.makes (h : Change self w rs w') : Makes rs w w' := by
  cases h with
  | keep _ _ hr ht => exact .inPlace hr ht
  | @create source c _ h =>
    obtain ⟨t, -, -, -, hins, hw'⟩ := createClone_eq_some h
    have htargets : w'.targets = (w.targets.insert (t.clone (t.cloneOf.getD source))).2 := by rw [hins]
    refine ⟨by rw [hw']; rfl, by simp, fun htidy => ?_, fun htidy id o ho => Or.inl ?_⟩
    · rw [htargets]
      exact htidy.insert _
    · obtain ⟨x, hx, rfl⟩ := Option.map_eq_some_iff.1 ho
      rw [htargets]
      exact Option.map_eq_some_iff.2 ⟨x, htidy.get?_insert hx _, rfl⟩
  | delete ht hclone =>
    rw [deleteClone_eq ht hclone]
    refine ⟨rfl, by simp, fun htidy => htidy.remove self, fun _ id o ho => ?_⟩
    by_cases hsame : id = self
    · exact Or.inr (by simp [hsame])
    · refine Or.inl ?_
      simp only [Arena.origin?, request, Arena.get?_remove, if_neg hsame]
      exact ho

end

end World

/-- The script that asks for it is over. -/
def Request.isFinal : Request → Bool
  | .stopAll | .killThreadsOf _ => true
  | _ => false

/-! ### Natives -/

namespace Native

/-- A native asks for one thing at most, and if that is final, the script is over. -/
lemma change_run (n : Native) (m : Machine) (w : World) (a b : Value) :
    ∃ rs, World.Change m.target w rs (n.run m w a b).world ∧ ((∃ r ∈ rs, r.isFinal = true) →
      (n.run m w a b).machine.status = .finished ∧ (n.run m w a b).pause = .go) := by
  have hquiet : ∀ {w' : World}, w'.requests = w.requests → w'.troupe = w.troupe →
      ∃ rs, World.Change m.target w rs w' ∧ ((∃ r ∈ rs, r.isFinal = true) →
        (n.run m w a b).machine.status = .finished ∧ (n.run m w a b).pause = .go) :=
    fun hr ht => ⟨[], .nothing hr ht, by simp⟩
  have hasks : ∀ {w' : World} (r : Request), (∀ c, r ≠ .startClone c) → r.isFinal = false →
      w'.requests = w.requests ++ [r] → w'.troupe = w.troupe →
      ∃ rs, World.Change m.target w rs w' ∧ ((∃ r ∈ rs, r.isFinal = true) →
        (n.run m w a b).machine.status = .finished ∧ (n.run m w a b).pause = .go) :=
    fun r hr hfinal hrs ht => ⟨[r], .keep (Nat.le_refl 1) (by simpa [eq_comm] using hr) hrs ht,
      by simp [hfinal]⟩
  cases n
  case control c => cases c <;> exact hquiet rfl rfl
  case wait =>
    simp only [run] at hquiet ⊢
    split <;> exact ⟨[], .nothing rfl rfl, by simp⟩
  case stopAll =>
    exact ⟨[.stopAll], .keep (Nat.le_refl 1) (by simp) rfl rfl, fun _ => ⟨rfl, rfl⟩⟩
  case stopOtherScripts =>
    exact hasks (.stopOthers m.target w.currentThread) (by simp) rfl rfl rfl
  case broadcast => exact hasks (.broadcast a.toText none) (by simp) rfl rfl rfl
  case broadcastAndWait =>
    exact hasks (.broadcast a.toText (some w.promises.make.1)) (by simp) rfl rfl rfl
  case createClone =>
    simp only [run]
    split
    · next id _ =>
      cases hclone : (w.createClone id).1 with
      | none =>
        have hsame := World.createClone_of_none hclone
        exact ⟨[], .nothing (congrArg World.requests hsame) (congrArg World.troupe hsame), by simp⟩
      | some c => exact ⟨[.startClone c], .create (Prod.ext hclone rfl), by simp [Request.isFinal]⟩
    · exact ⟨[], .nothing rfl rfl, by simp⟩
  case deleteClone =>
    simp only [run]
    split
    · obtain ⟨rs, hchange⟩ := w.change_deleteClone m.target
      exact ⟨rs, hchange, fun _ => ⟨rfl, rfl⟩⟩
    · exact ⟨[], .nothing rfl rfl, by simp⟩
  case ask =>
    exact hquiet (congrArg Mail.requests (World.mail_ask _ _ _ _)) (World.troupe_ask _ _ _ _)
  case bubble kind =>
    exact hquiet (congrArg Mail.requests (w.mail_setBubble _ _ _)) (w.troupe_setBubble _ _ _)
  case startBubble kind =>
    exact hquiet (congrArg Mail.requests (w.mail_setBubble _ _ _)) (w.troupe_setBubble _ _ _)
  case clearBubble =>
    exact hquiet (congrArg Mail.requests (w.mail_setBubble _ _ _)) (w.troupe_setBubble _ _ _)
  case setVisible v =>
    refine hquiet rfl (w.troupe_modifyTarget m.target fun t => ?_)
    split <;> rfl
  case motion f =>
    refine hquiet rfl (w.troupe_modifyTarget m.target fun t => ?_)
    split
    · rfl
    · cases f <;> simp only [move, Target.point] <;> first | rfl | (split <;> rfl)
  all_goals exact hquiet rfl rfl

end Native

/-! ### Instructions -/

namespace Machine

lemma troupe_stepList (m : Machine) (w : World) (op : ListOp) (i : Nat) :
    (m.stepList w op i).2.troupe = w.troupe := by
  have hplace : ∀ (m : Machine) index extra all, (m.place w i index extra all).2.troupe = w.troupe := by
    intro m index extra all
    simp only [place]
    split <;> rfl
  have hon : ∀ (m : Machine) (w : World) f, (m.onList w i f).troupe = w.troupe := by
    intro m w f
    unfold onList
    split
    · exact w.troupe_modifyTarget _ fun _ => rfl
    · rfl
  cases op <;> simp only [stepList] <;> repeat' split
  all_goals simp only [hon, hplace]

/-- Nothing but natives makes or deletes a clone. -/
lemma troupe_execute {op : Opcode} (hop : op ≠ .exec) (p : Program) (code : Code) (a operand : Nat)
    (m : Machine) (w : World) : (execute p code a op operand m w).2.troupe = w.troupe := by
  cases op
  case exec => exact absurd rfl hop
  case list f => exact troupe_stepList m w f operand
  case var f =>
    cases f <;> simp only [execute, stepVariable] <;> repeat' split
    all_goals first
      | rfl
      | exact w.troupe_modifyTarget _ fun _ => rfl
  all_goals
    simp only [execute]
    repeat' split
  all_goals rfl

/-- A machine that is finished by a native stays so. -/
lemma finished_resume (a pops : Nat) {r : Native.Reply} (w : World)
    (h : r.machine.status = .finished ∧ r.pause = .go) :
    ((resume a pops r).awaitPromise w).status = .finished := by
  obtain ⟨hfin, hgo⟩ := h
  rw [resume_of_ne (by simp [hgo])]
  simp [awaitPromise, hfin, hgo]

lemma change_callNative (m : Machine) (w : World) (n : Native) (a : Nat) :
    ∃ rs, World.Change m.target w rs (m.callNative w n a).2 ∧
      ((∃ r ∈ rs, r.isFinal = true) → (m.callNative w n a).1.status = .finished) := by
  unfold callNative
  split
  · exact ⟨[], .nothing rfl rfl, by simp⟩
  · obtain ⟨rs, hchange, hfinal⟩ :=
      n.change_run m w (((m.stack.take n.arity).reverse)[0]?.getD .empty)
        (((m.stack.take n.arity).reverse)[1]?.getD .empty)
    simp only
    exact ⟨rs, hchange, fun h => finished_resume _ _ _ (hfinal h)⟩

/-- One step, of whatever code. -/
lemma change_step (p : Program) (m : Machine) (w : World) :
    (step p m w).1.target = m.target ∧
      ∃ rs, World.Change m.target w rs (step p m w).2 ∧
        ((∃ r ∈ rs, r.isFinal = true) → (step p m w).1.status = .finished) := by
  refine ⟨congrArg Prod.fst (home_step p m w), ?_⟩
  unfold step
  split
  · exact ⟨[], .nothing rfl rfl, by simp⟩
  next code _ =>
  simp only
  split
  · exact ⟨[], .nothing rfl rfl, by simp⟩
  next op _ =>
  by_cases hop : op = .exec
  · subst hop
    simp only [execute]
    split
    · exact change_callNative { m with address := m.address + 1 + Opcode.exec.operandCount } w _ _
    · exact ⟨[], .nothing rfl rfl, by simp⟩
  · have hmail := (mail_execute hop p code m.address (code.words[m.address + 1]?.getD 0).toNat
      { m with address := m.address + 1 + op.operandCount } w).1
    exact ⟨[], .nothing (congrArg Mail.requests hmail) (troupe_execute hop _ _ _ _ _ w), by simp⟩

/-! ### Slices -/

/-- Nothing is asked for after everything was told to stop. -/
def StopsLast (rs : List Request) : Prop := .stopAll ∉ rs.dropLast

lemma stopsLast_nil : StopsLast [] := List.not_mem_nil

lemma StopsLast.tail {r : Request} {rs : List Request} (h : StopsLast (r :: rs)) : StopsLast rs := by
  cases rs with
  | nil => exact stopsLast_nil
  | cons r' rs =>
    intro hmem
    exact h (List.mem_cons_of_mem r hmem)

lemma StopsLast.eq_nil {rs : List Request} (h : StopsLast (.stopAll :: rs)) : rs = [] := by
  cases rs with
  | nil => rfl
  | cons r rs => exact (h List.mem_cons_self).elim

/-- What a machine on `self` does about clones on its way; after a final request it does nothing. -/
inductive Changes (self : TargetId) (w : World) : List Request → World → Prop
  | refl : Changes self w [] w
  | step {rs rs' : List Request} {w' w'' : World} (h : Changes self w rs w')
      (hgo : ∀ r ∈ rs, r.isFinal = false) (k : World.Change self w' rs' w'') :
      Changes self w (rs ++ rs') w''

section

variable {self : TargetId} {rs rs' : List Request} {w w' w'' : World}

lemma Changes.makes (h : Changes self w rs w') : World.Makes rs w w' := by
  induction h with
  | refl => exact .refl w
  | step _ _ k ih => exact ih.trans k.makes

lemma Changes.stopsLast (h : Changes self w rs w') : StopsLast rs := by
  cases h with
  | refl => exact stopsLast_nil
  | @step rs rs' _ _ _ hgo k =>
    have hlast : (rs ++ rs').dropLast ⊆ rs := by
      rcases Nat.le_one_iff_eq_zero_or_eq_one.1 k.length_le with hnone | hone
      · rw [List.length_eq_zero_iff.1 hnone, List.append_nil]
        exact List.dropLast_subset rs
      · obtain ⟨r, hr⟩ := List.length_eq_one_iff.1 hone
        rw [hr, List.dropLast_concat]
        exact List.Subset.refl rs
    intro hmem
    cases hgo _ (hlast hmem)

lemma Changes.after (h : Changes self w' rs w'') (hr : w'.requests = w.requests)
    (ht : w'.troupe = w.troupe) : Changes self w rs w'' := by
  induction h with
  | refl => exact Changes.refl.step (by simp) (.nothing hr ht)
  | step _ hgo k ih => exact ih.step hgo k

end

/-- What a machine leaves behind on its way. -/
lemma changes_runs {p : Program} {x y : Machine × World} (h : Runs p x y) :
    y.1.target = x.1.target ∧ ∃ rs, Changes x.1.target x.2 rs y.2 ∧
      ((∃ r ∈ rs, r.isFinal = true) → y.1.status = .finished) := by
  induction h with
  | refl => exact ⟨rfl, [], .refl, by simp⟩
  | @tail y z _ hs ih =>
    obtain ⟨hrun, rfl⟩ := hs
    obtain ⟨htarget, rs, hchanges, hfinal⟩ := ih
    obtain ⟨hstep, rs', hchange, hfinal'⟩ := change_step p y.1 y.2
    -- a machine that goes on has asked for nothing final
    have hgo : ∀ r ∈ rs, r.isFinal = false := by
      intro r hr
      by_contra hnot
      rw [hfinal ⟨r, hr, by simpa using hnot⟩] at hrun
      cases hrun
    rw [htarget] at hchange
    refine ⟨hstep.trans htarget, rs ++ rs', hchanges.step hgo hchange, ?_⟩
    rintro ⟨r, hr, hlast⟩
    refine hfinal' ⟨r, (List.mem_append.1 hr).resolve_left fun hr => ?_, hlast⟩
    rw [hgo r hr] at hlast
    cases hlast

lemma changes_run (fuel : Nat) (p : Program) (m : Machine) (w : World) :
    (m.run fuel p w).1.target = m.target ∧ ∃ rs, Changes m.target w rs (m.run fuel p w).2 := by
  unfold run
  split
  · obtain ⟨htarget, rs, hchanges, -⟩ := changes_runs (runs_steps p fuel m.wake w)
    refine ⟨Eq.trans ?_ htarget, rs, hchanges⟩
    simp only [giveUp]
    split <;> rfl
  · exact ⟨rfl, [], .refl⟩

lemma makes_slices (fuel : Nat) (p : Program) (passes : Nat) (m : Machine) (w : World) :
    (Thread.slices fuel p passes m w).1.target = m.target ∧
      ∃ rs, World.Makes rs w (Thread.slices fuel p passes m w).2 := by
  induction passes generalizing m w with
  | zero => exact ⟨rfl, [], .refl w⟩
  | succ passes ih =>
    obtain ⟨htarget, rs, hchanges⟩ := changes_run fuel p m w
    simp only [Thread.slices]
    split
    · obtain ⟨htarget', rs', hmakes'⟩ := ih (m.run fuel p w).1 (m.run fuel p w).2
      exact ⟨htarget'.trans htarget, rs ++ rs', hchanges.makes.trans hmakes'⟩
    · exact ⟨htarget, rs, hchanges.makes⟩

end Machine

namespace Thread

/-- What a slice asks for, when nothing else is left to do. -/
lemma changes_run (fuel : Nat) (t : Thread) {w : World} (hidle : w.requests = []) :
    (t.run fuel w).1.target = t.target ∧
      Machine.Changes t.target w (t.run fuel w).2.requests (t.run fuel w).2 := by
  obtain ⟨htarget, rs, hchanges⟩ := Machine.changes_run fuel t.program t.machine
    { w with currentThread := t.id }
  have hrequests : (t.run fuel w).2.requests = rs := by
    have hall : (t.run fuel w).2.requests = w.requests ++ rs := hchanges.makes.requests
    rw [hall, hidle, List.nil_append]
  rw [hrequests]
  exact ⟨htarget, hchanges.after rfl rfl⟩

lemma makes_runPredicate (fuel : Nat) (t : Thread) (w : World) :
    ∃ rs, World.Makes rs w (t.runPredicate fuel w).2.2 := by
  unfold runPredicate
  split
  · exact ⟨[], .refl w⟩
  · obtain ⟨-, rs, hmakes⟩ := Machine.makes_slices fuel t.program maxPasses
      (t.machine.reset .predicate) { w with currentThread := t.id }
    exact ⟨rs, hmakes.requests, hmakes.still, hmakes.tidy, hmakes.lives⟩

/-- Evaluating a condition, the thread stays on its script and its target. -/
lemma stays_runPredicate (fuel : Nat) (t : Thread) (w : World) :
    (t.runPredicate fuel w).2.1.program = t.program ∧ (t.runPredicate fuel w).2.1.target = t.target := by
  unfold runPredicate
  split
  · exact ⟨rfl, rfl⟩
  · refine ⟨rfl, Eq.trans ?_ (Machine.makes_slices fuel t.program maxPasses (t.machine.reset .predicate)
      { w with currentThread := t.id }).1⟩
    simp only [evaluate, target]
    split <;> rfl

end Thread

end Blockwork
