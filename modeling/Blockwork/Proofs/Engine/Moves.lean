import Blockwork.Engine.Frame
import Blockwork.Proofs.World.Mail
import Mathlib.Data.List.Basic
import Mathlib.Logic.Relation
import Mathlib.Tactic.Set

/-!
The engine as a system of small moves. Whatever the engine is told to do, it does by starting, running
and killing threads one at a time, by taking requests one at a time, and by looking after promises and
conditions. A frame, a stop or a broadcast is a row of such moves, and what every move keeps they keep.

While requests are being done, those still to do are kept apart from the world, which has none then.
-/

namespace Blockwork

namespace Engine

/-! ### Moves -/

/-- A script is started on a target, anew or over again. -/
inductive Start : Engine → Engine → Prop
  | spawn {e : Engine} {index : Nat} {s : Script} (hs : e.scripts[index]? = some s)
      (target : TargetId) : Start e (e.spawn index s target)
  | restart {e : Engine} {xs ys : List Thread} {t : Thread} (ht : e.threads = xs ++ t :: ys)
      (hf : t.isFinished = false) :
      Start e { e with
        world := (t.restart e.world).2
        threads := xs ++ (t.restart e.world).1 :: ys }

/-- One move of an engine with requests to do. -/
inductive Move : List Request × Engine → List Request × Engine → Prop
  | start {rs : List Request} {e e' : Engine} (h : Start e e') : Move (rs, e) (rs, e')
  /-- Neither questions nor promises are touched. -/
  | calm {rs : List Request} {e : Engine} {w : World} (hq : w.questions = e.world.questions)
      (hp : w.promises = e.world.promises) (hr : w.requests = [])
      (hc : e.world.targets.Covers w.targets) : Move (rs, e) (rs, { e with world := w })
  | kill {rs : List Request} {e : Engine} {xs ys : List Thread} {t : Thread}
      (ht : e.threads = xs ++ t :: ys) :
      Move (rs, e) (rs, { e with
        world := (t.kill e.world).2
        threads := xs ++ (t.kill e.world).1 :: ys })
  /-- When all threads are finished, they and all waits are dropped. -/
  | clear {rs : List Request} {e : Engine} (hf : ∀ t ∈ e.threads, t.isFinished = true) :
      Move (rs, e) (rs, { e with
        world := { e.world with
          promises := e.waits.foldl (fun ps b => ps.cancel b.promise) e.world.promises }
        threads := []
        waits := [] })
  /-- A thread has its slice, and its requests are to do then. -/
  | run {e : Engine} {xs ys : List Thread} {t : Thread} (fuel : Nat)
      (ht : e.threads = xs ++ t :: ys) (hf : t.isFinished = false)
      (hrun : (t.run fuel e.world).1.machine.isFaulted = false) :
      Move ([], e) ((t.run fuel e.world).2.requests, { e with
        world := { (t.run fuel e.world).2 with requests := [] }
        threads := xs ++ (t.run fuel e.world).1 :: ys })
  /-- What is left in the world is to do. -/
  | collect {e : Engine} :
      Move ([], e) (e.world.requests, { e with world := { e.world with requests := [] } })
  /-- Something is asked for from outside. -/
  | told {rs : List Request} {e : Engine} {r : Request} (hr : r.promise? = none) :
      Move (rs, e) (rs ++ [r], e)
  | served {r : Request} {rs : List Request} {e : Engine} (hr : r.promise? = none) :
      Move (r :: rs, e) (rs, e)
  | posted {name : String} {p : Promise} {rs : List Request} {e : Engine}
      (receivers : List ThreadId) :
      Move (.broadcast name (some p) :: rs, e) (rs, { e with waits := e.waits ++ [⟨p, receivers⟩] })
  | resolve {rs : List Request} {e : Engine} : Move (rs, e) (rs, e.resolveWaits)
  | sweep {rs : List Request} {e : Engine} :
      Move (rs, e) (rs, { e with threads := e.threads.filter (!·.isFinished) })
  | answer {rs : List Request} {e : Engine} (text : String) :
      Move (rs, e) (rs, e.answerQuestion text)
  /-- Some histories of conditions are dropped. -/
  | forget {rs : List Request} {e : Engine} (edges : List EdgeHat)
      (h : ∀ x ∈ edges, x ∈ e.edges) : Move (rs, e) (rs, { e with edges })
  | watch {rs : List Request} {e : Engine} {index : Nat} {s : Script}
      (hs : e.scripts[index]? = some s) (target : TargetId) :
      Move (rs, e) (rs, (e.edge index s target).2)
  | evaluate {rs : List Request} {e : Engine} {h : EdgeHat} (fuel index : Nat) (target : TargetId)
      (hh : h ∈ e.edges) (hrun : (h.thread.runPredicate fuel e.world).2.1.machine.isFaulted = false) :
      Move (rs, e) (rs, { e with
        world := (h.thread.runPredicate fuel e.world).2.2
        edges := e.edges.map fun g => if isEdgeOf index target g then
          { g with
            value := (h.thread.runPredicate fuel e.world).1
            thread := (h.thread.runPredicate fuel e.world).2.1 } else g })

def Starts : Engine → Engine → Prop := Relation.ReflTransGen Start

def Moves : List Request × Engine → List Request × Engine → Prop := Relation.ReflTransGen Move

lemma Moves.refl (x : List Request × Engine) : Moves x x := Relation.ReflTransGen.refl

lemma Moves.trans {x y z : List Request × Engine} (h : Moves x y) (k : Moves y z) : Moves x z :=
  Relation.ReflTransGen.trans h k

lemma Move.moves {x y : List Request × Engine} (h : Move x y) : Moves x y :=
  Relation.ReflTransGen.single h

lemma Starts.moves {e e' : Engine} (h : Starts e e') (rs : List Request) :
    Moves (rs, e) (rs, e') := by
  induction h with
  | refl => exact .refl _
  | tail _ hs ih => exact ih.trans (Move.start hs).moves

lemma Starts.trans {e e' e'' : Engine} (h : Starts e e') (k : Starts e' e'') : Starts e e'' :=
  Relation.ReflTransGen.trans h k

/-- No move changes the scripts or notes a fault. -/
lemma Move.frame {x y : List Request × Engine} (h : Move x y) :
    y.2.scripts = x.2.scripts ∧ y.2.fault = x.2.fault ∧ y.2.palette = x.2.palette := by
  cases h with
  | start hs => cases hs <;> exact ⟨rfl, rfl, rfl⟩
  | watch hs target =>
    simp only [edge]
    split <;> exact ⟨rfl, rfl, rfl⟩
  | _ => exact ⟨rfl, rfl, rfl⟩

lemma Moves.frame {x y : List Request × Engine} (h : Moves x y) :
    y.2.scripts = x.2.scripts ∧ y.2.fault = x.2.fault ∧ y.2.palette = x.2.palette := by
  induction h with
  | refl => exact ⟨rfl, rfl, rfl⟩
  | tail _ hm ih =>
    obtain ⟨h1, h2, h3⟩ := hm.frame
    exact ⟨h1.trans ih.1, h2.trans ih.2.1, h3.trans ih.2.2⟩

lemma Starts.scripts {e e' : Engine} (h : Starts e e') : e'.scripts = e.scripts :=
  (h.moves []).frame.1

/-! ### Starting scripts -/

/-- A thread at its position, and others in its place. -/
lemma exists_split {α : Type} {l : List α} {i : Nat} {a : α} (h : l[i]? = some a) :
    ∃ xs ys, l = xs ++ a :: ys ∧ ∀ b, l.set i b = xs ++ b :: ys := by
  obtain ⟨hi, hget⟩ := List.getElem?_eq_some_iff.1 h
  refine ⟨l.take i, l.drop (i + 1), ?_, fun b => ?_⟩
  · rw [← hget, ← List.drop_eq_getElem_cons, List.take_append_drop]
  · rw [List.set_eq_take_append_cons_drop, if_pos hi]

/-- A script that is running on the target already starts over or is left alone; else it is started. -/
lemma startScript_cases (e : Engine) (index : Nat) (s : Script) (target : TargetId) (restart : Bool) :
    (∃ xs t ys, e.threads = xs ++ t :: ys ∧ isThreadOf index target t = true ∧
      e.startScript index s target restart = if restart then
        (some t.id, { e with
          world := (t.restart e.world).2
          threads := xs ++ (t.restart e.world).1 :: ys }) else (none, e)) ∨
    (∀ t ∈ e.threads, isThreadOf index target t = false) ∧
      e.startScript index s target restart = (some e.nextThread, e.spawn index s target) := by
  unfold startScript
  split
  · next t ht =>
    obtain ⟨xs, ys, hsplit, hset⟩ := exists_split (List.find?_eq_getElem?_findIdx.symm.trans ht)
    refine Or.inl ⟨xs, t, ys, hsplit, List.find?_some ht, ?_⟩
    split
    · simp only [hset]
    · rfl
  · next hnone =>
    refine Or.inr ⟨fun t ht => ?_, rfl⟩
    simpa using List.find?_eq_none.1 hnone t ht

lemma not_isFinished_of_isThreadOf {index : Nat} {target : TargetId} {t : Thread}
    (h : isThreadOf index target t = true) : t.isFinished = false := by
  simp only [isThreadOf, Bool.and_eq_true, Bool.not_eq_true'] at h
  exact h.1.1

lemma starts_startScript {e : Engine} {index : Nat} {s : Script} (hs : e.scripts[index]? = some s)
    (target : TargetId) (restart : Bool) : Starts e (e.startScript index s target restart).2 := by
  rcases startScript_cases e index s target restart with ⟨xs, t, ys, hsplit, ht, heq⟩ | ⟨-, heq⟩
  · rw [heq]
    split
    · exact Relation.ReflTransGen.single (.restart hsplit (not_isFinished_of_isThreadOf ht))
    · exact Relation.ReflTransGen.refl
  · rw [heq]
    exact Relation.ReflTransGen.single (.spawn hs target)

lemma starts_startOn {index : Nat} {s : Script} (restart : Bool) (targets : List TargetId) {e : Engine}
    (hs : e.scripts[index]? = some s) : Starts e (startOn index s restart targets e).2 := by
  induction targets generalizing e with
  | nil => exact Relation.ReflTransGen.refl
  | cons target rest ih =>
    have hstart := starts_startScript hs target restart
    exact hstart.trans (ih (hstart.scripts ▸ hs))

lemma starts_startAmong (p : Hat → Bool) (only : Option TargetId) (restart : Bool)
    {among : List (Script × Nat)} {e : Engine} (hs : ∀ x ∈ among, e.scripts[x.2]? = some x.1) :
    Starts e (startAmong p only restart among e).2 := by
  induction among generalizing e with
  | nil => exact Relation.ReflTransGen.refl
  | cons x rest ih =>
    obtain ⟨s, index⟩ := x
    simp only [startAmong]
    split
    · have hstart := starts_startOn restart
        ((e.family s.target).filter fun id => only.all (· == id)) (hs (s, index) (by simp))
      refine hstart.trans (ih fun x hx => ?_)
      rw [hstart.scripts]
      exact hs x (by simp [hx])
    · exact ih fun x hx => hs x (by simp [hx])

lemma scripts_zipIdx {e : Engine} {x : Script × Nat} (h : x ∈ e.scripts.zipIdx) :
    e.scripts[x.2]? = some x.1 := by
  obtain ⟨s, i⟩ := x
  exact List.mk_mem_zipIdx_iff_getElem?.1 h

lemma starts_startHats (e : Engine) (p : Hat → Bool) (only : Option TargetId) (restart : Bool) :
    Starts e (e.startHats p only restart).2 :=
  starts_startAmong p only restart fun _ hx => scripts_zipIdx hx

/-! ### Stopping -/

lemma moves_killThreads (p : Thread → Bool) (rs : List Request) (e : Engine) (xs ts : List Thread)
    (w : World) : Moves (rs, { e with world := w, threads := xs ++ ts })
      (rs, { e with world := (killThreads p ts w).2, threads := xs ++ (killThreads p ts w).1 }) := by
  induction ts generalizing xs w with
  | nil => exact .refl _
  | cons t ts ih =>
    by_cases hp : p t = true
    · have hkill : Moves (rs, { e with world := w, threads := xs ++ t :: ts })
          (rs, { e with world := (t.kill w).2, threads := xs ++ (t.kill w).1 :: ts }) :=
        (Move.kill (e := { e with world := w, threads := xs ++ t :: ts }) rfl).moves
      have hrest := ih (xs ++ [(t.kill w).1]) (t.kill w).2
      simp only [List.append_assoc, List.singleton_append] at hrest
      simp only [killThreads, hp, if_true]
      exact hkill.trans hrest
    · have hrest := ih (xs ++ [t]) w
      simp only [List.append_assoc, List.singleton_append] at hrest
      simp only [killThreads, hp, if_false, Bool.false_eq_true]
      exact hrest

lemma isFinished_killThreads (ts : List Thread) (w : World) :
    ∀ t ∈ (killThreads (fun _ => true) ts w).1, t.isFinished = true := by
  induction ts generalizing w with
  | nil => simp [killThreads]
  | cons t ts ih =>
    intro x hx
    rcases List.mem_cons.1 hx with rfl | hx
    · rfl
    · exact ih _ x hx

lemma calm_deleteClones (ids : List TargetId) (w : World) :
    (ids.foldl World.deleteClone w).questions = w.questions ∧
      (ids.foldl World.deleteClone w).promises = w.promises ∧
      w.targets.Covers (ids.foldl World.deleteClone w).targets := by
  induction ids generalizing w with
  | nil => exact ⟨rfl, rfl, .refl _⟩
  | cons id ids ih =>
    obtain ⟨h1, h2, h3⟩ := ih (w.deleteClone id)
    refine ⟨h1.trans ?_, h2.trans ?_, (w.covers_deleteClone id).trans h3⟩
    · rcases w.mail_deleteClone id with h | h <;> exact congrArg Mail.questions h
    · rcases w.mail_deleteClone id with h | h <;> exact congrArg Mail.promises h

lemma calm_clearBubbles (w : World) : (clearBubbles w).mail = w.mail ∧
    w.targets.Covers (clearBubbles w).targets := by
  unfold clearBubbles
  generalize w.targets.ids = ids
  induction ids generalizing w with
  | nil => exact ⟨rfl, .refl _⟩
  | cons id ids ih =>
    rw [List.foldl_cons]
    split
    · obtain ⟨h1, h2⟩ := ih (w.setBubble id .say "")
      exact ⟨h1.trans (w.mail_setBubble id .say ""), (w.covers_setBubble id .say "").trans h2⟩
    · exact ih w

lemma moves_stop (rs : List Request) (e : Engine) : Moves (rs, e) (rs, e.stop) := by
  have hkill := moves_killThreads (fun _ => true) rs e [] e.threads e.world
  have hfinished := isFinished_killThreads e.threads e.world
  have hstop : ∃ w ts, killThreads (fun _ => true) e.threads e.world = (ts, w) := ⟨_, _, rfl⟩
  obtain ⟨w, ts, hw⟩ := hstop
  simp only [hw, List.nil_append] at hkill hfinished
  let promises := e.waits.foldl (fun ps b => ps.cancel b.promise) w.promises
  let cleared : World := { w with promises }
  obtain ⟨hq, hp, hc⟩ := calm_deleteClones cleared.targets.ids cleared
  obtain ⟨hmail, hc'⟩ := calm_clearBubbles (deleteClones cleared)
  have hclear : Move (rs, { e with world := w, threads := ts })
      (rs, { e with world := cleared, threads := [], waits := [] }) := .clear hfinished
  have hcalm : Move (rs, { e with world := cleared, threads := [], waits := [] })
      (rs, { e with
        world := { clearBubbles (deleteClones cleared) with requests := [] }
        threads := []
        waits := [] }) :=
    .calm ((congrArg Mail.questions hmail).trans hq) ((congrArg Mail.promises hmail).trans hp) rfl
      (hc.trans hc')
  have hforget : Move (rs, { e with
        world := { clearBubbles (deleteClones cleared) with requests := [] }
        threads := []
        waits := [] }) (rs, e.stop) := by
    unfold stop
    rw [hw]
    exact .forget _ fun x hx => (List.mem_filter.1 hx).1
  exact hkill.trans (hclear.moves.trans (hcalm.moves.trans hforget.moves))

/-! ### Requests -/

lemma moves_handle (r : Request) (rs : List Request) (e : Engine) :
    Moves (r :: rs, e) (rs, e.handle r) := by
  cases r with
  | broadcast name promise =>
    have hstart := (e.starts_startHats (· == .broadcast (Text.lowercase name)) none true).moves
      (.broadcast name promise :: rs)
    simp only [handle]
    cases promise with
    | none => exact hstart.trans (Move.served rfl).moves
    | some p => exact hstart.trans (Move.posted _).moves
  | startClone clone =>
    exact ((e.starts_startHats (· == .cloneStart) (some clone) false).moves _).trans
      (Move.served rfl).moves
  | killThreadsOf target =>
    have hkill := moves_killThreads (·.target == target) (.killThreadsOf target :: rs) e [] e.threads
      e.world
    refine hkill.trans ((Move.forget (e.edges.filter (·.target != target)) ?_).moves.trans
      (Move.served rfl).moves)
    exact fun x hx => (List.mem_filter.1 hx).1
  | stopAll => exact (moves_stop _ e).trans (Move.served rfl).moves
  | stopOthers target except =>
    exact (moves_killThreads (fun t => t.target == target && t.id != except)
      (.stopOthers target except :: rs) e [] e.threads e.world).trans (Move.served rfl).moves

lemma moves_foldl_handle (rs : List Request) (e : Engine) : Moves (rs, e) ([], rs.foldl handle e) := by
  induction rs generalizing e with
  | nil => exact .refl _
  | cons r rs ih => exact (moves_handle r rs e).trans (ih _)

/-! ### Faults -/

/-- Some slice to come in this state ends with a fault. -/
inductive Fails (fuel : Nat) (e : Engine) (f : Machine.Fault) : Prop
  | thread (t : Thread) (mem : t ∈ e.threads)
      (status : (t.run fuel e.world).1.machine.status = .faulted f)
  | condition (h : EdgeHat) (mem : h ∈ e.edges)
      (status : (h.thread.runPredicate fuel e.world).2.1.machine.status = .faulted f)

/-- Something that is done by moves, unless a fault stops it. -/
inductive Goes (fuel : Nat) (e e' : Engine) : Prop
  | on (moves : Moves ([], e) ([], e'))
  | overrun (fault : e'.fault = some .overrun)
  | fails (f : Machine.Fault) (mid : Engine) (moves : Moves ([], e) ([], mid))
      (cause : mid.Fails fuel f) (fault : e'.fault = some f)

lemma Goes.trans {fuel : Nat} {e e' e'' : Engine} (h : Moves ([], e) ([], e'))
    (k : Goes fuel e' e'') : Goes fuel e e'' := by
  cases k with
  | on moves => exact .on (h.trans moves)
  | overrun fault => exact .overrun fault
  | fails f mid moves cause fault => exact .fails f mid (h.trans moves) cause fault

/-- Without a fault it was done by moves. -/
lemma Goes.moves {fuel : Nat} {e e' : Engine} (h : Goes fuel e e') (hf : e'.fault = none) :
    Moves ([], e) ([], e') := by
  cases h with
  | on moves => exact moves
  | overrun fault | fails _ _ _ _ fault =>
    rw [hf] at fault
    cases fault

lemma noteFault_eq {e : Engine} {m : Machine} (h : m.isFaulted = false) : e.noteFault m = e := by
  unfold noteFault
  split
  · next hf => simp [Machine.isFaulted, hf] at h
  · rfl

lemma fault_noteFault {e : Engine} {m : Machine} {f : Machine.Fault} (h : m.status = .faulted f) :
    (e.noteFault m).fault = some f := by
  simp [noteFault, h]

lemma exists_fault {m : Machine} (h : m.isFaulted = true) : ∃ f, m.status = .faulted f := by
  cases hs : m.status <;> simp_all [Machine.isFaulted]

/-- What does nothing after a fault does nothing any number of times. -/
lemma foldl_of_fault {α : Type} {f : Engine → α → Engine}
    (hstay : ∀ e x, e.fault.isSome = true → f e x = e) (xs : List α) {e : Engine}
    (hsome : e.fault.isSome = true) : xs.foldl f e = e := by
  induction xs with
  | nil => rfl
  | cons x xs ih => rw [List.foldl_cons, hstay e x hsome, ih]

/-- Without a fault at the end there was none before. -/
lemma fault_of_foldl {α : Type} {f : Engine → α → Engine}
    (hstay : ∀ e x, e.fault.isSome = true → f e x = e) {xs : List α} {e : Engine}
    (hnone : (xs.foldl f e).fault = none) : e.fault = none := by
  by_contra hsome
  rw [← ne_eq, ← Option.isSome_iff_ne_none] at hsome
  rw [foldl_of_fault hstay xs hsome] at hnone
  simp [hnone] at hsome

/-- A row of things that stops at a fault. -/
lemma goes_foldl {fuel : Nat} {α : Type} {f : Engine → α → Engine} {xs : List α} {e : Engine}
    (he : e.fault = none) (hstay : ∀ e x, e.fault.isSome = true → f e x = e)
    (hf : ∀ x ∈ xs, ∀ e', e'.fault = none → e'.scripts = e.scripts → Goes fuel e' (f e' x)) :
    Goes fuel e (xs.foldl f e) := by
  induction xs generalizing e with
  | nil => exact .on (.refl _)
  | cons x xs ih =>
    rw [List.foldl_cons]
    cases hf x (by simp) e he rfl with
    | on moves =>
      refine .trans moves (ih (moves.frame.2.1.trans he) fun y hy e' he' hs => ?_)
      exact hf y (by simp [hy]) e' he' (hs.trans moves.frame.1)
    | overrun fault =>
      rw [foldl_of_fault hstay xs (by simp [fault])]
      exact .overrun fault
    | fails f mid moves cause fault =>
      rw [foldl_of_fault hstay xs (by simp [fault])]
      exact .fails f mid moves cause fault

/-! ### Conditions -/

lemma edge_mem (e : Engine) (index : Nat) (s : Script) (target : TargetId) :
    (e.edge index s target).1 ∈ (e.edge index s target).2.edges := by
  unfold edge
  split
  · next h hh => exact List.mem_of_find?_eq_some hh
  · simp

lemma moves_evaluateEdge {e : Engine} {index : Nat} {s : Script} (he : e.fault = none)
    (hs : e.scripts[index]? = some s) (fuel : Nat) (target : TargetId)
    (hrun : ((e.edge index s target).1.thread.runPredicate fuel
      (e.edge index s target).2.world).2.1.machine.isFaulted = false) :
    Moves ([], e) ([], evaluateEdge fuel index s e target) := by
  have hwatch : Moves ([], e) ([], (e.edge index s target).2) := (Move.watch hs target).moves
  have hmem := edge_mem e index s target
  simp only [evaluateEdge, he, Option.isSome_none, Bool.false_eq_true, if_false]
  generalize (e.edge index s target).2 = e' at hrun hwatch hmem ⊢
  generalize (e.edge index s target).1 = h at hrun hmem ⊢
  set x := h.thread.runPredicate fuel e'.world with hx
  have hscripts : e'.scripts[index]? = some s := hwatch.frame.1 ▸ hs
  rw [noteFault_eq hrun]
  refine hwatch.trans ((Move.evaluate fuel index target hmem hrun).moves.trans ?_)
  split
  · exact (starts_startScript (e := { e' with world := x.2.2, edges := _ }) hscripts target
      false).moves []
  · exact .refl _

lemma goes_evaluateEdge {e : Engine} {index : Nat} {s : Script} (he : e.fault = none)
    (hs : e.scripts[index]? = some s) (fuel : Nat) (target : TargetId) :
    Goes fuel e (evaluateEdge fuel index s e target) := by
  cases hrun : ((e.edge index s target).1.thread.runPredicate fuel
      (e.edge index s target).2.world).2.1.machine.isFaulted with
  | false => exact .on (moves_evaluateEdge he hs fuel target hrun)
  | true =>
    obtain ⟨f, hf⟩ := exists_fault hrun
    refine .fails f _ (Move.watch hs target).moves (.condition _ (edge_mem e index s target) hf) ?_
    simp only [evaluateEdge, he, Option.isSome_none, Bool.false_eq_true, if_false]
    have hnoted : ∀ e' : Engine, (e'.noteFault ((e.edge index s target).1.thread.runPredicate fuel
        (e.edge index s target).2.world).2.1.machine).fault = some f := fun _ => fault_noteFault hf
    rw [if_neg (by simp [hnoted])]
    exact hnoted _

lemma evaluateEdge_of_fault {fuel index : Nat} {s : Script} (e : Engine) (target : TargetId)
    (hsome : e.fault.isSome = true) : evaluateEdge fuel index s e target = e := by
  rw [evaluateEdge, if_pos hsome]

lemma goes_evaluateEdges (fuel : Nat) {e : Engine} (he : e.fault = none) :
    Goes fuel e (e.evaluateEdges fuel) := by
  refine goes_foldl he (fun e' x hsome => ?_) (fun x hx e' he' hs' => ?_)
  · simp only
    split
    · exact foldl_of_fault evaluateEdge_of_fault _ hsome
    · rfl
  · simp only
    split
    · refine goes_foldl he' evaluateEdge_of_fault (fun target _ e'' he'' hs'' => ?_)
      exact goes_evaluateEdge he'' ((hs''.trans hs').symm ▸ scripts_zipIdx hx) fuel target
    · exact .on (.refl _)

/-! ### Frames -/

lemma moves_handleRequests (e : Engine) : Moves (e.world.requests,
    { e with world := { e.world with requests := [] } }) ([], e.handleRequests) :=
  moves_foldl_handle _ _

/-- The turn of a thread, with what it asks for. -/
lemma moves_runThread {e : Engine} {i : Nat} {t : Thread} (ht : e.threads[i]? = some t)
    (hfin : t.isFinished = false) (fuel : Nat)
    (hf : (t.run fuel e.world).1.machine.isFaulted = false) :
    Moves ([], e) ([], (e.runThread fuel i t).handleRequests) := by
  obtain ⟨xs, ys, hsplit, hset⟩ := exists_split ht
  have hrun := (Move.run fuel hsplit hfin hf).moves
  unfold runThread
  simp only [noteFault_eq hf, hset]
  exact hrun.trans (moves_handleRequests { e with
    world := (t.run fuel e.world).2
    threads := xs ++ (t.run fuel e.world).1 :: ys })

lemma goes_runThreads (fuel turns i : Nat) {e : Engine} (he : e.fault = none) :
    Goes fuel e (runThreads fuel turns i e) := by
  induction turns generalizing i e with
  | zero => exact .overrun rfl
  | succ turns ih =>
    rw [runThreads]
    split
    · exact .on (.refl _)
    next t ht =>
    cases hfin : t.isFinished with
    | true =>
      have hmoves := Move.collect.moves.trans (moves_handleRequests e)
      simp only [if_true, he, Option.isSome_none, Bool.false_eq_true, if_false]
      exact .trans hmoves (ih _ (hmoves.frame.2.1.trans he))
    | false =>
      simp only [Bool.false_eq_true, if_false]
      cases hfault : (t.run fuel e.world).1.machine.isFaulted with
      | false =>
        have hmoves := moves_runThread ht hfin fuel hfault
        have hnone : (e.runThread fuel i t).fault = none :=
          (congrArg Engine.fault (noteFault_eq hfault)).trans he
        rw [if_neg (by simp [hnone])]
        exact .trans hmoves (ih _ (hmoves.frame.2.1.trans he))
      | true =>
        obtain ⟨f, hf⟩ := exists_fault hfault
        have hnoted : (e.runThread fuel i t).fault = some f := fault_noteFault hf
        rw [if_pos (by simp [hnoted])]
        exact .fails f e (.refl _) (.thread t (List.mem_of_getElem? ht) hf) hnoted

lemma goes_step (fuel : Nat) {e : Engine} (he : e.fault = none) : Goes fuel e (e.step fuel) := by
  unfold step
  rw [if_neg (by simp [he])]
  have hedges := goes_evaluateEdges fuel he
  simp only
  split
  · exact hedges
  next hnone =>
  have hrun := goes_runThreads fuel fuel 0 (e := e.evaluateEdges fuel) (by simpa using hnone)
  have hfirst := hedges.moves (by simpa using hnone)
  split
  · exact .trans hfirst hrun
  next hthreads =>
  exact .on (hfirst.trans ((hrun.moves (by simpa using hthreads)).trans
    (Move.resolve.moves.trans Move.sweep.moves)))

/-! ### What comes from outside -/

lemma moves_broadcast (e : Engine) (name : String) : Moves ([], e) ([], e.broadcast name) :=
  Move.collect.moves.trans ((Move.told (r := .broadcast name none) rfl).moves.trans
    (moves_handleRequests { e with world := e.world.request (.broadcast name none) }))

lemma moves_start (e : Engine) : Moves ([], e) ([], e.start) := by
  have hcalm : Move ([], e.stop) ([], { e.stop with world := e.stop.world.resetTimer }) :=
    .calm rfl rfl rfl (.refl _)
  exact (moves_stop [] e).trans (hcalm.moves.trans ((starts_startHats _ _ _ _).moves []))

lemma moves_keyPressed (e : Engine) (key : String) : Moves ([], e) ([], e.keyPressed key) :=
  (starts_startHats _ _ _ _).moves []

lemma moves_click (e : Engine) (id : TargetId) : Moves ([], e) ([], e.click id) := by
  unfold click
  split
  · exact .refl _
  · exact (starts_startHats _ _ _ _).moves []

end Engine

end Blockwork
