import Blockwork.Proofs.Compile.Targets
import Blockwork.Proofs.Engine.Histories
import Blockwork.Proofs.Engine.Restarts
import Blockwork.Proofs.Machine.Conditions

/-!
Conditions of hats. A frame begins with them: each script is evaluated on each target of its family,
one after another, and a thread is started where the condition has become true. To evaluate a condition
is to make a machine for it the first time, which finds its variables and lists or makes those that are
missing, and to run it to its end, where it reads and draws random numbers. Nothing else comes of it. So
the conditions of a frame do not meet, and for each of them it is enough to know what it was before.

The threads that were started then run like all others, and no request starts a script of this kind.
-/

namespace Blockwork

/-! ### What is made for a machine -/

/-- These are missing in a list, and different from each other. -/
structure Missing {α : Type} (id : α → String) (xs ys : List α) : Prop where
  nodup : (ys.map id).Nodup
  missing : ∀ y ∈ ys, id y ∉ xs.map id

/-- Variables and lists are added that were missing, each once. -/
def Target.Gains (t t' : Target) : Prop :=
  ∃ (vs : List Variable) (ls : List ItemList),
    t' = { t with vars := t.vars ++ vs, lists := t.lists ++ ls } ∧
    Missing (·.id) t.vars vs ∧ Missing (·.id) t.lists ls

/-- For some targets variables or lists were made. -/
def Arena.Gains (a a' : Arena) : Prop := ∀ id, Option.Rel Target.Gains (a.get? id) (a'.get? id)

/-- Between two worlds variables and lists were made, random numbers drawn, and it was noted who
runs. -/
structure World.Watched (w w' : World) : Prop where
  gains : w.targets.Gains w'.targets
  same : w' = { w with
    targets := w'.targets
    currentThread := w'.currentThread
    host := { w.host with draws := w'.host.draws } }

section

variable {α : Type} {id : α → String} {xs ys zs : List α} {x : α}

lemma missing_nil (id : α → String) (xs : List α) : Missing id xs [] := ⟨.nil, nofun⟩

lemma missing_singleton (h : id x ∉ xs.map id) : Missing id xs [x] :=
  ⟨List.nodup_singleton _, fun _ hy => List.mem_singleton.1 hy ▸ h⟩

lemma Missing.append (h : Missing id xs ys) (k : Missing id (xs ++ ys) zs) :
    Missing id xs (ys ++ zs) := by
  have hlater : ∀ z ∈ zs, id z ∉ xs.map id ∧ id z ∉ ys.map id := fun z hz => by
    have hmissing := k.missing z hz
    rwa [List.map_append, List.mem_append, not_or] at hmissing
  refine ⟨?_, fun y hy => ?_⟩
  · rw [List.map_append, List.nodup_append]
    refine ⟨h.nodup, k.nodup, fun a ha b hb hab => ?_⟩
    obtain ⟨z, hz, rfl⟩ := List.mem_map.1 hb
    exact (hlater z hz).2 (hab ▸ ha)
  · exact (List.mem_append.1 hy).elim (h.missing y) fun hz => (hlater y hz).1

end

lemma Target.Gains.refl (t : Target) : t.Gains t :=
  ⟨[], [], by simp, missing_nil _ _, missing_nil _ _⟩

lemma Target.Gains.trans {t t' t'' : Target} (h : t.Gains t') (k : t'.Gains t'') : t.Gains t'' := by
  obtain ⟨vs, ls, rfl, hvs, hls⟩ := h
  obtain ⟨vs', ls', rfl, hvs', hls'⟩ := k
  exact ⟨vs ++ vs', ls ++ ls', by simp, hvs.append hvs', hls.append hls'⟩

namespace Arena

variable {a a' a'' : Arena} {target : TargetId}

lemma Gains.refl (a : Arena) : a.Gains a := by
  intro id
  cases a.get? id with
  | none => exact .none
  | some t => exact .some (.refl t)

lemma Gains.trans (h : a.Gains a') (k : a'.Gains a'') : a.Gains a'' := by
  intro id
  have hfirst := h id
  have hsecond := k id
  cases ht : a.get? id <;> cases ht' : a'.get? id <;> cases ht'' : a''.get? id <;>
    rw [ht, ht'] at hfirst <;> rw [ht', ht''] at hsecond <;>
    cases hfirst <;> cases hsecond
  · exact .none
  · next h k => exact .some (Target.Gains.trans h k)

/-- Looking for something makes it at most for someone who has not got it. -/
lemma gains_resolve {k : Shelf}
    (hk : ∀ (r : Reference) (t : Target), r.id ∉ k.ids t → t.Gains (k.add r t)) (a : Arena)
    (r : Reference) : a.Gains (k.resolve a target r).2 := by
  simp only [Shelf.resolve]
  split
  · exact .refl a
  next hnone =>
  rw [Option.not_isSome_iff_eq_none] at hnone
  intro id
  rw [get?_modify]
  split
  · next hid =>
    subst hid
    cases ht : a.get? (a.newOwner target) with
    | none => exact .none
    | some t =>
      have hlacks := k.position_of_owner hnone (Shelf.newOwner_mem ht) ht
      refine .some (hk r t fun hmem => ?_)
      have hfound := k.isSome_position.2 hmem
      rw [hlacks] at hfound
      cases hfound
  · exact Gains.refl a id

end Arena

lemma Machine.gains_new (p : Program) (target : TargetId) (w : World) :
    w.targets.Gains (Machine.new p target w).2.targets := by
  refine Machine.new_induction (P := w.targets.Gains)
    (fun a r h => h.trans (Arena.gains_resolve (fun r t hmissing => ?_) a r))
    (fun a r h => h.trans (Arena.gains_resolve (fun r t hmissing => ?_) a r)) p (.refl _)
  · exact ⟨[⟨r.id, r.name, .number 0, false⟩], [], by simp [Shelf.vars], missing_singleton hmissing,
      missing_nil _ _⟩
  · exact ⟨[], [.new r.id r.name], by simp [Shelf.lists], missing_nil _ _, missing_singleton hmissing⟩

namespace World

variable {w w' w'' : World}

lemma Watched.refl (w : World) : w.Watched w := ⟨.refl _, rfl⟩

lemma Watched.trans (h : w.Watched w') (k : w'.Watched w'') : w.Watched w'' := by
  refine ⟨h.gains.trans k.gains, ?_⟩
  rw [k.same, h.same]

lemma Draws.watched {id : ThreadId} (h : World.Draws { w with currentThread := id } w') :
    w.Watched w' := by
  obtain ⟨draws, rfl⟩ := h
  exact ⟨.refl _, rfl⟩

lemma watched_new (w : World) (p : Program) (target : TargetId) :
    w.Watched (Machine.new p target w).2 :=
  ⟨Machine.gains_new p target w, by rw [Machine.new_eq]⟩

end World

namespace Engine

/-! ### One evaluation -/

/-- What evaluations leave as it is; histories and threads are left aside. -/
structure Observes (e e' : Engine) : Prop where
  waits : e'.waits = e.waits
  scripts : e'.scripts = e.scripts
  next : e.nextThread ≤ e'.nextThread
  world : e.world.Watched e'.world

section

variable {good : BlockMap → Prop} {e e' e'' : Engine} {log looks : List Look}
  {index : Nat} {s : Script} {target : TargetId} {fuel : Nat}

lemma Observes.refl (e : Engine) : Observes e e := ⟨rfl, rfl, Nat.le_refl _, .refl _⟩

lemma Observes.trans (h : Observes e e') (k : Observes e' e'') : Observes e e'' :=
  ⟨k.waits.trans h.waits, k.scripts.trans h.scripts, h.next.trans k.next, h.world.trans k.world⟩

lemma observes_spawn (e : Engine) (index : Nat) (s : Script) (target : TargetId) :
    Observes e (e.spawn index s target) :=
  ⟨rfl, rfl, Nat.le_succ _, e.world.watched_new s.program target⟩

lemma observes_edge (e : Engine) (index : Nat) (s : Script) (target : TargetId) :
    Observes e (e.edge index s target).2 := by
  unfold edge
  split
  · exact .refl e
  · exact ⟨rfl, rfl, Nat.le_succ _, e.world.watched_new s.program target⟩

lemma Sound.draws_looked (hgood : ∀ b, good b → b.Playable) (h : Sound good e)
    (hs : e.scripts[index]? = some s) (target : TargetId) (fuel : Nat) :
    ∃ id, World.Draws { (e.edge index s target).2.world with currentThread := id }
      (e.looked fuel index s target).world := by
  have hmove : Move ([], e) ([], (e.edge index s target).2) := .watch hs target
  have hsound : Sound good (e.edge index s target).2 := h.move hgood hmove
  obtain ⟨hreach, b, hb, hlaid⟩ := hsound.laid hgood (hsound.edges _ (edge_mem e index s target))
  obtain ⟨-, hk, hac⟩ := hgood b hb
  exact Thread.draws_runPredicate hlaid hk.values hac hreach fuel (e.edge index s target).2.world

lemma Sound.observes (hgood : ∀ b, good b → b.Playable) (h : Sound good e)
    (hs : e.scripts[index]? = some s) (target : TargetId) (fuel : Nat) :
    Observes e (e.looked fuel index s target) := by
  obtain ⟨hwaits, hscripts, hnext, hworld⟩ := observes_edge e index s target
  obtain ⟨id, hdraws⟩ := h.draws_looked hgood hs target fuel
  exact ⟨hwaits, hscripts, hnext, hworld.trans hdraws.watched⟩

lemma threads_looked (fuel : Nat) (e : Engine) (index : Nat) (s : Script) (target : TargetId) :
    (e.looked fuel index s target).threads = e.threads := by
  unfold looked edge
  split <;> rfl

/-- If the condition was evaluated before, nothing is made for it. -/
lemma Sound.targets_looked (hgood : ∀ b, good b → b.Playable) (h : Sound good e)
    (hs : e.scripts[index]? = some s) (fuel : Nat)
    (hsome : (e.edges.find? (isEdgeOf index target)).isSome) :
    (e.looked fuel index s target).world.targets = e.world.targets := by
  obtain ⟨id, draws, hdraws⟩ := h.draws_looked hgood hs target fuel
  have hsame : (e.edge index s target).2 = e := by
    obtain ⟨g, hg⟩ := Option.isSome_iff_exists.1 hsome
    simp only [edge, hg]
  rw [hdraws, hsame]

/-- A thread of some script at its beginning, with a new number. -/
def Begun (e : Engine) (t : Thread) : Prop :=
  ∃ id s w, e.nextThread ≤ id ∧ e.scripts[t.script]? = some s ∧
    t = (Thread.new id t.script s.program t.target w).1

/-- The condition is true, it was not the last time, and the script is not running on the target. -/
def fires (e : Engine) (log : List Look) (l : Look) : Bool :=
  l.value && !latest log l.index l.target && e.threads.all (!isThreadOf l.index l.target ·)

lemma Observes.begun (h : Observes e e') {t : Thread} (ht : e'.Begun t) : e.Begun t := by
  obtain ⟨id, s, w, hid, hs, heq⟩ := ht
  exact ⟨id, s, w, h.next.trans hid, h.scripts ▸ hs, heq⟩

/-- The script is started if the condition has become true, unless it is running already. -/
lemma Kept.evaluates (hgood : ∀ b, good b → b.Playable) (hsound : Sound good e) (h : Kept ([], e) log)
    (hnone : e.fault = none) (hs : e.scripts[index]? = some s)
    (hlive : e.world.targets.contains target = true)
    (hrun : (e.look fuel index s target).2.1.machine.isFaulted = false) :
    Observes e (evaluateEdge fuel index s e target) ∧
    ∃ new, (evaluateEdge fuel index s e target).threads = e.threads ++ new ∧ (∀ t ∈ new, e.Begun t) ∧
      new.map (fun t => (t.script, t.target)) =
        if e.fires log ⟨index, target, (e.look fuel index s target).1⟩ then [(index, target)] else [] := by
  have hobserves := hsound.observes hgood hs target fuel
  have hthreads := threads_looked fuel e index s target
  rw [evaluateEdge_eq hnone hrun, h.history index target hlive]
  unfold fires
  generalize e.looked fuel index s target = e₁ at hobserves hthreads ⊢
  cases hrises : (e.look fuel index s target).1 && !latest log index target with
  | false =>
    rw [if_neg Bool.false_ne_true]
    exact ⟨hobserves, [], by simpa using hthreads, List.forall_mem_nil _, by simp⟩
  | true =>
    rw [if_pos rfl]
    rcases startScript_cases e₁ index s target false with ⟨xs, t, ys, hsplit, ht, heq⟩ | ⟨hfree, heq⟩
    · have hany : e.threads.all (!isThreadOf index target ·) = false := by
        rw [← hthreads, hsplit]
        simp [ht]
      rw [heq, if_neg Bool.false_ne_true]
      exact ⟨hobserves, [], by simpa using hthreads, List.forall_mem_nil _, by simp [hany]⟩
    · have hall : e.threads.all (!isThreadOf index target ·) = true := by
        rw [← hthreads]
        simpa using hfree
      rw [heq]
      refine ⟨hobserves.trans (observes_spawn e₁ index s target),
        [(Thread.new e₁.nextThread index s.program target e₁.world).1], ?_, fun t ht => ?_, ?_⟩
      · rw [← hthreads]
        rfl
      · rw [List.mem_singleton.1 ht]
        exact ⟨e₁.nextThread, s, e₁.world, hobserves.next, hs, rfl⟩
      · rw [hall, Bool.and_true, if_pos rfl]
        rfl

/-- The condition of a script leaves a value on a target: the thread that is kept for it, which has the
program of the script and the target, is put to the condition and runs to its end. -/
structure Leaves (e : Engine) (index : Nat) (s : Script) (id : TargetId) (v : Value) (w : World) :
    Prop where
  program : (e.edge index s id).1.thread.program = s.program
  target : (e.edge index s id).1.thread.target = id
  leaves : (e.edge index s id).1.thread.Leaves (e.edge index s id).2.world v w

/-- What a condition leaves is what is seen of it, if there are enough steps. -/
lemma Recorded.leaves (hgood : ∀ b, good b → b.Playable) (h : Recorded good ([], e) log)
    (hs : e.scripts[index]? = some s) (hhat : s.hat = .edge) (target : TargetId) :
    ∃ v w n, e.Leaves index s target v w ∧ ∀ fuel,
      ((e.look fuel index s target).2.1.machine.isFaulted = false ↔ n ≤ fuel) ∧
      (n ≤ fuel → (e.look fuel index s target).1 = v.toBool ∧
        (e.looked fuel index s target).world = w) := by
  obtain ⟨hsound, -, -⟩ := h.toured.visited.sound hgood
  obtain ⟨hprogram, htarget⟩ := (h.staffed hgood).thread_edge hs target
  have hmove : Move ([], e) ([], (e.edge index s target).2) := .watch hs target
  have hwatch : Sound good (e.edge index s target).2 := hsound.move hgood hmove
  obtain ⟨-, b, hb, hlaid⟩ := hwatch.laid hgood (hwatch.edges _ (edge_mem e index s target))
  obtain ⟨-, hk, hac⟩ := hgood b hb
  obtain ⟨_, _, -, hcompiled⟩ := hsound.scripts s (List.mem_of_getElem? hs)
  obtain ⟨ls, hls⟩ := hlaid .predicate (hprogram ▸ predicate_of_mem hcompiled hhat)
  obtain ⟨v, w, n, hleaves, hlook⟩ := Thread.exists_leaves hk.values hac hls (e.edge index s target).2.world
  exact ⟨v, w, n, ⟨hprogram, htarget, hleaves⟩, hlook⟩

/-! ### The conditions of a frame -/

/-- Conditions evaluated one after another, and their values. -/
inductive Looks (fuel : Nat) : Engine → List Look → Engine → Prop
  | nil (e : Engine) : Looks fuel e [] e
  | cons {e e' : Engine} {index : Nat} {s : Script} {target : TargetId} {v : Value}
      {looks : List Look} (hs : e.scripts[index]? = some s) (hhat : s.hat = .edge)
      (htarget : target ∈ e.family s.target)
      (hrun : (e.look fuel index s target).2.1.machine.isFaulted = false)
      (hleaves : e.Leaves index s target v (e.looked fuel index s target).world)
      (hvalue : (e.look fuel index s target).1 = v.toBool)
      (h : Looks fuel (evaluateEdge fuel index s e target) looks e') :
      Looks fuel e (⟨index, target, (e.look fuel index s target).1⟩ :: looks) e'

lemma Looks.append {looks' : List Look} (h : Looks fuel e looks e') (k : Looks fuel e' looks' e'') :
    Looks fuel e (looks ++ looks') e'' := by
  induction h with
  | nil => exact k
  | cons hs hhat htarget hrun hleaves hvalue _ ih =>
    exact .cons hs hhat htarget hrun hleaves hvalue (ih k)

lemma Looks.beats (h : Looks fuel e looks e') : Beats ([], e) ([], e') := by
  induction h with
  | nil => exact .refl _
  | cons hs hhat htarget hrun _ _ _ ih =>
    exact (Beat.condition fuel hs hhat htarget hrun).beats.trans ih

/-- The evaluations go into the record. -/
lemma Looks.recorded (h : Looks fuel e looks e') (k : Recorded good ([], e) log) :
    Recorded good ([], e') (log ++ looks) := by
  induction h generalizing log with
  | nil => rwa [List.append_nil]
  | cons hs hhat htarget hrun _ _ _ ih =>
    have hrest := ih (k.look fuel hs hhat htarget hrun)
    rwa [List.append_assoc, List.singleton_append] at hrest

/-- Different conditions do not meet: each of them fires by what was before all of them. -/
lemma Looks.started (hgood : ∀ b, good b → b.Playable) (h : Looks fuel e looks e')
    (hk : Recorded good ([], e) log) (hnodup : (looks.map Look.key).Nodup) :
    Observes e e' ∧ ∃ new, e'.threads = e.threads ++ new ∧ (∀ t ∈ new, e.Begun t) ∧
      new.map (fun t => (t.script, t.target)) = (looks.filter (e.fires log)).map Look.key := by
  induction h generalizing log with
  | nil e => exact ⟨.refl e, [], by simp, List.forall_mem_nil _, rfl⟩
  | @cons e e' index s target v looks hs hhat htarget hrun _ _ _ ih =>
    obtain ⟨hfirst, hrest⟩ := List.nodup_cons.1 hnodup
    obtain ⟨hsound, hnone, -⟩ := hk.toured.visited.sound hgood
    obtain ⟨hobserves, new, hthreads, hbegun, hnew⟩ := (hk.kept hgood).evaluates hgood hsound hnone hs
      (contains_of_mem_family htarget) hrun
    obtain ⟨hobserves', new', hthreads', hbegun', hnew'⟩ := ih (hk.look fuel hs hhat htarget hrun) hrest
    refine ⟨hobserves.trans hobserves', new ++ new', ?_, fun t ht => ?_, ?_⟩
    · rw [hthreads', hthreads, List.append_assoc]
    · exact (List.mem_append.1 ht).elim (hbegun t) fun ht => hobserves.begun (hbegun' t ht)
    · -- what was started before belongs to another condition
      have hsame : looks.filter ((evaluateEdge fuel index s e target).fires
          (log ++ [⟨index, target, (e.look fuel index s target).1⟩])) = looks.filter (e.fires log) := by
        refine List.filter_congr fun l hl => ?_
        have hne : ¬(index = l.index ∧ target = l.target) := by
          rintro ⟨rfl, rfl⟩
          have hkey : l.key ∈ looks.map Look.key := List.mem_map_of_mem hl
          exact hfirst hkey
        have hothers : new.all (!isThreadOf l.index l.target ·) = true := by
          refine List.all_eq_true.2 fun t ht => ?_
          have hkey : (t.script, t.target) ∈ new.map (fun t => (t.script, t.target)) :=
            List.mem_map_of_mem ht
          rw [hnew] at hkey
          split at hkey
          · obtain ⟨hscript, htarget⟩ := Prod.mk.inj (List.mem_singleton.1 hkey)
            rw [Bool.not_eq_true', isThreadOf_eq_false]
            exact fun _ hindex hsame => hne ⟨hscript.symm.trans hindex, htarget.symm.trans hsame⟩
          · cases hkey
        simp only [fires, latest_append, if_neg hne, hthreads, List.all_append, hothers, Bool.and_true]
      rw [List.map_append, hnew, hnew', hsame, List.filter_cons]
      split <;> rfl

/-- No target comes or goes meanwhile. -/
lemma Looks.setting (hgood : ∀ b, good b → b.Playable) (h : Looks fuel e looks e')
    (hv : Visited good ([], e)) : e'.setting = e.setting := by
  induction h with
  | nil => rfl
  | @cons e e' index s target _ _ hs hhat htarget hrun _ _ _ ih =>
    obtain ⟨hsound, hnone, -⟩ := hv.sound hgood
    have hstill := (hv.table hgood).still_condition hgood hsound hnone hs hhat hrun
    have hfirst : (evaluateEdge fuel index s e target).setting = e.setting :=
      setting_congr hstill.scripts hstill.troupe
    exact (ih (hv.beats (Beat.condition fuel hs hhat htarget hrun).beats)).trans hfirst

/-- Rows of evaluations one after another, which stop at a fault: without one at the end there was
none. -/
lemma looks_foldl (hgood : ∀ b, good b → b.Playable) {α : Type} {f : Engine → α → Engine}
    {k : α → List (Nat × TargetId)} {xs : List α} (hk : Recorded good ([], e) log)
    (hstay : ∀ e x, e.fault.isSome = true → f e x = e)
    (hf : ∀ x ∈ xs, ∀ e' log', Recorded good ([], e') log' → e'.setting = e.setting →
      (f e' x).fault = none → ∃ looks, Looks fuel e' looks (f e' x) ∧ looks.map Look.key = k x)
    (hnone : (xs.foldl f e).fault = none) :
    ∃ looks, Looks fuel e looks (xs.foldl f e) ∧ looks.map Look.key = xs.flatMap k := by
  induction xs generalizing e log with
  | nil => exact ⟨[], .nil e, rfl⟩
  | cons x xs ih =>
    rw [List.foldl_cons] at hnone ⊢
    obtain ⟨looks, hlooks, hkeys⟩ := hf x List.mem_cons_self e log hk rfl (fault_of_foldl hstay hnone)
    have hset := hlooks.setting hgood hk.toured.visited
    obtain ⟨looks', hlooks', hkeys'⟩ := ih (hlooks.recorded hk)
      (fun y hy e' log' hk' hs' => hf y (List.mem_cons_of_mem _ hy) e' log' hk' (hs'.trans hset)) hnone
    refine ⟨looks ++ looks', hlooks.append hlooks', ?_⟩
    rw [List.map_append, hkeys, hkeys', List.flatMap_cons]

/-- A script is evaluated on each target of its family. -/
lemma looks_family (hgood : ∀ b, good b → b.Playable) (hk : Recorded good ([], e) log)
    (hs : e.scripts[index]? = some s) (hhat : s.hat = .edge)
    (hnone : ((e.family s.target).foldl (evaluateEdge fuel index s) e).fault = none) :
    ∃ looks, Looks fuel e looks ((e.family s.target).foldl (evaluateEdge fuel index s) e) ∧
      looks.map Look.key = (e.family s.target).map (Prod.mk index) := by
  rw [← List.flatMap_pure_eq_map]
  refine looks_foldl hgood hk evaluateEdge_of_fault
    (fun target htarget e' log' hk' hset hnone' => ?_) hnone
  rw [← family_congr hset] at htarget
  rw [← scripts_of_setting hset] at hs
  have hrun := not_isFaulted_of_fault_evaluateEdge (hk'.toured.visited.sound hgood).2.1 hnone'
  obtain ⟨v, w, n, hleaves, hlook⟩ := hk'.leaves hgood hs hhat target
  obtain ⟨hvalue, hworld⟩ := (hlook fuel).2 ((hlook fuel).1.1 hrun)
  exact ⟨_, .cons hs hhat htarget hrun (hworld ▸ hleaves) hvalue (.nil _), rfl⟩

/-- This is done for each script, and the families are those at the beginning. -/
lemma looks_evaluateEdges (hgood : ∀ b, good b → b.Playable) (hk : Recorded good ([], e) log)
    (hnone : (e.evaluateEdges fuel).fault = none) :
    ∃ looks, Looks fuel e looks (e.evaluateEdges fuel) ∧
      looks.map Look.key = (e.callings (· == .edge) none).map fun c => (c.index, c.target) := by
  have hkeys : (e.callings (· == .edge) none).map (fun c => (c.index, c.target)) =
      e.scripts.zipIdx.flatMap fun x =>
        if x.1.hat == .edge then (e.family x.1.target).map (Prod.mk x.2) else [] := by
    rw [callings, List.map_flatMap]
    congr 1
    funext x
    split
    · simp [Function.comp_def]
    · rfl
  rw [hkeys]
  refine looks_foldl hgood hk (fun e' x hsome => ?_) (fun x hx e' log' hk' hset hnone' => ?_) hnone
  · simp only
    split
    · exact foldl_of_fault evaluateEdge_of_fault _ hsome
    · rfl
  · simp only at hnone' ⊢
    split at hnone'
    · next hhat =>
      rw [if_pos hhat, if_pos hhat, ← family_congr hset]
      refine looks_family hgood hk' ?_ (by simpa using hhat) hnone'
      rw [scripts_of_setting hset]
      exact scripts_zipIdx hx
    · next hhat =>
      rw [if_neg hhat, if_neg hhat]
      exact ⟨[], .nil _, rfl⟩

lemma nodup_family (e : Engine) (root : TargetId) : (e.family root).Nodup := by
  refine List.pairwise_map.2 ((e.world.targets.pairwise_live.filter _).imp fun hlt heq => ?_)
  rw [heq] at hlt
  exact Nat.lt_irrefl _ hlt

/-- Every script with a condition is called on each target that runs it. -/
lemma mem_keys_callings {index : Nat} {target : TargetId} :
    (index, target) ∈ (e.callings (· == .edge) none).map (fun c => (c.index, c.target)) ↔
      ∃ s, e.scripts[index]? = some s ∧ s.hat = .edge ∧ target ∈ e.family s.target := by
  rw [List.mem_map]
  constructor
  · rintro ⟨c, hc, heq⟩
    obtain ⟨hs, hhat, htarget, -⟩ := mem_callings.1 hc
    cases heq
    exact ⟨c.script, hs, by simpa using hhat, htarget⟩
  · rintro ⟨s, hs, hhat, htarget⟩
    exact ⟨⟨index, s, target⟩, mem_callings.2 ⟨hs, by simp [hhat], htarget, rfl⟩, rfl⟩

/-- No script is called twice on one target. -/
lemma nodup_callings (e : Engine) (p : Hat → Bool) (only : Option TargetId) :
    ((e.callings p only).map fun c => (c.index, c.target)).Nodup := by
  rw [callings, List.map_flatMap, List.nodup_flatMap]
  refine ⟨fun x _ => ?_, ?_⟩
  · split
    · rw [List.map_map]
      exact ((nodup_family e _).filter _).map fun _ _ h => (Prod.mk.inj h).2
    · exact .nil
  · -- scripts at different places
    have hindex : e.scripts.zipIdx.Pairwise fun x y => x.2 ≠ y.2 :=
      List.pairwise_iff_getElem.2 fun i j hi hj hij => by simpa using Nat.ne_of_lt hij
    refine hindex.imp fun {x y} hne => ?_
    have hall : ∀ {x : Script × Nat} {key : Nat × TargetId}, key ∈ (if p x.1.hat then
        ((e.family x.1.target).filter fun id => only.all (· == id)).map (Calling.mk x.2 x.1)
        else []).map (fun c => (c.index, c.target)) → key.1 = x.2 := by
      intro x key hkey
      obtain ⟨c, hc, rfl⟩ := List.mem_map.1 hkey
      split at hc
      · obtain ⟨id, -, rfl⟩ := List.mem_map.1 hc
        rfl
      · cases hc
    exact List.disjoint_left.2 fun key hx hy => hne ((hall hx).symm.trans (hall hy))

end

/-! ### Nothing else starts them -/

/-- The thread runs a script that starts on a condition. -/
def Conditional (e : Engine) (t : Thread) : Prop := ∃ s, e.scripts[t.script]? = some s ∧ s.hat = .edge

/-- Slices lead from one state of the thread to the other. -/
def RunsOn (fuel : Nat) : Thread → Thread → Prop :=
  Relation.ReflTransGen fun t t' => ∃ w, t' = (t.run fuel w).1

section

variable {good : BlockMap → Prop} {rs : List Request} {e e' : Engine} {x y : Moment} {t : Thread}
  {fuel : Nat}

lemma Conditional.congr (h : e'.Conditional t) (hs : e'.scripts = e.scripts) : e.Conditional t := by
  obtain ⟨s, hscript, hhat⟩ := h
  exact ⟨s, hs ▸ hscript, hhat⟩

lemma Table.conditional_startHats (h : Table rs e) {p : Hat → Bool} (hp : p .edge = false)
    {only : Option TargetId} {restart : Bool} (ht : t ∈ (e.startHats p only restart).2.threads)
    (hc : e.Conditional t) : t ∈ e.threads := by
  have hroused := h.roused p only restart
  refine (hroused.others t ht).resolve_left fun hid => ?_
  obtain ⟨c, hcall, hindex, -⟩ := hroused.called t ht hid
  obtain ⟨hs, hcalled, -⟩ := mem_callings.1 hcall
  obtain ⟨s, hscript, hhat⟩ := hc
  rw [hindex, hs] at hscript
  rw [Option.some.inj hscript, hhat, hp] at hcalled
  cases hcalled

lemma Table.conditional_handle {r : Request} (h : Table (r :: rs) e) (ht : t ∈ (e.handle r).threads)
    (hf : t.isFinished = false) (hc : e.Conditional t) : t ∈ e.threads := by
  have hkill : ∀ {p : Thread → Bool}, t ∈ (killThreads p e.threads e.world).1 → t ∈ e.threads := by
    intro p ht
    rcases mem_killThreads ht with hfin | ⟨hmem, -⟩
    · rw [hf] at hfin
      cases hfin
    · exact hmem
  cases r with
  | broadcast name promise =>
    have hkept : t ∈ (e.startHats (· == .broadcast (Text.lowercase name)) none true).2.threads := by
      cases promise <;> exact ht
    exact h.conditional_startHats (by simp) hkept hc
  | startClone clone => exact h.conditional_startHats rfl ht hc
  | killThreadsOf target => exact hkill ht
  | stopAll => cases (ht : t ∈ [])
  | stopOthers target except => exact hkill ht

lemma Tick.conditional (hgood : ∀ b, good b → b.Playable) {a : Turn} (h : Tick fuel x a y)
    (hv : Visited good (x.todo, x.engine)) (ht : t ∈ y.engine.threads) (hf : t.isFinished = false)
    (hc : y.engine.Conditional t) : ∃ t₀ ∈ x.engine.threads, t₀.isFinished = false ∧
      x.engine.Conditional t₀ ∧ RunsOn fuel t₀ t := by
  cases h with
  | @slice i e u hu hfu hrun =>
    rcases List.mem_or_eq_of_mem_set ht with hold | rfl
    · exact ⟨t, hold, hf, hc, .refl⟩
    · exact ⟨u, List.mem_of_getElem? hu, hfu, hc, .single ⟨e.world, rfl⟩⟩
  | pass => exact ⟨t, ht, hf, hc, .refl⟩
  | handle r rs e =>
    have hscripts : (e.handle r).scripts = e.scripts := (moves_handle r rs e).frame.1
    have hc := hc.congr hscripts
    exact ⟨t, (hv.table hgood).conditional_handle ht hf hc, hf, hc, .refl⟩

/-- In the loop the threads of such scripts run on and end, and that is all. -/
lemma Loop.conditional (hgood : ∀ b, good b → b.Playable) {as : List Turn} (h : Loop fuel x as y)
    (hv : Visited good (x.todo, x.engine)) (ht : t ∈ y.engine.threads) (hf : t.isFinished = false)
    (hc : y.engine.Conditional t) : ∃ t₀ ∈ x.engine.threads, t₀.isFinished = false ∧
      x.engine.Conditional t₀ ∧ RunsOn fuel t₀ t := by
  induction h with
  | nil => exact ⟨t, ht, hf, hc, .refl⟩
  | cons h _ ih =>
    obtain ⟨t₁, ht₁, hf₁, hc₁, hruns⟩ := ih (hv.beats (h.beats hgood hv)) ht hc
    obtain ⟨t₀, ht₀, hf₀, hc₀, hfirst⟩ := h.conditional hgood hv ht₁ hf₁ hc₁
    exact ⟨t₀, ht₀, hf₀, hc₀, hfirst.trans hruns⟩

/-- Only frames start them. -/
lemma Order.conditional (hgood : ∀ b, good b → b.Playable) (hv : Visited good ([], e))
    (h : Order e e') : (∃ fuel, e' = e.step fuel) ∨
      ∀ t ∈ e'.threads, t.isFinished = false → e'.Conditional t → t ∈ e.threads := by
  have hstart : ∀ {e : Engine}, Visited good ([], e) → ∀ {p : Hat → Bool}, p .edge = false →
      ∀ {only : Option TargetId} {restart : Bool}, ∀ t ∈ (e.startHats p only restart).2.threads,
        t.isFinished = false → (e.startHats p only restart).2.Conditional t → t ∈ e.threads := by
    intro e hv p hp only restart t ht _ hc
    exact (hv.table hgood).conditional_startHats hp ht (hc.congr (troupe_startHats _ _ _ _).1)
  cases h with
  | compile | stop => exact Or.inr (List.forall_mem_nil _)
  | start =>
    have hv' := (hv.act (.stop e)).act (deed_resetTimer e.stop).act
    refine Or.inr fun t ht hf hc => ?_
    cases (hstart hv' rfl t ht hf hc : t ∈ [])
  | broadcast name =>
    have hasked : Visited good ([.broadcast name none], e) := hv.act (.broadcast e name)
    rw [broadcast_eq (hv.sound hgood).1.idle]
    refine Or.inr fun t ht hf hc => (hasked.table hgood).conditional_handle ht hf ?_
    exact hc.congr (moves_handle (.broadcast name none) [] e).frame.1
  | keyPressed key => exact Or.inr (hstart hv rfl)
  | click id =>
    refine Or.inr ?_
    unfold Engine.click
    split
    · exact fun _ ht _ _ => ht
    · refine hstart hv ?_
      split <;> rfl
  | answerQuestion answer => exact Or.inr fun _ ht _ _ => ht
  | step fuel hf => exact Or.inl ⟨fuel, rfl⟩

end

/-! ### The record of a frame -/

section

variable {good : BlockMap → Prop} {e e' : Engine} {log : List Look} {fuel : Nat}

lemma Recorded.order (hgood : ∀ b, good b → b.Playable) (h : Recorded good ([], e) log)
    (ho : Order e e') : ∃ log', Recorded good ([], e') log' :=
  h.deeds (ho.deeds hgood h.toured.visited)

/-- A project that is loaded begins a new record. -/
lemma Recorded.load {text : String} (h : Recorded good ([], e) log) (hload : e.load text = .ok e')
    (hblocks : ∀ targets, Project.read text = .ok targets → ∀ t ∈ targets, t.blocks.Keyed →
      good t.blocks) : Recorded good ([], e') [] := by
  have hadd : ∀ (targets : List Target) (e : Engine) (log : List Look),
      Recorded good ([], e) log → (∀ t ∈ targets, good t.blocks ∧ t.cloneOf = none) →
      ∃ log', Recorded good ([], { e with world := { e.world with
        targets := targets.foldl (fun a t => (a.insert t).2) e.world.targets } }) log' := by
    intro targets
    induction targets with
    | nil => exact fun _ log h _ => ⟨log, h⟩
    | cons t rest ih =>
      intro e log h hall
      obtain ⟨⟨hgood, hclone⟩, hrest⟩ := List.forall_mem_cons.1 hall
      exact ih (e.addTarget t) _ (h.plain (.add e t hgood hclone)) hrest
  unfold Engine.load at hload
  cases hread : Project.read text with
  | error =>
    rw [hread] at hload
    cases hload
  | ok targets =>
    rw [hread] at hload
    cases hload
    obtain ⟨log', h'⟩ := hadd targets e log h fun t ht =>
      ⟨hblocks targets hread t ht (Project.keyed_of_read hread t ht), Project.cloneOf_of_read hread t ht⟩
    exact h'.compile

/-- In the loop nothing is added to the record. -/
lemma Loop.recorded (hgood : ∀ b, good b → b.Playable) {x y : Moment} {as : List Turn}
    (h : Loop fuel x as y) (k : Recorded good (x.todo, x.engine) log) :
    ∃ log', log'.Sublist log ∧ Recorded good (y.todo, y.engine) log' := by
  induction h generalizing log with
  | nil => exact ⟨log, .refl log, k⟩
  | @cons x y z a as h _ ih =>
    obtain ⟨log₁, hsub, hy⟩ : ∃ log', log'.Sublist log ∧ Recorded good (y.todo, y.engine) log' := by
      cases h with
      | slice ht hf hrun => exact ⟨_, List.filter_sublist, k.plain (.turn fuel ht hf hrun)⟩
      | @pass i e t ht hf =>
        have hidle : e.world.requests = [] := (k.toured.visited.sound hgood).1.idle
        simp only [hidle, unasked_eq hidle]
        exact ⟨log, .refl log, k⟩
      | handle r rs e => exact ⟨_, List.filter_sublist, k.plain (.handle r rs e)⟩
    obtain ⟨log₂, hsub', hz⟩ := ih hy
    exact ⟨log₂, hsub'.trans hsub, hz⟩

lemma Recorded.settled (h : Recorded good ([], e) log) :
    ∃ log', log'.Sublist log ∧ Recorded good ([], e.settled) log' :=
  ⟨_, List.filter_sublist.trans List.filter_sublist,
    (h.plain (.resolve e)).plain (.sweep e.resolveWaits)⟩

end

/-- **Rising edges.** However an engine plays projects with good blocks, beside a record of all
evaluations of conditions since it compiled last, in which whoever is gone is crossed out: what the
engine remembers of those who live is what the record says last, and whoever is new has no history. To
evaluate a condition is to note its value, and to start the script if it is true and was not the last
time, unless it is running on the target; variables and lists are made that are missing, if it never was
evaluated, random numbers are drawn, and nothing else changes. The value is the truth value of what the
code of the condition leaves, which takes a certain number of steps; with fewer it is given up. A frame
that is not given up evaluates the condition of each script on each target that runs it, once, before
any thread has its slice; the scripts are started for what was recorded before the frame, whatever the
other conditions are, and nothing else starts them. -/
theorem rising_edges {x : List Request × Engine} {log : List Look}
    (h : Recorded BlockMap.Playable x log) :
    (∀ ids y, Deed BlockMap.Playable x ids y → ∃ log', Recorded BlockMap.Playable y log') ∧
    (∀ e e', x = ([], e) → Order e e' → (∃ log', Recorded BlockMap.Playable ([], e') log') ∧
      ((∃ fuel, e' = e.step fuel) ∨
        ∀ t ∈ e'.threads, t.isFinished = false → e'.Conditional t → t ∈ e.threads)) ∧
    (∀ e text e', x = ([], e) → e.load text = .ok e' → (∀ targets, Project.read text = .ok targets →
      ∀ t ∈ targets, t.blocks.Keyed → t.blocks.Playable) → Recorded BlockMap.Playable ([], e') []) ∧
    (∀ l ∈ log, x.2.world.targets.contains l.target = true) ∧
    (∀ index target, x.2.world.targets.contains target = true →
      x.2.history index target = latest log index target) ∧
    (∀ ids y c, Deed BlockMap.Playable x ids y → x.2.world.targets.contains c = false →
      y.2.world.targets.contains c = true → ∀ g ∈ y.2.edges, g.target ≠ c) ∧
    (∀ e index s target fuel, x = ([], e) → e.scripts[index]? = some s → target ∈ e.family s.target →
      (e.look fuel index s target).2.1.machine.isFaulted = false →
      evaluateEdge fuel index s e target =
        (if (e.look fuel index s target).1 && !latest log index target then
          ((e.looked fuel index s target).startScript index s target false).2
        else e.looked fuel index s target) ∧
      (e.looked fuel index s target).threads = e.threads ∧
      Observes e (e.looked fuel index s target) ∧
      ((e.edges.find? (isEdgeOf index target)).isSome →
        (e.looked fuel index s target).world.targets = e.world.targets)) ∧
    (∀ e index s target, x = ([], e) → e.scripts[index]? = some s → s.hat = .edge →
      ∃ v w n, e.Leaves index s target v w ∧ ∀ fuel,
        ((e.look fuel index s target).2.1.machine.isFaulted = false ↔ n ≤ fuel) ∧
        (n ≤ fuel → (e.look fuel index s target).1 = v.toBool ∧
          (e.looked fuel index s target).world = w)) ∧
    ∀ e fuel, x = ([], e) → (e.step fuel).fault ≠ some .overrun →
      (∃ looks new, Looks fuel e looks (e.evaluateEdges fuel) ∧
        Recorded BlockMap.Playable ([], e.evaluateEdges fuel) (log ++ looks) ∧
        (looks.map Look.key).Nodup ∧
        (∀ index target, (index, target) ∈ looks.map Look.key ↔
          ∃ s, e.scripts[index]? = some s ∧ s.hat = .edge ∧ target ∈ e.family s.target) ∧
        Observes e (e.evaluateEdges fuel) ∧
        (e.evaluateEdges fuel).threads = e.threads ++ new ∧ (∀ t ∈ new, e.Begun t) ∧
        new.map (fun t => (t.script, t.target)) = (looks.filter (e.fires log)).map Look.key ∧
        ∃ log', log'.Sublist (log ++ looks) ∧ Recorded BlockMap.Playable ([], e.step fuel) log') ∧
      ∃ as z, Loop fuel ⟨0, [], e.evaluateEdges fuel⟩ as z ∧ z.IsOver ∧ e.step fuel = z.engine.settled ∧
        ∀ t ∈ (e.step fuel).threads, (e.step fuel).Conditional t →
          ∃ t₀ ∈ (e.evaluateEdges fuel).threads, RunsOn fuel t₀ t := by
  have hgood : ∀ b : BlockMap, b.Playable → b.Playable := fun _ hb => hb
  have hv := h.toured.visited
  obtain ⟨hsound, hfault, -⟩ := hv.sound hgood
  have hkept := h.kept hgood
  refine ⟨fun ids y k => h.deed k, ?_, ?_, hkept.live, hkept.history,
    fun ids y c k hold hnew => ?_, ?_, ?_, ?_⟩
  · rintro e e' rfl ho
    exact ⟨h.order hgood ho, ho.conditional hgood hv⟩
  · rintro e text e' rfl hload hblocks
    exact h.load hload hblocks
  · obtain ⟨hsame, hnobody⟩ := k.unwatched hgood hv hold hnew
    rwa [hsame]
  · rintro e index s target fuel rfl hs htarget hrun
    have heq := evaluateEdge_eq hfault hrun
    rw [hkept.history index target (contains_of_mem_family htarget)] at heq
    exact ⟨heq, threads_looked fuel e index s target, hsound.observes hgood hs target fuel,
      hsound.targets_looked hgood hs fuel⟩
  · rintro e index s target rfl hs hhat
    exact h.leaves hgood hs hhat target
  · rintro e fuel rfl hf
    obtain ⟨hedges, as, z, hloop, hz, hstep⟩ := exists_loop_step hfault (hv.fault_step hgood hf)
    obtain ⟨looks, hlooks, hkeys⟩ := looks_evaluateEdges hgood h hedges
    have hnodup : (looks.map Look.key).Nodup := hkeys ▸ nodup_callings e _ _
    obtain ⟨hobserves, new, hthreads, hbegun, hnew⟩ := hlooks.started hgood h hnodup
    have hrecord := hlooks.recorded h
    obtain ⟨log₁, hsub, hend⟩ := hloop.recorded hgood hrecord
    rw [hz.1] at hend
    obtain ⟨log', hsub', hsettled⟩ := hend.settled
    rw [← hstep] at hsettled
    refine ⟨⟨looks, new, hlooks, hrecord, hnodup, fun index target => hkeys ▸ mem_keys_callings,
      hobserves, hthreads, hbegun, hnew, log', hsub'.trans hsub, hsettled⟩, as, z, hloop, hz, hstep,
      fun t ht hc => ?_⟩
    rw [hstep] at ht hc
    obtain ⟨hmem, hunf⟩ := List.mem_filter.1 ht
    obtain ⟨t₀, ht₀, -, -, hruns⟩ := hloop.conditional hgood hrecord.toured.visited hmem
      (by simpa using hunf) (hc.congr rfl)
    exact ⟨t₀, ht₀, hruns⟩

/-- A sprite runs on when more than a second has passed. -/
def alarm : BlockMap := .ofList [
  ("late", { id := "late", opcode := "event_whengreaterthan", topLevel := true, next := some "on"
             inputs := .ofList [("VALUE", { value := some (.value (.number 1)) })]
             fields := .ofList [("WHENGREATERTHANMENU", { value := .text "TIMER" })] }),
  ("on", { id := "on", opcode := "control_forever" })]

/-- In the first frame it is not late; then two seconds pass, and the next frame starts the script. -/
theorem rising_edges_alarm : ∃ e log, Recorded BlockMap.Playable ([], e) log ∧ e.threads.length = 0 ∧
    latest log 0 ⟨0, 0⟩ = false ∧ e.world.targets.contains ⟨0, 0⟩ = true ∧
    (e.step 100).fault ≠ some .overrun ∧
    ∃ looks new, Looks 100 e looks (e.evaluateEdges 100) ∧ (looks.map Look.key).Nodup ∧
      (∃ l ∈ looks, l.key = (0, ⟨0, 0⟩) ∧ e.fires log l = true) ∧
      (e.evaluateEdges 100).threads = e.threads ++ new ∧
      new.map (fun t => (t.script, t.target)) = [(0, ⟨0, 0⟩)] := by
  have hgood : ∀ b : BlockMap, b.Playable → b.Playable := fun _ hb => hb
  have hac : alarm.Acyclic := BlockMap.acyclic_of_falling
    (fun id => ["on", "late"].idxOf id) (by decide +kernel)
  have hplayable : alarm.Playable := ⟨by decide +kernel, by decide +kernel, hac⟩
  have hcompiled := ((Recorded.new {} {}).plain
    (.add _ { name := "Cat", isStage := false, blocks := alarm } hplayable rfl)).compile
  obtain ⟨log₀, hstep⟩ := hcompiled.order hgood (.step _ 100 (by decide +kernel))
  obtain ⟨e, log, he, hnone, hhistory, hlive, hfault, hkeys⟩ : ∃ e log,
      Recorded BlockMap.Playable ([], e) log ∧ e.threads.length = 0 ∧
      e.history 0 ⟨0, 0⟩ = false ∧ e.world.targets.contains ⟨0, 0⟩ = true ∧
      (e.step 100).fault = none ∧
      (e.evaluateEdges 100).threads.map (fun t => (t.script, t.target)) = [(0, ⟨0, 0⟩)] :=
    ⟨_, _, hstep.plain (.outside _ { Engine.world _ with host := { clock := 2 } } rfl (.refl _) rfl),
      by decide +kernel⟩
  have hf : (e.step 100).fault ≠ some .overrun := by simp [hfault]
  obtain ⟨-, -, -, -, hlatest, -, -, -, hframe⟩ := rising_edges he
  obtain ⟨⟨looks, new, hlooks, -, hnodup, -, -, hthreads, -, hnew, -⟩, -⟩ := hframe e 100 rfl hf
  rw [hthreads, List.length_eq_zero_iff.1 hnone, List.nil_append] at hkeys
  refine ⟨e, log, he, hnone, (hlatest 0 ⟨0, 0⟩ hlive).symm.trans hhistory, hlive, hf, looks, new, hlooks,
    hnodup, ?_, hthreads, hkeys⟩
  have hfired : ((0, ⟨0, 0⟩) : Nat × TargetId) ∈ (looks.filter (e.fires log)).map Look.key := by
    rw [← hnew, hkeys]
    exact List.mem_singleton_self _
  obtain ⟨l, hl, hkey⟩ := List.mem_map.1 hfired
  exact ⟨l, (List.mem_filter.1 hl).1, hkey, (List.mem_filter.1 hl).2⟩

end Engine

end Blockwork
