import Blockwork.Proofs.Engine.Stopped
import Blockwork.Proofs.Machine.Places

/-!
Where the threads of an engine have their variables and lists. A thread finds their places once, when it
starts, and keeps them when it starts over; meanwhile the others have their slices, clones come and go,
questions are asked and bubbles shown. None of this moves anything, so the places of a thread are those
that its program leads to now; but for the threads of a clone that is gone, which are still to be killed.
-/

namespace Blockwork

/-! ### Worlds in which nothing moves -/

namespace Arena

variable {a a' : Arena} {k : Shelf} {own id : TargetId} {s : Slot}

/-- Whoever outlives a slice finds what he has found. -/
lemma Confined.locate? (hk : k.Stays) (h : Confined own a a') (hstage : a'.stage? = a.stage?)
    (hlive : a.contains id = true) (hlive' : a'.contains id = true) (x : String) :
    k.locate? a' id x = k.locate? a id x := by
  refine locate?_of_labels hk hstage (fun o ho => ?_) x
  -- the stage outlives it, too
  obtain ⟨⟨t, ht⟩, t', ht'⟩ : (∃ t, a.get? o = some t) ∧ ∃ t', a'.get? o = some t' := by
    rcases List.mem_cons.1 ho with rfl | ho
    · exact ⟨contains_iff.1 hlive, contains_iff.1 hlive'⟩
    · have hs : a.stage? = some o := by simpa using ho
      obtain ⟨t, ht, -⟩ := (stage?_eq_some_iff.1 hs).1
      obtain ⟨t', ht', -⟩ := (stage?_eq_some_iff.1 (hstage.trans hs)).1
      exact ⟨⟨t, ht⟩, t', ht'⟩
  rw [ht, ht', Option.map_some, Option.map_some, (h.kept o t t' ht ht').2]

/-- Whoever moves in takes nothing from those who are there; a stage only if there is none. -/
lemma locate?_insert (hk : k.Stays) (hs : a.Sound) {u : Target}
    (hu : u.isStage = true → a.stage? = none) (hlive : a.contains own = true) {x : String}
    (h : k.locate? a own x = some s) : k.locate? (a.insert u).2 own x = some s := by
  obtain ⟨t, ht⟩ := contains_iff.1 hlive
  have hown : (a.insert u).2.get? own = a.get? own := by rw [ht, hs.tidy.get?_insert ht u]
  cases hstage : a.stage? with
  | none =>
    -- so it was found on the target itself, which is asked first
    rw [Shelf.locate?_eq, owners, hstage, Option.toList_none, List.findSome?_singleton] at h
    rw [Shelf.locate?_eq, owners, List.findSome?_cons, hown, h]
  | some stage =>
    have hsprite : u.isStage = false := by
      by_contra hnot
      cases (hu (by simpa using hnot)).symm.trans hstage
    refine (locate?_of_labels hk (hs.stage?_insert hsprite) (fun o ho => ?_) x).trans h
    rcases List.mem_cons.1 ho with rfl | ho
    · rw [hown]
    · have ho : a.stage? = some o := by simpa using ho
      obtain ⟨t', ht', -⟩ := (stage?_eq_some_iff.1 ho).1
      rw [hs.tidy.get?_insert ht' u, ht']

end Arena

namespace World

variable {w w' : World}

/-- Nobody comes or goes, and what was found is found in the same place. -/
structure Upholds (w w' : World) : Prop where
  troupe : w'.troupe = w.troupe
  places : ∀ {k : Shelf}, k.Stays → ∀ {own : TargetId} {id : String} {s : Slot},
    k.locate? w.targets own id = some s → k.locate? w'.targets own id = some s

lemma Upholds.stage? (h : w.Upholds w') : w'.targets.stage? = w.targets.stage? :=
  Arena.stage?_of_roster (congrArg Prod.snd h.troupe)

lemma upholds_of_labels (htroupe : w'.troupe = w.troupe) (hlabels : ∀ id,
    (w'.targets.get? id).map Target.labels = (w.targets.get? id).map Target.labels) :
    w.Upholds w' where
  troupe := htroupe
  places hk _ id _ h := (Arena.locate?_of_labels hk
    (Arena.stage?_of_roster (congrArg Prod.snd htroupe)) (fun o _ => hlabels o) id).trans h

/-- Bubbles do not matter. -/
lemma upholds_of_hushed (htroupe : w'.troupe = w.troupe) (h : w'.hushed? = w.hushed?) :
    w.Upholds w' := by
  have hlabels : ∀ (w : World) id,
      (w.targets.get? id).map Target.labels = (w.hushed? id).map Target.labels := by
    intro w id
    rw [hushed?, Option.map_map]
    rfl
  exact upholds_of_labels htroupe fun id => by rw [hlabels, hlabels, h]

lemma upholds_new (w : World) (p : Program) (target : TargetId) :
    w.Upholds (Machine.new p target w).2 where
  troupe := Thread.troupe_new 0 0 p target w
  places hk _ _ _ h := hk.new h p target

lemma upholds_of_confined {own : TargetId} (htroupe : w'.troupe = w.troupe)
    (h : Arena.Confined own w.targets w'.targets) : w.Upholds w' := by
  refine upholds_of_labels htroupe fun id => ?_
  have hlive := Arena.contains_congr (layout_of_troupe htroupe) id
  rw [Arena.contains, Arena.contains] at hlive
  cases ht : w.targets.get? id with
  | none =>
    rw [ht, Option.isSome_none, Option.isSome_eq_false_iff, Option.isNone_iff_eq_none] at hlive
    rw [hlive]
  | some t =>
    rw [ht] at hlive
    obtain ⟨t', ht'⟩ := Option.isSome_iff_exists.1 hlive
    rw [ht', Option.map_some, Option.map_some, (h.kept id t t' ht ht').2]

end World

/-! ### Slices -/

namespace Machine

variable {p : Program} {m m' : Machine} {a : Arena} {w w' : World}

lemma Bound.upholds (h : m.Bound p w.targets) (hm : m'.home = m.home) (hw : w.Upholds w') :
    m'.Bound p w'.targets :=
  h.mono hm (fun _ _ => hw.places Shelf.stays_vars) fun _ _ => hw.places Shelf.stays_lists

lemma spares_slices (fuel : Nat) (p : Program) (passes : Nat) (hs : w.targets.Sound)
    (hm : m.Homed w.targets) : Spares (m, w) (Thread.slices fuel p passes m w) := by
  induction passes generalizing m w with
  | zero => exact .refl m hs
  | succ passes ih =>
    have hfirst := spares_run fuel p hs hm
    simp only [Thread.slices]
    split
    · next hyielded =>
      refine hfirst.trans (ih hfirst.sound (hfirst.homed hm)) ?_
      simp [beq_iff_eq.1 hyielded]
    · exact hfirst

end Machine

namespace Thread

variable {t : Thread} {w : World}

lemma spares_run (fuel : Nat) (hs : w.targets.Sound) (hm : t.machine.Homed w.targets) :
    Machine.Spares (t.machine, w) ((t.run fuel w).1.machine, (t.run fuel w).2) := by
  obtain ⟨hhome, hsound, hstage, hconfined, hremain⟩ :=
    Machine.spares_run (w := { w with currentThread := t.id }) fuel t.program hs hm
  exact ⟨hhome, hsound, hstage, hconfined, hremain⟩

lemma spares_runPredicate (fuel : Nat) (hs : w.targets.Sound) (hm : t.machine.Homed w.targets) :
    Machine.Spares (t.machine, w)
      ((t.runPredicate fuel w).2.1.machine, (t.runPredicate fuel w).2.2) := by
  unfold runPredicate
  split
  · exact .refl _ hs
  · obtain ⟨hhome, hsound, hstage, hconfined, hremain⟩ := Machine.spares_slices
      (w := { w with currentThread := t.id }) (m := t.machine.reset .predicate) fuel t.program
      maxPasses hs hm
    simp only [evaluate]
    split
    · exact ⟨hhome, hsound, hstage, hconfined, hremain⟩
    · exact ⟨hhome, hsound, hstage, hconfined, .inl rfl⟩

lemma upholds_releasePromise (t : Thread) (w : World) : w.Upholds (t.releasePromise w) :=
  World.upholds_of_hushed (t.troupe_releasePromise w) (t.hushed?_releasePromise w)

end Thread

/-! ### Threads and their places -/

namespace Engine

/-- Every thread that is not finished has its variables and lists in the places that its program leads
to, but for targets whose threads are still to be killed. The conditions have theirs on their targets or
on the stage. -/
structure Lodged (rs : List Request) (e : Engine) : Prop where
  sound : e.world.targets.Sound
  threads : ∀ t ∈ e.threads, t.isFinished = false →
    t.machine.Bound t.program e.world.targets ∨ .killThreadsOf t.target ∈ rs
  edges : ∀ g ∈ e.edges, g.thread.machine.Homed e.world.targets

section

variable {good : BlockMap → Prop} {rs rs' : List Request} {e e' : Engine} {x y : List Request × Engine}
  {index : Nat} {s : Script} {target : TargetId}

/-- The thread runs the same program in the same places as one that was there. -/
def Stayed (e : Engine) (t' : Thread) : Prop :=
  ∃ t ∈ e.threads, t.isFinished = false ∧ t'.program = t.program ∧ t'.machine.home = t.machine.home

lemma stayed_self {t : Thread} (ht : t ∈ e.threads) (hf : t.isFinished = false) : e.Stayed t :=
  ⟨t, ht, hf, rfl, rfl⟩

lemma lodged_of_no_threads (hs : e.world.targets.Sound) (hthreads : e.threads = [])
    (hedges : ∀ g ∈ e.edges, g.thread.machine.Homed e.world.targets) : Lodged rs e :=
  ⟨hs, by simp [hthreads], hedges⟩

/-- Nothing moves; threads and conditions stay, or are new. -/
lemma Lodged.upholds (h : Lodged rs e) (hw : e.world.Upholds e'.world)
    (hthreads : ∀ t' ∈ e'.threads, t'.isFinished = false →
      e.Stayed t' ∨ t'.machine.Bound t'.program e'.world.targets)
    (hedges : ∀ g' ∈ e'.edges, (∃ g ∈ e.edges, g'.thread.machine.home = g.thread.machine.home) ∨
      g'.thread.machine.Homed e'.world.targets)
    (hrs : ∀ target, .killThreadsOf target ∈ rs → .killThreadsOf target ∈ rs') : Lodged rs' e' := by
  refine ⟨h.sound.of_roster (congrArg Prod.snd hw.troupe), fun t' ht' hf => ?_, fun g' hg' => ?_⟩
  · rcases hthreads t' ht' hf with ⟨t, ht, hft, hprogram, hhome⟩ | hbound
    · have htarget : t'.target = t.target := congrArg Prod.fst hhome
      rw [hprogram, htarget]
      exact (h.threads t ht hft).imp (fun hbound => hbound.upholds hhome hw) (hrs t.target)
    · exact Or.inl hbound
  · rcases hedges g' hg' with ⟨g, hg, hhome⟩ | hhomed
    · exact (h.edges g hg).congr hhome fun _ hs => hw.stage?.trans hs
    · exact hhomed

/-- The world alone changes, and the same threads are left, or fewer. -/
lemma Lodged.still (h : Lodged rs e) (hw : e.world.Upholds e'.world)
    (hthreads : ∀ t ∈ e'.threads, t.isFinished = false → t ∈ e.threads)
    (hedges : ∀ g ∈ e'.edges, g ∈ e.edges)
    (hrs : ∀ target, .killThreadsOf target ∈ rs → .killThreadsOf target ∈ rs') : Lodged rs' e' :=
  h.upholds hw (fun t ht hf => Or.inl (stayed_self (hthreads t ht hf) hf))
    (fun g hg => Or.inl ⟨g, hedges g hg, rfl⟩) hrs

lemma Lodged.world (h : Lodged rs e) {w : World} (hw : w.targets = e.world.targets) :
    Lodged rs { e with world := w } := by
  constructor <;> simp only [hw]
  · exact h.sound
  · exact h.threads
  · exact h.edges

/-! ### Starts -/

lemma Lodged.startScript (h : Lodged rs e) (htarget : target ∈ e.family s.target) (restart : Bool) :
    Lodged rs (e.startScript index s target restart).2 := by
  rcases startScript_cases e index s target restart with ⟨xs, t, ys, hsplit, ht, heq⟩ | ⟨-, heq⟩
  · rw [heq]
    split
    · have hold : ∀ x ∈ xs ++ t :: ys, x.isFinished = false → e.Stayed x :=
        fun x hx => stayed_self (hsplit ▸ hx)
      have hnew : e.Stayed (t.restart e.world).1 :=
        ⟨t, by simp [hsplit], not_isFinished_of_isThreadOf ht, rfl, rfl⟩
      refine h.upholds (t.upholds_releasePromise e.world) (fun x hx hf => Or.inl ?_)
        (fun g hg => Or.inl ⟨g, hg, rfl⟩) fun _ hr => hr
      exact forall_mem_replace hold (fun _ => hnew) x hx hf
    · exact h
  · rw [heq]
    refine h.upholds (e.world.upholds_new s.program target) (fun x hx hf => ?_)
      (fun g hg => Or.inl ⟨g, hg, rfl⟩) fun _ hr => hr
    rcases List.mem_append.1 hx with hx | hx
    · exact Or.inl (stayed_self hx hf)
    · rw [List.mem_singleton.1 hx]
      exact Or.inr (Machine.bound_new (contains_of_mem_family htarget))

lemma Lodged.startHats (h : Lodged rs e) (p : Hat → Bool) (only : Option TargetId) (restart : Bool) :
    Lodged rs (e.startHats p only restart).2 := by
  refine startHats_induction (P := fun _ _ e => Lodged rs e) h fun _ c hc _ e' hset h' => ?_
  obtain ⟨-, -, htarget, -⟩ := mem_callings.1 hc
  rw [← family_congr hset] at htarget
  exact h'.startScript htarget restart

/-! ### Requests -/

lemma Lodged.served {r : Request} (h : Lodged (r :: rs) e) (hr : ∀ target, r ≠ .killThreadsOf target) :
    Lodged rs e :=
  ⟨h.sound, fun t ht hf => (h.threads t ht hf).imp_right fun hmem =>
    (List.mem_cons.1 hmem).resolve_left fun hsame => hr _ hsame.symm, h.edges⟩

lemma Lodged.kill (h : Lodged rs e) (p : Thread → Bool) : Lodged rs { e with
    world := (killThreads p e.threads e.world).2
    threads := (killThreads p e.threads e.world).1 } := by
  refine h.still (World.upholds_of_hushed (troupe_killThreads p e.threads e.world)
    (hushed?_killThreads p e.threads e.world)) (fun t ht hf => ?_) (fun g hg => hg) fun _ hr => hr
  rcases mem_killThreads ht with hfin | ⟨hmem, -⟩
  · rw [hf] at hfin
    cases hfin
  · exact hmem

lemma Lodged.killThreadsOf (h : Lodged (.killThreadsOf target :: rs) e) :
    Lodged rs (e.handle (.killThreadsOf target)) := by
  obtain ⟨sound, threads, edges⟩ := h.kill (·.target == target)
  refine ⟨sound, fun t ht hf => (threads t ht hf).imp_right fun hmem => ?_,
    fun g hg => edges g (List.mem_filter.1 hg).1⟩
  refine (List.mem_cons.1 hmem).resolve_left fun hsame => ?_
  rcases mem_killThreads ht with hfin | ⟨-, hnot⟩
  · rw [hf] at hfin
    cases hfin
  · cases hsame
    simp at hnot

/-- The stage outlives a stop. -/
lemma succeeds_stop (e : Engine) : e.world.targets.Succeeds e.stop.world.targets := by
  have hfold : ∀ (ids : List TargetId) (w : World),
      w.targets.Succeeds (ids.foldl World.deleteClone w).targets := by
    intro ids
    induction ids with
    | nil => exact fun w => .refl _
    | cons id ids ih => exact fun w => (w.succeeds_deleteClone id).trans (ih _)
  exact (World.succeeds_of_troupe e.troupe_released).trans
    ((hfold _ e.released).trans (World.succeeds_of_troupe e.troupe_stop))

lemma Lodged.stop (h : Lodged rs e) (rs' : List Request) : Lodged rs' e.stop := by
  refine lodged_of_no_threads (e.succeeds_stop.sound h.sound) rfl fun g hg => ?_
  exact (h.edges g (List.mem_filter.1 hg).1).congr rfl (e.succeeds_stop.stage h.sound)

lemma Lodged.handle {r : Request} (h : Lodged (r :: rs) e) : Lodged rs (e.handle r) := by
  cases r with
  | broadcast name promise =>
    have hstart := (h.served (by simp)).startHats (· == .broadcast (Text.lowercase name)) none true
    cases promise with
    | none => exact hstart
    | some p => exact ⟨hstart.sound, hstart.threads, hstart.edges⟩
  | startClone clone => exact (h.served (by simp)).startHats _ _ _
  | killThreadsOf target => exact h.killThreadsOf
  | stopAll => exact h.stop rs
  | stopOthers target except => exact (h.served (by simp)).kill _

lemma Lodged.foldl_handle (h : Lodged rs e) : Lodged [] (rs.foldl Engine.handle e) := by
  induction rs generalizing e with
  | nil => exact h
  | cons r rs ih => exact ih h.handle

/-! ### Slices -/

lemma Lodged.bound (h : Lodged [] e) {t : Thread} (ht : t ∈ e.threads) (hf : t.isFinished = false) :
    t.machine.Bound t.program e.world.targets :=
  (h.threads t ht hf).resolve_right List.not_mem_nil

/-- A slice moves nothing of those who are there afterwards. If it deletes its own clone, a request is
left to kill the threads of the clone. -/
lemma Lodged.turn (h : Lodged [] e) (htable : Table [] e) (hidle : e.world.requests = []) {i : Nat}
    {t : Thread} (ht : e.threads[i]? = some t) (hf : t.isFinished = false) (fuel : Nat) :
    Lodged (t.run fuel e.world).2.requests { e with
      world := { (t.run fuel e.world).2 with requests := [] }
      threads := e.threads.set i (t.run fuel e.world).1 } := by
  have hmem : t ∈ e.threads := List.mem_of_getElem? ht
  have hspares := t.spares_run fuel h.sound (h.bound hmem hf).homed
  have hafter := htable.turn hidle ht hf fuel
  refine ⟨hspares.sound, fun x hx hfx => ?_, fun g hg => (h.edges g hg).congr rfl fun _ hs =>
    hspares.stage.trans hs⟩
  obtain ⟨x₀, hx₀, hfx₀, hprogram, hhome⟩ : e.Stayed x := by
    rcases List.mem_or_eq_of_mem_set hx with hold | rfl
    · exact stayed_self hold hfx
    · exact ⟨t, hmem, hf, rfl, hspares.home⟩
  refine (hafter.hosted x hx hfx).imp_left ?_
  rintro ⟨s, -, -, hfamily⟩
  have hlive' := contains_of_mem_family hfamily
  have htarget : x.target = x₀.target := congrArg Prod.fst hhome
  rw [htarget] at hlive'
  have hlive := htable.contains_target hx₀ hfx₀
  rw [hprogram]
  refine (h.bound hx₀ hfx₀).mono hhome (fun id _ hs => ?_) fun id _ hs => ?_
  · exact (hspares.confined.locate? Shelf.stays_vars hspares.stage hlive hlive' id).trans hs
  · exact (hspares.confined.locate? Shelf.stays_lists hspares.stage hlive hlive' id).trans hs

lemma Lodged.edge (h : Lodged rs e) (index : Nat) (s : Script) (target : TargetId) :
    Lodged rs (e.edge index s target).2 := by
  unfold Engine.edge
  split
  · exact h
  · refine h.upholds (e.world.upholds_new s.program target)
      (fun x hx hf => Or.inl (stayed_self hx hf)) (fun g hg => ?_) fun _ hr => hr
    rcases List.mem_append.1 hg with hg | hg
    · exact Or.inl ⟨g, hg, rfl⟩
    · rw [List.mem_singleton.1 hg]
      exact Or.inr (Machine.homed_new s.program target e.world)

/-- A condition is evaluated in a slice of its own, in which no target comes or goes. -/
lemma Lodged.condition (hgood : ∀ b, good b → b.Playable) (h : Lodged rs e) (hsound : Sound good e)
    (hnone : e.fault = none) (hs : e.scripts[index]? = some s) (htarget : target ∈ e.family s.target)
    (fuel : Nat) (hrun : ((e.edge index s target).1.thread.runPredicate fuel
      (e.edge index s target).2.world).2.1.machine.isFaulted = false) :
    Lodged rs (evaluateEdge fuel index s e target) := by
  have hmove : Move ([], e) ([], (e.edge index s target).2) := .watch hs target
  have hwatch : Sound good (e.edge index s target).2 := hsound.move hgood hmove
  have hedge := h.edge index s target
  have hmem := edge_mem e index s target
  have hset : (e.edge index s target).2.setting = e.setting := by
    unfold Engine.edge
    split
    · rfl
    · exact setting_congr rfl (Thread.troupe_new e.nextThread index s.program target e.world)
  simp only [evaluateEdge, hnone, Option.isSome_none, Bool.false_eq_true, if_false, noteFault_eq hrun]
  generalize (e.edge index s target).2 = e' at hwatch hedge hmem hset ⊢
  generalize (e.edge index s target).1 = g at hmem ⊢
  have htroupe := hwatch.troupe_runPredicate hgood hmem fuel
  have hspares := g.thread.spares_runPredicate fuel hedge.sound (hedge.edges g hmem)
  have hnoted : Lodged rs { e' with
      world := (g.thread.runPredicate fuel e'.world).2.2
      edges := e'.edges.map fun x => if isEdgeOf index target x then
        { x with
          value := (g.thread.runPredicate fuel e'.world).1
          thread := (g.thread.runPredicate fuel e'.world).2.1 } else x } := by
    refine hedge.upholds (World.upholds_of_confined htroupe hspares.confined)
      (fun x hx hf => Or.inl (stayed_self hx hf)) (fun x hx => ?_) fun _ hr => hr
    obtain ⟨x₀, hx₀, rfl⟩ := List.mem_map.1 hx
    split
    · exact Or.inl ⟨g, hmem, hspares.home⟩
    · exact Or.inl ⟨x₀, hx₀, rfl⟩
  split
  · refine hnoted.startScript (mem_family.2 ?_) false
    rw [← family_congr hset, mem_family] at htarget
    rwa [Arena.origin?_congr (World.layout_of_troupe htroupe)]
  · exact hnoted

/-! ### Beats -/

lemma Lodged.beat (hgood : ∀ b, good b → b.Playable) (hx : Visited good x) (h : Lodged x.1 x.2)
    {ids : List ThreadId} (k : Beat x ids y) : Lodged y.1 y.2 := by
  obtain ⟨hsound, hnone, -⟩ := hx.sound hgood
  cases k with
  | handle r rs e => exact h.handle
  | turn fuel ht hf _ => exact h.turn (hx.table hgood) hsound.idle ht hf fuel
  | condition fuel hs _ htarget hrun => exact h.condition hgood hsound hnone hs htarget fuel hrun
  | resolve e => exact ⟨h.sound, h.threads, h.edges⟩
  | sweep e => exact ⟨h.sound, fun t ht => h.threads t (List.mem_filter.1 ht).1, h.edges⟩

lemma Lodged.beats (hgood : ∀ b, good b → b.Playable) (hx : Visited good x) (h : Lodged x.1 x.2)
    (k : Beats x y) : Lodged y.1 y.2 := by
  induction k with
  | refl => exact h
  | tail hbeats k ih =>
    obtain ⟨ids, k⟩ := k
    exact ih.beat hgood (hx.beats hbeats) k

end

end Engine

end Blockwork
