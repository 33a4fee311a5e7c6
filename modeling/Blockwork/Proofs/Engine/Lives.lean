import Blockwork.Proofs.Engine.Stopped
import Blockwork.Proofs.Machine.Lineage

/-!
The life of a clone. It comes in the slice of some thread, which leaves a request to start its scripts;
the request is handled before the next slice, and no clone is deleted before that. Nothing else starts
a script for new clones, so each of them is started once. Meanwhile other scripts may have been started
on the clone: those of a broadcast that was asked for before.
-/

namespace Blockwork.Engine

section

variable {good : BlockMap → Prop} {rs : List Request} {x y : List Request × Engine} {e e' : Engine}
  {ids : List ThreadId}

/-! ### What a deed does -/

lemma troupe_startHats (e : Engine) (p : Hat → Bool) (only : Option TargetId) (restart : Bool) :
    (e.startHats p only restart).2.scripts = e.scripts ∧
      (e.startHats p only restart).2.world.troupe = e.world.troupe := by
  refine startHats_induction (P := fun _ _ e' => e'.scripts = e.scripts ∧
    e'.world.troupe = e.world.troupe) ⟨rfl, rfl⟩ fun _ c _ _ e' _ h => ?_
  obtain ⟨hscripts, htroupe⟩ := troupe_startScript e' c.index c.script c.target restart
  exact ⟨hscripts.trans h.1, htroupe.trans h.2⟩

/-- A deed that leaves everyone where they are. Scripts for new clones are started by request only. -/
structure Still (x : List Request × Engine) (ids : List ThreadId) (y : List Request × Engine) : Prop where
  scripts : y.2.scripts = x.2.scripts
  troupe : y.2.world.troupe = x.2.world.troupe
  started : ∀ t ∈ y.2.threads, t.id ∈ ids → ∃ s, x.2.scripts[t.script]? = some s ∧
    (s.hat = .cloneStart → x.1.head? = some (.startClone t.target))
  others : ∀ t ∈ y.2.threads, t.id ∈ ids ∨ ∃ t₀ ∈ x.2.threads, t₀.Ages t
  requests : ∀ c, y.1.count (.startClone c) = x.1.tail.count (.startClone c)

/-- Nothing is started. -/
lemma still_of_ages (hscripts : y.2.scripts = x.2.scripts)
    (htroupe : y.2.world.troupe = x.2.world.troupe)
    (hthreads : ∀ t ∈ y.2.threads, ∃ t₀ ∈ x.2.threads, t₀.Ages t)
    (hrequests : ∀ c, y.1.count (.startClone c) = x.1.tail.count (.startClone c)) : Still x [] y :=
  ⟨hscripts, htroupe, fun _ _ hid => (List.not_mem_nil hid).elim,
    fun t ht => Or.inr (hthreads t ht), hrequests⟩

lemma still_of_eq (hscripts : y.2.scripts = x.2.scripts)
    (htroupe : y.2.world.troupe = x.2.world.troupe) (hthreads : y.2.threads = x.2.threads)
    (hrequests : ∀ c, y.1.count (.startClone c) = x.1.tail.count (.startClone c)) : Still x [] y :=
  still_of_ages hscripts htroupe (fun t ht => ⟨t, hthreads ▸ ht, .refl t⟩) hrequests

/-- Scripts with some hat are started. -/
lemma Table.still (h : Table rs x.2) {p : Hat → Bool} {only : Option TargetId} {restart : Bool}
    (hp : ∀ c ∈ x.2.callings p only, c.script.hat = .cloneStart →
      x.1.head? = some (.startClone c.target))
    (hy : y.2.scripts = (x.2.startHats p only restart).2.scripts ∧
      y.2.world = (x.2.startHats p only restart).2.world ∧
      y.2.threads = (x.2.startHats p only restart).2.threads)
    (hrequests : ∀ c, y.1.count (.startClone c) = x.1.tail.count (.startClone c)) :
    Still x (x.2.startHats p only restart).1 y := by
  obtain ⟨hscripts, htroupe⟩ := troupe_startHats x.2 p only restart
  have hroused := h.roused p only restart
  obtain ⟨hyscripts, hyworld, hythreads⟩ := hy
  refine ⟨hyscripts.trans hscripts, (congrArg World.troupe hyworld).trans htroupe, fun t ht hid => ?_,
    fun t ht => ?_, hrequests⟩
  · rw [hythreads] at ht
    obtain ⟨c, hc, hscript, htarget⟩ := hroused.called t ht hid
    obtain ⟨hs, -⟩ := mem_callings.1 hc
    refine ⟨c.script, hscript ▸ hs, fun hhat => ?_⟩
    rw [htarget]
    exact hp c hc hhat
  · rw [hythreads] at ht
    exact (hroused.others t ht).imp_right fun ht => ⟨t, ht, .refl t⟩

lemma Table.still_handle {r : Request} (h : Table (r :: rs) e) (hr : r ≠ .stopAll) :
    Still (r :: rs, e) (e.roused r) (rs, e.handle r) := by
  cases r with
  | broadcast name promise =>
    refine h.still (fun c hc hhat => ?_) ?_ fun _ => rfl
    · obtain ⟨-, hp, -⟩ := mem_callings.1 hc
      simp [hhat] at hp
    · cases promise <;> exact ⟨rfl, rfl, rfl⟩
  | startClone clone =>
    refine h.still (fun c hc _ => ?_) ⟨rfl, rfl, rfl⟩ fun _ => rfl
    obtain ⟨-, -, -, honly⟩ := mem_callings.1 hc
    have hsame : clone = c.target := by simpa using honly
    rw [hsame]
    rfl
  | stopAll => exact absurd rfl hr
  | killThreadsOf target =>
    exact still_of_ages rfl (troupe_killThreads _ e.threads e.world)
      (exists_of_forall₂ (ages_killThreads _ e.threads e.world)) fun _ => rfl
  | stopOthers target except =>
    exact still_of_ages rfl (troupe_killThreads _ e.threads e.world)
      (exists_of_forall₂ (ages_killThreads _ e.threads e.world)) fun _ => rfl

lemma Table.still_condition (hgood : ∀ b, good b → b.Playable) (h : Table [] e)
    (hsound : Sound good e) (hnone : e.fault = none) {index : Nat} {s : Script} {target : TargetId}
    {fuel : Nat} (hs : e.scripts[index]? = some s) (hhat : s.hat = .edge)
    (hrun : ((e.edge index s target).1.thread.runPredicate fuel
      (e.edge index s target).2.world).2.1.machine.isFaulted = false) :
    Still ([], e) (((evaluateEdge fuel index s e target).threads.filter
      (e.nextThread ≤ ·.id)).map (·.id)) ([], evaluateEdge fuel index s e target) := by
  obtain ⟨e', hnotes, heq⟩ := hsound.notes hgood hnone hs hrun
  have hscripts : (evaluateEdge fuel index s e target).scripts = e.scripts ∧
      (evaluateEdge fuel index s e target).world.troupe = e.world.troupe := by
    obtain ⟨hstart, htroupe⟩ := troupe_startScript e' index s target false
    rcases heq with heq | heq
    · rw [heq]
      exact ⟨hnotes.scripts, hnotes.troupe⟩
    · rw [heq]
      exact ⟨hstart.trans hnotes.scripts, htroupe.trans hnotes.troupe⟩
  -- a new thread runs this script, and the others were there before
  have hthreads : ∀ t ∈ (evaluateEdge fuel index s e target).threads,
      t ∈ e.threads ∨ e.nextThread ≤ t.id ∧ t.script = index := by
    intro t ht
    rcases heq with heq | heq
    · rw [heq, hnotes.threads] at ht
      exact Or.inl ht
    · rw [heq] at ht
      rcases startScript_cases e' index s target false with ⟨xs, u, ys, -, -, hcase⟩ | ⟨-, hcase⟩
      · rw [hcase, if_neg Bool.false_ne_true, hnotes.threads] at ht
        exact Or.inl ht
      · rw [hcase] at ht
        rcases List.mem_append.1 ht with ht | ht
        · exact Or.inl (hnotes.threads ▸ ht)
        · rw [List.mem_singleton.1 ht]
          exact Or.inr ⟨hnotes.next, rfl⟩
  refine ⟨hscripts.1, hscripts.2, fun t ht hid => ?_, fun t ht => ?_, fun _ => rfl⟩
  · obtain ⟨t', ht', hsame⟩ := List.mem_map.1 hid
    obtain ⟨-, hnew⟩ := List.mem_filter.1 ht'
    have hnew : e.nextThread ≤ t.id := hsame ▸ of_decide_eq_true hnew
    rcases hthreads t ht with hold | ⟨-, hscript⟩
    · exact absurd (h.below t hold) (Nat.not_lt.2 hnew)
    · refine ⟨s, hscript ▸ hs, fun hclone => ?_⟩
      rw [hhat] at hclone
      cases hclone
  · rcases hthreads t ht with hold | ⟨hnew, -⟩
    · exact Or.inr ⟨t, hold, .refl t⟩
    · exact Or.inl (List.mem_map.2 ⟨t, List.mem_filter.2 ⟨ht, decide_eq_true hnew⟩, rfl⟩)

/-- Who there is changes only by a slice, a stop, or someone who is added. -/
lemma Deed.cases (hgood : ∀ b, good b → b.Playable) (hx : Visited good x) (k : Deed good x ids y) :
    Still x ids y ∨
    (∃ e i t fuel, x = ([], e) ∧ ids = [] ∧ e.threads[i]? = some t ∧ t.isFinished = false ∧
      y = ((t.run fuel e.world).2.requests, { e with
        world := { (t.run fuel e.world).2 with requests := [] }
        threads := e.threads.set i (t.run fuel e.world).1 })) ∨
    (y.1 = [] ∧ y.2.world = x.2.stop.world ∧ y.2.threads = [] ∧
      (y.2.scripts = x.2.scripts ∨ y.2 = x.2.compile)) ∨
    ∃ e t, x = ([], e) ∧ ids = [] ∧ t.cloneOf = none ∧ y = ([], e.addTarget t) := by
  have htable := hx.table hgood
  obtain ⟨hsound, hnone, -⟩ := hx.sound hgood
  cases k with
  | beat h =>
    cases h with
    | handle r rs e =>
      by_cases hr : r = .stopAll
      · subst hr
        exact Or.inr (Or.inr (Or.inl ⟨(hx.stopsLast hgood).eq_nil, rfl, rfl, Or.inl rfl⟩))
      · exact Or.inl (htable.still_handle hr)
    | turn fuel ht hf hrun => exact Or.inr (Or.inl ⟨_, _, _, fuel, rfl, rfl, ht, hf, rfl⟩)
    | condition fuel hs hhat _ hrun =>
      exact Or.inl (htable.still_condition hgood hsound hnone hs hhat hrun)
    | resolve e => exact Or.inl (still_of_eq rfl rfl rfl fun _ => rfl)
    | sweep e =>
      exact Or.inl (still_of_ages rfl rfl (fun t ht => ⟨t, (List.mem_filter.1 ht).1, .refl t⟩)
        fun _ => rfl)
  | @hats e p hp only restart =>
    refine Or.inl (htable.still (fun c hc hhat => ?_) ⟨rfl, rfl, rfl⟩ fun _ => rfl)
    obtain ⟨-, hcalled, -⟩ := mem_callings.1 hc
    rw [hhat, hp] at hcalled
    cases hcalled
  | stop e => exact Or.inr (Or.inr (Or.inl ⟨rfl, rfl, rfl, Or.inl rfl⟩))
  | compile e => exact Or.inr (Or.inr (Or.inl ⟨rfl, rfl, rfl, Or.inr rfl⟩))
  | answer e text =>
    exact Or.inl (still_of_eq rfl (e.world.troupe_answerQuestion text) rfl fun _ => rfl)
  | broadcast e name => exact Or.inl (still_of_eq rfl rfl rfl (by simp))
  | add e t _ hclone => exact Or.inr (Or.inr (Or.inr ⟨e, t, rfl, rfl, hclone, rfl⟩))
  | outside e w _ _ ht => exact Or.inl (still_of_eq rfl ht rfl fun _ => rfl)

/-! ### Originals -/

lemma lineage_deleteClones (ids : List TargetId) {w : World} (h : w.Lineage) :
    (ids.foldl World.deleteClone w).Lineage ∧ w.Follows (ids.foldl World.deleteClone w) := by
  induction ids generalizing w with
  | nil => exact ⟨h, World.follows_of_troupe rfl⟩
  | cons id ids ih =>
    obtain ⟨rs, hchange⟩ := w.change_deleteClone id
    obtain ⟨hl, hf⟩ := hchange.lineage h
    obtain ⟨hl', hf'⟩ := ih hl
    exact ⟨hl', hf.trans hf'⟩

lemma lineage_stop (h : e.world.Lineage) : e.stop.world.Lineage ∧ e.world.Follows e.stop.world := by
  obtain ⟨hl, hf⟩ := lineage_deleteClones e.released.targets.ids (h.congr e.troupe_released)
  exact ⟨hl.congr e.troupe_stop, (World.follows_of_troupe e.troupe_released).trans
    (hf.trans (World.follows_of_troupe e.troupe_stop))⟩

/-- The clones are in order, and every script belongs to an original. -/
structure Rooted (e : Engine) : Prop where
  lineage : e.world.Lineage
  scripts : ∀ s ∈ e.scripts, ∃ role, e.world.targets.role? s.target = some role ∧ role.cloneOf = none

/-- While the scripts stay the same, it is enough that the originals do. -/
lemma Rooted.follow (h : Rooted e) (hs : e'.scripts = e.scripts)
    (hk : e'.world.Lineage ∧ e.world.Follows e'.world) :
    Rooted e' ∧ e.world.Follows e'.world := by
  refine ⟨⟨hk.1, fun s hmem => ?_⟩, hk.2⟩
  obtain ⟨role, hrole, hnone⟩ := h.scripts s (hs ▸ hmem)
  exact ⟨role, hk.2.originals hrole hnone, hnone⟩

/-- The scripts of an original are compiled under its id. -/
lemma Rooted.compile (h : Rooted e) : Rooted e.compile ∧ e.world.Follows e.compile.world := by
  obtain ⟨hl, hf⟩ := lineage_stop h.lineage
  refine ⟨⟨hl, fun s hmem => ?_⟩, hf⟩
  simp only [Engine.compile, List.mem_flatMap, List.mem_map, List.mem_filter] at hmem
  obtain ⟨_, ⟨⟨id, t⟩, ⟨hlive, hclone⟩, rfl⟩, hs⟩ := hmem
  obtain ⟨hat, -, rfl⟩ := List.mem_map.1 hs
  have hnone : t.cloneOf = none := by simpa [Target.isClone] using hclone
  exact ⟨t.role, Arena.role?_eq_some.2 ⟨t, Arena.mem_live.1 hlive, rfl⟩, hnone⟩

lemma Rooted.add (h : Rooted e) {t : Target} (hclone : t.cloneOf = none) :
    Rooted (e.addTarget t) ∧ e.world.Follows (e.addTarget t).world := by
  refine h.follow rfl (h.lineage.insert ?_ (fun r hr => ?_) rfl rfl)
  · simpa [Target.isClone, hclone] using h.lineage.limit
  · rw [hclone] at hr
    cases hr

lemma Rooted.deed (hgood : ∀ b, good b → b.Playable) (hx : Visited good x) (h : Rooted x.2)
    (k : Deed good x ids y) : Rooted y.2 ∧ x.2.world.Follows y.2.world := by
  rcases k.cases hgood hx with hstill | ⟨e, i, t, fuel, rfl, -, -, -, rfl⟩ |
    ⟨-, hworld, -, hscripts | hcompile⟩ | ⟨e, t, rfl, -, hclone, rfl⟩
  · exact h.follow hstill.scripts
      ⟨h.lineage.congr hstill.troupe, World.follows_of_troupe hstill.troupe⟩
  · obtain ⟨hl, hf⟩ := (t.changes_run fuel (hx.sound hgood).1.idle).2.lineage h.lineage
    exact h.follow rfl ⟨hl.congr rfl, hf.trans (World.follows_of_troupe rfl)⟩
  · refine h.follow hscripts ?_
    rw [hworld]
    exact lineage_stop h.lineage
  · rw [hcompile]
    exact h.compile
  · exact h.add hclone

end

/-! ### Tours -/

/-- The states between the deeds, from a new engine on. -/
inductive Toured (good : BlockMap → Prop) : List Request × Engine → Prop
  | new (config : Config) (host : Host) : Toured good ([], .new config host)
  | deed {x y : List Request × Engine} {ids : List ThreadId} (h : Toured good x)
      (k : Deed good x ids y) : Toured good y

/-- The worlds of a state: the one between two deeds, and those in the middle of a slice. -/
inductive Seen (x : List Request × Engine) : World → Prop
  | between : Seen x x.2.world
  | within {i : Nat} {t : Thread} {m : Machine} {w : World} (hx : x.1 = [])
      (ht : x.2.threads[i]? = some t) (hf : t.isFinished = false)
      (hrun : Machine.Runs t.program (t.machine.wake, { x.2.world with currentThread := t.id }) (m, w)) :
      Seen x w

/-- The clones whose scripts are to be started are there, and each of them is asked for once. -/
structure Expects (x : List Request × Engine) : Prop where
  once : ∀ c, x.1.count (.startClone c) ≤ 1
  live : ∀ c, .startClone c ∈ x.1 → x.2.world.targets.contains c = true

section

variable {good : BlockMap → Prop} {x y : List Request × Engine} {e e' : Engine} {ids : List ThreadId}

lemma Toured.visited (h : Toured good x) : Visited good x := by
  induction h with
  | new config host => exact .new config host
  | deed _ k ih => exact ih.act k.act

lemma Toured.deeds (h : Toured good x) (k : Deeds good x y) : Toured good y := by
  induction k with
  | refl => exact h
  | tail _ k ih =>
    obtain ⟨ids, k⟩ := k
    exact ih.deed k

lemma Toured.order (hgood : ∀ b, good b → b.Playable) (h : Toured good ([], e)) (ho : Order e e') :
    Toured good ([], e') :=
  h.deeds (ho.deeds hgood h.visited)

lemma Toured.rooted (hgood : ∀ b, good b → b.Playable) (h : Toured good x) : Rooted x.2 := by
  induction h with
  | new config host =>
    refine ⟨⟨Nat.zero_le _, fun {id} _ _ hid => ?_, Arena.tidy_empty⟩, by simp [Engine.new]⟩
    have hnobody : Arena.empty.role? id = none := rfl
    cases hnobody.symm.trans hid
  | deed hx k ih => exact (ih.deed hgood hx.visited k).1

/-- The originals are never gone. -/
lemma Toured.follows (hgood : ∀ b, good b → b.Playable) (h : Toured good x) (k : Deeds good x y) :
    x.2.world.Follows y.2.world := by
  induction k with
  | refl => exact World.follows_of_troupe rfl
  | tail hk k ih =>
    obtain ⟨ids, k⟩ := k
    have hy := h.deeds hk
    exact ih.trans ((hy.rooted hgood).deed hgood hy.visited k).2

lemma Rooted.seen (h : Rooted x.2) {w : World} (k : Seen x w) : w.Lineage ∧ x.2.world.Follows w := by
  cases k with
  | between => exact ⟨h.lineage, World.follows_of_troupe rfl⟩
  | within _ _ _ hrun =>
    obtain ⟨-, rs, hchanges, -⟩ := Machine.changes_runs hrun
    exact (hchanges.after (w := x.2.world) rfl rfl).lineage h.lineage

/-- A slice makes clones that were not there. -/
lemma Visited.comes (hgood : ∀ b, good b → b.Playable) (hx : Visited good ([], e)) {i : Nat} {t : Thread}
    (ht : e.threads[i]? = some t) (hf : t.isFinished = false) (fuel : Nat) :
    World.Comes t.target (t.run fuel e.world).2.requests e.world (t.run fuel e.world).2 := by
  have htable := hx.table hgood
  exact (t.changes_run fuel (hx.sound hgood).1.idle).2.comes htable.tidy
    (htable.contains_target (List.mem_of_getElem? ht) hf)

lemma Expects.deed (hgood : ∀ b, good b → b.Playable) (hx : Visited good x) (h : Expects x)
    (k : Deed good x ids y) : Expects y := by
  rcases k.cases hgood hx with hstill | ⟨e, i, t, fuel, rfl, -, ht, hf, rfl⟩ |
    ⟨hnone, -⟩ | ⟨e, t, rfl, -, -, rfl⟩
  · have hle : ∀ c, y.1.count (.startClone c) ≤ x.1.count (.startClone c) := by
      intro c
      rw [hstill.requests]
      exact (List.tail_sublist x.1).count_le _
    refine ⟨fun c => Nat.le_trans (hle c) (h.once c), fun c hc => ?_⟩
    rw [Arena.contains_congr (World.layout_of_troupe hstill.troupe)]
    exact h.live c (List.count_pos_iff.1 (Nat.lt_of_lt_of_le (List.count_pos_iff.2 hc) (hle c)))
  · have hcomes := hx.comes hgood ht hf fuel
    refine ⟨hcomes.once, fun c hc => (hcomes.others c ?_).2 (Or.inr hc)⟩
    -- the target of the slice is not new
    rintro rfl
    have hlive := (hx.table hgood).contains_target (List.mem_of_getElem? ht) hf
    rw [hcomes.fresh _ hc] at hlive
    cases hlive
  · exact ⟨by simp [hnone], by simp [hnone]⟩
  · exact ⟨by simp, by simp⟩

lemma Toured.expects (hgood : ∀ b, good b → b.Playable) (h : Toured good x) : Expects x := by
  induction h with
  | new config host => exact ⟨by simp, by simp⟩
  | deed hx k ih => exact ih.deed hgood hx.visited k

end

/-! ### Lives -/

/-- How often a script was started on a target, when these threads were started. -/
def starts (e : Engine) (ids : List ThreadId) (index : Nat) (c : TargetId) : Nat :=
  ids.countP fun id => e.threads.any fun t => t.id == id && t.script == index && t.target == c

/-- A clone lives from the deed in which it comes, and a script was started on it so often since then. -/
inductive Life (good : BlockMap → Prop) (c : TargetId) (index : Nat) :
    List Request × Engine → Nat → Prop
  | born {x y : List Request × Engine} {ids : List ThreadId} {r : TargetId} (h : Toured good x)
      (k : Deed good x ids y) (hx : x.2.world.targets.contains c = false)
      (hy : y.2.world.targets.origin? c = some (some r)) :
      Life good c index y (y.2.starts ids index c)
  | deed {x y : List Request × Engine} {ids : List ThreadId} {n : Nat} (h : Life good c index x n)
      (k : Deed good x ids y) (hlive : y.2.world.targets.contains c = true) :
      Life good c index y (n + y.2.starts ids index c)

/-- A clone of `r` after so many starts of a script. A script for new clones waits until the clone is
told that it is there; then it is started if it is one of the original. -/
structure Reared (c r : TargetId) (index : Nat) (x : List Request × Engine) (n : Nat) : Prop where
  origin : x.2.world.targets.origin? c = some (some r)
  waits : .startClone c ∈ x.1 → ∀ s, x.2.scripts[index]? = some s → s.hat = .cloneStart →
    n = 0 ∧ ∀ t ∈ x.2.threads, isThreadOf index c t = false
  told : .startClone c ∉ x.1 → ∀ s, x.2.scripts[index]? = some s → s.hat = .cloneStart →
    n = if s.target = r then 1 else 0

section

variable {good : BlockMap → Prop} {rs : List Request} {x y : List Request × Engine} {e e' : Engine}
  {ids : List ThreadId} {c r : TargetId} {index n : Nat}

lemma starts_eq_zero (h : ∀ t ∈ e.threads, t.id ∈ ids → t.script = index → t.target ≠ c) :
    e.starts ids index c = 0 := by
  refine List.countP_eq_zero.2 fun id hid hany => ?_
  obtain ⟨t, ht, heq⟩ := List.any_eq_true.1 hany
  simp only [Bool.and_eq_true, beq_iff_eq] at heq
  exact h t ht (heq.1.1 ▸ hid) heq.1.2 heq.2

lemma starts_eq_one (hnodup : ids.Nodup) {t : Thread} (ht : t ∈ e.threads) (hid : t.id ∈ ids)
    (hscript : t.script = index) (htarget : t.target = c)
    (honly : ∀ t' ∈ e.threads, t'.id ∈ ids → t'.script = index → t'.target = c → t' = t) :
    e.starts ids index c = 1 := by
  have hsame : e.starts ids index c = ids.count t.id := by
    refine List.countP_congr fun id hmem => ?_
    simp only [List.any_eq_true, Bool.and_eq_true, beq_iff_eq]
    constructor
    · rintro ⟨t', ht', ⟨hid', hscript'⟩, htarget'⟩
      rw [← hid', honly t' ht' (hid' ▸ hmem) hscript' htarget']
    · rintro rfl
      exact ⟨t, ht, ⟨rfl, hscript⟩, htarget⟩
  rw [hsame, List.count_eq_one_of_mem hnodup hid]

lemma contains_of_origin (h : e.world.targets.origin? c = some (some r)) :
    e.world.targets.contains c = true := by
  rw [Arena.contains_eq, h]
  rfl

/-- Only originals outlive a stop. -/
lemma contains_stop :
    e.stop.world.targets.contains c = true ↔ e.world.targets.origin? c = some none := by
  rw [Arena.contains, get?_stop, World.hushed?, Arena.origin?]
  cases e.world.targets.get? c with
  | none => simp
  | some t => cases h : t.cloneOf <;> simp [Option.filter, Target.hushed, Target.isClone, h]

lemma isThreadOf_eq_false {t : Thread} : isThreadOf index c t = false ↔
    (t.isFinished = false → t.script = index → t.target ≠ c) := by
  unfold isThreadOf
  cases t.isFinished with
  | true => simp
  | false => simpa using imp_not_comm

/-- A clone is in the family of its original only, for no script belongs to a clone. -/
lemma Rooted.mem_family_iff (h : Rooted e) {s : Script} (hs : s ∈ e.scripts)
    (ho : e.world.targets.origin? c = some (some r)) : c ∈ e.family s.target ↔ s.target = r := by
  obtain ⟨role, hrole, hnone⟩ := h.scripts s hs
  have hne : c ≠ s.target := by
    rintro rfl
    cases ho.symm.trans (Arena.origin?_eq_some.2 ⟨role, hrole, hnone⟩)
  rw [mem_family]
  constructor
  · rintro ⟨o, ho', hroot⟩
    cases ho.symm.trans ho'
    exact (Option.some.inj (hroot.resolve_left hne)).symm
  · rintro rfl
    exact ⟨_, ho, Or.inr rfl⟩

/-- A clone that is not told anything. -/
lemma Still.reared (hstill : Still x ids y) (h : Reared c r index x n)
    (hhead : x.1.head? ≠ some (.startClone c)) :
    Reared c r index y (n + y.2.starts ids index c) := by
  have hlayout := World.layout_of_troupe hstill.troupe
  have hpending : .startClone c ∈ y.1 ↔ .startClone c ∈ x.1 := by
    rw [← List.count_pos_iff, hstill.requests, List.count_pos_iff]
    cases hx : x.1 with
    | nil => rfl
    | cons r rs =>
      rw [hx, List.head?_cons, ne_eq, Option.some.injEq] at hhead
      rw [List.tail_cons, List.mem_cons, or_iff_right (fun hc => hhead hc.symm)]
  have hold : ∀ s, x.2.scripts[index]? = some s → s.hat = .cloneStart →
      ∀ t ∈ y.2.threads, t.id ∈ ids → t.script = index → t.target ≠ c := by
    rintro s hs hhat t ht hid rfl rfl
    obtain ⟨s', hs', hclone⟩ := hstill.started t ht hid
    cases hs.symm.trans hs'
    exact hhead (hclone hhat)
  refine ⟨(Arena.origin?_congr hlayout c).trans h.origin, fun hmem s hs hhat => ?_,
    fun hnot s hs hhat => ?_⟩
  · rw [hstill.scripts] at hs
    obtain ⟨hnone, hidle⟩ := h.waits (hpending.1 hmem) s hs hhat
    refine ⟨by rw [hnone, starts_eq_zero (hold s hs hhat)], fun t ht => ?_⟩
    rw [isThreadOf_eq_false]
    intro hf hscript htarget
    rcases hstill.others t ht with hid | ⟨t₀, ht₀, hages⟩
    · exact hold s hs hhat t ht hid hscript htarget
    · exact isThreadOf_eq_false.1 (hidle t₀ ht₀) (hages.finished hf) (hages.script.symm.trans hscript)
        (hages.target.symm.trans htarget)
  · rw [hstill.scripts] at hs
    rw [starts_eq_zero (hold s hs hhat)]
    exact h.told (fun hmem => hnot (hpending.2 hmem)) s hs hhat

/-- The clone is told that it is there. -/
lemma Reared.startClone (h : Reared c r index (.startClone c :: rs, e) n)
    (htable : Table (.startClone c :: rs) e) (hexpects : Expects (.startClone c :: rs, e))
    (hrooted : Rooted e) : Reared c r index (rs, e.handle (.startClone c))
      (n + (e.handle (.startClone c)).starts (e.roused (.startClone c)) index c) := by
  obtain ⟨hscripts, htroupe⟩ := troupe_startHats e (· == .cloneStart) (some c) false
  have hroused := htable.roused (· == .cloneStart) (some c) false
  have hafter : Table rs (e.handle (.startClone c)) := htable.handle
  have hdone : .startClone c ∉ rs := by
    have honce := hexpects.once c
    rw [List.count_cons_self] at honce
    exact List.count_eq_zero.1 (by omega)
  refine ⟨(Arena.origin?_congr (World.layout_of_troupe htroupe) c).trans h.origin,
    fun hmem => absurd hmem hdone, fun _ s hs hhat => ?_⟩
  have hs : e.scripts[index]? = some s := hscripts ▸ hs
  obtain ⟨rfl, hidle⟩ := h.waits List.mem_cons_self s hs hhat
  rw [Nat.zero_add]
  have hfamily := hrooted.mem_family_iff (List.mem_of_getElem? hs) h.origin
  split
  · next htarget =>
    obtain ⟨t, ht, hid, hscript, hclone⟩ := hroused.each ⟨index, s, c⟩
      (mem_callings.2 ⟨hs, by simp [hhat], hfamily.2 htarget, by simp⟩) (Or.inr hidle)
    refine starts_eq_one (hroused.nodup rfl) ht hid hscript hclone fun t' ht' hid' hscript' hclone' => ?_
    -- both are at their beginning
    have hfresh : ∀ u ∈ (e.handle (.startClone c)).threads, u.id ∈ e.roused (.startClone c) →
        u.isFinished = false := by
      intro u hu hmem
      rw [Thread.isFinished, hroused.fresh u hu hmem]
      rfl
    by_contra hne
    exact hafter.apart.forall ht' ht hne (hfresh t' ht' hid') (hfresh t ht hid)
      (hscript'.trans hscript.symm) (hclone'.trans hclone.symm)
  · next htarget =>
    refine starts_eq_zero fun t ht hid hscript hclone => htarget (hfamily.1 ?_)
    obtain ⟨call, hcall, hindex, hsame⟩ := hroused.called t ht hid
    obtain ⟨hs', -, hmem, -⟩ := mem_callings.1 hcall
    rw [← hindex, hscript, hs] at hs'
    cases hs'
    rw [← hclone, hsame]
    exact hmem

/-- A slice takes nothing from a clone that it leaves alive. -/
lemma Reared.turn (hgood : ∀ b, good b → b.Playable) (hx : Visited good ([], e))
    (h : Reared c r index ([], e) n) {i : Nat} {t : Thread} (ht : e.threads[i]? = some t)
    (hf : t.isFinished = false) (fuel : Nat)
    (hlive : (t.run fuel e.world).2.targets.contains c = true) :
    Reared c r index ((t.run fuel e.world).2.requests, { e with
      world := { (t.run fuel e.world).2 with requests := [] }
      threads := e.threads.set i (t.run fuel e.world).1 }) n := by
  have hcomes := hx.comes hgood ht hf fuel
  have hnot : .startClone c ∉ (t.run fuel e.world).2.requests := by
    intro hmem
    have hfresh := hcomes.fresh c hmem
    rw [contains_of_origin h.origin] at hfresh
    cases hfresh
  refine ⟨?_, fun hmem => absurd hmem hnot, fun _ => h.told List.not_mem_nil⟩
  obtain ⟨role, hrole, hclone⟩ := Arena.origin?_eq_some.1 h.origin
  exact Arena.origin?_eq_some.2 ⟨role, hcomes.kept hrole hlive, hclone⟩

lemma Reared.add (h : Reared c r index ([], e) n) (htidy : e.world.targets.Tidy) (t : Target) :
    Reared c r index ([], e.addTarget t) n := by
  obtain ⟨u, hu, hclone⟩ := Option.map_eq_some_iff.1 h.origin
  exact ⟨Option.map_eq_some_iff.2 ⟨u, htidy.get?_insert hu t, hclone⟩,
    fun hmem => (List.not_mem_nil hmem).elim, h.told⟩

/-- A clone comes in a slice, and nothing runs on it then. -/
lemma reared_born (hgood : ∀ b, good b → b.Playable) (hx : Visited good x) (k : Deed good x ids y)
    (hnew : x.2.world.targets.contains c = false) (hy : y.2.world.targets.origin? c = some (some r)) :
    Reared c r index y (y.2.starts ids index c) := by
  have hlive := contains_of_origin hy
  rcases k.cases hgood hx with hstill | ⟨e, i, t, fuel, rfl, rfl, ht, hf, rfl⟩ |
    ⟨-, hworld, -⟩ | ⟨e, t, rfl, -, hclone, rfl⟩
  · rw [Arena.contains_congr (World.layout_of_troupe hstill.troupe), hnew] at hlive
    cases hlive
  · have hcomes := hx.comes hgood ht hf fuel
    have htable := hx.table hgood
    have hruns := fun u hu hfu => htable.contains_target (t := u) hu hfu
    have hother : c ≠ t.target := by
      rintro rfl
      rw [hruns t (List.mem_of_getElem? ht) hf] at hnew
      cases hnew
    have hmem : .startClone c ∈ (t.run fuel e.world).2.requests := by
      refine ((hcomes.others c hother).1 hlive).resolve_left fun hold => ?_
      rw [hold] at hnew
      cases hnew
    refine ⟨hy, fun _ s hs hhat => ⟨rfl, fun u hu => ?_⟩, fun hnot => absurd hmem hnot⟩
    obtain ⟨u₀, hu₀, hages⟩ := exists_of_forall₂
      (forall₂_set Thread.Ages.refl ht (.run hf fuel e.world)) u hu
    refine isThreadOf_eq_false.2 fun hfu _ htarget => ?_
    have hthere := hruns u₀ hu₀ (hages.finished hfu)
    rw [← hages.target, htarget, hnew] at hthere
    cases hthere
  · rw [hworld, contains_stop] at hlive
    rw [Arena.contains_eq, hlive] at hnew
    cases hnew
  · have hget : (e.addTarget t).world.targets.get? c = _ :=
      (hx.table hgood).tidy.get?_insert_eq t c
    rw [Arena.origin?, hget] at hy
    split at hy
    · cases hclone.symm.trans (Option.some.inj hy)
    · rw [Arena.contains_eq, Arena.origin?, hy] at hnew
      cases hnew

lemma Reared.deed (hgood : ∀ b, good b → b.Playable) (hx : Toured good x)
    (h : Reared c r index x n) (k : Deed good x ids y)
    (hlive : y.2.world.targets.contains c = true) :
    Reared c r index y (n + y.2.starts ids index c) := by
  by_cases hhead : x.1.head? = some (.startClone c)
  · obtain ⟨rs, e⟩ := x
    obtain ⟨rs, rfl⟩ := List.head?_eq_some_iff.1 hhead
    -- requests come first
    cases k with
    | beat k =>
      cases k with
      | handle =>
        exact h.startClone (hx.visited.table hgood) (hx.expects hgood) (hx.rooted hgood)
  · rcases k.cases hgood hx.visited with hstill | ⟨e, i, t, fuel, rfl, rfl, ht, hf, rfl⟩ |
      ⟨-, hworld, -⟩ | ⟨e, t, rfl, rfl, -, rfl⟩
    · exact hstill.reared h hhead
    · exact h.turn hgood hx.visited ht hf fuel hlive
    · rw [hworld, contains_stop, h.origin] at hlive
      cases hlive
    · exact h.add (hx.visited.table hgood).tidy t

lemma Life.toured (h : Life good c index x n) : Toured good x := by
  induction h with
  | born hx k => exact hx.deed k
  | deed _ k _ ih => exact ih.deed k

lemma Life.reared (hgood : ∀ b, good b → b.Playable) (h : Life good c index x n) :
    ∃ r, Reared c r index x n := by
  induction h with
  | @born x y ids r hx k hnew hy => exact ⟨r, reared_born hgood hx.visited k hnew hy⟩
  | deed hlife k hlive ih =>
    obtain ⟨r, h⟩ := ih
    exact ⟨r, h.deed hgood hlife.toured k hlive⟩

/-- Every clone has come at some time. -/
lemma Toured.life (hgood : ∀ b, good b → b.Playable) (h : Toured good x)
    (hc : x.2.world.targets.origin? c = some (some r)) (index : Nat) : ∃ n, Life good c index x n := by
  induction h generalizing r with
  | new config host =>
    have hnobody : Arena.empty.origin? c = none := rfl
    cases hnobody.symm.trans hc
  | @deed x y ids hx k ih =>
    by_cases hlive : x.2.world.targets.contains c = true
    · rw [Arena.contains_eq] at hlive
      obtain ⟨o, ho⟩ := Option.isSome_iff_exists.1 hlive
      cases o with
      | none =>
        have hfollows := ((hx.rooted hgood).deed hgood hx.visited k).2
        cases hc.symm.trans (hfollows.origin? ho)
      | some r' =>
        obtain ⟨n, hn⟩ := ih ho
        exact ⟨_, hn.deed k (contains_of_origin hc)⟩
    · exact ⟨_, .born hx k (by simpa using hlive) hc⟩

/-- The threads that a deed does not start were there. -/
lemma Deed.others (hgood : ∀ b, good b → b.Playable) (hx : Visited good x) (k : Deed good x ids y)
    {t : Thread} (ht : t ∈ y.2.threads) : t.id ∈ ids ∨ ∃ t₀ ∈ x.2.threads, t₀.Ages t := by
  rcases k.cases hgood hx with hstill | ⟨e, i, u, fuel, rfl, -, hu, hf, rfl⟩ |
    ⟨-, -, hthreads, -⟩ | ⟨e, u, rfl, -, -, rfl⟩
  · exact hstill.others t ht
  · exact Or.inr (exists_of_forall₂ (forall₂_set Thread.Ages.refl hu (.run hf fuel e.world)) t ht)
  · rw [hthreads] at ht
    cases ht
  · exact Or.inr ⟨t, ht, .refl t⟩

end

/-- **Clones and their originals**, however an engine is played, in the middle of a slice too. There are
never more clones than allowed; a clone has an original, which is a sprite like it and no clone, and no
original is ever gone. Whoever comes in a slice is a clone, as its source is at this moment but for the
bubble; and a clone that is refused leaves no trace. A clone is there until its request is handled. Then
the scripts for new clones of its original are started on it, once, and no other ones. -/
theorem clones_in_order {x : List Request × Engine} (h : Toured BlockMap.Playable x) :
    (∀ w, Seen x w →
      w.targets.cloneCount ≤ w.config.cloneLimit ∧
      (∀ id t r, w.targets.get? id = some t → t.cloneOf = some r → ∃ o, w.targets.get? r = some o ∧
        o.cloneOf = none ∧ o.isStage = false ∧ o.name = t.name ∧ o.blocks = t.blocks) ∧
      (∀ p m id, w.targets.contains id = false → (Machine.step p m w).2.targets.contains id = true →
        ∃ source, w.createClone source = (some id, (Machine.step p m w).2)) ∧
      ∀ source,
        (∀ c w', w.createClone source = (some c, w') → ∃ t, w.targets.get? source = some t ∧
          w.targets.get? c = none ∧
          w'.targets.get? c = some { t with bubble := none, cloneOf := some (t.cloneOf.getD source) } ∧
          (∀ id ≠ c, w'.targets.get? id = w.targets.get? id) ∧
          w'.requests = w.requests ++ [.startClone c]) ∧
        ((w.createClone source).1 = none ↔ w.config.cloneLimit ≤ w.targets.cloneCount ∨
          w.targets.get? source = none ∨ ∃ t, w.targets.get? source = some t ∧ t.isStage = true) ∧
        ((w.createClone source).1 = none → (w.createClone source).2 = w)) ∧
    (∀ y w, Deeds BlockMap.Playable x y → Seen y w →
      w.config.cloneLimit = x.2.world.config.cloneLimit ∧
      ∀ id o, x.2.world.targets.get? id = some o → o.cloneOf = none →
        ∃ o', w.targets.get? id = some o' ∧ o'.role = o.role) ∧
    (∀ e e', x = ([], e) → Order e e' → Deeds BlockMap.Playable x ([], e')) ∧
    (∀ ids y, Deed BlockMap.Playable x ids y → ∀ t ∈ y.2.threads, t.id ∈ ids ∨
      ∃ t₀ ∈ x.2.threads, t.id = t₀.id ∧ t.script = t₀.script ∧ t.target = t₀.target) ∧
    (∀ c, .startClone c ∈ x.1 → x.2.world.targets.contains c = true) ∧
    ∀ c t r, x.2.world.targets.get? c = some t → t.cloneOf = some r →
      ∀ index s, x.2.scripts[index]? = some s → s.hat = .cloneStart →
        (∃ n, Life BlockMap.Playable c index x n) ∧
        ∀ n, Life BlockMap.Playable c index x n →
          n = if s.target = r ∧ .startClone c ∉ x.1 then 1 else 0 := by
  have hgood : ∀ b : BlockMap, b.Playable → b.Playable := fun _ hb => hb
  have hrooted := h.rooted hgood
  refine ⟨fun w hw => ?_, fun y w hy hw => ?_, fun e e' he ho => ?_, fun ids y k t ht => ?_,
    (h.expects hgood).live, fun c t r ht hr index s hs hhat => ?_⟩
  · have hl := (hrooted.seen hw).1
    refine ⟨hl.limit, fun id t r => hl.original, fun p m id hold hnew => ?_, fun source =>
      ⟨fun c w' => World.createClone_spec hl.tidy, World.createClone_eq_none_iff,
        World.createClone_of_none⟩⟩
    obtain ⟨-, rs, hchange, -⟩ := Machine.change_step p m w
    exact hchange.create_of_new hl.tidy hold hnew
  · have hf := (h.follows hgood hy).trans (((h.deeds hy).rooted hgood).seen hw).2
    refine ⟨hf.limit, fun id o ho hnone => ?_⟩
    exact Arena.role?_eq_some.1 (hf.originals (Arena.role?_eq_some.2 ⟨o, ho, rfl⟩) hnone)
  · subst he
    exact ho.deeds hgood h.visited
  · refine (k.others hgood h.visited ht).imp_right ?_
    rintro ⟨t₀, ht₀, hages⟩
    exact ⟨t₀, ht₀, hages.id, hages.script, hages.target⟩
  · have horigin : x.2.world.targets.origin? c = some (some r) := Option.map_eq_some_iff.2 ⟨t, ht, hr⟩
    refine ⟨h.life hgood horigin index, fun n hn => ?_⟩
    obtain ⟨r', hreared⟩ := hn.reared hgood
    cases horigin.symm.trans hreared.origin
    by_cases hmem : .startClone c ∈ x.1
    · rw [if_neg fun hall => hall.2 hmem]
      exact (hreared.waits hmem s hs hhat).1
    · rw [hreared.told hmem s hs hhat]
      simp only [hmem, not_false_eq_true, and_true]

/-- A sprite clones itself, and so does every clone. -/
def multiplies : BlockMap := .ofList [
  ("flag", { id := "flag", opcode := "event_whenflagclicked", topLevel := true
             next := some "first" }),
  ("first", { id := "first", opcode := "control_create_clone_of"
              inputs := .ofList [("CLONE_OPTION", { value := some (.value (.text "_myself_")) })] }),
  ("born", { id := "born", opcode := "control_start_as_clone", topLevel := true
             next := some "second" }),
  ("second", { id := "second", opcode := "control_create_clone_of"
               inputs := .ofList [("CLONE_OPTION", { value := some (.value (.text "_myself_")) })] })]

/-- Two clones are allowed. The clone of the clone belongs to the sprite, its script was started once,
and it is refused a clone of its own. -/
theorem clones_in_order_multiplies : ∃ e, Toured BlockMap.Playable ([], e) ∧
    e.world.config.cloneLimit = 2 ∧
    e.world.targets.live.map (·.2.cloneOf) = [none, some ⟨0, 0⟩, some ⟨0, 0⟩] ∧
    (e.world.createClone ⟨2, 0⟩).1 = none ∧ (e.world.createClone ⟨2, 0⟩).2 = e.world ∧
    (∃ o, e.world.targets.get? ⟨0, 0⟩ = some o ∧ o.cloneOf = none ∧ o.isStage = false) ∧
    Life BlockMap.Playable ⟨2, 0⟩ 0 ([], e) 1 := by
  have hgood : ∀ b : BlockMap, b.Playable → b.Playable := fun _ hb => hb
  have hac : multiplies.Acyclic := BlockMap.acyclic_of_falling
    (fun id => ["second", "born", "first", "flag"].idxOf id) (by decide +kernel)
  have hplayable : multiplies.Playable := ⟨by decide +kernel, by decide +kernel, hac⟩
  have hstart := (((Toured.new { cloneLimit := 2 } {}).deed
    (.add _ { name := "Cat", isStage := false, blocks := multiplies } hplayable rfl)).deed
      (.compile _)).order hgood (.start _)
  obtain ⟨e, he, hlimit, hlive, hrefused, hclone, hscript⟩ : ∃ e, Toured BlockMap.Playable ([], e) ∧
      e.world.config.cloneLimit = 2 ∧
      e.world.targets.live.map (·.2.cloneOf) = [none, some ⟨0, 0⟩, some ⟨0, 0⟩] ∧
      (e.world.createClone ⟨2, 0⟩).1 = none ∧
      (e.world.targets.get? ⟨2, 0⟩).map (·.cloneOf) = some (some ⟨0, 0⟩) ∧
      e.scripts[0]?.map (fun s => (s.hat, s.target)) = some (.cloneStart, ⟨0, 0⟩) :=
    ⟨_, hstart.order hgood (.step _ 100 (by decide +kernel)), by decide +kernel⟩
  obtain ⟨t, ht, horigin⟩ := Option.map_eq_some_iff.1 hclone
  obtain ⟨s, hs, hcalled⟩ := Option.map_eq_some_iff.1 hscript
  obtain ⟨hhat, htarget⟩ := Prod.mk.inj hcalled
  obtain ⟨hseen, -, -, -, -, hlives⟩ := clones_in_order he
  obtain ⟨-, horiginal, -, hclones⟩ := hseen e.world .between
  obtain ⟨o, ho, hnone, hsprite, -⟩ := horiginal ⟨2, 0⟩ t ⟨0, 0⟩ ht horigin
  obtain ⟨⟨n, hn⟩, honce⟩ := hlives ⟨2, 0⟩ t ⟨0, 0⟩ ht horigin 0 s hs hhat
  have hone : n = 1 := by
    rw [honce n hn, htarget]
    rfl
  exact ⟨e, he, hlimit, hlive, hrefused, (hclones ⟨2, 0⟩).2.2 hrefused, ⟨o, ho, hnone, hsprite⟩,
    hone ▸ hn⟩

end Blockwork.Engine
