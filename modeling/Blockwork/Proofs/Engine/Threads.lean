import Blockwork.Proofs.Engine.Acts
import Mathlib.Data.List.Forall2
import Mathlib.Data.List.Pairwise

/-!
The table of threads. Threads stand in the order in which they were started, under numbers that are
given once; and a script never runs twice at the same time on a target. Every thread that is not
finished runs on a live target of its script's family: a clone that is deleted takes its threads along,
by a request that is handled before anything else happens.
-/

namespace Blockwork

/-- The same thread at a later time. It runs the same script on the same target, and once it is finished
it stays so. -/
structure Thread.Ages (t t' : Thread) : Prop where
  id : t'.id = t.id
  script : t'.script = t.script
  program : t'.program = t.program
  target : t'.target = t.target
  finished : t'.isFinished = false → t.isFinished = false

namespace Thread.Ages

variable {t t' t'' : Thread}

lemma refl (t : Thread) : t.Ages t := ⟨rfl, rfl, rfl, rfl, fun h => h⟩

lemma trans (h : t.Ages t') (k : t'.Ages t'') : t.Ages t'' :=
  ⟨k.id.trans h.id, k.script.trans h.script, k.program.trans h.program, k.target.trans h.target,
    fun hf => h.finished (k.finished hf)⟩

lemma kill (t : Thread) (w : World) : t.Ages (t.kill w).1 :=
  ⟨rfl, rfl, rfl, rfl, fun h => by cases h⟩

lemma restart (hf : t.isFinished = false) (w : World) : t.Ages (t.restart w).1 :=
  ⟨rfl, rfl, rfl, rfl, fun _ => hf⟩

lemma run (hf : t.isFinished = false) (fuel : Nat) (w : World) : t.Ages (t.run fuel w).1 :=
  ⟨rfl, rfl, rfl, (Machine.changes_run fuel t.program t.machine { w with currentThread := t.id }).1,
    fun _ => hf⟩

end Thread.Ages

/-! ### Lists of threads that grow older -/

section

variable {α : Type} {R S : α → α → Prop} {xs ys : List α}

lemma exists_of_forall₂ (h : List.Forall₂ S xs ys) : ∀ y ∈ ys, ∃ x ∈ xs, S x y := by
  induction h with
  | nil => exact fun _ hy => (List.not_mem_nil hy).elim
  | @cons a b xs ys hab _ ih =>
    intro y hy
    rcases List.mem_cons.1 hy with rfl | hy
    · exact ⟨a, List.mem_cons_self, hab⟩
    · obtain ⟨x, hx, hxy⟩ := ih y hy
      exact ⟨x, List.mem_cons_of_mem _ hx, hxy⟩

lemma getElem?_of_forall₂ (h : List.Forall₂ S xs ys) {i : Nat} {x : α} (hx : xs[i]? = some x) :
    ∃ y, ys[i]? = some y ∧ S x y := by
  induction h generalizing i with
  | nil => cases hx
  | cons hab _ ih =>
    cases i with
    | zero =>
      cases hx
      exact ⟨_, rfl, hab⟩
    | succ i => exact ih hx

lemma pairwise_of_forall₂ (hS : ∀ {a a' b b'}, S a a' → S b b' → R a b → R a' b')
    (h : List.Forall₂ S xs ys) (hxs : xs.Pairwise R) : ys.Pairwise R := by
  induction h with
  | nil => exact List.Pairwise.nil
  | cons hab hrest ih =>
    obtain ⟨hhead, htail⟩ := List.pairwise_cons.1 hxs
    refine List.pairwise_cons.2 ⟨fun y hy => ?_, ih htail⟩
    obtain ⟨x, hx, hxy⟩ := exists_of_forall₂ hrest y hy
    exact hS hab hxy (hhead x hx)

/-- One of them is replaced. -/
lemma forall₂_replace (hrefl : ∀ a, S a a) {a b : α} (hab : S a b) (us vs : List α) :
    List.Forall₂ S (us ++ a :: vs) (us ++ b :: vs) :=
  List.rel_append (List.forall₂_same.2 fun x _ => hrefl x)
    (.cons hab (List.forall₂_same.2 fun x _ => hrefl x))

lemma forall₂_set (hrefl : ∀ a, S a a) {i : Nat} {a b : α} (ha : xs[i]? = some a) (hab : S a b) :
    List.Forall₂ S xs (xs.set i b) := by
  obtain ⟨us, vs, hsplit, hset⟩ := Engine.exists_split ha
  rw [hset, hsplit]
  exact forall₂_replace hrefl hab us vs

end

namespace Engine

lemma ages_killThreads (p : Thread → Bool) (ts : List Thread) (w : World) :
    List.Forall₂ Thread.Ages ts (killThreads p ts w).1 := by
  induction ts generalizing w with
  | nil => exact .nil
  | cons t ts ih =>
    simp only [killThreads]
    split
    · exact .cons (.kill t w) (ih _)
    · exact .cons (.refl t) (ih w)

lemma troupe_killThreads (p : Thread → Bool) (ts : List Thread) (w : World) :
    (killThreads p ts w).2.troupe = w.troupe := by
  induction ts generalizing w with
  | nil => rfl
  | cons t ts ih =>
    simp only [killThreads]
    split
    · exact (ih _).trans (t.troupe_releasePromise w)
    · exact ih w

/-- Those that were to be killed are finished, and the others are as they were. -/
lemma mem_killThreads {p : Thread → Bool} {ts : List Thread} {w : World} {t : Thread}
    (h : t ∈ (killThreads p ts w).1) :
    t.isFinished = true ∨ t ∈ ts ∧ p t = false := by
  induction ts generalizing w with
  | nil => cases h
  | cons x ts ih =>
    simp only [killThreads] at h
    split at h
    · rcases List.mem_cons.1 h with rfl | h
      · exact Or.inl rfl
      · exact (ih h).imp_right fun h => ⟨List.mem_cons_of_mem _ h.1, h.2⟩
    · next hx =>
      rcases List.mem_cons.1 h with rfl | h
      · exact Or.inr ⟨List.mem_cons_self, by simpa using hx⟩
      · exact (ih h).imp_right fun h => ⟨List.mem_cons_of_mem _ h.1, h.2⟩

/-! ### The table -/

/-- The thread runs its script on a live target of the script's family. -/
def Hosts (e : Engine) (t : Thread) : Prop :=
  ∃ s, e.scripts[t.script]? = some s ∧ t.program = s.program ∧ t.target ∈ e.family s.target

/-- A script does not run twice on one target. -/
def Apart (t t' : Thread) : Prop :=
  t.isFinished = false → t'.isFinished = false → t.script = t'.script → t.target ≠ t'.target

/-- The table is in order, but for targets whose threads are still to be killed. -/
structure Table (rs : List Request) (e : Engine) : Prop where
  rising : e.threads.Pairwise (·.id < ·.id)
  below : ∀ t ∈ e.threads, t.id < e.nextThread
  apart : e.threads.Pairwise Apart
  hosted : ∀ t ∈ e.threads, t.isFinished = false → e.Hosts t ∨ .killThreadsOf t.target ∈ rs
  watched : ∀ h ∈ e.edges, e.world.targets.contains h.target = true ∨ .killThreadsOf h.target ∈ rs
  tidy : e.world.targets.Tidy

section

variable {rs rs' : List Request} {e e' : Engine}

/-- Whoever runs is there. -/
lemma Table.contains_target (h : Table [] e) {t : Thread} (ht : t ∈ e.threads)
    (hf : t.isFinished = false) : e.world.targets.contains t.target = true := by
  obtain ⟨s, -, -, htarget⟩ := (h.hosted t ht hf).resolve_right List.not_mem_nil
  exact contains_of_mem_family htarget

lemma Hosts.congr {t t' : Thread} (h : e.Hosts t) (hset : e'.setting = e.setting) (ha : t.Ages t') :
    e'.Hosts t' := by
  obtain ⟨s, hs, hp, htarget⟩ := h
  refine ⟨s, ?_, ha.program.trans hp, ?_⟩
  · rw [scripts_of_setting hset, ha.script, hs]
  · rw [family_congr hset, ha.target]
    exact htarget

instance : Std.Symm Apart where
  symm _ _ h hf hf' hs htarget := h hf' hf hs.symm htarget.symm

lemma Apart.ages {t t' u u' : Thread} (ht : t.Ages t') (hu : u.Ages u') (h : Apart t u) :
    Apart t' u' := by
  intro hft hfu hs
  rw [ht.script, hu.script] at hs
  rw [ht.target, hu.target]
  exact h (ht.finished hft) (hu.finished hfu) hs

/-- The threads grow older, and histories of conditions are renewed or dropped. -/
lemma Table.age (h : Table rs e) (hset : e'.setting = e.setting)
    (hthreads : List.Forall₂ Thread.Ages e.threads e'.threads) (hnext : e.nextThread ≤ e'.nextThread)
    (hedges : ∀ g ∈ e'.edges, ∃ g' ∈ e.edges, g.target = g'.target)
    (hrs : ∀ target, .killThreadsOf target ∈ rs → .killThreadsOf target ∈ rs') : Table rs' e' := by
  obtain ⟨rising, below, apart, hosted, watched, tidy⟩ := h
  refine ⟨?_, fun t ht => ?_, ?_, fun t ht hf => ?_, fun g hg => ?_,
    tidy.congr (layout_of_setting hset)⟩
  · refine pairwise_of_forall₂ (fun ht hu hlt => ?_) hthreads rising
    rw [ht.id, hu.id]
    exact hlt
  · obtain ⟨t₀, ht₀, ha⟩ := exists_of_forall₂ hthreads t ht
    rw [ha.id]
    exact Nat.lt_of_lt_of_le (below t₀ ht₀) hnext
  · exact pairwise_of_forall₂ Apart.ages hthreads apart
  · obtain ⟨t₀, ht₀, ha⟩ := exists_of_forall₂ hthreads t ht
    rw [ha.target]
    exact (hosted t₀ ht₀ (ha.finished hf)).imp (fun hh => hh.congr hset ha) (hrs _)
  · obtain ⟨g', hg', hsame⟩ := hedges g hg
    rw [hsame, Arena.contains_congr (layout_of_setting hset)]
    exact (watched g' hg').imp_right (hrs _)

lemma forall₂_ages_refl (ts : List Thread) : List.Forall₂ Thread.Ages ts ts :=
  List.forall₂_same.2 fun t _ => .refl t

/-- A script starts where it is not running. -/
lemma Table.spawn (h : Table rs e) {index : Nat} {s : Script} (hs : e.scripts[index]? = some s)
    {target : TargetId} (htarget : target ∈ e.family s.target)
    (hfree : ∀ t ∈ e.threads, isThreadOf index target t = false) : Table rs (e.spawn index s target) := by
  have hset : (e.spawn index s target).setting = e.setting :=
    setting_congr rfl (Thread.troupe_new e.nextThread index s.program target e.world)
  obtain ⟨rising, below, apart, hosted, watched, tidy⟩ := h
  refine ⟨?_, fun t ht => ?_, ?_, fun t ht hf => ?_, fun g hg => ?_,
    tidy.congr (layout_of_setting hset)⟩
  · refine List.pairwise_append.2 ⟨rising, List.pairwise_singleton _ _, fun t ht t' ht' => ?_⟩
    rw [List.mem_singleton.1 ht']
    exact below t ht
  · have hnext : (e.spawn index s target).nextThread = e.nextThread + 1 := rfl
    rw [hnext]
    rcases List.mem_append.1 ht with ht | ht
    · exact Nat.lt_succ_of_lt (below t ht)
    · rw [List.mem_singleton.1 ht]
      exact Nat.lt_succ_self _
  · refine List.pairwise_append.2 ⟨apart, List.pairwise_singleton _ _, fun t ht t' ht' => ?_⟩
    rw [List.mem_singleton.1 ht']
    intro hf _ hscript hsame
    have hnot := hfree t ht
    simp only [isThreadOf, hf, Bool.not_false, Bool.true_and] at hnot
    have hscript' : t.script = index := hscript
    have hsame' : t.target = target := hsame
    simp [hscript', hsame'] at hnot
  · rcases List.mem_append.1 ht with ht | ht
    · exact (hosted t ht hf).imp_left fun hh => hh.congr hset (.refl t)
    · rw [List.mem_singleton.1 ht]
      exact Or.inl ⟨s, hs, rfl, (family_congr hset s.target).symm ▸ htarget⟩
  · rw [Arena.contains_congr (layout_of_setting hset)]
    exact watched g hg

lemma Table.startScript (h : Table rs e) {index : Nat} {s : Script} (hs : e.scripts[index]? = some s)
    {target : TargetId} (htarget : target ∈ e.family s.target) (restart : Bool) :
    Table rs (e.startScript index s target restart).2 := by
  have hset := setting_startScript e index s target restart
  rcases startScript_cases e index s target restart with ⟨xs, t, ys, hsplit, ht, heq⟩ | ⟨hfree, heq⟩
  · rw [heq] at hset ⊢
    split at hset
    · next hrestart =>
      have hages : t.Ages (t.restart e.world).1 := .restart (not_isFinished_of_isThreadOf ht) e.world
      rw [if_pos hrestart]
      refine h.age hset ?_ (Nat.le_refl _) (fun g hg => ⟨g, hg, rfl⟩) fun _ hr => hr
      rw [hsplit]
      exact forall₂_replace Thread.Ages.refl hages xs ys
    · next hrestart =>
      rw [if_neg hrestart]
      exact h
  · rw [heq]
    exact h.spawn hs htarget hfree

lemma Table.startHats (h : Table rs e) (p : Hat → Bool) (only : Option TargetId) (restart : Bool) :
    Table rs (e.startHats p only restart).2 := by
  refine startHats_induction (P := fun _ _ e => Table rs e) h fun _ c hc _ e' hset h' => ?_
  obtain ⟨hs, -, htarget, -⟩ := mem_callings.1 hc
  rw [← scripts_of_setting hset] at hs
  rw [← family_congr hset] at htarget
  exact h'.startScript hs htarget restart

/-! ### Who is started -/

/-- A number is that of one thread. -/
lemma eq_of_rising {ts : List Thread} (h : ts.Pairwise (·.id < ·.id)) {t t' : Thread} (ht : t ∈ ts)
    (ht' : t' ∈ ts) (hid : t.id = t'.id) : t = t' := by
  have hnodup : (ts.map (·.id)).Nodup := List.pairwise_map.2 (h.imp fun hlt => Nat.ne_of_lt hlt)
  exact List.inj_on_of_nodup_map hnodup ht ht' hid

/-- These scripts were called, and those of them that were not running, or that had to start over, are
at their beginning in the threads with these numbers. -/
structure Roused (restart : Bool) (e₀ : Engine) (cs : List Calling) (ids : List ThreadId) (e : Engine) :
    Prop where
  each : ∀ c ∈ cs, (restart = true ∨ ∀ t ∈ e₀.threads, isThreadOf c.index c.target t = false) →
    ∃ t ∈ e.threads, t.id ∈ ids ∧ t.script = c.index ∧ t.target = c.target
  called : ∀ t ∈ e.threads, t.id ∈ ids → ∃ c ∈ cs, t.script = c.index ∧ t.target = c.target
  fresh : ∀ t ∈ e.threads, t.id ∈ ids → t.machine = t.machine.reset .main
  others : ∀ t ∈ e.threads, t.id ∈ ids ∨ t ∈ e₀.threads
  below : ∀ id ∈ ids, id < e.nextThread
  /-- What does not start over starts once. -/
  nodup : restart = false → ids.Nodup

section

variable {restart : Bool} {e₀ : Engine} {cs : List Calling} {ids : List ThreadId}

/-- The threads grow older, and one more is started. -/
lemma Roused.concat (h : Roused restart e₀ cs ids e) (e' : Engine)
    (hages : ∀ t ∈ e.threads, ∃ t' ∈ e'.threads, t.Ages t') (hnext : e.nextThread ≤ e'.nextThread)
    (hrising : e'.threads.Pairwise (·.id < ·.id)) {c : Calling} {t : Thread} (ht : t ∈ e'.threads)
    (hlt : t.id < e'.nextThread) (hscript : t.script = c.index) (htarget : t.target = c.target)
    (hfresh : t.machine = t.machine.reset .main)
    (hold : ∀ x ∈ e'.threads, x ≠ t → x ∈ e.threads) (hnew : restart = false → t.id ∉ ids) :
    Roused restart e₀ (cs ++ [c]) (ids ++ [t.id]) e' := by
  -- another thread has another number
  have hother : ∀ x ∈ e'.threads, x ≠ t → x.id ∈ ids ++ [t.id] → x.id ∈ ids := by
    intro x hx hne hid
    refine (List.mem_append.1 hid).resolve_right fun hlast => hne ?_
    exact eq_of_rising hrising hx ht (List.mem_singleton.1 hlast)
  refine ⟨fun c' hc' hidle => ?_, fun x hx hid => ?_, fun x hx hid => ?_, fun x hx => ?_,
    fun id hid => ?_, fun hrestart => ?_⟩
  · rcases List.mem_append.1 hc' with hc' | hc'
    · obtain ⟨t₀, ht₀, hid, hs, htarget'⟩ := h.each c' hc' hidle
      obtain ⟨t', ht', ha⟩ := hages t₀ ht₀
      refine ⟨t', ht', List.mem_append_left _ ?_, ha.script.trans hs, ha.target.trans htarget'⟩
      rw [ha.id]
      exact hid
    · rw [List.mem_singleton.1 hc']
      exact ⟨t, ht, by simp, hscript, htarget⟩
  · by_cases hsame : x = t
    · rw [hsame]
      exact ⟨c, by simp, hscript, htarget⟩
    · obtain ⟨c', hc', hcalled⟩ := h.called x (hold x hx hsame) (hother x hx hsame hid)
      exact ⟨c', List.mem_append_left _ hc', hcalled⟩
  · by_cases hsame : x = t
    · rw [hsame]
      exact hfresh
    · exact h.fresh x (hold x hx hsame) (hother x hx hsame hid)
  · by_cases hsame : x = t
    · exact Or.inl (hsame ▸ List.mem_append_right _ (List.mem_singleton_self _))
    · exact (h.others x (hold x hx hsame)).imp_left (List.mem_append_left _)
  · rcases List.mem_append.1 hid with hid | hid
    · exact Nat.lt_of_lt_of_le (h.below id hid) hnext
    · rw [List.mem_singleton.1 hid]
      exact hlt
  · refine List.nodup_append'.2 ⟨h.nodup hrestart, List.nodup_singleton _, ?_⟩
    exact List.disjoint_singleton.2 (hnew hrestart)

/-- A script that is running already and does not start over was started before. -/
lemma Roused.leave (h : Roused false e₀ cs ids e) {c : Calling} {t : Thread} (ht : t ∈ e.threads)
    (hrunning : isThreadOf c.index c.target t = true) :
    Roused false e₀ (cs ++ [c]) ids e := by
  refine ⟨fun c' hc' hidle => ?_, fun x hx hid => ?_, h.fresh, h.others, h.below, h.nodup⟩
  · rcases List.mem_append.1 hc' with hc' | hc'
    · exact h.each c' hc' hidle
    · cases List.mem_singleton.1 hc'
      have hidle := hidle.resolve_left Bool.false_ne_true
      refine ⟨t, ht, (h.others t ht).resolve_right fun ht₀ => ?_, ?_⟩
      · rw [hidle t ht₀] at hrunning
        cases hrunning
      · simp only [isThreadOf, Bool.and_eq_true, beq_iff_eq] at hrunning
        exact ⟨hrunning.2, hrunning.1.2⟩
  · obtain ⟨c', hc', hcalled⟩ := h.called x hx hid
    exact ⟨c', List.mem_append_left _ hc', hcalled⟩

lemma Roused.startScript (h : Roused restart e₀ cs ids e) (htable : Table rs e) {c : Calling}
    (hc : Table rs (e.startScript c.index c.script c.target restart).2) :
    Roused restart e₀ (cs ++ [c])
      (ids ++ (e.startScript c.index c.script c.target restart).1.toList)
      (e.startScript c.index c.script c.target restart).2 := by
  have hrising := hc.rising
  rcases startScript_cases e c.index c.script c.target restart with
    ⟨xs, t, ys, hsplit, ht, heq⟩ | ⟨-, heq⟩
  · have hmem : t ∈ e.threads := by simp [hsplit]
    cases restart with
    | false =>
      rw [if_neg Bool.false_ne_true] at heq
      rw [heq, Option.toList_none, List.append_nil]
      exact h.leave hmem ht
    | true =>
      rw [if_pos rfl] at heq
      rw [heq] at hrising ⊢
      have hages : t.Ages (t.restart e.world).1 := .restart (not_isFinished_of_isThreadOf ht) e.world
      have hall : List.Forall₂ Thread.Ages e.threads (xs ++ (t.restart e.world).1 :: ys) :=
        hsplit ▸ forall₂_replace Thread.Ages.refl hages xs ys
      simp only [isThreadOf, Bool.and_eq_true, beq_iff_eq] at ht
      refine h.concat { e with
          world := (t.restart e.world).2
          threads := xs ++ (t.restart e.world).1 :: ys } (exists_of_forall₂ hall.flip) (Nat.le_refl _)
        hrising (t := (t.restart e.world).1) (by simp) (htable.below t hmem) ht.2 ht.1.2 rfl
        (fun x hx hne => ?_) (fun hf => by cases hf)
      rw [hsplit]
      exact mem_replace hx hne
  · rw [heq] at hrising ⊢
    refine h.concat (e.spawn c.index c.script c.target)
      (fun t ht => ⟨t, List.mem_append_left _ ht, .refl t⟩) (Nat.le_succ _) hrising
      (t := (Thread.new e.nextThread c.index c.script.program c.target e.world).1)
      (List.mem_append_right _ List.mem_cons_self) (Nat.lt_succ_self _) rfl rfl rfl
      (fun x hx hne => ?_) (fun _ hmem => Nat.lt_irrefl _ (h.below _ hmem))
    exact (List.mem_append.1 hx).resolve_right fun hlast => hne (List.mem_singleton.1 hlast)

end

lemma Table.roused (h : Table rs e) (p : Hat → Bool) (only : Option TargetId) (restart : Bool) :
    Roused restart e (e.callings p only) (e.startHats p only restart).1
      (e.startHats p only restart).2 := by
  refine (startHats_induction (P := fun cs ids e' => Roused restart e cs ids e' ∧ Table rs e')
    ⟨⟨by simp, by simp, by simp, fun t ht => Or.inr ht, by simp, by simp⟩, h⟩
    fun cs c hc ids e' hset h' => ?_).1
  obtain ⟨hs, -, htarget, -⟩ := mem_callings.1 hc
  rw [← scripts_of_setting hset] at hs
  rw [← family_congr hset] at htarget
  have htable := h'.2.startScript hs htarget restart
  exact ⟨h'.1.startScript h'.2 htable, htable⟩

/-! ### Acts -/

lemma Table.served {r : Request} (h : Table (r :: rs) e) (hr : ∀ target, r ≠ .killThreadsOf target) :
    Table rs e := by
  refine h.age rfl (forall₂_ages_refl _) (Nat.le_refl _) (fun g hg => ⟨g, hg, rfl⟩) fun target hmem => ?_
  exact (List.mem_cons.1 hmem).resolve_left fun h => hr target h.symm

lemma Table.kill (h : Table rs e) (p : Thread → Bool) : Table rs { e with
    world := (killThreads p e.threads e.world).2
    threads := (killThreads p e.threads e.world).1 } :=
  h.age (setting_congr rfl (troupe_killThreads p e.threads e.world))
    (ages_killThreads p e.threads e.world) (Nat.le_refl _) (fun g hg => ⟨g, hg, rfl⟩) fun _ hr => hr

/-- The threads of a target are killed, and its conditions forgotten. -/
lemma Table.killThreadsOf {target : TargetId} (h : Table (.killThreadsOf target :: rs) e) :
    Table rs (e.handle (.killThreadsOf target)) := by
  obtain ⟨rising, below, apart, hosted, watched, tidy⟩ := h.kill (·.target == target)
  refine ⟨rising, below, apart, fun t ht hf => ?_, fun g hg => ?_, tidy⟩
  · refine (hosted t ht hf).imp_right fun hmem => (List.mem_cons.1 hmem).resolve_left fun hsame => ?_
    rcases mem_killThreads ht with hfin | ⟨-, hnot⟩
    · rw [hf] at hfin
      cases hfin
    · cases hsame
      simp at hnot
  · obtain ⟨hg, hnot⟩ := List.mem_filter.1 hg
    refine (watched g hg).imp_right fun hmem => (List.mem_cons.1 hmem).resolve_left fun hsame => ?_
    cases hsame
    simp at hnot

lemma tidy_deleteClones (ids : List TargetId) (w : World) (h : w.targets.Tidy) :
    (ids.foldl World.deleteClone w).targets.Tidy := by
  induction ids generalizing w with
  | nil => exact h
  | cons id ids ih =>
    obtain ⟨rs, hchange⟩ := w.change_deleteClone id
    exact ih _ (hchange.makes.tidy h)

lemma troupe_clearBubbles (w : World) : (clearBubbles w).troupe = w.troupe := by
  unfold clearBubbles
  generalize w.targets.ids = ids
  induction ids generalizing w with
  | nil => rfl
  | cons id ids ih =>
    rw [List.foldl_cons]
    split
    · exact (ih _).trans (w.troupe_setBubble id .say "")
    · exact ih w

/-- The world when all threads are killed and all waits are called off. -/
def released (e : Engine) : World :=
  { (killThreads (fun _ => true) e.threads e.world).2 with
    promises := e.waits.foldl (fun ps b => ps.cancel b.promise)
      (killThreads (fun _ => true) e.threads e.world).2.promises }

lemma stop_eq (e : Engine) : e.stop = { e with
    world := { clearBubbles (deleteClones e.released) with requests := [] }
    threads := []
    waits := []
    edges := e.edges.filter fun h => (deleteClones e.released).targets.contains h.target } := rfl

lemma troupe_released (e : Engine) : e.released.troupe = e.world.troupe :=
  troupe_killThreads _ e.threads e.world

/-- Of all that a stop does, only the clones that are deleted are missed. -/
lemma troupe_stop (e : Engine) : e.stop.world.troupe = (deleteClones e.released).troupe := by
  rw [stop_eq]
  exact troupe_clearBubbles (deleteClones e.released)

lemma Table.stop (h : Table rs e) (rs' : List Request) : Table rs' e.stop := by
  have hlayout := World.layout_of_troupe e.troupe_stop
  have htidy : e.released.targets.Tidy := h.tidy.congr (World.layout_of_troupe e.troupe_released)
  refine ⟨.nil, by simp [stop_eq], .nil, by simp [stop_eq], fun g hg => Or.inl ?_, ?_⟩
  · rw [Arena.contains_congr hlayout]
    exact (List.mem_filter.1 hg).2
  · exact (tidy_deleteClones _ _ htidy).congr hlayout

lemma Table.handle {r : Request} (h : Table (r :: rs) e) : Table rs (e.handle r) := by
  cases r with
  | broadcast name promise =>
    have hstart := (h.served (by simp)).startHats (· == .broadcast (Text.lowercase name)) none true
    cases promise with
    | none => exact hstart
    | some p =>
      exact ⟨hstart.rising, hstart.below, hstart.apart, hstart.hosted, hstart.watched, hstart.tidy⟩
  | startClone clone => exact (h.served (by simp)).startHats _ _ _
  | killThreadsOf target => exact h.killThreadsOf
  | stopAll => exact h.stop rs
  | stopOthers target except => exact (h.served (by simp)).kill _

/-- A slice may delete the clone that it runs on; then a request is left to kill its threads. -/
lemma Table.turn (h : Table [] e) (hidle : e.world.requests = []) {i : Nat} {t : Thread}
    (ht : e.threads[i]? = some t) (hf : t.isFinished = false) (fuel : Nat) :
    Table (t.run fuel e.world).2.requests { e with
      world := { (t.run fuel e.world).2 with requests := [] }
      threads := e.threads.set i (t.run fuel e.world).1 } := by
  have hmakes := (t.changes_run fuel hidle).2.makes
  obtain ⟨rising, below, apart, hosted, watched, tidy⟩ : Table [] { e with
      threads := e.threads.set i (t.run fuel e.world).1 } :=
    h.age rfl (forall₂_set Thread.Ages.refl ht (.run hf fuel e.world)) (Nat.le_refl _)
      (fun g hg => ⟨g, hg, rfl⟩) fun _ hr => hr
  refine ⟨rising, below, apart, fun x hx hfx => ?_, fun g hg => ?_, hmakes.tidy tidy⟩
  · obtain ⟨s, hs, hp, htarget⟩ := (hosted x hx hfx).resolve_right List.not_mem_nil
    obtain ⟨o, ho, hroot⟩ := mem_family.1 htarget
    refine (hmakes.lives tidy x.target o ho).imp_left fun ho' => ⟨s, hs, hp, ?_⟩
    exact mem_family.2 ⟨o, ho', hroot⟩
  · have hlive := (watched g hg).resolve_right List.not_mem_nil
    rw [Arena.contains_eq] at hlive
    obtain ⟨o, ho⟩ := Option.isSome_iff_exists.1 hlive
    refine (hmakes.lives tidy g.target o ho).imp_left fun ho' => ?_
    rw [Arena.contains_eq]
    exact Option.isSome_iff_exists.2 ⟨o, ho'⟩

lemma Table.condition {good : BlockMap → Prop} (hgood : ∀ b, good b → b.Playable) (h : Table rs e)
    (hsound : Sound good e) (hnone : e.fault = none) {index : Nat} {s : Script}
    (hs : e.scripts[index]? = some s) {target : TargetId} (htarget : target ∈ e.family s.target)
    (fuel : Nat) (hrun : ((e.edge index s target).1.thread.runPredicate fuel
      (e.edge index s target).2.world).2.1.machine.isFaulted = false) :
    Table rs (evaluateEdge fuel index s e target) := by
  obtain ⟨o, ho, hroot⟩ := mem_family.1 htarget
  obtain ⟨e', hnotes, heq⟩ := hsound.notes hgood hnone hs hrun
  have hlayout := layout_of_setting hnotes.setting
  have htable : Table rs e' := by
    refine ⟨hnotes.threads ▸ h.rising, fun t ht => ?_, hnotes.threads ▸ h.apart, fun t ht hf => ?_,
      fun g hg => ?_, h.tidy.congr hlayout⟩
    · rw [hnotes.threads] at ht
      exact Nat.lt_of_lt_of_le (h.below t ht) hnotes.next
    · rw [hnotes.threads] at ht
      exact (h.hosted t ht hf).imp_left fun hh => hh.congr hnotes.setting (.refl t)
    · rw [Arena.contains_congr hlayout]
      rcases hnotes.edges g hg with hsame | ⟨g', hg', hsame⟩
      · rw [hsame, Arena.contains_eq, ho]
        exact Or.inl rfl
      · rw [hsame]
        exact h.watched g' hg'
  rcases heq with heq | heq
  · rw [heq]
    exact htable
  · rw [heq]
    refine htable.startScript (scripts_of_setting hnotes.setting ▸ hs) ?_ false
    rw [family_congr hnotes.setting]
    exact htarget

lemma Table.add (h : Table rs e) (t : Target) : Table rs (e.addTarget t) := by
  have hkeeps : ∀ id o, e.world.targets.origin? id = some o →
      (e.addTarget t).world.targets.origin? id = some o := by
    intro id o ho
    obtain ⟨x, hx, rfl⟩ := Option.map_eq_some_iff.1 ho
    exact Option.map_eq_some_iff.2 ⟨x, h.tidy.get?_insert hx t, rfl⟩
  refine ⟨h.rising, h.below, h.apart, fun t ht hf => (h.hosted t ht hf).imp_left ?_,
    fun g hg => (h.watched g hg).imp_left fun hlive => ?_, h.tidy.insert t⟩
  · rintro ⟨s, hs, hp, htarget⟩
    obtain ⟨o, ho, hroot⟩ := mem_family.1 htarget
    exact ⟨s, hs, hp, mem_family.2 ⟨o, hkeeps _ o ho, hroot⟩⟩
  · rw [Arena.contains_eq] at hlive ⊢
    obtain ⟨o, ho⟩ := Option.isSome_iff_exists.1 hlive
    rw [hkeeps _ o ho]
    rfl

end

/-- The table is in order in every state. -/
lemma Visited.table {good : BlockMap → Prop} (hgood : ∀ b, good b → b.Playable)
    {x : List Request × Engine} (h : Visited good x) : Table x.1 x.2 := by
  induction h with
  | new config host =>
    exact ⟨.nil, by simp [Engine.new], .nil, by simp [Engine.new], by simp [Engine.new],
      Arena.tidy_empty⟩
  | act hx ha ih =>
    obtain ⟨hsound, hnone, -⟩ := hx.sound hgood
    cases ha with
    | handle r rs e => exact ih.handle
    | turn fuel ht hf hrun => exact ih.turn hsound.idle ht hf fuel
    | condition fuel hs htarget hrun => exact ih.condition hgood hsound hnone hs htarget fuel hrun
    | resolve e => exact ⟨ih.rising, ih.below, ih.apart, ih.hosted, ih.watched, ih.tidy⟩
    | sweep e =>
      exact ⟨ih.rising.filter _, fun t ht => ih.below t (List.mem_filter.1 ht).1, ih.apart.filter _,
        fun t ht => ih.hosted t (List.mem_filter.1 ht).1, ih.watched, ih.tidy⟩
    | hats e p only restart => exact ih.startHats p only restart
    | stop e => exact ih.stop []
    | compile e =>
      have hstop := ih.stop []
      exact ⟨.nil, by simp [Engine.compile, stop_eq], .nil, by simp [Engine.compile, stop_eq],
        by simp [Engine.compile], hstop.tidy⟩
    | answer e text =>
      exact ih.age (setting_congr rfl (e.world.troupe_answerQuestion text))
        (forall₂_ages_refl _) (Nat.le_refl _) (fun g hg => ⟨g, hg, rfl⟩) fun _ hr => hr
    | broadcast e name =>
      exact ih.age rfl (forall₂_ages_refl _) (Nat.le_refl _) (fun g hg => ⟨g, hg, rfl⟩)
        fun _ hr => (List.not_mem_nil hr).elim
    | add e t _ => exact ih.add t
    | outside e w _ _ hl =>
      exact ih.age (congrArg (Prod.mk e.scripts) hl) (forall₂_ages_refl _) (Nat.le_refl _)
        (fun g hg => ⟨g, hg, rfl⟩) fun _ hr => hr

/-! ### Numbers are given once -/

/-- Every thread of the second engine is one of the first, grown older, or has a new number. -/
structure Continues (e e' : Engine) : Prop where
  next : e.nextThread ≤ e'.nextThread
  threads : ∀ t' ∈ e'.threads, (∃ t ∈ e.threads, t.Ages t') ∨ e.nextThread ≤ t'.id

/-- The threads of the first engine are in their places in the second, grown older; at the other places
the numbers are new. -/
structure Extends (e e' : Engine) : Prop where
  next : e.nextThread ≤ e'.nextThread
  kept : ∀ {i : Nat} {t : Thread}, e.threads[i]? = some t →
    ∃ t', e'.threads[i]? = some t' ∧ t.Ages t'
  fresh : ∀ {i : Nat} {t' : Thread}, e'.threads[i]? = some t' →
    (∃ t, e.threads[i]? = some t ∧ t.Ages t') ∨ e.nextThread ≤ t'.id

section

variable {e e' e'' : Engine}

lemma Continues.trans (h : Continues e e') (k : Continues e' e'') : Continues e e'' := by
  refine ⟨Nat.le_trans h.next k.next, fun t'' ht'' => ?_⟩
  rcases k.threads t'' ht'' with ⟨t', ht', ha⟩ | hnew
  · rcases h.threads t' ht' with ⟨t, ht, ha'⟩ | hnew
    · exact Or.inl ⟨t, ht, ha'.trans ha⟩
    · exact Or.inr (ha.id ▸ hnew)
  · exact Or.inr (Nat.le_trans h.next hnew)

lemma Extends.continues (h : Extends e e') : Continues e e' := by
  refine ⟨h.next, fun t' ht' => ?_⟩
  obtain ⟨i, hi⟩ := List.mem_iff_getElem?.1 ht'
  exact (h.fresh hi).imp_left fun ⟨t, ht, ha⟩ => ⟨t, List.mem_of_getElem? ht, ha⟩

lemma Extends.trans (h : Extends e e') (k : Extends e' e'') : Extends e e'' := by
  refine ⟨Nat.le_trans h.next k.next, fun ht => ?_, fun ht'' => ?_⟩
  · obtain ⟨t', ht', ha⟩ := h.kept ht
    obtain ⟨t'', ht'', ha'⟩ := k.kept ht'
    exact ⟨t'', ht'', ha.trans ha'⟩
  · rcases k.fresh ht'' with ⟨t', ht', ha⟩ | hnew
    · rcases h.fresh ht' with ⟨t, ht, ha'⟩ | hnew
      · exact Or.inl ⟨t, ht, ha'.trans ha⟩
      · exact Or.inr (ha.id ▸ hnew)
    · exact Or.inr (Nat.le_trans h.next hnew)

lemma extends_of_ages (hnext : e.nextThread ≤ e'.nextThread)
    (h : List.Forall₂ Thread.Ages e.threads e'.threads) : Extends e e' :=
  ⟨hnext, getElem?_of_forall₂ h, fun ht' => Or.inl (getElem?_of_forall₂ h.flip ht')⟩

lemma extends_of_eq (hnext : e.nextThread ≤ e'.nextThread) (h : e'.threads = e.threads) :
    Extends e e' :=
  extends_of_ages hnext (h ▸ forall₂_ages_refl e.threads)

lemma continues_of_eq (hnext : e.nextThread ≤ e'.nextThread) (h : e'.threads = e.threads) :
    Continues e e' :=
  (extends_of_eq hnext h).continues

lemma extends_spawn (e : Engine) (index : Nat) (s : Script) (target : TargetId) :
    Extends e (e.spawn index s target) := by
  have hthreads : (e.spawn index s target).threads =
      e.threads ++ [(Thread.new e.nextThread index s.program target e.world).1] := rfl
  refine ⟨Nat.le_succ _, fun {i t} ht => ?_, fun {i t'} ht' => ?_⟩
  · obtain ⟨hi, -⟩ := List.getElem?_eq_some_iff.1 ht
    refine ⟨t, ?_, .refl t⟩
    rw [hthreads, List.getElem?_append_left hi, ht]
  · rw [hthreads] at ht'
    by_cases hi : i < e.threads.length
    · rw [List.getElem?_append_left hi] at ht'
      exact Or.inl ⟨t', ht', .refl t'⟩
    · rw [List.getElem?_append_right (Nat.le_of_not_lt hi)] at ht'
      rw [List.mem_singleton.1 (List.mem_of_getElem? ht')]
      exact Or.inr (Nat.le_refl _)

lemma extends_startScript (e : Engine) (index : Nat) (s : Script) (target : TargetId)
    (restart : Bool) : Extends e (e.startScript index s target restart).2 := by
  rcases startScript_cases e index s target restart with ⟨xs, t, ys, hsplit, ht, heq⟩ | ⟨-, heq⟩
  · rw [heq]
    split
    · have hages : t.Ages (t.restart e.world).1 := .restart (not_isFinished_of_isThreadOf ht) e.world
      refine extends_of_ages (Nat.le_refl _) ?_
      rw [hsplit]
      exact forall₂_replace Thread.Ages.refl hages xs ys
    · exact extends_of_eq (Nat.le_refl _) rfl
  · rw [heq]
    exact extends_spawn e index s target

lemma extends_startHats (e : Engine) (p : Hat → Bool) (only : Option TargetId) (restart : Bool) :
    Extends e (e.startHats p only restart).2 :=
  startHats_induction (P := fun _ _ => Extends e) (extends_of_eq (Nat.le_refl _) rfl)
    fun _ _ _ _ _ _ h => h.trans (extends_startScript _ _ _ _ _)

/-- A slice leaves every thread in its place. -/
lemma extends_turn {i : Nat} {t : Thread} (ht : e.threads[i]? = some t) (hf : t.isFinished = false)
    (fuel : Nat) (w : World) :
    Extends e { e with world := w, threads := e.threads.set i (t.run fuel e.world).1 } :=
  extends_of_ages (Nat.le_refl _) (forall₂_set Thread.Ages.refl ht (.run hf fuel e.world))

/-- Only when everything stops, threads lose their places. -/
lemma extends_handle (e : Engine) {r : Request} (hr : r ≠ .stopAll) : Extends e (e.handle r) := by
  cases r with
  | broadcast name promise =>
    have hstart := extends_startHats e (· == .broadcast (Text.lowercase name)) none true
    cases promise with
    | none => exact hstart
    | some p => exact ⟨hstart.next, hstart.kept, hstart.fresh⟩
  | startClone clone => exact extends_startHats _ _ _ _
  | killThreadsOf target => exact extends_of_ages (Nat.le_refl _) (ages_killThreads _ _ _)
  | stopAll => exact absurd rfl hr
  | stopOthers target except => exact extends_of_ages (Nat.le_refl _) (ages_killThreads _ _ _)

lemma continues_stop (e : Engine) : Continues e e.stop :=
  ⟨Nat.le_refl _, fun _ ht => (List.not_mem_nil ht).elim⟩

lemma continues_handle (e : Engine) (r : Request) : Continues e (e.handle r) := by
  by_cases hr : r = .stopAll
  · subst hr
    exact continues_stop e
  · exact (extends_handle e hr).continues

lemma Act.continues {good : BlockMap → Prop} (hgood : ∀ b, good b → b.Playable)
    {x y : List Request × Engine} (hx : Visited good x) (h : Act good x y) : Continues x.2 y.2 := by
  obtain ⟨hsound, hnone, -⟩ := hx.sound hgood
  cases h with
  | handle r rs e => exact continues_handle e r
  | turn fuel ht hf hrun =>
    exact (extends_turn ht hf fuel _).continues
  | condition fuel hs htarget hrun =>
    obtain ⟨e', hnotes, heq | heq⟩ := hsound.notes hgood hnone hs hrun
    · rw [heq]
      exact continues_of_eq hnotes.next hnotes.threads
    · rw [heq]
      exact ((extends_of_eq hnotes.next hnotes.threads).trans (extends_startScript _ _ _ _ _)).continues
  | sweep e => exact ⟨Nat.le_refl _, fun t ht => Or.inl ⟨t, (List.mem_filter.1 ht).1, .refl t⟩⟩
  | hats e p only restart => exact (extends_startHats e p only restart).continues
  | stop e => exact continues_stop e
  | compile e => exact ⟨Nat.le_refl _, fun _ ht => (List.not_mem_nil ht).elim⟩
  | resolve | answer | broadcast | add | outside => exact continues_of_eq (Nat.le_refl _) rfl

lemma Acts.continues {good : BlockMap → Prop} (hgood : ∀ b, good b → b.Playable)
    {x y : List Request × Engine} (hx : Visited good x) (h : Acts good x y) : Continues x.2 y.2 := by
  induction h with
  | refl => exact continues_of_eq (Nat.le_refl _) rfl
  | tail hy h ih => exact ih.trans (h.continues hgood (hx.acts hy))

end

/-- **The table of threads**: the numbers rise along it, below the next one to be given; a script runs at
most once on a target; what runs, runs on a live target of its script's family; and only live targets
have histories of conditions. However the engine is played on, a number that was given is not given
again: a thread under it is the old one. -/
theorem threads_in_order {e : Engine} (h : Played BlockMap.Playable e) :
    e.threads.Pairwise (·.id < ·.id) ∧ (∀ t ∈ e.threads, t.id < e.nextThread) ∧
    (∀ t ∈ e.threads, ∀ t' ∈ e.threads, t.isFinished = false → t'.isFinished = false →
      t.script = t'.script → t.target = t'.target → t = t') ∧
    (∀ t ∈ e.threads, t.isFinished = false → ∃ s x, e.scripts[t.script]? = some s ∧
      t.program = s.program ∧ e.world.targets.get? t.target = some x ∧
      (t.target = s.target ∨ x.cloneOf = some s.target)) ∧
    (∀ g ∈ e.edges, e.world.targets.contains g.target = true) ∧
    ∀ e', Relation.ReflTransGen (Play BlockMap.Playable) e e' → e.nextThread ≤ e'.nextThread ∧
      ∀ t' ∈ e'.threads, t'.id < e.nextThread →
        ∃ t ∈ e.threads, t'.id = t.id ∧ t'.script = t.script ∧ t'.target = t.target := by
  have hgood : ∀ b : BlockMap, b.Playable → b.Playable := fun _ hb => hb
  have hv := h.visited hgood
  obtain ⟨rising, below, apart, hosted, watched, -⟩ := hv.table hgood
  refine ⟨rising, below, fun t ht t' ht' hf hf' hs htarget => ?_, fun t ht hf => ?_, fun g hg => ?_,
    fun e' hplay => ?_⟩
  · by_contra hne
    exact apart.forall ht ht' hne hf hf' hs htarget
  · obtain ⟨s, hs, hp, hfamily⟩ := (hosted t ht hf).resolve_right List.not_mem_nil
    obtain ⟨o, ho, hroot⟩ := mem_family.1 hfamily
    obtain ⟨x, hx, rfl⟩ := Option.map_eq_some_iff.1 ho
    exact ⟨s, x, hs, hp, hx, hroot⟩
  · exact (watched g hg).resolve_right List.not_mem_nil
  · obtain ⟨hnext, hthreads⟩ := (h.acts hgood hplay).2.continues hgood hv
    refine ⟨hnext, fun t' ht' hlt => ?_⟩
    rcases hthreads t' ht' with ⟨t, ht, ha⟩ | hnew
    · exact ⟨t, ht, ha.id, ha.script, ha.target⟩
    · exact absurd hlt (Nat.not_lt.2 hnew)

/-- A sprite clones itself; the clone runs on and on, and both listen for a noise. -/
def breeds : BlockMap := .ofList [
  ("flag", { id := "flag", opcode := "event_whenflagclicked", topLevel := true
             next := some "clone" }),
  ("clone", { id := "clone", opcode := "control_create_clone_of"
              inputs := .ofList [("CLONE_OPTION", { value := some (.value (.text "_myself_")) })] }),
  ("born", { id := "born", opcode := "control_start_as_clone", topLevel := true
             next := some "again" }),
  ("again", { id := "again", opcode := "control_forever" }),
  ("noise", { id := "noise", opcode := "event_whengreaterthan", topLevel := true
              inputs := .ofList [("VALUE", { value := some (.value (.number 10)) })]
              fields := .ofList [("WHENGREATERTHANMENU", { value := .text "LOUDNESS" })] })]

lemma playable_breeds : breeds.Playable := by
  have hac : breeds.Acyclic := BlockMap.acyclic_of_falling
    (fun id => ["again", "born", "clone", "flag", "noise"].idxOf id) (by decide +kernel)
  exact ⟨by decide +kernel, by decide +kernel, hac⟩

/-- The thread that is left runs on the clone, and both targets have a history. -/
theorem threads_in_order_breeds : ∃ e, Played BlockMap.Playable e ∧
    e.threads.map (·.id) = [2] ∧ e.nextThread = 4 ∧ e.edges.map (·.target) = [⟨0, 0⟩, ⟨1, 0⟩] ∧
    (∀ t ∈ e.threads, t.isFinished = false → ∃ s x, e.scripts[t.script]? = some s ∧
      t.program = s.program ∧ e.world.targets.get? t.target = some x ∧
      (t.target = s.target ∨ x.cloneOf = some s.target)) ∧
    ∀ g ∈ e.edges, e.world.targets.contains g.target = true := by
  have hstart := (((Played.new {} {}).play (.add _ { name := "Cat", isStage := false, blocks := breeds }
    playable_breeds)).play (.compile _)).play (.start _)
  obtain ⟨e, he, hids, hnext, hedges⟩ : ∃ e, Played BlockMap.Playable e ∧
      e.threads.map (·.id) = [2] ∧ e.nextThread = 4 ∧ e.edges.map (·.target) = [⟨0, 0⟩, ⟨1, 0⟩] :=
    ⟨_, (hstart.play (.step _ 100 (by decide +kernel))).play (.step _ 100 (by decide +kernel)),
      by decide +kernel⟩
  obtain ⟨-, -, -, hhosted, hwatched, -⟩ := threads_in_order he
  exact ⟨e, he, hids, hnext, hedges, hhosted, hwatched⟩

end Engine

end Blockwork
