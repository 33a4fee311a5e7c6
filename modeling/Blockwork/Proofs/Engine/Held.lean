import Blockwork.Proofs.Engine.Acts

/-!
Who holds which promise. A promise is pending only as long as the thread that made it holds it: whatever
else happens, that thread is left as it is, and the broadcast that the promise belongs to stays among
the waits. A promise that is settled stays so; and it is resolved only when a broadcast is done or a
question is answered, which leaves all threads alone.
-/

namespace Blockwork

/-! ### Ledgers -/

namespace Promise.Ledger

variable {l l' l'' : Ledger} {p q : Promise}

/-- More promises were made, and those that were settled are as they were. -/
structure Grows (l l' : Ledger) : Prop where
  made : l.states.size ≤ l'.states.size
  settled : ∀ p : Promise, p.index < l.states.size → l.isPending p = false → l'.state p = l.state p

lemma Grows.refl (l : Ledger) : l.Grows l := ⟨Nat.le_refl _, fun _ _ _ => rfl⟩

lemma isPending_congr (h : l'.state p = l.state p) : l'.isPending p = l.isPending p := by
  simp only [isPending, h]

lemma Grows.trans (h : l.Grows l') (k : l'.Grows l'') : l.Grows l'' := by
  refine ⟨Nat.le_trans h.made k.made, fun p hp hnot => ?_⟩
  have hsame := h.settled p hp hnot
  exact (k.settled p (Nat.lt_of_lt_of_le hp h.made) ((isPending_congr hsame).trans hnot)).trans hsame

/-- What is pending was pending, if it was made already. -/
lemma Grows.isPending (h : l.Grows l') (hp : p.index < l.states.size)
    (hpending : l'.isPending p = true) : l.isPending p = true := by
  by_contra hnot
  rw [Bool.not_eq_true] at hnot
  rw [isPending_congr (h.settled p hp hnot), hnot] at hpending
  cases hpending

/-- What was settled is not resolved later. -/
lemma Grows.isResolved (h : l.Grows l') (hp : p.index < l.states.size) (hnot : l.isPending p = false) :
    l'.isResolved p = l.isResolved p := by
  simp only [Ledger.isResolved, h.settled p hp hnot]

lemma grows_settle (l : Ledger) (p : Promise) (s : State) : l.Grows (l.settle p s) := by
  refine ⟨Nat.le_of_eq (l.size_settle p s).symm, fun q _ hq => ?_⟩
  rw [state_settle, if_neg]
  rintro ⟨hp, rfl⟩
  rw [hq] at hp
  cases hp

lemma grows_make (l : Ledger) : l.Grows l.make.2 := by
  refine ⟨Nat.le_of_lt (by rw [size_make]; exact Nat.lt_succ_self _), fun q hq _ => ?_⟩
  simp [state, make, Array.getElem?_push, Nat.ne_of_lt hq]

/-- To cancel a promise resolves none. -/
lemma isResolved_cancel (l : Ledger) (p : Promise) : (l.cancel p).isResolved = l.isResolved := by
  funext q
  simp only [isResolved, cancel, state_settle]
  split
  · next h =>
    obtain ⟨hp, rfl⟩ := h
    rw [beq_iff_eq.1 hp]
    rfl
  · rfl

lemma isResolved_make (l : Ledger) : l.make.2.isResolved = l.isResolved := by
  funext q
  simp only [isResolved, state, make, Array.getD_eq_getD_getElem?, Array.getElem?_push]
  by_cases hq : q.index = l.states.size
  · simp [hq]
  · simp [hq]

lemma isResolved_resolve (h : (l.resolve p).isResolved q = true) : l.isResolved q = true ∨ q = p := by
  simp only [isResolved, resolve, state_settle] at h ⊢
  split at h
  · next hp => exact Or.inr hp.2
  · exact Or.inl h

end Promise.Ledger

namespace Thread

lemma grows_releasePromise (t : Thread) (w : World) :
    w.promises.Grows (t.releasePromise w).promises := by
  have hmail : (t.releasePromise w).promises = _ := congrArg Mail.promises (t.mail_releasePromise w)
  rw [hmail]
  split
  · exact Promise.Ledger.grows_settle _ _ _
  · exact .refl _

lemma isResolved_releasePromise (t : Thread) (w : World) :
    (t.releasePromise w).promises.isResolved = w.promises.isResolved := by
  have hmail : (t.releasePromise w).promises = _ := congrArg Mail.promises (t.mail_releasePromise w)
  rw [hmail]
  split
  · exact Promise.Ledger.isResolved_cancel _ _
  · rfl

end Thread

namespace Engine

/-! ### What is kept -/

/-- A promise that is pending still is held by those who held it, and its broadcast is among the waits;
and a new one that is pending is held by someone. -/
structure Keeps (e e' : Engine) : Prop where
  ledger : e.world.promises.Grows e'.world.promises
  holders : ∀ p : Promise, p.index < e.world.promises.states.size →
    e'.world.promises.isPending p = true → ∀ t : Thread, t.machine.promise = some p →
      (t ∈ e'.threads ↔ t ∈ e.threads)
  waits : ∀ b ∈ e.waits, b.promise.index < e.world.promises.states.size →
    e'.world.promises.isPending b.promise = true → b ∈ e'.waits
  fresh : ∀ p : Promise, e.world.promises.states.size ≤ p.index →
    e'.world.promises.isPending p = true → ∃ t ∈ e'.threads, t.machine.promise = some p

section

variable {rs : List Request} {e e' e'' : Engine}

lemma Keeps.trans (h : Keeps e e') (k : Keeps e' e'') : Keeps e e'' := by
  have hmade := h.ledger.made
  refine ⟨h.ledger.trans k.ledger, fun p hp hpending t ht => ?_, fun b hb hp hpending => ?_,
    fun p hp hpending => ?_⟩
  · have hknown := Nat.lt_of_lt_of_le hp hmade
    have hbefore := k.ledger.isPending hknown hpending
    exact (k.holders p hknown hpending t ht).trans (h.holders p hp hbefore t ht)
  · have hknown := Nat.lt_of_lt_of_le hp hmade
    exact k.waits b (h.waits b hb hp (k.ledger.isPending hknown hpending)) hknown hpending
  · rcases Nat.lt_or_ge p.index e'.world.promises.states.size with hknown | hnew
    · obtain ⟨t, ht, hholds⟩ := h.fresh p hp (k.ledger.isPending hknown hpending)
      exact ⟨t, (k.holders p hknown hpending t hholds).2 ht, hholds⟩
    · exact k.fresh p hnew hpending

lemma not_isPending_of_size_le {l : Promise.Ledger} {p : Promise} (h : l.states.size ≤ p.index) :
    ¬ l.isPending p = true :=
  fun hp => Nat.not_lt.2 h (Promise.Ledger.lt_of_isPending hp)

lemma keeps_of_eq (hp : e'.world.promises = e.world.promises) (ht : e'.threads = e.threads)
    (hw : e.waits ⊆ e'.waits) : Keeps e e' := by
  refine ⟨hp ▸ .refl _, fun _ _ _ _ _ => by rw [ht], fun b hb _ _ => hw hb, fun p hnew hpending => ?_⟩
  rw [hp] at hpending
  exact absurd hpending (not_isPending_of_size_le hnew)

/-- Whoever is neither of the two stays when one replaces the other. -/
lemma mem_replace_iff {α : Type} {xs ys : List α} {a b x : α} (ha : x ≠ a) (hb : x ≠ b) :
    x ∈ xs ++ b :: ys ↔ x ∈ xs ++ a :: ys :=
  ⟨fun h => mem_replace h hb, fun h => mem_replace h ha⟩

/-- A thread gives up its promise, and goes on or ends. -/
lemma keeps_release {xs ys : List Thread} {t t' : Thread} (ht : e.threads = xs ++ t :: ys)
    (hsame : ∀ p ∈ t'.machine.promise, t.machine.promise = some p) :
    Keeps e { e with world := t.releasePromise e.world, threads := xs ++ t' :: ys } := by
  refine ⟨t.grows_releasePromise e.world, fun p _ hpending x hx => ?_, fun b hb _ _ => hb,
    fun p hnew hpending => ?_⟩
  · have hother := ((t.isPending_releasePromise e.world p).1 hpending).2
    have hne : x ≠ t := by
      rintro rfl
      exact hother hx
    have hne' : x ≠ t' := by
      rintro rfl
      exact hother (hsame p hx)
    rw [ht]
    exact mem_replace_iff hne hne'
  · rw [t.isPending_releasePromise] at hpending
    exact absurd hpending.1 (not_isPending_of_size_le hnew)

/-- A thread that waits for nothing makes a promise, and holds it. -/
lemma keeps_post {xs ys : List Thread} {t t' : Thread} (ht : e.threads = xs ++ t :: ys)
    (hfree : ∀ p ∈ t.machine.promise, e.world.promises.isPending p = false)
    (hpromise : t'.machine.promise = some e.world.promises.make.1) {w : World}
    (hw : w.promises = e.world.promises.make.2) :
    Keeps e { e with world := w, threads := xs ++ t' :: ys } := by
  have hmake := e.world.promises.isPending_make
  refine ⟨hw ▸ Promise.Ledger.grows_make _, fun p hknown hpending x hx => ?_, fun b hb _ _ => hb,
    fun p hnew hpending => ?_⟩
  · simp only [hw, hmake] at hpending
    have hold := hpending.resolve_left (Promise.Ledger.ne_make hknown)
    have hne : x ≠ t := by
      rintro rfl
      rw [hfree p hx] at hold
      cases hold
    have hne' : x ≠ t' := by
      rintro rfl
      rw [hpromise, Option.some.injEq] at hx
      exact Promise.Ledger.ne_make hknown hx.symm
    rw [ht]
    exact mem_replace_iff hne hne'
  · simp only [hw, hmake] at hpending
    have hsame := hpending.resolve_right (not_isPending_of_size_le hnew)
    exact ⟨t', by simp, by rw [hpromise, hsame]⟩

/-- Those who wait for a pending promise are not finished. -/
lemma Posted.unfinished (h : Posted rs e) {t : Thread} (ht : t ∈ e.threads) {p : Promise}
    (hp : t.machine.promise = some p) (hpending : e.world.promises.isPending p = true) :
    t.isFinished = false := by
  have hawait := (h.held t ht p hp hpending).1
  simp [Thread.isFinished, Machine.isFinished, hawait]

lemma Posted.keeps_run {good : BlockMap → Prop} (hgood : ∀ b, good b → b.Playable) (hs : Sound good e)
    (h : Posted [] e) {xs ys : List Thread} {t : Thread} (fuel : Nat) (ht : e.threads = xs ++ t :: ys)
    (hrun : (t.run fuel e.world).1.machine.isFaulted = false) :
    Keeps e { e with
      world := { (t.run fuel e.world).2 with requests := [] }
      threads := xs ++ (t.run fuel e.world).1 :: ys } := by
  have hmem : t ∈ e.threads := by simp [ht]
  obtain ⟨hreach, b, -, hlaid⟩ := hs.laid hgood (hs.threads t hmem)
  rcases Thread.sent_run hlaid hreach fuel e.world hrun with ⟨-, hsame, hmail⟩ | ⟨hready, hsent⟩
  · rw [hsame]
    exact keeps_of_eq (congrArg Mail.promises hmail) ht.symm (List.Subset.refl _)
  have hfree := h.free hmem hready
  cases hsent with
  | plain rs only mail promise =>
    have hgone : ∀ p ∈ (t.run fuel e.world).1.machine.promise, t.machine.promise = some p := by
      simp [promise]
    have hkeeps : Keeps e { e with
        world := t.releasePromise e.world
        threads := xs ++ (t.run fuel e.world).1 :: ys } := keeps_release ht hgone
    rw [Thread.releasePromise_of_free hfree] at hkeeps
    exact hkeeps.trans (keeps_of_eq (congrArg Mail.promises mail) rfl (List.Subset.refl _))
  | question rs only q own mail promise waits =>
    exact keeps_post ht hfree (own ▸ promise) (congrArg Mail.promises mail)
  | broadcast rs only name mail promise waits =>
    exact keeps_post ht hfree promise (congrArg Mail.promises mail)

/-! ### Settling promises -/

lemma grows_settleAll (f : BroadcastWait → Promise.Ledger → Promise.Ledger)
    (hf : ∀ b ps, Promise.Ledger.Grows ps (f b ps)) (bs : List BroadcastWait) (ps : Promise.Ledger) :
    ps.Grows (bs.foldl (fun ps b => f b ps) ps) := by
  induction bs generalizing ps with
  | nil => exact .refl _
  | cons b bs ih => exact (hf b ps).trans (ih _)

lemma isPending_cancelAll (bs : List BroadcastWait) (ps : Promise.Ledger) (p : Promise) :
    (bs.foldl (fun ps b => ps.cancel b.promise) ps).isPending p = true ↔
      ps.isPending p = true ∧ ∀ b ∈ bs, b.promise ≠ p := by
  induction bs generalizing ps with
  | nil => simp
  | cons b bs ih =>
    rw [List.foldl_cons, ih, List.forall_mem_cons, Promise.Ledger.isPending_cancel, and_assoc, ne_comm]

/-- Promises are settled, and the waits for them are over. -/
lemma keeps_settle (hgrows : e.world.promises.Grows e'.world.promises)
    (hold : ∀ p, e'.world.promises.isPending p = true → e.world.promises.isPending p = true)
    (ht : e'.threads = e.threads)
    (hw : ∀ b ∈ e.waits, e'.world.promises.isPending b.promise = true → b ∈ e'.waits) :
    Keeps e e' :=
  ⟨hgrows, fun _ _ _ _ _ => by rw [ht], fun b hb _ => hw b hb,
    fun p hnew hpending => absurd (hold p hpending) (not_isPending_of_size_le hnew)⟩

lemma keeps_resolveWaits (e : Engine) : Keeps e e.resolveWaits := by
  have hpending := isPending_resolveDone e.threads e.waits e.world.promises
  refine keeps_settle ?_ (fun p hp => ((hpending p).1 hp).1) rfl fun b hb hp => ?_
  · refine grows_settleAll (fun b ps => if isDone e.threads b then ps.resolve b.promise else ps) ?_ _ _
    intro b ps
    split
    · exact Promise.Ledger.grows_settle _ _ _
    · exact .refl _
  · have hnot : isDone e.threads b = false := by
      by_contra hdone
      rw [Bool.not_eq_false] at hdone
      exact ((hpending b.promise).1 hp).2 b hb hdone rfl
    refine List.mem_filter.2 ⟨hb, ?_⟩
    rw [hnot]
    exact hp

lemma keeps_answerQuestion (e : Engine) (text : String) : Keeps e (e.answerQuestion text) := by
  have hmail := e.world.mail_answerQuestion text
  cases hqs : e.world.questions with
  | nil =>
    rw [hqs] at hmail
    exact keeps_of_eq (congrArg Mail.promises hmail) rfl (List.Subset.refl _)
  | cons q qs =>
    rw [hqs] at hmail
    have hpromises : (e.answerQuestion text).world.promises = e.world.promises.resolve q.promise :=
      congrArg Mail.promises hmail
    refine keeps_settle ?_ (fun p hp => ?_) rfl fun b hb _ => hb
    · rw [hpromises]
      exact Promise.Ledger.grows_settle _ _ _
    · rw [hpromises, Promise.Ledger.isPending_resolve] at hp
      exact hp.1

/-- When all threads are finished, none of them holds a pending promise. -/
lemma Posted.keeps_clear (h : Posted rs e) (hf : ∀ t ∈ e.threads, t.isFinished = true) :
    Keeps e { e with
      world := { e.world with
        promises := e.waits.foldl (fun ps b => ps.cancel b.promise) e.world.promises }
      threads := []
      waits := [] } := by
  have hpending := isPending_cancelAll e.waits e.world.promises
  refine ⟨grows_settleAll (fun b ps => ps.cancel b.promise)
      (fun b ps => Promise.Ledger.grows_settle ps _ _) _ _, fun p _ hp t ht => ?_, fun b hb _ hp => ?_,
    fun p hnew hp => ?_⟩
  · refine ⟨fun hmem => (List.not_mem_nil hmem).elim, fun hmem => ?_⟩
    have hunfinished := h.unfinished hmem ht ((hpending p).1 hp).1
    rw [hf t hmem] at hunfinished
    cases hunfinished
  · exact (((hpending b.promise).1 hp).2 b hb rfl).elim
  · exact absurd ((hpending p).1 hp).1 (not_isPending_of_size_le hnew)

lemma Posted.keeps_sweep (h : Posted rs e) :
    Keeps e { e with threads := e.threads.filter (!·.isFinished) } := by
  refine ⟨.refl _, fun p _ hp t ht => ⟨fun hmem => (List.mem_filter.1 hmem).1, fun hmem => ?_⟩,
    fun b hb _ _ => hb, fun p hnew hp => absurd hp (not_isPending_of_size_le hnew)⟩
  exact List.mem_filter.2 ⟨hmem, by rw [h.unfinished hmem ht hp]; rfl⟩

/-- A thread is added that waits for nothing. -/
lemma keeps_spawn (e : Engine) (index : Nat) (s : Script) (target : TargetId) :
    Keeps e (e.spawn index s target) := by
  refine ⟨.refl _, fun p _ _ t ht => ⟨fun hmem => ?_, List.mem_append_left _⟩, fun b hb _ _ => hb,
    fun p hnew hp => absurd hp (not_isPending_of_size_le hnew)⟩
  refine (List.mem_append.1 hmem).resolve_right fun hnew => ?_
  rw [List.mem_singleton.1 hnew] at ht
  cases ht

end

/-! ### Moves and acts -/

section

variable {good : BlockMap → Prop} {x y : List Request × Engine}

lemma Move.keeps (hgood : ∀ b, good b → b.Playable) (hs : Sound good x.2) (hp : Posted x.1 x.2)
    (h : Move x y) : Keeps x.2 y.2 := by
  cases h with
  | start hstart =>
    cases hstart with
    | spawn hs target => exact keeps_spawn _ _ _ target
    | restart ht hf => exact keeps_release ht (by simp [Thread.restart, Machine.reset])
  | calm hq hpromises hr hc => exact keeps_of_eq hpromises rfl (List.Subset.refl _)
  | kill ht => exact keeps_release ht fun p hp => hp
  | clear hf => exact hp.keeps_clear hf
  | run fuel ht hf hrun => exact hp.keeps_run hgood hs fuel ht hrun
  | collect | told hr | served hr | forget edges h => exact keeps_of_eq rfl rfl (List.Subset.refl _)
  | posted receivers => exact keeps_of_eq rfl rfl (List.subset_append_left _ _)
  | resolve => exact keeps_resolveWaits _
  | sweep => exact hp.keeps_sweep
  | answer text => exact keeps_answerQuestion _ text
  | watch hs target =>
    simp only [edge]
    split
    · exact keeps_of_eq rfl rfl (List.Subset.refl _)
    · exact keeps_of_eq rfl rfl (List.Subset.refl _)
  | @evaluate _ e g fuel index target hg hrun =>
    obtain ⟨hreach, b, -, hlaid⟩ := hs.laid hgood (hs.edges g hg)
    obtain ⟨hmail, -⟩ := Thread.runPredicate_frame hlaid hreach fuel e.world
    exact keeps_of_eq (congrArg Mail.promises hmail) rfl (List.Subset.refl _)

lemma lasting_keeps (hgood : ∀ b, good b → b.Playable) (e : Engine) :
    Lasting good fun y => Keeps e y.2 :=
  ⟨fun hs hp hkeeps hm => hkeeps.trans (hm.keeps hgood hs hp), fun hkeeps hmail hw ht =>
    hkeeps.trans (keeps_of_eq (congrArg Mail.promises hmail) ht (hw ▸ List.Subset.refl _))⟩

/-- However long the engine goes on. -/
lemma Acts.keeps (hgood : ∀ b, good b → b.Playable) (hx : Visited good x) (h : Acts good x y) :
    Keeps x.2 y.2 :=
  (lasting_keeps hgood x.2).acts hgood hx (keeps_of_eq rfl rfl (List.Subset.refl _)) h

/-- Every pending promise is held by a thread. -/
def Held (e : Engine) : Prop :=
  ∀ p, e.world.promises.isPending p = true → ∃ t ∈ e.threads, t.machine.promise = some p

lemma Held.keep {e e' : Engine} (h : Held e) (hkeeps : Keeps e e') : Held e' := by
  intro p hp
  rcases Nat.lt_or_ge p.index e.world.promises.states.size with hknown | hnew
  · obtain ⟨t, ht, hholds⟩ := h p (hkeeps.ledger.isPending hknown hp)
    exact ⟨t, (hkeeps.holders p hknown hp t hholds).2 ht, hholds⟩
  · exact hkeeps.fresh p hnew hp

lemma Visited.held (hgood : ∀ b, good b → b.Playable) (h : Visited good x) : Held x.2 := by
  induction h with
  | new config host => simp [Held, Engine.new, Promise.Ledger.isPending, Promise.Ledger.state,
      Promise.Ledger.empty]
  | act hx ha ih => exact ih.keep (ha.acts.keeps hgood hx)

end

/-! ### What resolves a promise -/

section

variable (e : Engine)

lemma isResolved_startScript (index : Nat) (s : Script) (target : TargetId) (restart : Bool) :
    (e.startScript index s target restart).2.world.promises.isResolved =
      e.world.promises.isResolved := by
  rcases startScript_cases e index s target restart with ⟨xs, t, ys, -, -, heq⟩ | ⟨-, heq⟩
  · rw [heq]
    split
    · exact t.isResolved_releasePromise e.world
    · rfl
  · rw [heq]
    rfl

lemma isResolved_startHats (p : Hat → Bool) (only : Option TargetId) (restart : Bool) :
    (e.startHats p only restart).2.world.promises.isResolved = e.world.promises.isResolved :=
  startHats_induction (P := fun _ _ e' => e'.world.promises.isResolved = e.world.promises.isResolved) rfl
    fun _ _ _ _ _ _ h => (isResolved_startScript _ _ _ _ _).trans h

lemma isResolved_killThreads (p : Thread → Bool) (ts : List Thread) (w : World) :
    (killThreads p ts w).2.promises.isResolved = w.promises.isResolved := by
  induction ts generalizing w with
  | nil => rfl
  | cons t ts ih =>
    simp only [killThreads]
    split
    · exact (ih _).trans (t.isResolved_releasePromise w)
    · exact ih w

lemma isResolved_stop : e.stop.world.promises.isResolved = e.world.promises.isResolved := by
  have hcancel : ∀ (bs : List BroadcastWait) (ps : Promise.Ledger),
      (bs.foldl (fun ps b => ps.cancel b.promise) ps).isResolved = ps.isResolved := by
    intro bs
    induction bs with
    | nil => exact fun _ => rfl
    | cons b bs ih => exact fun ps => (ih _).trans (ps.isResolved_cancel b.promise)
  have hkill := isResolved_killThreads (fun _ => true) e.threads e.world
  unfold stop
  generalize killThreads (fun _ => true) e.threads e.world = y at hkill ⊢
  have hdelete := (calm_deleteClones y.2.targets.ids { y.2 with
    promises := e.waits.foldl (fun ps b => ps.cancel b.promise) y.2.promises }).2.1
  have hclear := congrArg Mail.promises (calm_clearBubbles (deleteClones { y.2 with
    promises := e.waits.foldl (fun ps b => ps.cancel b.promise) y.2.promises })).1
  exact (congrArg Promise.Ledger.isResolved (hclear.trans hdelete)).trans ((hcancel _ _).trans hkill)

lemma isResolved_handle (r : Request) :
    (e.handle r).world.promises.isResolved = e.world.promises.isResolved := by
  cases r with
  | broadcast name promise =>
    have hstart := e.isResolved_startHats (· == .broadcast (Text.lowercase name)) none true
    cases promise <;> exact hstart
  | startClone clone => exact e.isResolved_startHats _ _ _
  | killThreadsOf target => exact isResolved_killThreads _ _ _
  | stopAll => exact e.isResolved_stop
  | stopOthers target except => exact isResolved_killThreads _ _ _

end

section

variable {good : BlockMap → Prop} {x y : List Request × Engine} {e : Engine}

/-- A slice may make a promise, but it resolves none. -/
lemma Sound.isResolved_run (hgood : ∀ b, good b → b.Playable) (hs : Sound good e) {t : Thread}
    (ht : t ∈ e.threads) (fuel : Nat) (hrun : (t.run fuel e.world).1.machine.isFaulted = false) :
    (t.run fuel e.world).2.promises.isResolved = e.world.promises.isResolved := by
  obtain ⟨hreach, b, -, hlaid⟩ := hs.laid hgood (hs.threads t ht)
  rcases Thread.sent_run hlaid hreach fuel e.world hrun with ⟨-, -, hmail⟩ | ⟨-, hsent⟩
  · exact congrArg Promise.Ledger.isResolved (congrArg Mail.promises hmail)
  · cases hsent with
    | plain rs only mail => exact congrArg Promise.Ledger.isResolved (congrArg Mail.promises mail)
    | question rs only q own mail | broadcast rs only name mail =>
      have hmake := congrArg Promise.Ledger.isResolved (congrArg Mail.promises mail)
      exact hmake.trans (Promise.Ledger.isResolved_make _)

lemma isResolved_resolveDone {threads : List Thread} {bs : List BroadcastWait} {ps : Promise.Ledger}
    {p : Promise} (h : (bs.foldl (fun ps b => if isDone threads b then ps.resolve b.promise else ps)
      ps).isResolved p = true) :
    ps.isResolved p = true ∨ ∃ b ∈ bs, isDone threads b = true ∧ b.promise = p := by
  induction bs generalizing ps with
  | nil => exact Or.inl h
  | cons b bs ih =>
    rw [List.foldl_cons] at h
    rcases ih h with hps | ⟨b', hb', hrest⟩
    · split at hps
      · next hdone =>
        rcases Promise.Ledger.isResolved_resolve hps with hps | rfl
        · exact Or.inl hps
        · exact Or.inr ⟨b, List.mem_cons_self, hdone, rfl⟩
      · exact Or.inl hps
    · exact Or.inr ⟨b', List.mem_cons_of_mem _ hb', hrest⟩

/-- A promise is resolved only when its broadcast is done or its question is answered; the threads are
left alone then. -/
lemma Act.resolves (hgood : ∀ b, good b → b.Playable) (hx : Visited good x) (h : Act good x y)
    {p : Promise} (hnot : x.2.world.promises.isResolved p = false)
    (hp : y.2.world.promises.isResolved p = true) :
    y.2.threads = x.2.threads ∧ ((∃ b ∈ x.2.waits, isDone x.2.threads b = true ∧ b.promise = p) ∨
      ∃ q ∈ x.2.world.questions, q.promise = p) := by
  obtain ⟨hsound, hnone, -⟩ := hx.sound hgood
  -- all acts but two resolve nothing
  have hquiet : y.2.world.promises.isResolved ≠ x.2.world.promises.isResolved := by
    intro hsame
    rw [hsame, hnot] at hp
    cases hp
  cases h with
  | handle r rs e => exact absurd (e.isResolved_handle r) hquiet
  | turn fuel ht hf hrun =>
    exact absurd (hsound.isResolved_run hgood (List.mem_of_getElem? ht) fuel hrun) hquiet
  | condition fuel hs htarget hrun =>
    obtain ⟨e', hnotes, heq⟩ := hsound.notes hgood hnone hs hrun
    have hsame := congrArg Promise.Ledger.isResolved (congrArg Mail.promises hnotes.mail)
    refine absurd ?_ hquiet
    rcases heq with heq | heq
    · simp only [heq]
      exact hsame
    · simp only [heq]
      exact (e'.isResolved_startScript _ _ _ _).trans hsame
  | resolve e =>
    refine ⟨rfl, Or.inl ((isResolved_resolveDone hp).resolve_left fun hbefore => ?_)⟩
    rw [hnot] at hbefore
    cases hbefore
  | sweep e | broadcast e name | add e t _ => exact absurd rfl hquiet
  | hats e p only restart => exact absurd (e.isResolved_startHats p only restart) hquiet
  | stop e => exact absurd e.isResolved_stop hquiet
  | compile e => exact absurd e.isResolved_stop hquiet
  | answer e text =>
    have hmail := e.world.mail_answerQuestion text
    cases hqs : e.world.questions with
    | nil =>
      rw [hqs] at hmail
      exact absurd (congrArg Promise.Ledger.isResolved (congrArg Mail.promises hmail)) hquiet
    | cons q qs =>
      rw [hqs] at hmail
      have hpromises : (e.answerQuestion text).world.promises = e.world.promises.resolve q.promise :=
        congrArg Mail.promises hmail
      simp only [hpromises] at hp
      refine ⟨rfl, Or.inr ⟨q, List.mem_cons_self, ?_⟩⟩
      refine ((Promise.Ledger.isResolved_resolve hp).resolve_left fun hbefore => ?_).symm
      simp only at hnot
      rw [hnot] at hbefore
      cases hbefore
  | outside e w hmail _ _ =>
    exact absurd (congrArg Promise.Ledger.isResolved (congrArg Mail.promises hmail)) hquiet

end

end Engine

end Blockwork
