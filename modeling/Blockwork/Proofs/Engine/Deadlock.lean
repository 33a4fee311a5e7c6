import Blockwork.Proofs.Engine.Receivers

/-!
Threads that wait for one another never do so in a circle. A thread waits for those that its broadcast
started or started over, and at that moment they wait for nothing: whoever starts over gives up its own
wait first. So whoever is waited for was started later than whoever waits, and the waits can be ranked.
Between frames every chain of waits ends in a thread that can go on, or in one that waits for an answer.
-/

namespace Blockwork

namespace Engine

/-- The first thread waits for a broadcast that the second receives, and neither is finished. -/
structure Waits (e : Engine) (t r : Thread) : Prop where
  waiter : t ∈ e.threads
  receiver : r ∈ e.threads
  waiting : t.isFinished = false
  receiving : r.isFinished = false
  carried : ∃ b ∈ e.waits, t.pendingPromise? e.world = some b.promise ∧ r.id ∈ b.receivers

/-- Whoever is waited for has a lower rank, and was started already. -/
structure Ranked (e : Engine) : Prop where
  below : ∀ b ∈ e.waits, ∀ id ∈ b.receivers, id < e.nextThread
  rank : ∃ rank : ThreadId → Nat, ∀ t r, Waits e t r → rank r.id < rank t.id

section

variable {e e' : Engine}

/-! ### Waits go back to earlier waits -/

lemma waits_startScript (e : Engine) (index : Nat) (s : Script) (target : TargetId) (restart : Bool) :
    (e.startScript index s target restart).2.waits = e.waits := by
  obtain ⟨world, threads, nextThread, he⟩ := e.startScript_frame index s target restart
  rw [he]

lemma waits_startHats (e : Engine) (p : Hat → Bool) (only : Option TargetId) (restart : Bool) :
    (e.startHats p only restart).2.waits = e.waits := by
  obtain ⟨world, threads, nextThread, he⟩ := e.startHats_frame p only restart
  rw [he]

/-- A thread that waits for an old broadcast has waited for it before. -/
lemma Ranked.earlier {rs : List Request} (h : Ranked e) (hposted : Posted rs e) (hkeeps : Keeps e e')
    (hcontinues : Continues e e') {t r : Thread} (hw : Waits e' t r) {b : BroadcastWait}
    (hb : b ∈ e.waits) (hp : t.pendingPromise? e'.world = some b.promise) (hr : r.id ∈ b.receivers) :
    ∃ r₀, Waits e t r₀ ∧ r₀.id = r.id := by
  obtain ⟨hpromise, hpending⟩ := Thread.pendingPromise?_eq_some.1 hp
  have hknown := hposted.known b.promise (mem_outstanding.2 (Or.inr (Or.inl ⟨b, hb, rfl⟩)))
  rcases hcontinues.threads r hw.receiver with ⟨r₀, hr₀, ha⟩ | hnew
  · refine ⟨r₀, ⟨?_, hr₀, hw.waiting, ha.finished hw.receiving, b, hb, ?_, ha.id ▸ hr⟩, ha.id.symm⟩
    · exact (hkeeps.holders b.promise hknown hpending t hpromise).1 hw.waiter
    · exact Thread.pendingPromise?_eq_some.2 ⟨hpromise, hkeeps.ledger.isPending hknown hpending⟩
  · -- the receiver was started when the broadcast was noted
    exact absurd (h.below b hb r.id hr) (Nat.not_lt.2 hnew)

/-! ### Ranks -/

/-- As long as no new broadcast is waited for, the ranks stay. -/
lemma Ranked.keep {rs : List Request} (h : Ranked e) (hposted : Posted rs e) (hkeeps : Keeps e e')
    (hcontinues : Continues e e') (hsub : e'.waits ⊆ e.waits) : Ranked e' := by
  obtain ⟨rank, hrank⟩ := h.rank
  refine ⟨fun b hb id hid => Nat.lt_of_lt_of_le (h.below b (hsub hb) id hid) hcontinues.next, rank,
    fun t r hw => ?_⟩
  obtain ⟨b, hb, hp, hr⟩ := hw.carried
  obtain ⟨r₀, hw₀, hid⟩ := h.earlier hposted hkeeps hcontinues hw (hsub hb) hp hr
  rw [← hid]
  exact hrank t r₀ hw₀

/-- Those who receive a new broadcast wait for nothing, so they get the lowest rank. -/
lemma Ranked.broadcast {good : BlockMap → Prop} (hgood : ∀ b, good b → b.Playable) {rs : List Request}
    {name : String} {p : Promise} (h : Ranked e)
    (hv : Visited good (.broadcast name (some p) :: rs, e)) :
    Ranked (e.handle (.broadcast name (some p))) := by
  have hact : Act good (.broadcast name (some p) :: rs, e) (rs, e.handle (.broadcast name (some p))) :=
    .handle _ _ _
  have hkeeps := hact.acts.keeps hgood hv
  have hcontinues := hact.continues hgood hv
  have hcalled := hv.called hgood
  have hwaits : (e.handle (.broadcast name (some p))).waits = e.waits ++ [⟨p, e.receivers name⟩] :=
    congrArg (· ++ [_]) (waits_startHats e _ _ _)
  obtain ⟨rank, hrank⟩ := h.rank
  refine ⟨fun b hb id hid => ?_, fun id => if id ∈ e.receivers name then 0 else rank id + 1,
    fun t r hw => ?_⟩
  · rw [hwaits] at hb
    rcases List.mem_append.1 hb with hb | hb
    · exact Nat.lt_of_lt_of_le (h.below b hb id hid) hcontinues.next
    · rw [List.mem_singleton.1 hb] at hid
      exact hcalled.below id hid
  · obtain ⟨b, hb, hp, hr⟩ := hw.carried
    have hpromise := (Thread.pendingPromise?_eq_some.1 hp).1
    have hnot : t.id ∉ e.receivers name := by
      intro hin
      rw [hcalled.fresh t hw.waiter hin] at hpromise
      cases hpromise
    simp only [if_neg hnot]
    split
    · exact Nat.succ_pos _
    · next hother =>
      rw [hwaits] at hb
      have hold : b ∈ e.waits := (List.mem_append.1 hb).resolve_right fun hnew => by
        rw [List.mem_singleton.1 hnew] at hr
        exact hother hr
      obtain ⟨r₀, hw₀, hid⟩ := h.earlier (hv.posted hgood) hkeeps hcontinues hw hold hp hr
      rw [← hid]
      exact Nat.succ_lt_succ (hrank t r₀ hw₀)

lemma waits_handle (e : Engine) {r : Request} (hr : r.promise? = none) :
    (e.handle r).waits ⊆ e.waits := by
  cases r with
  | broadcast name promise =>
    cases hr
    exact fun _ hb => waits_startHats e _ _ _ ▸ hb
  | startClone clone => exact fun _ hb => waits_startHats e _ _ _ ▸ hb
  | killThreadsOf target | stopOthers target except => exact List.Subset.refl _
  | stopAll => exact List.nil_subset _

lemma Ranked.act {good : BlockMap → Prop} (hgood : ∀ b, good b → b.Playable)
    {x y : List Request × Engine} (h : Ranked x.2) (hx : Visited good x) (ha : Act good x y) :
    Ranked y.2 := by
  have hkeep : y.2.waits ⊆ x.2.waits → Ranked y.2 :=
    h.keep (hx.posted hgood) (ha.acts.keeps hgood hx) (ha.continues hgood hx)
  cases ha with
  | handle r rs e =>
    cases hr : r.promise? with
    | none => exact hkeep (e.waits_handle hr)
    | some p =>
      cases r with
      | broadcast name promise =>
        cases hr
        exact h.broadcast hgood hx
      | startClone | killThreadsOf | stopAll | stopOthers => cases hr
  | condition fuel hs htarget hrun =>
    obtain ⟨hsound, hnone, -⟩ := hx.sound hgood
    obtain ⟨e', hnotes, heq⟩ := hsound.notes hgood hnone hs hrun
    refine hkeep ?_
    rcases heq with heq | heq
    · simp only [heq, hnotes.waits]
      exact List.Subset.refl _
    · simp only [heq, waits_startScript, hnotes.waits]
      exact List.Subset.refl _
  | resolve e => exact hkeep (List.filter_subset_self _)
  | hats e p only restart => exact hkeep fun _ hb => waits_startHats e p only restart ▸ hb
  | stop e | compile e => exact hkeep (List.nil_subset _)
  | turn | sweep | answer | broadcast | add | outside => exact hkeep (List.Subset.refl _)

lemma Visited.ranked {good : BlockMap → Prop} (hgood : ∀ b, good b → b.Playable)
    {x : List Request × Engine} (h : Visited good x) : Ranked x.2 := by
  induction h with
  | new config host =>
    refine ⟨fun _ hb => (List.not_mem_nil hb).elim, fun _ => 0, fun t r hw => ?_⟩
    exact (List.not_mem_nil hw.waiter).elim
  | act hx ha ih => exact ih.act hgood hx ha

/-! ### Chains -/

lemma Ranked.wellFounded (h : Ranked e) : WellFounded fun r t => Waits e t r := by
  obtain ⟨rank, hrank⟩ := h.rank
  exact Subrelation.wf (fun {r t} hw => hrank t r hw)
    (InvImage.wf (fun t : Thread => rank t.id) Nat.lt_wfRel.wf)

lemma Ranked.acyclic (h : Ranked e) (t : Thread) : ¬ Relation.TransGen (Waits e) t t := by
  obtain ⟨rank, hrank⟩ := h.rank
  have hlower : ∀ r, Relation.TransGen (Waits e) t r → rank r.id < rank t.id := by
    intro r hw
    induction hw with
    | single hw => exact hrank _ _ hw
    | tail _ hw ih => exact Nat.lt_trans (hrank _ _ hw) ih
  exact fun hw => Nat.lt_irrefl _ (hlower t hw)

/-- A thread that is not finished and cannot go on waits for a pending promise. -/
lemma Sound.pending_of_not_isReady {good : BlockMap → Prop} (hgood : ∀ b, good b → b.Playable)
    (h : Sound good e) {t : Thread} (ht : t ∈ e.threads) (hf : t.isFinished = false)
    (hready : t.machine.isReady e.world = false) : ∃ p, t.pendingPromise? e.world = some p := by
  obtain ⟨hreach, b, -, hlaid⟩ := h.laid hgood (h.threads t ht)
  unfold Machine.isReady at hready
  split at hready
  · next hstatus => simp [Thread.isFinished, Machine.isFinished, hstatus] at hf
  · next f hstatus => exact (hreach.not_faulted hlaid f hstatus).elim
  · rw [Bool.not_eq_false', Option.any_eq_true] at hready
    obtain ⟨p, hp, hpending⟩ := hready
    exact ⟨p, Thread.pendingPromise?_eq_some.2 ⟨hp, hpending⟩⟩
  · cases hready

end

/-- **No deadlock.** In every state that an engine comes to, in the middle of a frame too, no thread
waits for itself through others. So every chain of waits comes to an end, and between frames its last
thread can go on or waits for an answer. -/
theorem waits_acyclic {e : Engine} (h : Played BlockMap.Playable e) :
    (∀ x, Acts BlockMap.Playable ([], e) x → ∀ t, ¬ Relation.TransGen (Waits x.2) t t) ∧
    (WellFounded fun r t => Waits e t r) ∧
    ∀ t ∈ e.threads, t.isFinished = false → (∀ r, ¬ Waits e t r) →
      t.machine.isReady e.world = true ∨
        ∃ q ∈ e.world.questions, t.pendingPromise? e.world = some q.promise := by
  have hgood : ∀ b : BlockMap, b.Playable → b.Playable := fun _ hb => hb
  have hv := h.visited hgood
  refine ⟨fun x hx t => ((hv.acts hx).ranked hgood).acyclic t, (hv.ranked hgood).wellFounded,
    fun t ht hf hlast => ?_⟩
  by_contra hstuck
  rw [not_or, Bool.not_eq_true] at hstuck
  have hsound : Sound BlockMap.Playable e := (hv.sound hgood).1
  obtain ⟨p, hp⟩ := hsound.pending_of_not_isReady hgood ht hf hstuck.1
  obtain ⟨hposted, hreceived⟩ := h.reachable.posted
  obtain ⟨hpromise, hpending⟩ := Thread.pendingPromise?_eq_some.1 hp
  obtain ⟨-, hout⟩ := hposted.held t ht p hpromise hpending
  rcases mem_outstanding.1 hout with ⟨q, hq, rfl⟩ | ⟨b, hb, rfl⟩ | hrequest
  · exact hstuck.2 ⟨q, hq, hp⟩
  · obtain ⟨r, hr, hid, hfr⟩ := hreceived b hb
    exact hlast r ⟨ht, hr, hf, hfr, b, hb, hp, hid⟩
  · cases hrequest

/-- Two scripts send each other messages in a circle, and wait each time. -/
def circle : BlockMap := .ofList [
  ("flag", { id := "flag", opcode := "event_whenflagclicked", topLevel := true
             next := some "first" }),
  ("first", { id := "first", opcode := "event_broadcastandwait"
              inputs := .ofList [("BROADCAST_INPUT", { value := some (.value (.text "ping")) })] }),
  ("ping", { id := "ping", opcode := "event_whenbroadcastreceived", topLevel := true
             next := some "reply"
             fields := .ofList [("BROADCAST_OPTION", { value := .text "ping" })] }),
  ("reply", { id := "reply", opcode := "event_broadcastandwait"
              inputs := .ofList [("BROADCAST_INPUT", { value := some (.value (.text "pong")) })] }),
  ("pong", { id := "pong", opcode := "event_whenbroadcastreceived", topLevel := true
             next := some "again"
             fields := .ofList [("BROADCAST_OPTION", { value := .text "pong" })] }),
  ("again", { id := "again", opcode := "event_broadcastandwait"
              inputs := .ofList [("BROADCAST_INPUT", { value := some (.value (.text "ping")) })] })]

/-- The second script has started over, and so it does not wait for the third any more. -/
theorem waits_acyclic_circle : ∃ e, Played BlockMap.Playable e ∧
    e.threads.map (fun t => (t.id, t.machine.promise)) = [(0, some ⟨0⟩), (1, none), (2, some ⟨2⟩)] ∧
    e.waits.map (fun b => (b.promise, b.receivers)) = [(⟨0⟩, [1]), (⟨2⟩, [1])] ∧
    (∀ t, ¬ Relation.TransGen (Waits e) t t) ∧
    ∀ t ∈ e.threads, t.isFinished = false → (∀ r, ¬ Waits e t r) →
      t.machine.isReady e.world = true ∨
        ∃ q ∈ e.world.questions, t.pendingPromise? e.world = some q.promise := by
  have hac : circle.Acyclic := BlockMap.acyclic_of_falling
    (fun id => ["again", "pong", "reply", "ping", "first", "flag"].idxOf id) (by decide +kernel)
  have hplayable : circle.Playable := ⟨by decide +kernel, by decide +kernel, hac⟩
  have hstart := (((Played.new {} {}).play (.add _ { name := "Stage", isStage := true, blocks := circle }
    hplayable)).play (.compile _)).play (.start _)
  obtain ⟨e, he, hthreads, hwaits⟩ : ∃ e, Played BlockMap.Playable e ∧
      e.threads.map (fun t => (t.id, t.machine.promise)) = [(0, some ⟨0⟩), (1, none), (2, some ⟨2⟩)] ∧
      e.waits.map (fun b => (b.promise, b.receivers)) = [(⟨0⟩, [1]), (⟨2⟩, [1])] :=
    ⟨_, hstart.play (.step _ 100 (by decide +kernel)), by decide +kernel⟩
  obtain ⟨hacyclic, -, hends⟩ := waits_acyclic he
  exact ⟨e, he, hthreads, hwaits, hacyclic _ (.refl _), hends⟩

end Engine

end Blockwork
