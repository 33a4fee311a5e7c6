import Blockwork.Proofs.Engine.Held
import Blockwork.Proofs.Engine.Threads

/-!
Broadcasts that are waited for. When the request is handled, every script with the hat of the broadcast
is at its beginning, on every target of its family, and the numbers of these threads are noted beside
the promise. The note is kept as long as the promise is pending, and the promise is resolved only when
all these threads are finished or gone. That they are stays true: a number is not given again, and a
finished thread does not come back.
-/

namespace Blockwork

namespace Engine

/-! ### Starting over -/

/-- These scripts are at their beginning, in threads with these numbers. -/
structure Called (cs : List Calling) (ids : List ThreadId) (e : Engine) : Prop where
  each : ∀ c ∈ cs, ∃ t ∈ e.threads, t.id ∈ ids ∧ t.script = c.index ∧ t.target = c.target
  fresh : ∀ t ∈ e.threads, t.id ∈ ids → t.machine = t.machine.reset .main
  below : ∀ id ∈ ids, id < e.nextThread

section

variable {rs : List Request} {e : Engine}

/-- All scripts with a fitting hat start, or start over. -/
lemma Table.called (h : Table rs e) (p : Hat → Bool) (only : Option TargetId) :
    Called (e.callings p only) (e.startHats p only true).1 (e.startHats p only true).2 := by
  have hroused := h.roused p only true
  exact ⟨fun c hc => hroused.each c hc (Or.inl rfl), hroused.fresh, hroused.below⟩

/-! ### Waits -/

lemma Posted.wait_unique (h : Posted rs e) {b b' : BroadcastWait} (hb : b ∈ e.waits) (hb' : b' ∈ e.waits)
    (hsame : b.promise = b'.promise) : b = b' := by
  have hnodup : (e.waits.map (·.promise)).Nodup := h.once.of_append_left.of_append_right
  exact List.inj_on_of_nodup_map hnodup hb hb' hsame

/-- Nobody waits for a broadcast and for an answer at once. -/
lemma Posted.promise_ne (h : Posted rs e) {q : Question} (hq : q ∈ e.world.questions)
    {b : BroadcastWait} (hb : b ∈ e.waits) : q.promise ≠ b.promise :=
  (List.nodup_append.1 h.once.of_append_left).2.2 _ (List.mem_map_of_mem hq) _ (List.mem_map_of_mem hb)

lemma isFinished_of_isDone {ts : List Thread} {b : BroadcastWait} (h : isDone ts b = true)
    (hrising : ts.Pairwise (·.id < ·.id)) {t : Thread} (ht : t ∈ ts) (hid : t.id ∈ b.receivers) :
    t.isFinished = true := by
  have hfound := List.all_eq_true.1 h t.id hid
  cases hfind : ts.find? (·.id == t.id) with
  | none => exact absurd (List.find?_eq_none.1 hfind t ht) (by simp)
  | some t₀ =>
    have hsame : t₀.id = t.id := by simpa using List.find?_some hfind
    have heq := eq_of_rising hrising (List.mem_of_find?_eq_some hfind) ht hsame
    rw [hfind, heq] at hfound
    exact hfound

/-- Whoever waits for the promise waits for these threads. -/
structure Due (p : Promise) (ids : List ThreadId) (e : Engine) : Prop where
  known : p.index < e.world.promises.states.size
  below : ∀ id ∈ ids, id < e.nextThread
  noted : e.world.promises.isPending p = true → ⟨p, ids⟩ ∈ e.waits
  done : e.world.promises.isResolved p = true → ∀ t ∈ e.threads, t.id ∈ ids → t.isFinished = true

end

section

variable {good : BlockMap → Prop} {x y : List Request × Engine} {e : Engine} {p : Promise}
  {ids : List ThreadId}

lemma Due.act (hgood : ∀ b, good b → b.Playable) (h : Due p ids x.2) (hx : Visited good x)
    (ha : Act good x y) : Due p ids y.2 := by
  have hkeeps := ha.acts.keeps hgood hx
  have hcontinues := ha.continues hgood hx
  refine ⟨Nat.lt_of_lt_of_le h.known hkeeps.ledger.made,
    fun id hid => Nat.lt_of_lt_of_le (h.below id hid) hcontinues.next, fun hp => ?_,
    fun hp t ht hid => ?_⟩
  · exact hkeeps.waits _ (h.noted (hkeeps.ledger.isPending h.known hp)) h.known hp
  · cases hbefore : x.2.world.promises.isResolved p with
    | true =>
      -- it was resolved before, and those who were finished are so still
      rcases hcontinues.threads t ht with ⟨t₀, ht₀, ha⟩ | hnew
      · rw [ha.id] at hid
        by_contra hunfinished
        rw [Bool.not_eq_true] at hunfinished
        have hfinished := h.done hbefore t₀ ht₀ hid
        rw [ha.finished hunfinished] at hfinished
        cases hfinished
      · exact absurd (h.below t.id hid) (Nat.not_lt.2 hnew)
    | false =>
      have hpending : x.2.world.promises.isPending p = true := by
        by_contra hnot
        rw [Bool.not_eq_true] at hnot
        rw [hkeeps.ledger.isResolved h.known hnot, hbefore] at hp
        cases hp
      have hnoted := h.noted hpending
      have hposted := hx.posted hgood
      obtain ⟨hthreads, hcause⟩ := ha.resolves hgood hx hbefore hp
      rw [hthreads] at ht
      rcases hcause with ⟨b, hb, hdone, hsame⟩ | ⟨q, hq, hsame⟩
      · rw [hposted.wait_unique hb hnoted hsame] at hdone
        exact isFinished_of_isDone hdone (hx.table hgood).rising ht hid
      · exact absurd hsame (hposted.promise_ne hq hnoted)

lemma Due.acts (hgood : ∀ b, good b → b.Playable) (h : Due p ids x.2) (hx : Visited good x)
    (ha : Acts good x y) : Due p ids y.2 := by
  induction ha with
  | refl => exact h
  | tail ha hb ih => exact ih.act hgood (hx.acts ha) hb

/-! ### Requests -/

/-- Whoever asks for a broadcast and waits for it holds its promise, which is pending. -/
lemma Sound.issues (hgood : ∀ b, good b → b.Playable) (h : Sound good e) {t : Thread}
    (ht : t ∈ e.threads) {fuel : Nat} (hrun : (t.run fuel e.world).1.machine.isFaulted = false)
    {name : String} (hr : .broadcast name (some p) ∈ (t.run fuel e.world).2.requests) :
    (t.run fuel e.world).2.promises.isPending p = true ∧
      (t.run fuel e.world).1.machine.promise = some p := by
  obtain ⟨hreach, b, -, hlaid⟩ := h.laid hgood (h.threads t ht)
  have hidle : e.world.mail.requests = [] := h.idle
  have hin : p ∈ (t.run fuel e.world).2.mail.requests.filterMap Request.promise? :=
    List.mem_filterMap.2 ⟨_, hr, rfl⟩
  rcases Thread.sent_run hlaid hreach fuel e.world hrun with ⟨-, -, hmail⟩ | ⟨-, hsent⟩
  · rw [hmail, hidle] at hin
    cases hin
  · cases hsent with
    | plain rs only mail | question rs only q own mail =>
      rw [mail] at hin
      simp [hidle, only.promises] at hin
    | broadcast rs only name mail promise waits =>
      have hpromises : (t.run fuel e.world).2.promises = e.world.promises.make.2 :=
        congrArg Mail.promises mail
      rw [mail] at hin
      have hsame : p = e.world.mail.promises.make.1 := by
        simpa [hidle, only.promises, Request.promise?] using hin
      refine ⟨?_, hsame ▸ promise⟩
      rw [hpromises, Promise.Ledger.isPending_make]
      exact Or.inl hsame

lemma Act.issues (hgood : ∀ b, good b → b.Playable) (hx : Visited good ([], e))
    (h : Act good ([], e) y) {name : String} (hr : .broadcast name (some p) ∈ y.1) :
    y.2.world.promises.isPending p = true ∧ ∃ t ∈ y.2.threads, t.machine.promise = some p := by
  cases h with
  | @turn _ i t fuel ht hf hrun =>
    have hsound : Sound good e := (hx.sound hgood).1
    obtain ⟨hpending, hpromise⟩ := hsound.issues hgood (List.mem_of_getElem? ht) hrun hr
    obtain ⟨xs, ys, -, hset⟩ := exists_split ht
    refine ⟨hpending, (t.run fuel e.world).1, ?_, hpromise⟩
    simp only [hset]
    exact List.mem_append_right _ List.mem_cons_self
  | broadcast e name => simp at hr
  | _ => exact (List.not_mem_nil hr).elim

lemma not_isResolved_of_isPending {l : Promise.Ledger} (h : l.isPending p = true) :
    l.isResolved p = false := by
  simp only [Promise.Ledger.isPending, beq_iff_eq] at h
  simp [Promise.Ledger.isResolved, h]

/-- Nothing is resolved before the request is handled. -/
lemma Visited.not_isResolved (hgood : ∀ b, good b → b.Playable) (h : Visited good x) {name : String}
    (hr : .broadcast name (some p) ∈ x.1) : x.2.world.promises.isResolved p = false := by
  induction h with
  | new config host => exact (List.not_mem_nil hr).elim
  | @act x y hx ha ih =>
    by_cases hidle : x.1 = []
    · obtain ⟨rs, e⟩ := x
      cases hidle
      exact not_isResolved_of_isPending (ha.issues hgood hx hr).1
    · cases ha with
      | handle r rs e =>
        simp only [e.isResolved_handle r]
        exact ih (List.mem_cons_of_mem _ hr)
      | _ => exact absurd rfl hidle

/-- A request is left to do until it is handled. -/
lemma Acts.handles {r : Request} (hr : r ∈ x.1) (h : Acts good x y) :
    r ∈ y.1 ∨ ∃ rs e, Acts good x (r :: rs, e) ∧ Acts good (rs, e.handle r) y := by
  induction h with
  | refl => exact Or.inl hr
  | @tail y z hy hz ih =>
    rcases ih with hmem | ⟨rs, e, h1, h2⟩
    · cases hz with
      | handle r' rs e =>
        rcases List.mem_cons.1 hmem with rfl | hmem
        · exact Or.inr ⟨rs, e, hy, .refl _⟩
        · exact Or.inl hmem
      | _ => exact (List.not_mem_nil hmem).elim
    · exact Or.inr ⟨rs, e, h1, h2.trans hz.acts⟩

/-- The numbers of the threads that a broadcast starts or starts over. -/
def receivers (e : Engine) (name : String) : List ThreadId :=
  (e.startHats (· == .broadcast (Text.lowercase name)) none true).1

lemma Visited.called {rs : List Request} {name : String} {q : Option Promise}
    (hgood : ∀ b, good b → b.Playable) (h : Visited good (.broadcast name q :: rs, e)) :
    Called (e.callings (· == .broadcast (Text.lowercase name)) none) (e.receivers name)
      (e.handle (.broadcast name q)) := by
  have hcalled := ((h.table hgood).served (by simp)).called (· == .broadcast (Text.lowercase name)) none
  cases q with
  | none => exact hcalled
  | some p => exact ⟨hcalled.each, hcalled.fresh, hcalled.below⟩

/-- When the request is handled, the receivers are noted beside the promise. -/
lemma Visited.due {rs : List Request} {name : String} (hgood : ∀ b, good b → b.Playable)
    (h : Visited good (.broadcast name (some p) :: rs, e)) :
    Due p (e.receivers name) (e.handle (.broadcast name (some p))) := by
  have hact : Act good (.broadcast name (some p) :: rs, e) (rs, e.handle (.broadcast name (some p))) :=
    .handle _ _ _
  have hkeeps := hact.acts.keeps hgood h
  have hout : p ∈ outstanding (.broadcast name (some p) :: rs) e :=
    mem_outstanding.2 (Or.inr (Or.inr (List.mem_filterMap.2 ⟨_, List.mem_cons_self, rfl⟩)))
  refine ⟨Nat.lt_of_lt_of_le ((h.posted hgood).known p hout) hkeeps.ledger.made,
    (h.called hgood).below, fun _ => List.mem_append_right _ List.mem_cons_self, fun hp => ?_⟩
  rw [e.isResolved_handle, h.not_isResolved hgood List.mem_cons_self] at hp
  cases hp

/-! ### The sender -/

/-- A thread that waits for a pending promise stays as it is, and its slices do nothing. -/
lemma Acts.idles (hgood : ∀ b, good b → b.Playable) (hx : Visited good x) {t : Thread}
    (ht : t ∈ x.2.threads) (hp : t.machine.promise = some p) (ha : Acts good x y)
    (hpending : y.2.world.promises.isPending p = true) : t ∈ y.2.threads ∧
      ∀ fuel, t.run fuel y.2.world = (t, { y.2.world with currentThread := t.id }) := by
  have hmem : t ∈ y.2.threads :=
    ((ha.keeps hgood hx).holders p ((hx.posted hgood).kept t ht p hp) hpending t hp).2 ht
  refine ⟨hmem, fun fuel => ?_⟩
  have hnot : t.machine.isReady { y.2.world with currentThread := t.id } = false := by
    by_contra hready
    rw [Bool.not_eq_false] at hready
    have hfree := ((hx.acts ha).posted hgood).free hmem hready p hp
    rw [hpending] at hfree
    cases hfree
  simp only [Thread.run, Machine.run, hnot, Bool.false_eq_true, if_false]

/-- When a thread is taken away from a pending promise, the promise is never resolved. -/
lemma Act.calls_off (hgood : ∀ b, good b → b.Playable) (hx : Visited good x) {t : Thread}
    (ht : t ∈ x.2.threads) (hp : t.machine.promise = some p)
    (hpending : x.2.world.promises.isPending p = true) (ha : Act good x y) (hgone : t ∉ y.2.threads)
    {z : List Request × Engine} (hz : Acts good y z) : z.2.world.promises.isResolved p = false := by
  have hkeeps := ha.acts.keeps hgood hx
  have hknown := (hx.posted hgood).kept t ht p hp
  have hsettled : y.2.world.promises.isPending p = false := by
    by_contra hstill
    rw [Bool.not_eq_false] at hstill
    exact hgone ((hkeeps.holders p hknown hstill t hp).2 ht)
  have hcancelled : y.2.world.promises.isResolved p = false := by
    by_contra hresolved
    rw [Bool.not_eq_false] at hresolved
    have hthreads := (ha.resolves hgood hx (not_isResolved_of_isPending hpending) hresolved).1
    rw [hthreads] at hgone
    exact hgone ht
  have hlater := (hz.keeps hgood (hx.act ha)).ledger
  rw [hlater.isResolved (Nat.lt_of_lt_of_le hknown hkeeps.ledger.made) hsettled, hcancelled]

end

/-- **The sender waits for all receivers.** A thread asks for a broadcast in its slice, to wait for it.
As long as the promise is pending, that thread is as it was, and its slices change nothing but the mark
of the current thread; if it is killed or started over meanwhile, the promise is never resolved. It is
not resolved before the request is handled either. When that happens, every script with the hat of the
broadcast is at its beginning on the target it belongs to and on all its clones; and in every later
state in which the promise is resolved, all these threads are finished or gone. -/
theorem resolved_when_received {e : Engine} {x : List Request × Engine} {name : String} {p : Promise}
    (he : Visited BlockMap.Playable ([], e)) (hx : Act BlockMap.Playable ([], e) x)
    (hr : .broadcast name (some p) ∈ x.1) :
    (∃ t ∈ x.2.threads, t.machine.promise = some p ∧ x.2.world.promises.isPending p = true ∧
      ∀ y, Acts BlockMap.Playable x y → y.2.world.promises.isPending p = true →
        t ∈ y.2.threads ∧
        (∀ fuel, t.run fuel y.2.world = (t, { y.2.world with currentThread := t.id })) ∧
        ∀ z, Act BlockMap.Playable y z → t ∉ z.2.threads →
          ∀ z', Acts BlockMap.Playable z z' → z'.2.world.promises.isResolved p = false) ∧
    (∀ y, Acts BlockMap.Playable x y → y.2.world.promises.isResolved p = true →
      ∃ rs e', Acts BlockMap.Playable x (.broadcast name (some p) :: rs, e') ∧
        Acts BlockMap.Playable (rs, e'.handle (.broadcast name (some p))) y) ∧
    ∀ rs e', Acts BlockMap.Playable x (.broadcast name (some p) :: rs, e') →
      (∀ i s target u, e'.scripts[i]? = some s → s.hat = .broadcast (Text.lowercase name) →
        e'.world.targets.get? target = some u → (target = s.target ∨ u.cloneOf = some s.target) →
          ∃ t ∈ (e'.handle (.broadcast name (some p))).threads, t.id ∈ e'.receivers name ∧
            t.script = i ∧ t.target = target ∧ t.machine = t.machine.reset .main) ∧
      ∀ y, Acts BlockMap.Playable (rs, e'.handle (.broadcast name (some p))) y →
        y.2.world.promises.isResolved p = true →
          ∀ t ∈ y.2.threads, t.id ∈ e'.receivers name → t.isFinished = true := by
  have hgood : ∀ b : BlockMap, b.Playable → b.Playable := fun _ hb => hb
  have hvisited := he.act hx
  refine ⟨?_, fun y hy hresolved => ?_, fun rs e' hacts => ⟨?_, fun y hy hresolved => ?_⟩⟩
  · obtain ⟨hpending, t, ht, hp⟩ := hx.issues hgood he hr
    refine ⟨t, ht, hp, hpending, fun y hy hstill => ?_⟩
    obtain ⟨hmem, hidle⟩ := hy.idles hgood hvisited ht hp hstill
    exact ⟨hmem, hidle, fun z hz hgone z' hz' =>
      hz.calls_off hgood (hvisited.acts hy) hmem hp hstill hgone hz'⟩
  · refine (hy.handles hr).resolve_left fun hleft => ?_
    rw [(hvisited.acts hy).not_isResolved hgood hleft] at hresolved
    cases hresolved
  · intro i s target u hs hhat hu hroot
    have hcalled := (hvisited.acts hacts).called hgood
    have hfamily : target ∈ e'.family s.target :=
      mem_family.2 ⟨u.cloneOf, Option.map_eq_some_iff.2 ⟨u, hu, rfl⟩, hroot⟩
    obtain ⟨t, ht, hid, hscript, htarget⟩ :=
      hcalled.each ⟨i, s, target⟩ (mem_callings.2 ⟨hs, by simp [hhat], hfamily, rfl⟩)
    exact ⟨t, ht, hid, hscript, htarget, hcalled.fresh t ht hid⟩
  · have hv := hvisited.acts hacts
    exact ((hv.due hgood).acts hgood (hv.act (.handle _ rs e')) hy).done hresolved

/-- A script sends a message and waits; the other's hat spells it in another way. -/
def calls : BlockMap := .ofList [
  ("flag", { id := "flag", opcode := "event_whenflagclicked", topLevel := true
             next := some "send" }),
  ("send", { id := "send", opcode := "event_broadcastandwait"
             inputs := .ofList [("BROADCAST_INPUT", { value := some (.value (.text "Go")) })] }),
  ("receive", { id := "receive", opcode := "event_whenbroadcastreceived", topLevel := true
                fields := .ofList [("BROADCAST_OPTION", { value := .text "gO" })] })]

/-- The second thread receives the message, and is done when the frame ends. -/
theorem resolved_when_received_calls : ∃ e x, Visited BlockMap.Playable ([], e) ∧
    Act BlockMap.Playable ([], e) x ∧ x.1 = [.broadcast "Go" (some ⟨0⟩)] ∧
    x.2.receivers "Go" = [1] ∧ (e.step 100).world.promises.isResolved ⟨0⟩ = true ∧
    (∃ t ∈ x.2.threads, t.machine.promise = some ⟨0⟩ ∧
      ∀ fuel, t.run fuel x.2.world = (t, { x.2.world with currentThread := t.id })) ∧
    ∀ y, Acts BlockMap.Playable ([], x.2.handle (.broadcast "Go" (some ⟨0⟩))) y →
      y.2.world.promises.isResolved ⟨0⟩ = true → ∀ t ∈ y.2.threads, t.id = 1 → t.isFinished = true := by
  have hac : calls.Acyclic := BlockMap.acyclic_of_falling
    (fun id => ["receive", "send", "flag"].idxOf id) (by decide +kernel)
  have hplayable : calls.Playable := ⟨by decide +kernel, by decide +kernel, hac⟩
  have hstart := (((Played.new {} {}).play (.add _ { name := "Stage", isStage := true, blocks := calls }
    hplayable)).play (.compile _)).play (.start _)
  obtain ⟨e, he, hstep, hfirst⟩ : ∃ e, Played BlockMap.Playable e ∧
      (e.step 100).world.promises.isResolved ⟨0⟩ = true ∧
      (e.threads[0]?.any fun t => !t.isFinished && !(t.run 100 e.world).1.machine.isFaulted &&
        (t.run 100 e.world).2.requests == [.broadcast "Go" (some ⟨0⟩)] &&
        receivers { e with
          world := { (t.run 100 e.world).2 with requests := [] }
          threads := e.threads.set 0 (t.run 100 e.world).1 } "Go" == [1]) = true :=
    ⟨_, hstart, by decide +kernel, by decide +kernel⟩
  obtain ⟨t, ht, hfacts⟩ := (Option.any_eq_true _ _).1 hfirst
  simp only [Bool.and_eq_true, Bool.not_eq_true', beq_iff_eq] at hfacts
  obtain ⟨⟨⟨hf, hrun⟩, hrequests⟩, hreceivers⟩ := hfacts
  have hv : Visited BlockMap.Playable ([], e) := he.visited fun _ hb => hb
  have hact : Act BlockMap.Playable ([], e) _ := Act.turn 100 ht hf hrun
  have hr : .broadcast "Go" (some ⟨0⟩) ∈ (t.run 100 e.world).2.requests := by simp [hrequests]
  obtain ⟨⟨s, hs, hp, hpending, hwaits⟩, -, hafter⟩ := resolved_when_received hv hact hr
  refine ⟨e, _, hv, hact, hrequests, hreceivers, hstep,
    ⟨s, hs, hp, (hwaits _ (.refl _) hpending).2.1⟩, ?_⟩
  rw [hrequests] at hafter
  intro y hy hresolved t' ht' hid
  refine (hafter [] _ (.refl _)).2 y hy hresolved t' ht' ?_
  rw [hreceivers, hid]
  exact List.mem_cons_self

end Engine

end Blockwork
