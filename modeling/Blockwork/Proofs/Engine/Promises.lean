import Blockwork.Proofs.Engine.Sound
import Mathlib.Data.List.Nodup

/-!
No thread waits in vain. A promise that a thread waits for is in the mail: it belongs to one question,
or to one broadcast whose receivers are not done, or to a request that is still to be handled. Every
move keeps this; and a question is dropped with the thread that asked it.
-/

namespace Blockwork

/-! ### Giving up a promise -/

namespace Thread

variable {t : Thread} {w : World} {p : Promise}

lemma pendingPromise?_eq_some : t.pendingPromise? w = some p ↔
    t.machine.promise = some p ∧ w.promises.isPending p = true := by
  simp [pendingPromise?, Option.filter_eq_some_iff]

/-- A thread that gives up its promise settles that one and no other. -/
lemma isPending_releasePromise (t : Thread) (w : World) (p : Promise) :
    (t.releasePromise w).promises.isPending p = true ↔
      w.promises.isPending p = true ∧ t.machine.promise ≠ some p := by
  have hmail : (t.releasePromise w).promises = _ := congrArg Mail.promises (t.mail_releasePromise w)
  rw [hmail]
  cases h : t.pendingPromise? w with
  | none =>
    constructor
    · intro hp
      refine ⟨hp, fun ht => ?_⟩
      rw [pendingPromise?_eq_some.2 ⟨ht, hp⟩] at h
      cases h
    · exact And.left
  | some p' =>
    rw [(pendingPromise?_eq_some.1 h).1]
    simp only [Promise.Ledger.isPending_cancel, ne_eq, Option.some.injEq, @eq_comm _ p p']

/-- Who waits for nothing has nothing to give up. -/
lemma releasePromise_of_free (h : ∀ p ∈ t.machine.promise, w.promises.isPending p = false) :
    t.releasePromise w = w := by
  unfold releasePromise
  split
  · next p hp =>
    obtain ⟨hp, hpending⟩ := pendingPromise?_eq_some.1 hp
    rw [h p hp] at hpending
    cases hpending
  · rfl

lemma size_releasePromise (t : Thread) (w : World) :
    (t.releasePromise w).promises.states.size = w.promises.states.size := by
  have hmail : (t.releasePromise w).promises = _ := congrArg Mail.promises (t.mail_releasePromise w)
  rw [hmail]
  split
  · exact Promise.Ledger.size_settle _ _ _
  · rfl

/-- Only its own question is dropped. -/
lemma questions_releasePromise (t : Thread) (w : World) : (t.releasePromise w).questions =
    w.questions.eraseP fun q => t.pendingPromise? w == some q.promise := by
  have hmail : (t.releasePromise w).questions = _ := congrArg Mail.questions (t.mail_releasePromise w)
  rw [hmail]
  cases h : t.pendingPromise? w with
  | none => simp [World.mail, List.eraseP_of_forall_not]
  | some p => simp [BEq.comm]

end Thread

/-- Of questions with different promises, the only one with a promise is gone. -/
lemma Question.not_of_mem_eraseP {p : Option Promise} {qs : List Question}
    (h : (qs.map (·.promise)).Nodup) {q : Question} (hq : q ∈ qs.eraseP fun q => p == some q.promise) :
    p ≠ some q.promise := by
  induction qs with
  | nil => cases hq
  | cons x qs ih =>
    obtain ⟨hx, hqs⟩ := List.nodup_cons.1 h
    cases hp : p == some x.promise with
    | true =>
      rw [List.eraseP_cons, hp, cond_true] at hq
      rw [beq_iff_eq.1 hp]
      intro hsame
      exact hx (List.mem_map.2 ⟨q, hq, (Option.some.inj hsame).symm⟩)
    | false =>
      rw [List.eraseP_cons, hp, cond_false] at hq
      rcases List.mem_cons.1 hq with rfl | hq
      · exact beq_eq_false_iff_ne.1 hp
      · exact ih hqs hq

namespace Engine

/-- The promises that are in the mail. -/
def outstanding (rs : List Request) (e : Engine) : List Promise :=
  e.world.questions.map (·.promise) ++ e.waits.map (·.promise) ++ rs.filterMap Request.promise?

/-- Whoever waits for a pending promise finds it in the mail, once; and where a question is asked,
somebody waits for the answer. -/
structure Posted (rs : List Request) (e : Engine) : Prop where
  once : (outstanding rs e).Nodup
  known : ∀ p ∈ outstanding rs e, p.index < e.world.promises.states.size
  kept : ∀ t ∈ e.threads, ∀ p ∈ t.machine.promise, p.index < e.world.promises.states.size
  held : ∀ t ∈ e.threads, ∀ p ∈ t.machine.promise, e.world.promises.isPending p = true →
    t.machine.status = .awaiting ∧ p ∈ outstanding rs e
  asked : ∀ q ∈ e.world.questions, e.world.promises.isPending q.promise = true ∧
    ∃ t ∈ e.threads, t.machine.status = .awaiting ∧ t.machine.promise = some q.promise

section

variable {rs : List Request} {e : Engine}

lemma mem_outstanding {p : Promise} : p ∈ outstanding rs e ↔
    (∃ q ∈ e.world.questions, q.promise = p) ∨ (∃ b ∈ e.waits, b.promise = p) ∨
      p ∈ rs.filterMap Request.promise? := by
  simp [outstanding]

lemma Posted.questions (h : Posted rs e) : (e.world.questions.map (·.promise)).Nodup :=
  h.once.of_append_left.of_append_left

/-- Nothing but questions, promises, waits and threads matters. -/
lemma Posted.congr (h : Posted rs e) {e' : Engine} (hq : e'.world.questions = e.world.questions)
    (hp : e'.world.promises = e.world.promises) (hw : e'.waits = e.waits)
    (ht : e'.threads = e.threads) : Posted rs e' := by
  have hout : outstanding rs e' = outstanding rs e := by simp only [outstanding, hq, hw]
  refine ⟨hout ▸ h.once, ?_, ?_, ?_, ?_⟩
  · rw [hout, hp]
    exact h.known
  · rw [hp, ht]
    exact h.kept
  · rw [hout, hp, ht]
    exact h.held
  · rw [hq, hp, ht]
    exact h.asked

/-- A thread gives up its promise, and goes on or ends. -/
lemma Posted.release (h : Posted rs e) {xs ys : List Thread} {t t' : Thread}
    (ht : e.threads = xs ++ t :: ys) (hsame : ∀ p ∈ t'.machine.promise, t.machine.promise = some p) :
    Posted rs { e with world := t.releasePromise e.world, threads := xs ++ t' :: ys } := by
  obtain ⟨once, known, kept, held, asked⟩ := h
  rw [ht] at kept held asked
  have hqs := t.questions_releasePromise e.world
  have hsub : (outstanding rs { e with
      world := t.releasePromise e.world
      threads := xs ++ t' :: ys }).Sublist (outstanding rs e) := by
    simp only [outstanding, hqs]
    exact ((List.eraseP_sublist.map _).append_right _).append_right _
  have hnodup := Posted.questions ⟨once, known, ht ▸ kept, ht ▸ held, ht ▸ asked⟩
  refine ⟨once.sublist hsub, fun p hp => ?_, ?_, ?_, ?_⟩
  · rw [t.size_releasePromise]
    exact known p (hsub.subset hp)
  · simp only [t.size_releasePromise]
    exact forall_mem_replace kept fun p hp => kept t (by simp) p (hsame p hp)
  · simp only [t.isPending_releasePromise]
    refine forall_mem_replace (a := t) (fun x hx p hp hpending => ?_) fun p hp hpending =>
      (hpending.2 (hsame p hp)).elim
    obtain ⟨hawait, hout⟩ := held x hx p hp hpending.1
    refine ⟨hawait, ?_⟩
    simp only [mem_outstanding, hqs] at hout ⊢
    rcases hout with ⟨q, hq, rfl⟩ | hout
    · refine Or.inl ⟨q, (List.mem_eraseP_of_neg ?_).2 hq, rfl⟩
      intro hp
      exact hpending.2 (Thread.pendingPromise?_eq_some.1 (beq_iff_eq.1 hp)).1
    · exact Or.inr hout
  · simp only [t.isPending_releasePromise, hqs]
    intro q hq
    have hmem := List.mem_of_mem_eraseP hq
    obtain ⟨hpending, x, hx, hawait, hpromise⟩ := asked q hmem
    have hother : t.machine.promise ≠ some q.promise := fun hp =>
      Question.not_of_mem_eraseP hnodup hq (Thread.pendingPromise?_eq_some.2 ⟨hp, hpending⟩)
    refine ⟨⟨hpending, hother⟩, x, mem_replace hx ?_, hawait, hpromise⟩
    rintro rfl
    exact hother hpromise

/-- A thread that waits for nothing makes a promise and waits for it. -/
lemma Posted.post (h : Posted rs e) {xs ys : List Thread} {t t' : Thread}
    (ht : e.threads = xs ++ t :: ys)
    (hfree : ∀ p ∈ t.machine.promise, e.world.promises.isPending p = false)
    (hawait : t'.machine.status = .awaiting)
    (hpromise : t'.machine.promise = some e.world.promises.make.1) {rs' : List Request} {w : World}
    (hp : w.promises = e.world.promises.make.2)
    (hq : ∀ q ∈ w.questions, q ∈ e.world.questions ∨ q.promise = e.world.promises.make.1)
    (hout : (outstanding rs' { e with world := w, threads := xs ++ t' :: ys }).Perm
      (e.world.promises.make.1 :: outstanding rs e)) :
    Posted rs' { e with world := w, threads := xs ++ t' :: ys } := by
  obtain ⟨once, known, kept, held, asked⟩ := h
  rw [ht] at kept held asked
  set fresh := e.world.promises.make.1 with hfresh
  have hsize : w.promises.states.size = e.world.promises.states.size + 1 := by
    rw [hp, Promise.Ledger.size_make]
  have hindex : fresh.index = e.world.promises.states.size := rfl
  have hpending : ∀ p, w.promises.isPending p = true ↔
      p = fresh ∨ e.world.promises.isPending p = true := by
    rw [hp]
    exact e.world.promises.isPending_make
  have hmem : ∀ p, p ∈ outstanding rs' { e with world := w, threads := xs ++ t' :: ys } ↔
      p = fresh ∨ p ∈ outstanding rs e := fun p => hout.mem_iff.trans List.mem_cons
  have habsent : fresh ∉ outstanding rs e := fun hin => Promise.Ledger.ne_make (known fresh hin) rfl
  refine ⟨hout.nodup_iff.2 (List.nodup_cons.2 ⟨habsent, once⟩), ?_, ?_, ?_, ?_⟩
  · intro p hin
    simp only [hsize]
    rcases (hmem p).1 hin with rfl | hin
    · exact Nat.lt_succ_of_le hindex.le
    · exact Nat.lt_succ_of_lt (known p hin)
  · simp only [hsize]
    refine forall_mem_replace (fun x hx p hx' => Nat.lt_succ_of_lt (kept x hx p hx')) fun p hx' => ?_
    rw [hpromise] at hx'
    cases hx'
    exact Nat.lt_succ_of_le hindex.le
  · simp only [hpending, hmem]
    refine forall_mem_replace (a := t) (fun x hx p hx' hor => ?_) fun p hx' _ => ?_
    · have hold := hor.resolve_left (Promise.Ledger.ne_make (kept x hx p hx'))
      obtain ⟨hstatus, hin⟩ := held x hx p hx' hold
      exact ⟨hstatus, Or.inr hin⟩
    · rw [hpromise] at hx'
      cases hx'
      exact ⟨hawait, Or.inl rfl⟩
  · simp only [hpending]
    intro q hin
    rcases hq q hin with hin | hin
    · obtain ⟨hq', x, hx, hstatus, hholds⟩ := asked q hin
      refine ⟨Or.inr hq', x, mem_replace hx ?_, hstatus, hholds⟩
      rintro rfl
      rw [hfree _ hholds] at hq'
      cases hq'
    · exact ⟨Or.inl hin, t', by simp, hawait, by rw [hpromise, hin]⟩

/-- A thread is added that waits for nothing. -/
lemma Posted.join (h : Posted rs e) {w : World} {t : Thread} {nextThread : ThreadId}
    (hw : w.mail = e.world.mail) (ht : t.machine.promise = none) :
    Posted rs { e with world := w, threads := e.threads ++ [t], nextThread } := by
  obtain ⟨once, known, kept, held, asked⟩ : Posted rs { e with world := w, nextThread } :=
    h.congr (congrArg Mail.questions hw) (congrArg Mail.promises hw) rfl rfl
  refine ⟨once, known, fun x hx p hp => ?_, fun x hx p hp => ?_, fun q hq => ?_⟩
  · rcases List.mem_append.1 hx with hx | hx
    · exact kept x hx p hp
    · rw [List.mem_singleton.1 hx, ht] at hp
      cases hp
  · rcases List.mem_append.1 hx with hx | hx
    · exact held x hx p hp
    · rw [List.mem_singleton.1 hx, ht] at hp
      cases hp
  · obtain ⟨hpending, x, hx, hrest⟩ := asked q hq
    exact ⟨hpending, x, List.mem_append_left _ hx, hrest⟩

/-- Requests for whose outcome nobody waits do not matter. -/
lemma Posted.requests (h : Posted rs e) {rs' : List Request}
    (hrs : rs'.filterMap Request.promise? = rs.filterMap Request.promise?) : Posted rs' e := by
  have hout : outstanding rs' e = outstanding rs e := by simp only [outstanding, hrs]
  exact ⟨hout ▸ h.once, hout ▸ h.known, h.kept, hout ▸ h.held, h.asked⟩

/-- A thread that can go on waits for nothing. -/
lemma Posted.free (h : Posted rs e) {t : Thread} (ht : t ∈ e.threads)
    (hready : t.machine.isReady e.world = true) :
    ∀ p ∈ t.machine.promise, e.world.promises.isPending p = false := by
  intro p hp
  by_contra hpending
  rw [Bool.not_eq_false] at hpending
  obtain ⟨hawait, -⟩ := h.held t ht p hp hpending
  rw [Option.mem_def] at hp
  simp [Machine.isReady, hawait, hp, hpending] at hready

/-- A slice leaves its promise in the mail, if it ends with one. -/
lemma Posted.run {good : BlockMap → Prop} (hgood : ∀ b, good b → b.Playable) (hs : Sound good e)
    (h : Posted [] e) {xs ys : List Thread} {t : Thread} (fuel : Nat) (ht : e.threads = xs ++ t :: ys)
    (hrun : (t.run fuel e.world).1.machine.isFaulted = false) :
    Posted (t.run fuel e.world).2.requests { e with
      world := { (t.run fuel e.world).2 with requests := [] }
      threads := xs ++ (t.run fuel e.world).1 :: ys } := by
  have hmem : t ∈ e.threads := by simp [ht]
  obtain ⟨hreach, b, -, hlaid⟩ := hs.laid hgood (hs.threads t hmem)
  have hidle := hs.idle
  rcases Thread.sent_run hlaid hreach fuel e.world hrun with ⟨-, hsame, hmail⟩ | ⟨hready, hsent⟩
  · have hrequests : (t.run fuel e.world).2.requests = [] :=
      (congrArg Mail.requests hmail).trans hidle
    rw [hrequests, hsame]
    exact h.congr (congrArg Mail.questions hmail) (congrArg Mail.promises hmail) rfl ht.symm
  have hfree := h.free hmem hready
  generalize t.run fuel e.world = y at hsent ⊢
  cases hsent with
  | plain rs only mail promise =>
    have hgone : ∀ p ∈ y.1.machine.promise, t.machine.promise = some p := by simp [promise]
    have hposted := h.release ht hgone
    rw [Thread.releasePromise_of_free hfree] at hposted
    have hrequests : y.2.requests = e.world.requests ++ rs := congrArg Mail.requests mail
    have hsame : Posted [] { e with
        world := { y.2 with requests := [] }
        threads := xs ++ y.1 :: ys } :=
      hposted.congr (congrArg Mail.questions mail) (congrArg Mail.promises mail) rfl rfl
    refine hsame.requests ?_
    rw [hrequests, hidle]
    exact only.promises
  | question rs only q own mail promise waits =>
    have hquestions : y.2.questions = e.world.questions ++ [q] := congrArg Mail.questions mail
    have hrequests : y.2.requests = e.world.requests ++ rs := congrArg Mail.requests mail
    refine h.post ht hfree waits (own ▸ promise) (congrArg Mail.promises mail) ?_ ?_
    · intro x hx
      rw [hquestions] at hx
      rcases List.mem_append.1 hx with hx | hx
      · exact Or.inl hx
      · exact Or.inr (List.mem_singleton.1 hx ▸ own)
    · simp only [outstanding, hquestions, hrequests, hidle, List.nil_append, only.promises,
        List.filterMap_nil, List.append_nil, List.map_append, List.map_cons, List.map_nil,
        List.append_assoc, List.singleton_append, own]
      exact List.perm_middle
  | broadcast rs only name mail promise waits =>
    have hquestions : y.2.questions = e.world.questions := congrArg Mail.questions mail
    have hrequests : y.2.requests = e.world.requests ++ (rs ++ [_]) := congrArg Mail.requests mail
    refine h.post ht hfree waits promise (congrArg Mail.promises mail) ?_ ?_
    · intro x hx
      exact Or.inl (hquestions ▸ hx)
    · simp only [outstanding, hquestions, hrequests, hidle, List.nil_append, List.filterMap_append,
        only.promises, List.filterMap_nil, List.append_nil]
      exact List.perm_append_singleton _ _

/-! ### Settling promises -/

lemma size_settleAll (f : BroadcastWait → Promise.Ledger → Promise.Ledger)
    (hf : ∀ b ps, (f b ps).states.size = ps.states.size) (bs : List BroadcastWait)
    (ps : Promise.Ledger) : (bs.foldl (fun ps b => f b ps) ps).states.size = ps.states.size := by
  induction bs generalizing ps with
  | nil => rfl
  | cons b bs ih => rw [List.foldl_cons, ih, hf]

/-- The promises of the broadcasts that are done, and no others, are settled. -/
lemma isPending_resolveDone (threads : List Thread) (bs : List BroadcastWait) (ps : Promise.Ledger)
    (p : Promise) :
    (bs.foldl (fun ps b => if isDone threads b then ps.resolve b.promise else ps) ps).isPending p =
        true ↔
      ps.isPending p = true ∧ ∀ b ∈ bs, isDone threads b = true → b.promise ≠ p := by
  induction bs generalizing ps with
  | nil => simp
  | cons b bs ih =>
    rw [List.foldl_cons, ih, List.forall_mem_cons]
    split
    · next hdone =>
      rw [Promise.Ledger.isPending_resolve, and_assoc, ne_comm]
      simp only [hdone, forall_const]
    · next hdone => simp [hdone]

/-- Some promises are settled, and then they leave the mail. -/
lemma Posted.settle (h : Posted rs e) {e' : Engine} (ht : e'.threads = e.threads)
    (hsize : e'.world.promises.states.size = e.world.promises.states.size)
    (hsub : (outstanding rs e').Sublist (outstanding rs e))
    (hp : ∀ p, e'.world.promises.isPending p = true → e.world.promises.isPending p = true ∧
      (p ∈ outstanding rs e → p ∈ outstanding rs e'))
    (hq : ∀ q ∈ e'.world.questions, q ∈ e.world.questions ∧
      e'.world.promises.isPending q.promise = true) : Posted rs e' := by
  refine ⟨h.once.sublist hsub, fun p hin => ?_, ?_, fun t hin p hp' hpending => ?_, fun q hin => ?_⟩
  · rw [hsize]
    exact h.known p (hsub.subset hin)
  · rw [hsize, ht]
    exact h.kept
  · obtain ⟨hbefore, hstays⟩ := hp p hpending
    obtain ⟨hawait, hout⟩ := h.held t (ht ▸ hin) p hp' hbefore
    exact ⟨hawait, hstays hout⟩
  · rw [ht]
    exact ⟨(hq q hin).2, (h.asked q (hq q hin).1).2⟩

lemma Posted.resolve (h : Posted rs e) : Posted rs e.resolveWaits := by
  have hpending := isPending_resolveDone e.threads e.waits e.world.promises
  refine h.settle rfl ?_ ?_ (fun p hp => ⟨((hpending p).1 hp).1, fun hin => ?_⟩) (fun q hq => ⟨hq, ?_⟩)
  · refine size_settleAll (fun b ps => if isDone e.threads b then ps.resolve b.promise else ps) ?_ _ _
    intro b ps
    split
    · exact Promise.Ledger.size_settle _ _ _
    · rfl
  · exact (((List.filter_sublist).map _).append_left _).append_right _
  · simp only [mem_outstanding] at hin ⊢
    refine hin.imp_right fun hin => hin.imp_left ?_
    rintro ⟨b, hb, rfl⟩
    refine ⟨b, List.mem_filter.2 ⟨hb, ?_⟩, rfl⟩
    have hnot : isDone e.threads b = false := by
      by_contra hdone
      rw [Bool.not_eq_false] at hdone
      exact ((hpending b.promise).1 hp).2 b hb hdone rfl
    rw [hnot]
    exact hp
  · refine (hpending q.promise).2 ⟨(h.asked q hq).1, fun b hb _ hsame => ?_⟩
    have hdisjoint := (List.nodup_append.1 h.once.of_append_left).2.2
    exact hdisjoint q.promise (List.mem_map_of_mem hq) b.promise (List.mem_map_of_mem hb) hsame.symm

lemma Posted.answer (h : Posted rs e) (text : String) : Posted rs (e.answerQuestion text) := by
  have hmail := e.world.mail_answerQuestion text
  have hout := h.once
  cases hqs : e.world.questions with
  | nil =>
    rw [hqs] at hmail
    exact h.congr (congrArg Mail.questions hmail) (congrArg Mail.promises hmail) rfl rfl
  | cons q qs =>
    rw [hqs] at hmail
    have hquestions : (e.world.answerQuestion text).questions = qs := congrArg Mail.questions hmail
    have hpromises : (e.world.answerQuestion text).promises = e.world.promises.resolve q.promise :=
      congrArg Mail.promises hmail
    have hcons : outstanding rs e = q.promise :: outstanding rs (e.answerQuestion text) := by
      simp [outstanding, hqs, answerQuestion, hquestions]
    have hpending : ∀ p, (e.answerQuestion text).world.promises.isPending p = true ↔
        e.world.promises.isPending p = true ∧ p ≠ q.promise := by
      intro p
      simp only [answerQuestion, hpromises]
      exact Promise.Ledger.isPending_resolve _ _ _
    refine h.settle rfl ?_ ?_ (fun p hp => ⟨((hpending p).1 hp).1, fun hin => ?_⟩) (fun x hx => ?_)
    · simp only [answerQuestion, hpromises]
      exact Promise.Ledger.size_settle _ _ _
    · rw [hcons]
      exact List.sublist_cons_self _ _
    · rw [hcons] at hin
      exact (List.mem_cons.1 hin).resolve_left ((hpending p).1 hp).2
    · have hx' : x ∈ qs := hquestions ▸ hx
      have hmem : x ∈ e.world.questions := by rw [hqs]; exact List.mem_cons_of_mem _ hx'
      refine ⟨hmem, (hpending x.promise).2 ⟨(h.asked x hmem).1, fun hsame => ?_⟩⟩
      have hnodup := h.questions
      rw [hqs, List.map_cons, List.nodup_cons] at hnodup
      exact hnodup.1 (hsame ▸ List.mem_map_of_mem hx')

lemma Posted.clear (h : Posted rs e) (hf : ∀ t ∈ e.threads, t.isFinished = true) :
    Posted rs { e with
      world := { e.world with
        promises := e.waits.foldl (fun ps b => ps.cancel b.promise) e.world.promises }
      threads := []
      waits := [] } := by
  have hnone : e.world.questions = [] := by
    refine List.eq_nil_iff_forall_not_mem.2 fun q hq => ?_
    obtain ⟨-, t, ht, hawait, -⟩ := h.asked q hq
    have hfin := hf t ht
    simp [Thread.isFinished, Machine.isFinished, hawait] at hfin
  have hsize := size_settleAll (fun b ps => ps.cancel b.promise)
    (fun b ps => Promise.Ledger.size_settle ps _ _) e.waits e.world.promises
  have hsub : (rs.filterMap Request.promise?).Sublist (outstanding rs e) :=
    List.sublist_append_right _ _
  have hout : outstanding rs { e with
      world := { e.world with
        promises := e.waits.foldl (fun ps b => ps.cancel b.promise) e.world.promises }
      threads := []
      waits := [] } = rs.filterMap Request.promise? := by
    simp [outstanding, hnone]
  refine ⟨?_, fun p hp => ?_, by simp, by simp, by simp [hnone]⟩
  · rw [hout]
    exact h.once.sublist hsub
  · rw [hout] at hp
    simp only [hsize]
    exact h.known p (hsub.subset hp)

/-! ### Moves -/

lemma Posted.start (h : Posted rs e) {e' : Engine} (hs : Start e e') : Posted rs e' := by
  cases hs with
  | spawn hs target => exact h.join rfl rfl
  | restart ht hf => exact h.release ht (by simp [Thread.restart, Machine.reset])

/-- The promise of a request becomes that of a wait. -/
lemma Posted.wait {name : String} {p : Promise} (h : Posted (.broadcast name (some p) :: rs) e)
    (receivers : List ThreadId) : Posted rs { e with waits := e.waits ++ [⟨p, receivers⟩] } := by
  have hout : outstanding rs { e with waits := e.waits ++ [⟨p, receivers⟩] } =
      outstanding (.broadcast name (some p) :: rs) e := by
    simp [outstanding, Request.promise?]
  exact ⟨hout ▸ h.once, hout ▸ h.known, h.kept, hout ▸ h.held, h.asked⟩

lemma Posted.sweep (h : Posted rs e) :
    Posted rs { e with threads := e.threads.filter (!·.isFinished) } := by
  refine ⟨h.once, h.known, fun t ht => h.kept t (List.mem_filter.1 ht).1,
    fun t ht => h.held t (List.mem_filter.1 ht).1, fun q hq => ?_⟩
  obtain ⟨hpending, t, ht, hawait, hpromise⟩ := h.asked q hq
  refine ⟨hpending, t, List.mem_filter.2 ⟨ht, ?_⟩, hawait, hpromise⟩
  simp [Thread.isFinished, Machine.isFinished, hawait]

end

/-- Every move keeps the mail in order. -/
lemma Posted.move {good : BlockMap → Prop} (hgood : ∀ b, good b → b.Playable)
    {x y : List Request × Engine} (hs : Sound good x.2) (h : Posted x.1 x.2) (hm : Move x y) :
    Posted y.1 y.2 := by
  cases hm with
  | start hstart => exact h.start hstart
  | calm hq hp _ _ => exact h.congr hq hp rfl rfl
  | kill ht => exact h.release ht fun p hp => hp
  | clear hf => exact h.clear hf
  | run fuel ht _ hrun => exact h.run hgood hs fuel ht hrun
  | collect =>
    have hidle := hs.idle
    simp only at hidle ⊢
    rw [hidle]
    exact h.congr rfl rfl rfl rfl
  | told hr => exact h.requests (by simp [hr])
  | served hr => exact h.requests (by simp [hr])
  | posted receivers => exact h.wait receivers
  | resolve => exact h.resolve
  | sweep => exact h.sweep
  | answer text => exact h.answer text
  | forget edges _ => exact h.congr rfl rfl rfl rfl
  | watch hs target =>
    simp only [edge]
    split
    · exact h
    · exact h.congr rfl rfl rfl rfl
  | @evaluate _ e g fuel index target hg hrun =>
    obtain ⟨hreach, b, -, hlaid⟩ := hs.laid hgood (hs.edges g hg)
    obtain ⟨hmail, -⟩ := Thread.runPredicate_frame hlaid hreach fuel e.world
    exact h.congr (congrArg Mail.questions hmail) (congrArg Mail.promises hmail) rfl rfl

lemma Posted.moves {good : BlockMap → Prop} (hgood : ∀ b, good b → b.Playable)
    {x y : List Request × Engine} (hs : Sound good x.2) (h : Posted x.1 x.2) (hm : Moves x y) :
    Posted y.1 y.2 := by
  induction hm with
  | refl => exact h
  | tail hm hm' ih => exact ih.move hgood (hs.moves hgood hm) hm'

/-! ### Receivers -/

/-- Every broadcast that is waited for has a receiver that is not done. -/
def Received (e : Engine) : Prop :=
  ∀ b ∈ e.waits, ∃ t ∈ e.threads, t.id ∈ b.receivers ∧ t.isFinished = false

lemma received_of_no_waits {e : Engine} (h : e.waits = []) : Received e := by
  intro b hb
  rw [h] at hb
  cases hb

lemma Received.starts {e e' : Engine} (h : Received e) (hs : Starts e e') : Received e' := by
  induction hs with
  | refl => exact h
  | @tail e' e'' _ hs ih =>
    cases hs with
    | spawn hs target =>
      intro b hb
      obtain ⟨t, ht, hrest⟩ := ih b hb
      exact ⟨t, List.mem_append_left _ ht, hrest⟩
    | @restart xs ys t ht hf =>
      intro b hb
      obtain ⟨x, hx, hid, hfin⟩ := ih b hb
      by_cases hsame : x = t
      · -- started over, it is the same receiver
        exact ⟨(t.restart e'.world).1, by simp, hsame ▸ hid, rfl⟩
      · exact ⟨x, mem_replace (ht ▸ hx) hsame, hid, hfin⟩

lemma received_sweep (e : Engine) : Received
    { e.resolveWaits with threads := e.resolveWaits.threads.filter (!·.isFinished) } := by
  intro b hb
  obtain ⟨-, hkept⟩ := List.mem_filter.1 hb
  simp only [Bool.and_eq_true, Bool.not_eq_true', isDone, List.all_eq_false] at hkept
  obtain ⟨⟨id, hid, hnot⟩, -⟩ := hkept
  cases hfind : e.threads.find? (·.id == id) with
  | none => simp [hfind] at hnot
  | some t =>
    have hfin : t.isFinished = false := by simpa [hfind] using hnot
    have hsame : t.id = id := by simpa using List.find?_some hfind
    refine ⟨t, List.mem_filter.2 ⟨List.mem_of_find?_eq_some hfind, ?_⟩, hsame ▸ hid, hfin⟩
    simp [hfin]

/-- A frame ends by looking after those who wait. -/
lemma received_step {fuel : Nat} {e : Engine} (he : e.fault = none)
    (hf : (e.step fuel).fault = none) : Received (e.step fuel) := by
  unfold step at hf ⊢
  simp only [he, Option.isSome_none, Bool.false_eq_true, if_false] at hf ⊢
  split at hf
  · next hsome => simp [hf] at hsome
  next hedges =>
  rw [if_neg hedges]
  split at hf
  · next hsome => simp [hf] at hsome
  next hthreads =>
  rw [if_neg hthreads]
  exact received_sweep _

lemma starts_broadcast {e : Engine} (hidle : e.world.requests = []) (name : String) :
    Starts { e with world := { e.world with requests := [] } } (e.broadcast name) := by
  simp only [broadcast, handleRequests, World.request, hidle, List.nil_append, List.foldl_cons,
    List.foldl_nil, handle]
  exact starts_startHats _ _ _ _

/-! ### Every state -/

lemma Reachable.posted {e : Engine} (h : Reachable BlockMap.Playable e) :
    Posted [] e ∧ Received e := by
  have hgood : ∀ b : BlockMap, b.Playable → b.Playable := fun _ hb => hb
  have hmoves : ∀ {e e' : Engine}, Reachable BlockMap.Playable e → Posted [] e →
      Moves ([], e) ([], e') → Posted [] e' := fun he hp hm => hp.moves hgood (he.sound hgood).1 hm
  induction h with
  | new config host => exact ⟨⟨by simp [outstanding, Engine.new], by simp [outstanding, Engine.new],
      by simp [Engine.new], by simp [Engine.new], by simp [Engine.new]⟩, received_of_no_waits rfl⟩
  | add _ t _ ih => exact ⟨ih.1.congr rfl rfl rfl rfl, ih.2⟩
  | outside _ w hmail _ ih =>
    exact ⟨ih.1.congr (congrArg Mail.questions hmail) (congrArg Mail.promises hmail) rfl rfl, ih.2⟩
  | @compile e he ih =>
    have hstopped := hmoves he ih.1 (moves_stop [] e)
    exact ⟨hstopped.congr rfl rfl rfl rfl, received_of_no_waits rfl⟩
  | @start e he ih =>
    have hstopped : Received { e.stop with world := e.stop.world.resetTimer } :=
      received_of_no_waits rfl
    exact ⟨hmoves he ih.1 (moves_start e), hstopped.starts (starts_startHats _ _ _ _)⟩
  | @stop e he ih => exact ⟨hmoves he ih.1 (moves_stop [] e), received_of_no_waits rfl⟩
  | @broadcast e he name ih =>
    have hsame : Received { e with world := { e.world with requests := [] } } := ih.2
    exact ⟨hmoves he ih.1 (moves_broadcast e name),
      hsame.starts (starts_broadcast (he.sound hgood).1.idle name)⟩
  | keyPressed he key ih =>
    exact ⟨hmoves he ih.1 (moves_keyPressed _ key), ih.2.starts (starts_startHats _ _ _ _)⟩
  | click he id ih =>
    refine ⟨hmoves he ih.1 (moves_click _ id), ?_⟩
    unfold Engine.click
    split
    · exact ih.2
    · exact ih.2.starts (starts_startHats _ _ _ _)
  | answerQuestion he answer ih => exact ⟨ih.1.answer answer, ih.2⟩
  | step he fuel hf ih =>
    obtain ⟨hsound, hnone, -⟩ := he.sound hgood
    have hmove := hsound.goes hgood (goes_step fuel hnone) hf
    exact ⟨hmoves he ih.1 hmove, received_step hnone (hmove.frame.2.1.trans hnone)⟩

/-- **Nobody waits in vain**: a thread that waits for a pending promise waits for the answer to one
question, or for one broadcast, of which a receiver is not done. And for the answer to every question
a thread waits. -/
theorem answered_or_received {e : Engine} (h : Reachable BlockMap.Playable e) :
    (∀ t ∈ e.threads, t.machine.status = .awaiting → ∀ p, t.machine.promise = some p →
      e.world.promises.isPending p = true →
        (e.world.questions.map (·.promise)).count p = 1 ∧ (e.waits.map (·.promise)).count p = 0 ∨
        (e.world.questions.map (·.promise)).count p = 0 ∧ (e.waits.map (·.promise)).count p = 1 ∧
          ∃ b ∈ e.waits, b.promise = p ∧ ∃ t' ∈ e.threads, t'.id ∈ b.receivers ∧
            t'.isFinished = false) ∧
    ∀ q ∈ e.world.questions, e.world.promises.isPending q.promise = true ∧
      ∃ t ∈ e.threads, t.machine.status = .awaiting ∧ t.machine.promise = some q.promise := by
  obtain ⟨hposted, hreceived⟩ := h.posted
  refine ⟨fun t ht _ p hp hpending => ?_, hposted.asked⟩
  have hin : p ∈ e.world.questions.map (·.promise) ++ e.waits.map (·.promise) := by
    simpa [outstanding] using (hposted.held t ht p hp hpending).2
  have honce : (e.world.questions.map (·.promise)).count p + (e.waits.map (·.promise)).count p = 1 := by
    rw [← List.count_append]
    exact List.count_eq_one_of_mem hposted.once.of_append_left hin
  by_cases hwait : p ∈ e.waits.map (·.promise)
  · obtain ⟨b, hb, hsame⟩ := List.mem_map.1 hwait
    have hpos := List.count_pos_iff.2 hwait
    exact Or.inr ⟨by omega, by omega, b, hb, hsame, hreceived b hb⟩
  · rw [List.count_eq_zero_of_not_mem hwait] at honce ⊢
    exact Or.inl ⟨honce, rfl⟩

/-- A script tells another to ask for a name, and waits for it. -/
def asksOther : BlockMap := .ofList [
  ("flag", { id := "flag", opcode := "event_whenflagclicked", topLevel := true
             next := some "send" }),
  ("send", { id := "send", opcode := "event_broadcastandwait"
             inputs := .ofList [("BROADCAST_INPUT", { value := some (.value (.text "go")) })] }),
  ("receive", { id := "receive", opcode := "event_whenbroadcastreceived", topLevel := true
                next := some "ask"
                fields := .ofList [("BROADCAST_OPTION", { value := .text "go" })] }),
  ("ask", { id := "ask", opcode := "sensing_askandwait"
            inputs := .ofList [("QUESTION", { value := some (.value (.text "Name?")) })] })]

/-- The first waits for the second, and the second for the answer. -/
theorem answered_or_received_asksOther : ∃ e, Reachable BlockMap.Playable e ∧
    e.threads.map (fun t => (t.machine.status, t.machine.promise)) =
      [(.awaiting, some ⟨0⟩), (.awaiting, some ⟨1⟩)] ∧
    (e.waits.map (·.promise)).count ⟨0⟩ = 1 ∧
    ∀ q ∈ e.world.questions, e.world.promises.isPending q.promise = true ∧
      ∃ t ∈ e.threads, t.machine.status = .awaiting ∧ t.machine.promise = some q.promise := by
  have hac : asksOther.Acyclic := BlockMap.acyclic_of_falling
    (fun id => ["ask", "receive", "send", "flag"].idxOf id) (by decide +kernel)
  have hplayable : asksOther.Playable := ⟨by decide +kernel, by decide +kernel, hac⟩
  have hstart := ((Reachable.new {} {}).add { name := "Stage", isStage := true, blocks := asksOther }
    hplayable).compile.start
  obtain ⟨e, he, hthreads, hpending, hquestions⟩ : ∃ e, Reachable BlockMap.Playable e ∧
      e.threads.map (fun t => (t.machine.status, t.machine.promise)) =
        [(.awaiting, some ⟨0⟩), (.awaiting, some ⟨1⟩)] ∧
      e.world.promises.isPending ⟨0⟩ = true ∧ e.world.questions.map (·.promise) = [⟨1⟩] :=
    ⟨_, hstart.step 100 (by decide +kernel), by decide +kernel⟩
  obtain ⟨hwaits, hasked⟩ := answered_or_received he
  obtain ⟨t, ht, hstatus, hpromise⟩ : ∃ t ∈ e.threads, t.machine.status = .awaiting ∧
      t.machine.promise = some ⟨0⟩ := by
    have hfirst : (Machine.Status.awaiting, some (Promise.mk 0)) ∈
        e.threads.map fun t => (t.machine.status, t.machine.promise) := by simp [hthreads]
    simpa using hfirst
  refine ⟨e, he, hthreads, ?_, hasked⟩
  rcases hwaits t ht hstatus ⟨0⟩ hpromise hpending with ⟨hcount, -⟩ | ⟨-, hcount, -⟩
  · rw [hquestions] at hcount
    cases hcount
  · exact hcount

end Engine

end Blockwork
