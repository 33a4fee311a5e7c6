import Blockwork.Proofs.Engine.Sound

/-!
Every frame ends. A slice of a script without warp ends, so each condition and each thread in turn gets
to its end; and where no block starts further scripts, there are never more threads to come than there
were at the start of the frame.
-/

namespace Blockwork

/-- With so much fuel, or more, this is the result. -/
def Settles {α : Type} (f : Nat → α) (a : α) : Prop := ∃ n, ∀ fuel ≥ n, f fuel = a

namespace Settles

variable {α β : Type} {f : Nat → α} {a : α}

lemma const (a : α) : Settles (fun _ => a) a := ⟨0, fun _ _ => rfl⟩

/-- What comes next starts from the result. -/
lemma bind (h : Settles f a) {g : Nat → α → β} {b : β} (k : Settles (g · a) b) :
    Settles (fun fuel => g fuel (f fuel)) b := by
  obtain ⟨n, hn⟩ := h
  obtain ⟨n', hn'⟩ := k
  refine ⟨max n n', fun fuel hfuel => ?_⟩
  simp only [hn fuel (le_trans (le_max_left n n') hfuel)]
  exact hn' fuel (le_trans (le_max_right n n') hfuel)

/-- What depends on the fuel through something that settles. -/
lemma through (h : Settles f a) {g : Nat → β} (hg : ∀ n n', f n = f n' → g n = g n') :
    ∃ n, f n = a ∧ Settles g (g n) := by
  obtain ⟨n, hn⟩ := h
  have hsame : f n = a := hn n (le_refl n)
  exact ⟨n, hsame, n, fun fuel hfuel => hg fuel n ((hn fuel hfuel).trans hsame.symm)⟩

end Settles

/-! ### Conditions -/

namespace Machine

variable {strict : Bool} {p : Program} {blocks : BlockMap} {m : Machine}

lemma Reachable.isFaulted (hlaid : ∀ r, (p.code? r).isSome → ∃ ls, p.Laid strict blocks r ls)
    (h : Reachable p m) : m.isFaulted = false := by
  cases hs : m.status <;> simp only [Machine.isFaulted, hs]
  exact (h.not_faulted hlaid _ hs).elim

lemma Reachable.settles_run (hlaid : ∀ r, (p.code? r).isSome → ∃ ls, p.Laid strict blocks r ls)
    (hwarp : blocks.NoWarp) (h : Reachable p m) (w : World) :
    ∃ y, Settles (fun fuel => m.run fuel p w) y ∧ Reachable p y.1 := by
  obtain ⟨n, m', w', hrun, hreach, -⟩ := h.slice_ends hlaid hwarp w
  exact ⟨(m', w'), ⟨n, hrun⟩, hreach⟩

lemma Reachable.settles_slices (hlaid : ∀ r, (p.code? r).isSome → ∃ ls, p.Laid strict blocks r ls)
    (hwarp : blocks.NoWarp) (passes : Nat) (h : Reachable p m) (w : World) :
    ∃ y, Settles (fun fuel => Thread.slices fuel p passes m w) y ∧ Reachable p y.1 := by
  induction passes generalizing m w with
  | zero => exact ⟨(m, w), .const _, h⟩
  | succ passes ih =>
    obtain ⟨y, hy, hreach⟩ := h.settles_run hlaid hwarp w
    obtain ⟨z, hz, hreach'⟩ := ih hreach y.2
    by_cases hyield : (y.1.status == .yielded) = true
    · refine ⟨z, hy.bind (g := fun fuel y => if y.1.status == .yielded then
        Thread.slices fuel p passes y.1 y.2 else y) ?_, hreach'⟩
      simpa only [hyield, if_true] using hz
    · refine ⟨y, hy.bind (g := fun fuel y => if y.1.status == .yielded then
        Thread.slices fuel p passes y.1 y.2 else y) ?_, hreach⟩
      simpa only [hyield, if_false, Bool.false_eq_true] using Settles.const y

end Machine

lemma Thread.settles_runPredicate {strict : Bool} {blocks : BlockMap} {t : Thread}
    (hlaid : ∀ r, (t.program.code? r).isSome → ∃ ls, t.program.Laid strict blocks r ls)
    (hwarp : blocks.NoWarp) (h : Machine.Reachable t.program t.machine) (w : World) :
    ∃ x, Settles (fun fuel => t.runPredicate fuel w) x ∧ x.2.1.machine.isFaulted = false := by
  unfold runPredicate
  split
  · exact ⟨_, .const _, h.isFaulted hlaid⟩
  · next hp =>
    have hsome : t.program.predicate.isSome := Option.ne_none_iff_isSome.1 (by simpa using hp)
    obtain ⟨y, hy, hreach⟩ := (h.condition hsome).settles_slices hlaid hwarp maxPasses
      { w with currentThread := t.id }
    obtain ⟨n, hn, hx⟩ := hy.through (g := fun fuel =>
      let x := t.evaluate fuel .predicate w
      (x.1.any Value.toBool, x.2.1, x.2.2)) (fun n n' h => by simp only [evaluate, h])
    refine ⟨_, hx, ?_⟩
    simp only [evaluate, hn, hreach.isFaulted hlaid, Bool.false_eq_true, if_false]
    rfl

/-! ### Requests that start nothing -/

/-- The blocks that start scripts. -/
def starters : List String :=
  ["event_broadcast", "event_broadcastandwait", "control_create_clone_of"]

/-- No block broadcasts and no block makes clones. -/
def BlockMap.StartsNothing (blocks : BlockMap) : Prop :=
  ∀ e ∈ blocks.entries, e.2.opcode ∉ starters

instance (blocks : BlockMap) : Decidable blocks.StartsNothing :=
  inferInstanceAs (Decidable (∀ e ∈ blocks.entries, e.2.opcode ∉ starters))

/-- Without warp, and without blocks that start scripts. -/
structure BlockMap.Calm (blocks : BlockMap) : Prop extends Playable blocks where
  noWarp : blocks.NoWarp
  startsNothing : blocks.StartsNothing

lemma BlockMap.StartsNothing.starts {blocks : BlockMap} (h : blocks.StartsNothing) {n : Native}
    (hn : blocks.Calls n) : n.starts = false := by
  have key : ∀ x ∈ Palette.builtin.sections, ∀ y ∈ x.recipes ++ x.predicates, y.1 ∉ starters →
      ∀ ss ∈ y.2.plans, ∀ s ∈ ss, (s.native?.any Native.starts) = false := by decide +kernel
  obtain ⟨id, b, zs, rest, hb, r, hr, hplan⟩ := hn
  have hstart := h (id, b) (Dictionary.mem_of_get? hb)
  obtain ⟨x, hx, hmem⟩ : ∃ x ∈ Palette.builtin.sections, (b.opcode, r) ∈ x.recipes ++ x.predicates := by
    rcases hr with hr | hr
    · obtain ⟨x, hx, hr⟩ := List.exists_of_findSome?_eq_some hr
      exact ⟨x, hx, List.mem_append_left _ (mem_of_lookup hr)⟩
    · obtain ⟨x, hx, hr⟩ := List.exists_of_findSome?_eq_some hr
      exact ⟨x, hx, List.mem_append_right _ (mem_of_lookup hr)⟩
  simpa [Recipe.Step.native?] using
    key x hx (b.opcode, r) hmem hstart _ (Recipe.mem_plans hplan) (.call n) (by simp)

/-- A slice of a script that starts nothing asks for nothing to be started. -/
lemma Machine.Sent.starts {blocks : BlockMap} {m : Machine} {x y : Mail}
    (h : Machine.Sent blocks x m y) (hb : blocks.StartsNothing) (hx : x.requests = []) :
    ∀ r ∈ y.requests, r.starts = false := by
  have hplain : ∀ {rs : List Request}, Machine.Plain blocks rs → ∀ r ∈ x.requests ++ rs,
      r.starts = false := by
    intro rs hrs r hr
    rw [hx, List.nil_append] at hr
    by_contra hstarts
    rw [Bool.not_eq_false] at hstarts
    obtain ⟨n, hn, hns⟩ := (hrs r hr).2 hstarts
    rw [hb.starts hn] at hns
    cases hns
  cases h with
  | plain rs only mail =>
    rw [mail]
    exact hplain only
  | question rs only q own mail =>
    rw [mail]
    exact hplain only
  | broadcast rs only name mail promise waits starts =>
    obtain ⟨n, hn, hns⟩ := starts
    rw [hb.starts hn] at hns
    cases hns

namespace Engine

lemma length_killThreads (p : Thread → Bool) (ts : List Thread) (w : World) :
    (killThreads p ts w).1.length = ts.length := by
  induction ts generalizing w with
  | nil => rfl
  | cons t ts ih => simp [killThreads, ih]

lemma length_handle {r : Request} (hr : r.starts = false) (e : Engine) :
    (e.handle r).threads.length ≤ e.threads.length := by
  cases r with
  | broadcast | startClone => cases hr
  | killThreadsOf target => exact (length_killThreads _ _ _).le
  | stopAll => exact Nat.zero_le _
  | stopOthers target except => exact (length_killThreads _ _ _).le

lemma length_handleRequests {e : Engine} (hr : ∀ r ∈ e.world.requests, r.starts = false) :
    e.handleRequests.threads.length ≤ e.threads.length := by
  have hfold : ∀ (rs : List Request) (e : Engine), (∀ r ∈ rs, r.starts = false) →
      (rs.foldl handle e).threads.length ≤ e.threads.length := by
    intro rs
    induction rs with
    | nil => exact fun _ _ => Nat.le_refl _
    | cons r rs ih =>
      exact fun e hr => (ih _ fun x hx => hr x (by simp [hx])).trans (length_handle (hr r (by simp)) e)
  exact hfold _ _ hr

/-! ### Frames -/

/-- Sound, and still going. -/
structure Quiet (scripts : List Script) (e : Engine) : Prop where
  sound : Sound BlockMap.Calm e
  unfaulted : e.fault = none
  same : e.scripts = scripts

section

variable {scripts : List Script} {e e' : Engine}

lemma Quiet.moves (h : Quiet scripts e)
    (hm : Moves ([], e) ([], e')) : Quiet scripts e' :=
  ⟨h.sound.moves (fun _ hb => hb.toPlayable) hm, hm.frame.2.1.trans h.unfaulted,
    hm.frame.1.trans h.same⟩

/-- What is done one after another settles, if each of it does. -/
lemma settles_foldl {α : Type} {f : Nat → Engine → α → Engine} {P : Engine → Prop} {xs : List α}
    (h : ∀ x ∈ xs, ∀ e, P e → ∃ e', Settles (f · e x) e' ∧ P e') (he : P e) :
    ∃ e', Settles (fun fuel => xs.foldl (f fuel) e) e' ∧ P e' := by
  induction xs generalizing e with
  | nil => exact ⟨e, .const e, he⟩
  | cons x xs ih =>
    obtain ⟨e', he', hp⟩ := h x (by simp) e he
    obtain ⟨e'', he'', hp'⟩ := ih (fun y hy => h y (by simp [hy])) hp
    exact ⟨e'', he'.bind (g := fun fuel e => xs.foldl (f fuel) e) he'', hp'⟩

lemma settles_evaluateEdge (h : Quiet scripts e) {index : Nat}
    {s : Script} (hs : scripts[index]? = some s) (target : TargetId) :
    ∃ e', Settles (fun fuel => evaluateEdge fuel index s e target) e' ∧ Quiet scripts e' := by
  rw [← h.same] at hs
  have hwatch := h.moves (Move.watch hs target).moves
  have hmem := edge_mem e index s target
  obtain ⟨hreach, b, hb, hlaid⟩ := hwatch.sound.laid (fun _ hb => hb.toPlayable)
    (hwatch.sound.edges _ hmem)
  obtain ⟨x, hx, hfault⟩ := Thread.settles_runPredicate hlaid hb.noWarp hreach
    (e.edge index s target).2.world
  obtain ⟨n, hn, hsettles⟩ := hx.through (g := fun fuel => evaluateEdge fuel index s e target)
    (fun n n' hsame => by simp only [evaluateEdge, hsame])
  refine ⟨_, hsettles, h.moves (moves_evaluateEdge h.unfaulted hs n target ?_)⟩
  rw [hn]
  exact hfault

lemma settles_evaluateEdges (h : Quiet scripts e) :
    ∃ e', Settles (fun fuel => e.evaluateEdges fuel) e' ∧ Quiet scripts e' := by
  unfold evaluateEdges
  rw [h.same]
  refine settles_foldl (f := fun fuel e (x : Script × Nat) => if x.1.hat == .edge then
    (e.family x.1.target).foldl (evaluateEdge fuel x.2 x.1) e else e) (fun x hx e' he' => ?_) h
  have hs : scripts[x.2]? = some x.1 := List.mk_mem_zipIdx_iff_getElem?.1 hx
  split
  · exact settles_foldl (fun target _ e'' he'' => settles_evaluateEdge he'' hs target) he'
  · exact ⟨e', .const e', he'⟩

/-- The turn of a thread, at which it asks for no more threads. -/
lemma settles_turn (h : Quiet scripts e) {i : Nat} {t : Thread}
    (ht : e.threads[i]? = some t) :
    ∃ e', Settles (fun fuel => if t.isFinished then e else e.runThread fuel i t) e' ∧
      e'.fault = none ∧ Quiet scripts e'.handleRequests ∧
      e'.handleRequests.threads.length ≤ e.threads.length := by
  cases hfin : t.isFinished with
  | true =>
    refine ⟨e, .const e, h.unfaulted,
      h.moves (Move.collect.moves.trans (moves_handleRequests e)), ?_⟩
    exact length_handleRequests (by simp [h.sound.idle])
  | false =>
    obtain ⟨hreach, b, hb, hlaid⟩ :=
      h.sound.laid (fun _ hb => hb.toPlayable) (h.sound.threads t (List.mem_of_getElem? ht))
    obtain ⟨y, hy, hreach'⟩ := hreach.settles_run hlaid hb.noWarp { e.world with currentThread := t.id }
    obtain ⟨n, hn, hsettles⟩ := hy.through (g := fun fuel => e.runThread fuel i t)
      (fun n n' hsame => by simp only [runThread, Thread.run, hsame])
    have hfault : (t.run n e.world).1.machine.isFaulted = false := by
      simp only [Thread.run, hn]
      exact hreach'.isFaulted hlaid
    have hnone : (e.runThread n i t).fault = none :=
      (congrArg Engine.fault (noteFault_eq hfault)).trans h.unfaulted
    have hworld : (e.runThread n i t).world = (t.run n e.world).2 :=
      congrArg Engine.world (noteFault_eq hfault)
    have hthreads : (e.runThread n i t).threads.length = e.threads.length := by
      have hset : (e.runThread n i t).threads = e.threads.set i (t.run n e.world).1 :=
        congrArg Engine.threads (noteFault_eq hfault)
      rw [hset, List.length_set]
    refine ⟨_, hsettles, hnone, h.moves (moves_runThread ht hfin n hfault), ?_⟩
    rw [← hthreads]
    refine length_handleRequests fun r hr => ?_
    rw [hworld] at hr
    rcases Thread.sent_run hlaid hreach n e.world hfault with ⟨-, -, hmail⟩ | ⟨-, hsent⟩
    · have hrequests : (t.run n e.world).2.requests = [] :=
        (congrArg Mail.requests hmail).trans h.sound.idle
      rw [hrequests] at hr
      cases hr
    · exact hsent.starts hb.startsNothing h.sound.idle r hr

lemma runThreads_of_done {i : Nat} (hi : e.threads[i]? = none) (fuel : Nat) {turns : Nat}
    (hturns : 0 < turns) : runThreads fuel turns i e = e := by
  obtain ⟨turns, rfl⟩ := Nat.exists_eq_add_one.2 hturns
  simp only [runThreads, hi]

/-- With each turn there are fewer threads to come. -/
lemma settles_runThreads (k : Nat) (i : Nat)
    (h : Quiet scripts e) (hk : e.threads.length ≤ i + k) :
    ∃ e' n, e'.fault = none ∧ ∀ fuel ≥ n, ∀ turns > k, runThreads fuel turns i e = e' := by
  induction k generalizing i e with
  | zero =>
    exact ⟨e, 0, h.unfaulted, fun fuel _ turns hturns =>
      runThreads_of_done (List.getElem?_eq_none hk) fuel hturns⟩
  | succ k ih =>
    cases ht : e.threads[i]? with
    | none =>
      exact ⟨e, 0, h.unfaulted, fun fuel _ turns hturns =>
        runThreads_of_done ht fuel (Nat.zero_lt_of_lt hturns)⟩
    | some t =>
      obtain ⟨e₁, ⟨n₁, hn₁⟩, hnone, hquiet, hlength⟩ := settles_turn h ht
      obtain ⟨e₂, n₂, hf₂, hrun⟩ := ih (i + 1) hquiet (by omega)
      refine ⟨e₂, max n₁ n₂, hf₂, fun fuel hfuel turns hturns => ?_⟩
      obtain ⟨turns, rfl⟩ := Nat.exists_eq_add_one.2 (Nat.zero_lt_of_lt hturns)
      have hturn := hn₁ fuel (le_trans (le_max_left _ _) hfuel)
      rw [runThreads]
      simp only [ht, hturn, hnone, Option.isSome_none, Bool.false_eq_true, if_false]
      exact hrun fuel (le_trans (le_max_right _ _) hfuel) turns (by omega)

lemma settles_step (h : Quiet e.scripts e) :
    ∃ e', Settles (fun fuel => e.step fuel) e' ∧ e'.fault = none := by
  obtain ⟨e₁, ⟨n₁, hn₁⟩, hquiet⟩ := settles_evaluateEdges h
  obtain ⟨e₂, n₂, hf₂, hrun⟩ :=
    settles_runThreads e₁.threads.length 0 hquiet (Nat.le_of_eq (Nat.zero_add _).symm)
  refine ⟨{ e₂.resolveWaits with threads := e₂.resolveWaits.threads.filter (!·.isFinished) },
    ⟨max n₁ (max n₂ (e₁.threads.length + 1)), fun fuel hfuel => ?_⟩, hf₂⟩
  have hedges := hn₁ fuel (by omega)
  simp only [step, h.unfaulted, hedges, hquiet.unfaulted, hrun fuel (by omega) fuel (by omega), hf₂,
    Option.isSome_none, Bool.false_eq_true, if_false]

end

/-- **Frames end**: without warp every slice of a well-kinded script ends, from every state and in
every world; and where no block starts further scripts, so does every frame. -/
theorem frames_end :
    (∀ blocks : BlockMap, blocks.Playable → blocks.NoWarp → ∀ target,
      ∀ s ∈ (compileTarget .builtin target blocks).1, ∀ m, Machine.Reachable s.program m → ∀ w,
        ∃ m' w', Settles (fun fuel => m.run fuel s.program w) (m', w') ∧ m'.status ≠ .running ∧
          m'.isFaulted = false) ∧
    ∀ e, Reachable BlockMap.Calm e → ∃ e', Settles (fun fuel => e.step fuel) e' ∧ e'.fault = none := by
  constructor
  · intro blocks ⟨hkey, hk, hac⟩ hwarp target s hs m hm w
    have hlaid := laid_of_mem true hkey hk.values hac (fun _ => hk) hs
    obtain ⟨n, m', w', hrun, hreach, hend⟩ := hm.slice_ends hlaid hwarp w
    exact ⟨m', w', ⟨n, hrun⟩, hend, hreach.isFaulted hlaid⟩
  · intro e he
    obtain ⟨hsound, hfault, -⟩ := he.sound fun _ hb => hb.toPlayable
    exact settles_step ⟨hsound, hfault, rfl⟩

/-- Two custom blocks call each other for ever, the second in a loop that never ends. -/
def pingPong : BlockMap := .ofList [
  ("flag", { id := "flag", opcode := "event_whenflagclicked", topLevel := true
             next := some "again" }),
  ("again", { id := "again", opcode := "control_forever"
              inputs := .ofList [("SUBSTACK", { value := some (.block "start") })] }),
  ("start", { id := "start", opcode := "procedures_call", mutation := some { code := some "ping" } }),
  ("ping", { id := "ping", opcode := "procedures_definition", topLevel := true
             next := some "callPong"
             inputs := .ofList [("custom_block", { value := some (.block "pingHead") })] }),
  ("pingHead", { id := "pingHead", opcode := "procedures_prototype"
                 mutation := some { code := some "ping" } }),
  ("callPong", { id := "callPong", opcode := "procedures_call"
                 mutation := some { code := some "pong" } }),
  ("pong", { id := "pong", opcode := "procedures_definition", topLevel := true
             next := some "until"
             inputs := .ofList [("custom_block", { value := some (.block "pongHead") })] }),
  ("pongHead", { id := "pongHead", opcode := "procedures_prototype"
                 mutation := some { code := some "pong" } }),
  ("until", { id := "until", opcode := "control_repeat_until"
              inputs := .ofList [("SUBSTACK", { value := some (.block "callPing") })] }),
  ("callPing", { id := "callPing", opcode := "procedures_call"
                 mutation := some { code := some "ping" } })]

/-- After the first frame the two blocks wait in each other, and the next frame ends again. -/
theorem frames_end_pingPong : ∃ e, Reachable BlockMap.Calm e ∧
    e.threads.map (·.machine.calls.length) = [4] ∧ e.threads.map (·.machine.status) = [.yielded] ∧
    ∃ e', Settles (fun fuel => e.step fuel) e' ∧ e'.fault = none := by
  have hac : pingPong.Acyclic := BlockMap.acyclic_of_falling
    (fun id => ["pingHead", "pongHead", "callPong", "ping", "callPing", "until", "pong", "start",
      "again", "flag"].idxOf id) (by decide +kernel)
  have hcalm : pingPong.Calm :=
    ⟨⟨by decide +kernel, by decide +kernel, hac⟩, by decide +kernel, by decide +kernel⟩
  have hstart := ((Reachable.new {} {}).add { name := "Stage", isStage := true, blocks := pingPong }
    hcalm).compile.start
  obtain ⟨e, he, facts⟩ : ∃ e, Reachable BlockMap.Calm e ∧
      e.threads.map (·.machine.calls.length) = [4] ∧ e.threads.map (·.machine.status) = [.yielded] :=
    ⟨_, hstart.step 100 (by decide +kernel), by decide +kernel⟩
  exact ⟨e, he, facts.1, facts.2, frames_end.2 e he⟩

end Engine

end Blockwork
