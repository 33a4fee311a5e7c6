import Blockwork.Proofs.Engine.Lives

/-!
The histories of conditions, against a record of all evaluations. The record is kept beside the engine:
each evaluation is written down at its end, whoever is gone is crossed out, and compiling begins a new
page. The engine itself remembers less, one value for a script on a target, made when it is first needed
and dropped when a clone dies or everything stops. For those who live, what it remembers is what was
written down last.

A clone that dies takes its histories along by a request, which is handled before anybody new comes. So
nobody finds the history of a former owner of the place.
-/

namespace Blockwork

/-! ### Who is to be killed is gone -/

/-- A native asks to kill the threads of a target only when it deletes it. -/
lemma Native.gone_run (n : Native) (m : Machine) (w : World) (a b : Value) {id : TargetId}
    (h : .killThreadsOf id ∈ (n.run m w a b).world.requests) :
    .killThreadsOf id ∈ w.requests ∨ (n.run m w a b).world.targets.contains id = false := by
  have hasks : ∀ {rs : List Request} {r : Request}, rs = w.requests ++ [r] → r.isFinal = false →
      .killThreadsOf id ∈ rs → .killThreadsOf id ∈ w.requests := by
    rintro _ r rfl hr hmem
    refine (List.mem_append.1 hmem).resolve_right fun hlast => ?_
    rw [← List.mem_singleton.1 hlast] at hr
    cases hr
  have hkeeps : ∀ {rs : List Request}, .killThreadsOf id ∈ rs → rs = w.requests →
      .killThreadsOf id ∈ w.requests := fun hmem he => he ▸ hmem
  cases n
  case control c => cases c <;> exact Or.inl h
  case wait =>
    simp only [run] at h ⊢
    split at h <;> exact Or.inl h
  case stopAll =>
    exact Or.inl ((List.mem_append.1 h).resolve_right (by simp))
  case stopOtherScripts | broadcast | broadcastAndWait => exact Or.inl (hasks rfl rfl h)
  case createClone =>
    simp only [run] at h ⊢
    split at h
    · next source _ =>
      cases hclone : w.createClone source with
      | mk made w' =>
        rw [hclone] at h
        cases made with
        | none =>
          have hsame : w' = w := by
            rw [← World.createClone_of_none (congrArg Prod.fst hclone), hclone]
          exact Or.inl (hsame ▸ h)
        | some c =>
          obtain ⟨t, -, -, -, -, hw'⟩ := World.createClone_eq_some hclone
          exact Or.inl (hasks (congrArg World.requests hw') rfl h)
    · exact Or.inl h
  case deleteClone =>
    simp only [run] at h ⊢
    split at h
    · next hany =>
      obtain ⟨t, ht, hclone⟩ := (Option.any_eq_true _ _).1 hany
      rw [if_pos hany]
      rw [World.deleteClone_eq ht hclone] at h ⊢
      rcases List.mem_append.1 h with h | h
      · exact Or.inl h
      · cases List.mem_singleton.1 h
        exact Or.inr (by simp [World.request, Arena.contains, Arena.get?_remove])
    · exact Or.inl h
  case ask => exact Or.inl (hkeeps h (congrArg Mail.requests (World.mail_ask _ _ _ _)))
  case bubble | startBubble | clearBubble =>
    exact Or.inl (hkeeps h (congrArg Mail.requests (w.mail_setBubble _ _ _)))
  all_goals exact Or.inl h

namespace Machine

variable {p : Program} {m : Machine} {w : World} {id : TargetId}

lemma gone_callNative {n : Native} {a : Nat}
    (h : .killThreadsOf id ∈ (m.callNative w n a).2.requests) :
    .killThreadsOf id ∈ w.requests ∨ (m.callNative w n a).2.targets.contains id = false := by
  unfold callNative at h ⊢
  split
  · next hlt =>
    rw [if_pos hlt] at h
    exact Or.inl h
  · next hge =>
    rw [if_neg hge] at h
    exact n.gone_run _ _ _ _ h

lemma gone_step (h : .killThreadsOf id ∈ (step p m w).2.requests) :
    .killThreadsOf id ∈ w.requests ∨ (step p m w).2.targets.contains id = false := by
  unfold step at h ⊢
  split at h
  · exact Or.inl h
  next code hcode =>
  simp only at h ⊢
  split at h
  · exact Or.inl h
  next op hop =>
  by_cases hexec : op = .exec
  · subst hexec
    simp only [execute] at h ⊢
    split at h
    · exact gone_callNative h
    · exact Or.inl h
  · have hmail := (mail_execute hexec p code m.address (code.words[m.address + 1]?.getD 0).toNat
      { m with address := m.address + 1 + op.operandCount } w).1
    exact Or.inl (show .killThreadsOf id ∈ w.mail.requests from hmail ▸ h)

/-- Nothing is done after the request, so nobody comes back. -/
lemma gone_runs {x y : Machine × World} (hruns : Runs p x y)
    (hx : ∀ id, .killThreadsOf id ∉ x.2.requests) {id : TargetId}
    (h : .killThreadsOf id ∈ y.2.requests) : y.2.targets.contains id = false := by
  cases hruns with
  | refl => exact absurd h (hx id)
  | @tail y _ hy hs =>
    obtain ⟨hrun, rfl⟩ := hs
    refine (gone_step h).resolve_left fun hold => ?_
    obtain ⟨-, rs, hchanges, hfinal⟩ := changes_runs hy
    rw [hchanges.makes.requests] at hold
    have hmem := (List.mem_append.1 hold).resolve_left (hx id)
    rw [hfinal ⟨_, hmem, rfl⟩] at hrun
    cases hrun

end Machine

lemma Machine.gone_run (fuel : Nat) (p : Program) (m : Machine) {w : World} (hidle : w.requests = [])
    {id : TargetId} (h : .killThreadsOf id ∈ (m.run fuel p w).2.requests) :
    (m.run fuel p w).2.targets.contains id = false := by
  have hnone : ∀ id, .killThreadsOf id ∉ w.requests := by simp [hidle]
  unfold run at h ⊢
  by_cases hready : m.isReady w = true
  · rw [if_pos hready] at h ⊢
    exact gone_runs (runs_steps p fuel m.wake w) hnone h
  · rw [if_neg hready] at h
    exact absurd h (hnone id)

lemma Thread.gone_run (fuel : Nat) (t : Thread) {w : World} (hidle : w.requests = []) {id : TargetId}
    (h : .killThreadsOf id ∈ (t.run fuel w).2.requests) :
    (t.run fuel w).2.targets.contains id = false :=
  Machine.gone_run fuel t.program t.machine (w := { w with currentThread := t.id }) hidle h

namespace Engine

section

variable {good : BlockMap → Prop} {x y : List Request × Engine} {e e' : Engine} {ids : List ThreadId}

/-- Whoever's threads are still to be killed is not there any more. -/
lemma Toured.gone (hgood : ∀ b, good b → b.Playable) (h : Toured good x) :
    ∀ id, .killThreadsOf id ∈ x.1 → x.2.world.targets.contains id = false := by
  induction h with
  | new config host => simp
  | @deed x y ids hx k ih =>
    have htable := hx.visited.table hgood
    cases k with
    | beat k =>
      cases k with
      | handle r rs e =>
        intro id hid
        by_cases hr : r = .stopAll
        · subst hr
          rw [(hx.visited.stopsLast hgood).eq_nil] at hid
          cases hid
        · have htroupe := (htable.still_handle hr).troupe
          rw [Arena.contains_congr (World.layout_of_troupe htroupe)]
          exact ih id (List.mem_cons_of_mem r hid)
      | @turn e i t fuel ht hf hrun =>
        intro id hid
        exact t.gone_run fuel (hx.visited.sound hgood).1.idle hid
      | condition | resolve | sweep => simp
    | broadcast => simp
    | hats | stop | compile | answer | add | outside => simp

/-! ### Plain deeds -/

/-- A deed that evaluates no condition and does not compile. -/
inductive Plain (good : BlockMap → Prop) : List Request × Engine → List Request × Engine → Prop
  | handle (r : Request) (rs : List Request) (e : Engine) : Plain good (r :: rs, e) (rs, e.handle r)
  | turn {e : Engine} {i : Nat} {t : Thread} (fuel : Nat) (ht : e.threads[i]? = some t)
      (hf : t.isFinished = false) (hrun : (t.run fuel e.world).1.machine.isFaulted = false) :
      Plain good ([], e) ((t.run fuel e.world).2.requests, { e with
        world := { (t.run fuel e.world).2 with requests := [] }
        threads := e.threads.set i (t.run fuel e.world).1 })
  | resolve (e : Engine) : Plain good ([], e) ([], e.resolveWaits)
  | sweep (e : Engine) : Plain good ([], e) ([], { e with threads := e.threads.filter (!·.isFinished) })
  | hats (e : Engine) {p : Hat → Bool} (hp : p .cloneStart = false) (only : Option TargetId)
      (restart : Bool) : Plain good ([], e) ([], (e.startHats p only restart).2)
  | stop (e : Engine) : Plain good ([], e) ([], e.stop)
  | answer (e : Engine) (text : String) : Plain good ([], e) ([], e.answerQuestion text)
  | broadcast (e : Engine) (name : String) : Plain good ([], e) ([.broadcast name none], e)
  | add (e : Engine) (t : Target) (hgood : good t.blocks) (hclone : t.cloneOf = none) :
      Plain good ([], e) ([], e.addTarget t)
  | outside (e : Engine) (w : World) (hmail : w.mail = e.world.mail)
      (hc : e.world.targets.Covers w.targets) (ht : w.troupe = e.world.troupe) :
      Plain good ([], e) ([], { e with world := w })

lemma Plain.deed (k : Plain good x y) : ∃ ids, Deed good x ids y := by
  cases k with
  | handle r rs e => exact ⟨_, .beat (.handle r rs e)⟩
  | turn fuel ht hf hrun => exact ⟨_, .beat (.turn fuel ht hf hrun)⟩
  | resolve e => exact ⟨_, .beat (.resolve e)⟩
  | sweep e => exact ⟨_, .beat (.sweep e)⟩
  | hats e hp only restart => exact ⟨_, .hats e hp only restart⟩
  | stop e => exact ⟨_, .stop e⟩
  | answer e text => exact ⟨_, .answer e text⟩
  | broadcast e name => exact ⟨_, .broadcast e name⟩
  | add e t hgood hclone => exact ⟨_, .add e t hgood hclone⟩
  | outside e w hmail hc ht => exact ⟨_, .outside e w hmail hc ht⟩

/-! ### The record -/

/-- An evaluation of the condition of a script on a target. -/
structure Look where
  index : Nat
  target : TargetId
  value : Bool

def Look.key (l : Look) : Nat × TargetId := (l.index, l.target)

/-- The condition as it was found the last time; false if it never was. -/
def latest (log : List Look) (index : Nat) (target : TargetId) : Bool :=
  ((log.reverse.find? fun l => l.index == index && l.target == target).map (·.value)).getD false

/-- The condition as the engine remembers it. -/
def history (e : Engine) (index : Nat) (target : TargetId) : Bool :=
  ((e.edges.find? (isEdgeOf index target)).map (·.value)).getD false

/-- The value of a condition now, and the thread and the world after the evaluation. -/
def look (fuel : Nat) (e : Engine) (index : Nat) (s : Script) (target : TargetId) :
    Bool × Thread × World :=
  (e.edge index s target).1.thread.runPredicate fuel (e.edge index s target).2.world

/-- The engine when the value is noted; the script is not started yet. -/
def looked (fuel : Nat) (e : Engine) (index : Nat) (s : Script) (target : TargetId) : Engine :=
  { (e.edge index s target).2 with
    world := (e.look fuel index s target).2.2
    edges := (e.edge index s target).2.edges.map fun g =>
      if isEdgeOf index target g then
        { g with
          value := (e.look fuel index s target).1
          thread := (e.look fuel index s target).2.1 } else g }

/-- The states between the deeds, each with the record of the evaluations. -/
inductive Recorded (good : BlockMap → Prop) : List Request × Engine → List Look → Prop
  | new (config : Config) (host : Host) : Recorded good ([], .new config host) []
  | look {e : Engine} {log : List Look} {index : Nat} {s : Script} {target : TargetId} (fuel : Nat)
      (h : Recorded good ([], e) log) (hs : e.scripts[index]? = some s) (hhat : s.hat = .edge)
      (htarget : target ∈ e.family s.target)
      (hrun : (e.look fuel index s target).2.1.machine.isFaulted = false) :
      Recorded good ([], evaluateEdge fuel index s e target)
        (log ++ [⟨index, target, (e.look fuel index s target).1⟩])
  | compile {e : Engine} {log : List Look} (h : Recorded good ([], e) log) :
      Recorded good ([], e.compile) []
  /-- Whoever is gone is crossed out. -/
  | plain {x y : List Request × Engine} {log : List Look} (h : Recorded good x log)
      (k : Plain good x y) : Recorded good y (log.filter (y.2.world.targets.contains ·.target))

end

section

variable {log : List Look} {index i : Nat} {s : Script} {target id : TargetId} {l : Look} {e : Engine}
  {fuel : Nat}

lemma latest_append (log : List Look) (l : Look) (index : Nat) (target : TargetId) :
    latest (log ++ [l]) index target =
      if l.index = index ∧ l.target = target then l.value else latest log index target := by
  simp only [latest, List.reverse_append, List.reverse_singleton, List.singleton_append,
    List.find?_cons]
  by_cases h : l.index = index ∧ l.target = target
  · simp [h]
  · have hnot : (l.index == index && l.target == target) = false := by simpa using h
    rw [hnot, if_neg h]

/-- Nobody who is left is missed when others are crossed out. -/
lemma latest_filter {p : TargetId → Bool} (hp : p target = true) (log : List Look) (index : Nat) :
    latest (log.filter (p ·.target)) index target = latest log index target := by
  unfold latest
  rw [← List.filter_reverse, List.find?_filter]
  congr 3
  funext l
  by_cases h : l.target = target
  · simp [h, hp, beq_eq_decide]
  · simp [h]

/-- Who is not in the record was never looked at. -/
lemma latest_of_not_mem (h : ∀ l ∈ log, l.target ≠ target) (index : Nat) :
    latest log index target = false := by
  have hnone : log.reverse.find? (fun l => l.index == index && l.target == target) = none := by
    refine List.find?_eq_none.2 fun l hl hboth => h l (List.mem_reverse.1 hl) ?_
    simp only [Bool.and_eq_true, beq_iff_eq] at hboth
    exact hboth.2
  rw [latest, hnone]
  rfl

lemma history_of_not_mem (h : ∀ g ∈ e.edges, g.target ≠ target) (index : Nat) :
    e.history index target = false := by
  have hnone : e.edges.find? (isEdgeOf index target) = none := by
    refine List.find?_eq_none.2 fun g hg hboth => h g hg ?_
    simp only [isEdgeOf, Bool.and_eq_true, beq_iff_eq] at hboth
    exact hboth.2
  rw [history, hnone]
  rfl

lemma history_filter {e' : Engine} {p : TargetId → Bool} (h : e'.edges = e.edges.filter (p ·.target))
    (hp : p target = true) (index : Nat) : e'.history index target = e.history index target := by
  unfold history
  rw [h, List.find?_filter]
  congr 3
  funext g
  by_cases hg : g.target = target
  · simp [isEdgeOf, hg, hp, beq_eq_decide]
  · simp [isEdgeOf, hg]

/-! ### An evaluation -/

lemma value_edge (e : Engine) (index : Nat) (s : Script) (target : TargetId) :
    (e.edge index s target).1.value = e.history index target := by
  unfold edge history
  split
  · next h hh => rw [hh]; rfl
  · next hnone => rw [hnone]; rfl

lemma find?_edge (e : Engine) (index : Nat) (s : Script) (target : TargetId) :
    (e.edge index s target).2.edges.find? (isEdgeOf index target) = some (e.edge index s target).1 := by
  unfold edge
  split
  · next h hh => exact hh
  · next hnone => simp [List.find?_append, hnone, isEdgeOf]

lemma find?_edge_ne (h : ¬(index = i ∧ target = id)) (e : Engine) (s : Script) :
    (e.edge index s target).2.edges.find? (isEdgeOf i id) = e.edges.find? (isEdgeOf i id) := by
  have hnot : (index == i && target == id) = false := by simpa using h
  unfold edge
  split
  · rfl
  · simp [List.find?_append, isEdgeOf, hnot]

/-- To evaluate a condition is to note its value, and to start the script if it has become true. -/
lemma evaluateEdge_eq (hnone : e.fault = none)
    (hrun : (e.look fuel index s target).2.1.machine.isFaulted = false) :
    evaluateEdge fuel index s e target =
      if (e.look fuel index s target).1 && !e.history index target then
        ((e.looked fuel index s target).startScript index s target false).2
      else e.looked fuel index s target := by
  have hfault : (e.looked fuel index s target).fault.isNone = true := by
    unfold looked edge
    split <;> simp [hnone]
  have heq : evaluateEdge fuel index s e target =
      if (e.looked fuel index s target).fault.isNone && (e.look fuel index s target).1 &&
          !(e.edge index s target).1.value then
        ((e.looked fuel index s target).startScript index s target false).2
      else e.looked fuel index s target := by
    simp only [look] at hrun
    simp only [evaluateEdge, hnone, Option.isSome_none, Bool.false_eq_true, if_false,
      noteFault_eq hrun]
    rfl
  rw [heq, hfault, Bool.true_and, value_edge]

/-- The value is noted for this script on this target only. -/
lemma history_looked (fuel : Nat) (e : Engine) (index : Nat) (s : Script) (target : TargetId) (i : Nat)
    (id : TargetId) : (e.looked fuel index s target).history i id =
      if index = i ∧ target = id then (e.look fuel index s target).1 else e.history i id := by
  have hsame : ∀ f : EdgeHat → EdgeHat, (∀ g, (f g).script = g.script ∧ (f g).target = g.target) →
      isEdgeOf i id ∘ f = isEdgeOf i id := by
    intro f hf
    funext g
    simp [isEdgeOf, hf g]
  simp only [history, looked, List.find?_map]
  rw [hsame _ fun g => by split <;> exact ⟨rfl, rfl⟩]
  split
  · next h =>
    obtain ⟨rfl, rfl⟩ := h
    have hself := List.find?_some (find?_edge e index s target)
    rw [find?_edge, Option.map_some, if_pos hself]
    rfl
  · next h =>
    rw [find?_edge_ne h]
    cases hfind : e.edges.find? (isEdgeOf i id) with
    | none => rfl
    | some g =>
      have hg := List.find?_some hfind
      have hnot : isEdgeOf index target g = false := by
        simp only [isEdgeOf, Bool.and_eq_true, beq_iff_eq, Bool.and_eq_false_imp] at hg ⊢
        rintro hindex
        simpa using fun htarget => h ⟨hindex.symm.trans hg.1, htarget.symm.trans hg.2⟩
      simp [hnot]

lemma edges_startScript (e : Engine) (index : Nat) (s : Script) (target : TargetId) (restart : Bool) :
    (e.startScript index s target restart).2.edges = e.edges := by
  obtain ⟨world, threads, nextThread, he⟩ := e.startScript_frame index s target restart
  rw [he]

lemma edges_startHats (e : Engine) (p : Hat → Bool) (only : Option TargetId) (restart : Bool) :
    (e.startHats p only restart).2.edges = e.edges := by
  obtain ⟨world, threads, nextThread, he⟩ := e.startHats_frame p only restart
  rw [he]

end

section

variable {good : BlockMap → Prop} {x y : List Request × Engine} {e e' : Engine} {ids : List ThreadId}
  {log : List Look} {index : Nat} {s : Script} {target c : TargetId} {fuel : Nat}

/-! ### The record and the histories -/

lemma Recorded.toured (h : Recorded good x log) : Toured good x := by
  induction h with
  | new config host => exact .new config host
  | look fuel _ hs hhat htarget hrun ih => exact ih.deed (.beat (.condition fuel hs hhat htarget hrun))
  | compile _ ih => exact ih.deed (.compile _)
  | plain _ k ih =>
    obtain ⟨ids, hdeed⟩ := k.deed
    exact ih.deed hdeed

/-- The record goes on, whatever is done. -/
lemma Recorded.deed (h : Recorded good x log) (k : Deed good x ids y) :
    ∃ log', Recorded good y log' := by
  cases k with
  | beat k =>
    cases k with
    | handle r rs e => exact ⟨_, h.plain (.handle r rs e)⟩
    | turn fuel ht hf hrun => exact ⟨_, h.plain (.turn fuel ht hf hrun)⟩
    | condition fuel hs hhat htarget hrun => exact ⟨_, h.look fuel hs hhat htarget hrun⟩
    | resolve e => exact ⟨_, h.plain (.resolve e)⟩
    | sweep e => exact ⟨_, h.plain (.sweep e)⟩
  | hats e hp only restart => exact ⟨_, h.plain (.hats e hp only restart)⟩
  | stop e => exact ⟨_, h.plain (.stop e)⟩
  | compile e => exact ⟨_, h.compile⟩
  | answer e text => exact ⟨_, h.plain (.answer e text)⟩
  | broadcast e name => exact ⟨_, h.plain (.broadcast e name)⟩
  | add e t hb hclone => exact ⟨_, h.plain (.add e t hb hclone)⟩
  | outside e w hmail hc ht => exact ⟨_, h.plain (.outside e w hmail hc ht)⟩

lemma Recorded.deeds (h : Recorded good x log) (k : Deeds good x y) :
    ∃ log', Recorded good y log' := by
  induction k with
  | refl => exact ⟨log, h⟩
  | tail _ k ih =>
    obtain ⟨ids, k⟩ := k
    obtain ⟨log', h'⟩ := ih
    exact h'.deed k

/-- A plain deed drops the histories of those who are gone at most. -/
lemma Plain.edges (hgood : ∀ b, good b → b.Playable) (hx : Toured good x) (k : Plain good x y) :
    ∃ p : TargetId → Bool, y.2.edges = x.2.edges.filter (p ·.target) ∧
      ∀ id, y.2.world.targets.contains id = true → p id = true := by
  have hsame : ∀ {es : List EdgeHat}, es = x.2.edges → ∃ p : TargetId → Bool,
      es = x.2.edges.filter (p ·.target) ∧
      ∀ id, y.2.world.targets.contains id = true → p id = true :=
    fun hes => ⟨fun _ => true, by simp [hes], fun _ _ => rfl⟩
  have hstop : ∀ e : Engine, ∃ p : TargetId → Bool, e.stop.edges = e.edges.filter (p ·.target) ∧
      ∀ id, e.stop.world.targets.contains id = true → p id = true := by
    refine fun e => ⟨(deleteClones e.released).targets.contains, rfl, fun id hid => ?_⟩
    rwa [Arena.contains_congr (World.layout_of_troupe e.troupe_stop)] at hid
  cases k with
  | handle r rs e =>
    cases r with
    | broadcast name promise =>
      have hedges := edges_startHats e (· == .broadcast (Text.lowercase name)) none true
      cases promise <;> exact hsame hedges
    | startClone clone => exact hsame (edges_startHats e _ _ _)
    | killThreadsOf target =>
      refine ⟨(· != target), rfl, fun id hid => ?_⟩
      have hgone := hx.gone hgood target List.mem_cons_self
      have htroupe := troupe_killThreads (·.target == target) e.threads e.world
      rw [← Arena.contains_congr (World.layout_of_troupe htroupe)] at hgone
      rw [bne_iff_ne]
      rintro rfl
      exact Bool.false_ne_true (hgone.symm.trans hid)
    | stopAll => exact hstop e
    | stopOthers target except => exact hsame rfl
  | hats e hp only restart => exact hsame (edges_startHats e _ _ _)
  | stop e => exact hstop e
  | turn | resolve | sweep | answer | broadcast | add | outside => exact hsame rfl

/-- Whoever is new has no history, of his own or of another who was in his place. -/
lemma Deed.unwatched (hgood : ∀ b, good b → b.Playable) (hx : Visited good x) (k : Deed good x ids y)
    (hold : x.2.world.targets.contains c = false) (hnew : y.2.world.targets.contains c = true) :
    y.2.edges = x.2.edges ∧ ∀ g ∈ x.2.edges, g.target ≠ c := by
  have hwatched : x.1 = [] → ∀ g ∈ x.2.edges, g.target ≠ c := by
    rintro hrs g hg rfl
    have hlive := ((hx.table hgood).watched g hg).resolve_right (by simp [hrs])
    exact Bool.false_ne_true (hold.symm.trans hlive)
  rcases k.cases hgood hx with hstill | ⟨e, i, t, fuel, rfl, rfl, ht, hf, rfl⟩ |
    ⟨-, hworld, -⟩ | ⟨e, t, rfl, -, hclone, rfl⟩
  · rw [Arena.contains_congr (World.layout_of_troupe hstill.troupe), hold] at hnew
    cases hnew
  · exact ⟨rfl, hwatched rfl⟩
  · rw [hworld, contains_stop] at hnew
    rw [Arena.contains_eq, hnew] at hold
    cases hold
  · exact ⟨rfl, hwatched rfl⟩

/-- The record is about those who live, and the engine remembers what it says about them last. -/
structure Kept (x : List Request × Engine) (log : List Look) : Prop where
  live : ∀ l ∈ log, x.2.world.targets.contains l.target = true
  history : ∀ index target, x.2.world.targets.contains target = true →
    x.2.history index target = latest log index target

lemma Kept.plain (hgood : ∀ b, good b → b.Playable) (hx : Toured good x) (h : Kept x log)
    (k : Plain good x y) : Kept y (log.filter (y.2.world.targets.contains ·.target)) := by
  refine ⟨fun l hl => (List.mem_filter.1 hl).2, fun index target hlive => ?_⟩
  obtain ⟨p, hedges, hp⟩ := k.edges hgood hx
  rw [latest_filter hlive, history_filter hedges (hp target hlive)]
  cases hold : x.2.world.targets.contains target with
  | true => exact h.history index target hold
  | false =>
    obtain ⟨ids, hdeed⟩ := k.deed
    have hnobody := (hdeed.unwatched hgood hx.visited hold hlive).2
    rw [history_of_not_mem hnobody, latest_of_not_mem]
    rintro l hl rfl
    exact Bool.false_ne_true (hold.symm.trans (h.live l hl))

/-- An evaluation is written down and noted. -/
lemma Kept.look (h : Kept ([], e) log) (hnone : e.fault = none)
    (hlive : e.world.targets.contains target = true)
    (hrun : (e.look fuel index s target).2.1.machine.isFaulted = false)
    (htroupe : (evaluateEdge fuel index s e target).world.troupe = e.world.troupe) :
    Kept ([], evaluateEdge fuel index s e target)
      (log ++ [⟨index, target, (e.look fuel index s target).1⟩]) := by
  have hcontains := Arena.contains_congr (World.layout_of_troupe htroupe)
  refine ⟨fun l hl => ?_, fun i id hid => ?_⟩
  · rw [hcontains]
    rcases List.mem_append.1 hl with hl | hl
    · exact h.live l hl
    · rw [List.mem_singleton.1 hl]
      exact hlive
  · have hnoted : (evaluateEdge fuel index s e target).history i id =
        (e.looked fuel index s target).history i id := by
      rw [evaluateEdge_eq hnone hrun]
      split
      · rw [Engine.history, edges_startScript]
        rfl
      · rfl
    rw [hcontains] at hid
    rw [hnoted, history_looked, latest_append, h.history i id hid]

/-- **Histories are as recorded**, for those who live. -/
lemma Recorded.kept (hgood : ∀ b, good b → b.Playable) (h : Recorded good x log) : Kept x log := by
  induction h with
  | new config host => exact ⟨by simp, fun _ _ _ => rfl⟩
  | look fuel h hs hhat htarget hrun ih =>
    have hv := h.toured.visited
    obtain ⟨hsound, hnone, -⟩ := hv.sound hgood
    have hstill := (hv.table hgood).still_condition hgood hsound hnone hs hhat hrun
    exact ih.look hnone (contains_of_mem_family htarget) hrun hstill.troupe
  | compile h ih => exact ⟨by simp, fun _ _ _ => rfl⟩
  | plain h k ih => exact ih.plain hgood h.toured k

/-! ### The threads of conditions -/

/-- Every condition that was evaluated has a thread, which runs the program of its script for its target. -/
def Staffed (e : Engine) : Prop :=
  ∀ g ∈ e.edges, ∃ s, e.scripts[g.script]? = some s ∧ g.thread.program = s.program ∧
    g.thread.target = g.target

lemma Staffed.edge (h : e.Staffed) (hs : e.scripts[index]? = some s) (target : TargetId) :
    (e.edge index s target).2.Staffed := by
  unfold Engine.edge
  split
  · exact h
  · intro g hg
    rcases List.mem_append.1 hg with hg | hg
    · exact h g hg
    · rw [List.mem_singleton.1 hg]
      exact ⟨s, hs, rfl, rfl⟩

lemma scripts_edge (e : Engine) (index : Nat) (s : Script) (target : TargetId) :
    (e.edge index s target).2.scripts = e.scripts := by
  unfold Engine.edge
  split <;> rfl

/-- The thread that evaluates a condition is that of the script and the target. -/
lemma Staffed.thread_edge (h : e.Staffed) (hs : e.scripts[index]? = some s) (target : TargetId) :
    (e.edge index s target).1.thread.program = s.program ∧
      (e.edge index s target).1.thread.target = target := by
  obtain ⟨s', hs', hprogram, htarget⟩ := h.edge hs target _ (edge_mem e index s target)
  have hself := List.find?_some (find?_edge e index s target)
  simp only [isEdgeOf, Bool.and_eq_true, beq_iff_eq] at hself
  rw [scripts_edge, hself.1, hs] at hs'
  cases hs'
  exact ⟨hprogram, htarget.trans hself.2⟩

lemma Staffed.looked (h : e.Staffed) (hs : e.scripts[index]? = some s) (fuel : Nat)
    (target : TargetId) : (e.looked fuel index s target).Staffed := by
  intro g hg
  obtain ⟨g₀, hg₀, rfl⟩ := List.mem_map.1 hg
  change ∃ s', (e.edge index s target).2.scripts[_]? = some s' ∧ _
  split
  · next hself =>
    simp only [isEdgeOf, Bool.and_eq_true, beq_iff_eq] at hself
    obtain ⟨hprogram, htarget⟩ := h.thread_edge hs target
    obtain ⟨hprogram', htarget'⟩ := (e.edge index s target).1.thread.stays_runPredicate fuel
      (e.edge index s target).2.world
    rw [scripts_edge]
    exact ⟨s, hself.1 ▸ hs, hprogram'.trans hprogram, htarget'.trans (htarget.trans hself.2.symm)⟩
  · exact h.edge hs target g₀ hg₀

lemma Staffed.evaluateEdge (h : e.Staffed) (hnone : e.fault = none)
    (hs : e.scripts[index]? = some s)
    (hrun : (e.look fuel index s target).2.1.machine.isFaulted = false) :
    (evaluateEdge fuel index s e target).Staffed := by
  have hlooked := h.looked hs fuel target
  rw [evaluateEdge_eq hnone hrun]
  split
  · intro g hg
    rw [edges_startScript] at hg
    rw [(troupe_startScript _ index s target false).1]
    exact hlooked g hg
  · exact hlooked

lemma Plain.scripts (k : Plain good x y) : y.2.scripts = x.2.scripts := by
  cases k with
  | handle r rs e => exact (moves_handle r rs e).frame.1
  | hats e hp only restart => exact (troupe_startHats e _ only restart).1
  | stop e => exact (moves_stop [] e).frame.1
  | turn | resolve | sweep | answer | broadcast | add | outside => rfl

/-- **Conditions have their threads**, whatever is done. -/
lemma Recorded.staffed (hgood : ∀ b, good b → b.Playable) (h : Recorded good x log) : x.2.Staffed := by
  induction h with
  | new config host => exact List.forall_mem_nil _
  | look fuel h hs hhat htarget hrun ih =>
    exact ih.evaluateEdge (h.toured.visited.sound hgood).2.1 hs hrun
  | compile h ih => exact List.forall_mem_nil _
  | plain h k ih =>
    obtain ⟨p, hedges, -⟩ := k.edges hgood h.toured
    intro g hg
    rw [hedges] at hg
    rw [k.scripts]
    exact ih g (List.mem_filter.1 hg).1

end

end Engine

end Blockwork
