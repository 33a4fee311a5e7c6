import Blockwork.Proofs.Engine.Loop
import Blockwork.Proofs.Engine.Promises
import Blockwork.Proofs.Machine.Clones

/-!
The engine act by act. An act is one thing that the engine does with its own functions: it handles one
request, gives one thread its slice, evaluates one condition, looks after those who wait; or it is what
the engine is told to do from outside. The states between the acts are all that anyone can see of an
engine, in the middle of a frame too.

Every act is a row of moves, so what all moves keep holds in all these states.
-/

namespace Blockwork.Engine

/-! ### Scripts and their targets -/

/-- The targets that run a script are the one it belongs to and its clones, as long as they live. -/
lemma mem_family {e : Engine} {root id : TargetId} : id ∈ e.family root ↔
    ∃ o, e.world.targets.origin? id = some o ∧ (id = root ∨ o = some root) := by
  simp only [family, List.mem_map, List.mem_filter, Prod.exists, Arena.mem_live, Arena.origin?,
    Option.map_eq_some_iff, Bool.or_eq_true, beq_iff_eq]
  constructor
  · rintro ⟨id, t, ⟨ht, h⟩, rfl⟩
    exact ⟨t.cloneOf, ⟨t, ht, rfl⟩, h⟩
  · rintro ⟨o, ⟨t, ht, rfl⟩, h⟩
    exact ⟨id, t, ⟨ht, h⟩, rfl⟩

lemma contains_of_mem_family {e : Engine} {root id : TargetId} (h : id ∈ e.family root) :
    e.world.targets.contains id = true := by
  obtain ⟨o, ho, -⟩ := mem_family.1 h
  rw [Arena.contains_eq, ho]
  rfl

/-- What may be started, and where. -/
def setting (e : Engine) : List Script × List (UInt32 × Option (Option TargetId)) × List Nat :=
  (e.scripts, e.world.targets.layout)

section

variable {e e' : Engine}

lemma scripts_of_setting (h : e'.setting = e.setting) : e'.scripts = e.scripts :=
  congrArg Prod.fst h

lemma layout_of_setting (h : e'.setting = e.setting) :
    e'.world.targets.layout = e.world.targets.layout :=
  congrArg Prod.snd h

/-- A family is read off the layout. -/
lemma family_eq (e : Engine) (root : TargetId) : e.family root =
    e.world.targets.layout.1.zipIdx.filterMap fun x => x.1.2.bind fun o =>
      if (⟨x.2, x.1.1⟩ : TargetId) == root || o == some root then some ⟨x.2, x.1.1⟩ else none := by
  unfold family Arena.live Arena.layout
  rw [List.zipIdx_map, List.filterMap_map, List.filter_filterMap, List.map_filterMap]
  congr 1
  funext x
  cases h : x.1.target with
  | none => simp [h]
  | some t =>
    by_cases hroot : (⟨x.2, x.1.generation⟩ : TargetId) = root ∨ t.cloneOf = some root
    · simp [h, hroot]
    · simp [h, not_or.1 hroot]

lemma family_congr (h : e'.setting = e.setting) (root : TargetId) :
    e'.family root = e.family root := by
  rw [family_eq, family_eq, layout_of_setting h]

end

lemma setting_congr {e e' : Engine} (hs : e'.scripts = e.scripts)
    (ht : e'.world.troupe = e.world.troupe) : e'.setting = e.setting := by
  unfold setting
  rw [hs, World.layout_of_troupe ht]

/-- No start makes a target come or go. -/
lemma troupe_startScript (e : Engine) (index : Nat) (s : Script) (target : TargetId) (restart : Bool) :
    (e.startScript index s target restart).2.scripts = e.scripts ∧
      (e.startScript index s target restart).2.world.troupe = e.world.troupe := by
  rcases startScript_cases e index s target restart with ⟨xs, t, ys, -, -, heq⟩ | ⟨-, heq⟩
  · rw [heq]
    split
    · exact ⟨rfl, t.troupe_releasePromise e.world⟩
    · exact ⟨rfl, rfl⟩
  · rw [heq]
    exact ⟨rfl, Thread.troupe_new e.nextThread index s.program target e.world⟩

lemma setting_startScript (e : Engine) (index : Nat) (s : Script) (target : TargetId)
    (restart : Bool) : (e.startScript index s target restart).2.setting = e.setting :=
  have htroupe := troupe_startScript e index s target restart
  setting_congr htroupe.1 htroupe.2

/-! ### Calls -/

/-- A script that is to start on a target. -/
structure Calling where
  index : Nat
  script : Script
  target : TargetId

/-- The scripts with a fitting hat, each on all its targets or on one only. -/
def callings (e : Engine) (p : Hat → Bool) (only : Option TargetId) : List Calling :=
  e.scripts.zipIdx.flatMap fun x =>
    if p x.1.hat then
      ((e.family x.1.target).filter fun id => only.all (· == id)).map (Calling.mk x.2 x.1)
    else []

lemma mem_callings {e : Engine} {p : Hat → Bool} {only : Option TargetId} {c : Calling} :
    c ∈ e.callings p only ↔ e.scripts[c.index]? = some c.script ∧ p c.script.hat = true ∧
      c.target ∈ e.family c.script.target ∧ only.all (· == c.target) = true := by
  obtain ⟨index, s, target⟩ := c
  simp only [callings, List.mem_flatMap, Prod.exists, List.mk_mem_zipIdx_iff_getElem?]
  constructor
  · rintro ⟨s', i, hs, hmem⟩
    split at hmem
    · next hp =>
      obtain ⟨id, hid, heq⟩ := List.mem_map.1 hmem
      obtain ⟨hfam, honly⟩ := List.mem_filter.1 hid
      cases heq
      exact ⟨hs, hp, hfam, honly⟩
    · cases hmem
  · rintro ⟨hs, hp, hfam, honly⟩
    refine ⟨s, index, hs, ?_⟩
    rw [if_pos hp]
    exact List.mem_map.2 ⟨target, List.mem_filter.2 ⟨hfam, honly⟩, rfl⟩

/-- One more script is started; the threads that were started or started over are gathered. -/
def call (restart : Bool) (x : List ThreadId × Engine) (c : Calling) : List ThreadId × Engine :=
  (x.1 ++ (x.2.startScript c.index c.script c.target restart).1.toList,
    (x.2.startScript c.index c.script c.target restart).2)

lemma setting_call (restart : Bool) (cs : List Calling) (x : List ThreadId × Engine) :
    (cs.foldl (call restart) x).2.setting = x.2.setting := by
  induction cs generalizing x with
  | nil => rfl
  | cons c cs ih => exact (ih _).trans (setting_startScript _ _ _ _ _)

lemma foldl_call_startOn (index : Nat) (s : Script) (restart : Bool) (targets : List TargetId)
    (ids : List ThreadId) (e : Engine) :
    (targets.map (Calling.mk index s)).foldl (call restart) (ids, e) =
      (ids ++ (startOn index s restart targets e).1, (startOn index s restart targets e).2) := by
  induction targets generalizing ids e with
  | nil => simp [startOn]
  | cons target rest ih =>
    rw [List.map_cons, List.foldl_cons, call, ih]
    simp only [startOn, List.append_assoc]

lemma foldl_call_startAmong (p : Hat → Bool) (only : Option TargetId) (restart : Bool)
    {e₀ : Engine} (among : List (Script × Nat)) (ids : List ThreadId) {e : Engine}
    (he : e.setting = e₀.setting) :
    (among.flatMap fun x => if p x.1.hat then
      ((e₀.family x.1.target).filter fun id => only.all (· == id)).map (Calling.mk x.2 x.1)
      else []).foldl (call restart) (ids, e) =
        (ids ++ (startAmong p only restart among e).1, (startAmong p only restart among e).2) := by
  induction among generalizing ids e with
  | nil => simp [startAmong]
  | cons x rest ih =>
    obtain ⟨s, index⟩ := x
    rw [List.flatMap_cons, List.foldl_append]
    simp only [startAmong]
    split
    · have hset := setting_call restart (((e₀.family s.target).filter fun id =>
        only.all (· == id)).map (Calling.mk index s)) (ids, e)
      rw [foldl_call_startOn] at hset ⊢
      rw [ih _ (hset.trans he), family_congr he]
      simp only [List.append_assoc]
    · rw [List.foldl_nil, ih _ he]
      rfl

/-- Starting all scripts with a fitting hat is to start them one after another, on the targets there
were at the beginning: no start makes a target come or go. -/
lemma startHats_eq (e : Engine) (p : Hat → Bool) (only : Option TargetId) (restart : Bool) :
    e.startHats p only restart = (e.callings p only).foldl (call restart) ([], e) :=
  (foldl_call_startAmong p only restart e.scripts.zipIdx [] rfl).symm

/-- What every start keeps holds when all are done. -/
lemma startHats_induction {p : Hat → Bool} {only : Option TargetId} {restart : Bool}
    {P : List Calling → List ThreadId → Engine → Prop} {e₀ : Engine} (h : P [] [] e₀)
    (hstep : ∀ cs, ∀ c ∈ e₀.callings p only, ∀ ids e, e.setting = e₀.setting → P cs ids e →
      P (cs ++ [c]) (ids ++ (e.startScript c.index c.script c.target restart).1.toList)
        (e.startScript c.index c.script c.target restart).2) :
    P (e₀.callings p only) (e₀.startHats p only restart).1 (e₀.startHats p only restart).2 := by
  have key : ∀ (cs' cs : List Calling) (x : List ThreadId × Engine),
      (∀ c ∈ cs', c ∈ e₀.callings p only) → x.2.setting = e₀.setting → P cs x.1 x.2 →
      P (cs ++ cs') (cs'.foldl (call restart) x).1 (cs'.foldl (call restart) x).2 := by
    intro cs'
    induction cs' with
    | nil =>
      intro cs x _ _ hx
      rw [List.append_nil]
      exact hx
    | cons c cs' ih =>
      intro cs x hmem hset hx
      have hall := ih (cs ++ [c]) (call restart x c)
        (fun c' hc' => hmem c' (List.mem_cons_of_mem _ hc'))
        ((setting_startScript _ _ _ _ _).trans hset)
        (hstep cs c (hmem c List.mem_cons_self) x.1 x.2 hset hx)
      rwa [List.append_assoc, List.singleton_append] at hall
  rw [startHats_eq]
  exact key _ [] _ (fun _ hc => hc) rfl h

/-- A start changes the world and the threads only. -/
lemma startScript_frame (e : Engine) (index : Nat) (s : Script) (target : TargetId)
    (restart : Bool) : ∃ world threads nextThread,
      (e.startScript index s target restart).2 = { e with world, threads, nextThread } := by
  rcases startScript_cases e index s target restart with ⟨xs, t, ys, -, -, heq⟩ | ⟨-, heq⟩
  · rw [heq]
    split
    · exact ⟨_, _, _, rfl⟩
    · exact ⟨_, _, _, rfl⟩
  · rw [heq]
    exact ⟨_, _, _, rfl⟩

lemma startHats_frame (e : Engine) (p : Hat → Bool) (only : Option TargetId) (restart : Bool) :
    ∃ world threads nextThread,
      (e.startHats p only restart).2 = { e with world, threads, nextThread } := by
  refine startHats_induction (P := fun _ _ e' => ∃ world threads nextThread,
    e' = { e with world, threads, nextThread }) ⟨_, _, _, rfl⟩ ?_
  rintro _ c _ _ _ _ ⟨world, threads, nextThread, rfl⟩
  exact startScript_frame _ c.index c.script c.target restart

/-! ### Acts -/

/-- One act of an engine with requests to handle. A slice or a condition that is given up leads nowhere.
From outside anything may change but the mail, the blocks, and which targets there are. -/
inductive Act (good : BlockMap → Prop) : List Request × Engine → List Request × Engine → Prop
  | handle (r : Request) (rs : List Request) (e : Engine) : Act good (r :: rs, e) (rs, e.handle r)
  /-- A thread has its slice, and its requests are to be handled then. -/
  | turn {e : Engine} {i : Nat} {t : Thread} (fuel : Nat) (ht : e.threads[i]? = some t)
      (hf : t.isFinished = false) (hrun : (t.run fuel e.world).1.machine.isFaulted = false) :
      Act good ([], e) ((t.run fuel e.world).2.requests, { e with
        world := { (t.run fuel e.world).2 with requests := [] }
        threads := e.threads.set i (t.run fuel e.world).1 })
  | condition {e : Engine} {index : Nat} {s : Script} {target : TargetId} (fuel : Nat)
      (hs : e.scripts[index]? = some s) (htarget : target ∈ e.family s.target)
      (hrun : ((e.edge index s target).1.thread.runPredicate fuel
        (e.edge index s target).2.world).2.1.machine.isFaulted = false) :
      Act good ([], e) ([], evaluateEdge fuel index s e target)
  | resolve (e : Engine) : Act good ([], e) ([], e.resolveWaits)
  | sweep (e : Engine) : Act good ([], e) ([], { e with threads := e.threads.filter (!·.isFinished) })
  | hats (e : Engine) (p : Hat → Bool) (only : Option TargetId) (restart : Bool) :
      Act good ([], e) ([], (e.startHats p only restart).2)
  | stop (e : Engine) : Act good ([], e) ([], e.stop)
  | compile (e : Engine) : Act good ([], e) ([], e.compile)
  | answer (e : Engine) (text : String) : Act good ([], e) ([], e.answerQuestion text)
  | broadcast (e : Engine) (name : String) : Act good ([], e) ([.broadcast name none], e)
  | add (e : Engine) (t : Target) (hgood : good t.blocks) : Act good ([], e) ([], e.addTarget t)
  | outside (e : Engine) (w : World) (hmail : w.mail = e.world.mail)
      (hc : e.world.targets.Covers w.targets) (hl : w.targets.layout = e.world.targets.layout) :
      Act good ([], e) ([], { e with world := w })

def Acts (good : BlockMap → Prop) : List Request × Engine → List Request × Engine → Prop :=
  Relation.ReflTransGen (Act good)

/-- The states between the acts, from a new engine on. -/
inductive Visited (good : BlockMap → Prop) : List Request × Engine → Prop
  | new (config : Config) (host : Host) : Visited good ([], .new config host)
  | act {x y : List Request × Engine} (h : Visited good x) (k : Act good x y) : Visited good y

section

variable {good : BlockMap → Prop} {x y z : List Request × Engine} {e e' : Engine}

lemma Acts.refl (x : List Request × Engine) : Acts good x x := Relation.ReflTransGen.refl

lemma Acts.trans (h : Acts good x y) (k : Acts good y z) : Acts good x z :=
  Relation.ReflTransGen.trans h k

lemma Act.acts (h : Act good x y) : Acts good x y := Relation.ReflTransGen.single h

lemma Visited.acts (h : Visited good x) (k : Acts good x y) : Visited good y := by
  induction k with
  | refl => exact h
  | tail _ hk ih => exact ih.act hk

/-! ### Acts are moves -/

/-- All acts are moves, but for new targets and new scripts. -/
lemma Act.moves (h : Act good x y) (hf : x.2.fault = none) (hidle : x.2.world.requests = []) :
    Moves x y ∨ (∃ e t, good t.blocks ∧ x = ([], e) ∧ y = ([], e.addTarget t)) ∨
      ∃ e, x = ([], e) ∧ y = ([], e.compile) := by
  cases h with
  | handle r rs e => exact Or.inl (moves_handle r rs e)
  | @turn e i t fuel ht hfin hrun =>
    obtain ⟨xs, ys, hsplit, hset⟩ := exists_split ht
    rw [hset]
    exact Or.inl (Move.run fuel hsplit hfin hrun).moves
  | condition fuel hs htarget hrun => exact Or.inl (moves_evaluateEdge hf hs fuel _ hrun)
  | resolve e => exact Or.inl Move.resolve.moves
  | sweep e => exact Or.inl Move.sweep.moves
  | hats e p only restart => exact Or.inl ((starts_startHats e p only restart).moves [])
  | stop e => exact Or.inl (moves_stop [] e)
  | compile e => exact Or.inr (Or.inr ⟨e, rfl, rfl⟩)
  | answer e text => exact Or.inl (Move.answer text).moves
  | broadcast e name =>
    have htold : Move ([], e) ([.broadcast name none], e) := .told rfl
    exact Or.inl htold.moves
  | add e t hgood => exact Or.inr (Or.inl ⟨e, t, hgood, rfl, rfl⟩)
  | outside e w hmail hc hl =>
    exact Or.inl (Move.calm (congrArg Mail.questions hmail) (congrArg Mail.promises hmail)
      ((congrArg Mail.requests hmail).trans hidle) hc).moves

/-- **Soundness** in the middle of a frame too. -/
lemma Visited.sound (hgood : ∀ b, good b → b.Playable) (h : Visited good x) :
    Sound good x.2 ∧ x.2.fault = none ∧ x.2.palette = .builtin := by
  induction h with
  | new config host => exact (Reachable.new config host).sound hgood
  | act _ ha ih =>
    obtain ⟨hs, hf, hp⟩ := ih
    rcases ha.moves hf hs.idle with hm | ⟨e, t, hb, rfl, rfl⟩ | ⟨e, rfl, rfl⟩
    · obtain ⟨-, h2, h3⟩ := hm.frame
      exact ⟨hs.moves hgood hm, h2.trans hf, h3.trans hp⟩
    · refine ⟨⟨fun b h => ?_, hs.scripts, hs.threads, hs.edges, hs.idle⟩, hf, hp⟩
      rcases Arena.hasBlocks_insert h with h | rfl
      · exact hs.blocks b h
      · exact hb
    · obtain ⟨-, h2, h3⟩ := (moves_stop [] e).frame
      exact ⟨hs.compile hgood hp, h2.trans hf, h3.trans hp⟩

lemma Visited.posted (hgood : ∀ b, good b → b.Playable) (h : Visited good x) : Posted x.1 x.2 := by
  induction h with
  | new config host => exact ((Reachable.new config host).posted).1
  | act hx ha ih =>
    obtain ⟨hs, hf, -⟩ := hx.sound hgood
    rcases ha.moves hf hs.idle with hm | ⟨e, t, hb, rfl, rfl⟩ | ⟨e, rfl, rfl⟩
    · exact ih.moves hgood hs hm
    · exact ih.congr rfl rfl rfl rfl
    · exact (ih.moves hgood hs (moves_stop [] e)).congr rfl rfl rfl rfl

/-- What every move keeps, and what is about questions, promises, waits and threads only. -/
structure Lasting (good : BlockMap → Prop) (P : List Request × Engine → Prop) : Prop where
  move : ∀ {x y}, Sound good x.2 → Posted x.1 x.2 → P x → Move x y → P y
  congr : ∀ {rs e e'}, P (rs, e) → e'.world.mail = e.world.mail → e'.waits = e.waits →
    e'.threads = e.threads → P (rs, e')

lemma Lasting.moves {P : List Request × Engine → Prop} (hP : Lasting good P)
    (hgood : ∀ b, good b → b.Playable) (hs : Sound good x.2) (hp : Posted x.1 x.2) (h : P x)
    (hm : Moves x y) : P y := by
  induction hm with
  | refl => exact h
  | tail hm hm' ih => exact hP.move (hs.moves hgood hm) (hp.moves hgood hs hm) ih hm'

/-- It lasts as long as the engine. -/
lemma Lasting.acts {P : List Request × Engine → Prop} (hP : Lasting good P)
    (hgood : ∀ b, good b → b.Playable) (hx : Visited good x) (h : P x) (ha : Acts good x y) : P y := by
  induction ha with
  | refl => exact h
  | tail ha ha' ih =>
    have hy := hx.acts ha
    obtain ⟨hs, hf, -⟩ := hy.sound hgood
    have hp := hy.posted hgood
    rcases ha'.moves hf hs.idle with hm | ⟨e, t, hb, rfl, rfl⟩ | ⟨e, rfl, rfl⟩
    · exact hP.moves hgood hs hp ih hm
    · exact hP.congr ih rfl rfl rfl
    · exact hP.congr (hP.moves hgood hs hp ih (moves_stop [] e)) rfl rfl rfl

/-! ### Frames -/

/-- The threads that start, or start over, when a request is handled. -/
def roused (e : Engine) : Request → List ThreadId
  | .broadcast name _ => (e.startHats (· == .broadcast (Text.lowercase name)) none true).1
  | .startClone clone => (e.startHats (· == .cloneStart) (some clone) false).1
  | _ => []

/-- One act of an engine within a frame, and the threads that it starts or starts over. -/
inductive Beat : List Request × Engine → List ThreadId → List Request × Engine → Prop
  | handle (r : Request) (rs : List Request) (e : Engine) :
      Beat (r :: rs, e) (e.roused r) (rs, e.handle r)
  | turn {e : Engine} {i : Nat} {t : Thread} (fuel : Nat) (ht : e.threads[i]? = some t)
      (hf : t.isFinished = false) (hrun : (t.run fuel e.world).1.machine.isFaulted = false) :
      Beat ([], e) [] ((t.run fuel e.world).2.requests, { e with
        world := { (t.run fuel e.world).2 with requests := [] }
        threads := e.threads.set i (t.run fuel e.world).1 })
  | condition {e : Engine} {index : Nat} {s : Script} {target : TargetId} (fuel : Nat)
      (hs : e.scripts[index]? = some s) (hhat : s.hat = .edge) (htarget : target ∈ e.family s.target)
      (hrun : ((e.edge index s target).1.thread.runPredicate fuel
        (e.edge index s target).2.world).2.1.machine.isFaulted = false) :
      Beat ([], e) (((evaluateEdge fuel index s e target).threads.filter
        (e.nextThread ≤ ·.id)).map (·.id)) ([], evaluateEdge fuel index s e target)
  | resolve (e : Engine) : Beat ([], e) [] ([], e.resolveWaits)
  | sweep (e : Engine) : Beat ([], e) [] ([], { e with threads := e.threads.filter (!·.isFinished) })

def Beats : List Request × Engine → List Request × Engine → Prop :=
  Relation.ReflTransGen fun x y => ∃ ids, Beat x ids y

lemma Beats.refl (x : List Request × Engine) : Beats x x := Relation.ReflTransGen.refl

lemma Beats.trans (h : Beats x y) (k : Beats y z) : Beats x z := Relation.ReflTransGen.trans h k

lemma Beat.beats {ids : List ThreadId} (h : Beat x ids y) : Beats x y :=
  Relation.ReflTransGen.single ⟨ids, h⟩

lemma Beat.act {ids : List ThreadId} (h : Beat x ids y) : Act good x y := by
  cases h with
  | handle r rs e => exact .handle r rs e
  | turn fuel ht hf hrun => exact .turn fuel ht hf hrun
  | condition fuel hs _ htarget hrun => exact .condition fuel hs htarget hrun
  | resolve e => exact .resolve e
  | sweep e => exact .sweep e

lemma Beats.acts (h : Beats x y) : Acts good x y := by
  induction h with
  | refl => exact .refl x
  | tail _ hb ih =>
    obtain ⟨ids, hb⟩ := hb
    exact ih.trans hb.act.acts

lemma Visited.beats (hv : Visited good x) (h : Beats x y) : Visited good y := hv.acts h.acts

lemma beats_handle (rs : List Request) (e : Engine) : Beats (rs, e) ([], rs.foldl handle e) := by
  induction rs generalizing e with
  | nil => exact .refl _
  | cons r rs ih => exact (Beat.handle r rs e).beats.trans (ih _)

lemma unasked_eq (h : e.world.requests = []) :
    { e with world := { e.world with requests := [] } } = e := by
  cases e with
  | mk world =>
    cases world
    cases h
    rfl

/-- A broadcast from outside is a request like any other. -/
lemma broadcast_eq (h : e.world.requests = []) (name : String) :
    e.broadcast name = [Request.broadcast name none].foldl handle e := by
  simp only [Engine.broadcast, handleRequests, World.request, h, List.nil_append, unasked_eq h]

/-- Evaluating a condition makes no target come or go, for it asks for nothing. -/
lemma Sound.troupe_runPredicate (hgood : ∀ b, good b → b.Playable) (h : Sound good e) {g : EdgeHat}
    (hg : g ∈ e.edges) (fuel : Nat) :
    (g.thread.runPredicate fuel e.world).2.2.troupe = e.world.troupe := by
  obtain ⟨hreach, b, -, hlaid⟩ := h.laid hgood (h.edges g hg)
  obtain ⟨hmail, -⟩ := Thread.runPredicate_frame hlaid hreach fuel e.world
  obtain ⟨rs, hmakes⟩ := g.thread.makes_runPredicate fuel e.world
  have hsame : (g.thread.runPredicate fuel e.world).2.2.requests = e.world.requests :=
    congrArg Mail.requests hmail
  exact hmakes.still (List.self_eq_append_right.1 (hsame.symm.trans hmakes.requests))

/-- Between two engines only the histories of the conditions of one target differ, and numbers of
threads were used up for them. -/
structure Notes (target : TargetId) (e e' : Engine) : Prop where
  threads : e'.threads = e.threads
  waits : e'.waits = e.waits
  next : e.nextThread ≤ e'.nextThread
  mail : e'.world.mail = e.world.mail
  scripts : e'.scripts = e.scripts
  troupe : e'.world.troupe = e.world.troupe
  edges : ∀ g ∈ e'.edges, g.target = target ∨ ∃ g' ∈ e.edges, g.target = g'.target

lemma Notes.setting {target : TargetId} (h : Notes target e e') : e'.setting = e.setting :=
  setting_congr h.scripts h.troupe

/-- To evaluate a condition is to note its value, and perhaps to start the script then. -/
lemma Sound.notes (hgood : ∀ b, good b → b.Playable) (h : Sound good e) (hnone : e.fault = none)
    {index : Nat} {s : Script} (hs : e.scripts[index]? = some s) {target : TargetId} {fuel : Nat}
    (hrun : ((e.edge index s target).1.thread.runPredicate fuel
      (e.edge index s target).2.world).2.1.machine.isFaulted = false) :
    ∃ e', Notes target e e' ∧ (evaluateEdge fuel index s e target = e' ∨
      evaluateEdge fuel index s e target = (e'.startScript index s target false).2) := by
  have hedge : Notes target e (e.edge index s target).2 := by
    unfold edge
    split
    · exact ⟨rfl, rfl, Nat.le_refl _, rfl, rfl, rfl, fun g hg => Or.inr ⟨g, hg, rfl⟩⟩
    · refine ⟨rfl, rfl, Nat.le_succ _, rfl, rfl,
        Thread.troupe_new e.nextThread index s.program target e.world, fun g hg => ?_⟩
      rcases List.mem_append.1 hg with hg | hg
      · exact Or.inr ⟨g, hg, rfl⟩
      · exact Or.inl (by rw [List.mem_singleton.1 hg])
  have hmove : Move ([], e) ([], (e.edge index s target).2) := .watch hs target
  have hwatch : Sound good (e.edge index s target).2 := h.move hgood hmove
  have hmem := edge_mem e index s target
  simp only [evaluateEdge, hnone, Option.isSome_none, Bool.false_eq_true, if_false, noteFault_eq hrun]
  generalize (e.edge index s target).2 = e' at hedge hwatch hmem ⊢
  generalize (e.edge index s target).1 = g at hmem ⊢
  obtain ⟨hreach, b, -, hlaid⟩ := hwatch.laid hgood (hwatch.edges g hmem)
  obtain ⟨hmail, -⟩ := Thread.runPredicate_frame hlaid hreach fuel e'.world
  have htroupe := hwatch.troupe_runPredicate hgood hmem fuel
  refine ⟨{ e' with
      world := (g.thread.runPredicate fuel e'.world).2.2
      edges := e'.edges.map fun x => if isEdgeOf index target x then
        { x with
          value := (g.thread.runPredicate fuel e'.world).1
          thread := (g.thread.runPredicate fuel e'.world).2.1 } else x },
    ⟨hedge.threads, hedge.waits, hedge.next, hmail.trans hedge.mail, hedge.scripts,
      htroupe.trans hedge.troupe, fun x hx => ?_⟩, ?_⟩
  · obtain ⟨x₀, hx₀, rfl⟩ := List.mem_map.1 hx
    have hsame : (if isEdgeOf index target x₀ then
        { x₀ with
          value := (g.thread.runPredicate fuel e'.world).1
          thread := (g.thread.runPredicate fuel e'.world).2.1 } else x₀).target = x₀.target := by
      split <;> rfl
    rw [hsame]
    exact hedge.edges x₀ hx₀
  · split
    · exact Or.inr rfl
    · exact Or.inl rfl

/-- Things done one after another that stop at a fault: without one at the end there was none. -/
lemma beats_foldl {α : Type} {f : Engine → α → Engine} {xs : List α} (hv : Visited good ([], e))
    (hstay : ∀ e x, e.fault.isSome = true → f e x = e)
    (hf : ∀ x ∈ xs, ∀ e', Visited good ([], e') → e'.setting = e.setting → (f e' x).fault = none →
      Beats ([], e') ([], f e' x) ∧ (f e' x).setting = e'.setting)
    (hnone : (xs.foldl f e).fault = none) :
    Beats ([], e) ([], xs.foldl f e) ∧ (xs.foldl f e).setting = e.setting := by
  induction xs generalizing e with
  | nil => exact ⟨.refl _, rfl⟩
  | cons x xs ih =>
    rw [List.foldl_cons] at hnone ⊢
    obtain ⟨hbeats, hset⟩ := hf x List.mem_cons_self e hv rfl (fault_of_foldl hstay hnone)
    obtain ⟨hbeats', hset'⟩ := ih (hv.beats hbeats)
      (fun y hy e' hv' hs' => hf y (List.mem_cons_of_mem _ hy) e' hv' (hs'.trans hset)) hnone
    exact ⟨hbeats.trans hbeats', hset'.trans hset⟩

/-- The fault of a condition would be noted. -/
lemma not_isFaulted_of_fault_evaluateEdge {index : Nat} {s : Script} {target : TargetId} {fuel : Nat}
    (hfault : e.fault = none) (hnone : (evaluateEdge fuel index s e target).fault = none) :
    ((e.edge index s target).1.thread.runPredicate fuel
      (e.edge index s target).2.world).2.1.machine.isFaulted = false := by
  by_contra hfaulted
  rw [Bool.not_eq_false] at hfaulted
  obtain ⟨f, hf⟩ := exists_fault hfaulted
  have hnoted : ∀ e' : Engine, (e'.noteFault ((e.edge index s target).1.thread.runPredicate fuel
      (e.edge index s target).2.world).2.1.machine).fault = some f := fun _ => fault_noteFault hf
  simp [evaluateEdge, hfault, hnoted] at hnone

lemma beats_evaluateEdge (hgood : ∀ b, good b → b.Playable) (hv : Visited good ([], e)) {index : Nat}
    {s : Script} (hs : e.scripts[index]? = some s) (hhat : s.hat = .edge) {target : TargetId}
    (htarget : target ∈ e.family s.target) (fuel : Nat)
    (hnone : (evaluateEdge fuel index s e target).fault = none) :
    Beats ([], e) ([], evaluateEdge fuel index s e target) ∧
      (evaluateEdge fuel index s e target).setting = e.setting := by
  have hsound : Sound good e := (hv.sound hgood).1
  have hfault : e.fault = none := (hv.sound hgood).2.1
  have hrun := not_isFaulted_of_fault_evaluateEdge hfault hnone
  refine ⟨(Beat.condition fuel hs hhat htarget hrun).beats, ?_⟩
  obtain ⟨e', hnotes, heq | heq⟩ := hsound.notes hgood hfault hs hrun
  · rw [heq, hnotes.setting]
  · rw [heq, setting_startScript, hnotes.setting]

lemma beats_evaluateEdges (hgood : ∀ b, good b → b.Playable) (hv : Visited good ([], e)) (fuel : Nat)
    (hnone : (e.evaluateEdges fuel).fault = none) :
    Beats ([], e) ([], e.evaluateEdges fuel) := by
  refine (beats_foldl hv (fun e' x hsome => ?_) (fun x hx e' hv' hset hnone' => ?_) hnone).1
  · simp only
    split
    · exact foldl_of_fault evaluateEdge_of_fault _ hsome
    · rfl
  · simp only at hnone' ⊢
    split at hnone'
    · next hhat =>
      rw [if_pos hhat]
      refine beats_foldl hv' evaluateEdge_of_fault (fun target htarget e'' hv'' hset' hnone'' => ?_) hnone'
      have hs : e''.scripts[x.2]? = some x.1 := by
        rw [scripts_of_setting (hset'.trans hset)]
        exact scripts_zipIdx hx
      rw [← family_congr hset'] at htarget
      exact beats_evaluateEdge hgood hv'' hs (by simpa using hhat) htarget fuel hnone''
    · next hhat =>
      rw [if_neg hhat]
      exact ⟨.refl _, rfl⟩

/-- A turn of the loop is a beat, and nothing was asked for when a finished thread is passed over. -/
lemma Tick.beats (hgood : ∀ b, good b → b.Playable) {fuel : Nat} {x y : Moment} {a : Turn}
    (h : Tick fuel x a y) (hv : Visited good (x.todo, x.engine)) :
    Beats (x.todo, x.engine) (y.todo, y.engine) := by
  cases h with
  | slice ht hf hrun => exact (Beat.turn fuel ht hf hrun).beats
  | @pass i e t ht hf =>
    have hidle : e.world.requests = [] := (hv.sound hgood).1.idle
    simp only [hidle, unasked_eq hidle]
    exact .refl _
  | handle r rs e => exact (Beat.handle r rs e).beats

lemma Loop.beats (hgood : ∀ b, good b → b.Playable) {fuel : Nat} {x y : Moment} {as : List Turn}
    (h : Loop fuel x as y) (hv : Visited good (x.todo, x.engine)) :
    Beats (x.todo, x.engine) (y.todo, y.engine) := by
  induction h with
  | nil x => exact .refl _
  | cons h _ ih => exact (h.beats hgood hv).trans (ih (hv.beats (h.beats hgood hv)))

/-- A frame is a row of beats. -/
lemma beats_step (hgood : ∀ b, good b → b.Playable) (hv : Visited good ([], e)) (fuel : Nat)
    (hnone : (e.step fuel).fault = none) : Beats ([], e) ([], e.step fuel) := by
  obtain ⟨hedges, as, z, hloop, ⟨hdone, -⟩, heq⟩ := exists_loop_step (hv.sound hgood).2.1 hnone
  have hfirst := beats_evaluateEdges hgood hv fuel hedges
  have hsecond := hloop.beats hgood (hv.beats hfirst)
  rw [hdone] at hsecond
  rw [heq]
  exact hfirst.trans (hsecond.trans ((Beat.resolve _).beats.trans (Beat.sweep _).beats))

/-- Only a frame that takes too long is given up. -/
lemma Visited.fault_step (hgood : ∀ b, good b → b.Playable) (hv : Visited good ([], e)) {fuel : Nat}
    (hf : (e.step fuel).fault ≠ some .overrun) : (e.step fuel).fault = none := by
  obtain ⟨hsound, hfault, -⟩ := hv.sound hgood
  exact (hsound.goes hgood (goes_step fuel hfault) hf).frame.2.1.trans hfault

end

/-! ### What an engine is told to do -/

/-- One act of an engine that plays a project, and the threads that it starts or starts over. Whoever is
added is no clone, and nothing else from outside changes who there is. -/
inductive Deed (good : BlockMap → Prop) :
    List Request × Engine → List ThreadId → List Request × Engine → Prop
  | beat {x y : List Request × Engine} {ids : List ThreadId} (h : Beat x ids y) : Deed good x ids y
  /-- From outside no clone is told that it was made. -/
  | hats (e : Engine) {p : Hat → Bool} (hp : p .cloneStart = false) (only : Option TargetId)
      (restart : Bool) :
      Deed good ([], e) (e.startHats p only restart).1 ([], (e.startHats p only restart).2)
  | stop (e : Engine) : Deed good ([], e) [] ([], e.stop)
  | compile (e : Engine) : Deed good ([], e) [] ([], e.compile)
  | answer (e : Engine) (text : String) : Deed good ([], e) [] ([], e.answerQuestion text)
  | broadcast (e : Engine) (name : String) : Deed good ([], e) [] ([.broadcast name none], e)
  | add (e : Engine) (t : Target) (hgood : good t.blocks) (hclone : t.cloneOf = none) :
      Deed good ([], e) [] ([], e.addTarget t)
  | outside (e : Engine) (w : World) (hmail : w.mail = e.world.mail)
      (hc : e.world.targets.Covers w.targets) (ht : w.troupe = e.world.troupe) :
      Deed good ([], e) [] ([], { e with world := w })

def Deeds (good : BlockMap → Prop) : List Request × Engine → List Request × Engine → Prop :=
  Relation.ReflTransGen fun x y => ∃ ids, Deed good x ids y

/-- One thing that an engine is told to do about its scripts. A frame leads on if it is not given up. -/
inductive Order : Engine → Engine → Prop
  | compile (e : Engine) : Order e e.compile
  | start (e : Engine) : Order e e.start
  | stop (e : Engine) : Order e e.stop
  | broadcast (e : Engine) (name : String) : Order e (e.broadcast name)
  | keyPressed (e : Engine) (key : String) : Order e (e.keyPressed key)
  | click (e : Engine) (id : TargetId) : Order e (e.click id)
  | answerQuestion (e : Engine) (answer : String) : Order e (e.answerQuestion answer)
  | step (e : Engine) (fuel : Nat) (hf : (e.step fuel).fault ≠ some .overrun) : Order e (e.step fuel)

section

variable {good : BlockMap → Prop} {x y z : List Request × Engine} {e e' : Engine} {ids : List ThreadId}

lemma Deed.act (h : Deed good x ids y) : Act good x y := by
  cases h with
  | beat h => exact h.act
  | hats e hp only restart => exact .hats e _ only restart
  | stop e => exact .stop e
  | compile e => exact .compile e
  | answer e text => exact .answer e text
  | broadcast e name => exact .broadcast e name
  | add e t hgood _ => exact .add e t hgood
  | outside e w hmail hc ht => exact .outside e w hmail hc (World.layout_of_troupe ht)

lemma Deeds.refl (x : List Request × Engine) : Deeds good x x := Relation.ReflTransGen.refl

lemma Deeds.trans (h : Deeds good x y) (k : Deeds good y z) : Deeds good x z :=
  Relation.ReflTransGen.trans h k

lemma Deed.deeds (h : Deed good x ids y) : Deeds good x y := Relation.ReflTransGen.single ⟨ids, h⟩

lemma Deeds.acts (h : Deeds good x y) : Acts good x y := by
  induction h with
  | refl => exact .refl x
  | tail _ hd ih =>
    obtain ⟨ids, hd⟩ := hd
    exact ih.trans hd.act.acts

lemma Beats.deeds (h : Beats x y) : Deeds good x y := by
  induction h with
  | refl => exact .refl x
  | tail _ hb ih =>
    obtain ⟨ids, hb⟩ := hb
    exact ih.trans (Deed.beat hb).deeds

lemma deed_resetTimer (e : Engine) :
    Deed good ([], e) [] ([], { e with world := e.world.resetTimer }) :=
  .outside e _ rfl (.refl _) rfl

/-- Whatever an engine is told to do, it does deed by deed. -/
lemma Order.deeds (hgood : ∀ b, good b → b.Playable) (hv : Visited good ([], e)) (h : Order e e') :
    Deeds good ([], e) ([], e') := by
  cases h with
  | compile => exact (Deed.compile e).deeds
  | start =>
    exact (Deed.stop e).deeds.trans ((deed_resetTimer e.stop).deeds.trans (Deed.hats _ rfl _ _).deeds)
  | stop => exact (Deed.stop e).deeds
  | broadcast name =>
    rw [broadcast_eq (hv.sound hgood).1.idle]
    exact (Deed.broadcast e name).deeds.trans (beats_handle _ _).deeds
  | keyPressed key => exact (Deed.hats _ rfl _ _).deeds
  | click id =>
    unfold Engine.click
    split
    · exact .refl _
    · refine (Deed.hats _ ?_ _ _).deeds
      split <;> rfl
  | answerQuestion answer => exact (Deed.answer e answer).deeds
  | step fuel hf => exact (beats_step hgood hv fuel (hv.fault_step hgood hf)).deeds

end

/-- One thing that an engine is told to do. A frame leads on if it is not given up. From outside anything
may change but the mail, the blocks, and which targets there are. -/
inductive Play (good : BlockMap → Prop) : Engine → Engine → Prop
  | add (e : Engine) (t : Target) (hgood : good t.blocks) : Play good e (e.addTarget t)
  | outside (e : Engine) (w : World) (hmail : w.mail = e.world.mail)
      (hc : e.world.targets.Covers w.targets) (hl : w.targets.layout = e.world.targets.layout) :
      Play good e { e with world := w }
  | compile (e : Engine) : Play good e e.compile
  | start (e : Engine) : Play good e e.start
  | stop (e : Engine) : Play good e e.stop
  | broadcast (e : Engine) (name : String) : Play good e (e.broadcast name)
  | keyPressed (e : Engine) (key : String) : Play good e (e.keyPressed key)
  | click (e : Engine) (id : TargetId) : Play good e (e.click id)
  | answerQuestion (e : Engine) (answer : String) : Play good e (e.answerQuestion answer)
  | step (e : Engine) (fuel : Nat) (hf : (e.step fuel).fault ≠ some .overrun) :
      Play good e (e.step fuel)

/-- The states of an engine between the things it is told to do. -/
inductive Played (good : BlockMap → Prop) : Engine → Prop
  | new (config : Config) (host : Host) : Played good (.new config host)
  | play {e e' : Engine} (h : Played good e) (k : Play good e e') : Played good e'

section

variable {good : BlockMap → Prop} {e e' : Engine}

lemma Played.reachable (h : Played good e) : Reachable good e := by
  induction h with
  | new config host => exact .new config host
  | play _ k ih =>
    cases k with
    | add t hgood => exact ih.add t hgood
    | outside w hmail hc _ => exact ih.outside w hmail hc
    | compile => exact ih.compile
    | start => exact ih.start
    | stop => exact ih.stop
    | broadcast name => exact ih.broadcast name
    | keyPressed key => exact ih.keyPressed key
    | click id => exact ih.click id
    | answerQuestion answer => exact ih.answerQuestion answer
    | step fuel hf => exact ih.step fuel hf

/-- Whatever an engine is told to do, it does act by act. -/
lemma Play.acts (hgood : ∀ b, good b → b.Playable) (hv : Visited good ([], e)) (h : Play good e e') :
    Acts good ([], e) ([], e') := by
  have horder : ∀ {e'}, Order e e' → Acts good ([], e) ([], e') := fun ho => (ho.deeds hgood hv).acts
  cases h with
  | add t hb => exact (Act.add e t hb).acts
  | outside w hmail hc hl => exact (Act.outside e w hmail hc hl).acts
  | compile => exact horder (.compile e)
  | start => exact horder (.start e)
  | stop => exact horder (.stop e)
  | broadcast name => exact horder (.broadcast e name)
  | keyPressed key => exact horder (.keyPressed e key)
  | click id => exact horder (.click e id)
  | answerQuestion answer => exact horder (.answerQuestion e answer)
  | step fuel hf => exact horder (.step e fuel hf)

lemma Played.visited (hgood : ∀ b, good b → b.Playable) (h : Played good e) :
    Visited good ([], e) := by
  induction h with
  | new config host => exact .new config host
  | play _ k ih => exact ih.acts (k.acts hgood ih)

/-- The same for one thing after another. -/
lemma Played.acts (hgood : ∀ b, good b → b.Playable) (h : Played good e)
    (k : Relation.ReflTransGen (Play good) e e') :
    Played good e' ∧ Acts good ([], e) ([], e') := by
  induction k with
  | refl => exact ⟨h, .refl _⟩
  | tail _ k ih =>
    obtain ⟨hplayed, hacts⟩ := ih
    exact ⟨hplayed.play k, hacts.trans (k.acts hgood (hplayed.visited hgood))⟩

end

end Blockwork.Engine
