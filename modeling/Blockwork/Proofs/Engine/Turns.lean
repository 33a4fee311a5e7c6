import Blockwork.Proofs.Engine.Threads

/-!
Every thread has its turn. In a frame no thread has two slices, and one that waits for its slice gets
it, unless it is finished before its turn comes or everything stops. Threads that are started meanwhile
stand at the end of the table, so they wait for their slice like the others; one that starts over keeps
its place, and if it had its slice in this frame, it has no other.
-/

namespace Blockwork.Engine

/-- The threads that had a slice, in this order. -/
def slices (as : List Turn) : List ThreadId := as.filterMap fun
  | .slice id _ => some id
  | _ => none

section

variable {good : BlockMap → Prop} {fuel : Nat} {x y z : Moment} {a : Turn} {as bs : List Turn}

lemma slices_append (as bs : List Turn) : slices (as ++ bs) = slices as ++ slices bs :=
  List.filterMap_append

@[simp] lemma slices_slice (id : ThreadId) (asked : List Request) :
    slices [.slice id asked] = [id] := rfl

@[simp] lemma slices_pass : slices [.pass] = [] := rfl

@[simp] lemma slices_handle (r : Request) : slices [.handle r] = [] := rfl

/-- As long as not everything stops, threads keep their places. -/
lemma Tick.extends (h : Tick fuel x a y) (ha : a ≠ .handle .stopAll) : Extends x.engine y.engine := by
  cases h with
  | slice ht hf _ => exact extends_turn ht hf fuel _
  | pass ht hf => exact extends_of_eq (Nat.le_refl _) rfl
  | handle r rs e => exact extends_handle e fun hr => ha (hr ▸ rfl)

lemma Tick.visited (hgood : ∀ b, good b → b.Playable) (h : Tick fuel x a y)
    (hv : Visited good (x.todo, x.engine)) : Visited good (y.todo, y.engine) :=
  hv.beats (h.beats hgood hv)

/-! ### No thread has two slices -/

/-- Slices were had in the order of the table, and the threads to come follow in it. -/
structure InOrder (as : List Turn) (x : Moment) : Prop where
  rising : (slices as).Pairwise (· < ·)
  below : ∀ id ∈ slices as, id < x.engine.nextThread
  ahead : ∀ id ∈ slices as, ∀ {i : Nat} {t : Thread}, x.position ≤ i →
    x.engine.threads[i]? = some t → id < t.id

lemma InOrder.extends (h : InOrder as x) (hx : Extends x.engine y.engine)
    (hpos : x.position ≤ y.position) (hs : slices bs = slices as) : InOrder bs y := by
  refine ⟨hs ▸ h.rising, fun id hid => ?_, fun id hid i t hi ht => ?_⟩
  · rw [hs] at hid
    exact Nat.lt_of_lt_of_le (h.below id hid) hx.next
  · rw [hs] at hid
    rcases hx.fresh ht with ⟨t₀, ht₀, hages⟩ | hnew
    · rw [hages.id]
      exact h.ahead id hid (Nat.le_trans hpos hi) ht₀
    · exact Nat.lt_of_lt_of_le (h.below id hid) hnew

lemma InOrder.tick (hgood : ∀ b, good b → b.Playable) (hv : Visited good (x.todo, x.engine))
    (h : InOrder as x) (k : Tick fuel x a y) : InOrder (as ++ [a]) y := by
  have htable := hv.table hgood
  cases k with
  | @slice i e t ht hf hrun =>
    -- the thread comes after all that had their slices, and before those to come
    have hlater : ∀ {j : Nat} {u : Thread}, i < j → e.threads[j]? = some u → t.id < u.id := by
      intro j u hij hu
      obtain ⟨hi, rfl⟩ := List.getElem?_eq_some_iff.1 ht
      obtain ⟨hj, rfl⟩ := List.getElem?_eq_some_iff.1 hu
      exact List.pairwise_iff_getElem.1 htable.rising i j hi hj hij
    refine ⟨?_, fun id hid => ?_, fun id hid j u hj hu => ?_⟩
    · rw [slices_append, slices_slice]
      refine List.pairwise_append.2 ⟨h.rising, List.pairwise_singleton _ _, fun id hid id' hid' => ?_⟩
      rw [List.mem_singleton.1 hid']
      exact h.ahead id hid (Nat.le_refl _) ht
    · rw [slices_append, slices_slice] at hid
      rcases List.mem_append.1 hid with hid | hid
      · exact h.below id hid
      · rw [List.mem_singleton.1 hid]
        exact htable.below t (List.mem_of_getElem? ht)
    · have hu' : e.threads[j]? = some u := by
        rwa [List.getElem?_set_ne (Nat.ne_of_lt hj)] at hu
      rw [slices_append, slices_slice] at hid
      rcases List.mem_append.1 hid with hid | hid
      · exact h.ahead id hid (Nat.le_trans (Nat.le_succ i) hj) hu'
      · rw [List.mem_singleton.1 hid]
        exact hlater hj hu'
  | pass ht hf =>
    exact h.extends (extends_of_eq (Nat.le_refl _) rfl) (Nat.le_succ _) (by simp [slices_append])
  | @handle i r rs e =>
    have hs : slices (as ++ [.handle r]) = slices as := by simp [slices_append]
    by_cases hr : r = .stopAll
    · subst hr
      refine ⟨hs ▸ h.rising, fun id hid => h.below id (hs ▸ hid), fun id hid j u _ hu => ?_⟩
      cases (List.mem_of_getElem? hu : u ∈ [])
    · exact h.extends (extends_handle e hr) (Nat.le_refl _) hs

lemma Loop.inOrder (hgood : ∀ b, good b → b.Playable) (h : Loop fuel x bs y)
    (hv : Visited good (x.todo, x.engine)) (hx : InOrder as x) : InOrder (as ++ bs) y := by
  induction h generalizing as with
  | nil x => rwa [List.append_nil]
  | cons h _ ih =>
    have hrest := ih (h.visited hgood hv) (hx.tick hgood hv h)
    rwa [List.append_assoc, List.singleton_append] at hrest

/-! ### Every thread has a slice -/

/-- Until everything stops, the threads before the position had their slices or are finished. -/
structure Served (as : List Turn) (x : Moment) : Prop where
  position : x.position ≤ x.engine.threads.length
  behind : ∀ {i : Nat} {t : Thread}, i < x.position → x.engine.threads[i]? = some t →
    t.isFinished = false → t.id ∈ slices as

lemma Extends.length_le {e e' : Engine} (h : Extends e e') :
    e.threads.length ≤ e'.threads.length := by
  by_contra hlt
  rw [Nat.not_le] at hlt
  obtain ⟨t, ht, -⟩ := h.kept (List.getElem?_eq_getElem hlt)
  exact Nat.lt_irrefl _ (List.getElem?_eq_some_iff.1 ht).1

/-- Those that stand before the position have grown older since. -/
lemma Served.extends (h : Served as x) (hx : Extends x.engine y.engine)
    {i : Nat} {t : Thread} (hi : i < x.position) (ht : y.engine.threads[i]? = some t)
    (hf : t.isFinished = false) : t.id ∈ slices as := by
  have hlt : i < x.engine.threads.length := Nat.lt_of_lt_of_le hi h.position
  obtain ⟨t', ht', hages⟩ := hx.kept (List.getElem?_eq_getElem hlt)
  cases ht.symm.trans ht'
  rw [hages.id]
  exact h.behind hi (List.getElem?_eq_getElem hlt) (hages.finished hf)

lemma Served.tick (h : Served as x) (k : Tick fuel x a y) (ha : a ≠ .handle .stopAll) :
    Served (as ++ [a]) y := by
  have hext := k.extends ha
  have hlen := hext.length_le
  have hsub : ∀ {id : ThreadId}, id ∈ slices as → id ∈ slices (as ++ [a]) := fun hid => by
    rw [slices_append]
    exact List.mem_append_left _ hid
  cases k with
  | @slice i e t ht hf hrun =>
    have hi : i < e.threads.length := (List.getElem?_eq_some_iff.1 ht).1
    refine ⟨Nat.lt_of_lt_of_le hi hlen, fun {j u} hj hu hfu => ?_⟩
    rcases Nat.lt_succ_iff_lt_or_eq.1 hj with hj | rfl
    · exact hsub (h.extends hext hj hu hfu)
    · obtain ⟨t', ht', hages⟩ := hext.kept ht
      cases hu.symm.trans ht'
      rw [hages.id, slices_append, slices_slice]
      exact List.mem_append_right _ (List.mem_singleton_self _)
  | @pass i e t ht hf =>
    have hi : i < e.threads.length := (List.getElem?_eq_some_iff.1 ht).1
    refine ⟨hi, fun {j u} hj hu hfu => ?_⟩
    rcases Nat.lt_succ_iff_lt_or_eq.1 hj with hj | rfl
    · exact hsub (h.extends hext hj hu hfu)
    · cases ht.symm.trans hu
      rw [hf] at hfu
      cases hfu
  | handle r rs e =>
    exact ⟨Nat.le_trans h.position hlen, fun hj hu hfu => hsub (h.extends hext hj hu hfu)⟩

lemma Loop.served (h : Loop fuel x bs y) (hx : .handle .stopAll ∈ as ∨ Served as x) :
    .handle .stopAll ∈ as ++ bs ∨ Served (as ++ bs) y := by
  induction h generalizing as with
  | nil x => rwa [List.append_nil]
  | @cons x y z a bs h _ ih =>
    have hnext : .handle .stopAll ∈ as ++ [a] ∨ Served (as ++ [a]) y := by
      rcases hx with hstop | hserved
      · exact Or.inl (List.mem_append_left _ hstop)
      · by_cases ha : a = .handle .stopAll
        · exact Or.inl (ha ▸ List.mem_append_right _ (List.mem_singleton_self _))
        · exact Or.inr (hserved.tick h ha)
    have hrest := ih hnext
    rwa [List.append_assoc, List.singleton_append] at hrest

/-- A thread waits in its place, until its slice begins, it is finished, or everything is to stop; and
the loop does not pass its place before. -/
def AwaitsTurn (fuel : Nat) (x : Moment) (as : List Turn) (i : Nat) (t : Thread) : Prop :=
  ∃ mid y rest t', as = mid ++ rest ∧ Loop fuel x mid y ∧ y.position ≤ i ∧
    y.engine.threads[i]? = some t' ∧ t.Ages t' ∧ (t'.isFinished = true ∨
      (∃ asked, rest.head? = some (.slice t.id asked)) ∨ rest.head? = some (.handle .stopAll))

lemma Loop.awaitsTurn (h : Loop fuel x as z) (hz : z.IsOver) {i : Nat} {t : Thread}
    (hi : x.position ≤ i) (ht : x.engine.threads[i]? = some t) (hf : t.isFinished = false) :
    AwaitsTurn fuel x as i t := by
  induction h generalizing t with
  | nil x =>
    obtain ⟨-, hnone⟩ := hz
    have hlen := List.getElem?_eq_none_iff.1 hnone
    exact absurd (List.getElem?_eq_some_iff.1 ht).1 (Nat.not_lt.2 (Nat.le_trans hlen hi))
  | @cons x y z a as h k ih =>
    by_cases ha : a = .handle .stopAll
    · subst ha
      exact ⟨[], x, _, t, rfl, .nil x, hi, ht, .refl t, Or.inr (Or.inr rfl)⟩
    -- one turn later the thread is in its place, and if its turn has not come it waits on
    have hlater : y.position ≤ i → AwaitsTurn fuel x (a :: as) i t := by
      intro hpos
      obtain ⟨t', ht', hages⟩ := (h.extends ha).kept ht
      cases hf' : t'.isFinished with
      | true => exact ⟨[a], y, as, t', rfl, .cons h (.nil y), hpos, ht', hages, Or.inl hf'⟩
      | false =>
        obtain ⟨mid, y', rest, u, rfl, hloop, hpos', hu, hages', hend⟩ := ih hz hpos ht' hf'
        refine ⟨a :: mid, y', rest, u, rfl, .cons h hloop, hpos', hu, hages.trans hages', ?_⟩
        rwa [hages.id] at hend
    cases h with
    | @slice j e u hu _ _ =>
      rcases Nat.eq_or_lt_of_le hi with heq | hlt
      · cases heq
        cases ht.symm.trans hu
        exact ⟨[], _, _, t, rfl, .nil _, hi, ht, .refl t, Or.inr (Or.inl ⟨_, rfl⟩)⟩
      · exact hlater hlt
    | @pass j e u hu hfu =>
      rcases Nat.eq_or_lt_of_le hi with heq | hlt
      · cases heq
        cases ht.symm.trans hu
        rw [hf] at hfu
        cases hfu
      · exact hlater hlt
    | handle r rs e => exact hlater hi

/-! ### Requests -/

/-- What is to be handled is handled at once, in order. -/
lemma Loop.handles (h : Loop fuel x as z) (hz : z.IsOver) :
    ∃ rest, as = x.todo.map .handle ++ rest := by
  obtain ⟨i, todo, e⟩ := x
  induction todo generalizing as e with
  | nil => exact ⟨as, rfl⟩
  | cons r rs ih =>
    cases h with
    | nil => cases hz.1
    | cons h k =>
      cases h
      obtain ⟨rest, rfl⟩ := ih _ k
      exact ⟨rest, rfl⟩

lemma Loop.split (h : Loop fuel x (as ++ bs) z) : ∃ y, Loop fuel x as y ∧ Loop fuel y bs z := by
  induction as generalizing x with
  | nil => exact ⟨x, .nil x, h⟩
  | cons a as ih =>
    cases h with
    | cons h k =>
      obtain ⟨y, hy, hrest⟩ := ih k
      exact ⟨y, .cons h hy, hrest⟩

lemma Loop.visited (hgood : ∀ b, good b → b.Playable) (h : Loop fuel x as y)
    (hv : Visited good (x.todo, x.engine)) : Visited good (y.todo, y.engine) :=
  hv.beats (h.beats hgood hv)

end

/-- **One slice a frame.** A frame that is not given up goes through a loop. In this loop the numbers of
the threads that have slices rise, so none has two. At any moment of it a thread that is not finished had
its slice already, or it waits in its place until its slice begins, it is finished or everything is to
stop; if everything stopped already, it may be left out. What a thread asks for in its slice is handled
right after it, which leads to no further requests. -/
theorem one_slice_a_frame {e : Engine} (h : Played BlockMap.Playable e) {fuel : Nat}
    (hf : (e.step fuel).fault ≠ some .overrun) :
    (∃ as z, Loop fuel ⟨0, [], e.evaluateEdges fuel⟩ as z ∧ z.IsOver ∧
      e.step fuel = z.engine.settled) ∧
    ∀ as z, Loop fuel ⟨0, [], e.evaluateEdges fuel⟩ as z → z.IsOver →
      (slices as).Pairwise (· < ·) ∧
      (∀ pre x post, as = pre ++ post → Loop fuel ⟨0, [], e.evaluateEdges fuel⟩ pre x →
        Loop fuel x post z → x.engine.world.requests = [] ∧
        ∀ i t, x.engine.threads[i]? = some t → t.isFinished = false →
          t.id ∈ slices pre ∨ .handle .stopAll ∈ pre ∨ x.position ≤ i ∧ AwaitsTurn fuel x post i t) ∧
      ∀ pre id asked post, as = pre ++ .slice id asked :: post →
        ∃ rest, post = asked.map .handle ++ rest := by
  have hgood : ∀ b : BlockMap, b.Playable → b.Playable := fun _ hb => hb
  have hv := h.visited hgood
  obtain ⟨hedges, hexists⟩ := exists_loop_step (hv.sound hgood).2.1 (hv.fault_step hgood hf)
  have hv' := hv.beats (beats_evaluateEdges hgood hv fuel hedges)
  refine ⟨hexists, fun as z hloop hz => ⟨?_, ?_, ?_⟩⟩
  · have hstart : InOrder [] ⟨0, [], e.evaluateEdges fuel⟩ := ⟨.nil, nofun, nofun⟩
    exact (hloop.inOrder hgood hv' hstart).rising
  · rintro pre x post - hpre hpost
    refine ⟨((hpre.visited hgood hv').sound hgood).1.idle, fun i t ht hunf => ?_⟩
    have hstart : Served [] ⟨0, [], e.evaluateEdges fuel⟩ := ⟨Nat.zero_le _, nofun⟩
    rcases hpre.served (Or.inr hstart) with hstop | hserved
    · exact Or.inr (Or.inl hstop)
    · rcases Nat.lt_or_ge i x.position with hi | hi
      · exact Or.inl (hserved.behind hi ht hunf)
      · exact Or.inr (Or.inr ⟨hi, hpost.awaitsTurn hz hi ht hunf⟩)
  · rintro pre id asked post rfl
    obtain ⟨x, -, hpost⟩ := hloop.split
    cases hpost with
    | cons hslice hrest =>
      cases hslice
      exact hrest.handles hz

/-- A sprite clones itself at the green flag. Its thread waits for its slice, which starts another. -/
theorem one_slice_a_frame_breeds : ∃ e as z t, Played BlockMap.Playable e ∧
    (e.step 100).fault = none ∧ e.threads.length = 1 ∧ (e.step 100).threads.map (·.id) = [2] ∧
    Loop 100 ⟨0, [], e.evaluateEdges 100⟩ as z ∧ z.IsOver ∧ e.step 100 = z.engine.settled ∧
    (slices as).Pairwise (· < ·) ∧ (e.evaluateEdges 100).threads[0]? = some t ∧
    t.isFinished = false ∧ AwaitsTurn 100 ⟨0, [], e.evaluateEdges 100⟩ as 0 t := by
  have hstart := (((Played.new {} {}).play (.add _ { name := "Cat", isStage := false, blocks := breeds }
    playable_breeds)).play (.compile _)).play (.start _)
  obtain ⟨e, he, hfault, hlen, hids, hone⟩ : ∃ e, Played BlockMap.Playable e ∧
      (e.step 100).fault = none ∧ e.threads.length = 1 ∧ (e.step 100).threads.map (·.id) = [2] ∧
      (e.evaluateEdges 100).threads.map (·.isFinished) = [false] :=
    ⟨_, hstart, by decide +kernel⟩
  have hrun : (e.step 100).fault ≠ some .overrun := by simp [hfault]
  obtain ⟨⟨as, z, hloop, hz, heq⟩, hall⟩ := one_slice_a_frame he hrun
  obtain ⟨hrising, hserved, -⟩ := hall as z hloop hz
  obtain ⟨t, ht, hunf⟩ : ∃ t, (e.evaluateEdges 100).threads[0]? = some t ∧ t.isFinished = false := by
    obtain ⟨t, ht, hunf⟩ := List.map_eq_singleton_iff.1 hone
    exact ⟨t, by rw [ht]; rfl, hunf⟩
  refine ⟨e, as, z, t, he, hfault, hlen, hids, hloop, hz, heq, hrising, ht, hunf, ?_⟩
  have hwaits := (hserved [] _ as rfl (.nil _) hloop).2 0 t ht hunf
  simpa [slices] using hwaits

end Blockwork.Engine
