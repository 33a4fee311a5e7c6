import Blockwork.Proofs.World.Layout
import Mathlib.Data.List.Induction
import Mathlib.Order.Bounds.Defs

/-!
The history of an arena. Beside the arena a register is kept: which ids were issued, to whom, and what
became of them. A place is used again under the next generation, so as long as no place was given up
so often that its generation starts over, no id is issued twice, and the arena finds under each id
exactly what the register says.
-/

namespace Blockwork.Arena

variable {a : Arena} {id id' : TargetId} {t : Target}

/-! ### What each operation does to the places -/

lemma tidy_iff : a.Tidy ↔ a.free.Nodup ∧ ∀ i ∈ a.free, ∃ g, a.entries[i]? = some ⟨g, none⟩ := by
  have hvacant : ∀ (i : Nat) g, a.layout.1[i]? = some (g, none) ↔ a.entries[i]? = some ⟨g, none⟩ := by
    intro i g
    simp only [layout, List.getElem?_map]
    cases a.entries[i]? with
    | none => simp
    | some e =>
      obtain ⟨g', x⟩ := e
      simp
  constructor
  · rintro ⟨hn, hv⟩
    exact ⟨hn, fun i hi => (hv i hi).imp fun g => (hvacant i g).1⟩
  · rintro ⟨hn, hv⟩
    exact ⟨hn, fun i hi => (hv i hi).imp fun g => (hvacant i g).2⟩

/-- Whoever moves in takes a vacant place under its generation or, if there is none, a new place. -/
lemma Tidy.insert_cases (h : a.Tidy) (u : Target) : ∃ i g,
    (a.insert u).1 = ⟨i, g⟩ ∧
    (∀ j, (a.insert u).2.entries[j]? = if j = i then some ⟨g, some u⟩ else a.entries[j]?) ∧
    (a.entries[i]? = some ⟨g, none⟩ ∧ a.free = i :: (a.insert u).2.free ∧
        (a.insert u).2.capacity = a.capacity ∨
      i = a.entries.length ∧ g = 0 ∧ a.free = [] ∧ (a.insert u).2.free = [] ∧
        (a.insert u).2.capacity = a.capacity + 1) := by
  unfold Arena.insert
  split
  · next i free hfree =>
    obtain ⟨g, he⟩ := (tidy_iff.1 h).2 i (by simp [hfree])
    have hlt := (List.getElem?_eq_some_iff.1 he).1
    refine ⟨i, g, by simp [he], fun j => ?_, Or.inl ⟨he, hfree, by simp [capacity]⟩⟩
    simp only [he, Option.map_some, Option.getD_some]
    rw [List.getElem?_set]
    by_cases hj : i = j
    · simp [hj, hj ▸ hlt]
    · simp [hj, Ne.symm hj]
  · next hfree =>
    refine ⟨_, 0, rfl, fun j => ?_, Or.inr ⟨rfl, rfl, hfree, rfl, by simp [capacity]⟩⟩
    simp only
    rcases Nat.lt_trichotomy j a.entries.length with hj | rfl | hj
    · rw [List.getElem?_append_left hj, if_neg (Nat.ne_of_lt hj)]
    · simp
    · rw [if_neg (Nat.ne_of_gt hj), List.getElem?_eq_none (Nat.le_of_lt hj), List.getElem?_eq_none]
      rw [List.length_append]
      exact hj

/-- The new id finds the new target, and the others find what they found. -/
lemma Tidy.get?_insert_eq (h : a.Tidy) (u : Target) (id : TargetId) :
    (a.insert u).2.get? id = if id = (a.insert u).1 then some u else a.get? id := by
  obtain ⟨i, g, hid, hentries, hplace⟩ := h.insert_cases u
  rw [hid]
  ext t
  rw [get?_eq_some_iff, hentries]
  split
  · next hi =>
    -- nobody was found at this place before
    have hnone : a.get? id = none := by
      rw [Option.eq_none_iff_forall_ne_some]
      intro t' ht'
      have he' := get?_eq_some_iff.1 ht'
      rcases hplace with ⟨he, -⟩ | ⟨rfl, -⟩
      · rw [hi, he] at he'
        cases he'
      · rw [hi] at he'
        simp at he'
    obtain ⟨j, g'⟩ := id
    simp only at hi
    subst hi
    by_cases hg : g = g'
    · simp [hg]
    · simp [hg, Ne.symm hg, hnone]
  · next hi =>
    rw [if_neg (by rintro rfl; exact hi rfl), get?_eq_some_iff]

lemma take_of_get?_eq_some (h : a.get? id = some t) : a.take id =
    (some t, ⟨a.entries.set id.index ⟨id.generation + 1, none⟩, id.index :: a.free⟩) := by
  simp [take, h]

lemma take_of_get?_eq_none (h : a.get? id = none) : a.take id = (none, a) := by
  simp [take, h]

lemma fst_take (a : Arena) (id : TargetId) : (a.take id).1 = a.get? id := by
  cases h : a.get? id with
  | none => rw [take_of_get?_eq_none h]
  | some t => rw [take_of_get?_eq_some h]

lemma get?_modify (a : Arena) (id id' : TargetId) (f : Target → Target) :
    (a.modify id f).get? id' = if id' = id then (a.get? id').map f else a.get? id' := by
  split
  · next hsame =>
    subst hsame
    cases h : a.get? id' with
    | none => rw [modify_of_get?_eq_none h, h]; rfl
    | some t => rw [get?_modify_self h]; rfl
  · next hne => exact get?_modify_ne hne f

/-- The entry of a live target is replaced. -/
lemma getElem?_set_of_get? (h : a.get? id = some t) (e : Entry) (i : Nat) :
    (a.entries.set id.index e)[i]? = if i = id.index then some e else a.entries[i]? := by
  have hlt := (List.getElem?_eq_some_iff.1 (get?_eq_some_iff.1 h)).1
  rw [List.getElem?_set]
  by_cases hi : id.index = i
  · simp [hi, hi ▸ hlt]
  · simp [hi, Ne.symm hi]

/-! ### Live targets in order -/

lemma live_eq (a : Arena) : a.live =
    a.entries.zipIdx.filterMap fun x => x.1.target.map fun t => (⟨x.2, x.1.generation⟩, t) := rfl

/-- The live targets stand in the order of their places. -/
lemma pairwise_live (a : Arena) : a.live.Pairwise (·.1.index < ·.1.index) := by
  rw [live_eq, List.pairwise_filterMap]
  have hrising : a.entries.zipIdx.Pairwise (·.2 < ·.2) := by
    rw [List.pairwise_iff_getElem]
    intro i j hi hj hij
    simpa using hij
  refine hrising.imp fun {x y} hxy b hb b' hb' => ?_
  obtain ⟨t, -, rfl⟩ := Option.map_eq_some_iff.1 hb
  obtain ⟨t', -, rfl⟩ := Option.map_eq_some_iff.1 hb'
  exact hxy

lemma size_le_capacity (a : Arena) : a.size ≤ a.capacity := by
  have h := List.length_filterMap_le
    (fun x : Entry × Nat => x.1.target.map fun t => ((⟨x.2, x.1.generation⟩ : TargetId), t))
    a.entries.zipIdx
  rwa [List.length_zipIdx] at h

/-- Without a vacant place as many live as there are places. -/
lemma size_eq_capacity (h : ∀ (i : Nat) g, a.entries[i]? ≠ some ⟨g, none⟩) : a.size = a.capacity := by
  have hall : ∀ x ∈ a.entries.zipIdx,
      (x.1.target.map fun t => ((⟨x.2, x.1.generation⟩ : TargetId), t)).isSome = true := by
    rintro ⟨⟨g, x⟩, i⟩ hx
    cases x with
    | none => exact absurd (List.mk_mem_zipIdx_iff_getElem?.1 hx) (h i g)
    | some t => rfl
  rw [size, live_eq, List.length_filterMap_eq_countP, List.countP_eq_length.2 hall,
    List.length_zipIdx]
  rfl

/-! ### Histories -/

/-- Something that is done to an arena. -/
inductive Deed where
  | insert (t : Target)
  | take (id : TargetId)
  | modify (id : TargetId) (f : Target → Target)

/-- An arena with its history. -/
structure Chronicle where
  arena : Arena := .empty
  /-- Every id that was issued, with the target under it as long as it is there. -/
  register : List (TargetId × Option Target) := []
  /-- The places that were given up, one entry for each time. -/
  freed : List Nat := []

namespace Chronicle

/-- Changes what is registered under an id. -/
def revise (register : List (TargetId × Option Target)) (id : TargetId)
    (f : Option Target → Option Target) : List (TargetId × Option Target) :=
  register.map fun x => (x.1, if x.1 = id then f x.2 else x.2)

def note (c : Chronicle) : Deed → Chronicle
  | .insert t => { c with
      arena := (c.arena.insert t).2
      register := c.register ++ [((c.arena.insert t).1, some t)] }
  | .take id =>
    { arena := (c.arena.take id).2
      register := revise c.register id fun _ => none
      freed := if (c.arena.take id).1.isSome then id.index :: c.freed else c.freed }
  | .modify id f => { c with
      arena := c.arena.modify id f
      register := revise c.register id (Option.map f) }

/-- The history of an arena that was empty at first. -/
def of (ds : List Deed) : Chronicle := ds.foldl note {}

lemma of_concat (ds : List Deed) (d : Deed) : of (ds ++ [d]) = (of ds).note d := by
  rw [of, List.foldl_append]
  rfl

lemma mem_revise {register : List (TargetId × Option Target)} {id id' : TargetId}
    {f : Option Target → Option Target} {y : Option Target} :
    (id', y) ∈ revise register id f ↔
      ∃ x, (id', x) ∈ register ∧ y = if id' = id then f x else x := by
  simp only [revise, List.mem_map, Prod.mk.injEq, Prod.exists]
  constructor
  · rintro ⟨id', x, hx, rfl, rfl⟩
    exact ⟨x, hx, rfl⟩
  · rintro ⟨x, hx, rfl⟩
    exact ⟨id', x, hx, rfl, rfl⟩

lemma ids_revise (register : List (TargetId × Option Target)) (id : TargetId)
    (f : Option Target → Option Target) :
    (revise register id f).map (·.1) = register.map (·.1) := by
  simp [revise]

/-- The arena is as its history says. The generation of a place counts how often it was given up, and
all ids that were issued for it are older, or the one it has now. -/
structure Holds (c : Chronicle) : Prop where
  nodup : c.arena.free.Nodup
  vacant : ∀ i, i ∈ c.arena.free ↔ ∃ g, c.arena.entries[i]? = some ⟨g, none⟩
  counted : ∀ i, c.freed.count i = ((c.arena.entries[i]?).map (·.generation.toNat)).getD 0
  found : ∀ id t, c.arena.get? id = some t ↔ (id, some t) ∈ c.register
  once : (c.register.map (·.1)).Nodup
  issued : ∀ x ∈ c.register.map (·.1), ∃ e, c.arena.entries[x.index]? = some e ∧
    (x.generation.toNat < e.generation.toNat ∨ x.generation = e.generation ∧ e.target ≠ none)

variable {c : Chronicle}

lemma Holds.once_revise (h : c.Holds) (id : TargetId) (f : Option Target → Option Target) :
    ((revise c.register id f).map (·.1)).Nodup := by
  rw [ids_revise]
  exact h.once

/-- Nothing happens under an id that is not found. -/
lemma Holds.missed (h : c.Holds) {id : TargetId} {f : Option Target → Option Target}
    (hfound : ∀ id' t, c.arena.get? id' = some t ↔ (id', some t) ∈ revise c.register id f) :
    Holds { c with register := revise c.register id f } := by
  refine ⟨h.nodup, h.vacant, h.counted, hfound, h.once_revise id f, ?_⟩
  rw [ids_revise]
  exact h.issued

lemma Holds.tidy (h : c.Holds) : c.arena.Tidy :=
  tidy_iff.2 ⟨h.nodup, fun i hi => (h.vacant i).1 hi⟩

/-- No id is issued twice. -/
lemma Holds.fresh (h : c.Holds) (t : Target) : (c.arena.insert t).1 ∉ c.register.map (·.1) := by
  obtain ⟨i, g, hid, -, hplace⟩ := h.tidy.insert_cases t
  intro hmem
  obtain ⟨e, he, hgen⟩ := h.issued _ hmem
  rw [hid] at he hgen
  rcases hplace with ⟨hvacant, -⟩ | ⟨rfl, -⟩
  · rw [hvacant] at he
    cases he
    simp at hgen
  · simp at he

lemma Holds.insert (h : c.Holds) (t : Target) : (c.note (.insert t)).Holds := by
  obtain ⟨i, g, hid, hentries, hplace⟩ := h.tidy.insert_cases t
  have hget := h.tidy.get?_insert_eq t
  have hfresh := h.fresh t
  obtain ⟨hnodup, hvacant⟩ := tidy_iff.1 (h.tidy.insert t)
  refine ⟨hnodup, fun j => ⟨hvacant j, ?_⟩, fun j => ?_, fun id u => ?_, ?_, fun x hx => ?_⟩
  · rintro ⟨g', hj⟩
    simp only [note, hentries] at hj
    split at hj
    · cases hj
    · next hne =>
      have hfree := (h.vacant j).2 ⟨g', hj⟩
      rcases hplace with ⟨-, hcons, -⟩ | ⟨-, -, hnil, -⟩
      · rw [hcons] at hfree
        exact (List.mem_cons.1 hfree).resolve_left hne
      · rw [hnil] at hfree
        cases hfree
  · have hcount := h.counted j
    simp only [note, hentries]
    split
    · next hj =>
      rw [hcount, hj]
      rcases hplace with ⟨hvacant, -⟩ | ⟨rfl, rfl, -⟩
      · rw [hvacant]
        rfl
      · simp
    · exact hcount
  · simp only [note, hget, List.mem_append, List.mem_singleton, Prod.mk.injEq, Option.some.injEq]
    split
    · next hsame =>
      constructor
      · rintro ⟨⟩
        exact Or.inr ⟨hsame, rfl⟩
      · rintro (hmem | ⟨-, rfl⟩)
        · exact absurd (List.mem_map_of_mem hmem) (hsame ▸ hfresh)
        · rfl
    · next hne =>
      rw [h.found]
      exact (or_iff_left fun hnew => hne hnew.1).symm
  · simp only [note, List.map_append, List.map_cons, List.map_nil]
    exact List.nodup_append.2 ⟨h.once, by simp, fun x hx y hy hxy =>
      hfresh (by rwa [← List.mem_singleton.1 hy, ← hxy])⟩
  · simp only [note, List.map_append, List.map_cons, List.map_nil, List.mem_append,
      List.mem_singleton] at hx
    simp only [note, hentries]
    rcases hx with hx | rfl
    · obtain ⟨e, he, hgen⟩ := h.issued x hx
      split
      · next hi =>
        -- an older id of the place that is used again
        rcases hplace with ⟨hvacant, -⟩ | ⟨rfl, -⟩
        · rw [hi, hvacant] at he
          cases he
          exact ⟨_, rfl, Or.inl (hgen.resolve_right fun hnow => hnow.2 rfl)⟩
        · rw [hi] at he
          simp at he
      · exact ⟨e, he, hgen⟩
    · rw [hid]
      exact ⟨_, if_pos rfl, Or.inr ⟨rfl, by simp⟩⟩

lemma Holds.take (h : c.Holds) (id : TargetId)
    (hfew : (c.note (.take id)).freed.count id.index < UInt32.size) : (c.note (.take id)).Holds := by
  have hfound : ∀ id' t, (c.arena.take id).2.get? id' = some t ↔
      (id', some t) ∈ revise c.register id fun _ => none := by
    intro id' t
    have hremove := get?_remove c.arena id id'
    rw [remove] at hremove
    rw [hremove, mem_revise]
    split
    · simp
    · rw [h.found]
      simp
  cases hget : c.arena.get? id with
  | none =>
    simp only [note, take_of_get?_eq_none hget] at hfound ⊢
    exact h.missed hfound
  | some t =>
    have he := get?_eq_some_iff.1 hget
    obtain ⟨hnodup, hvacant⟩ := tidy_iff.1 (h.tidy.remove id)
    rw [remove] at hnodup hvacant
    have hcount := h.counted id.index
    rw [he] at hcount
    have hcount : c.freed.count id.index = id.generation.toNat := hcount
    simp only [note, take_of_get?_eq_some hget] at hfew hfound hnodup hvacant ⊢
    -- the generation does not start over
    have hnext : (id.generation + 1).toNat = id.generation.toNat + 1 := by
      simp only [Option.isSome_some, if_true, List.count_cons_self, hcount] at hfew
      rw [UInt32.toNat_add]
      exact Nat.mod_eq_of_lt hfew
    refine ⟨hnodup, fun i => ⟨hvacant i, ?_⟩, fun i => ?_, hfound,
      h.once_revise id fun _ => none, fun x hx => ?_⟩
    · rintro ⟨g, hi⟩
      simp only [getElem?_set_of_get? hget] at hi
      split at hi
      · next hsame => exact hsame ▸ List.mem_cons_self
      · exact List.mem_cons_of_mem _ ((h.vacant i).2 ⟨g, hi⟩)
    · simp only [getElem?_set_of_get? hget, Option.isSome_some, if_true]
      split
      · next hsame => simp [hsame, hcount, hnext]
      · next hne => rw [List.count_cons_of_ne (Ne.symm hne), h.counted]
    · rw [ids_revise] at hx
      obtain ⟨e, hx, hgen⟩ := h.issued x hx
      simp only [getElem?_set_of_get? hget]
      split
      · next hsame =>
        rw [hsame, he] at hx
        cases hx
        refine ⟨_, rfl, Or.inl ?_⟩
        rw [hnext]
        rcases hgen with hlt | ⟨hsame, -⟩
        · exact Nat.lt_succ_of_lt hlt
        · rw [hsame]
          exact Nat.lt_succ_self _
      · exact ⟨e, hx, hgen⟩

lemma Holds.modify (h : c.Holds) (id : TargetId) (f : Target → Target) :
    (c.note (.modify id f)).Holds := by
  have hfound : ∀ id' t, (c.arena.modify id f).get? id' = some t ↔
      (id', some t) ∈ revise c.register id (Option.map f) := by
    intro id' t
    rw [get?_modify, mem_revise]
    split
    · rw [Option.map_eq_some_iff]
      constructor
      · rintro ⟨u, hu, rfl⟩
        exact ⟨some u, (h.found id' u).1 hu, rfl⟩
      · rintro ⟨u, hu, heq⟩
        obtain ⟨u, rfl, hfu⟩ := Option.map_eq_some_iff.1 heq.symm
        exact ⟨u, (h.found id' u).2 hu, hfu⟩
    · rw [h.found]
      simp
  cases hget : c.arena.get? id with
  | none =>
    simp only [note, modify_of_get?_eq_none hget] at hfound ⊢
    exact h.missed hfound
  | some t =>
    have he := get?_eq_some_iff.1 hget
    simp only [note, modify_of_get?_eq_some hget] at hfound ⊢
    refine ⟨h.nodup, fun i => ?_, fun i => ?_, hfound, h.once_revise id (Option.map f),
      fun x hx => ?_⟩
    · rw [h.vacant i]
      simp only [getElem?_set_of_get? hget]
      split
      · next hsame => simp [hsame, he]
      · rfl
    · rw [h.counted]
      simp only [getElem?_set_of_get? hget]
      split
      · next hsame => rw [hsame, he]; rfl
      · rfl
    · rw [ids_revise] at hx
      obtain ⟨e, hx, hgen⟩ := h.issued x hx
      simp only [getElem?_set_of_get? hget]
      split
      · next hsame =>
        rw [hsame, he] at hx
        cases hx
        exact ⟨_, rfl, hgen.imp_right fun hnow => ⟨hnow.1, by simp⟩⟩
      · exact ⟨e, hx, hgen⟩

/-- A place that was given up stays counted. -/
lemma count_freed_le (c : Chronicle) (d : Deed) (i : Nat) :
    c.freed.count i ≤ (c.note d).freed.count i := by
  cases d with
  | insert | modify => exact Nat.le_refl _
  | take id =>
    simp only [note]
    split
    · exact List.count_le_count_cons
    · exact Nat.le_refl _

lemma holds_empty : Holds {} :=
  ⟨.nil, by simp [Arena.empty], by simp [Arena.empty], by simp [Arena.empty, get?], by simp, by simp⟩

lemma holds_of (ds : List Deed) (h : ∀ i, (of ds).freed.count i < UInt32.size) : (of ds).Holds := by
  induction ds using List.reverseRecOn with
  | nil => exact holds_empty
  | append_singleton ds d ih =>
    rw [of_concat] at h ⊢
    have hbefore := ih fun i => Nat.lt_of_le_of_lt (count_freed_le _ d i) (h i)
    cases d with
    | insert t => exact hbefore.insert t
    | take id => exact hbefore.take id (h id.index)
    | modify id f => exact hbefore.modify id f

/-! ### The number of places -/

/-- A place is added only when all places are taken, by one more. -/
lemma Holds.capacity_note (h : c.Holds) (d : Deed) :
    (c.note d).arena.capacity = c.arena.capacity ∨
      (c.note d).arena.capacity = c.arena.capacity + 1 ∧
        (c.note d).arena.size = (c.note d).arena.capacity := by
  cases d with
  | insert t =>
    obtain ⟨i, g, -, hentries, ⟨-, -, hsame⟩ | ⟨-, -, hnil, -, hmore⟩⟩ := h.tidy.insert_cases t
    · exact Or.inl hsame
    · refine Or.inr ⟨hmore, size_eq_capacity fun j g' hj => ?_⟩
      simp only [note, hentries] at hj
      split at hj
      · cases hj
      · have hfree := (h.vacant j).2 ⟨g', hj⟩
        rw [hnil] at hfree
        cases hfree
  | take id =>
    left
    cases hget : c.arena.get? id with
    | none => simp only [note, take_of_get?_eq_none hget]
    | some t => simp [note, take_of_get?_eq_some hget, capacity]
  | modify id f =>
    left
    cases hget : c.arena.get? id with
    | none => simp only [note, modify_of_get?_eq_none hget]
    | some t => simp [note, modify_of_get?_eq_some hget, capacity]

/-- There are as many places as targets lived at the same time when there were most. -/
lemma isGreatest_capacity (ds : List Deed) (h : ∀ i, (of ds).freed.count i < UInt32.size) :
    IsGreatest { n | ∃ pre, pre <+: ds ∧ (of pre).arena.size = n } (of ds).arena.capacity := by
  induction ds using List.reverseRecOn with
  | nil =>
    refine ⟨⟨[], List.prefix_rfl, rfl⟩, ?_⟩
    rintro n ⟨pre, hpre, rfl⟩
    rw [List.prefix_nil.1 hpre]
    exact size_le_capacity _
  | append_singleton ds d ih =>
    have hbefore : ∀ i, (of ds).freed.count i < UInt32.size := fun i =>
      Nat.lt_of_le_of_lt (of_concat ds d ▸ count_freed_le (of ds) d i) (h i)
    obtain ⟨⟨most, hmost, hsize⟩, hupper⟩ := ih hbefore
    have hcapacity := (holds_of ds hbefore).capacity_note d
    rw [← of_concat] at hcapacity
    constructor
    · rcases hcapacity with hsame | ⟨-, hfull⟩
      · exact ⟨most, hmost.trans (List.prefix_append _ _), hsize.trans hsame.symm⟩
      · exact ⟨ds ++ [d], List.prefix_rfl, hfull⟩
    · rintro n ⟨pre, hpre, rfl⟩
      rcases List.prefix_concat_iff.1 hpre with rfl | hpre
      · exact size_le_capacity _
      · have hle := hupper ⟨pre, hpre, rfl⟩
        rcases hcapacity with hsame | ⟨hmore, -⟩
        · exact hsame ▸ hle
        · exact hmore ▸ Nat.le_succ_of_le hle

end Chronicle

open Chronicle (of)

/-- **The arena keeps what it is given.** Whatever was done to it since it was empty, as long as no place
was given up 2^32 times: the free places are those without a target, each named once; no id was issued
twice; an id finds the target that was let in under it, as it was changed since, until it is taken out,
and nothing else; to take out what is not there changes nothing; what is done under one id is not seen
under another; the live targets are listed once each, in the order of their places; and there are as
many places as there ever were targets at the same time. -/
theorem found_as_registered (ds : List Deed) (h : ∀ i, (of ds).freed.count i < UInt32.size) :
    ((of ds).arena.free.Nodup ∧ ∀ i, i ∈ (of ds).arena.free ↔
      ∃ e, (of ds).arena.entries[i]? = some e ∧ e.target = none) ∧
    ((of ds).register.map (·.1)).Nodup ∧
    (∀ id t, (of ds).arena.get? id = some t ↔ (id, some t) ∈ (of ds).register) ∧
    (∀ id, ((of ds).arena.take id).1 = (of ds).arena.get? id ∧
      ((of ds).arena.get? id = none → ((of ds).arena.take id).2 = (of ds).arena)) ∧
    (∀ t, ∀ id ≠ ((of ds).arena.insert t).1,
      ((of ds).arena.insert t).2.get? id = (of ds).arena.get? id) ∧
    (∀ id, ∀ id' ≠ id, ((of ds).arena.take id).2.get? id' = (of ds).arena.get? id') ∧
    (∀ id f, ∀ id' ≠ id, ((of ds).arena.modify id f).get? id' = (of ds).arena.get? id') ∧
    ((of ds).arena.live.Pairwise (·.1.index < ·.1.index) ∧
      ∀ id t, (id, t) ∈ (of ds).arena.live ↔ (of ds).arena.get? id = some t) ∧
    IsGreatest { n | ∃ pre, pre <+: ds ∧ (of pre).arena.size = n } (of ds).arena.capacity := by
  have hholds := Chronicle.holds_of ds h
  refine ⟨⟨hholds.nodup, fun i => ?_⟩, hholds.once, hholds.found, fun id => ⟨fst_take _ id, fun hnone => ?_⟩,
    fun t id hne => ?_, fun id id' hne => ?_, fun id f id' hne => get?_modify_ne hne f,
    ⟨pairwise_live _, fun id t => mem_live⟩, Chronicle.isGreatest_capacity ds h⟩
  · rw [hholds.vacant]
    constructor
    · rintro ⟨g, he⟩
      exact ⟨_, he, rfl⟩
    · rintro ⟨⟨g, x⟩, he, rfl⟩
      exact ⟨g, he⟩
  · rw [take_of_get?_eq_none hnone]
  · rw [hholds.tidy.get?_insert_eq, if_neg hne]
  · have hremove := get?_remove (of ds).arena id id'
    rwa [if_neg hne] at hremove

/-- A stage and a cat; the cat leaves and a dog moves in, which is not found under the cat's id. -/
theorem found_as_registered_reused :
    let ds : List Deed := [.insert { name := "Stage", isStage := true },
      .insert { name := "Cat", isStage := false }, .take ⟨1, 0⟩,
      .insert { name := "Dog", isStage := false }, .take ⟨1, 0⟩,
      .modify ⟨1, 1⟩ fun t => { t with x := 10 }]
    (∀ i, (of ds).freed.count i < UInt32.size) ∧
    (of ds).register.map (fun x => (x.1, x.2.map (·.name))) =
      [(⟨0, 0⟩, some "Stage"), (⟨1, 0⟩, none), (⟨1, 1⟩, some "Dog")] ∧
    (∀ id t, (of ds).arena.get? id = some t ↔ (id, some t) ∈ (of ds).register) ∧
    IsGreatest { n | ∃ pre, pre <+: ds ∧ (of pre).arena.size = n } 2 := by
  intro ds
  have hfreed : (of ds).freed = [1] := by rfl
  have hfew : ∀ i, (of ds).freed.count i < UInt32.size := by
    intro i
    rw [hfreed]
    exact Nat.lt_of_le_of_lt List.count_le_length (by decide)
  obtain ⟨-, -, hfound, -, -, -, -, -, hgreatest⟩ := found_as_registered ds hfew
  exact ⟨hfew, by rfl, hfound, hgreatest⟩

end Blockwork.Arena
