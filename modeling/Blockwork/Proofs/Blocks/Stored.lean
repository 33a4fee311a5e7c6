import Blockwork.Project
import Blockwork.Proofs.Blocks.Commands
import Mathlib.Data.String.Basic

/-!
Blocks that come from the text of a project. The members of an object are kept in the order of their
keys, no key twice, so the blocks of every target are stored under their own ids.
-/

namespace Blockwork

namespace Dictionary

variable {α : Type}

lemma mem_insertEntry {key : String} {a : α} {entries : List (String × α)} {x : String × α}
    (h : x ∈ insertEntry key a entries) : x = (key, a) ∨ x ∈ entries := by
  induction entries with
  | nil => simpa [insertEntry] using h
  | cons e rest ih =>
    obtain ⟨k, b⟩ := e
    rw [insertEntry] at h
    split at h
    · rcases List.mem_cons.1 h with h | h
      · exact Or.inl h
      · exact Or.inr (List.mem_cons_of_mem _ h)
    · split at h
      · exact List.mem_cons.1 h
      · rcases List.mem_cons.1 h with h | h
        · exact Or.inr (h ▸ List.mem_cons_self)
        · exact (ih h).imp_right (List.mem_cons_of_mem _)

/-- A write keeps the order of the keys. -/
lemma sorted_insertEntry (key : String) (a : α) {entries : List (String × α)}
    (h : entries.Pairwise (·.1 < ·.1)) : (insertEntry key a entries).Pairwise (·.1 < ·.1) := by
  induction entries with
  | nil => simp [insertEntry]
  | cons e rest ih =>
    obtain ⟨k, b⟩ := e
    obtain ⟨hfirst, hrest⟩ := List.pairwise_cons.1 h
    rw [insertEntry]
    split
    · next hk =>
      subst hk
      exact List.pairwise_cons.2 ⟨hfirst, hrest⟩
    · next hne =>
      split
      · next hlt =>
        refine List.pairwise_cons.2 ⟨fun x hx => ?_, h⟩
        rcases List.mem_cons.1 hx with rfl | hx
        · exact hlt
        · exact lt_trans hlt (hfirst x hx)
      · next hge =>
        refine List.pairwise_cons.2 ⟨fun x hx => ?_, ih hrest⟩
        rcases mem_insertEntry hx with rfl | hx
        · exact lt_of_le_of_ne (not_lt.1 hge) (Ne.symm hne)
        · exact hfirst x hx

lemma nodup_keys_ofList (entries : List (String × α)) : (ofList entries).keys.Nodup := by
  have hsorted : ∀ d : Dictionary α, d.entries.Pairwise (·.1 < ·.1) →
      (entries.foldl (fun d (x : String × α) => d.insert x.1 x.2) d).entries.Pairwise (·.1 < ·.1) := by
    induction entries with
    | nil => exact fun _ h => h
    | cons x rest ih => exact fun d h => ih _ (sorted_insertEntry x.1 x.2 h)
  have := hsorted empty List.Pairwise.nil
  exact List.pairwise_map.2 (this.imp fun hlt => ne_of_lt hlt)

end Dictionary

namespace Project

open Json

/-- What is read one by one. -/
lemma exists_of_mapM {α β : Type} {f : α → Option β} {xs : List α} {ys : List β}
    (h : xs.mapM f = some ys) : ∀ y ∈ ys, ∃ x ∈ xs, f x = some y := by
  induction xs generalizing ys with
  | nil =>
    cases h
    simp
  | cons x rest ih =>
    simp only [List.mapM_cons, Option.bind_eq_bind, Option.bind_eq_some_iff] at h
    obtain ⟨y, hy, zs, hzs, h⟩ := h
    cases h
    intro z hz
    rcases List.mem_cons.1 hz with rfl | hz
    · exact ⟨x, by simp, hy⟩
    · obtain ⟨x', hx', hz'⟩ := ih hzs z hz
      exact ⟨x', by simp [hx'], hz'⟩

lemma nodup_keys_map? {α : Type} {decode : Written → Option α} {w : Option Written}
    {d : Dictionary α} (h : map? decode w = some d) : d.keys.Nodup := by
  unfold map? at h
  split at h
  · cases h
    exact List.nodup_nil
  · obtain ⟨entries, -, rfl⟩ := Option.map_eq_some_iff.1 h
    exact Dictionary.nodup_keys_ofList entries
  · cases h

lemma nodup_keys_target? {w : Written} {s : StoredTarget} (h : target? w = some s) :
    s.blocks.keys.Nodup := by
  simp only [target?, Option.bind_eq_bind, Option.bind_eq_some_iff] at h
  obtain ⟨members, -, h⟩ := h
  split at h
  · simp only [Option.bind_eq_some_iff] at h
    obtain ⟨isStage, -, name, -, vars, -, lists, -, blocks, hblocks, visible, -, x, -, y, -, size, -,
      direction, -, h⟩ := h
    cases h
    exact nodup_keys_map? hblocks
  · cases h

lemma keyed_load? {s : StoredTarget} {t : Target} (h : s.load? = some t)
    (hs : s.blocks.keys.Nodup) : t.blocks.Keyed := by
  simp only [StoredTarget.load?, Option.bind_eq_bind, Option.bind_eq_some_iff] at h
  obtain ⟨blocks, hblocks, h⟩ := h
  have hkeyed := BlockMap.keyed_ofMembers? hblocks hs
  split at h
  · cases h
    exact hkeyed
  · cases h
    simp only [Target.point]
    split <;> exact hkeyed

/-- The blocks of a project are stored under their own ids. -/
lemma keyed_of_read {text : String} {targets : List Target} (h : read text = .ok targets) :
    ∀ t ∈ targets, t.blocks.Keyed := by
  unfold read at h
  split at h
  · cases h
  next stored hstored =>
  split at h
  · split at h
    · next ts hts =>
      cases h
      intro t ht
      obtain ⟨w, -, hw⟩ := Option.bind_eq_some_iff.1 hstored
      simp only [targets?, Option.bind_eq_bind, Option.bind_eq_some_iff] at hw
      obtain ⟨members, -, hw⟩ := hw
      obtain ⟨s, hs, hload⟩ := exists_of_mapM hts t ht
      split at hw
      · obtain ⟨x, -, hx⟩ := exists_of_mapM hw s hs
        exact keyed_load? hload (nodup_keys_target? hx)
      · cases hw
    · cases h
  · cases h

end Project

end Blockwork
