import Blockwork.Proofs.Machine.Clones
import Blockwork.Proofs.World.Generations

/-!
Clones and their originals. A clone is made of a sprite or of another clone, but it always belongs to
the original, and this one is never deleted. So whatever a machine does, every clone has its original,
which is a sprite with the same name and blocks; and there are never more clones than allowed, for
whoever comes last is refused.
-/

namespace Blockwork

namespace Arena

variable {a a' : Arena} {id : TargetId} {t u : Target}

lemma role?_eq_some {role : Target.Role} :
    a.role? id = some role ↔ ∃ t, a.get? id = some t ∧ t.role = role :=
  Option.map_eq_some_iff

lemma origin?_eq_some {o : Option TargetId} :
    a.origin? id = some o ↔ ∃ role, a.role? id = some role ∧ role.cloneOf = o := by
  unfold origin? role?
  cases a.get? id <;> simp [Target.role]

lemma contains_eq_role? (a : Arena) (id : TargetId) : a.contains id = (a.role? id).isSome := by
  unfold contains role?
  rw [Option.isSome_map]

/-- Nobody is found under an id before it is issued. -/
lemma Tidy.get?_fst_insert (h : a.Tidy) (u : Target) : a.get? (a.insert u).1 = none := by
  obtain ⟨i, g, hid, -, hplace⟩ := h.insert_cases u
  rw [hid, Option.eq_none_iff_forall_ne_some]
  intro t ht
  have he := get?_eq_some_iff.1 ht
  rcases hplace with ⟨hi, -⟩ | ⟨rfl, -⟩
  · rw [hi] at he
    cases he
  · simp at he

lemma Tidy.role?_insert (h : a.Tidy) (u : Target) (id : TargetId) :
    (a.insert u).2.role? id = if id = (a.insert u).1 then some u.role else a.role? id := by
  unfold role?
  rw [h.get?_insert_eq]
  split <;> rfl

lemma role?_remove (a : Arena) (id id' : TargetId) :
    (a.remove id).role? id' = if id' = id then none else a.role? id' := by
  unfold role?
  rw [get?_remove]
  split <;> rfl

/-! ### Counting clones -/

/-- The clones are counted place by place. -/
lemma cloneCount_eq (a : Arena) :
    a.cloneCount = a.entries.countP fun e => e.target.any (·.isClone) := by
  unfold cloneCount
  rw [live_eq, List.countP_filterMap]
  calc a.entries.zipIdx.countP (fun x => ((x.1.target.map fun t =>
          ((⟨x.2, x.1.generation⟩ : TargetId), t)).map (·.2.isClone)).getD false)
      = a.entries.zipIdx.countP ((fun e : Entry => e.target.any (·.isClone)) ∘ Prod.fst) := by
        congr 1
        funext ⟨⟨g, x⟩, i⟩
        cases x <;> rfl
    _ = a.entries.countP fun e => e.target.any (·.isClone) := by
        rw [← List.countP_map, List.zipIdx_map_fst]

lemma cloneCount_congr (h : a'.roster = a.roster) : a'.cloneCount = a.cloneCount := by
  have hroles : ∀ b : Arena, b.cloneCount = b.roster.1.countP fun x => x.2.any (·.cloneOf.isSome) := by
    intro b
    rw [cloneCount_eq, roster, List.countP_map]
    congr 1
    funext e
    cases h : e.target <;> simp [h, Target.role, Target.isClone]
  rw [hroles, hroles, h]

lemma Tidy.cloneCount_insert (h : a.Tidy) (u : Target) :
    (a.insert u).2.cloneCount = a.cloneCount + if u.isClone then 1 else 0 := by
  rw [cloneCount_eq, cloneCount_eq]
  unfold Arena.insert
  split
  · next i free hfree =>
    obtain ⟨g, he⟩ := (tidy_iff.1 h).2 i (by simp [hfree])
    obtain ⟨hlt, hget⟩ := List.getElem?_eq_some_iff.1 he
    simp only
    rw [List.countP_set hlt, hget]
    simp
  · simp [List.countP_append, List.countP_singleton]

lemma cloneCount_remove_le (a : Arena) (id : TargetId) :
    (a.remove id).cloneCount ≤ a.cloneCount := by
  rw [remove_eq]
  split
  · next hlive =>
    obtain ⟨t, ht⟩ := Option.isSome_iff_exists.1 hlive
    obtain ⟨hlt, hget⟩ := List.getElem?_eq_some_iff.1 (get?_eq_some_iff.1 ht)
    rw [cloneCount_eq, cloneCount_eq, List.countP_set hlt]
    simp
  · exact Nat.le_refl _

end Arena

namespace World

/-! ### Originals -/

/-- The clones of a world are in order. -/
structure Lineage (w : World) : Prop where
  limit : w.targets.cloneCount ≤ w.config.cloneLimit
  /-- The original of a clone is a sprite like it, and no clone. -/
  rooted : ∀ {id r : TargetId} {role : Target.Role}, w.targets.role? id = some role →
    role.cloneOf = some r → role.isStage = false ∧ w.targets.role? r = some { role with cloneOf := none }
  tidy : w.targets.Tidy

/-- The originals of the first world are in the second, and as many clones may be there. -/
structure Follows (w w' : World) : Prop where
  limit : w'.config.cloneLimit = w.config.cloneLimit
  originals : ∀ {id : TargetId} {role : Target.Role}, w.targets.role? id = some role →
    role.cloneOf = none → w'.targets.role? id = some role

section

variable {self source c : TargetId} {rs : List Request} {w w' w'' : World}

lemma Follows.trans (h : Follows w w') (k : Follows w' w'') : Follows w w'' :=
  ⟨k.limit.trans h.limit, fun hid hnone => k.originals (h.originals hid hnone) hnone⟩

/-- An original stays one. -/
lemma Follows.origin? (h : Follows w w') (ho : w.targets.origin? c = some none) :
    w'.targets.origin? c = some none := by
  obtain ⟨role, hrole, hnone⟩ := Arena.origin?_eq_some.1 ho
  exact Arena.origin?_eq_some.2 ⟨role, h.originals hrole hnone, hnone⟩

lemma follows_of_troupe (h : w'.troupe = w.troupe) : Follows w w' :=
  ⟨congrArg Prod.fst h, fun hid _ => (Arena.role?_congr (congrArg Prod.snd h) _).trans hid⟩

lemma Lineage.congr (h : Lineage w) (ht : w'.troupe = w.troupe) : Lineage w' := by
  have hlimit : w'.config.cloneLimit = w.config.cloneLimit := congrArg Prod.fst ht
  have hroster : w'.targets.roster = w.targets.roster := congrArg Prod.snd ht
  refine ⟨?_, fun hid hr => ?_, h.tidy.congr (layout_of_troupe ht)⟩
  · rw [hlimit, Arena.cloneCount_congr hroster]
    exact h.limit
  · rw [Arena.role?_congr hroster] at hid ⊢
    exact h.rooted hid hr

lemma Lineage.original (h : Lineage w) {id r : TargetId} {t : Target} (ht : w.targets.get? id = some t)
    (hr : t.cloneOf = some r) : ∃ o, w.targets.get? r = some o ∧ o.cloneOf = none ∧
      o.isStage = false ∧ o.name = t.name ∧ o.blocks = t.blocks := by
  obtain ⟨hstage, hroot⟩ := h.rooted (Arena.role?_eq_some.2 ⟨t, ht, rfl⟩) hr
  obtain ⟨o, ho, hrole⟩ := Arena.role?_eq_some.1 hroot
  simp only [Target.role, Target.Role.mk.injEq] at hrole hstage
  obtain ⟨hname, hstage', hblocks, hnone⟩ := hrole
  exact ⟨o, ho, hnone, hstage'.trans hstage, hname, hblocks⟩

/-- A clone is refused when there are too many, when there is nobody to clone, and to the stage. -/
lemma createClone_eq_none_iff : (w.createClone source).1 = none ↔
    w.config.cloneLimit ≤ w.targets.cloneCount ∨ w.targets.get? source = none ∨
      ∃ t, w.targets.get? source = some t ∧ t.isStage = true := by
  unfold createClone
  split
  · next hlimit => simp [hlimit]
  next hlimit =>
  split
  · next hnone => simp [hnone]
  next t ht =>
  split
  · next hstage => simp [ht, hstage]
  · next hstage => simp [hlimit, ht, hstage]

/-- A clone is found under a new id, as its source is at this moment but for the bubble; everyone else
is as before, and a request is left to start its scripts. -/
lemma createClone_spec (h : w.targets.Tidy) (hc : w.createClone source = (some c, w')) :
    ∃ t, w.targets.get? source = some t ∧ w.targets.get? c = none ∧
      w'.targets.get? c = some { t with bubble := none, cloneOf := some (t.cloneOf.getD source) } ∧
      (∀ id ≠ c, w'.targets.get? id = w.targets.get? id) ∧
      w'.requests = w.requests ++ [.startClone c] := by
  obtain ⟨t, ht, -, -, hins, hw'⟩ := createClone_eq_some hc
  have hget := h.get?_insert_eq (t.clone (t.cloneOf.getD source))
  have hnew := h.get?_fst_insert (t.clone (t.cloneOf.getD source))
  rw [hins] at hget hnew
  refine ⟨t, ht, hnew, ?_, fun id hne => ?_, by rw [hw']; rfl⟩
  · rw [hget, if_pos rfl]
    rfl
  · rw [hget, if_neg hne]

/-- Whoever moves in takes nothing from the originals. -/
lemma Lineage.insert (h : Lineage w) {u : Target}
    (hlimit : w.targets.cloneCount + (if u.isClone then 1 else 0) ≤ w.config.cloneLimit)
    (hroot : ∀ r, u.cloneOf = some r →
      u.isStage = false ∧ w.targets.role? r = some { u.role with cloneOf := none })
    (ht : w'.targets = (w.targets.insert u).2) (hl : w'.config.cloneLimit = w.config.cloneLimit) :
    Lineage w' ∧ Follows w w' := by
  have hold : ∀ {id : TargetId} {role : Target.Role}, w.targets.role? id = some role →
      w'.targets.role? id = some role := by
    intro id role hid
    obtain ⟨x, hx, rfl⟩ := Arena.role?_eq_some.1 hid
    rw [ht]
    exact Arena.role?_eq_some.2 ⟨x, h.tidy.get?_insert hx u, rfl⟩
  refine ⟨⟨?_, fun {id r role} hid hr => ?_, ht ▸ h.tidy.insert u⟩, hl, fun hid _ => hold hid⟩
  · rw [hl, ht, h.tidy.cloneCount_insert]
    exact hlimit
  · rw [ht, h.tidy.role?_insert] at hid
    split at hid
    · cases hid
      obtain ⟨hstage, horiginal⟩ := hroot r hr
      exact ⟨hstage, hold horiginal⟩
    · obtain ⟨hstage, horiginal⟩ := h.rooted hid hr
      exact ⟨hstage, hold horiginal⟩

/-- A clone of a clone is one of the original. -/
lemma Lineage.create (h : Lineage w) (hc : w.createClone source = (some c, w')) :
    Lineage w' ∧ Follows w w' := by
  obtain ⟨t, ht, hstage, hlimit, hins, hw'⟩ := createClone_eq_some hc
  have hsource : w.targets.role? source = some t.role := Arena.role?_eq_some.2 ⟨t, ht, rfl⟩
  refine h.insert (u := t.clone (t.cloneOf.getD source)) ?_ (fun r hr => ⟨hstage, ?_⟩) (by rw [hins])
    (by rw [hw']; rfl)
  · have hone : (if (t.clone (t.cloneOf.getD source)).isClone then 1 else 0) = 1 := rfl
    rw [hone]
    exact hlimit
  · have hr : t.cloneOf.getD source = r := by simpa [Target.clone] using hr
    cases horigin : t.cloneOf with
    | none =>
      rw [horigin, Option.getD_none] at hr
      rw [← hr, hsource]
      simp [Target.role, Target.clone, horigin]
    | some r' =>
      rw [horigin, Option.getD_some] at hr
      rw [← hr]
      exact (h.rooted hsource horigin).2

lemma Lineage.delete (h : Lineage w) {t : Target} (ht : w.targets.get? self = some t)
    (hclone : t.isClone = true) : Lineage (w.deleteClone self) ∧ Follows w (w.deleteClone self) := by
  have htargets : (w.deleteClone self).targets = w.targets.remove self := by
    rw [deleteClone_eq ht hclone]
    rfl
  have hlimit : (w.deleteClone self).config = w.config := by
    rw [deleteClone_eq ht hclone]
    rfl
  have hkept : ∀ {id : TargetId} {role : Target.Role}, w.targets.role? id = some role →
      role.cloneOf = none → (w.deleteClone self).targets.role? id = some role := by
    intro id role hid hnone
    have hne : id ≠ self := by
      rintro rfl
      obtain ⟨t', ht', rfl⟩ := Arena.role?_eq_some.1 hid
      cases ht.symm.trans ht'
      have hsame : t.cloneOf = none := hnone
      simp [Target.isClone, hsame] at hclone
    rw [htargets, Arena.role?_remove, if_neg hne]
    exact hid
  refine ⟨⟨?_, fun {id r role} hid hr => ?_, ?_⟩, by rw [hlimit], hkept⟩
  · rw [hlimit, htargets]
    exact Nat.le_trans (w.targets.cloneCount_remove_le self) h.limit
  · rw [htargets, Arena.role?_remove] at hid
    split at hid
    · cases hid
    · obtain ⟨hstage, horiginal⟩ := h.rooted hid hr
      exact ⟨hstage, hkept horiginal rfl⟩
  · rw [htargets]
    exact h.tidy.remove self

/-- Those who are in the second world were in the first or are new, but perhaps for `own`. The scripts
of whoever is new are asked for, once. -/
structure Comes (own : TargetId) (rs : List Request) (w w' : World) : Prop where
  once : ∀ id, rs.count (.startClone id) ≤ 1
  fresh : ∀ id, .startClone id ∈ rs → w.targets.contains id = false
  others : ∀ id ≠ own,
    (w'.targets.contains id = true ↔ w.targets.contains id = true ∨ .startClone id ∈ rs)
  stays : (∀ r ∈ rs, r.isFinal = false) → w.targets.contains own = true →
    w'.targets.contains own = true
  kept : ∀ {id : TargetId} {role : Target.Role}, w.targets.role? id = some role →
    w'.targets.contains id = true → w'.targets.role? id = some role

lemma Change.comes (k : Change self w rs w') (h : w.targets.Tidy) : Comes self rs w w' := by
  cases k with
  | keep hone hstart hr ht =>
    have hsame : ∀ id, w'.targets.contains id = w.targets.contains id :=
      Arena.contains_congr (layout_of_troupe ht)
    refine ⟨fun id => ?_, fun id hid => absurd hid (hstart id), fun id _ => ?_, fun _ hself => ?_,
      fun hid _ => (Arena.role?_congr (congrArg Prod.snd ht) _).trans hid⟩
    · rw [List.count_eq_zero_of_not_mem (hstart id)]
      exact Nat.zero_le 1
    · rw [hsame]
      exact (or_iff_left (hstart id)).symm
    · rw [hsame]
      exact hself
  | @create source c _ hc =>
    obtain ⟨t, -, -, -, hins, -⟩ := createClone_eq_some hc
    have hfound : ∀ id, w'.targets.contains id = true ↔ w.targets.contains id = true ∨ id = c := by
      intro id
      have hget := h.get?_insert_eq (t.clone (t.cloneOf.getD source)) id
      rw [hins] at hget
      unfold Arena.contains
      rw [hget]
      by_cases hid : id = c <;> simp [hid]
    have hnew : w.targets.contains c = false := by
      have hnone := h.get?_fst_insert (t.clone (t.cloneOf.getD source))
      rw [hins] at hnone
      rw [Arena.contains, hnone]
      rfl
    refine ⟨fun id => List.count_le_length, fun id hid => ?_, fun id _ => ?_, fun _ hself => ?_,
      fun {id role} hid _ => ?_⟩
    · cases List.mem_singleton.1 hid
      exact hnew
    · rw [hfound, List.mem_singleton, Request.startClone.injEq]
    · rw [hfound]
      exact Or.inl hself
    · have hne : id ≠ c := by
        rintro rfl
        rw [Arena.contains_eq_role?, hid] at hnew
        cases hnew
      have hrole := h.role?_insert (t.clone (t.cloneOf.getD source)) id
      rw [hins, if_neg hne] at hrole
      exact hrole.trans hid
  | delete ht hclone =>
    have htargets : (w.deleteClone self).targets = w.targets.remove self := by
      rw [deleteClone_eq ht hclone]
      rfl
    refine ⟨fun id => by simp, fun id hid => by simp at hid, fun id hne => ?_, fun hgo => ?_,
      fun {id role} hid hlive => ?_⟩
    · rw [htargets, Arena.contains, Arena.get?_remove, if_neg hne]
      simp [Arena.contains]
    · cases hgo _ (List.mem_singleton_self _)
    · rw [htargets, Arena.contains_eq_role?, Arena.role?_remove] at hlive
      rw [htargets, Arena.role?_remove]
      split at hlive
      · cases hlive
      · next hne => rw [if_neg hne, hid]

/-- Nobody comes but as a clone. -/
lemma Change.create_of_new (k : Change self w rs w') (h : w.targets.Tidy) {id : TargetId}
    (hold : w.targets.contains id = false) (hnew : w'.targets.contains id = true) :
    ∃ source, w.createClone source = (some id, w') := by
  cases k with
  | keep _ _ _ ht =>
    rw [Arena.contains_congr (layout_of_troupe ht), hold] at hnew
    cases hnew
  | @create source c _ hc =>
    obtain ⟨-, -, -, -, hothers, -⟩ := createClone_spec h hc
    have hsame : id = c := by
      by_contra hne
      rw [Arena.contains, hothers id hne] at hnew
      rw [Arena.contains, hnew] at hold
      cases hold
    exact ⟨source, hsame ▸ hc⟩
  | delete ht hclone =>
    rw [deleteClone_eq ht hclone] at hnew
    simp only [request, Arena.contains, Arena.get?_remove] at hnew
    split at hnew
    · cases hnew
    · rw [Arena.contains, hnew] at hold
      cases hold

lemma Change.lineage (k : Change self w rs w') (h : Lineage w) : Lineage w' ∧ Follows w w' := by
  cases k with
  | keep _ _ _ ht => exact ⟨h.congr ht, follows_of_troupe ht⟩
  | create hc => exact h.create hc
  | delete ht hclone => exact h.delete ht hclone

end

end World

namespace Machine

variable {self c : TargetId} {rs : List Request} {w w' : World}

lemma Changes.lineage (k : Changes self w rs w') (h : w.Lineage) : w'.Lineage ∧ w.Follows w' := by
  induction k with
  | refl => exact ⟨h, World.follows_of_troupe rfl⟩
  | step _ _ k ih =>
    obtain ⟨hl, hf⟩ := ih
    obtain ⟨hl', hf'⟩ := k.lineage hl
    exact ⟨hl', hf.trans hf'⟩

/-- In a slice on a live target everyone comes once. -/
lemma Changes.comes (k : Changes self w rs w') (h : w.targets.Tidy)
    (hself : w.targets.contains self = true) : World.Comes self rs w w' := by
  induction k with
  | refl => exact ⟨by simp, by simp, by simp, fun _ hself => hself, fun hid _ => hid⟩
  | @step rs rs' w' w'' hs hgo k ih =>
    have hk := k.comes (hs.makes.tidy h)
    have hlive := ih.stays hgo hself
    -- whoever is made in this step was not there before
    have hnew : ∀ id, .startClone id ∈ rs' → w.targets.contains id = false ∧ .startClone id ∉ rs := by
      intro id hid
      have hfresh := hk.fresh id hid
      have hne : id ≠ self := by
        rintro rfl
        rw [hlive] at hfresh
        cases hfresh
      have hnot : ¬(w.targets.contains id = true ∨ .startClone id ∈ rs) := by
        rw [← ih.others id hne, hfresh]
        exact Bool.false_ne_true
      exact ⟨by simpa using fun h => hnot (Or.inl h), fun h => hnot (Or.inr h)⟩
    refine ⟨fun id => ?_, fun id hid => ?_, fun id hne => ?_, fun hall _ => ?_,
      fun {id role} hid hend => ?_⟩
    · rw [List.count_append]
      have hone := ih.once id
      have hone' := hk.once id
      by_cases hid : .startClone id ∈ rs'
      · rw [List.count_eq_zero_of_not_mem (hnew id hid).2]
        omega
      · rw [List.count_eq_zero_of_not_mem hid]
        omega
    · rcases List.mem_append.1 hid with hid | hid
      · exact ih.fresh id hid
      · exact (hnew id hid).1
    · rw [hk.others id hne, ih.others id hne, List.mem_append, or_assoc]
    · exact hk.stays (fun r hr => hall r (List.mem_append_right _ hr)) hlive
    · have hbegin : w.targets.contains id = true := by
        rw [Arena.contains_eq_role?, hid]
        rfl
      have hmid : w'.targets.contains id = true := by
        by_cases hsame : id = self
        · rw [hsame]
          exact hlive
        · exact (ih.others id hsame).2 (Or.inl hbegin)
      exact hk.kept (ih.kept hid hmid) hend

end Machine

end Blockwork
