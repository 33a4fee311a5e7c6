import Blockwork.Block.Basic
import Mathlib.Data.Finset.Card
import Mathlib.Logic.Relation

/-!
How blocks refer to each other. A block refers to the one below it and to those in its inputs; in a
map without cycles every chain of references ends, and each block has a rank above the ranks of all
that it refers to.
-/

namespace Blockwork

lemma mem_of_lookup {α β : Type} [BEq α] [LawfulBEq α] {a : α} {b : β} {l : List (α × β)}
    (h : l.lookup a = some b) : (a, b) ∈ l := by
  obtain ⟨l₁, l₂, he, -⟩ := List.lookup_eq_some_iff.1 h
  simp [he]

namespace Dictionary

variable {α : Type}

lemma mem_of_get? {d : Dictionary α} {key : String} {a : α} (h : d.get? key = some a) :
    (key, a) ∈ d.entries :=
  mem_of_lookup h

lemma mem_keys_of_get? {d : Dictionary α} {key : String} (h : (d.get? key).isSome) :
    key ∈ d.keys := by
  obtain ⟨a, ha⟩ := Option.isSome_iff_exists.1 h
  exact List.mem_map.2 ⟨(key, a), mem_of_get? ha, rfl⟩

end Dictionary

/-- The id of a plugged block. -/
def Plug.id? : Plug → Option String
  | .block id => some id
  | _ => none

/-- The blocks in an input: the one plugged in and the one that lies under it. -/
def Input.ids (i : Input) : List String :=
  (i.value.bind Plug.id?).toList ++ (i.shadow.bind Plug.id?).toList

/-- All that a block refers to. -/
def Block.refers (b : Block) : List String :=
  b.next.toList ++ b.inputs.entries.flatMap fun e => e.2.ids

namespace BlockMap

/-- One block refers to another that exists. -/
def Leads (blocks : BlockMap) (a b : String) : Prop :=
  ∃ x, blocks.get? a = some x ∧ b ∈ x.refers ∧ (blocks.get? b).isSome

/-- No block leads back to itself. -/
def Acyclic (blocks : BlockMap) : Prop := ∀ id, ¬ Relation.TransGen blocks.Leads id id

/-- A number that falls along every reference rules out cycles. -/
lemma acyclic_of_falling {blocks : BlockMap} (f : String → Nat)
    (h : ∀ e ∈ blocks.entries, ∀ id ∈ e.2.refers, blocks.contains id → f id < f e.1) :
    blocks.Acyclic := by
  have hstep : ∀ {a b}, blocks.Leads a b → f b < f a := by
    rintro a b ⟨x, hx, hb, hs⟩
    exact h (a, x) (Dictionary.mem_of_get? hx) b hb hs
  have hpath : ∀ {a b}, Relation.TransGen blocks.Leads a b → f b < f a := by
    intro a b hab
    induction hab with
    | single h => exact hstep h
    | tail _ h ih => exact lt_trans (hstep h) ih
  exact fun id hid => lt_irrefl _ (hpath hid)

open Classical in
/-- How many blocks a block leads to. -/
noncomputable def rank (blocks : BlockMap) (id : String) : Nat :=
  (blocks.keys.toFinset.filter fun k => Relation.TransGen blocks.Leads id k).card

lemma rank_le (blocks : BlockMap) (id : String) : blocks.rank id ≤ blocks.size := by
  classical
  calc blocks.rank id ≤ blocks.keys.toFinset.card := Finset.card_filter_le _ _
    _ ≤ blocks.keys.length := List.toFinset_card_le _
    _ = blocks.size := by simp [Dictionary.keys, Dictionary.size]

/-- Ranks fall along references: what is left behind is not reached again. -/
lemma rank_lt {blocks : BlockMap} (h : blocks.Acyclic) {a b : String} (hab : blocks.Leads a b) :
    blocks.rank b < blocks.rank a := by
  classical
  have hb : b ∈ blocks.keys := Dictionary.mem_keys_of_get? hab.choose_spec.2.2
  refine Finset.card_lt_card (Finset.ssubset_iff_of_subset ?_ |>.2 ⟨b, ?_, ?_⟩)
  · intro k hk
    rw [Finset.mem_filter] at hk ⊢
    exact ⟨hk.1, Relation.TransGen.head hab hk.2⟩
  · rw [Finset.mem_filter, List.mem_toFinset]
    exact ⟨hb, Relation.TransGen.single hab⟩
  · rw [Finset.mem_filter]
    exact fun hk => h b hk.2

end BlockMap

/-! ### What an input gives -/

/-- What stands for an input when it is evaluated. -/
inductive Source where
  | block (id : String)
  | value (v : Value)
  | var (r : Reference)
  | list (r : Reference)
  | nothing

/-- A shadow block with a single field stands for the value of that field. -/
def Block.menu? (b : Block) : Option Value :=
  if b.shadow && b.fields.size == 1 then b.fields.entries.head?.map (·.2.value) else none

/-- What a plug gives, unless it names a block that does not exist. -/
def Plug.source? (blocks : BlockMap) : Plug → Option Source
  | .block id => (blocks.get? id).map fun b => (b.menu?.map Source.value).getD (.block id)
  | .value v => some (.value v)
  | .broadcast r => some (.value (.text r.name))
  | .var r => some (.var r)
  | .list r => some (.list r)

/-- What is plugged into an input, else the shadow under it, else nothing. -/
def Block.source (blocks : BlockMap) (b : Block) (name : String) : Source :=
  match b.input? name with
  | none => .nothing
  | some i =>
    ((i.value.bind (Plug.source? blocks)).or (i.shadow.bind (Plug.source? blocks))).getD .nothing

lemma Plug.source?_block {blocks : BlockMap} {p : Plug} {id : String}
    (h : p.source? blocks = some (.block id)) : p.id? = some id ∧ (blocks.get? id).isSome := by
  cases p with
  | block id' =>
    obtain ⟨b, hb, he⟩ := Option.map_eq_some_iff.1 h
    cases hm : b.menu? with
    | none =>
      rw [hm] at he
      cases he
      exact ⟨rfl, by simp [hb]⟩
    | some v =>
      rw [hm] at he
      cases he
  | _ => simp [source?] at h

lemma Block.source_block {blocks : BlockMap} {b : Block} {name id : String}
    (h : b.source blocks name = .block id) :
    ∃ i, (name, i) ∈ b.inputs.entries ∧ id ∈ i.ids ∧ (blocks.get? id).isSome := by
  unfold Block.source at h
  cases hi : b.input? name with
  | none => simp [hi] at h
  | some i =>
    refine ⟨i, Dictionary.mem_of_get? hi, ?_⟩
    simp only [hi] at h
    have key : ∀ q : Option Plug, q.bind (Plug.source? blocks) = some (.block id) →
        q.bind Plug.id? = some id ∧ (blocks.get? id).isSome := by
      intro q hq
      obtain ⟨p, rfl, hp⟩ := Option.bind_eq_some_iff.1 hq
      exact Plug.source?_block hp
    cases hv : i.value.bind (Plug.source? blocks) with
    | some s =>
      rw [hv] at h
      cases h
      obtain ⟨h1, h2⟩ := key _ hv
      exact ⟨by simp [Input.ids, h1], h2⟩
    | none =>
      cases hs : i.shadow.bind (Plug.source? blocks) with
      | none => simp [hv, hs] at h
      | some s =>
        rw [hv, hs] at h
        cases h
        obtain ⟨h1, h2⟩ := key _ hs
        exact ⟨by simp [Input.ids, h1], h2⟩

/-- A block refers to what stands for its inputs. -/
lemma BlockMap.leads_of_source {blocks : BlockMap} {a : String} {b : Block} {name id : String}
    (hb : blocks.get? a = some b) (h : b.source blocks name = .block id) : blocks.Leads a id := by
  obtain ⟨i, hi, hid, hs⟩ := Block.source_block h
  refine ⟨b, hb, ?_, hs⟩
  exact List.mem_append_right _ (List.mem_flatMap.2 ⟨(name, i), hi, hid⟩)

lemma BlockMap.leads_of_next {blocks : BlockMap} {a : String} {b : Block} {id : String}
    (hb : blocks.get? a = some b) (h : b.next = some id) (hs : (blocks.get? id).isSome) :
    blocks.Leads a id :=
  ⟨b, hb, List.mem_append_left _ (by simp [h]), hs⟩

lemma Block.plugged?_eq_some {b : Block} {name id : String} (h : b.plugged? name = some id) :
    ∃ i, (name, i) ∈ b.inputs.entries ∧ id ∈ i.ids := by
  unfold Block.plugged? at h
  split at h
  · next p hp =>
    obtain ⟨i, hi, hv⟩ := Option.bind_eq_some_iff.1 hp
    cases h
    exact ⟨i, Dictionary.mem_of_get? hi, by simp [Input.ids, hv, Plug.id?]⟩
  · cases h

lemma BlockMap.leads_of_plugged {blocks : BlockMap} {a : String} {b : Block} {name id : String}
    (hb : blocks.get? a = some b) (h : b.plugged? name = some id)
    (hs : (blocks.get? id).isSome) : blocks.Leads a id := by
  obtain ⟨i, hi, hid⟩ := Block.plugged?_eq_some h
  exact ⟨b, hb, List.mem_append_right _ (List.mem_flatMap.2 ⟨(name, i), hi, hid⟩), hs⟩

end Blockwork
