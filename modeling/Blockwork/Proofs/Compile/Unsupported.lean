import Blockwork.Proofs.Compile.Interning

/-!
What the record of unsupported blocks holds. A block holds what is plugged into it and everything
below that, as long as it is no shadow; when an unsupported block is met, the kinds recorded are
those of the unsupported blocks among all that it holds, directly or through others. The compiler
goes down block by block to a bounded depth; a list of blocks still to be looked at, taken from its
end and filled in any order of the inputs, ends with the same record.
-/

namespace Blockwork

namespace BlockMap

variable {blocks : BlockMap} {a b c id : String}

/-! ### What a block holds -/

/-- The second block is named as the one below the first. -/
def Next (blocks : BlockMap) (a b : String) : Prop := ∃ x, blocks.get? a = some x ∧ x.next = some b

/-- A block that is no shadow holds what is plugged into it and all that is below that. -/
def Holds (blocks : BlockMap) (a b : String) : Prop :=
  ∃ x, blocks.get? a = some x ∧ x.shadow = false ∧ ∃ e ∈ x.inputs.entries, ∃ child,
    e.2.value = some (.block child) ∧ Relation.ReflTransGen blocks.Next child b

/-- The smallest set that has the block itself and, with each block, all that this one holds. -/
def Within (blocks : BlockMap) : String → String → Prop := Relation.ReflTransGen blocks.Holds

/-- A kind of an unsupported block that is no shadow, among all that a block holds. -/
def Brings (blocks : BlockMap) (palette : Palette) (id opcode : String) : Prop :=
  ∃ v x, blocks.Within id v ∧ blocks.get? v = some x ∧ x.shadow = false ∧
    palette.isUnsupported x.opcode = true ∧ x.opcode = opcode

lemma Next.isSome (h : blocks.Next a b) : (blocks.get? a).isSome := by
  obtain ⟨x, hx, -⟩ := h
  exact Option.isSome_iff_exists.2 ⟨x, hx⟩

lemma next_iff : blocks.Next a b ↔ (blocks.get? a).bind (·.next) = some b :=
  Option.bind_eq_some_iff.symm

/-- A block that exists is of a lower rank than the one that names it as below. -/
lemma rank_next (hacyclic : blocks.Acyclic) (h : blocks.Next a b) (hb : (blocks.get? b).isSome) :
    blocks.rank b < blocks.rank a := by
  obtain ⟨x, hx, hnext⟩ := h
  exact rank_lt hacyclic (leads_of_next hx hnext hb)

lemma rank_below (hacyclic : blocks.Acyclic) (h : Relation.ReflTransGen blocks.Next a b)
    (hb : (blocks.get? b).isSome) : blocks.rank b ≤ blocks.rank a := by
  induction h with
  | refl => exact le_rfl
  | tail _ hstep ih => exact (rank_next hacyclic hstep hb).le.trans (ih hstep.isSome)

/-- Only the end of a chain of blocks may be missing. -/
lemma isSome_of_below (h : Relation.ReflTransGen blocks.Next a b) (hb : (blocks.get? b).isSome) :
    (blocks.get? a).isSome := by
  rcases Relation.ReflTransGen.cases_head h with rfl | ⟨c, hstep, -⟩
  · exact hb
  · exact hstep.isSome

lemma rank_holds (hacyclic : blocks.Acyclic) (h : blocks.Holds a b) (hb : (blocks.get? b).isSome) :
    blocks.rank b < blocks.rank a := by
  obtain ⟨x, hx, -, e, he, child, hvalue, hbelow⟩ := h
  have hchild := isSome_of_below hbelow hb
  have hleads : blocks.Leads a child := by
    refine ⟨x, hx, List.mem_append_right _ (List.mem_flatMap.2 ⟨e, he, ?_⟩), hchild⟩
    simp [Input.ids, hvalue, Plug.id?]
  exact (rank_below hacyclic hbelow hb).trans_lt (rank_lt hacyclic hleads)

/-- A block does not lead to itself, so it leads to fewer blocks than there are. -/
lemma rank_lt_size (hacyclic : blocks.Acyclic) (h : (blocks.get? id).isSome) :
    blocks.rank id < blocks.size := by
  classical
  have hkey : id ∈ blocks.keys.toFinset := List.mem_toFinset.2 (Dictionary.mem_keys_of_get? h)
  calc blocks.rank id < blocks.keys.toFinset.card :=
        Finset.card_lt_card (Finset.filter_ssubset.2 ⟨id, hkey, hacyclic id⟩)
    _ ≤ blocks.keys.length := List.toFinset_card_le _
    _ = blocks.size := by simp [Dictionary.keys, Dictionary.size]

end BlockMap

namespace Dictionary

lemma contains_insert (d : Dictionary Unit) (key key' : String) :
    (d.insert key ()).contains key' = true ↔ key' = key ∨ d.contains key' = true := by
  unfold contains
  rw [get?_insert]
  split
  · next h => simp [h]
  · next h => simp [h]

lemma contains_foldl_insert (keys : List String) (d : Dictionary Unit) (key : String) :
    (keys.foldl (fun d key => d.insert key ()) d).contains key = true ↔
      key ∈ keys ∨ d.contains key = true := by
  induction keys generalizing d with
  | nil => simp
  | cons k rest ih =>
    rw [List.foldl_cons, ih, contains_insert, List.mem_cons]
    tauto

end Dictionary

namespace Compiler

open BlockMap

variable {blocks : BlockMap} {palette : Palette} {id opcode : String}

/-! ### The depth suffices -/

/-- A chain is followed to its end: the fuel is more than the blocks that exist on it. -/
lemma mem_chain (hacyclic : blocks.Acyclic) {fuel : Nat} (hpos : 0 < fuel)
    (hfuel : (blocks.get? id).isSome → blocks.rank id + 1 < fuel) {v : String} :
    v ∈ chain blocks fuel id ↔ Relation.ReflTransGen blocks.Next id v := by
  induction fuel generalizing id with
  | zero => omega
  | succ fuel ih =>
    rw [chain, Relation.ReflTransGen.cases_head_iff]
    cases hnext : (blocks.get? id).bind (·.next) with
    | none =>
      have hnone : ∀ c, ¬ blocks.Next id c := fun c hc => by
        rw [next_iff.1 hc] at hnext
        cases hnext
      simp [hnone, eq_comm]
    | some below =>
      have hstep : blocks.Next id below := next_iff.2 hnext
      have hrank := hfuel hstep.isSome
      have hbelow : (blocks.get? below).isSome → blocks.rank below + 1 < fuel := fun hsome => by
        have := rank_next hacyclic hstep hsome
        omega
      have hmem := ih (by omega) hbelow
      simp only [Option.map_some, Option.getD_some, List.mem_cons, hmem, next_iff, hnext,
        Option.some.injEq, exists_eq_left', eq_comm]

lemma mem_inside (hacyclic : blocks.Acyclic) {b : Block} {v : String} :
    v ∈ inside blocks b ↔ ∃ e ∈ b.inputs.entries, ∃ child,
      e.2.value = some (.block child) ∧ Relation.ReflTransGen blocks.Next child v := by
  rw [inside, List.mem_flatMap]
  refine exists_congr fun e => and_congr_right fun _ => ?_
  have hchain : ∀ child, v ∈ chain blocks (blocks.size + 1) child ↔
      Relation.ReflTransGen blocks.Next child v := fun child =>
    mem_chain hacyclic (Nat.succ_pos _) fun hsome => Nat.succ_lt_succ (rank_lt_size hacyclic hsome)
  obtain ⟨name, ⟨kind, value, shadow⟩⟩ := e
  cases value with
  | none => simp
  | some p => cases p <;> simp [hchain]

lemma holds_iff (hacyclic : blocks.Acyclic) {b : Block} (hb : blocks.get? id = some b) {v : String} :
    blocks.Holds id v ↔ b.shadow = false ∧ v ∈ inside blocks b := by
  rw [mem_inside hacyclic, Holds]
  constructor
  · rintro ⟨x, hx, hrest⟩
    cases hb.symm.trans hx
    exact hrest
  · exact fun h => ⟨b, hb, h⟩

/-- What a block brings is its own kind and what those bring that it holds. -/
lemma brings_iff {b : Block} (hb : blocks.get? id = some b) :
    blocks.Brings palette id opcode ↔
      (b.shadow = false ∧ palette.isUnsupported b.opcode = true ∧ b.opcode = opcode) ∨
        ∃ v, blocks.Holds id v ∧ blocks.Brings palette v opcode := by
  constructor
  · rintro ⟨v, x, hwithin, hx, hrest⟩
    rcases Relation.ReflTransGen.cases_head hwithin with rfl | ⟨c, hstep, hwithin⟩
    · cases hb.symm.trans hx
      exact .inl hrest
    · exact .inr ⟨c, hstep, v, x, hwithin, hx, hrest⟩
  · rintro (hrest | ⟨c, hstep, v, x, hwithin, hx, hrest⟩)
    · exact ⟨id, b, .refl, hb, hrest⟩
    · exact ⟨v, x, hwithin.head hstep, hx, hrest⟩

lemma not_brings_of_missing (h : blocks.get? id = none) : ¬ blocks.Brings palette id opcode := by
  rintro ⟨v, x, hwithin, hx, -⟩
  rcases Relation.ReflTransGen.cases_head hwithin with rfl | ⟨c, ⟨y, hy, -⟩, -⟩
  · rw [h] at hx
    cases hx
  · rw [h] at hy
    cases hy

/-- The fuel is more than the rank, so no block is missed. -/
lemma mem_unsupportedIn (hacyclic : blocks.Acyclic) {fuel : Nat}
    (hfuel : (blocks.get? id).isSome → blocks.rank id < fuel) :
    opcode ∈ unsupportedIn palette blocks fuel id ↔ blocks.Brings palette id opcode := by
  induction fuel generalizing id with
  | zero =>
    have hnone : blocks.get? id = none :=
      Option.not_isSome_iff_eq_none.1 fun hsome => Nat.not_lt_zero _ (hfuel hsome)
    simp [unsupportedIn, not_brings_of_missing hnone]
  | succ fuel ih =>
    rw [unsupportedIn]
    cases hb : blocks.get? id with
    | none => simp [not_brings_of_missing hb]
    | some b =>
      have hrank := hfuel (Option.isSome_iff_exists.2 ⟨b, hb⟩)
      simp only [brings_iff hb, holds_iff hacyclic hb]
      cases hshadow : b.shadow with
      | true => simp
      | false =>
        have hinner : ∀ v ∈ inside blocks b, (opcode ∈ unsupportedIn palette blocks fuel v ↔
            blocks.Brings palette v opcode) := fun v hv => ih fun hsome => by
          have := rank_holds hacyclic ((holds_iff hacyclic hb).2 ⟨hshadow, hv⟩) hsome
          omega
        have hown : opcode ∈ (if palette.isUnsupported b.opcode then [b.opcode] else []) ↔
            palette.isUnsupported b.opcode = true ∧ b.opcode = opcode := by
          split
          · next h => simp [h, eq_comm]
          · next h => simp [h]
        rw [if_neg Bool.false_ne_true, List.mem_append, hown, List.mem_flatMap]
        simp only [true_and]
        refine or_congr_right (exists_congr fun v => ?_)
        exact and_congr_right fun hv => hinner v hv

lemma contains_markUnsupported (hacyclic : blocks.Acyclic) (c : Compiler) :
    (c.markUnsupported palette blocks id).unsupported.contains opcode = true ↔
      blocks.Brings palette id opcode ∨ c.unsupported.contains opcode = true := by
  have hfuel : (blocks.get? id).isSome → blocks.rank id < blocks.size + 1 := fun h =>
    (rank_lt_size hacyclic h).trans (Nat.lt_succ_self _)
  rw [markUnsupported, Dictionary.contains_foldl_insert, mem_unsupportedIn hacyclic hfuel]

end Compiler

/-! ### A list of blocks to look at -/

/-- The blocks still to be looked at, the next one first, and the kinds recorded so far. -/
structure Worklist where
  pending : List String
  recorded : Dictionary Unit

namespace Worklist

open BlockMap

variable {blocks : BlockMap} {palette : Palette} {root id : String}

/-- A block and all below it, down to the last one that is named. -/
inductive Chain (blocks : BlockMap) : String → List String → Prop
  | last {id : String} : (∀ b, ¬ blocks.Next id b) → Chain blocks id [id]
  | next {id b : String} {ids : List String} : blocks.Next id b → Chain blocks b ids → Chain blocks id (id :: ids)

/-- What an input adds to the list. -/
def Adds (blocks : BlockMap) (i : Input) (ids : List String) : Prop :=
  match i.value with
  | some (.block child) => Chain blocks child ids
  | _ => ids = []

/-- Records the kind of a block if it is unsupported. -/
def record (palette : Palette) (b : Block) (d : Dictionary Unit) : Dictionary Unit :=
  if palette.isUnsupported b.opcode then d.insert b.opcode () else d

/-- Looks at the block that was added last. Missing blocks and shadows are passed over; of any other
block the inputs are gone through in some order. -/
inductive Step (palette : Palette) (blocks : BlockMap) : Worklist → Worklist → Prop
  | skip {id rest d} : (∀ b, blocks.get? id = some b → b.shadow = true) →
      Step palette blocks ⟨id :: rest, d⟩ ⟨rest, d⟩
  | visit {id rest d b inputs added} : blocks.get? id = some b → b.shadow = false →
      inputs.Perm b.inputs.entries → List.Forall₂ (Adds blocks ·.2 ·) inputs added →
      Step palette blocks ⟨id :: rest, d⟩ ⟨added.flatten.reverse ++ rest, record palette b d⟩

lemma Chain.mem_iff {ids : List String} (h : Chain blocks id ids) {v : String} :
    v ∈ ids ↔ Relation.ReflTransGen blocks.Next id v := by
  induction h with
  | last hnone =>
    rw [List.mem_singleton, Relation.ReflTransGen.cases_head_iff]
    simp [hnone, eq_comm]
  | @next id b ids hstep _ ih =>
    have honly : ∀ {c}, blocks.Next id c ↔ b = c := fun {c} => by
      rw [next_iff, next_iff.1 hstep, Option.some.injEq]
    rw [List.mem_cons, ih, Relation.ReflTransGen.cases_head_iff (a := id)]
    simp [honly, eq_comm]

lemma mem_added {b : Block} {inputs : List (String × Input)} {added : List (List String)}
    (hb : blocks.get? id = some b) (hshadow : b.shadow = false)
    (hperm : inputs.Perm b.inputs.entries) (hadds : List.Forall₂ (Adds blocks ·.2 ·) inputs added)
    {v : String} : v ∈ added.flatten ↔ blocks.Holds id v := by
  have hholds : blocks.Holds id v ↔ ∃ e ∈ inputs, ∃ child,
      e.2.value = some (.block child) ∧ Relation.ReflTransGen blocks.Next child v := by
    simp only [hperm.mem_iff]
    constructor
    · rintro ⟨x, hx, -, hrest⟩
      cases hb.symm.trans hx
      exact hrest
    · exact fun h => ⟨b, hb, hshadow, h⟩
  rw [hholds]
  clear hholds hperm
  induction hadds with
  | nil => simp
  | @cons e ids inputs added hadd _ ih =>
    have hhead : v ∈ ids ↔ ∃ child, e.2.value = some (.block child) ∧
        Relation.ReflTransGen blocks.Next child v := by
      unfold Adds at hadd
      split at hadd
      · next child hvalue => simp [hvalue, hadd.mem_iff]
      · next hother =>
        subst hadd
        refine iff_of_false List.not_mem_nil ?_
        rintro ⟨child, hvalue, -⟩
        exact hother child hvalue
    rw [List.flatten_cons, List.mem_append, hhead]
    exact (or_congr_right ih).trans (by simp)

/-! ### The list comes to an end -/

lemma exists_chain (hacyclic : blocks.Acyclic) (id : String) : ∃ ids, Chain blocks id ids := by
  have key : ∀ n id, ((blocks.get? id).isSome → blocks.rank id < n) → ∃ ids, Chain blocks id ids := by
    intro n
    induction n with
    | zero =>
      intro id hn
      exact ⟨_, .last fun b hstep => Nat.not_lt_zero _ (hn hstep.isSome)⟩
    | succ n ih =>
      intro id hn
      by_cases hnext : ∃ b, blocks.Next id b
      · obtain ⟨b, hstep⟩ := hnext
        have hrank := hn hstep.isSome
        obtain ⟨ids, hids⟩ := ih b fun hsome => by
          have := rank_next hacyclic hstep hsome
          omega
        exact ⟨_, .next hstep hids⟩
      · exact ⟨_, .last fun b hb => hnext ⟨b, hb⟩⟩
  exact key (blocks.rank id + 1) id fun _ => Nat.lt_succ_self _

/-- Something is done as long as blocks are left. -/
lemma exists_step (hacyclic : blocks.Acyclic) (id : String) (rest : List String)
    (d : Dictionary Unit) : ∃ s, Step palette blocks ⟨id :: rest, d⟩ s := by
  by_cases hskip : ∀ b, blocks.get? id = some b → b.shadow = true
  · exact ⟨_, .skip hskip⟩
  · push Not at hskip
    obtain ⟨b, hb, hshadow⟩ := hskip
    have hadds : ∀ i : Input, ∃ ids, Adds blocks i ids := fun i => by
      unfold Adds
      split
      · exact exists_chain hacyclic _
      · exact ⟨[], rfl⟩
    choose f hf using hadds
    have hall : List.Forall₂ (Adds blocks ·.2 ·) b.inputs.entries
        (b.inputs.entries.map fun e => f e.2) :=
      List.forall₂_map_right_iff.2 (List.forall₂_same.2 fun e _ => hf e.2)
    exact ⟨_, .visit hb (Bool.eq_false_of_not_eq_true hshadow) (.refl _) hall⟩

/-- A block in front does not keep the list from coming to an end. -/
lemma acc_cons (hacyclic : blocks.Acyclic) (n : Nat) :
    ∀ id, ((blocks.get? id).isSome → blocks.rank id < n) → ∀ rest : List String,
      (∀ d, Acc (fun s t => Step palette blocks t s) ⟨rest, d⟩) →
      ∀ d, Acc (fun s t => Step palette blocks t s) ⟨id :: rest, d⟩ := by
  induction n with
  | zero =>
    intro id hn rest hrest d
    refine ⟨_, fun s hs => ?_⟩
    cases hs with
    | skip => exact hrest d
    | visit hb => exact absurd (hn (Option.isSome_iff_exists.2 ⟨_, hb⟩)) (Nat.not_lt_zero _)
  | succ n ih =>
    intro id hn rest hrest d
    refine ⟨_, fun s hs => ?_⟩
    cases hs with
    | skip => exact hrest d
    | @visit _ _ _ b inputs added hb hshadow hperm hadds =>
      -- all that is added is of a lower rank
      have hlow : ∀ v ∈ added.flatten.reverse, (blocks.get? v).isSome → blocks.rank v < n := by
        intro v hv hsome
        have hholds := (mem_added hb hshadow hperm hadds).1 (List.mem_reverse.1 hv)
        have := rank_holds hacyclic hholds hsome
        have := hn (Option.isSome_iff_exists.2 ⟨_, hb⟩)
        omega
      revert hlow
      generalize added.flatten.reverse = more
      intro hlow
      generalize record palette b d = d'
      induction more generalizing d' with
      | nil => exact hrest d'
      | cons v more ihmore =>
        refine ih v (hlow v (List.mem_cons_self ..)) (more ++ rest) (fun d => ?_) d'
        exact ihmore (fun u hu => hlow u (List.mem_cons_of_mem _ hu)) d

/-- The list comes to an end from every state and in every order. -/
lemma wellFounded_step (hacyclic : blocks.Acyclic) :
    WellFounded fun s t => Step palette blocks t s := by
  refine ⟨fun ⟨pending, d⟩ => ?_⟩
  induction pending generalizing d with
  | nil => exact ⟨_, fun s hs => by cases hs⟩
  | cons id rest ih =>
    exact acc_cons hacyclic (blocks.rank id + 1) id (fun _ => Nat.lt_succ_self _) rest ih d

/-! ### What is recorded in the end -/

/-- What holds while the list is worked off: all on it and all looked at is within the root, what has
been looked at has been recorded, and what it holds is on the list or has been looked at. -/
structure Kept (palette : Palette) (blocks : BlockMap) (root : String) (before : Dictionary Unit)
    (done : String → Prop) (s : Worklist) : Prop where
  start : done root ∨ root ∈ s.pending
  within : ∀ v ∈ s.pending, blocks.Within root v
  holds : ∀ v w, done v → blocks.Holds v w → done w ∨ w ∈ s.pending
  records : ∀ v x, done v → blocks.get? v = some x → x.shadow = false →
    palette.isUnsupported x.opcode = true → s.recorded.contains x.opcode = true
  sound : ∀ opcode, s.recorded.contains opcode = true →
    blocks.Brings palette root opcode ∨ before.contains opcode = true
  grows : ∀ opcode, before.contains opcode = true → s.recorded.contains opcode = true

variable {before : Dictionary Unit} {done : String → Prop} {s t : Worklist}

lemma contains_record {b : Block} {d : Dictionary Unit} {opcode : String} :
    (record palette b d).contains opcode = true ↔
      palette.isUnsupported b.opcode = true ∧ opcode = b.opcode ∨ d.contains opcode = true := by
  unfold record
  split
  · next h => simp [Dictionary.contains_insert, h]
  · next h => simp [h]

lemma Kept.step (h : Kept palette blocks root before done s) (hs : Step palette blocks s t) :
    ∃ done', Kept palette blocks root before done' t := by
  cases hs with
  | @skip id rest d hskip =>
    refine ⟨fun v => done v ∨ v = id, ?_, ?_, ?_, ?_, h.sound, h.grows⟩
    · rcases h.start with hdone | hmem
      · exact .inl (.inl hdone)
      · exact (List.mem_cons.1 hmem).imp .inr fun h => h
    · exact fun v hv => h.within v (List.mem_cons_of_mem _ hv)
    · rintro v w (hv | rfl) hw
      · rcases h.holds v w hv hw with hdone | hmem
        · exact .inl (.inl hdone)
        · exact (List.mem_cons.1 hmem).imp .inr fun h => h
      · -- what is passed over holds nothing
        obtain ⟨x, hx, hshadow, -⟩ := hw
        rw [hskip x hx] at hshadow
        cases hshadow
    · rintro v x (hv | rfl) hx hshadow hun
      · exact h.records v x hv hx hshadow hun
      · rw [hskip x hx] at hshadow
        cases hshadow
  | @visit id rest d b inputs added hb hshadow hperm hadds =>
    have hmem : ∀ {v}, v ∈ added.flatten.reverse ++ rest ↔ blocks.Holds id v ∨ v ∈ rest := by
      intro v
      rw [List.mem_append, List.mem_reverse, mem_added hb hshadow hperm hadds]
    have hwithin := h.within id (List.mem_cons_self ..)
    refine ⟨fun v => done v ∨ v = id, ?_, ?_, ?_, ?_, ?_, ?_⟩
    · rcases h.start with hdone | hstart
      · exact .inl (.inl hdone)
      · exact (List.mem_cons.1 hstart).imp .inr fun h => hmem.2 (.inr h)
    · intro v hv
      rcases hmem.1 hv with hholds | hrest
      · exact hwithin.tail hholds
      · exact h.within v (List.mem_cons_of_mem _ hrest)
    · rintro v w (hv | rfl) hw
      · rcases h.holds v w hv hw with hdone | hold
        · exact .inl (.inl hdone)
        · exact (List.mem_cons.1 hold).imp .inr fun h => hmem.2 (.inr h)
      · exact .inr (hmem.2 (.inl hw))
    · rintro v x (hv | rfl) hx hx' hun
      · exact contains_record.2 (.inr (h.records v x hv hx hx' hun))
      · cases hb.symm.trans hx
        exact contains_record.2 (.inl ⟨hun, rfl⟩)
    · intro opcode hop
      rcases contains_record.1 hop with ⟨hun, rfl⟩ | hold
      · exact .inl ⟨id, b, hwithin, hb, hshadow, hun, rfl⟩
      · exact h.sound opcode hold
    · exact fun opcode hop => contains_record.2 (.inr (h.grows opcode hop))

lemma kept_start (before : Dictionary Unit) :
    Kept palette blocks root before (fun _ => False) ⟨[root], before⟩ where
  start := .inr (List.mem_singleton_self root)
  within := fun _ hv => List.mem_singleton.1 hv ▸ .refl
  holds := fun _ _ h => h.elim
  records := fun _ _ h => h.elim
  sound := fun _ h => .inr h
  grows := fun _ h => h

lemma Kept.run (h : Kept palette blocks root before done s)
    (hs : Relation.ReflTransGen (Step palette blocks) s t) :
    ∃ done', Kept palette blocks root before done' t := by
  induction hs with
  | refl => exact ⟨done, h⟩
  | tail _ hstep ih =>
    obtain ⟨done', h'⟩ := ih
    exact h'.step hstep

/-- When nothing is left to look at, all within the root has been looked at. -/
lemma Kept.contains (h : Kept palette blocks root before done s) (hend : s.pending = [])
    (opcode : String) : s.recorded.contains opcode = true ↔
      blocks.Brings palette root opcode ∨ before.contains opcode = true := by
  refine ⟨h.sound opcode, ?_⟩
  rintro (⟨v, x, hwithin, hx, hshadow, hun, rfl⟩ | hbefore)
  · have hall : done v := by
      clear hx
      induction hwithin with
      | refl => exact h.start.resolve_right (by simp [hend])
      | tail _ hstep ih => exact (h.holds _ _ ih hstep).resolve_right (by simp [hend])
    exact h.records v x hall hx hshadow hun
  · exact h.grows opcode hbefore

end Worklist

namespace Compiler

open BlockMap

variable {blocks : BlockMap} {c : Compiler}

/-! ### Whole units -/

/-- Every recorded kind is unsupported. -/
def Honest (c : Compiler) : Prop :=
  ∀ opcode, c.unsupported.contains opcode = true → Palette.builtin.isUnsupported opcode = true

lemma Honest.congr {c' : Compiler} (h : c.Honest) (hsame : c'.unsupported = c.unsupported) :
    c'.Honest := by
  rwa [Honest, hsame]

lemma unsupportedIn_honest (blocks : BlockMap) (palette : Palette) (fuel : Nat) (id : String) :
    ∀ opcode ∈ unsupportedIn palette blocks fuel id, palette.isUnsupported opcode = true := by
  induction fuel generalizing id with
  | zero => exact fun _ h => absurd h List.not_mem_nil
  | succ fuel ih =>
    intro opcode h
    rw [unsupportedIn] at h
    split at h
    · cases h
    · next b hb =>
      split at h
      · cases h
      · rcases List.mem_append.1 h with hown | hinner
        · split at hown
          · next hun => exact List.mem_singleton.1 hown ▸ hun
          · cases hown
        · obtain ⟨v, -, hv⟩ := List.mem_flatMap.1 hinner
          exact ih v opcode hv

lemma Honest.markUnsupported (h : c.Honest) (blocks : BlockMap) (id : String) :
    (c.markUnsupported .builtin blocks id).Honest := by
  intro opcode hop
  rcases (Dictionary.contains_foldl_insert _ _ _).1 hop with hnew | hold
  · exact unsupportedIn_honest blocks .builtin _ id opcode hnew
  · exact h opcode hold

lemma unsupported_internProcedure (c : Compiler) (code : String) :
    (c.internProcedure code).2.unsupported = c.unsupported := by
  unfold internProcedure
  split <;> rfl

lemma unsupported_definition (c : Compiler) (blocks : BlockMap) (code : String) :
    (c.definition blocks code).2.unsupported = c.unsupported := by
  unfold definition
  split
  · rfl
  · split <;> rfl

lemma unsupported_head (c : Compiler) (blocks : BlockMap) (b : Block) :
    (c.head blocks b).unsupported = c.unsupported := by
  unfold head
  split
  · rfl
  · simp only
    split <;> exact unsupported_internProcedure c _

/-- Only where an unsupported block is met anything is recorded. -/
lemma couples_honest (blocks : BlockMap) :
    Couples blocks blocks (fun _ => True) fun c c' => c = c' ∧ c'.Honest where
  emit := by
    rintro _ c op ⟨rfl, h⟩ -
    exact ⟨rfl, h⟩
  const := by
    rintro _ c v ⟨rfl, h⟩
    exact ⟨rfl, h⟩
  callNative := by
    rintro _ c n ⟨rfl, h⟩ -
    exact ⟨rfl, h⟩
  internVariable := by
    rintro _ c r ⟨rfl, h⟩
    exact ⟨rfl, h⟩
  internList := by
    rintro _ c r ⟨rfl, h⟩
    exact ⟨rfl, h⟩
  variableOp := by
    rintro _ c op r ⟨rfl, h⟩
    exact ⟨rfl, h⟩
  listOp := by
    rintro _ c op r ⟨rfl, h⟩
    exact ⟨rfl, h⟩
  unsupported := by
    rintro _ c id ⟨rfl, h⟩
    exact ⟨rfl, h.markUnsupported blocks id⟩
  pause := by
    rintro _ c ⟨rfl, h⟩
    refine ⟨rfl, ?_⟩
    split <;> exact h
  head := by
    rintro _ c a b b' ⟨rfl, h⟩ - hb hb' -
    cases hb.symm.trans hb'
    exact ⟨rfl, h.congr (unsupported_head _ blocks b)⟩
  definition := by
    rintro _ _ code ⟨rfl, h⟩
    exact ⟨rfl, h.congr (unsupported_definition _ blocks code)⟩
  defaults := by
    rintro _ c code s i ⟨rfl, -⟩
    rfl
  internProcedure := by
    rintro _ c code ⟨rfl, h⟩
    exact ⟨rfl, h.congr (unsupported_internProcedure _ code)⟩
  callCode := by
    rintro _ c code ⟨rfl, h⟩
    exact ⟨rfl, h.congr (unsupported_internProcedure _ code)⟩
  argumentIndex := by
    rintro _ c name ⟨rfl, -⟩
    rfl
  readArg := by
    rintro _ c i ⟨rfl, h⟩
    exact ⟨rfl, h⟩

lemma Honest.install (h : c.Honest) (s : Signature) (body : Code) : (c.install s body).Honest := by
  refine h.congr ?_
  unfold Compiler.install
  simp only
  split <;> exact unsupported_internProcedure c s.code

lemma Honest.compile (h : c.Honest) (blocks : BlockMap) (id : String) (mode : Mode) :
    (c.compile .builtin blocks id mode).2.Honest := by
  have hroot : _ ∧ ((c.fresh.emit .start).root .builtin blocks id mode).Honest :=
    (couples_honest blocks).root (.refl blocks) (BlockMap.closed_all blocks) trivial mode ⟨rfl, h⟩
  have hend : (((c.fresh.emit .start).root .builtin blocks id mode).emit .halt).Honest :=
    hroot.2.congr rfl
  simp only [Compiler.compile]
  split
  · exact (hend.install _ _).congr rfl
  · exact hend

lemma Honest.compileAll (h : c.Honest) (blocks : BlockMap) (units : List (String × Mode)) :
    (c.compileAll .builtin blocks units).Honest := by
  induction units generalizing c with
  | nil => exact h
  | cons u rest ih => exact ih (h.compile blocks u.1 u.2)

lemma honest_new : new.Honest := fun _ h => by cases h

/-! ### All of it -/

/-- **Unsupported blocks are recorded exactly.** Where an unsupported block is met, in a stack or for
its value, the compiler changes in nothing but its record, and a value is null. Recorded are the
kinds of the unsupported blocks, shadows left aside, of the smallest set that has the block and, with
each block, what is plugged into it and what is below that. Working off a list of pending blocks,
the latest first and each block's inputs in any order, always comes to an end and records the same.
No unit ever records a kind that is supported. -/
theorem unsupported_exact (palette : Palette) (hacyclic : blocks.Acyclic) {id : String} {b : Block}
    (hb : blocks.get? id = some b) (hun : palette.isUnsupported b.opcode = true) (fuel : Nat)
    (c : Compiler) :
    (∃ recorded, (∀ opcode, recorded.contains opcode = true ↔
          blocks.Brings palette id opcode ∨ c.unsupported.contains opcode = true) ∧
        (descend palette blocks (fuel + 1)).stack (some id) c =
          (descend palette blocks fuel).stack b.next { c with unsupported := recorded } ∧
        (descend palette blocks (fuel + 1)).value id c =
          ({ c with unsupported := recorded } : Compiler).emit .null ∧
        ∀ s, Relation.ReflTransGen (Worklist.Step palette blocks) ⟨[id], c.unsupported⟩ s →
          s.pending = [] → ∀ opcode, s.recorded.contains opcode = recorded.contains opcode) ∧
      (WellFounded fun s t => Worklist.Step palette blocks t s) ∧
      (∀ s : Worklist, s.pending ≠ [] → ∃ t, Worklist.Step palette blocks s t) ∧
      ∀ units opcode, (new.compileAll .builtin blocks units).unsupported.contains opcode = true →
        Palette.builtin.isUnsupported opcode = true := by
  simp only [Palette.isUnsupported, Bool.and_eq_true, Bool.not_eq_true',
    Option.isNone_iff_eq_none] at hun
  obtain ⟨hhat, hrecipe⟩ := hun
  refine ⟨⟨(c.markUnsupported palette blocks id).unsupported,
      fun opcode => contains_markUnsupported hacyclic c, ?_, ?_, fun s hs hend opcode => ?_⟩,
    Worklist.wellFounded_step hacyclic, fun s hs => ?_,
    fun units => honest_new.compileAll blocks units⟩
  · simp only [descend, hb, command, hhat, hrecipe, Bool.false_eq_true, if_false]
    rfl
  · simp only [descend, value, hb, hrecipe]
    rfl
  · obtain ⟨done, hkept⟩ := (Worklist.kept_start c.unsupported).run hs
    rw [Bool.eq_iff_iff, hkept.contains hend, contains_markUnsupported hacyclic]
  · obtain ⟨_ | ⟨id, rest⟩, d⟩ := s
    · exact absurd rfl hs
    · exact Worklist.exists_step hacyclic id rest d

/-- A pen stamp with a supported sum plugged in, that holds a tempo and a menu, and a drum below the
sum. -/
def stamped : BlockMap := .ofList [
  ("stamp", { id := "stamp", opcode := "pen_stamp"
              inputs := .ofList [("SIZE", { value := some (.block "sum") })] }),
  ("sum", { id := "sum", opcode := "operator_add", next := some "drum"
            inputs := .ofList [("NUM1", { value := some (.block "tempo") }),
              ("NUM2", { value := some (.block "menu") })] }),
  ("tempo", { id := "tempo", opcode := "music_getTempo" }),
  ("menu", { id := "menu", opcode := "music_menu_DRUM", shadow := true }),
  ("drum", { id := "drum", opcode := "music_playDrum", next := some "gone" })]

/-- The drum below the sum is recorded, the shadow is not. -/
theorem unsupported_exact_stamped :
    stamped.Acyclic ∧ Palette.builtin.isUnsupported "pen_stamp" = true ∧
      ∃ recorded : Dictionary _, recorded.contains "music_playDrum" = true ∧
        recorded.contains "music_menu_DRUM" = false ∧
        (descend .builtin stamped 3).value "stamp" new =
          ({ new with unsupported := recorded } : Compiler).emit .null := by
  have hacyclic : stamped.Acyclic := BlockMap.acyclic_of_falling
    (fun id => ["drum", "menu", "tempo", "sum", "stamp"].idxOf id) (by decide +kernel)
  have hun : Palette.builtin.isUnsupported "pen_stamp" = true := by decide +kernel
  have hbrings : ∀ opcode, stamped.Brings .builtin "stamp" opcode ↔
      opcode ∈ unsupportedIn .builtin stamped stamped.size "stamp" := fun opcode =>
    (mem_unsupportedIn hacyclic fun h => rank_lt_size hacyclic h).symm
  obtain ⟨⟨recorded, hrecorded, -, hvalue, -⟩, -⟩ :=
    unsupported_exact .builtin hacyclic (show stamped.get? "stamp" = some _ from rfl) hun 2 new
  refine ⟨hacyclic, hun, recorded, (hrecorded _).2 (.inl ((hbrings _).2 (by decide +kernel))),
    Bool.eq_false_iff.2 fun h => ?_, hvalue⟩
  rcases (hrecorded _).1 h with hmenu | hnew
  · exact absurd ((hbrings _).1 hmenu) (by decide +kernel)
  · cases hnew

end Compiler

end Blockwork
