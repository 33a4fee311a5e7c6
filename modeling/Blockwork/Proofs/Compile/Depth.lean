import Blockwork.Proofs.Blocks.Commands
import Blockwork.Proofs.Compile.Listing

/-!
How deep blocks are followed. References are followed to a bounded depth; in a map without cycles
each of them leads to a block of lower rank, so the bound is never met: a descent that goes deeper
compiles every block in the same way.
-/

namespace Blockwork

namespace Compiler

section

variable {palette : Palette} {blocks : BlockMap}

/-- The stack in an input starts with the block plugged in there. -/
lemma bodyId?_eq_some (hkey : blocks.Keyed) {b : Block} {name id : String}
    (h : bodyId? blocks b name = some id) :
    b.plugged? name = some id ∧ (blocks.get? id).isSome := by
  obtain ⟨x, hx, rfl⟩ := Option.map_eq_some_iff.1 h
  obtain ⟨k, hk, hg⟩ := Option.bind_eq_some_iff.1 hx
  have hid : x.id = k := hkey.ids (k, x) (Dictionary.mem_of_get? hg)
  rw [hid]
  exact ⟨hk, by rw [hg]; rfl⟩

/-- A stack that starts with no block does nothing. -/
lemma stack_of_none {first : Option String} (h : first.bind blocks.get? = none) (fuel : Nat)
    (c : Compiler) : (descend palette blocks fuel).stack first c = c := by
  cases fuel with
  | zero => rfl
  | succ fuel =>
    cases first with
    | none => rfl
    | some id => simp_all [descend]

lemma stack_of_some {id : String} {b : Block} (h : blocks.get? id = some b) (fuel : Nat)
    (c : Compiler) : (descend palette blocks (fuel + 1)).stack (some id) c =
      (descend palette blocks fuel).stack b.next
        (c.command palette (descend palette blocks fuel) blocks id b) := by
  simp only [descend, h]

/-! ### Descents that agree -/

/-- Two descents compile alike whatever is in the inputs of a block. -/
structure Descent.Agree (blocks : BlockMap) (b : Block) (d d' : Descent) : Prop where
  value : ∀ {name id}, b.source blocks name = .block id → d.value id = d'.value id
  body : ∀ name, d.stack (bodyId? blocks b name) = d'.stack (bodyId? blocks b name)

variable {d d' : Descent} {b : Block} (h : Descent.Agree blocks b d d')

include h

lemma Descent.Agree.input (c : Compiler) (name : String) :
    c.input d blocks b name = c.input d' blocks b name := by
  rw [input_eq, input_eq]
  cases hs : b.source blocks name with
  | block id => exact congrFun (h.value hs) c
  | _ => rfl

lemma Descent.Agree.step : step palette d blocks b = step palette d' blocks b := by
  have hbody : ∀ c name, Compiler.body d blocks b name c = Compiler.body d' blocks b name c :=
    fun c name => congrFun (h.body name) c
  funext c s
  cases s <;> simp only [Compiler.step, condition, h.input, hbody]

lemma Descent.Agree.recipe (c : Compiler) (r : Recipe) :
    c.recipe palette d blocks b r = c.recipe palette d' blocks b r := by
  have hargument : argument d blocks b = argument d' blocks b := by
    funext s c arg
    simp only [argument, h.input]
  cases r <;> simp only [Compiler.recipe, steps, call, h.step, hargument]

lemma Descent.Agree.command (c : Compiler) (id : String) :
    c.command palette d blocks id b = c.command palette d' blocks id b := by
  simp only [Compiler.command, h.recipe]

omit h

/-! ### Deep enough -/

/-- To two depths blocks are followed alike, but for those of a rank that one of them falls short
of. -/
structure Level (palette : Palette) (blocks : BlockMap) (fuel fuel' : Nat) : Prop where
  value : ∀ id, (blocks.get? id).isSome → blocks.rank id < fuel → blocks.rank id < fuel' →
    (descend palette blocks fuel).value id = (descend palette blocks fuel').value id
  stack : ∀ first : Option String, (∀ id ∈ first, (blocks.get? id).isSome →
      blocks.rank id < fuel ∧ blocks.rank id < fuel') →
    (descend palette blocks fuel).stack first = (descend palette blocks fuel').stack first

section

variable {fuel fuel' : Nat} {id : String} (hkey : blocks.Keyed) (hac : blocks.Acyclic)

include hkey hac

lemma Level.agree (h : Level palette blocks fuel fuel') (hb : blocks.get? id = some b)
    (hrank : blocks.rank id ≤ fuel) (hrank' : blocks.rank id ≤ fuel') :
    Descent.Agree blocks b (descend palette blocks fuel) (descend palette blocks fuel') where
  value := by
    intro name id' hs
    have hlead := BlockMap.leads_of_source hb hs
    have hlt := BlockMap.rank_lt hac hlead
    exact h.value id' hlead.choose_spec.2.2 (by omega) (by omega)
  body := by
    intro name
    refine h.stack _ fun id' hid' hsome => ?_
    have hlt := BlockMap.rank_lt hac
      (BlockMap.leads_of_plugged hb (bodyId?_eq_some hkey hid').1 hsome)
    omega

lemma Level.succ (h : Level palette blocks fuel fuel') :
    Level palette blocks (fuel + 1) (fuel' + 1) where
  value := by
    intro id hsome hlt hlt'
    obtain ⟨b, hb⟩ := Option.isSome_iff_exists.1 hsome
    have hagree := h.agree hkey hac hb (Nat.le_of_lt_succ hlt) (Nat.le_of_lt_succ hlt')
    funext c
    simp only [descend, Compiler.value, hb, hagree.recipe]
  stack := by
    intro first hfirst
    funext c
    cases hb : first.bind blocks.get? with
    | none => rw [stack_of_none hb, stack_of_none hb]
    | some b =>
      obtain ⟨id, rfl, hb⟩ := Option.bind_eq_some_iff.1 hb
      obtain ⟨hlt, hlt'⟩ := hfirst id rfl (Option.isSome_iff_exists.2 ⟨b, hb⟩)
      have hagree := h.agree hkey hac hb (Nat.le_of_lt_succ hlt) (Nat.le_of_lt_succ hlt')
      have hnext := h.stack b.next fun id' hid' hsome => by
        have := BlockMap.rank_lt hac (BlockMap.leads_of_next hb hid' hsome)
        omega
      rw [stack_of_some hb, stack_of_some hb, hagree.command, hnext]

omit hkey hac in
/-- Without any depth no block is followed, so there is nothing to compare. -/
lemma level_of_zero (h : fuel = 0 ∨ fuel' = 0) : Level palette blocks fuel fuel' where
  value := by
    intro id _ hlt hlt'
    omega
  stack := by
    intro first hfirst
    have hnone : first.bind blocks.get? = none := by
      refine Option.eq_none_iff_forall_not_mem.2 fun b hb => ?_
      obtain ⟨id, hid, hb⟩ := Option.bind_eq_some_iff.1 hb
      have := hfirst id hid (Option.isSome_iff_exists.2 ⟨b, hb⟩)
      omega
    funext c
    rw [stack_of_none hnone, stack_of_none hnone]

/-- Deep enough is as good as deeper. -/
lemma level (palette : Palette) (fuel fuel' : Nat) : Level palette blocks fuel fuel' := by
  induction fuel generalizing fuel' with
  | zero => exact level_of_zero (.inl rfl)
  | succ fuel ih =>
    cases fuel' with
    | zero => exact level_of_zero (.inr rfl)
    | succ fuel' => exact (ih fuel').succ hkey hac

end

/-- Compiles from a root and follows blocks to a given depth. -/
def rootWithin (palette : Palette) (blocks : BlockMap) (fuel : Nat) (id : String) (mode : Mode)
    (c : Compiler) : Compiler :=
  let d := descend palette blocks fuel
  match mode with
  | .script => d.stack (some id) c
  | .reporter => d.value id c
  | .predicate =>
    match blocks.get? id with
    | none => c.emit .null
    | some b =>
      match palette.predicate? b.opcode with
      | some r => c.recipe palette d blocks b r
      | none => c.emit .null

lemma rootWithin_depth (palette : Palette) (blocks : BlockMap) (id : String) (mode : Mode)
    (c : Compiler) :
    c.rootWithin palette blocks (depth blocks) id mode = c.root palette blocks id mode := rfl

/-- **No block is too deep**: in a map without cycles, to follow blocks further than the compiler does
changes nothing. -/
theorem rootWithin_eq_root (hkey : blocks.Keyed) (hac : blocks.Acyclic) (palette : Palette)
    {fuel : Nat} (hfuel : depth blocks ≤ fuel) (id : String) (mode : Mode) (c : Compiler) :
    c.rootWithin palette blocks fuel id mode = c.root palette blocks id mode := by
  have hrank : ∀ id, blocks.rank id < depth blocks := fun id =>
    (blocks.rank_le id).trans_lt (by unfold depth; omega)
  have hdeep : ∀ id, blocks.rank id < fuel := fun id => (hrank id).trans_le hfuel
  have hlevel := level hkey hac palette fuel (depth blocks)
  rw [← rootWithin_depth]
  cases mode with
  | script => exact congrFun (hlevel.stack (some id) fun id' _ _ => ⟨hdeep id', hrank id'⟩) c
  | reporter =>
    cases hb : blocks.get? id with
    | some b =>
      exact congrFun (hlevel.value id (Option.isSome_iff_exists.2 ⟨b, hb⟩) (hdeep id) (hrank id)) c
    | none =>
      obtain ⟨k, rfl⟩ := Nat.exists_eq_add_one_of_ne_zero (Nat.ne_zero_of_lt (hdeep id))
      simp only [rootWithin, depth, descend, value, hb]
  | predicate =>
    cases hb : blocks.get? id with
    | none => simp only [rootWithin, hb]
    | some b =>
      have hagree := hlevel.agree hkey hac hb (hdeep id).le (hrank id).le
      simp only [rootWithin, hb, hagree.recipe]

end

end Compiler

end Blockwork
