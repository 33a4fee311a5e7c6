import Blockwork.Program
import Blockwork.Proofs.Code.Loops

/-!
Code without its pauses. Two instructions are about the schedule only: the one that gives way and the
one that leads into warp. Without them the brackets of code match as they did before, and the same
loops are open at corresponding places.
-/

namespace Blockwork

/-- Says when to give way, and nothing else. -/
def Opcode.isPause : Opcode → Bool
  | .breakFrame | .warp => true
  | _ => false

lemma Opcode.not_isPause_of_isBracket {op : Opcode} (h : op.isBracket = true) :
    op.isPause = false := by
  cases op <;> first | rfl | cases h

namespace Code

/-- The instructions but the pauses. -/
def unpaused (is : List Instruction) : List Instruction := is.filter fun i => !i.opcode.isPause

/-- The same for opcodes alone. -/
def active (ops : List Opcode) : List Opcode := ops.filter fun op => !op.isPause

@[simp] lemma unpaused_nil : unpaused [] = [] := rfl

@[simp] lemma unpaused_append (xs ys : List Instruction) :
    unpaused (xs ++ ys) = unpaused xs ++ unpaused ys := List.filter_append ..

lemma unpaused_cons_of_pause {i : Instruction} (h : i.opcode.isPause = true) (is : List Instruction) :
    unpaused (i :: is) = unpaused is := by
  simp [unpaused, h]

lemma unpaused_cons {i : Instruction} (h : i.opcode.isPause = false) (is : List Instruction) :
    unpaused (i :: is) = i :: unpaused is := by
  simp [unpaused, h]

lemma map_unpaused (is : List Instruction) :
    (unpaused is).map (·.opcode) = active (is.map (·.opcode)) := by
  rw [active, List.filter_map]
  rfl

lemma allFull_unpaused {is : List Instruction} (h : AllFull is) : AllFull (unpaused is) :=
  fun i hi => h i (List.mem_filter.1 hi).1

lemma active_append (xs ys : List Opcode) : active (xs ++ ys) = active xs ++ active ys :=
  List.filter_append ..

lemma active_cons {op : Opcode} (h : op.isPause = false) (ops : List Opcode) :
    active (op :: ops) = op :: active ops := by
  simp [active, h]

lemma Nested.active {ops : List Opcode} (h : Nested ops) : Nested (active ops) := by
  have hone : ∀ {op : Opcode}, op.isBracket = true → ∀ ops, Code.active (op :: ops) =
      op :: Code.active ops := fun h ops => active_cons (Opcode.not_isPause_of_isBracket h) ops
  have hnil : Code.active [] = [] := rfl
  induction h with
  | nil => exact .nil
  | @plain op h =>
    cases hp : op.isPause with
    | true =>
      have hgone : Code.active [op] = [] := by simp [Code.active, hp]
      rw [hgone]
      exact .nil
    | false =>
      rw [active_cons hp]
      exact .plain h
  | append _ _ ihx ihy =>
    rw [active_append]
    exact ihx.append ihy
  | branch _ ih =>
    rw [hone rfl, active_append, hone rfl, hnil]
    exact .branch ih
  | choice _ _ ihx ihy =>
    rw [hone rfl, active_append, hone rfl, active_append, hone rfl, hnil]
    exact .choice ihx ihy
  | loop hop _ ih =>
    rw [hone (by rcases hop with rfl | rfl <;> rfl), active_append, hone rfl, hnil]
    exact .loop hop ih
  | tested _ _ ihx ihy =>
    rw [hone rfl, active_append, hone rfl, active_append, hone rfl, hnil]
    exact .tested ihx ihy

lemma LoopBody.active {op : Opcode} {xs : List Opcode} (h : LoopBody op xs) :
    LoopBody op (active xs) := by
  cases h with
  | plain hop hx => exact .plain hop hx.active
  | tested hx hy =>
    rw [active_append, active_cons rfl]
    exact .tested hx.active hy.active

/-- Pauses open and close nothing. -/
lemma length_opened_active (ops : List Opcode) :
    (opened (active ops)).length = (opened ops).length := by
  induction ops using List.reverseRecOn with
  | nil => rfl
  | append_singleton pre op ih =>
    cases hp : op.isPause with
    | true =>
      have hother : op.opensLoop = false ∧ op ≠ .loopEnd := by
        cases op <;> simp_all [Opcode.isPause, Opcode.opensLoop]
      have hgone : active (pre ++ [op]) = active pre := by simp [active, hp]
      rw [hgone, ih, opened_snoc, openStep_other hother.1 hother.2]
    | false =>
      have hkept : active (pre ++ [op]) = active pre ++ [op] := by simp [active, hp]
      rw [hkept, opened_snoc, opened_snoc]
      unfold openStep
      split
      · simp [ih]
      · split
        · simp [ih]
        · exact ih

end Code

/-- The tables with no pauses in the bodies of custom blocks. -/
def Tables.unpaused (t : Tables) : Tables :=
  { t with procedures := t.procedures.map fun body =>
      body.map fun code => .ofInstructions (Code.unpaused code.instructions) }

/-- The custom blocks without their pauses; the script itself is left out. -/
def Program.unpaused (p : Program) : Program where
  main := .ofInstructions []
  tables := p.tables.unpaused

lemma Program.code?_unpaused (p : Program) (i : Nat) :
    p.unpaused.code? (.procedure i) = (p.code? (.procedure i)).map fun code =>
      .ofInstructions (Code.unpaused code.instructions) := by
  simp only [code?, unpaused, Tables.unpaused, List.getElem?_map]
  cases p.tables.procedures[i]? <;> rfl

end Blockwork
