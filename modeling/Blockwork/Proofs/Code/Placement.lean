import Blockwork.Code.Basic
import Mathlib.Order.Basic
import Mathlib.Tactic.Lemma

/-!
Where instructions stand. An instruction takes one word and one more for its operand, so the
addresses of a sequence depend on its opcodes only; code written from full instructions reads back
as the same instructions.
-/

namespace Blockwork

/-- An item of two lists put together stands in the first one or in the second one. -/
lemma append_eq_split {α : Type} {xs ys pre post : List α} {a : α}
    (h : xs ++ ys = pre ++ a :: post) :
    (∃ rest, xs = pre ++ a :: rest ∧ post = rest ++ ys) ∨
      ∃ before, pre = xs ++ before ∧ ys = before ++ a :: post := by
  rcases List.append_eq_append_iff.1 h with ⟨before, rfl, rfl⟩ | ⟨mid, rfl, hmid⟩
  · exact Or.inr ⟨before, rfl, rfl⟩
  · rcases mid with _ | ⟨x, rest⟩
    · exact Or.inr ⟨[], by simp, by simpa using hmid.symm⟩
    · cases hmid
      exact Or.inl ⟨rest, rfl, rfl⟩

lemma cons_eq_split {α : Type} {x a : α} {xs pre post : List α} (h : x :: xs = pre ++ a :: post) :
    (pre = [] ∧ a = x ∧ post = xs) ∨ ∃ before, pre = x :: before ∧ xs = before ++ a :: post := by
  rcases pre with _ | ⟨y, before⟩
  · cases h
    exact Or.inl ⟨rfl, rfl, rfl⟩
  · cases h
    exact Or.inr ⟨before, rfl, rfl⟩

/-- Has the operands that its opcode asks for. -/
def Instruction.Full (i : Instruction) : Prop := i.operands.length = i.opcode.operandCount

instance (i : Instruction) : Decidable i.Full :=
  inferInstanceAs (Decidable (i.operands.length = i.opcode.operandCount))

namespace Code

/-- The words that a sequence of instructions takes. -/
def width : List Opcode → Nat
  | [] => 0
  | op :: rest => 1 + op.operandCount + width rest

@[simp] lemma width_nil : width [] = 0 := rfl

@[simp] lemma width_cons (op : Opcode) (rest : List Opcode) :
    width (op :: rest) = 1 + op.operandCount + width rest := rfl

@[simp] lemma width_append (xs ys : List Opcode) : width (xs ++ ys) = width xs + width ys := by
  induction xs with
  | nil => simp
  | cons op rest ih => simp [ih]; omega

/-- The opcodes with their addresses, the first at `start`. -/
def place (start : Nat) : List Opcode → List (Nat × Opcode)
  | [] => []
  | op :: rest => (start, op) :: place (start + 1 + op.operandCount) rest

@[simp] lemma place_nil (a : Nat) : place a [] = [] := rfl

@[simp] lemma place_cons (a : Nat) (op : Opcode) (rest : List Opcode) :
    place a (op :: rest) = (a, op) :: place (a + 1 + op.operandCount) rest := rfl

lemma place_append (a : Nat) (xs ys : List Opcode) :
    place a (xs ++ ys) = place a xs ++ place (a + width xs) ys := by
  induction xs generalizing a with
  | nil => simp
  | cons op rest ih =>
    simp only [List.cons_append, place_cons, ih, width_cons]
    congr 3
    omega

lemma addressed_eq_place (a : Nat) (is : List Instruction) :
    addressed a is = place a (is.map (·.opcode)) := by
  induction is generalizing a with
  | nil => rfl
  | cons i rest ih => simp [addressed, ih]

/-- The addresses of a sequence lie between its start and its end. -/
lemma place_bounds {a : Nat} {ops : List Opcode} {x : Nat × Opcode} (h : x ∈ place a ops) :
    a ≤ x.1 ∧ x.1 < a + width ops := by
  induction ops generalizing a with
  | nil => simp at h
  | cons op rest ih =>
    rw [place_cons, List.mem_cons] at h
    simp only [width_cons]
    rcases h with rfl | h
    · exact ⟨Nat.le_refl _, by simp only; omega⟩
    · have := ih h
      omega

/-! ### Reading back -/

@[simp] lemma encode_nil : encode [] = [] := rfl

@[simp] lemma encode_cons (i : Instruction) (rest : List Instruction) :
    encode (i :: rest) = i.opcode.toWord :: (i.operands ++ encode rest) := by
  simp [encode, Instruction.words]

@[simp] lemma encode_append (xs ys : List Instruction) :
    encode (xs ++ ys) = encode xs ++ encode ys := by
  simp [encode]

/-- Instructions that are all full. -/
def AllFull (is : List Instruction) : Prop := ∀ i ∈ is, i.Full

lemma AllFull.append {xs ys : List Instruction} (hx : AllFull xs) (hy : AllFull ys) :
    AllFull (xs ++ ys) := by
  intro i hi
  rcases List.mem_append.1 hi with h | h
  · exact hx i h
  · exact hy i h

lemma AllFull.left {xs ys : List Instruction} (h : AllFull (xs ++ ys)) : AllFull xs :=
  fun i hi => h i (List.mem_append_left _ hi)

lemma AllFull.right {xs ys : List Instruction} (h : AllFull (xs ++ ys)) : AllFull ys :=
  fun i hi => h i (List.mem_append_right _ hi)

lemma length_encode {is : List Instruction} (h : AllFull is) :
    (encode is).length = width (is.map (·.opcode)) := by
  induction is with
  | nil => rfl
  | cons i rest ih =>
    have hi : i.operands.length = i.opcode.operandCount := h i (by simp)
    have hr := ih fun j hj => h j (List.mem_cons_of_mem _ hj)
    simp only [encode_cons, List.length_cons, List.length_append, List.map_cons, width_cons, hr,
      hi]
    omega

/-- Full instructions are read back as they were written. -/
lemma decode_encode {is : List Instruction} (h : AllFull is) : decode (encode is) = is := by
  induction is with
  | nil => simp [decode]
  | cons i rest ih =>
    have hi : i.operands.length = i.opcode.operandCount := h i (by simp)
    have hr := ih fun j hj => h j (List.mem_cons_of_mem _ hj)
    rw [encode_cons, decode, Opcode.ofWord?_toWord]
    simp only [← hi, List.take_left, List.drop_left, hr]

/-- The code that is written from a sequence of instructions. -/
def ofInstructions (is : List Instruction) : Code := ofWords (encode is).toArray

@[simp] lemma words_ofInstructions (is : List Instruction) :
    (ofInstructions is).words = (encode is).toArray := rfl

lemma instructions_ofInstructions {is : List Instruction} (h : AllFull is) :
    (ofInstructions is).instructions = is := by
  simp [instructions, decode_encode h]

lemma jump?_ofInstructions {is : List Instruction} (h : AllFull is) (a : Nat) :
    (ofInstructions is).jump? a =
      ((place 0 (is.map (·.opcode))).foldl Scan.step Scan.start).jumps.lookup a := by
  simp [jump?, ofInstructions, ofWords, jumpsOf, decode_encode h, addressed_eq_place]

/-- The word at a boundary is that of the instruction there. -/
lemma word_at {pre : List Instruction} {i : Instruction} {post : List Instruction}
    (h : AllFull pre) :
    (encode (pre ++ i :: post))[width (pre.map (·.opcode))]? = some i.opcode.toWord := by
  rw [encode_append, List.getElem?_append_right (Nat.le_of_eq (length_encode h)), length_encode h]
  simp

/-- The word after a boundary is the operand of the instruction there. -/
lemma operand_at {pre : List Instruction} {op : Opcode} {x : UInt32} {post : List Instruction}
    (h : AllFull pre) :
    (encode (pre ++ ⟨op, [x]⟩ :: post))[width (pre.map (·.opcode)) + 1]? = some x := by
  rw [encode_append, List.getElem?_append_right (by rw [length_encode h]; omega), length_encode h]
  simp

end Code

end Blockwork
