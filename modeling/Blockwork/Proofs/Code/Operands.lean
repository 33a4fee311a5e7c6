import Blockwork.Proofs.Code.Nesting
import Blockwork.Proofs.Machine.Running

/-!
The operands of code, read off before it runs. Each instruction takes some operands and gives some,
and a few of them settle: what was evaluated before such an instruction is used up when it is done.
The shape after a sequence says where each operand on the stack was pushed and how many calls are
being prepared.
-/

namespace Blockwork

namespace Native

/-- Leaves a value behind. -/
def reports : Native → Bool
  | .timerAbove | .loudnessAbove | .math _ | .reading _ | .keyPressed | .attributeOf
  | .control .yieldValue | .control .join => true
  | _ => false

/-- May ask to be called again from the checkpoint. -/
def retries : Native → Bool
  | .wait | .waitUntil | .control .retryUnless => true
  | _ => false

end Native

namespace Opcode

/-- How many operands it takes off the stack. -/
def takes : Opcode → Nat
  | .binary _ | .random | .list .insert | .list .replace => 2
  | .branch | .times | .untilTest | .unary _ | .addArg | .var .set | .var .change
  | .list .append | .list .delete | .list .item | .list .indexOf | .list .contains => 1
  | _ => 0

/-- How many operands it puts there. -/
def gives : Opcode → Nat
  | .const | .null | .round | .unary _ | .binary _ | .random | .readArg | .var .read
  | .list .read | .list .item | .list .indexOf | .list .length | .list .contains => 1
  | _ => 0

/-- Uses up what was evaluated before it. -/
def settles : Opcode → Bool
  | .halt | .checkpoint | .callProcedure => true
  | op => op.isBracket

end Opcode

namespace Instruction

/-- The native that is called. -/
def native? (t : Tables) (i : Instruction) : Option Native :=
  if i.opcode = .exec then t.natives[i.operand]? else none

def takes (t : Tables) (i : Instruction) : Nat :=
  (i.native? t).elim i.opcode.takes Native.pops

def gives (t : Tables) (i : Instruction) : Nat :=
  (i.native? t).elim i.opcode.gives fun n => if n.reports then 1 else 0

/-- A native settles unless it is a reporter. -/
def settles (t : Tables) (i : Instruction) : Bool :=
  (i.native? t).elim i.opcode.settles fun n => !n.reports

lemma native?_of_ne {t : Tables} {i : Instruction} (h : i.opcode ≠ .exec) : i.native? t = none :=
  if_neg h

lemma native?_exec (t : Tables) (xs : List UInt32) :
    (Instruction.mk .exec xs).native? t = t.natives[(Instruction.mk .exec xs).operand]? :=
  if_pos rfl

lemma opcode_of_native? {t : Tables} {i : Instruction} {n : Native} (h : i.native? t = some n) :
    i.opcode = .exec := by
  by_contra hne
  rw [native?_of_ne hne] at h
  cases h

lemma takes_of_ne {t : Tables} {i : Instruction} (h : i.opcode ≠ .exec) :
    i.takes t = i.opcode.takes := by
  rw [takes, native?_of_ne h]
  rfl

lemma gives_of_ne {t : Tables} {i : Instruction} (h : i.opcode ≠ .exec) :
    i.gives t = i.opcode.gives := by
  rw [gives, native?_of_ne h]
  rfl

lemma settles_of_ne {t : Tables} {i : Instruction} (h : i.opcode ≠ .exec) :
    i.settles t = i.opcode.settles := by
  rw [settles, native?_of_ne h]
  rfl

lemma takes_of_native {t : Tables} {i : Instruction} {n : Native} (h : i.native? t = some n) :
    i.takes t = n.pops := by
  rw [takes, h]
  rfl

lemma gives_of_native {t : Tables} {i : Instruction} {n : Native} (h : i.native? t = some n) :
    i.gives t = if n.reports then 1 else 0 := by
  rw [gives, h]
  rfl

lemma settles_of_native {t : Tables} {i : Instruction} {n : Native} (h : i.native? t = some n) :
    i.settles t = !n.reports := by
  rw [settles, h]
  rfl

/-- What does not settle is no bracket and no call of a custom block. -/
lemma not_bracket_of_not_settles {t : Tables} {i : Instruction} (h : i.settles t = false) :
    i.opcode.isBracket = false ∧ i.opcode ≠ .callProcedure ∧ i.opcode ≠ .checkpoint := by
  by_cases hx : i.opcode = .exec
  · simp [hx, Opcode.isBracket]
  · rw [settles_of_ne hx] at h
    cases hop : i.opcode <;> simp_all [Opcode.settles, Opcode.isBracket]

end Instruction

/-- What is on the stack, by the addresses where it was pushed, the topmost first, and how many
calls are being prepared. -/
@[ext]
structure Shape where
  origins : List Nat
  pending : Nat
  deriving DecidableEq

namespace Shape

def blank : Shape := ⟨[], 0⟩

/-- What an instruction does by itself. -/
def after (t : Tables) (s : Shape) (a : Nat) (i : Instruction) : Shape where
  origins := List.replicate (i.gives t) a ++ s.origins.drop (i.takes t)
  pending :=
    match i.opcode with
    | .initProcedure => s.pending + 1
    | .callProcedure => s.pending - 1
    | _ => s.pending

/-- What settles leaves nothing. -/
def step (t : Tables) (s : Shape) (a : Nat) (i : Instruction) : Shape :=
  if i.settles t then blank else s.after t a i

def run (t : Tables) (s : Shape) (a : Nat) : List Instruction → Shape
  | [] => s
  | i :: is => (s.step t a i).run t (a + 1 + i.opcode.operandCount) is

lemma run_append (t : Tables) (s : Shape) (a : Nat) (xs ys : List Instruction) :
    s.run t a (xs ++ ys) = (s.run t a xs).run t (a + Code.extent xs) ys := by
  induction xs generalizing s a with
  | nil => simp [run]
  | cons i is ih =>
    rw [List.cons_append, run, ih, run, Code.extent_cons]
    congr 1
    omega

end Shape

namespace Code

/-- The shape after a sequence. -/
def shape (t : Tables) (is : List Instruction) : Shape := Shape.blank.run t 0 is

variable {t : Tables}

@[simp] lemma shape_nil : shape t [] = .blank := rfl

lemma shape_snoc (pre : List Instruction) (i : Instruction) :
    shape t (pre ++ [i]) = (shape t pre).step t (extent pre) i := by
  rw [shape, Shape.run_append, Nat.zero_add]
  rfl

lemma shape_snoc_settles (pre : List Instruction) {i : Instruction} (h : i.settles t = true) :
    shape t (pre ++ [i]) = .blank := by
  rw [shape_snoc, Shape.step, if_pos h]

lemma shape_snoc_plain (pre : List Instruction) {i : Instruction} (h : i.settles t = false) :
    shape t (pre ++ [i]) = (shape t pre).after t (extent pre) i := by
  rw [shape_snoc, Shape.step, h]
  rfl

/-! ### Values -/

/-- Evaluates a value, wherever it stands: nothing in it settles, and it adds one operand to what
was there, which its last instruction pushes. -/
structure Pushes (t : Tables) (is : List Instruction) : Prop where
  quiet : ∀ i ∈ is, i.settles t = false
  shape : ∀ before, shape t (before ++ is) =
    ⟨extent (before ++ is.dropLast) :: (shape t before).origins, (shape t before).pending⟩

/-- An instruction that only gives a value. -/
lemma pushes_one {i : Instruction} (hs : i.settles t = false) (ht : i.takes t = 0)
    (hg : i.gives t = 1) (hop : i.opcode ≠ .initProcedure) : Pushes t [i] := by
  have hcall := (Instruction.not_bracket_of_not_settles hs).2.1
  refine ⟨by simpa using hs, fun before => ?_⟩
  rw [shape_snoc_plain before hs, Shape.after, ht, hg, List.drop_zero, List.dropLast_singleton,
    List.append_nil]
  ext1
  · rfl
  · cases h : i.opcode <;> simp_all

/-- What turns the value into another one. -/
lemma Pushes.snoc {is : List Instruction} {i : Instruction} (h : Pushes t is)
    (hs : i.settles t = false) (ht : i.takes t = 1) (hg : i.gives t = 1)
    (hop : i.opcode ≠ .initProcedure) : Pushes t (is ++ [i]) := by
  have hcall := (Instruction.not_bracket_of_not_settles hs).2.1
  refine ⟨?_, fun before => ?_⟩
  · intro j hj
    rcases List.mem_append.1 hj with hj | hj
    · exact h.quiet j hj
    · rwa [List.mem_singleton.1 hj]
  · rw [← List.append_assoc, shape_snoc_plain _ hs, Shape.after, h.shape, ht, hg,
      List.dropLast_concat]
    ext1
    · rfl
    · cases h : i.opcode <;> simp_all

end Code

end Blockwork
