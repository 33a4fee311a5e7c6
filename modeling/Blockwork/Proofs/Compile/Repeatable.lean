import Blockwork.Proofs.Compile.Couples
import Blockwork.Proofs.Correct.Reporters

/-!
What a unit is compiled to does not depend on what else is compiled, nor on when. The places that
operands name differ from one use of the compiler to another; what stands there does not. And on the
same compiler a unit that is compiled again finds all its entries where it put them the first time.

The compiler remembers the signatures of custom blocks. As long as all that it can remember under a
code is the one signature that the map has for it, this memory makes no difference.
-/

namespace Blockwork

/-- What an instruction says when its operand is replaced by what it stands for. -/
inductive Sense where
  | plain (op : Opcode) (operands : List UInt32)
  | const (v : Value)
  | var (op : VariableOp) (id : String)
  | list (op : ListOp) (id : String)
  | native (n : Native)
  /-- A call of the custom block of some code. -/
  | procedure (code : String)

/-- The entry of a table that the operand of an instruction names. -/
def Instruction.entry? {α : Type} (i : Instruction) (table : List α) : Option α :=
  i.operands.head?.bind fun x => table[x.toNat]?

def Instruction.sense? (t : Tables) (i : Instruction) : Option Sense :=
  match i.opcode with
  | .const => (i.entry? t.constants).map .const
  | .var op => (i.entry? t.vars).map fun r => .var op r.id
  | .list op => (i.entry? t.lists).map fun r => .list op r.id
  | .exec => (i.entry? t.natives).map .native
  | .callProcedure => (i.entry? t.procedureCodes).map .procedure
  | op => some (.plain op i.operands)

/-- What the instructions of some code say, if every operand stands for something. -/
def Code.senses? (t : Tables) (code : Code) : Option (List Sense) :=
  code.instructions.mapM (·.sense? t)

lemma Instruction.entry?_mono {α : Type} {xs ys : List α} (h : xs <+: ys) {i : Instruction} {a : α}
    (ha : i.entry? xs = some a) : i.entry? ys = some a := by
  obtain ⟨x, hx, hget⟩ := Option.bind_eq_some_iff.1 ha
  exact Option.bind_eq_some_iff.2 ⟨x, hx, get?_mono h hget⟩

/-- What an instruction says stays as the tables grow. -/
lemma Instruction.sense?_mono {s t : Tables} (h : s.Grows t) {i : Instruction} {x : Sense}
    (hx : i.sense? s = some x) : i.sense? t = some x := by
  unfold sense? at hx ⊢
  split at hx
  case h_1 =>
    obtain ⟨a, ha, rfl⟩ := Option.map_eq_some_iff.1 hx
    rw [entry?_mono h.constants ha, Option.map_some]
  case h_2 =>
    obtain ⟨a, ha, rfl⟩ := Option.map_eq_some_iff.1 hx
    rw [entry?_mono h.vars ha, Option.map_some]
  case h_3 =>
    obtain ⟨a, ha, rfl⟩ := Option.map_eq_some_iff.1 hx
    rw [entry?_mono h.lists ha, Option.map_some]
  case h_4 =>
    obtain ⟨a, ha, rfl⟩ := Option.map_eq_some_iff.1 hx
    rw [entry?_mono h.natives ha, Option.map_some]
  case h_5 =>
    obtain ⟨a, ha, rfl⟩ := Option.map_eq_some_iff.1 hx
    rw [entry?_mono h.codes ha, Option.map_some]
  case h_6 => exact hx

lemma mapM_sense?_eq_some {t : Tables} {is : List Instruction} {ss : List Sense} :
    is.mapM (·.sense? t) = some ss ↔ is.map (·.sense? t) = ss.map some := by
  induction is generalizing ss with
  | nil =>
    cases ss <;> simp
  | cons i is ih =>
    simp only [List.mapM_cons, Option.bind_eq_bind, Option.bind_eq_some_iff, List.map_cons]
    constructor
    · rintro ⟨x, hx, xs, hxs, he⟩
      cases he
      rw [List.map_cons, hx, ih.1 hxs]
    · intro h
      cases ss with
      | nil => cases h
      | cons s ss =>
        rw [List.map_cons, List.cons.injEq] at h
        exact ⟨s, h.1, ss, ih.2 h.2, rfl⟩

/-- An operand names the entry that was put there for it. -/
lemma entry?_ofNat {α : Type} {xs : List α} {op : Opcode} {i : Nat} {a : α}
    (hs : xs.length ≤ UInt32.size) (h : xs[i]? = some a) :
    Instruction.entry? ⟨op, [UInt32.ofNat i]⟩ xs = some a :=
  get?_toNat_ofNat hs h

section

variable {α : Type} {same : α → α → Bool} {a : α} {table later : List α}

/-- What was entered once is found again, at the same place. -/
lemma intern_again (hrefl : same a a = true) (h : (intern same a table).2 <+: later) :
    intern same a later = ((intern same a table).1, later) := by
  have hfound : later.findIdx? (same · a) = some (intern same a table).1 := by
    obtain ⟨more, rfl⟩ := h
    rw [List.findIdx?_append]
    unfold intern
    cases hi : table.findIdx? (same · a) with
    | some i => simp [hi]
    | none => simp [List.findIdx?_append, hi, hrefl]
  unfold intern
  rw [hfound]
  rfl

end

lemma Value.identical_refl (v : Value) : v.identical v = true := by
  cases v <;> simp [identical]

namespace Compiler

/-- Instructions say something, at any later time. -/
def Say (t : Tables) (is : List Instruction) (ss : List Sense) : Prop :=
  ∀ t', t.Grows t' → t'.Small → is.map (·.sense? t') = ss.map some

/-- One compiler follows another. What was emitted by both says the same; and if the second has all
that the first will ever enter into its tables, it has emitted the same and entered nothing. -/
structure Retraces (blocks : BlockMap) (t : Tables) (c c' : Compiler) : Prop where
  signature : c'.signature = c.signature
  warp : c'.warp = c.warp
  known : c.Known blocks ∧ c'.Known blocks
  senses : ∃ ss, Say c.tables c.code ss ∧ Say c'.tables c'.code ss
  again : c.tables.Grows t → c'.tables = t ∧ c'.code = c.code

section

variable {blocks : BlockMap} {t : Tables} {c c' e e' : Compiler}

/-- Both emit something that says the same. -/
lemma Retraces.both (h : Retraces blocks t c c') {is is' : List Instruction} (he : c.Emits is e)
    (he' : c'.Emits is' e') (hk : Keeps blocks c e) (hk' : Keeps blocks c' e') {ss : List Sense}
    (hs : Say e.tables is ss) (hs' : Say e'.tables is' ss)
    (hagain : e.tables.Grows t → c'.tables = t → e'.tables = t ∧ is' = is) :
    Retraces blocks t e e' where
  signature := he'.signature.trans (h.signature.trans he.signature.symm)
  warp := he'.warp.trans (h.warp.trans he.warp.symm)
  known := ⟨hk.known h.known.1, hk'.known h.known.2⟩
  senses := by
    obtain ⟨xs, hx, hx'⟩ := h.senses
    refine ⟨xs ++ ss, fun t' hg hsmall => ?_, fun t' hg hsmall => ?_⟩
    · rw [he.code, List.map_append, List.map_append, hx t' (he.grows.trans hg) hsmall, hs t' hg hsmall]
    · rw [he'.code, List.map_append, List.map_append, hx' t' (he'.grows.trans hg) hsmall,
        hs' t' hg hsmall]
  again hg := by
    obtain ⟨htables, hcode⟩ := h.again (he.grows.trans hg)
    obtain ⟨htables', rfl⟩ := hagain hg htables
    exact ⟨htables', by rw [he.code, he'.code, hcode]⟩

lemma say_nil (t : Tables) : Say t [] [] := fun _ _ _ => rfl

/-- Both enter something and emit nothing. -/
lemma Retraces.entered (h : Retraces blocks t c c') (he : c.Emits [] e) (he' : c'.Emits [] e')
    (hk : Keeps blocks c e) (hk' : Keeps blocks c' e')
    (hagain : e.tables.Grows t → c'.tables = t → e'.tables = t) : Retraces blocks t e e' :=
  h.both he he' hk hk' (say_nil _) (say_nil _) fun hg ht => ⟨hagain hg ht, rfl⟩

/-- Both emit an instruction with an operand. -/
lemma Retraces.emitAt (h : Retraces blocks t c c') {op : Opcode} {i i' : Nat} {s : Sense}
    (hs : Say c.tables [⟨op, [UInt32.ofNat i]⟩] [s]) (hs' : Say c'.tables [⟨op, [UInt32.ofNat i']⟩] [s])
    (hi : c.tables.Grows t → c'.tables = t → i' = i) :
    Retraces blocks t (c.emitAt op i) (c'.emitAt op i') :=
  h.both (emits_emitAt c op i) (emits_emitAt c' op i') (keeps_emitAt c op i) (keeps_emitAt c' op i')
    hs hs' fun hg ht => ⟨ht, by rw [hi hg ht]⟩

/-! ### Entries -/

lemma sameId_refl (r : Reference) : sameId r r = true := beq_self_eq_true r.id

lemma Retraces.internConst (h : Retraces blocks t c c') (v : Value) :
    Retraces blocks t (c.internConst v).2 (c'.internConst v).2 := by
  refine h.entered (emits_internConst c v) (emits_internConst c' v)
    (keeps_of_emits (emits_internConst c v) rfl rfl) (keeps_of_emits (emits_internConst c' v) rfl rfl)
    fun hg ht => ?_
  simp only [Compiler.internConst, ht, intern_again v.identical_refl hg.constants]

lemma Retraces.internNative (h : Retraces blocks t c c') (n : Native) :
    Retraces blocks t (c.internNative n).2 (c'.internNative n).2 := by
  refine h.entered (emits_internNative c n) (emits_internNative c' n)
    (keeps_of_emits (emits_internNative c n) rfl rfl) (keeps_of_emits (emits_internNative c' n) rfl rfl)
    fun hg ht => ?_
  simp only [Compiler.internNative, ht, intern_again (beq_self_eq_true n) hg.natives]

lemma Retraces.internVariable (h : Retraces blocks t c c') (r : Reference) :
    Retraces blocks t (c.internVariable r).2 (c'.internVariable r).2 := by
  refine h.entered (emits_internVariable c r) (emits_internVariable c' r) (keeps_internVariable c r)
    (keeps_internVariable c' r) fun hg ht => ?_
  simp only [Compiler.internVariable, ht, intern_again (sameId_refl r) hg.vars]

lemma Retraces.internList (h : Retraces blocks t c c') (r : Reference) :
    Retraces blocks t (c.internList r).2 (c'.internList r).2 := by
  refine h.entered (emits_internList c r) (emits_internList c' r) (keeps_internList c r)
    (keeps_internList c' r) fun hg ht => ?_
  simp only [Compiler.internList, ht, intern_again (sameId_refl r) hg.lists]

lemma Retraces.internProcedure (h : Retraces blocks t c c') (code : String) :
    Retraces blocks t (c.internProcedure code).2 (c'.internProcedure code).2 := by
  refine h.entered (emits_internProcedure c code) (emits_internProcedure c' code)
    (keeps_internProcedure c code) (keeps_internProcedure c' code) fun hg ht => ?_
  rw [internProcedure_found (ht ▸ hg.codes)]
  exact ht

/-! ### Instructions -/

lemma say_const (c : Compiler) (v : Value) : Say (c.internConst v).2.tables
    [⟨.const, [UInt32.ofNat (c.internConst v).1]⟩] [.const v] := by
  intro t' hg hsmall
  obtain ⟨e, he, hv⟩ := get_intern Value.identical v c.tables.constants
  have hsame : e = v := hv.elim id Value.eq_of_identical
  have hentry : Instruction.entry? ⟨.const, [UInt32.ofNat (c.internConst v).1]⟩ t'.constants =
      some e := entry?_ofNat hsmall.constants (get?_mono hg.constants he)
  simp only [List.map_cons, List.map_nil, Instruction.sense?, hentry, hsame, Option.map_some]

lemma say_native (c : Compiler) (n : Native) : Say (c.internNative n).2.tables
    [⟨.exec, [UInt32.ofNat (c.internNative n).1]⟩] [.native n] := by
  intro t' hg hsmall
  obtain ⟨e, he, hn⟩ := get_intern (· == ·) n c.tables.natives
  have hsame : e = n := by simpa using hn
  have hentry : Instruction.entry? ⟨.exec, [UInt32.ofNat (c.internNative n).1]⟩ t'.natives =
      some e := entry?_ofNat hsmall.natives (get?_mono hg.natives he)
  simp only [List.map_cons, List.map_nil, Instruction.sense?, hentry, hsame, Option.map_some]

lemma say_variable (c : Compiler) (op : VariableOp) (r : Reference) :
    Say (c.internVariable r).2.tables [⟨.var op, [UInt32.ofNat (c.internVariable r).1]⟩]
      [.var op r.id] := by
  intro t' hg hsmall
  obtain ⟨e, he, hr⟩ := get_intern sameId r c.tables.vars
  have hid : e.id = r.id := hr.elim (congrArg Reference.id) (by simp [sameId])
  have hentry : Instruction.entry? ⟨.var op, [UInt32.ofNat (c.internVariable r).1]⟩ t'.vars =
      some e := entry?_ofNat hsmall.vars (get?_mono hg.vars he)
  simp only [List.map_cons, List.map_nil, Instruction.sense?, hentry, hid, Option.map_some]

lemma say_list (c : Compiler) (op : ListOp) (r : Reference) :
    Say (c.internList r).2.tables [⟨.list op, [UInt32.ofNat (c.internList r).1]⟩]
      [.list op r.id] := by
  intro t' hg hsmall
  obtain ⟨e, he, hr⟩ := get_intern sameId r c.tables.lists
  have hid : e.id = r.id := hr.elim (congrArg Reference.id) (by simp [sameId])
  have hentry : Instruction.entry? ⟨.list op, [UInt32.ofNat (c.internList r).1]⟩ t'.lists =
      some e := entry?_ofNat hsmall.lists (get?_mono hg.lists he)
  simp only [List.map_cons, List.map_nil, Instruction.sense?, hentry, hid, Option.map_some]

lemma say_procedure (c : Compiler) (code : String) : Say (c.internProcedure code).2.tables
    [⟨.callProcedure, [UInt32.ofNat (c.internProcedure code).1]⟩] [.procedure code] := by
  intro t' hg hsmall
  have hentry : Instruction.entry? ⟨.callProcedure, [UInt32.ofNat (c.internProcedure code).1]⟩
      t'.procedureCodes = some code :=
    entry?_ofNat hsmall.codes (get?_mono hg.codes (get_internProcedure c code))
  simp only [List.map_cons, List.map_nil, Instruction.sense?, hentry, Option.map_some]

lemma say_plain {op : Opcode} (h : op.operandCount = 0 ∨ op = .readArg) (xs : List UInt32) (t : Tables) :
    Say t [⟨op, xs⟩] [.plain op xs] := by
  intro t' _ _
  cases op <;> simp [Opcode.operandCount] at h <;> rfl

lemma Retraces.emit (h : Retraces blocks t c c') {op : Opcode} (hop : op.operandCount = 0) :
    Retraces blocks t (c.emit op) (c'.emit op) :=
  h.both (emits_emit c op) (emits_emit c' op) (keeps_emit c op) (keeps_emit c' op)
    (say_plain (.inl hop) [] _) (say_plain (.inl hop) [] _) fun _ ht => ⟨ht, rfl⟩

lemma Retraces.const (h : Retraces blocks t c c') (v : Value) :
    Retraces blocks t (c.const v) (c'.const v) := by
  refine (h.internConst v).emitAt (say_const c v) (say_const c' v) fun hg _ => ?_
  obtain ⟨ht, -⟩ := h.again ((emits_internConst c v).grows.trans hg)
  change (intern _ v c'.tables.constants).1 = (intern _ v c.tables.constants).1
  rw [ht, intern_again v.identical_refl hg.constants]

lemma Retraces.callNative (h : Retraces blocks t c c') (n : Native) :
    Retraces blocks t (c.callNative n) (c'.callNative n) := by
  refine (h.internNative n).emitAt (say_native c n) (say_native c' n) fun hg _ => ?_
  obtain ⟨ht, -⟩ := h.again ((emits_internNative c n).grows.trans hg)
  change (intern _ n c'.tables.natives).1 = (intern _ n c.tables.natives).1
  rw [ht, intern_again (beq_self_eq_true n) hg.natives]

lemma Retraces.variableOp (h : Retraces blocks t c c') (op : VariableOp) (r : Reference) :
    Retraces blocks t (c.variableOp op r) (c'.variableOp op r) := by
  refine (h.internVariable r).emitAt (say_variable c op r) (say_variable c' op r) fun hg _ => ?_
  obtain ⟨ht, -⟩ := h.again ((emits_internVariable c r).grows.trans hg)
  change (intern _ r c'.tables.vars).1 = (intern _ r c.tables.vars).1
  rw [ht, intern_again (sameId_refl r) hg.vars]

lemma Retraces.listOp (h : Retraces blocks t c c') (op : ListOp) (r : Reference) :
    Retraces blocks t (c.listOp op r) (c'.listOp op r) := by
  refine (h.internList r).emitAt (say_list c op r) (say_list c' op r) fun hg _ => ?_
  obtain ⟨ht, -⟩ := h.again ((emits_internList c r).grows.trans hg)
  change (intern _ r c'.tables.lists).1 = (intern _ r c.tables.lists).1
  rw [ht, intern_again (sameId_refl r) hg.lists]

lemma Retraces.callCode (h : Retraces blocks t c c') (code : String) :
    Retraces blocks t (c.callCode code) (c'.callCode code) := by
  refine (h.internProcedure code).emitAt (say_procedure c code) (say_procedure c' code) fun hg _ => ?_
  obtain ⟨ht, -⟩ := h.again ((emits_internProcedure c code).grows.trans hg)
  change (c'.internProcedure code).1 = (c.internProcedure code).1
  rw [internProcedure_found (ht ▸ hg.codes)]

/-! ### Custom blocks -/

lemma tables_definition (c : Compiler) (code : String) :
    (c.definition blocks code).2.tables = c.tables := by
  unfold Compiler.definition
  repeat' split
  all_goals rfl

lemma Retraces.definition (h : Retraces blocks t c c') (code : String) :
    Retraces blocks t (c.definition blocks code).2 (c'.definition blocks code).2 :=
  h.entered (plain_definition c code).emits (plain_definition c' code).emits (keeps_definition c code)
    (keeps_definition c' code) fun _ ht => (tables_definition c' code).trans ht

/-- The map has one signature for each head. -/
def OneSignature (blocks : BlockMap) : Prop :=
  ∀ id b s, blocks.get? id = some b → b.head? blocks = some s →
    findSignature? blocks s.code = some s

lemma known_define {s : Signature} (hs : findSignature? blocks s.code = some s)
    (hc : c.Known blocks) : (c.define s).Known blocks := by
  intro code s' hs'
  simp only [define, Dictionary.get?_insert] at hs'
  split at hs'
  · next he =>
    cases hs'
    rw [he, hs]
  · exact (keeps_internProcedure c s.code).known hc code s' hs'

lemma Retraces.define (h : Retraces blocks t c c') {s : Signature}
    (hs : findSignature? blocks s.code = some s) : Retraces blocks t (c.define s) (c'.define s) := by
  obtain ⟨-, -, -, hsenses, hagain⟩ := h.internProcedure s.code
  exact ⟨rfl, rfl, ⟨known_define hs h.known.1, known_define hs h.known.2⟩, hsenses, hagain⟩

lemma Retraces.head (h : Retraces blocks t c c') (hone : OneSignature blocks) {a : String}
    {b : Block} (hb : blocks.get? a = some b) (hop : b.opcode = "procedures_definition") :
    Retraces blocks t (c.head blocks b) (c'.head blocks b) := by
  cases hs : b.head? blocks with
  | none =>
    rw [head_of_no_head hop hs, head_of_no_head hop hs]
    exact h
  | some s =>
    rw [head_of_head? hop hs, head_of_head? hop hs]
    have hdefine := h.define (hone a b s hb hs)
    split
    · exact hdefine.emit rfl
    · exact hdefine

/-- Compiling a unit again retraces it. -/
lemma couples_retraces (hone : OneSignature blocks) (t : Tables) :
    Couples blocks blocks (fun _ => True) (Retraces blocks t) where
  emit h hop := h.emit hop.alone
  const v h := h.const v
  callNative h _ := h.callNative _
  internVariable r h := h.internVariable r
  internList r h := h.internList r
  variableOp op r h := h.variableOp op r
  listOp op r h := h.listOp op r
  unsupported {c c'} id h := h.entered (emits_markUnsupported c .builtin blocks id)
    (emits_markUnsupported c' .builtin blocks id) (keeps_markUnsupported c .builtin id)
    (keeps_markUnsupported c' .builtin id) fun _ ht => ht
  pause {c c'} h := by
    rw [h.warp]
    split
    · exact h
    · exact h.emit rfl
  head h _ hb hb' hop := by
    cases hb.symm.trans hb'
    exact h.head hone hb hop
  definition code h := h.definition code
  defaults code s i h := by rw [definition_eq h.known.1, definition_eq h.known.2]
  internProcedure code h := h.internProcedure code
  callCode code h := h.callCode code
  argumentIndex name h := by rw [h.signature]
  readArg i h := h.emitAt (say_plain (.inr rfl) _ _) (say_plain (.inr rfl) _ _) fun _ _ => rfl

/-! ### Units -/

/-- The state at the end of a unit, before it becomes a body. -/
def finished (c : Compiler) (blocks : BlockMap) (id : String) (mode : Mode) : Compiler :=
  ((c.fresh.emit .start).root .builtin blocks id mode).emit .halt

lemma composes_known (hone : OneSignature blocks) :
    Composes blocks fun c _ c' => c.Known blocks → c'.Known blocks where
  append h k hc := k (h hc)
  piece _ h := h.keeps.known
  head := by
    intro a b hb hop _ c hc
    cases hs : b.head? blocks with
    | none => rwa [head_of_no_head hop hs]
    | some s =>
      have hdefine := known_define (hone a b s hb hs) hc
      rw [head_of_head? hop hs]
      split
      · exact hdefine
      · exact hdefine

lemma known_finished (hone : OneSignature blocks) (hc : c.Known blocks) (id : String)
    (mode : Mode) : (c.finished blocks id mode).Known blocks :=
  (composes_known hone).listing c id mode hc

lemma known_of_oneSignature (hone : OneSignature blocks) (hc : c.Known blocks)
    (units : List (String × Mode)) : (c.compileAll .builtin blocks units).Known blocks := by
  induction units generalizing c with
  | nil => exact hc
  | cons u rest ih =>
    refine ih ?_
    have hfinished := known_finished hone hc u.1 u.2
    simp only [Compiler.compile]
    split
    · next s _ =>
      have hin := (@keeps_internProcedure blocks _ s.code).known hfinished
      simp only [install]
      split
      · exact hin
      · exact hin
    · exact hfinished

lemma instructions_eq_finished (c : Compiler) (blocks : BlockMap) (id : String) (mode : Mode) :
    (c.compile .builtin blocks id mode).1.instructions = (c.finished blocks id mode).code := by
  have hcode := (writes_listing c blocks id mode).puts.code
  rw [instructions_compile, finished, hcode]
  rfl

/-- A unit that two compilers compile is retraced. -/
lemma retraces_finished (hone : OneSignature blocks) (hc : c.Known blocks) (hc' : c'.Known blocks)
    (t : Tables) (ht : c'.tables = t) (id : String) (mode : Mode) :
    Retraces blocks t (c.finished blocks id mode) (c'.finished blocks id mode) := by
  have hstart : Retraces blocks t (c.fresh.emit .start) (c'.fresh.emit .start) :=
    ⟨rfl, rfl, ⟨hc, hc'⟩, ⟨_, say_plain (.inl rfl) [] _, say_plain (.inl rfl) [] _⟩,
      fun _ => ⟨ht, rfl⟩⟩
  exact ((couples_retraces hone t).root (.refl blocks) (BlockMap.closed_all blocks) trivial mode
    hstart).emit rfl

/-- What a unit says, when the tables are complete. -/
lemma Say.senses? {id : String} {mode : Mode} {ss : List Sense}
    (h : Say (c.finished blocks id mode).tables (c.finished blocks id mode).code ss)
    (hg : (c.compile .builtin blocks id mode).2.tables.Grows t) (hs : t.Small) :
    (c.compile .builtin blocks id mode).1.senses? t = some ss := by
  unfold Code.senses?
  rw [mapM_sense?_eq_some, instructions_eq_finished]
  exact h t ((grows_end c blocks id mode).trans hg) hs

lemma procedureCodes_install (c : Compiler) (s : Signature) (body : Code) :
    (c.install s body).tables.procedureCodes =
      (c.internProcedure s.code).2.tables.procedureCodes := by
  simp only [install]
  split <;> rfl

/-- After a body was given there is one. -/
lemma exists_body_install (ht : c.tables.Tidy) (s : Signature) (body : Code) :
    ∃ x, (c.install s body).tables.procedures[(c.internProcedure s.code).1]? = some (some x) := by
  have hcode := get_internProcedure c s.code
  have hlt : (c.internProcedure s.code).1 <
      (c.internProcedure s.code).2.tables.procedures.length := by
    rw [((emits_internProcedure c s.code).grows.tidy ht).aligned]
    exact lt_of_get? hcode
  simp only [install]
  generalize c.internProcedure s.code = interned at hlt ⊢
  obtain ⟨i, c'⟩ := interned
  simp only at hlt ⊢
  cases hx : c'.tables.procedures.get ⟨i, hlt⟩ with
  | some x =>
    have hget : c'.tables.procedures[i]? = some (some x) := by
      rw [List.getElem?_eq_getElem hlt]
      exact congrArg some hx
    exact ⟨x, by rw [hget]; exact hget⟩
  | none =>
    have hget : c'.tables.procedures[i]? = some none := by
      rw [List.getElem?_eq_getElem hlt]
      exact congrArg some hx
    exact ⟨body, by rw [hget]; simp [hlt]⟩

/-- A body that was given is not given again. -/
lemma install_again {s : Signature} {body body' : Code} (ht : c.tables.Tidy)
    (h : (c.install s body).tables.Grows e.tables) : e.install s body' = e := by
  obtain ⟨x, hx⟩ := exists_body_install ht s body
  have hplace : e.internProcedure s.code = ((c.internProcedure s.code).1, e) :=
    internProcedure_found (procedureCodes_install c s body ▸ h.codes)
  simp only [install, hplace]
  rw [h.bodies _ x hx]

lemma tables_compile_of_none {id : String} {mode : Mode}
    (h : (c.finished blocks id mode).signature = none) :
    (c.compile .builtin blocks id mode).2.tables = (c.finished blocks id mode).tables := by
  simp only [Compiler.compile]
  split
  · next hs => exact absurd (hs.symm.trans h) (by simp)
  · rfl

lemma tables_compile_of_some {id : String} {mode : Mode} {s : Signature}
    (h : (c.finished blocks id mode).signature = some s) :
    (c.compile .builtin blocks id mode).2.tables =
      ((c.finished blocks id mode).install s (c.compile .builtin blocks id mode).1).tables := by
  simp only [Compiler.compile]
  split
  · next hs =>
    cases hs.symm.trans h
    rfl
  · next hs => exact absurd (hs.symm.trans h) (by simp)

/-- A unit that is compiled again is the same, and leaves the tables as they are. -/
lemma compile_again (hone : OneSignature blocks) (hc : c.Known blocks) (he : e.Known blocks)
    (ht : c.tables.Tidy) {id : String} {mode : Mode}
    (hg : (c.compile .builtin blocks id mode).2.tables.Grows e.tables) :
    (e.compile .builtin blocks id mode).1 = (c.compile .builtin blocks id mode).1 ∧
      (e.compile .builtin blocks id mode).2.tables = e.tables := by
  have hr := retraces_finished hone hc he e.tables rfl id mode
  obtain ⟨htables, hcode⟩ := hr.again ((grows_end c blocks id mode).trans hg)
  have hunit : (e.compile .builtin blocks id mode).1 = (c.compile .builtin blocks id mode).1 :=
    congrArg (fun is => Code.ofWords (Code.encode is).toArray) hcode
  refine ⟨hunit, ?_⟩
  cases hs : (c.finished blocks id mode).signature with
  | none => rw [tables_compile_of_none (hr.signature.trans hs), htables]
  | some s =>
    rw [tables_compile_of_some hs] at hg
    have htidy := (writes_listing c blocks id mode).puts.grows.tidy ht
    rw [tables_compile_of_some (hr.signature.trans hs), install_again htidy (htables ▸ hg), htables]

end

end Compiler

/-- The heads of custom blocks have prototypes, and prototypes of the same code declare the same. -/
structure BlockMap.Consistent (blocks : BlockMap) : Prop where
  heads : ∀ e ∈ blocks.entries, e.2.opcode = "procedures_definition" →
    ∀ x ∈ Compiler.pluggedBlock? blocks e.2 "custom_block", x.opcode = Compiler.prototypeOpcode
  agree : ∀ e ∈ blocks.entries, ∀ e' ∈ blocks.entries,
    e.2.opcode = Compiler.prototypeOpcode → e'.2.opcode = Compiler.prototypeOpcode →
    ∀ m ∈ e.2.mutation, ∀ m' ∈ e'.2.mutation,
      (Signature.ofMutation m).code = (Signature.ofMutation m').code →
        Signature.ofMutation m = Signature.ofMutation m'

namespace Compiler

lemma findSignature?_entry {blocks : BlockMap} {code : String} {s : Signature}
    (h : findSignature? blocks code = some s) : ∃ e ∈ blocks.entries, e.2.opcode = prototypeOpcode ∧
      ∃ m ∈ e.2.mutation, s = Signature.ofMutation m ∧ s.code = code := by
  obtain ⟨e, he, hs⟩ := List.exists_of_findSome?_eq_some h
  simp only at hs
  split at hs
  · next hop =>
    obtain ⟨hmap, hcode⟩ := Option.filter_eq_some_iff.1 hs
    obtain ⟨m, hm, rfl⟩ := Option.map_eq_some_iff.1 hmap
    exact ⟨e, he, by simpa using hop, m, hm, rfl, by simpa using hcode⟩
  · cases hs

/-- A prototype is found by its code, if no other one of that code declares something else. -/
lemma findSignature?_of_consistent {blocks : BlockMap} (h : blocks.Consistent)
    {e : String × Block} (he : e ∈ blocks.entries) (hop : e.2.opcode = prototypeOpcode)
    {m : Mutation} (hm : e.2.mutation = some m) :
    findSignature? blocks (Signature.ofMutation m).code = some (Signature.ofMutation m) := by
  have hsome : (findSignature? blocks (Signature.ofMutation m).code).isSome :=
    List.findSome?_isSome_iff.2 ⟨e, he, by simp [hop, hm]⟩
  obtain ⟨s, hs⟩ := Option.isSome_iff_exists.1 hsome
  obtain ⟨e', he', hop', m', hm', rfl, hcode⟩ := findSignature?_entry hs
  rw [hs, h.agree e' he' e he hop' hop m' hm' m hm hcode]

lemma oneSignature_of_consistent {blocks : BlockMap} (h : blocks.Consistent) :
    OneSignature blocks := by
  intro id b s hb hs
  have hop := opcode_of_head? hs
  simp only [Block.head?, hop, beq_self_eq_true, if_true] at hs
  obtain ⟨m, hm, rfl⟩ := Option.map_eq_some_iff.1 hs
  obtain ⟨x, hx, hm⟩ := Option.bind_eq_some_iff.1 hm
  obtain ⟨k, -, hk⟩ := Option.bind_eq_some_iff.1 hx
  exact findSignature?_of_consistent h (Dictionary.mem_of_get? hk)
    (h.heads (id, b) (Dictionary.mem_of_get? hb) hop x hx) hm

end Compiler

/-- What some code says stays as the tables grow. -/
lemma Code.senses?_mono {s t : Tables} (h : s.Grows t) {code : Code} {ss : List Sense}
    (hs : code.senses? s = some ss) : code.senses? t = some ss := by
  unfold senses? at hs ⊢
  rw [mapM_sense?_eq_some] at hs ⊢
  rw [← hs, List.map_inj_left]
  intro i hi
  obtain ⟨x, -, hx⟩ := List.mem_map.1 (hs ▸ List.mem_map_of_mem hi)
  rw [← hx, Instruction.sense?_mono h hx.symm]

namespace Compiler

/-- **Compiling is repeatable**: two compilers that both compile a unit, whatever else they compile
before and after, make code of it that says the same; a unit that is compiled again has the same
words and adds nothing to the tables; and what is compiled later only adds to the tables, so that no
code changes what it says. -/
theorem compile_repeatable {blocks : BlockMap} (h : blocks.Consistent)
    (before later before' later' : List (String × Mode)) (id : String) (mode : Mode) :
    let c := Compiler.new.compileAll .builtin blocks before
    let c' := Compiler.new.compileAll .builtin blocks before'
    let unit := c.compile .builtin blocks id mode
    let unit' := c'.compile .builtin blocks id mode
    let e := unit.2.compileAll .builtin blocks later
    let e' := unit'.2.compileAll .builtin blocks later'
    (e.tables.Small → e'.tables.Small →
      ∃ ss, unit.1.senses? e.tables = some ss ∧ unit'.1.senses? e'.tables = some ss) ∧
    ((e.compile .builtin blocks id mode).1 = unit.1 ∧
      (e.compile .builtin blocks id mode).2.tables = e.tables) ∧
    unit.2.tables.Grows e.tables ∧
      ∀ (code : Code) (ss : List Sense), code.senses? unit.2.tables = some ss →
        code.senses? e.tables = some ss := by
  intro c c' unit unit' e e'
  have hone := oneSignature_of_consistent h
  have hnew : Compiler.new.Known blocks := fun code s hs => by cases hs
  have hc : c.Known blocks := known_of_oneSignature hone hnew before
  have hc' : c'.Known blocks := known_of_oneSignature hone hnew before'
  have he : e.Known blocks := known_of_oneSignature hone hc ((id, mode) :: later)
  have hgrows : unit.2.tables.Grows e.tables := grows_compileAll _ blocks later
  have hgrows' : unit'.2.tables.Grows e'.tables := grows_compileAll _ blocks later'
  refine ⟨fun hs hs' => ?_, compile_again hone hc he (tidy_compileAll blocks before) hgrows,
    hgrows, fun code ss => Code.senses?_mono hgrows⟩
  obtain ⟨ss, hsay, hsay'⟩ := (retraces_finished hone hc hc' c'.tables rfl id mode).senses
  exact ⟨ss, hsay.senses? hgrows hs, hsay'.senses? hgrows' hs'⟩

/-- A script that calls a custom block and leaves out the argument. -/
def greeting : BlockMap := .ofList [
  ("flag", { id := "flag", opcode := "event_whenflagclicked", topLevel := true
             next := some "call" }),
  ("call", { id := "call", opcode := "procedures_call"
             mutation := some { code := some "greet %s", argumentIds := some "[\"a\"]" } }),
  ("head", { id := "head", opcode := "procedures_definition", topLevel := true
             next := some "say"
             inputs := .ofList [("custom_block", { value := some (.block "greet") })] }),
  ("greet", { id := "greet", opcode := "procedures_prototype"
              mutation := some { code := some "greet %s", argumentIds := some "[\"a\"]"
                                 argumentNames := some "[\"who\"]"
                                 argumentDefaults := some "[\"world\"]" } }),
  ("say", { id := "say", opcode := "looks_say"
            inputs := .ofList [("MESSAGE", { value := some (.value (.text "hello")) })] })]

lemma consistent_greeting : greeting.Consistent where
  heads := by decide
  agree := by
    intro e he e' he' hop hop' m hm m' hm' _
    obtain ⟨x, hx⟩ : ∃ x, greeting.entries.filter (·.2.opcode == prototypeOpcode) = [x] :=
      List.length_eq_one_iff.1 (by decide)
    have hone : ∀ y ∈ greeting.entries, y.2.opcode = prototypeOpcode → y = x := by
      intro y hy hop
      have hmem : y ∈ greeting.entries.filter (·.2.opcode == prototypeOpcode) :=
        List.mem_filter.2 ⟨hy, by simpa using hop⟩
      rw [hx] at hmem
      exact List.mem_singleton.1 hmem
    rw [hone e he hop] at hm
    rw [hone e' he' hop'] at hm'
    cases hm.symm.trans hm'
    rfl

/-- Compiled before or after the custom block, the script has other words and says the same. -/
theorem compile_repeatable_greeting :
    let c := Compiler.new.compileAll .builtin greeting []
    let c' := Compiler.new.compileAll .builtin greeting [("head", .script)]
    let unit := c.compile .builtin greeting "flag" .script
    let unit' := c'.compile .builtin greeting "flag" .script
    let e := unit.2.compileAll .builtin greeting [("head", .script)]
    let e' := unit'.2.compileAll .builtin greeting []
    greeting.Consistent ∧ unit.1 ≠ unit'.1 ∧
      (∃ ss, unit.1.senses? e.tables = some ss ∧ unit'.1.senses? e'.tables = some ss) ∧
      (e.compile .builtin greeting "flag" .script).1 = unit.1 := by
  intro c c' unit unit' e e'
  have hsmall : e.tables.Small ∧ e'.tables.Small := by decide +kernel
  obtain ⟨hsenses, ⟨hagain, -⟩, -⟩ := compile_repeatable consistent_greeting [] [("head", .script)]
    [("head", .script)] [] "flag" .script
  exact ⟨consistent_greeting, by decide +kernel, hsenses hsmall.1 hsmall.2, hagain⟩

end Compiler

end Blockwork
