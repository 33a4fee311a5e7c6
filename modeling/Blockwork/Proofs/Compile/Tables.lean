import Blockwork.Compile.Emit
import Blockwork.Proofs.Code.Placement
import Mathlib.Data.List.Infix

/-!
The tables only ever grow: entries stay where they are, and a custom block that has a body keeps
it. So an operand that was handed out means the same at any later time.
-/

namespace Blockwork

/-! ### Identical values

There is one NaN only, so values that count as the same constant are equal.
-/

open Float.Model Float.Model.UnpackedFloat in
lemma Number.toBits_of_isNaN {x : Float} (h : x.isNaN = true) :
    x.toBits = UInt64.ofBitVec (packedNaN Format.binary64) := by
  have hnan : (UnpackedFloat.unpack Format.binary64 x.toModel.toBits.toBitVec).isNaN = true := h
  have key : @unpackExponent Format.binary64 x.toModel.toBits.toBitVec = -1#_ ∧
      @unpackMantissa Format.binary64 x.toModel.toBits.toBitVec ≠ 0#_ := by
    generalize x.toModel.toBits.toBitVec = b at hnan ⊢
    have hunpack : ∀ u, UnpackedFloat.unpack Format.binary64 b = u → u.isNaN = true :=
      fun u hu => hu ▸ hnan
    by_cases he : @unpackExponent Format.binary64 b = -1#_
    · exact ⟨he, fun hm => by cases hunpack (.infinity _) ((if_pos he).trans (if_pos hm))⟩
    · by_cases hz : @unpackExponent Format.binary64 b = 0#_
      · by_cases hm : @unpackMantissa Format.binary64 b = 0#_
        · cases hunpack (.zero _) ((if_neg he).trans ((if_pos hz).trans (dif_pos hm)))
        · cases hunpack (.finite _ _ _ _) ((if_neg he).trans ((if_pos hz).trans (dif_neg hm)))
      · cases hunpack (.finite _ _ _ _) ((if_neg he).trans (if_neg hz))
  rw [← x.toModel.valid.eq_packedNaN key.1 key.2]
  rfl

lemma Value.eq_of_identical {a b : Value} (h : a.identical b = true) : a = b := by
  cases a <;> cases b <;>
    simp only [Value.identical, Bool.or_eq_true, Bool.and_eq_true, beq_iff_eq,
      Bool.false_eq_true] at h
  case number.number x y =>
    have hbits : x.toBits = y.toBits := by
      rcases h with h | ⟨hx, hy⟩
      · exact h
      · rw [Number.toBits_of_isNaN hx, Number.toBits_of_isNaN hy]
    obtain ⟨⟨_, _⟩⟩ := x
    obtain ⟨⟨_, _⟩⟩ := y
    cases hbits
    rfl
  all_goals rw [h]

/-! ### Interning -/

section

variable {α : Type} (same : α → α → Bool) (a : α) (table : List α)

lemma prefix_intern : table <+: (intern same a table).2 := by
  unfold intern
  split
  · exact List.prefix_rfl
  · exact List.prefix_append _ _

/-- The position leads to the entry itself or to one that counts as the same. -/
lemma get_intern :
    ∃ e, (intern same a table).2[(intern same a table).1]? = some e ∧ (e = a ∨ same e a) := by
  unfold intern
  split
  · next i h =>
    obtain ⟨hi, hs, -⟩ := List.findIdx?_eq_some_iff_getElem.1 h
    exact ⟨table[i], by simp, Or.inr hs⟩
  · exact ⟨a, by simp, Or.inl rfl⟩

lemma nodup_intern [DecidableEq α] (h : table.Nodup) :
    (intern (· == ·) a table).2.Nodup := by
  unfold intern
  split
  · exact h
  · next hn =>
    have hnot : a ∉ table := by
      intro hmem
      have := List.findIdx?_eq_none_iff.1 hn a hmem
      simp at this
    rw [List.nodup_append]
    exact ⟨h, by simp, fun x hx y hy => by rintro rfl; simp_all⟩

end

/-! ### Growth -/

namespace Tables

/-- The table of custom blocks has one place for each code, and no native stands twice. -/
structure Tidy (t : Tables) : Prop where
  aligned : t.procedures.length = t.procedureCodes.length
  codes : t.procedureCodes.Nodup
  natives : t.natives.Nodup

/-- What may have happened to the tables between two moments. -/
structure Grows (s t : Tables) : Prop where
  constants : s.constants <+: t.constants
  vars : s.vars <+: t.vars
  lists : s.lists <+: t.lists
  natives : s.natives <+: t.natives
  codes : s.procedureCodes <+: t.procedureCodes
  places : s.procedures.length ≤ t.procedures.length
  bodies : ∀ (i : Nat) (body : Code), s.procedures[i]? = some (some body) →
    t.procedures[i]? = some (some body)
  tidy : s.Tidy → t.Tidy

lemma Grows.refl (t : Tables) : t.Grows t :=
  ⟨List.prefix_rfl, List.prefix_rfl, List.prefix_rfl, List.prefix_rfl, List.prefix_rfl,
    Nat.le_refl _, fun _ _ h => h, fun h => h⟩

lemma Grows.trans {r s t : Tables} (h : r.Grows s) (k : s.Grows t) : r.Grows t where
  constants := h.constants.trans k.constants
  vars := h.vars.trans k.vars
  lists := h.lists.trans k.lists
  natives := h.natives.trans k.natives
  codes := h.codes.trans k.codes
  places := h.places.trans k.places
  bodies := fun i body hb => k.bodies i body (h.bodies i body hb)
  tidy := fun ht => k.tidy (h.tidy ht)

lemma tidy_empty : Tables.Tidy {} := ⟨rfl, List.nodup_nil, List.nodup_nil⟩

end Tables

lemma get?_mono {α : Type} {xs ys : List α} (h : xs <+: ys) {i : Nat} {a : α}
    (ha : xs[i]? = some a) : ys[i]? = some a := by
  obtain ⟨zs, rfl⟩ := h
  obtain ⟨hi, rfl⟩ := List.getElem?_eq_some_iff.1 ha
  rw [List.getElem?_append_left hi]
  simp

/-! ### What the compiler emits -/

/-- On the way from one state of the compiler to another some instructions were emitted and
nothing changed but the tables, which grew. -/
structure Compiler.Emits (c : Compiler) (is : List Instruction) (c' : Compiler) : Prop where
  code : c'.code = c.code ++ is
  grows : c.tables.Grows c'.tables
  signature : c'.signature = c.signature
  warp : c'.warp = c.warp

namespace Compiler

lemma Emits.refl (c : Compiler) : c.Emits [] c := ⟨by simp, .refl _, rfl, rfl⟩

lemma Emits.trans {c c' c'' : Compiler} {is js : List Instruction} (h : c.Emits is c')
    (k : c'.Emits js c'') : c.Emits (is ++ js) c'' where
  code := by rw [k.code, h.code, List.append_assoc]
  grows := h.grows.trans k.grows
  signature := k.signature.trans h.signature
  warp := k.warp.trans h.warp

lemma emits_emit (c : Compiler) (op : Opcode) : c.Emits [⟨op, []⟩] (c.emit op) :=
  ⟨rfl, .refl _, rfl, rfl⟩

lemma emits_emitAt (c : Compiler) (op : Opcode) (i : Nat) :
    c.Emits [⟨op, [UInt32.ofNat i]⟩] (c.emitAt op i) :=
  ⟨rfl, .refl _, rfl, rfl⟩

lemma emits_markUnsupported (c : Compiler) (palette : Palette) (blocks : BlockMap) (id : String) :
    c.Emits [] (c.markUnsupported palette blocks id) :=
  ⟨by simp [markUnsupported], .refl _, rfl, rfl⟩

lemma emits_internConst (c : Compiler) (v : Value) : c.Emits [] (c.internConst v).2 where
  code := by simp [internConst]
  grows :=
    { Tables.Grows.refl c.tables with
      constants := prefix_intern _ _ _
      tidy := fun h => ⟨h.aligned, h.codes, h.natives⟩ }
  signature := rfl
  warp := rfl

lemma emits_internVariable (c : Compiler) (r : Reference) :
    c.Emits [] (c.internVariable r).2 where
  code := by simp [internVariable]
  grows :=
    { Tables.Grows.refl c.tables with
      vars := prefix_intern _ _ _
      tidy := fun h => ⟨h.aligned, h.codes, h.natives⟩ }
  signature := rfl
  warp := rfl

lemma emits_internList (c : Compiler) (r : Reference) : c.Emits [] (c.internList r).2 where
  code := by simp [internList]
  grows :=
    { Tables.Grows.refl c.tables with
      lists := prefix_intern _ _ _
      tidy := fun h => ⟨h.aligned, h.codes, h.natives⟩ }
  signature := rfl
  warp := rfl

lemma emits_internNative (c : Compiler) (n : Native) : c.Emits [] (c.internNative n).2 where
  code := by simp [internNative]
  grows :=
    { Tables.Grows.refl c.tables with
      natives := prefix_intern _ _ _
      tidy := fun h => ⟨h.aligned, h.codes, nodup_intern _ _ h.natives⟩ }
  signature := rfl
  warp := rfl

lemma internProcedure_cases (c : Compiler) (code : String) :
    (∃ i, c.internProcedure code = (i, c) ∧ c.tables.procedureCodes[i]? = some code) ∨
    (code ∉ c.tables.procedureCodes ∧
      c.internProcedure code = (c.tables.procedureCodes.length,
        { c with tables := { c.tables with
            procedureCodes := c.tables.procedureCodes ++ [code]
            procedures := c.tables.procedures ++ [none] } })) := by
  unfold internProcedure
  split
  · next i h =>
    obtain ⟨hi, hs, -⟩ := List.findIdx?_eq_some_iff_getElem.1 h
    exact Or.inl ⟨i, rfl, by simpa [List.getElem?_eq_getElem hi] using hs⟩
  · next h =>
    refine Or.inr ⟨fun hmem => ?_, rfl⟩
    have := List.findIdx?_eq_none_iff.1 h code hmem
    simp at this

lemma emits_internProcedure (c : Compiler) (code : String) :
    c.Emits [] (c.internProcedure code).2 := by
  rcases internProcedure_cases c code with ⟨i, h, -⟩ | ⟨hnew, h⟩ <;> rw [h]
  · exact .refl c
  · refine ⟨by simp, ?_, rfl, rfl⟩
    refine { Tables.Grows.refl c.tables with
      codes := List.prefix_append _ _
      places := by simp
      bodies := fun i body hb => get?_mono (List.prefix_append _ _) hb
      tidy := fun h => ⟨by simp [h.aligned], ?_, h.natives⟩ }
    rw [List.nodup_append]
    exact ⟨h.codes, by simp, fun x hx y hy => by rintro rfl; simp_all⟩

/-- The position of a custom block leads to its code. -/
lemma get_internProcedure (c : Compiler) (code : String) :
    (c.internProcedure code).2.tables.procedureCodes[(c.internProcedure code).1]? =
      some code := by
  rcases internProcedure_cases c code with ⟨i, h, hi⟩ | ⟨-, h⟩ <;> rw [h]
  · exact hi
  · simp

/-! ### Instructions with an operand -/

lemma emits_const (c : Compiler) (v : Value) :
    ∃ i, c.Emits [⟨.const, [UInt32.ofNat i]⟩] (c.const v) ∧
      (c.const v).tables.constants[i]? = some v := by
  obtain ⟨e, he, hv⟩ := get_intern Value.identical v c.tables.constants
  refine ⟨(c.internConst v).1, (emits_internConst c v).trans (emits_emitAt _ _ _), ?_⟩
  rcases hv with rfl | hv
  · exact he
  · rw [Value.eq_of_identical hv] at he
    exact he

lemma emits_callNative (c : Compiler) (n : Native) :
    ∃ i, c.Emits [⟨.exec, [UInt32.ofNat i]⟩] (c.callNative n) ∧
      (c.callNative n).tables.natives[i]? = some n := by
  obtain ⟨e, he, hn⟩ := get_intern (· == ·) n c.tables.natives
  refine ⟨(c.internNative n).1, (emits_internNative c n).trans (emits_emitAt _ _ _), ?_⟩
  have : e = n := by simpa using hn
  rw [this] at he
  exact he

lemma emits_variableOp (c : Compiler) (op : VariableOp) (r : Reference) :
    ∃ i s, c.Emits [⟨.var op, [UInt32.ofNat i]⟩] (c.variableOp op r) ∧
      (c.variableOp op r).tables.vars[i]? = some s ∧ s.id = r.id := by
  obtain ⟨e, he, hs⟩ := get_intern sameId r c.tables.vars
  refine ⟨(c.internVariable r).1, e,
    (emits_internVariable c r).trans (emits_emitAt _ _ _), he, ?_⟩
  rcases hs with rfl | hs
  · rfl
  · simpa [sameId] using hs

lemma emits_listOp (c : Compiler) (op : ListOp) (r : Reference) :
    ∃ i s, c.Emits [⟨.list op, [UInt32.ofNat i]⟩] (c.listOp op r) ∧
      (c.listOp op r).tables.lists[i]? = some s ∧ s.id = r.id := by
  obtain ⟨e, he, hs⟩ := get_intern sameId r c.tables.lists
  refine ⟨(c.internList r).1, e, (emits_internList c r).trans (emits_emitAt _ _ _), he, ?_⟩
  rcases hs with rfl | hs
  · rfl
  · simpa [sameId] using hs

end Compiler

end Blockwork
