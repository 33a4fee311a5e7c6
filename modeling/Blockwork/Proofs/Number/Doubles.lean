import Blockwork.Proofs.Number.Rounding

/-!
Doubles and their parts. A double is packed into three fields; packing and unpacking lose nothing,
and the sign, mantissa and exponent that arithmetic works with are those of `Binary.ofFloat`.
-/

namespace Blockwork

open Float.Model Float.Model.UnpackedFloat Rounding

namespace Doubles

/-! ### Fields -/

section

variable (b : BitVec Format.binary64.numBits)

lemma toNat_mantissa : (unpackMantissa b).toNat = b.toNat % 2 ^ 52 := by
  simp [unpackMantissa]

lemma toNat_exponent : (unpackExponent b).toNat = b.toNat / 2 ^ 52 % 2 ^ 11 := by
  simp [unpackExponent, Nat.shiftRight_eq_div_pow]

lemma toNat_sign : (unpackSign b).toNat = b.toNat / 2 ^ 63 := by
  have hb : b.toNat < 2 ^ 64 := b.isLt
  simp only [unpackSign, BitVec.toNat_cast, BitVec.extractLsb_toNat, Nat.shiftRight_eq_div_pow]
  omega

end

@[simp] lemma toBitVec_ofBitVec (s : BitVec 1) : (Sign.ofBitVec s).toBitVec = s := by
  obtain rfl | rfl := BitVec.eq_zero_or_eq_one s <;> rfl

@[simp] lemma ofBitVec_toBitVec (s : Sign) : Sign.ofBitVec s.toBitVec = s := by cases s <;> rfl

@[simp] lemma unpackSign_packComponents (s : Sign) (e : BitVec 11) (m : BitVec 52) :
    unpackSign (packComponents Format.binary64 s e m) = s.toBitVec := by
  simp only [packComponents, unpackSign, BitVec.extractLsb]
  ext i hi
  grind

/-- A word is made of its fields. -/
lemma packComponents_unpack (b : BitVec Format.binary64.numBits) :
    packComponents Format.binary64 (Sign.ofBitVec (unpackSign b)) (unpackExponent b)
      (unpackMantissa b) = b := by
  simp only [packComponents, toBitVec_ofBitVec, unpackSign, unpackExponent, unpackMantissa,
    BitVec.extractLsb]
  ext i hi
  grind

/-- What three fields stand for. -/
def compose (s : Sign) (e : BitVec 11) (m : BitVec 52) : UnpackedFloat :=
  if e = -1#11 then if m = 0#52 then .infinity s else .notANumber
  else if e = 0#11 then
    if h : m = 0#52 then .zero s
    else .finite s m.toNat (-1074) (by simpa [BitVec.toNat_pos, BitVec.pos_iff_ne_zero])
  else .finite s (2 ^ 52 + m.toNat) (e.toNat - 1075) (by positivity)

lemma unpack_eq_compose (b : BitVec Format.binary64.numBits) :
    unpack Format.binary64 b =
      compose (Sign.ofBitVec (unpackSign b)) (unpackExponent b) (unpackMantissa b) := by
  have happend : (1#1 ++ unpackMantissa b).toNat = 2 ^ 52 + (unpackMantissa b).toNat := by
    rw [BitVec.toNat_append, ← Nat.shiftLeft_add_eq_or_of_lt (unpackMantissa b).isLt]
    rfl
  unfold UnpackedFloat.unpack compose
  simp only [happend]
  split
  · rfl
  split
  · next h =>
    simp only [h]
    rfl
  · rfl

lemma unpack_packComponents (s : Sign) (e : BitVec 11) (m : BitVec 52) :
    unpack Format.binary64 (packComponents Format.binary64 s e m) = compose s e m := by
  rw [unpack_eq_compose, unpackSign_packComponents, ofBitVec_toBitVec,
    unpackExponent_packComponents, unpackMantissa_packComponents]

/-! ### Packing -/

/-- The exponent field of a double. -/
def field (m : Nat) (e : Int) : Nat := if m < 2 ^ 52 then 0 else (e + 1075).toNat

variable {m : Nat} {e : Int}

lemma field_lt (hc : Canonical m e) : field m e < 2047 := by
  have := hc.le
  unfold field
  split <;> omega

lemma pack_finite (hc : Canonical m e) (s : Sign) :
    UnpackedFloat.pack Format.binary64 (.finite s m e hc.pos) =
      packComponents Format.binary64 s (BitVec.ofNat 11 (field m e)) (BitVec.ofNat 52 m) := by
  have hge := hc.ge
  have hle := hc.le
  have hbiased : (e + (Format.binary64.exponentBias : Nat) + (52 : Nat)).toNat =
      (e + 1075).toNat := by
    change (e + 1023 + 52).toNat = _
    omega
  have hfits : ¬ 2 ^ 11 ≤ (e + 1075).toNat + 1 := by omega
  unfold UnpackedFloat.pack field
  simp only [hbiased, if_neg hfits]
  by_cases hm : m < 2 ^ 52
  · have hlog : ¬ m.log2 + 1 = Format.binary64.mantissaBits := by
      have := (Nat.log2_lt hc.pos.ne').2 hm
      change ¬ m.log2 + 1 = 53
      omega
    rw [if_neg hlog, if_pos hm]
  · have hlog : m.log2 + 1 = Format.binary64.mantissaBits := by
      have := (Nat.log2_lt hc.pos.ne').2 hc.lt
      have := (Nat.le_log2 hc.pos.ne').2 (Nat.not_lt.1 hm)
      change m.log2 + 1 = 53
      omega
    rw [if_pos hlog, if_neg hm]

lemma finite_congr {s : Sign} {m m' : Nat} {e e' : Int} {h : 0 < m} {h' : 0 < m'} (hm : m = m')
    (he : e = e') : UnpackedFloat.finite s m e h = .finite s m' e' h' := by
  subst hm he
  rfl

lemma compose_finite (hc : Canonical m e) (s : Sign) :
    compose s (BitVec.ofNat 11 (field m e)) (BitVec.ofNat 52 m) = .finite s m e hc.pos := by
  have hpos := hc.pos
  have hge := hc.ge
  have hlt := hc.lt
  have hfield : (BitVec.ofNat 11 (field m e)).toNat = field m e := by
    rw [BitVec.toNat_ofNat, Nat.mod_eq_of_lt (by have := field_lt hc; omega)]
  have hinf : BitVec.ofNat 11 (field m e) ≠ -1#11 := fun h => by
    have := congrArg BitVec.toNat h
    rw [hfield] at this
    exact absurd this (field_lt hc).ne
  rw [compose, if_neg hinf]
  by_cases hm : m < 2 ^ 52
  · have hzero : BitVec.ofNat 11 (field m e) = 0#11 := by rw [field, if_pos hm]
    have hmant : (BitVec.ofNat 52 m).toNat = m := by rw [BitVec.toNat_ofNat, Nat.mod_eq_of_lt hm]
    have hne : BitVec.ofNat 52 m ≠ 0#52 := fun h => by
      have := congrArg BitVec.toNat h
      rw [hmant] at this
      exact hpos.ne' this
    rw [if_pos hzero, dif_neg hne]
    exact finite_congr hmant (hc.normal.resolve_left (by omega)).symm
  · have hval : field m e = (e + 1075).toNat := if_neg hm
    have hzero : BitVec.ofNat 11 (field m e) ≠ 0#11 := fun h => by
      have := congrArg BitVec.toNat h
      rw [hfield, hval] at this
      simp at this
      omega
    rw [if_neg hzero]
    refine finite_congr ?_ ?_
    · rw [BitVec.toNat_ofNat]
      omega
    · rw [hfield, hval]
      omega

lemma unpack_pack (hc : Canonical m e) (s : Sign) :
    (Float.Model.pack (.finite s m e hc.pos)).unpack = .finite s m e hc.pos := by
  change UnpackedFloat.unpack Format.binary64 (UnpackedFloat.pack Format.binary64 _) = _
  rw [pack_finite hc, unpack_packComponents, compose_finite hc]

lemma canonical_of_compose {s s' : Sign} {E : BitVec 11} {M : BitVec 52} {h : 0 < m}
    (hu : compose s E M = .finite s' m e h) :
    Canonical m e ∧ BitVec.ofNat 11 (field m e) = E ∧ BitVec.ofNat 52 m = M ∧ s' = s := by
  have hE := E.isLt
  have hM := M.isLt
  unfold compose at hu
  split at hu
  · split at hu <;> cases hu
  next hinf =>
  split at hu
  · next hzero =>
    split at hu
    · cases hu
    · cases hu
      refine ⟨⟨h, by omega, le_rfl, by omega, .inr rfl⟩, ?_, ?_, rfl⟩
      · rw [field, if_pos hM, hzero]
      · rw [BitVec.ofNat_toNat, BitVec.setWidth_eq]
  · next hzero =>
    cases hu
    have hne : E.toNat ≠ 0 := fun h0 => hzero (BitVec.eq_of_toNat_eq h0)
    have hne' : E.toNat ≠ 2047 := fun h0 => hinf (BitVec.eq_of_toNat_eq h0)
    refine ⟨⟨h, by omega, by omega, by omega, .inl (by omega)⟩, ?_, ?_, rfl⟩
    · rw [field, if_neg (by omega), show ((E.toNat : Int) - 1075 + 1075).toNat = E.toNat by omega,
        BitVec.ofNat_toNat, BitVec.setWidth_eq]
    · refine BitVec.eq_of_toNat_eq ?_
      rw [BitVec.toNat_ofNat]
      omega

lemma pack_compose {s : Sign} {E : BitVec 11} {M : BitVec 52}
    (hnan : E = -1#11 → M ≠ 0#52 →
      packComponents Format.binary64 s E M = packedNaN Format.binary64) :
    UnpackedFloat.pack Format.binary64 (compose s E M) = packComponents Format.binary64 s E M := by
  have hfinite : ∀ {m : Nat} {e : Int} {h : 0 < m}, compose s E M = .finite s m e h →
      UnpackedFloat.pack Format.binary64 (compose s E M) =
        packComponents Format.binary64 s E M := by
    intro m e h hu
    obtain ⟨hc, hE, hM, -⟩ := canonical_of_compose hu
    rw [hu, pack_finite hc, hE, hM]
  by_cases hinf : E = -1#11
  · by_cases hM : M = 0#52
    · subst hinf hM
      rfl
    · rw [hnan hinf hM, compose, if_pos hinf, if_neg hM]
      rfl
  by_cases hzero : E = 0#11
  · by_cases hM : M = 0#52
    · subst hzero hM
      rfl
    · exact hfinite (by rw [compose, if_neg hinf, if_pos hzero, dif_neg hM])
  · exact hfinite (by rw [compose, if_neg hinf, if_neg hzero])

/-- Packing takes back unpacking. -/
lemma pack_unpack (f : Float.Model) : Float.Model.pack f.unpack = f := by
  have hword : ∀ b : BitVec Format.binary64.numBits, Format.binary64.Valid b →
      UnpackedFloat.pack Format.binary64 (UnpackedFloat.unpack Format.binary64 b) = b := by
    intro b hvalid
    have hself := packComponents_unpack b
    rw [unpack_eq_compose, pack_compose, hself]
    intro hE hM
    rw [hself]
    exact hvalid.eq_packedNaN hE hM
  obtain ⟨bits, hvalid⟩ := f
  have h := hword bits.toBitVec hvalid
  simp only [Float.Model.pack, Float.Model.unpack, h]

lemma eq_of_unpack {x y : Float} (h : x.toModel.unpack = y.toModel.unpack) : x = y := by
  obtain ⟨x⟩ := x
  obtain ⟨y⟩ := y
  rw [← pack_unpack x, ← pack_unpack y]
  exact congrArg (fun u => Float.ofModel (Float.Model.pack u)) h

end Doubles

/-- The sign that arithmetic works with. -/
def Binary.sign (b : Binary) : Sign := if b.negative then .negative else .positive

namespace Doubles

/-! ### Parts of a number -/

/-- The parts of a double are read off its fields. -/
lemma ofFloat_eq (x : Float) : ∃ (E : BitVec 11) (M : BitVec 52),
    x.toModel.unpack = compose (Binary.ofFloat x).sign E M ∧
      (Binary.ofFloat x).mantissa = (if E.toNat = 0 then M.toNat else 2 ^ 52 + M.toNat) ∧
      (Binary.ofFloat x).exponent = (if E.toNat = 0 then -1074 else (E.toNat : Int) - 1075) := by
  let b : BitVec Format.binary64.numBits := x.toModel.toBits.toBitVec
  have hbits : x.toBits.toNat = b.toNat := rfl
  have hsign : (Binary.ofFloat x).sign = Sign.ofBitVec (unpackSign b) := by
    have hs := toNat_sign b
    have hb : b.toNat < 2 ^ 64 := b.isLt
    have hneg : (Binary.ofFloat x).negative = (b.toNat / 2 ^ 63 == 1) := by
      unfold Binary.ofFloat
      simp only [hbits, Nat.pow_eq]
      split <;> rfl
    rw [Binary.sign, hneg, ← hs]
    obtain h | h : unpackSign b = 0#1 ∨ unpackSign b = 1#1 := BitVec.eq_zero_or_eq_one _
    all_goals
      rw [h]
      rfl
  refine ⟨unpackExponent b, unpackMantissa b, ?_, ?_, ?_⟩
  · rw [hsign]
    exact unpack_eq_compose b
  · rw [toNat_exponent, toNat_mantissa]
    unfold Binary.ofFloat
    simp only [hbits, Nat.pow_eq, beq_iff_eq]
    split <;> rfl
  · rw [toNat_exponent]
    unfold Binary.ofFloat
    simp only [hbits, Nat.pow_eq, beq_iff_eq]
    split <;> rfl

/-- A finite double is unpacked into its parts. -/
lemma unpack_of_isFinite {x : Float} (hx : x.isFinite = true) :
    ((Binary.ofFloat x).mantissa = 0 ∧ x.toModel.unpack = .zero (Binary.ofFloat x).sign) ∨
      ∃ hc : Canonical (Binary.ofFloat x).mantissa (Binary.ofFloat x).exponent,
        x.toModel.unpack = .finite (Binary.ofFloat x).sign (Binary.ofFloat x).mantissa
          (Binary.ofFloat x).exponent hc.pos := by
  obtain ⟨E, M, hu, hm, he⟩ := ofFloat_eq x
  change x.toModel.unpack.isFinite = true at hx
  rw [hu] at hx ⊢
  by_cases hinf : E = -1#11
  · rw [compose, if_pos hinf] at hx
    split at hx <;> cases hx
  by_cases hzero : E.toNat = 0
  · have hE : E = 0#11 := BitVec.eq_of_toNat_eq hzero
    rw [if_pos hzero] at hm he
    by_cases hM : M = 0#52
    · exact .inl ⟨by rw [hm, hM]; rfl, by rw [compose, if_neg hinf, if_pos hE, dif_pos hM]⟩
    · have hpos : 0 < M.toNat := Nat.pos_of_ne_zero fun h => hM (BitVec.eq_of_toNat_eq h)
      have hfin : compose (Binary.ofFloat x).sign E M =
          .finite (Binary.ofFloat x).sign M.toNat (-1074) hpos := by
        rw [compose, if_neg hinf, if_pos hE, dif_neg hM]
      rw [hm, he]
      exact .inr ⟨(canonical_of_compose hfin).1, hfin⟩
  · have hE : E ≠ 0#11 := fun h => hzero (by rw [h]; rfl)
    rw [if_neg hzero] at hm he
    have hfin : compose (Binary.ofFloat x).sign E M =
        .finite (Binary.ofFloat x).sign (2 ^ 52 + M.toNat) (E.toNat - 1075) (by positivity) := by
      rw [compose, if_neg hinf, if_neg hE]
    rw [hm, he]
    exact .inr ⟨(canonical_of_compose hfin).1, hfin⟩

end Doubles

end Blockwork
