import Blockwork.Number.Numeral
import Mathlib.Data.List.Forall2
import Mathlib.Data.List.TakeDrop
import Mathlib.Data.List.TakeWhile
import Mathlib.Tactic.IntervalCases

/-!
The grammar of numerals, with what each text stands for, and that reading accepts exactly this
grammar: an optional part that is missing, doubled or out of its place makes a text no numeral.
-/

namespace Blockwork

namespace Text

/-- What is left when the blanks around a text are taken away. -/
structure Trims (cs t : List Char) : Prop where
  around : ∃ l r, cs = l ++ t ++ r ∧ ∀ c ∈ l ++ r, isBlank c = true
  first : ∀ c ∈ t.head?, isBlank c = false
  last : ∀ c ∈ t.getLast?, isBlank c = false

lemma head?_dropWhile {p : Char → Bool} {cs : List Char} {c : Char}
    (h : c ∈ (cs.dropWhile p).head?) : p c = false := by
  have := List.head?_dropWhile_not p cs
  rw [Option.mem_def] at h
  rw [h] at this
  simpa using this

lemma trims_trimBlanks (cs : List Char) : Trims cs (trimBlanks cs) := by
  have hfront := List.takeWhile_append_dropWhile (p := isBlank) (l := cs)
  have hback := List.takeWhile_append_dropWhile (p := isBlank) (l := (cs.dropWhile isBlank).reverse)
  have hback' : trimBlanks cs ++ ((cs.dropWhile isBlank).reverse.takeWhile isBlank).reverse =
      cs.dropWhile isBlank := by
    rw [trimBlanks, trimBoth, ← List.reverse_append, hback, List.reverse_reverse]
  refine ⟨⟨cs.takeWhile isBlank, ((cs.dropWhile isBlank).reverse.takeWhile isBlank).reverse,
    ?_, ?_⟩, fun c hc => ?_, fun c hc => ?_⟩
  · rw [List.append_assoc, hback', hfront]
  · intro c hc
    rcases List.mem_append.1 hc with hc | hc
    · exact List.mem_takeWhile_imp hc
    · exact List.mem_takeWhile_imp (List.mem_reverse.1 hc)
  · -- what starts the trimmed text starts the text without its front blanks
    have hfirst : c ∈ (cs.dropWhile isBlank).head? := by
      rw [← hback', List.head?_append, Option.mem_def.1 hc]
      rfl
    exact head?_dropWhile hfirst
  · rw [trimBlanks, trimBoth, List.getLast?_reverse] at hc
    exact head?_dropWhile hc

lemma dropWhile_eq_of_blank {l cs : List Char} (hl : ∀ c ∈ l, isBlank c = true)
    (hcs : ∀ c ∈ cs.head?, isBlank c = false) : (l ++ cs).dropWhile isBlank = cs := by
  rw [List.dropWhile_append_of_pos hl]
  cases cs with
  | nil => rfl
  | cons c cs => simp [hcs c rfl]

lemma trims_iff {cs t : List Char} : Trims cs t ↔ t = trimBlanks cs := by
  refine ⟨fun h => ?_, fun h => h ▸ trims_trimBlanks cs⟩
  obtain ⟨⟨l, r, rfl, hblank⟩, hfirst, hlast⟩ := h
  have hl : ∀ c ∈ l, isBlank c = true := fun c hc => hblank c (List.mem_append_left _ hc)
  have hr : ∀ c ∈ r.reverse, isBlank c = true := fun c hc =>
    hblank c (List.mem_append_right _ (List.mem_reverse.1 hc))
  have hlast' : ∀ c ∈ t.reverse.head?, isBlank c = false := by rwa [List.head?_reverse]
  rw [trimBlanks, trimBoth]
  cases ht : t with
  | nil =>
    rw [List.append_nil, List.dropWhile_eq_nil_iff.2 hblank]
    rfl
  | cons c rest =>
    rw [← ht, List.append_assoc, dropWhile_eq_of_blank hl, List.reverse_append,
      dropWhile_eq_of_blank hr hlast', List.reverse_reverse]
    simpa [ht] using hfirst

end Text

namespace Numeral

/-! ### The grammar -/

def Digits (cs : List Char) : Prop := ∀ c ∈ cs, c.isDigit = true

instance (cs : List Char) : Decidable (Digits cs) := List.decidableBAll _ _

/-- A sign or none, and whether it is a minus. -/
inductive Sign : List Char → Bool → Prop
  | none : Sign [] false
  | plus : Sign ['+'] false
  | minus : Sign ['-'] true

/-- An exponent or none. -/
inductive Exponent : List Char → Int → Prop
  | none : Exponent [] 0
  | some {mark : Char} {sg ds : List Char} {negative : Bool} (hmark : mark = 'e' ∨ mark = 'E')
      (hsign : Sign sg negative) (hds : Digits ds) (hne : ds ≠ []) :
      Exponent (mark :: (sg ++ ds)) (if negative then -(digitsValue ds : Int) else digitsValue ds)

/-- Decimals: digits with or without a point, at least one of them. -/
inductive SpellsDecimal : List Char → Decimal → Prop
  | whole {sg ds ex : List Char} {negative : Bool} {e : Int} (hsign : Sign sg negative)
      (hds : Digits ds) (hne : ds ≠ []) (hex : Exponent ex e) :
      SpellsDecimal (sg ++ (ds ++ ex)) ⟨negative, ds, e⟩
  | point {sg ds fs ex : List Char} {negative : Bool} {e : Int} (hsign : Sign sg negative)
      (hds : Digits ds) (hfs : Digits fs) (hne : ds ≠ [] ∨ fs ≠ []) (hex : Exponent ex e) :
      SpellsDecimal (sg ++ (ds ++ '.' :: (fs ++ ex))) ⟨negative, ds ++ fs, e - fs.length⟩

/-- The letters that stand for other bases after a zero. -/
def marks : List (Char × Nat) := [('x', 16), ('X', 16), ('o', 8), ('O', 8), ('b', 2), ('B', 2)]

/-- A digit of a base of at most sixteen; letters are of either case. -/
def IsDigit (base : Nat) (c : Char) (n : Nat) : Prop :=
  n < base ∧ ("0123456789abcdef".toList[n]? = some c ∨ "0123456789ABCDEF".toList[n]? = some c)

/-- The texts that are numerals, and what they stand for. -/
inductive Spells : List Char → Numeral → Prop
  | infinity : Spells "Infinity".toList (.infinity false)
  | plusInfinity : Spells "+Infinity".toList (.infinity false)
  | minusInfinity : Spells "-Infinity".toList (.infinity true)
  | nan : Spells "NaN".toList .nan
  | radix {mark : Char} {base : Nat} {cs : List Char} {ds : List Nat} (hmark : (mark, base) ∈ marks)
      (hne : cs ≠ []) (hds : List.Forall₂ (IsDigit base) cs ds) :
      Spells ('0' :: mark :: cs) (.radix base ds)
  | decimal {cs : List Char} {d : Decimal} (h : SpellsDecimal cs d) : Spells cs (.decimal d)

/-! ### Parts of a decimal -/

/-- The characters that a decimal is made of. -/
def inDecimal (c : Char) : Bool := c.isDigit || ['+', '-', '.', 'e', 'E'].contains c

/-- A text that does not go on with a digit. -/
def NoDigit (cs : List Char) : Prop := ∀ c ∈ cs.head?, c.isDigit = false

lemma span_digits {ds rest : List Char} (hds : Digits ds) (hrest : NoDigit rest) :
    (ds ++ rest).span Char.isDigit = (ds, rest) := by
  rw [List.span_eq_takeWhile_dropWhile, List.takeWhile_append_of_pos hds,
    List.dropWhile_append_of_pos hds]
  cases rest with
  | nil => simp
  | cons c rest => simp [hrest c rfl]

lemma exists_span (cs : List Char) : ∃ ds rest, cs.span Char.isDigit = (ds, rest) ∧
    cs = ds ++ rest ∧ Digits ds ∧ NoDigit rest := by
  refine ⟨_, _, List.span_eq_takeWhile_dropWhile _ _, List.takeWhile_append_dropWhile.symm,
    fun c hc => List.mem_takeWhile_imp hc, fun c hc => Text.head?_dropWhile hc⟩

lemma exists_sign (cs : List Char) : ∃ sg, Sign sg (sign cs).1 ∧ cs = sg ++ (sign cs).2 := by
  unfold sign
  split
  · exact ⟨_, .plus, rfl⟩
  · exact ⟨_, .minus, rfl⟩
  · exact ⟨_, .none, rfl⟩

/-- A sign is taken off where something else than a sign follows it. -/
lemma sign_append {sg cs : List Char} {negative : Bool} (h : Sign sg negative)
    (hcs : ∀ c ∈ cs.head?, c ≠ '+' ∧ c ≠ '-') : sign (sg ++ cs) = (negative, cs) := by
  cases h with
  | plus => rfl
  | minus => rfl
  | none =>
    rw [List.nil_append, sign.eq_def]
    split
    · exact absurd rfl (hcs _ rfl).1
    · exact absurd rfl (hcs _ rfl).2
    · rfl

lemma not_sign_of_isDigit {c : Char} (h : c.isDigit = true) : c ≠ '+' ∧ c ≠ '-' := by
  constructor <;> rintro rfl <;> simp at h

lemma exponent?_eq_some_iff {cs : List Char} {e : Int} : exponent? cs = some e ↔ Exponent cs e := by
  constructor
  · intro h
    cases cs with
    | nil =>
      obtain rfl := Option.some.inj h
      exact .none
    | cons c cs =>
      rw [exponent?] at h
      obtain ⟨sg, hsg, hcs⟩ := exists_sign cs
      simp only [Bool.or_eq_true, beq_iff_eq, Bool.and_eq_true, Bool.not_eq_true',
        Option.ite_none_right_eq_some, Option.some.injEq, List.all_eq_true,
        List.isEmpty_eq_false_iff] at h
      obtain ⟨hmark, ⟨hne, hds⟩, rfl⟩ := h
      have hspells := Exponent.some hmark hsg hds hne
      rwa [← hcs] at hspells
  · intro h
    cases h with
    | none => rfl
    | @some mark sg ds negative hmark hsign hds hne =>
      have hhead : ∀ c ∈ ds.head?, c ≠ '+' ∧ c ≠ '-' := fun c hc =>
        not_sign_of_isDigit (hds c (List.mem_of_mem_head? hc))
      have hall : ds.all Char.isDigit = true := List.all_eq_true.2 hds
      simp [exponent?, hmark, sign_append hsign hhead, hne, hall]

lemma Exponent.noDigit {cs : List Char} {e : Int} (h : Exponent cs e) :
    NoDigit cs ∧ ∀ c ∈ cs.head?, c ≠ '.' := by
  cases h with
  | none => exact ⟨by simp [NoDigit], by simp⟩
  | some hmark =>
    rcases hmark with rfl | rfl <;> simp [NoDigit]

lemma fraction_of_ne {cs : List Char} (h : ∀ c ∈ cs.head?, c ≠ '.') : fraction cs = ([], cs) := by
  rw [fraction.eq_def]
  split
  · exact absurd rfl (h _ rfl)
  · rfl

lemma decimal?_eq_some_iff {cs : List Char} {d : Decimal} :
    decimal? cs = some d ↔ SpellsDecimal cs d := by
  constructor
  · intro h
    obtain ⟨sg, hsg, hcs⟩ := exists_sign cs
    obtain ⟨ds, rest, hspan, hrest, hds, -⟩ := exists_span (sign cs).2
    simp only [decimal?, hspan, Option.ite_none_left_eq_some, Option.map_eq_some_iff] at h
    obtain ⟨hne, e, he, rfl⟩ := h
    rw [hrest] at hcs
    rw [fraction.eq_def] at hne he ⊢
    split at he
    · next cs' =>
      obtain ⟨fs, ex, hspan', rfl, hfs, -⟩ := exists_span cs'
      simp only [hspan'] at hne he ⊢
      have hne' : ds ≠ [] ∨ fs ≠ [] := by simpa [Decidable.imp_iff_not_or] using hne
      have hspells := SpellsDecimal.point hsg hds hfs hne' (exponent?_eq_some_iff.1 he)
      rwa [← hcs] at hspells
    · have hne' : ds ≠ [] := by simpa using hne
      have hspells := SpellsDecimal.whole hsg hds hne' (exponent?_eq_some_iff.1 he)
      rw [← hcs] at hspells
      simpa using hspells
  · intro h
    cases h with
    | @whole sg ds ex negative e hsign hds hne hex =>
      obtain ⟨hno, hpoint⟩ := hex.noDigit
      have hhead : ∀ c ∈ (ds ++ ex).head?, c ≠ '+' ∧ c ≠ '-' := by
        obtain ⟨c, ds, rfl⟩ := List.exists_cons_of_ne_nil hne
        rintro _ ⟨⟩
        exact not_sign_of_isDigit (hds c List.mem_cons_self)
      simp only [decimal?, sign_append hsign hhead, span_digits hds hno, fraction_of_ne hpoint,
        exponent?_eq_some_iff.2 hex]
      simp [hne]
    | @point sg ds fs ex negative e hsign hds hfs hne hex =>
      have hhead : ∀ c ∈ (ds ++ '.' :: (fs ++ ex)).head?, c ≠ '+' ∧ c ≠ '-' := by
        cases ds with
        | nil =>
          rintro _ ⟨⟩
          decide
        | cons c ds =>
          rintro _ ⟨⟩
          exact not_sign_of_isDigit (hds c List.mem_cons_self)
      have hno : NoDigit ('.' :: (fs ++ ex)) := by rintro _ ⟨⟩; rfl
      have hne' : ¬ (ds = [] ∧ fs = []) := by rwa [not_and_or]
      simp only [decimal?, sign_append hsign hhead, span_digits hds hno, fraction,
        span_digits hfs hex.noDigit.1, exponent?_eq_some_iff.2 hex]
      simp [hne']

/-! ### Whole numerals -/

lemma base?_eq_some_iff {c : Char} {base : Nat} : base? c = some base ↔ (c, base) ∈ marks := by
  constructor
  · intro h
    unfold base? at h
    split at h
    all_goals
      cases h
      try decide
  · intro h
    have hmarks : ∀ x ∈ marks, base? x.1 = some x.2 := by decide
    exact hmarks _ h

lemma forall_marks : ∀ x ∈ marks, (1 ≤ x.2 ∧ x.2 ≤ 16) ∧ inDecimal x.1 = false := by decide

lemma bounds_of_mem_marks {c : Char} {base : Nat} (h : (c, base) ∈ marks) : 1 ≤ base ∧ base ≤ 16 :=
  (forall_marks _ h).1

/-- A character by its code. -/
lemma eq_ofNat {c : Char} {n : Nat} (h : c.toNat = n) : c = Char.ofNat n := by
  rw [← h, Char.ofNat_toNat]

lemma isDigit_iff_toNat {c : Char} : c.isDigit = true ↔ 48 ≤ c.toNat ∧ c.toNat ≤ 57 := by
  simp only [Char.isDigit, Bool.and_eq_true, decide_eq_true_eq, ge_iff_le, UInt32.le_iff_toNat_le]
  rfl

lemma toNat_of_between {a b c : Char} (h : (decide (a ≤ c) && decide (c ≤ b)) = true) :
    a.toNat ≤ c.toNat ∧ c.toNat ≤ b.toNat := by
  simp only [Bool.and_eq_true, decide_eq_true_eq, Char.le_def, UInt32.le_iff_toNat_le] at h
  exact h

lemma digit?_eq_some_iff {base : Nat} (hbase : base ≤ 16) {c : Char} {n : Nat} :
    digit? base c = some n ↔ IsDigit base c n := by
  constructor
  · intro h
    simp only [digit?, Option.ite_none_right_eq_some, Option.some.injEq] at h
    obtain ⟨hlt, hn⟩ := h
    rw [hn] at hlt
    refine ⟨hlt, ?_⟩
    split at hn
    · next hd =>
      have hcode := isDigit_iff_toNat.1 hd
      generalize hk : c.toNat = k at hn hcode
      obtain rfl := eq_ofNat hk
      obtain ⟨hlo, hhi⟩ := hcode
      interval_cases k <;> subst hn <;> exact .inl rfl
    split at hn
    · next hd =>
      obtain ⟨hlo, hhi⟩ : 97 ≤ c.toNat ∧ c.toNat ≤ 102 := toNat_of_between hd
      generalize hk : c.toNat = k at hn hlo hhi
      obtain rfl := eq_ofNat hk
      interval_cases k <;> subst hn <;> exact .inl rfl
    split at hn
    · next hd =>
      obtain ⟨hlo, hhi⟩ : 65 ≤ c.toNat ∧ c.toNat ≤ 70 := toNat_of_between hd
      generalize hk : c.toNat = k at hn hlo hhi
      obtain rfl := eq_ofNat hk
      interval_cases k <;> subst hn <;> exact .inr rfl
    · omega
  · rintro ⟨hlt, h⟩
    have hn : n < 16 := by omega
    interval_cases n <;> rcases h with h | h <;> obtain rfl := Option.some.inj h <;>
      exact if_pos hlt

lemma mapM_digit?_eq_some_iff {base : Nat} (hbase : base ≤ 16) {cs : List Char} {ds : List Nat} :
    cs.mapM (digit? base) = some ds ↔ List.Forall₂ (IsDigit base) cs ds := by
  induction cs generalizing ds with
  | nil => simp [eq_comm]
  | cons c cs ih =>
    simp only [List.mapM_cons, List.forall₂_cons_left_iff, Option.bind_eq_bind,
      Option.bind_eq_some_iff, Option.pure_def, Option.some.injEq, ih, digit?_eq_some_iff hbase]
    grind

lemma Digits.inDecimal {cs : List Char} (h : Digits cs) : cs.all inDecimal = true :=
  List.all_eq_true.2 fun c hc => by simp [Numeral.inDecimal, h c hc]

lemma Sign.inDecimal {cs : List Char} {negative : Bool} (h : Sign cs negative) :
    cs.all inDecimal = true := by
  cases h <;> rfl

lemma Exponent.inDecimal {cs : List Char} {e : Int} (h : Exponent cs e) :
    cs.all inDecimal = true := by
  cases h with
  | none => rfl
  | some hmark hsign hds =>
    rcases hmark with rfl | rfl <;>
      simp [hsign.inDecimal, hds.inDecimal, Numeral.inDecimal]

lemma SpellsDecimal.inDecimal {cs : List Char} {d : Decimal} (h : SpellsDecimal cs d) :
    cs.all inDecimal = true := by
  cases h with
  | whole hsign hds _ hex =>
    rw [List.all_append, List.all_append, hsign.inDecimal, hds.inDecimal, hex.inDecimal]
    rfl
  | point hsign hds hfs _ hex =>
    rw [List.all_append, List.all_append, List.all_cons, List.all_append, hsign.inDecimal,
      hds.inDecimal, hfs.inDecimal, hex.inDecimal]
    rfl

/-- No decimal starts like digits of another base. -/
lemma SpellsDecimal.radix?_eq_none {cs : List Char} {d : Decimal} (h : SpellsDecimal cs d) :
    radix? cs = none := by
  rw [radix?.eq_def]
  split
  · next mark c cs =>
    cases hbase : base? mark with
    | none => rfl
    | some base =>
      have hmark := (forall_marks _ (base?_eq_some_iff.1 hbase)).2
      have hin := List.all_eq_true.1 h.inDecimal mark (by simp)
      rw [hmark] at hin
      cases hin
  · rfl

/-- **What is read**: exactly the texts of the grammar, each for what it stands for. -/
lemma readTrimmed_eq_some_iff {cs : List Char} {n : Numeral} :
    readTrimmed cs = some n ↔ Spells cs n := by
  constructor
  · intro h
    unfold readTrimmed at h
    split at h
    · next hcs =>
      obtain rfl := Option.some.inj h
      simp only [Bool.or_eq_true, beq_iff_eq] at hcs
      rcases hcs with rfl | rfl
      · exact .infinity
      · exact .plusInfinity
    split at h
    · next hcs =>
      obtain rfl := Option.some.inj h
      rw [eq_of_beq hcs]
      exact .minusInfinity
    split at h
    · next hcs =>
      obtain rfl := Option.some.inj h
      rw [eq_of_beq hcs]
      exact .nan
    split at h
    · next result hr =>
      unfold radix? at hr
      split at hr
      · simp only [Option.map_eq_some_iff] at hr
        obtain ⟨base, hbase, rfl⟩ := hr
        obtain ⟨ds, hds, rfl⟩ := Option.map_eq_some_iff.1 h
        have hmark := base?_eq_some_iff.1 hbase
        exact .radix hmark (List.cons_ne_nil _ _)
          ((mapM_digit?_eq_some_iff (bounds_of_mem_marks hmark).2).1 hds)
      · cases hr
    · obtain ⟨d, hd, rfl⟩ := Option.map_eq_some_iff.1 h
      exact .decimal (decimal?_eq_some_iff.1 hd)
  · intro h
    cases h with
    | infinity | plusInfinity | minusInfinity | nan => decide
    | @radix mark base cs ds hmark hne hds =>
      have hbase := base?_eq_some_iff.2 hmark
      obtain ⟨c, cs, rfl⟩ := List.exists_cons_of_ne_nil hne
      have hmap := (mapM_digit?_eq_some_iff (bounds_of_mem_marks hmark).2).2 hds
      simp only [readTrimmed, radix?, hbase, hmap, Option.map_some]
      rfl
    | @decimal _ d h =>
      have hword : ∀ w : List Char, w.all inDecimal = false → (cs == w) = false := by
        intro w hw
        refine beq_false_of_ne ?_
        rintro rfl
        rw [h.inDecimal] at hw
        cases hw
      simp only [readTrimmed, hword _ (by decide : "Infinity".toList.all inDecimal = false),
        hword _ (by decide : "+Infinity".toList.all inDecimal = false),
        hword _ (by decide : "-Infinity".toList.all inDecimal = false),
        hword _ (by decide : "NaN".toList.all inDecimal = false), h.radix?_eq_none,
        decimal?_eq_some_iff.2 h]
      rfl

end Numeral

end Blockwork
