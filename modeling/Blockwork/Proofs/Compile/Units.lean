import Blockwork.Proofs.Compile.Procedures

/-!
The units of a program. The code of a script, the condition of its hat and the bodies of the custom
blocks that it may call are each compiled as one unit, and what a unit was when it was compiled, it
stays: the tables of the program resolve its operands. Nothing is asked of the blocks.

A unit is written piece by piece. What composes and holds of every piece holds of whole units; so
bodies come from nowhere but the ends of units, and code without a head in warp has no warp in it.
-/

namespace Blockwork

namespace Compiler

/-! ### What holds of every piece -/

/-- A piece of code that neither is a head nor gives a body. -/
structure Piece (blocks : BlockMap) (c : Compiler) (is : List Instruction) (c' : Compiler) :
    Prop where
  emits : c.Emits is c'
  keeps : Keeps blocks c c'
  calm : ∀ i ∈ is, i.opcode ≠ .warp

/-- A piece of code in which no call begins. -/
structure Plain (blocks : BlockMap) (c : Compiler) (is : List Instruction) (c' : Compiler) : Prop
    extends Piece blocks c is c' where
  plain : ∀ i ∈ is, i.opcode ≠ .initProcedure

/-- Holds of pieces, calls and heads, and of what is composed of them. -/
structure Builds (blocks : BlockMap) (R : Compiler → List Line → Compiler → Prop) : Prop where
  append : ∀ {c c' c'' : Compiler} {xs ys : List Line}, R c xs c' → R c' ys c'' → R c (xs ++ ys) c''
  piece : ∀ {c c' : Compiler} {is : List Instruction} (id : Option String),
    Plain blocks c is c' → R c (added id c c') c'
  head : ∀ {a : String} {b : Block}, blocks.get? a = some b → b.opcode = "procedures_definition" →
    ∀ (id : Option String) (c : Compiler), R c (added id c (c.head blocks b)) (c.head blocks b)
  call : ∀ {fuel : Nat} {id : String} {b : Block},
    blocks.get? id = some b → b.opcode = "procedures_call" →
    (∀ c name, R c (inputLines (descend .builtin blocks fuel) (trace .builtin blocks fuel) blocks id b
      c name) (c.input (descend .builtin blocks fuel) blocks b name)) →
    ∀ c : Compiler, R c (callLines (descend .builtin blocks fuel) (trace .builtin blocks fuel) blocks id
      b c) (c.call (descend .builtin blocks fuel) blocks b)

/-- Holds of pieces and of heads, and of what is composed of them. -/
structure Composes (blocks : BlockMap) (R : Compiler → List Line → Compiler → Prop) : Prop where
  append : ∀ {c c' c'' : Compiler} {xs ys : List Line}, R c xs c' → R c' ys c'' → R c (xs ++ ys) c''
  piece : ∀ {c c' : Compiler} {is : List Instruction} (id : Option String),
    Piece blocks c is c' → R c (added id c c') c'
  head : ∀ {a : String} {b : Block}, blocks.get? a = some b → b.opcode = "procedures_definition" →
    ∀ (id : Option String) (c : Compiler), R c (added id c (c.head blocks b)) (c.head blocks b)

section

variable {blocks : BlockMap}

lemma Piece.trans {c c' c'' : Compiler} {is js : List Instruction} (h : Piece blocks c is c')
    (k : Piece blocks c' js c'') : Piece blocks c (is ++ js) c'' where
  emits := h.emits.trans k.emits
  keeps := h.keeps.trans k.keeps
  calm := by
    intro i hi
    rcases List.mem_append.1 hi with hi | hi
    · exact h.calm i hi
    · exact k.calm i hi

lemma Plain.trans {c c' c'' : Compiler} {is js : List Instruction} (h : Plain blocks c is c')
    (k : Plain blocks c' js c'') : Plain blocks c (is ++ js) c'' where
  toPiece := h.toPiece.trans k.toPiece
  plain := by
    intro i hi
    rcases List.mem_append.1 hi with hi | hi
    · exact h.plain i hi
    · exact k.plain i hi

lemma plain_refl (c : Compiler) : Plain blocks c [] c := ⟨⟨.refl c, .refl c, by simp⟩, by simp⟩

lemma piece_emit (c : Compiler) {op : Opcode} (h : op ≠ .warp) :
    Piece blocks c [⟨op, []⟩] (c.emit op) :=
  ⟨emits_emit c op, keeps_emit c op, by simpa using h⟩

lemma plain_emit (c : Compiler) {op : Opcode} (h : op ≠ .warp) (hc : op ≠ .initProcedure) :
    Plain blocks c [⟨op, []⟩] (c.emit op) :=
  ⟨piece_emit c h, by simpa using hc⟩

lemma plain_emitAt (c : Compiler) {op : Opcode} (h : op ≠ .warp) (hc : op ≠ .initProcedure)
    (i : Nat) : Plain blocks c [⟨op, [UInt32.ofNat i]⟩] (c.emitAt op i) :=
  ⟨⟨emits_emitAt c op i, keeps_emitAt c op i, by simpa using h⟩, by simpa using hc⟩

lemma plain_const (c : Compiler) (v : Value) : ∃ is, Plain blocks c is (c.const v) := by
  obtain ⟨i, h, -⟩ := emits_const c v
  exact ⟨_, ⟨h, keeps_const c v, by simp⟩, by simp⟩

lemma plain_callNative (c : Compiler) (n : Native) : ∃ is, Plain blocks c is (c.callNative n) := by
  obtain ⟨i, h, -⟩ := emits_callNative c n
  exact ⟨_, ⟨h, keeps_callNative c n, by simp⟩, by simp⟩

lemma plain_variableOp (c : Compiler) (op : VariableOp) (r : Reference) :
    ∃ is, Plain blocks c is (c.variableOp op r) := by
  obtain ⟨i, s, h, -⟩ := emits_variableOp c op r
  exact ⟨_, ⟨h, keeps_variableOp c op r, by simp⟩, by simp⟩

lemma plain_listOp (c : Compiler) (op : ListOp) (r : Reference) :
    ∃ is, Plain blocks c is (c.listOp op r) := by
  obtain ⟨i, s, h, -⟩ := emits_listOp c op r
  exact ⟨_, ⟨h, keeps_listOp c op r, by simp⟩, by simp⟩

lemma plain_markUnsupported (c : Compiler) (id : String) :
    Plain blocks c [] (c.markUnsupported .builtin blocks id) :=
  ⟨⟨emits_markUnsupported c .builtin blocks id, keeps_markUnsupported c .builtin id, by simp⟩,
    by simp⟩

lemma plain_internProcedure (c : Compiler) (code : String) :
    Plain blocks c [] (c.internProcedure code).2 :=
  ⟨⟨emits_internProcedure c code, keeps_internProcedure c code, by simp⟩, by simp⟩

lemma plain_definition (c : Compiler) (code : String) :
    Plain blocks c [] (c.definition blocks code).2 := by
  refine ⟨⟨?_, keeps_definition c code, by simp⟩, by simp⟩
  unfold definition
  repeat' split
  all_goals exact ⟨by simp, .refl _, rfl, rfl⟩

/-- Holds of all that a descent follows. -/
structure Follows (R : Compiler → List Line → Compiler → Prop) (d : Descent) (t : Trace) : Prop where
  value : ∀ (id : String) (c : Compiler), R c (t.value id c) (d.value id c)
  stack : ∀ (first : Option String) (c : Compiler), R c (t.stack first c) (d.stack first c)

section

variable {R : Compiler → List Line → Compiler → Prop} (hR : Builds blocks R)

include hR

lemma Builds.some_piece {c c' : Compiler} (id : Option String)
    (h : ∃ is, Plain blocks c is c') : R c (added id c c') c' :=
  h.elim fun _ h => hR.piece id h

lemma Builds.nothing {c c' : Compiler} (h : Plain blocks c [] c') : R c [] c' := by
  have := hR.piece none h
  rwa [added_of_code h.emits.code] at this

variable {d : Descent} {t : Trace} (h : Follows R d t) (id : String) (b : Block)

include h

lemma Builds.input (c : Compiler) (name : String) :
    R c (inputLines d t blocks id b c name) (c.input d blocks b name) := by
  unfold inputLines
  rw [input_eq]
  cases b.source blocks name with
  | block id' => exact h.value id' c
  | value v => exact hR.some_piece id (plain_const c v)
  | var r => exact hR.some_piece id (plain_variableOp c .read r)
  | list r => exact hR.some_piece id (plain_listOp c .read r)
  | nothing => exact hR.piece id (plain_emit c (by simp) (by simp))

lemma Builds.step (c : Compiler) {s : Recipe.Step} (hs : s ≠ .emit .warp)
    (hcall : s ≠ .emit .initProcedure) :
    R c (stepLines .builtin d t blocks id b c s) (c.step .builtin d blocks b s) := by
  cases s with
  | input name => exact hR.input h id b c name
  | condition name =>
    refine hR.append (hR.input h id b c name) ?_
    simp only [Compiler.step]
    rcases condition_cases .builtin blocks b d c name with he | he <;> rw [he]
    · exact hR.piece id (plain_refl _)
    · exact hR.piece id ((plain_emit _ (by simp) (by simp)).trans (plain_emit _ (by simp) (by simp)))
  | body name => exact h.stack _ c
  | loopBody name =>
    refine hR.append (h.stack _ c) ?_
    simp only [Compiler.step]
    change R (c.body d blocks b name) _ _
    generalize c.body d blocks b name = c'
    cases c'.warp with
    | true => exact hR.piece id (plain_refl c')
    | false => exact hR.piece id (plain_emit c' (by simp) (by simp))
  | emit op =>
    exact hR.piece id (plain_emit c (fun he => hs (by rw [he])) fun he => hcall (by rw [he]))
  | call n => exact hR.some_piece id (plain_callNative c n)
  | const v => exact hR.some_piece id (plain_const c v)
  | field name => exact hR.some_piece id (plain_const c _)
  | variableEntry =>
    simp only [stepLines, Compiler.step]
    split
    · exact hR.piece id
        ⟨⟨emits_internVariable c _, keeps_internVariable c _, by simp⟩, by simp⟩
    · exact hR.piece id (plain_refl c)
  | listEntry =>
    simp only [stepLines, Compiler.step]
    split
    · exact hR.piece id ⟨⟨emits_internList c _, keeps_internList c _, by simp⟩, by simp⟩
    · exact hR.piece id (plain_refl c)
  | var op =>
    simp only [stepLines, Compiler.step]
    split
    · exact hR.some_piece id (plain_variableOp c op _)
    · exact hR.piece id (plain_refl c)
  | list op =>
    simp only [stepLines, Compiler.step]
    split
    · exact hR.some_piece id (plain_listOp c op _)
    · exact hR.piece id (plain_refl c)

lemma Builds.steps {ss : List Recipe.Step} (hss : .emit .warp ∉ ss)
    (hcall : .emit .initProcedure ∉ ss) (c : Compiler) :
    R c (stepsLines .builtin d t blocks id b c ss) (c.steps .builtin d blocks b ss) := by
  induction ss generalizing c with
  | nil => exact hR.nothing (plain_refl c)
  | cons s rest ih =>
    simp only [List.mem_cons, not_or] at hss hcall
    exact hR.append (hR.step h id b c (Ne.symm hss.1) (Ne.symm hcall.1)) (ih hss.2 hcall.2 _)

omit h

lemma Builds.recipe {fuel : Nat}
    (h : Follows R (Compiler.descend .builtin blocks fuel) (trace .builtin blocks fuel))
    (hb : blocks.get? id = some b) (c : Compiler) {r : Recipe}
    (hr : r ∈ Palette.builtin.recipes) (hd : r = .definition → b.opcode = "procedures_definition")
    (hc : r = .call → b.opcode = "procedures_call") :
    R c (recipeLines .builtin (Compiler.descend .builtin blocks fuel) (trace .builtin blocks fuel) blocks
      id b c r) (c.recipe .builtin (Compiler.descend .builtin blocks fuel) blocks b r) := by
  have hplain : ∀ r ∈ Palette.builtin.recipes, ∀ ss ∈ r.plans,
      .emit .warp ∉ ss ∧ .emit .initProcedure ∉ ss := by decide
  have hplan : ∀ ss, r.plan? .builtin b = some ss →
      R c (stepsLines .builtin (Compiler.descend .builtin blocks fuel) (trace .builtin blocks fuel)
        blocks id b c ss) (c.steps .builtin (Compiler.descend .builtin blocks fuel) blocks b ss) := by
    intro ss hss
    obtain ⟨hwarp, hcall⟩ := hplain r hr ss (Recipe.mem_plans hss)
    exact hR.steps h id b hwarp hcall c
  cases r with
  | steps ss => exact hplan ss rfl
  | needs field ss otherwise => exact hplan _ rfl
  | choose field options otherwise => exact hplan _ rfl
  | definition => exact hR.head hb (hd rfl) id c
  | call => exact hR.call hb (hc rfl) (hR.input h id b) c
  | argument outside =>
    change R c (added id c (c.readArgument b outside)) (c.readArgument b outside)
    unfold readArgument
    simp only
    split
    · exact hR.piece id (plain_emitAt c (by simp) (by simp) _)
    · exact hR.some_piece id (plain_const c outside)

lemma Builds.descend (fuel : Nat) :
    Follows R (descend .builtin blocks fuel) (trace .builtin blocks fuel) := by
  have hrecipe : ∀ {fuel}, Follows R (Compiler.descend .builtin blocks fuel)
      (trace .builtin blocks fuel) → ∀ {id b}, blocks.get? id = some b → ∀ {r},
      Palette.builtin.recipe? b.opcode = some r → ∀ c : Compiler,
      R c (recipeLines .builtin (Compiler.descend .builtin blocks fuel) (trace .builtin blocks fuel)
        blocks id b c r) (c.recipe .builtin (Compiler.descend .builtin blocks fuel) blocks b r) :=
    fun ih _ b hb _ hop c => hR.recipe _ b ih hb c (Palette.mem_recipes_of_recipe? hop)
      (fun he => opcode_of_definition (he ▸ hop)) fun he => Palette.opcode_of_call (he ▸ hop)
  induction fuel with
  | zero => exact ⟨fun _ c => hR.nothing (plain_refl c), fun _ c => hR.nothing (plain_refl c)⟩
  | succ fuel ih =>
    constructor
    · intro id c
      simp only [Compiler.descend, trace, value, valueLines]
      cases hb : blocks.get? id with
      | none => exact hR.piece id (plain_emit c (by simp) (by simp))
      | some b =>
        simp only
        cases hop : Palette.builtin.recipe? b.opcode with
        | some r => exact hrecipe ih hb hop c
        | none =>
          exact hR.piece id ((plain_markUnsupported c id).trans (plain_emit _ (by simp) (by simp)))
    · intro first c
      simp only [Compiler.descend, trace]
      cases first with
      | none => exact hR.nothing (plain_refl c)
      | some id =>
        simp only
        cases hb : blocks.get? id with
        | none => exact hR.nothing (plain_refl c)
        | some b =>
          refine hR.append ?_ (ih.stack b.next _)
          simp only [command, commandLines]
          split
          · exact hR.nothing (plain_refl c)
          · cases hop : Palette.builtin.recipe? b.opcode with
            | some r => exact hrecipe ih hb hop c
            | none => exact hR.nothing (plain_markUnsupported c id)

lemma Builds.root (id : String) (mode : Mode) (c : Compiler) :
    R c (rootLines .builtin blocks id mode c) (c.root .builtin blocks id mode) := by
  have hd := hR.descend (depth blocks)
  cases mode with
  | script => exact hd.stack (some id) c
  | reporter => exact hd.value id c
  | predicate =>
    have key : ∀ s ∈ Palette.builtin.sections, ∀ e ∈ s.predicates,
        e.2 ≠ .definition ∧ e.2 ≠ .call := by decide
    simp only [Compiler.root, rootLines]
    cases hb : blocks.get? id with
    | none => exact hR.piece id (plain_emit c (by simp) (by simp))
    | some b =>
      simp only
      cases hop : Palette.builtin.predicate? b.opcode with
      | none => exact hR.piece id (plain_emit c (by simp) (by simp))
      | some r =>
        obtain ⟨s, hs, hr⟩ := List.exists_of_findSome?_eq_some hop
        obtain ⟨hdefinition, hcall⟩ := key s hs _ (mem_of_lookup hr)
        exact hR.recipe id b hd hb c (Palette.mem_recipes_of_predicate? hop)
          (fun he => absurd he hdefinition) fun he => absurd he hcall

/-- What holds of all that is written holds of every listing. -/
lemma Builds.listing (c : Compiler) (id : String) (mode : Mode) :
    R c.fresh (c.listing .builtin blocks id mode)
      (((c.fresh.emit .start).root .builtin blocks id mode).emit .halt) :=
  hR.append (hR.append (hR.piece none (plain_emit _ (by simp) (by simp))) (hR.root id mode _))
    (hR.piece none (plain_emit _ (by simp) (by simp)))

end

/-! ### Calls are composed of pieces -/

section

variable {R : Compiler → List Line → Compiler → Prop} (hR : Composes blocks R) {d : Descent}
  {t : Trace} {id : String} {b : Block}
  (hin : ∀ c name, R c (inputLines d t blocks id b c name) (c.input d blocks b name))

include hR

lemma Composes.nothing {c c' : Compiler} (h : Piece blocks c [] c') : R c [] c' := by
  have := hR.piece none h
  rwa [added_of_code h.emits.code] at this

lemma Composes.after_nothing {c c' c'' : Compiler} {ls : List Line} (h : Piece blocks c [] c')
    (k : R c' ls c'') : R c ls c'' :=
  hR.append (hR.nothing h) k

include hin

lemma Composes.argument (defaults : Signature) (c : Compiler) (arg : String × Nat) :
    R c (argumentLines d t blocks id b defaults c arg)
      (Compiler.argument d blocks b defaults c arg) := by
  unfold argumentLines Compiler.argument
  split
  · exact hR.append (hin c arg.1) (hR.piece id (piece_emit _ (by simp)))
  · obtain ⟨is, hc⟩ := @plain_const blocks c (defaults.defaultArgument arg.2)
    exact hR.piece id (hc.toPiece.trans (piece_emit _ (by simp)))

lemma Composes.arguments_of_inputs (defaults : Signature) (c : Compiler)
    (args : List (String × Nat)) : R c (argumentsLines d t blocks id b defaults c args)
      (args.foldl (Compiler.argument d blocks b defaults) c) := by
  induction args generalizing c with
  | nil => exact hR.nothing (plain_refl c).toPiece
  | cons arg rest ih => exact hR.append (hR.argument hin defaults c arg) (ih _)

lemma Composes.call (c : Compiler) : R c (callLines d t blocks id b c) (c.call d blocks b) := by
  unfold callLines Compiler.call
  cases b.mutation with
  | none => exact hR.nothing (plain_refl c).toPiece
  | some m =>
    simp only [List.append_assoc]
    generalize Signature.ofMutation m = s
    refine hR.after_nothing (plain_definition c s.code).toPiece ?_
    refine hR.after_nothing (plain_internProcedure _ s.code).toPiece ?_
    exact hR.append (hR.piece id (piece_emit _ (by simp)))
      (hR.append (hR.arguments_of_inputs hin _ _ _)
        (hR.piece id (plain_emitAt _ (by simp) (by simp) _).toPiece))

omit hin

lemma Composes.builds : Builds blocks R where
  append := hR.append
  piece id h := hR.piece id h.toPiece
  head := hR.head
  call _ _ hin := hR.call hin

lemma Composes.descend (fuel : Nat) :
    Follows R (descend .builtin blocks fuel) (trace .builtin blocks fuel) :=
  hR.builds.descend fuel

lemma Composes.arguments (h : Follows R d t) (id : String) (b : Block) (defaults : Signature)
    (c : Compiler) (args : List (String × Nat)) :
    R c (argumentsLines d t blocks id b defaults c args)
      (args.foldl (Compiler.argument d blocks b defaults) c) :=
  hR.arguments_of_inputs (hR.builds.input h id b) defaults c args

lemma Composes.steps (h : Follows R d t) (id : String) (b : Block) {ss : List Recipe.Step}
    (hss : .emit .warp ∉ ss) (c : Compiler) :
    R c (stepsLines .builtin d t blocks id b c ss) (c.steps .builtin d blocks b ss) := by
  induction ss generalizing c with
  | nil => exact hR.nothing (plain_refl c).toPiece
  | cons s rest ih =>
    simp only [List.mem_cons, not_or] at hss
    refine hR.append ?_ (ih hss.2 _)
    by_cases hcall : s = .emit .initProcedure
    · subst hcall
      exact hR.piece id (piece_emit c (by simp))
    · exact hR.builds.step h id b c (Ne.symm hss.1) hcall

/-- What composes holds of every listing. -/
lemma Composes.listing (c : Compiler) (id : String) (mode : Mode) :
    R c.fresh (c.listing .builtin blocks id mode)
      (((c.fresh.emit .start).root .builtin blocks id mode).emit .halt) :=
  hR.builds.listing c id mode

end

end

/-! ### Bodies -/

/-- Within a unit no body is given. -/
lemma composes_bodies (blocks : BlockMap) : Composes blocks fun c _ c' =>
    ∀ (i : Nat) (body : Code), c'.tables.procedures[i]? = some (some body) →
      c.tables.procedures[i]? = some (some body) where
  append := fun h k i body hb => h i body (k i body hb)
  piece := fun _ h => h.keeps.bodies
  head := by
    intro a b hb hop id c
    unfold head
    cases (pluggedBlock? blocks b "custom_block").bind (·.mutation) with
    | none => exact fun _ _ hb => hb
    | some m =>
      have hin := (@keeps_internProcedure blocks c (Signature.ofMutation m).code).bodies
      simp only
      split
      · exact hin
      · exact hin

/-- Hats and heads of custom blocks are what units start from. -/
def IsRoot (blocks : BlockMap) (id : String) : Prop :=
  ∃ b, (id, b) ∈ blocks.entries ∧
    (Palette.builtin.isHat b.opcode = true ∨ b.opcode = "procedures_definition")

/-- The code is that of a unit, whose operands some tables resolve. -/
structure Unit (blocks : BlockMap) (t : Tables) (code : Code) (c : Compiler) (id : String)
    (mode : Mode) : Prop where
  root : IsRoot blocks id
  code : code = (c.compile .builtin blocks id mode).1
  tidy : c.tables.Tidy
  grows : (c.compile .builtin blocks id mode).2.tables.Grows t

lemma Unit.later {blocks : BlockMap} {t t' : Tables} {code : Code} {c : Compiler} {id : String}
    {mode : Mode} (h : Unit blocks t code c id mode) (hg : t.Grows t') :
    Unit blocks t' code c id mode :=
  ⟨h.root, h.code, h.tidy, h.grows.trans hg⟩

/-- What the lines of a unit enter into its tables is resolved. -/
lemma Unit.listed {blocks : BlockMap} {t : Tables} {code : Code} {c : Compiler} {id : String}
    {mode : Mode} (h : Unit blocks t code c id mode) :
    ((c.fresh.emit .start).root .builtin blocks id mode).tables.Grows t ∧ t.Tidy := by
  have hgrows := (grows_end c blocks id mode).trans h.grows
  exact ⟨hgrows, hgrows.tidy ((writes_listing c blocks id mode).puts.grows.tidy h.tidy)⟩

/-- Every body is a unit that ends as the body of a custom block. -/
structure Linking (blocks : BlockMap) (t : Tables) : Prop where
  tidy : t.Tidy
  bodies : ∀ (i : Nat) (body : Code), t.procedures[i]? = some (some body) →
    ∃ c id mode, Unit blocks t body c id mode ∧ mode ≠ .reporter ∧
      (c.prototype? .builtin blocks id mode).isSome

lemma body_of_install {c : Compiler} {s : Signature} {code body : Code} {i : Nat}
    (h : (c.install s code).tables.procedures[i]? = some (some body)) :
    c.tables.procedures[i]? = some (some body) ∨ body = code := by
  have hin := (@keeps_internProcedure {} c s.code).bodies
  simp only [install] at h
  generalize c.internProcedure s.code = interned at h hin
  obtain ⟨j, c'⟩ := interned
  simp only at h hin
  split at h
  · simp only at h
    by_cases hij : j = i
    · subst hij
      rw [List.getElem?_set] at h
      simp only [if_true] at h
      split at h
      · cases h
        exact Or.inr rfl
      · cases h
    · rw [List.getElem?_set_ne hij] at h
      exact Or.inl (hin i body h)
  · exact Or.inl (hin i body h)

/-- A unit keeps what is linked and adds at most its own code as a body. -/
lemma Linking.compile {blocks : BlockMap} {c : Compiler} (h : Linking blocks c.tables) {id : String}
    (hid : IsRoot blocks id) {mode : Mode} (hmode : mode ≠ .reporter) :
    Linking blocks (c.compile .builtin blocks id mode).2.tables := by
  have hgrows := grows_compile c blocks id mode
  have hroot := (composes_bodies blocks).listing c id mode
  refine ⟨hgrows.tidy h.tidy, fun i body hb => ?_⟩
  have hold : c.tables.procedures[i]? = some (some body) →
      ∃ c' id' mode', Unit blocks (c.compile .builtin blocks id mode).2.tables body c' id' mode' ∧
        mode' ≠ .reporter ∧ (c'.prototype? .builtin blocks id' mode').isSome := by
    intro hb
    obtain ⟨c', id', mode', hu, hm, hp⟩ := h.bodies i body hb
    exact ⟨c', id', mode', hu.later hgrows, hm, hp⟩
  simp only [Compiler.compile] at hb
  split at hb
  · next s hs =>
    rcases body_of_install hb with hb | rfl
    · exact hold (hroot i body hb)
    · refine ⟨c, id, mode, ⟨hid, rfl, h.tidy, .refl _⟩, hmode, ?_⟩
      exact Option.isSome_iff_exists.2 ⟨s, hs⟩
  · exact hold (hroot i body hb)

lemma Linking.compileAll {blocks : BlockMap} {c : Compiler} (h : Linking blocks c.tables)
    {units : List (String × Mode)} (hu : ∀ u ∈ units, IsRoot blocks u.1 ∧ u.2 ≠ .reporter) :
    Linking blocks (c.compileAll .builtin blocks units).tables := by
  induction units generalizing c with
  | nil => exact h
  | cons u rest ih =>
    obtain ⟨hroot, hmode⟩ := hu u (by simp)
    exact ih (h.compile hroot hmode) fun v hv => hu v (List.mem_cons_of_mem _ hv)

/-! ### The units of a script -/

/-- The code of a compiled hat and the code of its condition are units. -/
structure HatUnits (blocks : BlockMap) (t : Tables) (h : Engine.CompiledHat) : Prop where
  main : ∃ c id, Unit blocks t h.main c id .script
  predicate : ∀ code, h.predicate = some code → ∃ c id, Unit blocks t code c id .predicate

lemma hatUnits_compileHats {blocks : BlockMap} {entries : List (String × Block)} {c : Compiler}
    (h : Linking blocks c.tables) (he : ∀ e ∈ entries, IsRoot blocks e.1) :
    let compiled := Engine.compileHats .builtin blocks entries c
    c.tables.Grows compiled.2.tables ∧ Linking blocks compiled.2.tables ∧
      ∀ x ∈ compiled.1, HatUnits blocks compiled.2.tables x := by
  induction entries generalizing c with
  | nil => exact ⟨.refl _, h, by simp [Engine.compileHats]⟩
  | cons e rest ih =>
    obtain ⟨id, b⟩ := e
    have hid := he (id, b) (by simp)
    have hmain := h.compile hid (by simp : Mode.script ≠ .reporter)
    have hgrows := grows_compile c blocks id .script
    simp only [Engine.compileHats]
    -- the condition, if there is one, is compiled between the script and the scripts to come
    obtain ⟨predicate, c', hc', hlink, hg, hp⟩ : ∃ (predicate : Option Code) (c' : Compiler),
        (if (Palette.builtin.predicate? b.opcode).isSome then
          (some ((c.compile .builtin blocks id .script).2.compile .builtin blocks id .predicate).1,
            ((c.compile .builtin blocks id .script).2.compile .builtin blocks id .predicate).2)
        else (none, (c.compile .builtin blocks id .script).2)) = (predicate, c') ∧
        Linking blocks c'.tables ∧
        (c.compile .builtin blocks id .script).2.tables.Grows c'.tables ∧
        ∀ code, predicate = some code → ∃ d i, Unit blocks c'.tables code d i .predicate := by
      split
      · refine ⟨_, _, rfl, hmain.compile hid (by simp), grows_compile _ blocks id .predicate, ?_⟩
        rintro code hcode
        cases hcode
        exact ⟨_, id, hid, rfl, hmain.tidy, .refl _⟩
      · exact ⟨_, _, rfl, hmain, .refl _, by simp⟩
    rw [hc']
    obtain ⟨hg', hlink', hrest⟩ := ih hlink fun e he' => he e (List.mem_cons_of_mem _ he')
    refine ⟨hgrows.trans (hg.trans hg'), hlink', fun x hx => ?_⟩
    rcases List.mem_cons.1 hx with rfl | hx
    · exact ⟨⟨c, id, hid, rfl, h.tidy, hg.trans hg'⟩, fun code hcode =>
        (hp code hcode).imp fun _ hd => hd.imp fun _ hu => hu.later hg'⟩
    · exact hrest x hx

end Compiler

/-- The code of a routine is the code of a unit: scripts and bodies are compiled as stacks, the
condition of a hat as a condition. A unit that is a body ends with a signature in force. -/
structure Program.Compiled (p : Program) (blocks : BlockMap) (r : Routine) (c : Compiler)
    (id : String) (mode : Compiler.Mode) : Prop where
  unit : ∃ code, p.code? r = some code ∧ Compiler.Unit blocks p.tables code c id mode
  kind :
    match r with
    | .main => mode = .script
    | .predicate => mode = .predicate
    | .procedure _ => mode ≠ .reporter ∧ (c.prototype? .builtin blocks id mode).isSome

/-- Every routine of a compiled script is a unit. -/
lemma Engine.compiled_of_mem {blocks : BlockMap} {target : TargetId} {s : Script}
    (hs : s ∈ (Engine.compileTarget .builtin target blocks).1) {r : Routine}
    (hr : (s.program.code? r).isSome) :
    ∃ c id mode, s.program.Compiled blocks r c id mode := by
  have hnew : Compiler.Linking blocks Compiler.new.tables :=
    ⟨Tables.tidy_empty, fun i body hb => by simp [Compiler.new] at hb⟩
  have hdefs : Compiler.Linking blocks (compileDefinitions .builtin blocks .new).tables := by
    rw [Compiler.compileDefinitions_eq]
    refine hnew.compileAll fun u hu => ?_
    obtain ⟨e, he, rfl⟩ := List.mem_map.1 hu
    obtain ⟨hmem, hdef⟩ := List.mem_filter.1 he
    simp only [Bool.and_eq_true, beq_iff_eq] at hdef
    exact ⟨⟨e.2, hmem, Or.inr hdef.2⟩, by simp⟩
  have hroots : ∀ e ∈ rootsWhere (Palette.builtin.isHat ·.opcode) blocks,
      Compiler.IsRoot blocks e.1 := by
    intro e he
    obtain ⟨hmem, hhat⟩ := List.mem_filter.1 he
    simp only [Bool.and_eq_true] at hhat
    exact ⟨e.2, hmem, Or.inl hhat.2⟩
  obtain ⟨-, hlink, hhats⟩ := Compiler.hatUnits_compileHats hdefs hroots
  obtain ⟨h, hmem, rfl⟩ := List.mem_map.1 hs
  have hunits := hhats h hmem
  cases r with
  | main =>
    obtain ⟨c, id, hu⟩ := hunits.main
    exact ⟨c, id, .script, ⟨_, rfl, hu⟩, rfl⟩
  | predicate =>
    obtain ⟨code, hcode⟩ := Option.isSome_iff_exists.1 hr
    obtain ⟨c, id, hu⟩ := hunits.predicate code hcode
    exact ⟨c, id, .predicate, ⟨code, hcode, hu⟩, rfl⟩
  | procedure i =>
    obtain ⟨body, hbody⟩ := Option.isSome_iff_exists.1 hr
    obtain ⟨c, id, mode, hu, hm, hp⟩ := hlink.bodies i body (Option.join_eq_some_iff.1 hbody)
    exact ⟨c, id, mode, ⟨body, hbody, hu⟩, hm, hp⟩

end Blockwork
