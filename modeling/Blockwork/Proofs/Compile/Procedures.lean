import Blockwork.Engine.Basic
import Blockwork.Proofs.Compile.WellFormed

/-!
Custom blocks in the compiler. Only the head of a custom block changes what the compiler takes
itself to be compiling, and heads start scripts of their own; so within a stack the signature and
the mode stay, and a custom block gets its body from the script of its head and from no other.
-/

namespace Blockwork

namespace Compiler

/-- The signatures that the compiler has met are the first ones of the map. -/
def Known (blocks : BlockMap) (c : Compiler) : Prop :=
  ∀ code s, c.definitions.get? code = some s → findSignature? blocks code = some s

/-- Between two states of the compiler no head was met and no body was given. -/
structure Keeps (blocks : BlockMap) (c c' : Compiler) : Prop where
  signature : c'.signature = c.signature
  warp : c'.warp = c.warp
  known : c.Known blocks → c'.Known blocks
  bodies : ∀ (i : Nat) (body : Code), c'.tables.procedures[i]? = some (some body) →
    c.tables.procedures[i]? = some (some body)

section

variable {blocks : BlockMap}

lemma Keeps.refl (c : Compiler) : Keeps blocks c c := ⟨rfl, rfl, fun h => h, fun _ _ h => h⟩

lemma Keeps.trans {c c' c'' : Compiler} (h : Keeps blocks c c') (k : Keeps blocks c' c'') :
    Keeps blocks c c'' where
  signature := k.signature.trans h.signature
  warp := k.warp.trans h.warp
  known := fun hc => k.known (h.known hc)
  bodies := fun i body hb => h.bodies i body (k.bodies i body hb)

/-- What touches neither custom blocks nor signatures. -/
lemma keeps_of_emits {c c' : Compiler} {is : List Instruction} (h : c.Emits is c')
    (hd : c'.definitions = c.definitions) (hp : c'.tables.procedures = c.tables.procedures) :
    Keeps blocks c c' where
  signature := h.signature
  warp := h.warp
  known := fun hk code s hs => hk code s (hd ▸ hs)
  bodies := fun _ _ hb => hp ▸ hb

lemma keeps_emit (c : Compiler) (op : Opcode) : Keeps blocks c (c.emit op) :=
  keeps_of_emits (emits_emit c op) rfl rfl

lemma keeps_emitAt (c : Compiler) (op : Opcode) (i : Nat) : Keeps blocks c (c.emitAt op i) :=
  keeps_of_emits (emits_emitAt c op i) rfl rfl

lemma keeps_const (c : Compiler) (v : Value) : Keeps blocks c (c.const v) :=
  keeps_of_emits (emits_const c v).choose_spec.1 rfl rfl

lemma keeps_callNative (c : Compiler) (n : Native) : Keeps blocks c (c.callNative n) :=
  keeps_of_emits (emits_callNative c n).choose_spec.1 rfl rfl

lemma keeps_internVariable (c : Compiler) (r : Reference) :
    Keeps blocks c (c.internVariable r).2 :=
  keeps_of_emits (emits_internVariable c r) rfl rfl

lemma keeps_internList (c : Compiler) (r : Reference) : Keeps blocks c (c.internList r).2 :=
  keeps_of_emits (emits_internList c r) rfl rfl

lemma keeps_variableOp (c : Compiler) (op : VariableOp) (r : Reference) :
    Keeps blocks c (c.variableOp op r) :=
  (keeps_internVariable c r).trans (keeps_emitAt _ _ _)

lemma keeps_listOp (c : Compiler) (op : ListOp) (r : Reference) :
    Keeps blocks c (c.listOp op r) :=
  (keeps_internList c r).trans (keeps_emitAt _ _ _)

lemma keeps_markUnsupported (c : Compiler) (palette : Palette) (id : String) :
    Keeps blocks c (c.markUnsupported palette blocks id) :=
  keeps_of_emits (emits_markUnsupported c palette blocks id) rfl rfl

lemma keeps_internProcedure (c : Compiler) (code : String) :
    Keeps blocks c (c.internProcedure code).2 := by
  have he := emits_internProcedure c code
  refine ⟨he.signature, he.warp, ?_, ?_⟩ <;>
    rcases internProcedure_cases c code with ⟨i, h, -⟩ | ⟨-, h⟩ <;> rw [h]
  · exact fun hk => hk
  · exact fun hk => hk
  · exact fun _ _ hb => hb
  · -- the new place is empty
    intro i body hb
    rcases lt_or_ge i c.tables.procedures.length with hi | hi
    · rwa [List.getElem?_append_left hi] at hb
    · rw [List.getElem?_append_right hi] at hb
      simpa using List.mem_of_getElem? hb

/-- The signature of a custom block is the first one of the map. -/
lemma definition_eq {c : Compiler} (h : c.Known blocks) (code : String) :
    (c.definition blocks code).1 = findSignature? blocks code := by
  unfold definition
  cases hd : c.definitions.get? code with
  | some s => exact (h code s hd).symm
  | none => cases findSignature? blocks code <;> rfl

lemma keeps_definition (c : Compiler) (code : String) :
    Keeps blocks c (c.definition blocks code).2 := by
  unfold definition
  cases c.definitions.get? code with
  | some s => exact .refl c
  | none =>
    cases hf : findSignature? blocks code with
    | none => exact .refl c
    | some s =>
      refine ⟨rfl, rfl, fun hk code' s' hs => ?_, fun _ _ hb => hb⟩
      rw [Dictionary.get?_insert] at hs
      split at hs
      · next he =>
        cases hs
        rw [he, hf]
      · exact hk code' s' hs

/-! ### Blocks that are no heads -/

/-- A descent that keeps, for all that a block refers to. -/
structure Descent.Keeping (blocks : BlockMap) (b : Block) (d : Descent) : Prop where
  value : ∀ name id, b.source blocks name = .block id →
    ∀ c : Compiler, Keeps blocks c (d.value id c)
  stack : ∀ name c, Keeps blocks c (d.stack (bodyId? blocks b name) c)

variable {b : Block} {d : Descent}

lemma keeps_input (h : d.Keeping blocks b) (c : Compiler) (name : String) :
    Keeps blocks c (c.input d blocks b name) := by
  rw [input_eq]
  cases hs : b.source blocks name with
  | block id => exact h.value name id hs c
  | value v => exact keeps_const c v
  | var r => exact keeps_variableOp c .read r
  | list r => exact keeps_listOp c .read r
  | nothing => exact keeps_emit c .null

lemma keeps_condition (h : d.Keeping blocks b) (palette : Palette) (c : Compiler)
    (name : String) : Keeps blocks c (c.condition palette d blocks b name) := by
  have hi := keeps_input h c name
  rcases condition_cases palette blocks b d c name with he | he <;> rw [he]
  · exact hi
  · exact hi.trans ((keeps_emit _ _).trans (keeps_emit _ _))

lemma keeps_body (h : d.Keeping blocks b) (c : Compiler) (name : String) :
    Keeps blocks c (c.body d blocks b name) :=
  h.stack name c

lemma keeps_step (h : d.Keeping blocks b) (palette : Palette) (c : Compiler)
    (s : Recipe.Step) : Keeps blocks c (c.step palette d blocks b s) := by
  cases s with
  | input name => exact keeps_input h c name
  | condition name => exact keeps_condition h palette c name
  | body name => exact keeps_body h c name
  | loopBody name =>
    simp only [step]
    split
    · exact keeps_body h c name
    · exact (keeps_body h c name).trans (keeps_emit _ _)
  | emit op => exact keeps_emit c op
  | call n => exact keeps_callNative c n
  | const v => exact keeps_const c v
  | field name => exact keeps_const c _
  | variableEntry =>
    simp only [step]
    split
    · exact keeps_internVariable c _
    · exact .refl c
  | listEntry =>
    simp only [step]
    split
    · exact keeps_internList c _
    · exact .refl c
  | var op =>
    simp only [step]
    split
    · exact keeps_variableOp c op _
    · exact .refl c
  | list op =>
    simp only [step]
    split
    · exact keeps_listOp c op _
    · exact .refl c

lemma keeps_steps (h : d.Keeping blocks b) (palette : Palette) (c : Compiler)
    (ss : List Recipe.Step) : Keeps blocks c (c.steps palette d blocks b ss) := by
  induction ss generalizing c with
  | nil => exact .refl c
  | cons s rest ih => exact (keeps_step h palette c s).trans (ih _)

lemma keeps_argument (h : d.Keeping blocks b) (defaults : Signature) (c : Compiler)
    (arg : String × Nat) : Keeps blocks c (argument d blocks b defaults c arg) := by
  unfold argument
  split
  · exact (keeps_input h c arg.1).trans (keeps_emit _ _)
  · exact (keeps_const c _).trans (keeps_emit _ _)

lemma keeps_arguments (h : d.Keeping blocks b) (defaults : Signature) (c : Compiler)
    (args : List (String × Nat)) :
    Keeps blocks c (args.foldl (argument d blocks b defaults) c) := by
  induction args generalizing c with
  | nil => exact .refl c
  | cons arg rest ih => exact (keeps_argument h defaults c arg).trans (ih _)

lemma keeps_call (h : d.Keeping blocks b) (c : Compiler) : Keeps blocks c (c.call d blocks b) := by
  unfold call
  cases b.mutation with
  | none => exact .refl c
  | some m =>
    exact (keeps_definition c _).trans ((keeps_internProcedure _ _).trans
      ((keeps_emit _ _).trans ((keeps_arguments h _ _ _).trans (keeps_emitAt _ _ _))))

lemma keeps_readArgument (outside : Value) (c : Compiler) :
    Keeps blocks c (c.readArgument b outside) := by
  unfold readArgument
  simp only
  split
  · exact keeps_emitAt c _ _
  · exact keeps_const c outside

/-- The recipes but that of heads. -/
lemma keeps_recipe (h : d.Keeping blocks b) (palette : Palette) (c : Compiler) {r : Recipe}
    (hr : r ≠ .definition) : Keeps blocks c (c.recipe palette d blocks b r) := by
  cases r with
  | steps ss => exact keeps_steps h palette c ss
  | needs field ss otherwise => exact keeps_steps h palette c _
  | choose field options otherwise => exact keeps_steps h palette c _
  | definition => exact absurd rfl hr
  | call => exact keeps_call h c
  | argument outside => exact keeps_readArgument outside c

/-! ### Following blocks -/

/-- Nobody but heads has their recipe. -/
lemma opcode_of_definition {opcode : String}
    (h : Palette.builtin.recipe? opcode = some .definition) : opcode = "procedures_definition" := by
  have key : ∀ s ∈ Palette.builtin.sections, ∀ e ∈ s.recipes, e.2 = .definition →
      e.1 = "procedures_definition" := by
    decide
  obtain ⟨s, hs, hr⟩ := List.exists_of_findSome?_eq_some h
  exact key s hs (opcode, .definition) (mem_of_lookup hr) rfl

lemma head_of_head? {c : Compiler} (h : b.opcode = "procedures_definition") {s : Signature}
    (hs : b.head? blocks = some s) :
    c.head blocks b = if s.warp then (c.define s).emit .warp else c.define s := by
  simp only [Block.head?, h, beq_self_eq_true, if_true] at hs
  obtain ⟨m, hm, rfl⟩ := Option.map_eq_some_iff.1 hs
  simp [head, hm]

lemma head_of_no_head {c : Compiler} (h : b.opcode = "procedures_definition")
    (hs : b.head? blocks = none) : c.head blocks b = c := by
  simp only [Block.head?, h, beq_self_eq_true, if_true, Option.map_eq_none_iff] at hs
  simp [head, hs]

/-- Whatever recipe a block has that is no head. -/
lemma keeps_no_head (h : d.Keeping blocks b) (hb : b.head? blocks = none) (c : Compiler)
    {r : Recipe} (hr : Palette.builtin.recipe? b.opcode = some r) :
    Keeps blocks c (c.recipe .builtin d blocks b r) := by
  by_cases he : r = .definition
  · subst he
    change Keeps blocks c (c.head blocks b)
    rw [head_of_no_head (opcode_of_definition hr) hb]
    exact .refl c
  · exact keeps_recipe h .builtin c he

lemma keeps_command (h : d.Keeping blocks b) (hb : b.head? blocks = none) (id : String)
    (c : Compiler) : Keeps blocks c (c.command .builtin d blocks id b) := by
  unfold command
  split
  · exact .refl c
  · cases hr : Palette.builtin.recipe? b.opcode with
    | some r => exact keeps_no_head h hb c hr
    | none => exact keeps_markUnsupported c .builtin id

end

/-- No head is referred to. -/
lemma head?_of_leads {blocks : BlockMap} (ho : blocks.Orderly) {a id : String}
    (h : blocks.Leads a id) : ∀ x ∈ blocks.get? id, x.head? blocks = none := by
  obtain ⟨y, hy, hr, -⟩ := h
  exact ho.roots (a, y) (Dictionary.mem_of_get? hy) id hr

section

variable {blocks : BlockMap} (hkey : blocks.Keyed) (ho : blocks.Orderly)

include hkey ho in
lemma keeping_of_descend {d : Descent}
    (hv : ∀ id, (∀ x ∈ blocks.get? id, x.head? blocks = none) →
      ∀ c : Compiler, Keeps blocks c (d.value id c))
    (hs : ∀ first, (∀ id ∈ first, ∀ x ∈ blocks.get? id, x.head? blocks = none) →
      ∀ c : Compiler, Keeps blocks c (d.stack first c))
    {a : String} {b : Block} (hb : blocks.get? a = some b) : d.Keeping blocks b where
  value := fun _ id hid c => hv id (head?_of_leads ho (BlockMap.leads_of_source hb hid)) c
  stack := fun name c => by
    refine hs _ (fun id hid => ?_) c
    obtain ⟨hp, hx⟩ := bodyId?_eq_some hkey hid
    exact head?_of_leads ho (BlockMap.leads_of_plugged hb hp hx)

include hkey ho in
lemma keeps_descend (fuel : Nat) :
    (∀ id, (∀ x ∈ blocks.get? id, x.head? blocks = none) →
      ∀ c : Compiler, Keeps blocks c ((descend .builtin blocks fuel).value id c)) ∧
    (∀ first, (∀ id ∈ first, ∀ x ∈ blocks.get? id, x.head? blocks = none) →
      ∀ c : Compiler, Keeps blocks c ((descend .builtin blocks fuel).stack first c)) := by
  induction fuel with
  | zero => exact ⟨fun _ _ c => .refl c, fun _ _ c => .refl c⟩
  | succ fuel ih =>
    constructor
    · intro id hid c
      simp only [descend, value]
      cases hb : blocks.get? id with
      | none => exact keeps_emit c .null
      | some b =>
        simp only
        cases hr : Palette.builtin.recipe? b.opcode with
        | some r =>
          exact keeps_no_head (keeping_of_descend hkey ho ih.1 ih.2 hb) (hid b hb) c hr
        | none => exact (keeps_markUnsupported c .builtin id).trans (keeps_emit _ _)
    · intro first hfirst c
      simp only [descend]
      cases first with
      | none => exact .refl c
      | some id =>
        simp only
        cases hb : blocks.get? id with
        | none => exact .refl c
        | some b =>
          have hc := keeps_command (keeping_of_descend hkey ho ih.1 ih.2 hb)
            (hfirst id rfl b hb) id c
          refine hc.trans (ih.2 b.next (fun id' hid' x hx => ?_) _)
          exact head?_of_leads ho (BlockMap.leads_of_next hb hid' (by rw [hx]; rfl)) x hx

/-! ### Units -/

include hkey ho in
lemma keeps_root {id : String} (hid : ∀ x ∈ blocks.get? id, x.head? blocks = none) (mode : Mode)
    (c : Compiler) : Keeps blocks c (c.root .builtin blocks id mode) := by
  have hd := keeps_descend hkey ho (depth blocks)
  cases mode with
  | script => exact hd.2 (some id) (fun id' hid' => by cases hid'; exact hid) c
  | reporter => exact hd.1 id hid c
  | predicate =>
    simp only [root]
    cases hb : blocks.get? id with
    | none => exact keeps_emit c .null
    | some b =>
      simp only
      cases hr : Palette.builtin.predicate? b.opcode with
      | none => exact keeps_emit c .null
      | some r =>
        refine keeps_recipe (keeping_of_descend hkey ho hd.1 hd.2 hb) .builtin c ?_
        rintro rfl
        have key : ∀ s ∈ Palette.builtin.sections, ∀ e ∈ s.predicates, e.2 ≠ .definition := by
          decide
        obtain ⟨s, hs, hr⟩ := List.exists_of_findSome?_eq_some hr
        exact key s hs _ (mem_of_lookup hr) rfl

lemma opcode_of_head? {b : Block} {s : Signature} (h : b.head? blocks = some s) :
    b.opcode = "procedures_definition" := by
  unfold Block.head? at h
  split at h
  · next he => simpa using he
  · cases h

lemma command_head {b : Block} {s : Signature} (h : b.head? blocks = some s) (d : Descent)
    (id : String) (c : Compiler) : c.command .builtin d blocks id b = c.head blocks b := by
  obtain ⟨hhat, hrec, -⟩ := Palette.kind_definition
  simp only [command, opcode_of_head? h, hhat, hrec]
  rfl

/-- The script of a head is the head and the stack below it. -/
lemma root_head {id : String} {b : Block} {s : Signature} (hb : blocks.get? id = some b)
    (h : b.head? blocks = some s) (c : Compiler) :
    c.root .builtin blocks id .script =
      (descend .builtin blocks (2 * blocks.size)).stack b.next (c.head blocks b) := by
  simp only [root, depth, descend, hb, command_head h]

/-- Compiling any root keeps what is known, and tells which custom block the unit belongs to. -/
structure Rooted (blocks : BlockMap) (id : String) (c c' : Compiler) : Prop where
  known : c.Known blocks → c'.Known blocks
  bodies : ∀ (i : Nat) (body : Code), c'.tables.procedures[i]? = some (some body) →
    c.tables.procedures[i]? = some (some body)
  signature : ∀ s, c'.signature = some s → c.signature = some s ∨
    ∃ b, blocks.get? id = some b ∧ b.head? blocks = some s

include ho in
lemma rooted_head {id : String} {b : Block} {s : Signature} (hb : blocks.get? id = some b)
    (h : b.head? blocks = some s) (c : Compiler) : Rooted blocks id c (c.head blocks b) := by
  have hsig := ho.signatures (id, b) (Dictionary.mem_of_get? hb) s h
  have hdefine : Rooted blocks id c (c.define s) := by
    have hin := @keeps_internProcedure blocks c s.code
    refine ⟨fun hk code s' hs => ?_, hin.bodies, fun s' hs => ?_⟩
    · simp only [define, Dictionary.get?_insert] at hs
      split at hs
      · next he =>
        cases hs
        rw [he, hsig]
      · exact hin.known hk code s' hs
    · cases hs
      exact Or.inr ⟨b, hb, h⟩
  rw [head_of_head? (opcode_of_head? h) h]
  split
  · exact ⟨hdefine.known, hdefine.bodies, hdefine.signature⟩
  · exact hdefine

lemma Keeps.rooted {c c' : Compiler} (h : Keeps blocks c c') (id : String) :
    Rooted blocks id c c' :=
  ⟨h.known, h.bodies, fun _ hs => Or.inl (h.signature ▸ hs)⟩

lemma Rooted.keep {id : String} {c c' c'' : Compiler} (h : Rooted blocks id c c')
    (k : Keeps blocks c' c'') : Rooted blocks id c c'' where
  known := fun hc => k.known (h.known hc)
  bodies := fun i body hb => h.bodies i body (k.bodies i body hb)
  signature := fun s hs => h.signature s (k.signature ▸ hs)

/-- Below a head there is no other. -/
lemma head?_below {id : String} {b : Block} (ho : blocks.Orderly) (hb : blocks.get? id = some b) :
    ∀ id' ∈ b.next, ∀ x ∈ blocks.get? id', x.head? blocks = none := fun _ hid' x hx =>
  head?_of_leads ho (BlockMap.leads_of_next hb hid' (by rw [hx]; rfl)) x hx

include hkey ho in
lemma rooted_root (id : String) (mode : Mode) (c : Compiler) :
    Rooted blocks id c (c.root .builtin blocks id mode) := by
  by_cases hid : ∀ x ∈ blocks.get? id, x.head? blocks = none
  · exact (keeps_root hkey ho hid mode c).rooted id
  · obtain ⟨b, hb, h⟩ : ∃ b, blocks.get? id = some b ∧ b.head? blocks ≠ none := by
      simpa only [not_forall, exists_prop, Option.mem_def] using hid
    obtain ⟨s, hs⟩ := Option.ne_none_iff_exists'.1 h
    have hhead := rooted_head ho hb hs c
    cases mode with
    | script =>
      rw [root_head hb hs]
      exact hhead.keep ((keeps_descend hkey ho _).2 b.next (head?_below ho hb) _)
    | reporter =>
      have hrec : Palette.builtin.recipe? b.opcode = some .definition := by
        rw [opcode_of_head? hs]
        exact Palette.kind_definition.2.1
      simp only [root, depth, descend, value, hb, hrec]
      exact hhead
    | predicate =>
      have hpred : Palette.builtin.predicate? b.opcode = none := by
        rw [opcode_of_head? hs]
        exact Palette.kind_definition.2.2
      simp only [root, hb, hpred]
      exact (keeps_emit c .null).rooted id

include hkey ho in
lemma known_compile {c : Compiler} (hc : c.Known blocks) (id : String) (mode : Mode) :
    (c.compile .builtin blocks id mode).2.Known blocks := by
  have hroot : (((c.fresh.emit .start).root .builtin blocks id mode).emit .halt).Known blocks :=
    (rooted_root hkey ho id mode (c.fresh.emit .start)).known hc
  simp only [compile]
  split
  · next s _ =>
    have hin := (@keeps_internProcedure blocks _ s.code).known hroot
    simp only [install]
    split
    · exact hin
    · exact hin
  · exact hroot

/-- A body is there from before, or the unit is the script of a head and the body is its code. -/
lemma bodies_install {c : Compiler} {s : Signature} {code body : Code} {i : Nat}
    (h : (c.install s code).tables.procedures[i]? = some (some body)) :
    c.tables.procedures[i]? = some (some body) ∨
      (c.install s code).tables.procedureCodes[i]? = some s.code := by
  have hin := (@keeps_internProcedure {} c s.code).bodies
  have hcode := get_internProcedure c s.code
  simp only [install] at h ⊢
  generalize c.internProcedure s.code = interned at h hin hcode ⊢
  obtain ⟨j, c'⟩ := interned
  simp only at h hin hcode ⊢
  split at h
  · simp only at h ⊢
    by_cases hij : j = i
    · subst hij
      exact Or.inr hcode
    · rw [List.getElem?_set_ne hij] at h
      exact Or.inl (hin i body h)
  · exact Or.inl (hin i body h)

include hkey ho in
lemma bodies_compile (c : Compiler) {id : String} {mode : Mode} {i : Nat} {body : Code}
    (h : (c.compile .builtin blocks id mode).2.tables.procedures[i]? = some (some body)) :
    c.tables.procedures[i]? = some (some body) ∨
      ∃ b s, blocks.get? id = some b ∧ b.head? blocks = some s ∧
        (c.compile .builtin blocks id mode).2.tables.procedureCodes[i]? = some s.code := by
  have hr := rooted_root hkey ho id mode (c.fresh.emit .start)
  simp only [compile] at h ⊢
  split at h
  · next s hs =>
    rcases hr.signature s hs with hnone | ⟨b, hb, hd⟩
    · cases hnone
    · rcases bodies_install h with h | hcode
      · exact Or.inl (hr.bodies i body h)
      · exact Or.inr ⟨b, s, hb, hd, hcode⟩
  · exact Or.inl (hr.bodies i body h)

/-! ### Bodies -/

/-- A custom block that has no body. -/
def Unbodied (t : Tables) (code : String) : Prop :=
  ∀ (i : Nat) (body : Code), t.procedureCodes[i]? = some code →
    t.procedures[i]? ≠ some (some body)

lemma Unbodied.of_bodies {t t' : Tables} {code : String} (h : Unbodied t code) (ht : t.Tidy)
    (hcodes : t.procedureCodes <+: t'.procedureCodes)
    (hbodies : ∀ (i : Nat) (body : Code), t'.procedures[i]? = some (some body) →
      t.procedures[i]? = some (some body) ∨ t'.procedureCodes[i]? ≠ some code) :
    Unbodied t' code := by
  intro i body hi hb
  rcases hbodies i body hb with hold | hne
  · have hlt : i < t.procedureCodes.length := ht.aligned ▸ lt_of_get? hold
    have hcode := get?_mono hcodes (List.getElem?_eq_getElem hlt)
    rw [hi] at hcode
    exact h i body (by rw [List.getElem?_eq_getElem hlt, ← hcode]) hold
  · exact hne hi

include hkey ho in
/-- The script of a head belongs to its custom block. -/
lemma signature_root_head {id : String} {b : Block} {s : Signature}
    (hb : blocks.get? id = some b) (h : b.head? blocks = some s) (c : Compiler) :
    (c.root .builtin blocks id .script).signature = some s := by
  have hsig : (c.head blocks b).signature = some s := by
    rw [head_of_head? (opcode_of_head? h) h]
    split <;> rfl
  rw [root_head hb h, ← hsig]
  exact ((keeps_descend hkey ho _).2 b.next (head?_below ho hb) _).signature

/-- A place without a body gets one. -/
lemma body_install {c : Compiler} {s : Signature} (code : Code) (ht : c.tables.Tidy)
    (h : Unbodied c.tables s.code) :
    ∃ i : Nat, (c.install s code).tables.procedureCodes[i]? = some s.code ∧
      (c.install s code).tables.procedures[i]? = some (some code) := by
  have hin := emits_internProcedure c s.code
  have hcode := get_internProcedure c s.code
  have hun : Unbodied (c.internProcedure s.code).2.tables s.code :=
    h.of_bodies ht hin.grows.codes fun i body hb =>
      Or.inl ((@keeps_internProcedure {} c s.code).bodies i body hb)
  simp only [install]
  generalize c.internProcedure s.code = interned at hin hcode hun ⊢
  obtain ⟨j, c'⟩ := interned
  simp only at hin hcode hun ⊢
  have hlt : j < c'.tables.procedures.length := by
    rw [(hin.grows.tidy ht).aligned]
    exact lt_of_get? hcode
  obtain ⟨x, hx⟩ : ∃ x, c'.tables.procedures[j]? = some x := ⟨_, List.getElem?_eq_getElem hlt⟩
  cases x with
  | some body => exact absurd hx (hun j body hcode)
  | none =>
    rw [hx]
    exact ⟨j, hcode, by simp [hlt]⟩

include hkey ho in
lemma body_compile {c : Compiler} (ht : c.tables.Tidy) {id : String} {b : Block} {s : Signature}
    (hb : blocks.get? id = some b) (h : b.head? blocks = some s) (hu : Unbodied c.tables s.code) :
    ∃ i : Nat, (c.compile .builtin blocks id .script).2.tables.procedureCodes[i]? = some s.code ∧
      (c.compile .builtin blocks id .script).2.tables.procedures[i]? =
        some (some (c.compile .builtin blocks id .script).1) := by
  have hsig : (((c.fresh.emit .start).root .builtin blocks id .script).emit .halt).signature =
      some s := signature_root_head hkey ho hb h _
  have hgrows := (writes_listing c blocks id .script).puts.grows
  have hun : Unbodied (((c.fresh.emit .start).root .builtin blocks id .script).emit .halt).tables
      s.code :=
    hu.of_bodies ht hgrows.codes fun i body hbody =>
      Or.inl ((rooted_root hkey ho id .script (c.fresh.emit .start)).bodies i body hbody)
  have hcomp : (c.compile .builtin blocks id .script).2.tables =
      ((((c.fresh.emit .start).root .builtin blocks id .script).emit .halt).install s
        (c.compile .builtin blocks id .script).1).tables := by
    simp only [compile]
    split
    · next s' hs' =>
      have : s = s' := Option.some.inj (hsig.symm.trans hs')
      rw [this]
      rfl
    · next hn => exact absurd (hsig.symm.trans hn) (by simp)
  rw [hcomp]
  exact body_install _ (hgrows.tidy ht) hun

/-- A custom block has its body from the script of its head. -/
def Bodied (blocks : BlockMap) (t : Tables) (code id : String) : Prop :=
  ∃ (c : Compiler) (i : Nat), c.Known blocks ∧ t.procedureCodes[i]? = some code ∧
    t.procedures[i]? = some (some (c.compile .builtin blocks id .script).1) ∧
    (c.compile .builtin blocks id .script).2.tables.Grows t

lemma Bodied.grows {t t' : Tables} {code id : String} (h : Bodied blocks t code id)
    (hg : t.Grows t') : Bodied blocks t' code id := by
  obtain ⟨c, i, hk, hc, hb, hgrows⟩ := h
  exact ⟨c, i, hk, get?_mono hg.codes hc, hg.bodies i _ hb, hgrows.trans hg⟩

/-- All custom blocks with a head have a body from its script, and the others have none. -/
structure Linked (blocks : BlockMap) (t : Tables) : Prop where
  tidy : t.Tidy
  bodied : ∀ code id s, blocks.headOf? code = some (id, s) → Bodied blocks t code id
  unbodied : ∀ code, blocks.headOf? code = none → Unbodied t code

lemma isSome_headOf? {id : String} {b : Block} {s : Signature} (ho : blocks.Orderly)
    (hb : blocks.get? id = some b) (h : b.head? blocks = some s) :
    (blocks.headOf? s.code).isSome := by
  have hmem := Dictionary.mem_of_get? hb
  have htop := ho.topLevel (id, b) hmem (by simp [h])
  have hat : blocks.headAt? s.code (id, b) = some (id, s) :=
    BlockMap.headAt?_eq_some.2 ⟨htop, h, rfl, rfl⟩
  exact List.findSome?_isSome_iff.2 ⟨(id, b), hmem, by rw [hat]; rfl⟩

include hkey ho in
lemma unbodied_compile {c : Compiler} (ht : c.tables.Tidy) {code : String}
    (hu : Unbodied c.tables code) {id : String} {mode : Mode}
    (hne : ∀ b s, blocks.get? id = some b → b.head? blocks = some s → s.code ≠ code) :
    Unbodied (c.compile .builtin blocks id mode).2.tables code := by
  refine hu.of_bodies ht (grows_compile c blocks id mode).codes fun i body hb => ?_
  rcases bodies_compile hkey ho c hb with hold | ⟨b, s, hb, hs, hcode⟩
  · exact Or.inl hold
  · right
    rw [hcode]
    simpa using hne b s hb hs

include hkey ho in
lemma known_compileAll {c : Compiler} (hk : c.Known blocks) (units : List (String × Mode)) :
    (c.compileAll .builtin blocks units).Known blocks := by
  induction units generalizing c with
  | nil => exact hk
  | cons u rest ih => exact ih (known_compile hkey ho hk u.1 u.2)

include hkey ho in
lemma unbodied_compileAll {c : Compiler} (ht : c.tables.Tidy) {code : String}
    (hu : Unbodied c.tables code) (hnone : blocks.headOf? code = none)
    (units : List (String × Mode)) :
    Unbodied (c.compileAll .builtin blocks units).tables code := by
  induction units generalizing c with
  | nil => exact hu
  | cons u rest ih =>
    refine ih ((grows_compile c blocks u.1 u.2).tidy ht)
      (unbodied_compile hkey ho ht hu fun b s hb hs he => ?_)
    have := isSome_headOf? ho hb hs
    rw [he, hnone] at this
    cases this

include hkey ho in
/-- Later scripts keep all bodies. -/
lemma Linked.compileAll {c : Compiler} (h : Linked blocks c.tables)
    (units : List (String × Mode)) :
    Linked blocks (c.compileAll .builtin blocks units).tables where
  tidy := (grows_compileAll c blocks units).tidy h.tidy
  bodied := fun code id s hs => (h.bodied code id s hs).grows (grows_compileAll c blocks units)
  unbodied := fun code hnone =>
    unbodied_compileAll hkey ho h.tidy (h.unbodied code hnone) hnone units

/-! ### Compiling all definitions -/

/-- The scripts of some entries, as units. -/
def scriptsOf (entries : List (String × Block)) : List (String × Mode) :=
  entries.map fun e => (e.1, .script)

lemma compileDefinitions_eq (blocks : BlockMap) (c : Compiler) :
    Engine.compileDefinitions .builtin blocks c = c.compileAll .builtin blocks
      (scriptsOf (Engine.rootsWhere (·.opcode == "procedures_definition") blocks)) := by
  simp only [Engine.compileDefinitions, compileAll, scriptsOf, List.foldl_map]

include hkey ho in
/-- The first head of a code gives the body. -/
lemma bodied_scriptsOf {c : Compiler} (hk : c.Known blocks) (ht : c.tables.Tidy)
    {entries : List (String × Block)} (hsub : ∀ e ∈ entries, e ∈ blocks.entries)
    {code id : String} {s : Signature} (hu : Unbodied c.tables code)
    (h : entries.findSome? (blocks.headAt? code) = some (id, s)) :
    Bodied blocks (c.compileAll .builtin blocks (scriptsOf entries)).tables code id := by
  induction entries generalizing c with
  | nil => cases h
  | cons e rest ih =>
    have hget := hkey.get? (hsub e (by simp))
    rw [List.findSome?_cons] at h
    cases hat : blocks.headAt? code e with
    | some x =>
      rw [hat] at h
      cases h
      obtain ⟨-, hd, rfl, rfl⟩ := BlockMap.headAt?_eq_some.1 hat
      obtain ⟨i, hi, hbody⟩ := body_compile hkey ho ht hget hd hu
      have hnow : Bodied blocks (c.compile .builtin blocks e.1 .script).2.tables s.code e.1 :=
        ⟨c, i, hk, hi, hbody, .refl _⟩
      exact hnow.grows (grows_compileAll _ blocks (scriptsOf rest))
    | none =>
      rw [hat] at h
      refine ih (known_compile hkey ho hk e.1 .script) ((grows_compile c blocks _ _).tidy ht)
        (fun e' he' => hsub e' (List.mem_cons_of_mem _ he')) ?_ h
      refine unbodied_compile hkey ho ht hu fun b s' hb hs' he => ?_
      cases hget.symm.trans hb
      have htop := ho.topLevel e (hsub e (by simp)) (by simp [hs'])
      have := BlockMap.headAt?_eq_some.2 ⟨htop, hs', he, rfl⟩
      rw [hat] at this
      cases this

/-- Only heads are left out when one looks at heads only. -/
lemma findSome?_rootsWhere (blocks : BlockMap) (code : String) :
    (Engine.rootsWhere (·.opcode == "procedures_definition") blocks).findSome?
      (blocks.headAt? code) = blocks.headOf? code := by
  unfold Engine.rootsWhere BlockMap.headOf?
  induction blocks.entries with
  | nil => rfl
  | cons e rest ih =>
    obtain ⟨id, b⟩ := e
    rw [List.filter_cons, List.findSome?_cons]
    simp only
    split
    · rw [List.findSome?_cons, ih]
    · next hno =>
      have hnone : blocks.headAt? code (id, b) = none := by
        rw [Option.eq_none_iff_forall_ne_some]
        rintro ⟨_, s⟩ hat
        obtain ⟨htop, hs, -, -⟩ := BlockMap.headAt?_eq_some.1 hat
        exact hno (by simp only at htop hs; simp [htop, opcode_of_head? hs])
      rw [hnone, ih]

include hkey ho in
/-- Once all definitions are compiled, every custom block is linked. -/
lemma linked_definitions :
    (Engine.compileDefinitions .builtin blocks .new).Known blocks ∧
      Linked blocks (Engine.compileDefinitions .builtin blocks .new).tables := by
  have hsub : ∀ e ∈ Engine.rootsWhere (·.opcode == "procedures_definition") blocks,
      e ∈ blocks.entries := fun e he => (List.mem_filter.1 he).1
  have hnew : Compiler.new.Known blocks := fun code s hs => by cases hs
  have hempty : ∀ code, Unbodied Compiler.new.tables code := fun code i body hi => by
    simp [Compiler.new] at hi
  rw [compileDefinitions_eq]
  refine ⟨known_compileAll hkey ho hnew _, tidy_compileAll blocks _, fun code id s hs => ?_,
    fun code hnone => unbodied_compileAll hkey ho Tables.tidy_empty (hempty code) hnone _⟩
  exact bodied_scriptsOf hkey ho hnew Tables.tidy_empty hsub (hempty code)
    ((findSome?_rootsWhere blocks code).trans hs)

end

end Compiler

end Blockwork
