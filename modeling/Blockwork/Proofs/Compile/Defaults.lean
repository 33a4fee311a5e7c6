import Blockwork.Proofs.Compile.Repeatable
import Blockwork.Proofs.Compile.Targets

/-!
The arguments that a call leaves out. The call takes their defaults from a signature that the compiler
knows by the code of the custom block, and runs the body that was given to this code first. Both come
from the same head if the map has one signature for each code; where two heads share a code, a call
runs the body of one with the defaults of the other.
-/

namespace Blockwork

/-- The line was emitted for a block and is this instruction. -/
structure Line.Is (l : Line) (id : String) (i : Instruction) : Prop where
  block : l.block = some id
  instruction : l.instruction = i

namespace Compiler

/-- The lines by which a call gathers its arguments. For each argument they are those of its input, or,
if the block has no such input, a constant of the block's own, which is what a signature declares; and
the value is added. -/
inductive Supplies (blocks : BlockMap) (id : String) (b : Block) (t : Tables) (s : Signature) :
    List (String × Nat) → List Line → Prop
  | nil : Supplies blocks id b t s [] []
  | input {arg : String × Nat} {args : List (String × Nat)} {l : Line} {ls : List Line} (fuel : Nat)
      (c : Compiler) (h : (b.input? arg.1).isSome) (hl : l.Is id ⟨.addArg, []⟩)
      (hrest : Supplies blocks id b t s args ls) :
      Supplies blocks id b t s (arg :: args) (inputLines (descend .builtin blocks fuel)
        (trace .builtin blocks fuel) blocks id b c arg.1 ++ l :: ls)
  | default {arg : String × Nat} {args : List (String × Nat)} {k l : Line} {ls : List Line} {x : UInt32}
      (h : b.input? arg.1 = none) (hk : k.Is id ⟨.const, [x]⟩)
      (hx : t.constants[x.toNat]? = some (s.defaultArgument arg.2)) (hl : l.Is id ⟨.addArg, []⟩)
      (hrest : Supplies blocks id b t s args ls) :
      Supplies blocks id b t s (arg :: args) (k :: l :: ls)

/-- After its first line, which was emitted for the same block, a call gathers arguments by some lines
and then calls the custom block in some place. -/
structure CallsBy (blocks : BlockMap) (id : String) (b : Block) (t : Tables) (m : Mutation)
    (gathered : List Line) (i : UInt32) (rest : List Line) : Prop where
  found : blocks.get? id = some b
  opcode : b.opcode = "procedures_call"
  mutation : b.mutation = some m
  layout : ∃ l : Line, l.Is id ⟨.callProcedure, [i]⟩ ∧ gathered ++ [l] <+: rest
  place : t.procedureCodes[i.toNat]? = some (Signature.ofMutation m).code

/-- Every call among some lines takes from the first signature of the map what its block leaves out. -/
def Calls (blocks : BlockMap) (t : Tables) (ls : List Line) : Prop :=
  ∀ before l rest, ls = before ++ l :: rest → l.opcode = .initProcedure →
    ∃ id b m gathered i, l.block = some id ∧ CallsBy blocks id b t m gathered i rest ∧
      Supplies blocks id b t ((findSignature? blocks (Signature.ofMutation m).code).getD (.ofMutation m))
        (Signature.ofMutation m).argumentIds.zipIdx gathered

section

variable {blocks : BlockMap} {t : Tables}

lemma CallsBy.append {id : String} {b : Block} {m : Mutation} {gathered : List Line} {i : UInt32}
    {rest : List Line} (h : CallsBy blocks id b t m gathered i rest) (more : List Line) :
    CallsBy blocks id b t m gathered i (rest ++ more) :=
  { h with layout := h.layout.imp fun _ hl => ⟨hl.1, hl.2.trans (List.prefix_append rest more)⟩ }

lemma calls_of_plain {ls : List Line} (h : ∀ l ∈ ls, l.opcode ≠ .initProcedure) :
    Calls blocks t ls := by
  rintro before l rest rfl hl
  exact absurd hl (h l (by simp))

lemma Calls.append {xs ys : List Line} (h : Calls blocks t xs) (k : Calls blocks t ys) :
    Calls blocks t (xs ++ ys) := by
  intro before l rest he hl
  rcases append_eq_split he with ⟨mid, hxs, rfl⟩ | ⟨mid, rfl, hys⟩
  · obtain ⟨id, b, m, gathered, i, hid, hcall, hg⟩ := h before l mid hxs hl
    exact ⟨id, b, m, gathered, i, hid, hcall.append ys, hg⟩
  · exact k mid l rest hys hl

/-- A call is one, and so are those in its arguments. -/
lemma Calls.cons {l : Line} {ls : List Line} (h : Calls blocks t ls) {id : String} {b : Block}
    {m : Mutation} {gathered : List Line} {i : UInt32} (hid : l.block = some id)
    (hcall : CallsBy blocks id b t m gathered i ls)
    (hg : Supplies blocks id b t
      ((findSignature? blocks (Signature.ofMutation m).code).getD (.ofMutation m))
      (Signature.ofMutation m).argumentIds.zipIdx gathered) :
    Calls blocks t (l :: ls) := by
  intro before l' rest he hl
  cases before with
  | nil =>
    cases he
    exact ⟨id, b, m, gathered, i, hid, hcall, hg⟩
  | cons x before =>
    rw [List.cons_append, List.cons.injEq] at he
    exact h before l' rest he.2 hl

/-- What was added for a block is lines of the block. -/
lemma mem_added {c c' : Compiler} {is : List Instruction} (h : c'.code = c.code ++ is)
    {id : Option String} {l : Line} (hl : l ∈ added id c c') : l.block = id ∧ l.instruction ∈ is := by
  rw [added_of_code h] at hl
  obtain ⟨i, hi, rfl⟩ := List.mem_map.1 hl
  exact ⟨rfl, hi⟩

lemma exists_added {c c' : Compiler} {i : Instruction} (h : c'.code = c.code ++ [i]) (id : String) :
    ∃ l : Line, added id c c' = [l] ∧ l.Is id i :=
  ⟨_, added_of_code h id, rfl, rfl⟩

/-- What is written has calls with defaults, at any later time. -/
structure Defaulting (blocks : BlockMap) (c : Compiler) (ls : List Line) (c' : Compiler) : Prop where
  grows : c.tables.Grows c'.tables
  known : c.Known blocks → c'.Known blocks
  calls : c.Known blocks → ∀ t, c'.tables.Grows t → t.Small → Calls blocks t ls

lemma Defaulting.append {c c' c'' : Compiler} {xs ys : List Line} (h : Defaulting blocks c xs c')
    (k : Defaulting blocks c' ys c'') : Defaulting blocks c (xs ++ ys) c'' where
  grows := h.grows.trans k.grows
  known := fun hc => k.known (h.known hc)
  calls := fun hc t hg hs =>
    (h.calls hc t (k.grows.trans hg) hs).append (k.calls (h.known hc) t hg hs)

lemma Plain.defaulting {c c' : Compiler} {is : List Instruction} (h : Plain blocks c is c')
    (id : Option String) : Defaulting blocks c (added id c c') c' where
  grows := h.emits.grows
  known := h.keeps.known
  calls := fun _ _ _ _ =>
    calls_of_plain fun l hl => h.plain l.instruction (mem_added h.emits.code hl).2

lemma Plain.defaulting_nil {c c' : Compiler} (h : Plain blocks c [] c') : Defaulting blocks c [] c' := by
  have := h.defaulting none
  rwa [added_of_code h.emits.code] at this

/-! ### Calls -/

section

variable {fuel : Nat} {id : String} {b : Block}
  (hin : ∀ c name, Defaulting blocks c
    (inputLines (descend .builtin blocks fuel) (trace .builtin blocks fuel) blocks id b c name)
    (c.input (descend .builtin blocks fuel) blocks b name))
  (defaults : Signature)

include hin in
/-- One argument is gathered before the others. -/
lemma defaulting_argument (c : Compiler) (arg : String × Nat) :
    let lines := argumentLines (descend .builtin blocks fuel) (trace .builtin blocks fuel) blocks id b
      defaults c arg
    let after := argument (descend .builtin blocks fuel) blocks b defaults c arg
    Defaulting blocks c lines after ∧
      ∀ t args ls, after.tables.Grows t → t.Small → Supplies blocks id b t defaults args ls →
        Supplies blocks id b t defaults (arg :: args) (lines ++ ls) := by
  intro lines after
  cases hi : b.input? arg.1 with
  | some i =>
    simp only [lines, after, argumentLines, argument, hi, Option.isSome_some, if_true]
    have hadd : Plain blocks (c.input (descend .builtin blocks fuel) blocks b arg.1) [⟨.addArg, []⟩]
        ((c.input (descend .builtin blocks fuel) blocks b arg.1).emit .addArg) :=
      plain_emit _ (by simp) (by simp)
    obtain ⟨l, hlines, hl⟩ := exists_added hadd.emits.code id
    refine ⟨(hin c arg.1).append (hadd.defaulting id), fun t args ls _ _ hls => ?_⟩
    rw [hlines, List.append_assoc, List.singleton_append]
    exact .input fuel c (Option.isSome_iff_exists.2 ⟨i, hi⟩) hl hls
  | none =>
    obtain ⟨k, he, hk⟩ := emits_const c (defaults.defaultArgument arg.2)
    have hconst : Plain blocks c ([⟨.const, [UInt32.ofNat k]⟩] ++ [⟨.addArg, []⟩])
        ((c.const (defaults.defaultArgument arg.2)).emit .addArg) :=
      Plain.trans ⟨⟨he, keeps_const c _, by simp⟩, by simp⟩ (plain_emit _ (by simp) (by simp))
    simp only [lines, after, argumentLines, argument, hi, Option.isSome_none, Bool.false_eq_true,
      if_false]
    refine ⟨hconst.defaulting id, fun t args ls hg hs hls => ?_⟩
    rw [added_of_code hconst.emits.code]
    exact .default hi ⟨rfl, rfl⟩ (get?_toNat_ofNat hs.constants (get?_mono hg.constants hk)) ⟨rfl, rfl⟩
      hls

include hin in
lemma defaulting_arguments (c : Compiler) (args : List (String × Nat)) :
    let lines := argumentsLines (descend .builtin blocks fuel) (trace .builtin blocks fuel) blocks id b
      defaults c args
    let after := args.foldl (argument (descend .builtin blocks fuel) blocks b defaults) c
    Defaulting blocks c lines after ∧
      ∀ t, after.tables.Grows t → t.Small → Supplies blocks id b t defaults args lines := by
  induction args generalizing c with
  | nil => exact ⟨(plain_refl c).defaulting_nil, fun _ _ _ => .nil⟩
  | cons arg rest ih =>
    obtain ⟨hone, hsupplies⟩ := defaulting_argument hin defaults c arg
    obtain ⟨hrest, hothers⟩ := ih (argument (descend .builtin blocks fuel) blocks b defaults c arg)
    exact ⟨hone.append hrest, fun t hg hs => hsupplies t rest _ (hrest.grows.trans hg) hs (hothers t hg hs)⟩

include hin in
lemma defaulting_call (hb : blocks.get? id = some b) (hop : b.opcode = "procedures_call")
    (c : Compiler) : Defaulting blocks c
      (callLines (descend .builtin blocks fuel) (trace .builtin blocks fuel) blocks id b c)
      (c.call (descend .builtin blocks fuel) blocks b) := by
  unfold callLines Compiler.call
  cases hm : b.mutation with
  | none => exact (plain_refl c).defaulting_nil
  | some m =>
    simp only
    have hknown : Defaulting blocks c [] ((c.definition blocks (Signature.ofMutation m).code).2.internProcedure
        (Signature.ofMutation m).code).2 :=
      (plain_definition c _).defaulting_nil.append (plain_internProcedure _ _).defaulting_nil
    have hplace := get_internProcedure (c.definition blocks (Signature.ofMutation m).code).2
      (Signature.ofMutation m).code
    have hfound := fun hc => @definition_eq blocks c hc (Signature.ofMutation m).code
    generalize (c.definition blocks (Signature.ofMutation m).code).1 = found at hfound ⊢
    generalize (c.definition blocks (Signature.ofMutation m).code).2.internProcedure
      (Signature.ofMutation m).code = interned at hknown hplace ⊢
    obtain ⟨i, e⟩ := interned
    simp only at hknown hplace ⊢
    obtain ⟨hargs, hsupplies⟩ := defaulting_arguments hin (found.getD (.ofMutation m))
      (e.emit .initProcedure) (Signature.ofMutation m).argumentIds.zipIdx
    have hcall : Plain blocks
        ((Signature.ofMutation m).argumentIds.zipIdx.foldl
          (argument (descend .builtin blocks fuel) blocks b (found.getD (.ofMutation m)))
          (e.emit .initProcedure)) _ _ :=
      plain_emitAt _ (by simp : Opcode.callProcedure ≠ .warp) (by simp) i
    have hafter := hargs.append (hcall.defaulting id)
    obtain ⟨last, hlast, hl⟩ := exists_added hcall.emits.code id
    obtain ⟨first, hfirst, hf⟩ := exists_added (emits_emit e .initProcedure).code id
    refine ⟨hknown.grows.trans hafter.grows, fun hc => hafter.known (hknown.known hc), fun hc t hg hs => ?_⟩
    rw [List.append_assoc, hfirst, List.singleton_append]
    refine (hafter.calls (hknown.known hc) t hg hs).cons (i := UInt32.ofNat i) hf.block
      { found := hb
        opcode := hop
        mutation := hm
        layout := ⟨last, hl, [], by rw [hlast, List.append_nil]⟩
        place := get?_toNat_ofNat hs.codes (get?_mono (hafter.grows.trans hg).codes hplace) } ?_
    rw [← hfound hc]
    exact hsupplies t (hcall.emits.grows.trans hg) hs

end

lemma builds_defaulting (hone : OneSignature blocks) : Builds blocks (Defaulting blocks) where
  append := Defaulting.append
  piece id h := h.defaulting id
  call hb hop hin c := defaulting_call hin hb hop c
  head := by
    intro a b hb hop id c
    cases hs : b.head? blocks with
    | none =>
      rw [head_of_no_head hop hs]
      exact (plain_refl c).defaulting id
    | some s =>
      have hin := emits_internProcedure c s.code
      have hcode : (c.define s).code = c.code ++ [] := hin.code
      have hknown := fun hc => @known_define blocks c s (hone a b s hb hs) hc
      rw [head_of_head? hop hs]
      split
      · have hwarp : ((c.define s).emit .warp).code = c.code ++ [⟨.warp, []⟩] := by
          rw [emit, hcode, List.append_nil]
        refine ⟨hin.grows, hknown, fun _ _ _ _ => calls_of_plain fun l hl => ?_⟩
        have hi := (mem_added hwarp hl).2
        simp [Line.opcode, List.mem_singleton.1 hi]
      · exact ⟨hin.grows, hknown, fun _ _ _ _ => calls_of_plain fun l hl =>
          absurd (mem_added hcode hl).2 (by simp)⟩

/-! ### Bodies -/

/-- The signature in force comes from a head. -/
lemma composes_heads (blocks : BlockMap) : Composes blocks fun c _ c' =>
    ∀ s, c'.signature = some s → c.signature = some s ∨
      ∃ id b, blocks.get? id = some b ∧ b.head? blocks = some s where
  append := by
    intro c c' c'' _ _ h k s hs
    rcases k s hs with hs | hhead
    · exact h s hs
    · exact .inr hhead
  piece _ h s hs := .inl (h.emits.signature ▸ hs)
  head := by
    intro a b hb hop _ c s hs
    cases hh : b.head? blocks with
    | none =>
      rw [head_of_no_head hop hh] at hs
      exact .inl hs
    | some s' =>
      have hsig : (c.head blocks b).signature = some s' := by
        rw [head_of_head? hop hh]
        split <;> rfl
      rw [hsig] at hs
      cases hs
      exact .inr ⟨a, b, hb, hh⟩

lemma head_of_prototype? {c : Compiler} {id : String} {mode : Mode} {s : Signature}
    (h : c.prototype? .builtin blocks id mode = some s) :
    ∃ a b, blocks.get? a = some b ∧ b.head? blocks = some s := by
  rcases (composes_heads blocks).builds.root id mode (c.fresh.emit .start) s h with hnone | hhead
  · cases hnone
  · exact hhead

end

/-- A head declares a signature, and some code is the script that became the body of its custom
block. -/
structure IsBodyOf (blocks : BlockMap) (body : Code) (s : Signature) : Prop where
  head : ∃ a b, blocks.get? a = some b ∧ b.head? blocks = some s
  unit : ∃ c id mode, Meets blocks .new (targetUnits blocks) c id mode ∧
    body = (c.compile .builtin blocks id mode).1 ∧ c.prototype? .builtin blocks id mode = some s

end Compiler

open Compiler

/-- **Defaults**: if the heads of a map have prototypes, and prototypes of the same code declare the
same, then every call that is written for a target takes what its block leaves out from the signature of
the head whose script it runs. What is written are the units of the target, and every routine is one of
them. -/
theorem Engine.call_defaults {blocks : BlockMap} (h : blocks.Consistent) {target : TargetId}
    {s : Script} (hs : s ∈ (Engine.compileTarget .builtin target blocks).1)
    (hsmall : s.program.tables.Small) :
    (∀ r code, s.program.code? r = some code → ∃ c root mode,
      Meets blocks .new (targetUnits blocks) c root mode ∧
        code = (c.compile .builtin blocks root mode).1 ∧
        code.instructions = (c.listing .builtin blocks root mode).map (·.instruction)) ∧
    ∀ c root mode, Meets blocks .new (targetUnits blocks) c root mode → ∀ before l rest,
      c.listing .builtin blocks root mode = before ++ l :: rest → l.opcode = .initProcedure →
      ∃ id b m gathered i, l.block = some id ∧
        CallsBy blocks id b s.program.tables m gathered i rest ∧
        ∀ body, s.program.tables.procedures[i.toNat]? = some (some body) →
          ∃ sig, IsBodyOf blocks body sig ∧ sig.code = (Signature.ofMutation m).code ∧
            Supplies blocks id b s.program.tables sig (Signature.ofMutation m).argumentIds.zipIdx
              gathered := by
  have hone := oneSignature_of_consistent h
  refine ⟨fun r code hr => ?_, fun c root mode hmeets before l rest hlist hl => ?_⟩
  · obtain ⟨c, root, mode, hmeets, rfl, -⟩ := Engine.meets_of_mem hs hr
    exact ⟨c, root, mode, hmeets, rfl, instructions_compile c blocks root mode⟩
  have hgrows : (c.finished blocks root mode).tables.Grows s.program.tables := by
    rw [Engine.tables_of_mem hs]
    exact (grows_end c blocks root mode).trans hmeets.grows
  have hknown : c.Known blocks := by
    obtain ⟨units, -, -, rfl⟩ := hmeets
    exact known_of_oneSignature hone (fun code s hs => by cases hs) units
  obtain ⟨id, b, m, gathered, i, hid, hcall, hsupplies⟩ :=
    ((builds_defaulting hone).listing c root mode).calls hknown _ hgrows hsmall before l rest hlist hl
  refine ⟨id, b, m, gathered, i, hid, hcall, fun body hbody => ?_⟩
  obtain ⟨c', id', mode', hmeets', hcode', hsig⟩ := Engine.meets_of_mem hs
    (show s.program.code? (.procedure i.toNat) = some body by simp [Program.code?, hbody])
  obtain ⟨sig, hproto, hplace⟩ := hsig i.toNat rfl
  have hname : sig.code = (Signature.ofMutation m).code :=
    Option.some.inj (hplace.symm.trans hcall.place)
  obtain ⟨a, head, ha, hhead⟩ := head_of_prototype? hproto
  refine ⟨sig, ⟨⟨a, head, ha, hhead⟩, c', id', mode', hmeets', hcode', hproto⟩, hname, ?_⟩
  rw [← hname, hone a head sig ha hhead] at hsupplies
  exact hsupplies

/-- The call in the script takes the default that the head declares. -/
theorem Engine.call_defaults_greeting :
    let scripts := (Engine.compileTarget .builtin ⟨0, 0⟩ greeting).1
    ∃ s ∈ scripts, ∃ (c : Compiler) (before : List Line) (l : Line) (rest : List Line),
      Meets greeting .new (targetUnits greeting) c "flag" .script ∧
      s.program.main = (c.compile .builtin greeting "flag" .script).1 ∧
      c.listing .builtin greeting "flag" .script = before ++ l :: rest ∧
      ∃ id b m gathered i, l.block = some id ∧
        CallsBy greeting id b s.program.tables m gathered i rest ∧
        ∀ body, s.program.tables.procedures[i.toNat]? = some (some body) →
          ∃ sig, IsBodyOf greeting body sig ∧ sig.code = (Signature.ofMutation m).code ∧
            Supplies greeting id b s.program.tables sig (Signature.ofMutation m).argumentIds.zipIdx
              gathered := by
  intro scripts
  have hscripts : scripts ≠ [] ∧ ∀ s ∈ scripts, s.program.tables.Small ∧ s.program.main =
      ((Compiler.new.compileAll .builtin greeting [("head", .script)]).compile .builtin greeting "flag"
        .script).1 := by
    decide +kernel
  obtain ⟨s, hs⟩ := List.exists_mem_of_ne_nil scripts hscripts.1
  obtain ⟨hsmall, hmain⟩ := hscripts.2 s hs
  obtain ⟨before, l, rest, hlist, hl⟩ : ∃ before l rest,
      (Compiler.new.compileAll .builtin greeting [("head", .script)]).listing .builtin greeting "flag"
        .script = before ++ l :: rest ∧ l.opcode = .initProcedure :=
    ⟨[_], _, _, rfl, by decide +kernel⟩
  have hmeets : Meets greeting .new (targetUnits greeting)
      (Compiler.new.compileAll .builtin greeting [("head", .script)]) "flag" .script :=
    ⟨[("head", .script)], [], by decide +kernel, rfl⟩
  exact ⟨s, hs, _, before, l, rest, hmeets, hmain, hlist,
    (Engine.call_defaults consistent_greeting hs hsmall).2 _ _ _ hmeets before l rest hlist hl⟩

/-- Two heads of one code with different defaults, and a script that leaves the argument out. -/
def twoPuts : BlockMap := .ofList [
  ("flag", { id := "flag", opcode := "event_whenflagclicked", topLevel := true
             next := some "call" }),
  ("call", { id := "call", opcode := "procedures_call"
             mutation := some { code := some "put %s", argumentIds := some "[\"a\"]" } }),
  ("first", { id := "first", opcode := "procedures_definition", topLevel := true
              next := some "set"
              inputs := .ofList [("custom_block", { value := some (.block "one") })] }),
  ("one", { id := "one", opcode := "procedures_prototype"
            mutation := some { code := some "put %s", argumentIds := some "[\"a\"]"
                               argumentNames := some "[\"x\"]"
                               argumentDefaults := some "[\"first\"]" } }),
  ("set", { id := "set", opcode := "data_setvariableto"
            fields := .ofList [("VARIABLE", { value := .text "v", id := some "v" })]
            inputs := .ofList [("VALUE", { value := some (.block "x") })] }),
  ("x", { id := "x", opcode := "argument_reporter_string_number"
          fields := .ofList [("VALUE", { value := .text "x" })] }),
  ("second", { id := "second", opcode := "procedures_definition", topLevel := true
               inputs := .ofList [("custom_block", { value := some (.block "two") })] }),
  ("two", { id := "two", opcode := "procedures_prototype"
            mutation := some { code := some "put %s", argumentIds := some "[\"a\"]"
                               argumentNames := some "[\"x\"]"
                               argumentDefaults := some "[\"second\"]" } })]

/-- The script runs the body of the first head with the default of the second. -/
theorem Engine.call_defaults_twoPuts :
    let scripts := (Engine.compileTarget .builtin ⟨0, 0⟩ twoPuts).1
    ∃ s ∈ scripts, s.program.main.instructions = [⟨.start, []⟩, ⟨.initProcedure, []⟩,
        ⟨.const, [0]⟩, ⟨.addArg, []⟩, ⟨.callProcedure, [0]⟩, ⟨.halt, []⟩] ∧
      s.program.tables.constants[0]? = some (.text "second") ∧
      s.program.tables.procedures[0]? =
        some (some (Compiler.new.compile .builtin twoPuts "first" .script).1) ∧
      (Compiler.new.prototype? .builtin twoPuts "first" .script).map (·.defaultArgument 0) =
        some (.text "first") := by
  decide +kernel

end Blockwork
