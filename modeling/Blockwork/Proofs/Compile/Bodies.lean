import Blockwork.Proofs.Compile.Operands
import Blockwork.Proofs.Compile.Pace
import Blockwork.Proofs.Machine.Unpaused
import Mathlib.Data.List.Pairwise

/-!
What is in the body of a custom block. A unit follows references from its root, so whatever it emits
comes from blocks that its root leads to, and so does the signature that is in force at its end. Hence
if no such block waits then no body waits, and a head that no block refers to starts its own body.
-/

namespace Blockwork

namespace BlockMap

/-- A block that a root leads to, if it exists at all. -/
def Under (blocks : BlockMap) (root id : String) : Prop :=
  (blocks.get? id).isSome → Relation.ReflTransGen blocks.Leads root id

/-- A block of a script that leads to the head of a custom block: the whole script is a body. -/
def InBody (blocks : BlockMap) (id : String) : Prop :=
  ∃ u ∈ Compiler.targetUnits blocks, Relation.ReflTransGen blocks.Leads u.1 id ∧
    ∃ a b, Relation.ReflTransGen blocks.Leads u.1 a ∧ blocks.get? a = some b ∧
      (b.head? blocks).isSome

/-- Nothing in the body of a custom block waits. -/
def WaitFree (blocks : BlockMap) : Prop := ∀ n, blocks.CallsIn blocks.InBody n → n.waits = false

/-- A custom block has one head. -/
def SingleHeads (blocks : BlockMap) : Prop :=
  (blocks.entries.filterMap fun e => (e.2.head? blocks).map (·.code)).Nodup

instance (blocks : BlockMap) : Decidable blocks.SingleHeads := inferInstanceAs (Decidable (List.Nodup _))

variable {blocks : BlockMap}

lemma closed_under (hkey : blocks.Keyed) (root : String) : blocks.Closed (blocks.Under root) where
  value ha hb hs := fun _ => (ha (by rw [hb]; rfl)).tail (leads_of_source hb hs)
  body ha hb hid := by
    obtain ⟨hp, hx⟩ := Compiler.bodyId?_eq_some hkey hid
    exact fun _ => (ha (by rw [hb]; rfl)).tail (leads_of_plugged hb hp hx)
  next ha hb hn := fun hs => (ha (by rw [hb]; rfl)).tail (leads_of_next hb hn hs)

lemma SingleHeads.eq_of_code (h : blocks.SingleHeads) {a a' : String} {b b' : Block} {s s' : Signature}
    (hb : blocks.get? a = some b) (hb' : blocks.get? a' = some b') (hs : b.head? blocks = some s)
    (hs' : b'.head? blocks = some s') (hcode : s.code = s'.code) : a = a' := by
  by_contra hne
  have : Std.Symm fun e e' : String × Block => ∀ c, (e.2.head? blocks).map (·.code) = some c →
      ∀ c', (e'.2.head? blocks).map (·.code) = some c' → c ≠ c' :=
    ⟨fun _ _ h x hx y hy => (h y hy x hx).symm⟩
  have hapart := (List.pairwise_filterMap.1 h).forall (Dictionary.mem_of_get? hb)
    (Dictionary.mem_of_get? hb') fun he => hne (congrArg Prod.fst he)
  exact hapart s.code (by simp [hs]) s'.code (by simp [hs']) hcode

/-- Where no block waits, none does so in a body. -/
lemma waitFree_of_forall (h : ∀ e ∈ blocks.entries, ∀ r ∈ (Palette.builtin.recipe? e.2.opcode).toList ++
      (Palette.builtin.predicate? e.2.opcode).toList, ∀ ss ∈ r.plan? .builtin e.2, ∀ s ∈ ss,
      ∀ n ∈ s.native?, n.waits = false) : blocks.WaitFree := by
  rintro n ⟨id, b, ss, -, hb, ⟨r, hr, hplan⟩, hn⟩
  exact h (id, b) (Dictionary.mem_of_get? hb) r (by simpa using hr) ss hplan (.call n) hn n rfl

end BlockMap

/-- A checkpoint is there for a native that waits. -/
lemma Block.HasPlan.waits {b : Block} {ss : List Recipe.Step} (h : b.HasPlan ss)
    (hmark : .emit .checkpoint ∈ ss) : ∃ n, .call n ∈ ss ∧ n.waits = true := by
  have key : ∀ r ∈ Palette.builtin.recipes, ∀ ss ∈ r.plans, .emit .checkpoint ∈ ss →
      (ss.any fun s => s.native?.any Native.waits) = true := by
    decide +kernel
  obtain ⟨r, hr, hss, -⟩ := h.mem
  obtain ⟨s, hs, hn⟩ := List.any_eq_true.1 (key r hr ss hss hmark)
  obtain ⟨n, hn, hw⟩ := (Option.any_eq_true ..).1 hn
  exact ⟨n, Recipe.Step.eq_call_of_native? hn ▸ hs, hw⟩

namespace Compiler

/-- All that was emitted comes from blocks of a set. -/
structure Sourced (blocks : BlockMap) (P : String → Prop) (c : Compiler) : Prop where
  signature : ∀ s, c.signature = some s →
    ∃ a b, P a ∧ blocks.get? a = some b ∧ b.head? blocks = some s
  marks : ∀ i ∈ c.code, i.opcode = .checkpoint →
    ∃ a b ss, P a ∧ blocks.get? a = some b ∧ b.HasPlan ss ∧ .emit .checkpoint ∈ ss
  natives : ∀ i ∈ c.code, i.opcode = .exec →
    ∃ k n, i.operands = [UInt32.ofNat k] ∧ c.tables.natives[k]? = some n ∧ blocks.CallsIn P n

section

variable {blocks : BlockMap} {P : String → Prop} {c c' : Compiler}

lemma Sourced.emits (h : Sourced blocks P c) {is : List Instruction} (he : c.Emits is c')
    (hmarks : ∀ i ∈ is, i.opcode = .checkpoint →
      ∃ a b ss, P a ∧ blocks.get? a = some b ∧ b.HasPlan ss ∧ .emit .checkpoint ∈ ss)
    (hnatives : ∀ i ∈ is, i.opcode = .exec →
      ∃ k n, i.operands = [UInt32.ofNat k] ∧ c'.tables.natives[k]? = some n ∧ blocks.CallsIn P n) :
    Sourced blocks P c' where
  signature s hs := h.signature s (he.signature ▸ hs)
  marks i hi hop := by
    rw [he.code] at hi
    rcases List.mem_append.1 hi with hi | hi
    · exact h.marks i hi hop
    · exact hmarks i hi hop
  natives i hi hop := by
    rw [he.code] at hi
    rcases List.mem_append.1 hi with hi | hi
    · obtain ⟨k, n, hk, hn, hcall⟩ := h.natives i hi hop
      exact ⟨k, n, hk, get?_mono he.grows.natives hn, hcall⟩
    · exact hnatives i hi hop

/-- What is neither a checkpoint nor a native needs no source. -/
lemma Sourced.plain (h : Sourced blocks P c) {is : List Instruction} (he : c.Emits is c')
    (his : ∀ i ∈ is, i.opcode ≠ .checkpoint ∧ i.opcode ≠ .exec) : Sourced blocks P c' :=
  h.emits he (fun i hi hop => absurd hop (his i hi).1) fun i hi hop => absurd hop (his i hi).2

lemma Sourced.emit (h : Sourced blocks P c) {op : Opcode} (hop : blocks.MayEmit P op) :
    Sourced blocks P (c.emit op) := by
  refine h.emits (emits_emit c op) ?_ ?_ <;> simp only [List.mem_singleton, forall_eq]
  · rintro rfl
    exact hop.mark rfl
  · rintro rfl
    exact absurd hop.alone (by decide)

lemma Sourced.callNative (h : Sourced blocks P c) {n : Native} (hn : blocks.CallsIn P n) :
    Sourced blocks P (c.callNative n) := by
  obtain ⟨k, he, hk⟩ := emits_callNative c n
  refine h.emits he ?_ ?_ <;> simp only [List.mem_singleton, forall_eq]
  · rintro ⟨⟩
  · exact fun _ => ⟨k, n, rfl, hk, hn⟩

lemma Sourced.define (h : Sourced blocks P c) {a : String} {b : Block} {s : Signature} (ha : P a)
    (hb : blocks.get? a = some b) (hs : b.head? blocks = some s) : Sourced blocks P (c.define s) := by
  have hin := h.plain (emits_internProcedure c s.code) (by simp)
  refine ⟨fun s' hs' => ?_, hin.marks, hin.natives⟩
  cases hs'
  exact ⟨a, b, ha, hb, hs⟩

lemma Sourced.head (h : Sourced blocks P c) {a : String} {b : Block} (ha : P a)
    (hb : blocks.get? a = some b) (hop : b.opcode = "procedures_definition") :
    Sourced blocks P (c.head blocks b) := by
  cases hs : b.head? blocks with
  | none => rwa [head_of_no_head hop hs]
  | some s =>
    have hdefine := h.define ha hb hs
    rw [head_of_head? hop hs]
    split
    · exact hdefine.plain (emits_emit _ .warp) (by simp)
    · exact hdefine

lemma couples_sourced (blocks : BlockMap) (P : String → Prop) :
    Couples blocks blocks P fun c c' => c' = c ∧ Sourced blocks P c where
  emit := by
    rintro _ c op ⟨rfl, h⟩ hop
    exact ⟨rfl, h.emit hop⟩
  const := by
    rintro _ c v ⟨rfl, h⟩
    exact ⟨rfl, h.plain (emits_const c v).choose_spec.1 (by simp)⟩
  callNative := by
    rintro _ c n ⟨rfl, h⟩ hn
    exact ⟨rfl, h.callNative hn⟩
  internVariable := by
    rintro _ c r ⟨rfl, h⟩
    exact ⟨rfl, h.plain (emits_internVariable c r) (by simp)⟩
  internList := by
    rintro _ c r ⟨rfl, h⟩
    exact ⟨rfl, h.plain (emits_internList c r) (by simp)⟩
  variableOp := by
    rintro _ c op r ⟨rfl, h⟩
    obtain ⟨i, -, he, -⟩ := emits_variableOp c op r
    exact ⟨rfl, h.plain he (by simp)⟩
  listOp := by
    rintro _ c op r ⟨rfl, h⟩
    obtain ⟨i, -, he, -⟩ := emits_listOp c op r
    exact ⟨rfl, h.plain he (by simp)⟩
  unsupported := by
    rintro _ c id ⟨rfl, h⟩
    exact ⟨rfl, h.plain (emits_markUnsupported c .builtin blocks id) (by simp)⟩
  pause := by
    rintro _ c ⟨rfl, h⟩
    refine ⟨rfl, ?_⟩
    split
    · exact h
    · exact h.plain (emits_emit c .breakFrame) (by simp)
  head := by
    rintro _ c a b b' ⟨rfl, h⟩ ha hb hb' hop
    cases hb.symm.trans hb'
    exact ⟨rfl, h.head ha hb hop⟩
  definition := by
    rintro _ c code ⟨rfl, h⟩
    exact ⟨rfl, h.plain (@plain_definition blocks c code).emits (by simp)⟩
  defaults := by
    rintro _ c code s i ⟨rfl, -⟩
    rfl
  internProcedure := by
    rintro _ c code ⟨rfl, h⟩
    exact ⟨rfl, h.plain (emits_internProcedure c code) (by simp)⟩
  callCode := by
    rintro _ c code ⟨rfl, h⟩
    exact ⟨rfl, h.plain ((emits_internProcedure c code).trans (emits_emitAt _ .callProcedure _)) (by simp)⟩
  argumentIndex := by
    rintro _ c name ⟨rfl, -⟩
    rfl
  readArg := by
    rintro _ c i ⟨rfl, h⟩
    exact ⟨rfl, h.plain (emits_emitAt c .readArg i) (by simp)⟩

/-- A unit is made of blocks that its root leads to. -/
lemma sourced_finished (hkey : blocks.Keyed) (c : Compiler) (id : String) (mode : Mode) :
    Sourced blocks (blocks.Under id) (c.finished blocks id mode) := by
  have hstart : Sourced blocks (blocks.Under id) (c.fresh.emit .start) := by
    refine ⟨fun s hs => (by cases hs), ?_, ?_⟩ <;> simp [Compiler.emit, fresh]
  have hroot := (couples_sourced blocks (blocks.Under id)).root (.refl blocks)
    (BlockMap.closed_under hkey id) (fun _ => .refl) mode ⟨rfl, hstart⟩
  exact hroot.2.plain (emits_emit _ .halt) (by simp)

end

end Compiler

/-! ### Units of bodies -/

namespace Engine

open Compiler

variable {blocks : BlockMap} {target : TargetId} {s : Script}

/-- Every routine can be read back, and its brackets match. -/
lemma holds_of_mem (hs : s ∈ (compileTarget .builtin target blocks).1) {r : Routine} {code : Code}
    (hr : s.program.code? r = some code) :
    s.program.Holds r code.instructions ∧ Code.Nested (code.instructions.map (·.opcode)) := by
  obtain ⟨c, id, mode, -, rfl, -⟩ := meets_of_mem hs hr
  have hread := instructions_compile c blocks id mode
  refine ⟨⟨?_, ?_⟩, ?_⟩
  · rw [hread, ← compile_eq_listing]
    exact hr
  · rw [hread]
    exact allFull_listing c blocks id mode
  · rw [hread, List.map_map]
    exact (writes_listing c blocks id mode).neat.nested

/-- A body is a unit of its target, in which its custom block is in force at the end. -/
lemma unit_of_body (hs : s ∈ (compileTarget .builtin target blocks).1) {i : Nat} {code : Code}
    (hcode : s.program.code? (.procedure i) = some code) :
    ∃ (c : Compiler) (id : String) (mode : Mode) (sig : Signature), (id, mode) ∈ targetUnits blocks ∧
      code.instructions = (c.finished blocks id mode).code ∧
      (c.finished blocks id mode).tables.Grows s.program.tables ∧
      (c.finished blocks id mode).signature = some sig ∧
      s.program.tables.procedureCodes[i]? = some sig.code := by
  obtain ⟨c, id, mode, hmeets, rfl, hbody⟩ := meets_of_mem hs hcode
  obtain ⟨sig, hsig, hplace⟩ := hbody i rfl
  have hgrows := (grows_end c blocks id mode).trans hmeets.grows
  rw [← tables_of_mem hs] at hgrows
  obtain ⟨before, after, hunits, -⟩ := hmeets
  exact ⟨c, id, mode, sig, by simp [hunits], instructions_eq_finished c blocks id mode, hgrows, hsig,
    hplace⟩

/-- All of a unit is in the body. -/
lemma inBody_of_under (hkey : blocks.Keyed) {c : Compiler} {id : String} {mode : Mode}
    {sig : Signature} (hunit : (id, mode) ∈ targetUnits blocks)
    (hsig : (c.finished blocks id mode).signature = some sig) {x : String} {b : Block}
    (hx : blocks.Under id x) (hb : blocks.get? x = some b) : blocks.InBody x := by
  obtain ⟨a, h, ha, hh, hhead⟩ := (sourced_finished hkey c id mode).signature sig hsig
  exact ⟨(id, mode), hunit, hx (by rw [hb]; rfl), a, h, ha (by rw [hh]; rfl), hh, by rw [hhead]; rfl⟩

/-- Where nothing in a body waits, the custom blocks of all scripts wait for nothing. -/
lemma calm_of_mem (hkey : blocks.Keyed) (hfree : blocks.WaitFree)
    (hs : s ∈ (compileTarget .builtin target blocks).1) : s.program.Calm where
  holds _ _ hcode := (holds_of_mem hs hcode).1
  nested _ _ hcode := (holds_of_mem hs hcode).2
  marks i code hcode x hx hop := by
    obtain ⟨c, id, mode, sig, hunit, hread, -, hsig, -⟩ := unit_of_body hs hcode
    obtain ⟨a, b, ss, ha, hb, hplan, hmark⟩ := (sourced_finished hkey c id mode).marks x (hread ▸ hx) hop
    obtain ⟨n, hn, hwaits⟩ := hplan.waits hmark
    have hfalse := hfree n ⟨a, b, ss, inBody_of_under hkey hunit hsig ha hb, hb, hplan, hn⟩
    exact absurd (hwaits.symm.trans hfalse) (by simp)
  natives i code hcode x hx hop n hn := by
    obtain ⟨c, id, mode, sig, hunit, hread, hgrows, hsig, -⟩ := unit_of_body hs hcode
    obtain ⟨k, n', hk, hn', a, b, ss, ha, hb, hplan, hcall⟩ :=
      (sourced_finished hkey c id mode).natives x (hread ▸ hx) hop
    have htidy : s.program.tables.Tidy := by
      rw [tables_of_mem hs]
      exact tidy_compileAll blocks _
    have hplace := get?_toNat_ofNat htidy.natives_le (get?_mono hgrows.natives hn')
    obtain rfl : n' = n := by
      rw [Instruction.operand, hk] at hn
      exact Option.some.inj (hplace.symm.trans hn)
    exact hfree n' ⟨a, b, ss, inBody_of_under hkey hunit hsig ha hb, hb, hplan, hcall⟩

end Engine

/-! ### Heads that start their own bodies -/

namespace Compiler

variable {blocks : BlockMap}

/-- A head in warp leads into warp right at the start of its unit. -/
lemma code_of_head {id : String} {b : Block} {s : Signature} (hb : blocks.get? id = some b)
    (hs : b.head? blocks = some s) (hwarp : s.warp = true) {c : Compiler} {mode : Mode}
    (hsig : ((c.finished blocks id mode).signature).isSome) :
    ∃ rest, (c.finished blocks id mode).code = ⟨.start, []⟩ :: ⟨.warp, []⟩ :: rest := by
  have hhead : ((c.fresh.emit .start).head blocks b).code = [⟨.start, []⟩, ⟨.warp, []⟩] := by
    have hcode : ((c.fresh.emit .start).define s).code = (c.fresh.emit .start).code :=
      (emits_internProcedure (c.fresh.emit .start) s.code).code.trans (List.append_nil _)
    rw [head_of_head? (opcode_of_head? hs) hs, if_pos hwarp, Compiler.emit, hcode]
    rfl
  have hop := opcode_of_head? hs
  cases mode with
  | script =>
    have hbelow := ((sound_descend blocks (2 * blocks.size)).stack b.next
      ((c.fresh.emit .start).head blocks b)).puts.code
    rw [hhead] at hbelow
    refine ⟨codeOf ((trace .builtin blocks (2 * blocks.size)).stack b.next
      ((c.fresh.emit .start).head blocks b)) ++ [⟨.halt, []⟩], ?_⟩
    rw [finished, root_head hb hs, Compiler.emit, hbelow]
    rfl
  | reporter =>
    have hrec : Palette.builtin.recipe? b.opcode = some .definition := by
      rw [hop]
      exact Palette.kind_definition.2.1
    have hroot : (c.fresh.emit .start).root .builtin blocks id .reporter =
        (c.fresh.emit .start).head blocks b := by
      simp only [root, depth, descend, value, hb, hrec]
      rfl
    refine ⟨[⟨.halt, []⟩], ?_⟩
    rw [finished, hroot, Compiler.emit, hhead]
    rfl
  | predicate =>
    have hpred : Palette.builtin.predicate? b.opcode = none := by
      rw [hop]
      exact Palette.kind_definition.2.2
    simp [finished, root, hb, hpred, Compiler.emit, fresh] at hsig

end Compiler

/-- A custom block in warp whose head no block refers to goes into warp before anything else. -/
lemma Engine.body_of_warp {blocks : BlockMap} {target : TargetId} {s : Script} (hkey : blocks.Keyed)
    (hone : blocks.SingleHeads) (hs : s ∈ (Engine.compileTarget .builtin target blocks).1) {id : String}
    {b : Block} {sig : Signature} (hb : blocks.get? id = some b) (hsig : b.head? blocks = some sig)
    (hwarp : sig.warp = true) (htop : ∀ a, ¬ blocks.Leads a id) {i : Nat} {code : Code}
    (hi : s.program.tables.procedureCodes[i]? = some sig.code)
    (hcode : s.program.code? (.procedure i) = some code) :
    ∃ rest, code.instructions = ⟨.start, []⟩ :: ⟨.warp, []⟩ :: rest := by
  obtain ⟨c, root, mode, sig', -, hread, -, hend, hplace⟩ := unit_of_body hs hcode
  obtain ⟨a, b', ha, hb', hhead⟩ := (Compiler.sourced_finished hkey c root mode).signature sig' hend
  have hsame : sig'.code = sig.code := Option.some.inj (hplace.symm.trans hi)
  obtain rfl := hone.eq_of_code hb' hb hhead hsig hsame
  obtain rfl : a = root := by
    rcases (ha (by rw [hb']; rfl)).cases_tail with h | ⟨x, -, hx⟩
    · exact h
    · exact absurd hx (htop x)
  rw [hread]
  exact Compiler.code_of_head hb hsig hwarp (by rw [hend]; rfl)

/-! ### Maps that differ in flags -/

namespace BlockMap.Paced

variable {blocks blocks' : BlockMap}

lemma keyed (h : blocks.Paced blocks') (hkey : blocks.Keyed) : blocks'.Keyed := by
  obtain ⟨hids, hkeys⟩ := hkey
  unfold BlockMap.Paced at h
  unfold Dictionary.keys at hkeys
  have hsame : blocks'.entries.map (·.1) = blocks.entries.map (·.1) ∧
      ∀ e ∈ blocks'.entries, e.2.id = e.1 := by
    generalize blocks.entries = es at h hids
    generalize blocks'.entries = es' at h
    induction h with
    | nil => simp
    | @cons e e' _ _ he _ ih =>
      obtain ⟨hid, hrest⟩ := List.forall_mem_cons.1 hids
      obtain ⟨hmap, hall⟩ := ih hrest
      have hsame : e'.2.id = e.2.id := by rw [he.2.same]
      exact ⟨by rw [List.map_cons, List.map_cons, hmap, he.1],
        List.forall_mem_cons.2 ⟨by rw [hsame, hid, he.1], hall⟩⟩
  exact ⟨hsame.2, by unfold Dictionary.keys; rw [hsame.1]; exact hkeys⟩

lemma block (h : blocks.Paced blocks') {id : String} {b' : Block} (hb : blocks'.get? id = some b') :
    ∃ b, blocks.get? id = some b ∧ b.Paced b' := by
  rcases h.get? id with ⟨-, h2⟩ | ⟨b, b'', h1, h2, hp⟩
  · rw [hb] at h2
    cases h2
  · cases h2.symm.trans hb
    exact ⟨b, h1, hp⟩

lemma leads (h : blocks.Paced blocks') {a id : String} (hl : blocks'.Leads a id) : blocks.Leads a id := by
  obtain ⟨x', hx', hid, hs⟩ := hl
  obtain ⟨y', hy'⟩ := Option.isSome_iff_exists.1 hs
  obtain ⟨x, hx, hsame⟩ := h.block hx'
  obtain ⟨y, hy, -⟩ := h.block hy'
  have hrefers : x'.refers = x.refers := by rw [hsame.same]; rfl
  exact ⟨x, hx, hrefers ▸ hid, by rw [hy]; rfl⟩

/-- Heads of both maps belong to the same custom blocks. -/
lemma heads (h : blocks.Paced blocks') {b b' : Block} (hb : b.Paced b') :
    (b'.head? blocks').map (·.code) = (b.head? blocks).map (·.code) := by
  have hsame := congrArg (Option.map (·.code)) (hb.head? h)
  rwa [Option.map_map, Option.map_map] at hsame

lemma singleHeads (h : blocks.Paced blocks') (hone : blocks.SingleHeads) : blocks'.SingleHeads := by
  have hcodes : ∀ {es es' : List (String × Block)},
      List.Forall₂ (fun e e' => e.1 = e'.1 ∧ e.2.Paced e'.2) es es' →
      (es'.filterMap fun e => (e.2.head? blocks').map (·.code)) =
        es.filterMap fun e => (e.2.head? blocks).map (·.code) := by
    intro es es' hes
    induction hes with
    | nil => rfl
    | cons he _ ih => rw [List.filterMap_cons, List.filterMap_cons, ih, h.heads he.2]
  unfold SingleHeads
  rw [hcodes h]
  exact hone

lemma inBody (h : blocks.Paced blocks') {id : String} (hid : blocks'.InBody id) : blocks.InBody id := by
  obtain ⟨u, hu, hpath, a, b', ha, hb', hhead⟩ := hid
  obtain ⟨b, hb, hbb⟩ := h.block hb'
  have hmono : ∀ {x}, Relation.ReflTransGen blocks'.Leads u.1 x → Relation.ReflTransGen blocks.Leads u.1 x :=
    Relation.ReflTransGen.mono (fun _ _ => h.leads) _ _
  rw [Compiler.targetUnits_paced h] at hu
  rw [← Option.isSome_map, h.heads hbb, Option.isSome_map] at hhead
  exact ⟨u, hu, hmono hpath, a, b, hmono ha, hb, hhead⟩

lemma waitFree (h : blocks.Paced blocks') (hfree : blocks.WaitFree) : blocks'.WaitFree := by
  rintro n ⟨id, b', ss, hid, hb', ⟨r, hr, hplan⟩, hn⟩
  obtain ⟨b, hb, hbb⟩ := h.block hb'
  have hop : b'.opcode = b.opcode := by rw [hbb.same]
  rw [hop] at hr
  rw [Compiler.Block.Alike.plan? hbb.toAlike] at hplan
  exact hfree n ⟨id, b, ss, h.inBody hid, hb, ⟨r, hr, hplan⟩, hn⟩

end BlockMap.Paced

end Blockwork
