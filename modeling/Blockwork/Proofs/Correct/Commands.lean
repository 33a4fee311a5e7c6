import Blockwork.Proofs.Compile.Procedures
import Blockwork.Proofs.Correct.Reporters
import Blockwork.Proofs.Machine.Flow

/-!
Commands are compiled correctly. The code of a command, wherever it stands, does to the world what
the interpreter does, and it comes to its end or ends its activation as the interpreter says; giving
way in between makes no difference. What the stacks inside of a command and the bodies of custom
blocks do is taken as given here.
-/

namespace Blockwork

namespace Compiler

open Machine (Does Performs PerformsIn)

/-- What commands do in a scene. -/
abbrev Deeds := Scene → World → Option (Ending × World)

/-- The code that is emitted between two states of the compiler does what the commands do,
wherever it can run and custom blocks have their bodies. -/
def Enacts (blocks : BlockMap) (c : Compiler) (e : Deeds) (c' : Compiler) : Prop :=
  ∃ is, c.Emits is c' ∧ Code.AllFull is ∧
    ∀ (p : Program) (s : Scene), c'.Suits p s → Linked blocks p.tables →
      ∀ w r, e s w = some r → Performs p s is w r

/-- The brackets of the code that is emitted match. -/
def Nests (c c' : Compiler) : Prop :=
  ∀ is, c'.code = c.code ++ is → Code.Nested (is.map (·.opcode))

lemma Writes.nests {c c' : Compiler} {ls : List Line} (h : c.Writes ls c') : c.Nests c' := by
  intro is he
  have hcode := h.puts.code.symm.trans he
  rw [← List.append_cancel_left hcode, List.map_map]
  exact h.neat.nested

lemma allFull_emit {op : Opcode} (h : op.operandCount = 0) : Code.AllFull [⟨op, []⟩] := by
  simpa [Code.AllFull, Instruction.Full] using h.symm

section

variable {blocks : BlockMap} {c c₁ c₂ : Compiler}

lemma Enacts.congr {e e' : Deeds} (h : c.Enacts blocks e c₁)
    (he : ∀ s w, s.signature = c.signature → e' s w = e s w) : c.Enacts blocks e' c₁ := by
  obtain ⟨is, hi, hf, hp⟩ := h
  refine ⟨is, hi, hf, fun p s hs hl w r hr => hp p s hs hl w r ?_⟩
  rw [← he s w (hs.before hi).signature, hr]

lemma enacts_nothing (h : c.Emits [] c₁) :
    c.Enacts blocks (fun _ w => some (.done, w)) c₁ :=
  ⟨[], h, by simp [Code.AllFull], fun p s _ _ w r hr => by
    cases hr
    exact Machine.performs_nil w⟩

/-- Nothing is asked of code that the interpreter gives no meaning. -/
lemma enacts_never {ls : List Line} (h : c.Writes ls c₁) (hk : Keeps blocks c c₁) :
    c.Enacts blocks (fun _ _ => none) c₁ := by
  refine ⟨_, ⟨h.puts.code, h.puts.grows, hk.signature, hk.warp⟩, fun i hi => ?_,
    fun _ _ _ _ _ _ hr => by cases hr⟩
  obtain ⟨l, hl, rfl⟩ := List.mem_map.1 hi
  exact h.puts.full l hl

/-- Code that takes nothing and leaves nothing. -/
lemma Means.enacts {f : Scene → World → World}
    (h : c.Means 0 (fun s _ w => ([], f s w)) c₁) :
    c.Enacts blocks (fun s w => some (.done, f s w)) c₁ := by
  obtain ⟨is, hi, hf, hd⟩ := h
  refine ⟨is, hi, hf, fun p s hs _ w r hr => ?_⟩
  cases hr
  exact Machine.performs_of_does (hd p s hs [] w rfl)

/-- One after the other, unless the first one stops the script. -/
def andThen (e e' : Deeds) : Deeds := fun s w =>
  match e s w with
  | some (.done, w) => e' s w
  | r => r

lemma Enacts.trans {e e' : Deeds} (h : c.Enacts blocks e c₁) (k : c₁.Enacts blocks e' c₂) :
    c.Enacts blocks (andThen e e') c₂ := by
  obtain ⟨is, hi, hf, hp⟩ := h
  obtain ⟨js, hj, hf', hp'⟩ := k
  refine ⟨is ++ js, hi.trans hj, hf.append hf', fun p s hs hl w r hr => ?_⟩
  unfold andThen at hr
  split at hr
  · next w₁ he => exact (hp p s (hs.before hj) hl w _ he).trans (hp' p s hs hl w₁ r hr)
  · next hne =>
    obtain ⟨e₁, w₁⟩ := r
    cases e₁ with
    | done => exact absurd hr (hne w₁)
    | stopped => exact (hp p s (hs.before hj) hl w _ hr).stopped js

lemma enacts_breakFrame {e : Deeds} (h : c.Enacts blocks e c₁) :
    c.Enacts blocks e (c₁.emit .breakFrame) := by
  have hb : c₁.Enacts blocks (fun _ w => some (.done, w)) (c₁.emit .breakFrame) :=
    ⟨_, emits_emit c₁ .breakFrame, allFull_emit rfl, fun p s _ _ w r hr => by
      cases hr
      exact Machine.performs_breakFrame w⟩
  refine (h.trans hb).congr fun s w _ => ?_
  unfold andThen
  split
  · next he => exact he
  · rfl

/-! ### Brackets -/

lemma enacts_branch {f : Scene → World → Value × World} {e : Deeds} (hf : c.Gives f c₁)
    (he : (c₁.emit .branch).Enacts blocks e c₂) (hn : (c₁.emit .branch).Nests c₂) :
    c.Enacts blocks
      (fun s w => if (f s w).1.toBool then e s (f s w).2 else some (.done, (f s w).2))
      (c₂.emit .endBranch) := by
  obtain ⟨xs, hx, hxf, hxd⟩ := hf
  obtain ⟨ys, hy, hyf, hyp⟩ := he
  have hbody := (emits_emit c₁ .branch).trans (hy.trans (emits_emit c₂ .endBranch))
  refine ⟨_, hx.trans hbody, hxf.append
    ((allFull_emit rfl).append (hyf.append (allFull_emit rfl))), fun p s hs hl w r hr => ?_⟩
  have hs₂ := hs.before (emits_emit c₂ .endBranch)
  refine Machine.performs_branch (hxd p s (hs.before hbody) [] w rfl) (hn ys hy.code)
    (fun hv => hyp p s hs₂ hl _ r ?_) (fun hv => ?_)
  · simpa only [hv, if_true] using hr
  · simp only [hv, Bool.false_eq_true, if_false, Option.some.injEq] at hr
    exact hr.symm

lemma enacts_choice {c₃ : Compiler} {f : Scene → World → Value × World} {e e' : Deeds}
    (hf : c.Gives f c₁) (he : (c₁.emit .branch).Enacts blocks e c₂)
    (hn : (c₁.emit .branch).Nests c₂) (he' : (c₂.emit .otherwise).Enacts blocks e' c₃)
    (hn' : (c₂.emit .otherwise).Nests c₃) :
    c.Enacts blocks
      (fun s w => if (f s w).1.toBool then e s (f s w).2 else e' s (f s w).2)
      (c₃.emit .endBranch) := by
  obtain ⟨xs, hx, hxf, hxd⟩ := hf
  obtain ⟨ys, hy, hyf, hyp⟩ := he
  obtain ⟨zs, hz, hzf, hzp⟩ := he'
  have hafter := (emits_emit c₂ .otherwise).trans (hz.trans (emits_emit c₃ .endBranch))
  have hbody := (emits_emit c₁ .branch).trans (hy.trans hafter)
  refine ⟨_, hx.trans hbody, hxf.append ((allFull_emit rfl).append (hyf.append
    ((allFull_emit rfl).append (hzf.append (allFull_emit rfl))))), fun p s hs hl w r hr => ?_⟩
  refine Machine.performs_choice (hxd p s (hs.before hbody) [] w rfl) (hn ys hy.code)
    (hn' zs hz.code) (fun hv => hyp p s (hs.before hafter) hl _ r ?_)
    (fun hv => hzp p s (hs.before (emits_emit c₃ .endBranch)) hl _ r ?_)
  · simpa only [hv, if_true] using hr
  · simpa only [hv, Bool.false_eq_true, if_false] using hr

lemma enacts_forever {e : Deeds} (he : (c.emit .forever).Enacts blocks e c₁) (steps : Nat) :
    c.Enacts blocks (fun s w => rounds noTest (e s) steps w) (c₁.emit .loopEnd) := by
  obtain ⟨is, hi, hf, hp⟩ := he
  refine ⟨_, (emits_emit c .forever).trans (hi.trans (emits_emit c₁ .loopEnd)),
    (allFull_emit rfl).append (hf.append (allFull_emit rfl)), fun p s hs hl w r hr => ?_⟩
  exact Machine.performs_forever (fun w r hr =>
    (hp p s (hs.before (emits_emit c₁ .loopEnd)) hl w r hr).inLoop .forever) hr

lemma enacts_times {f : Scene → World → Value × World} {e : Deeds} (hf : c.Gives f c₁)
    (he : (c₁.emit .times).Enacts blocks e c₂) (hn : (c₁.emit .times).Nests c₂) :
    c.Enacts blocks (fun s w => counted (roundsOf (f s w).1.toNumber) (fun _ => e s) (f s w).2)
      (c₂.emit .loopEnd) := by
  obtain ⟨xs, hx, hxf, hxd⟩ := hf
  obtain ⟨is, hi, hif, hip⟩ := he
  have hloop := (emits_emit c₁ .times).trans (hi.trans (emits_emit c₂ .loopEnd))
  refine ⟨_, hx.trans hloop, hxf.append
    ((allFull_emit rfl).append (hif.append (allFull_emit rfl))), fun p s hs hl w r hr => ?_⟩
  exact Machine.performs_times (hxd p s (hs.before hloop) [] w rfl) (hn is hi.code)
    (fun _ w r hr => (hip p s (hs.before (emits_emit c₂ .loopEnd)) hl w r hr).inLoop _) hr

lemma enacts_tested {f : Scene → World → Value × World} {e : Deeds}
    (hf : (c.emit .untilLoop).Gives f c₁) (hfn : (c.emit .untilLoop).Nests c₁)
    (he : (c₁.emit .untilTest).Enacts blocks e c₂) (hn : (c₁.emit .untilTest).Nests c₂)
    (steps : Nat) :
    c.Enacts blocks (fun s w => rounds (fun w => ((f s w).1.toBool, (f s w).2)) (e s) steps w)
      (c₂.emit .loopEnd) := by
  obtain ⟨xs, hx, hxf, hxd⟩ := hf
  obtain ⟨is, hi, hif, hip⟩ := he
  have hloop := (emits_emit c₁ .untilTest).trans (hi.trans (emits_emit c₂ .loopEnd))
  refine ⟨_, (emits_emit c .untilLoop).trans (hx.trans hloop), (allFull_emit rfl).append
    (hxf.append ((allFull_emit rfl).append (hif.append (allFull_emit rfl)))),
    fun p s hs hl w r hr => ?_⟩
  exact Machine.performs_tested (fun w => hxd p s (hs.before hloop) [] w rfl) (hfn xs hx.code)
    (hn is hi.code) (fun w r hr =>
      (hip p s (hs.before (emits_emit c₂ .loopEnd)) hl w r hr).inLoop _) hr

/-! ### Commands without brackets -/

lemma Gives.unary {f : Scene → World → Value × World} (h : c.Gives f c₁) (g : UnaryOp) :
    c.Gives (fun s w => (g.apply (f s w).1, (f s w).2)) (c₁.emit (.unary g)) := by
  have hone : c₁.Means 1 (fun _ vs w => (vs.map g.apply, w)) (c₁.emit (.unary g)) :=
    means_emit c₁ rfl fun p s vs w hvs => by
      obtain ⟨x, rfl⟩ := List.length_eq_one_iff.1 hvs
      exact Machine.does_unary g x w
  exact Means.trans h (fun _ _ _ _ => rfl) hone

lemma means_changeVar (c : Compiler) (r : Reference) {op : VariableOp} (hop : op ≠ .read) :
    c.Means 1 (fun s vs w => ([], Command.onVariable s r.id op vs w)) (c.variableOp op r) := by
  obtain ⟨i, x, he, hi, hx⟩ := emits_variableOp c op r
  refine means_operand he rfl fun p s vs w hs hvs => ?_
  obtain ⟨v, rfl⟩ := List.length_eq_one_iff.1 hvs
  rw [← hx]
  exact Machine.does_changeVar (get?_toNat_ofNat hs.small.vars (get?_mono hs.grows.vars hi)) hop v w

lemma means_changeList (c : Compiler) (r : Reference) {op : ListOp} {n : Nat}
    (hn : Machine.listChangeArity op = some n) :
    c.Means n (fun s vs w => ([], Command.onList s r.id op vs w)) (c.listOp op r) := by
  obtain ⟨i, x, he, hi, hx⟩ := emits_listOp c op r
  refine means_operand he rfl fun p s vs w hs hvs => ?_
  rw [← hx]
  exact Machine.does_changeList (get?_toNat_ofNat hs.small.lists (get?_mono hs.grows.lists hi))
    (hvs ▸ hn) w

lemma means_deed (c : Compiler) (d : Deed) :
    c.Means d.native.arity (fun s vs w => ([], d.apply s.target vs w)) (c.callNative d.native) := by
  have hpops : d.native.pops = d.native.arity := by cases d <;> rfl
  refine means_callNative (v := fun _ _ _ => none) c hpops fun m s vs w ht _ => ?_
  cases d <;> simp only [Deed.native, Native.run, Deed.apply, ht]

lemma enacts_stop (c : Compiler) :
    c.Enacts blocks (fun _ w => some (.stopped, w)) (c.callNative .stopThisScript) := by
  obtain ⟨i, he, hi⟩ := emits_callNative c .stopThisScript
  refine ⟨_, he, by simp [Code.AllFull, Instruction.Full, Opcode.operandCount],
    fun p s hs _ w r hr => ?_⟩
  cases hr
  exact Machine.performs_stop
    (get?_toNat_ofNat hs.small.natives (get?_mono hs.grows.natives hi)) w

/-- A loop whose rounds are numbered in a variable. -/
lemma enacts_numbered {f : Scene → World → Value × World} {e : Deeds} {r : Reference}
    (hf : c.Gives f c₁)
    (he : (((c₁.emit .times).emit .round).variableOp .set r).Enacts blocks e c₂)
    (hn : (((c₁.emit .times).emit .round).variableOp .set r).Nests c₂) :
    c.Enacts blocks (fun s w => counted (roundsOf (f s w).1.toNumber)
      (fun done w => e s (s.setVariable r.id (.ofNat (done + 1)) w)) (f s w).2)
      (c₂.emit .loopEnd) := by
  obtain ⟨xs, hx, hxf, hxd⟩ := hf
  obtain ⟨is, hi, hif, hip⟩ := he
  obtain ⟨i, x, hset, hxi, hxr⟩ := emits_variableOp ((c₁.emit .times).emit .round) .set r
  have hend := hi.trans (emits_emit c₂ .loopEnd)
  have hnumber := (emits_emit (c₁.emit .times) .round).trans (hset.trans hi)
  have hloop := (emits_emit c₁ .times).trans (hnumber.trans (emits_emit c₂ .loopEnd))
  have hfull : Code.AllFull ([⟨.round, []⟩] ++ ([⟨.var .set, [UInt32.ofNat i]⟩] ++ is)) :=
    (allFull_emit rfl).append (Code.AllFull.append
      (by simp [Code.AllFull, Instruction.Full, Opcode.operandCount]) hif)
  refine ⟨_, hx.trans hloop, hxf.append
    ((allFull_emit rfl).append (hfull.append (allFull_emit rfl))), fun p s hs hl w r hr => ?_⟩
  have hs₂ := hs.before (emits_emit c₂ .loopEnd)
  have hvar := get?_toNat_ofNat hs.small.vars (get?_mono (hs.before hend).grows.vars hxi)
  refine Machine.performs_times (hxd p s (hs.before hloop) [] w rfl) ?_ (fun k w r hr => ?_) hr
  · refine .append (.plain rfl) (.append (.plain rfl) ?_)
    exact hn is hi.code
  · rw [← hxr] at hr
    exact Machine.performsIn_numbered hvar (hip p s hs₂ hl _ r hr)

/-! ### Inputs and conditions -/

variable {d : Descent} {b : Block} {value : Scene → String → World → Value × World}

lemma enacts_after_inputs (h : GivesInputs d blocks b value) {names : List String}
    (hn : ∀ name ∈ names, b.holdsStack name = false)
    {f : Scene → List Value → World → World}
    (hf : (c.steps .builtin d blocks b (names.map .input)).Means names.length
      (fun s vs w => ([], f s vs w)) c₁) :
    c.Enacts blocks (fun s w => some (.done, f s (inputValues blocks s (value s) b names w).1
      (inputValues blocks s (value s) b names w).2)) c₁ :=
  Means.enacts ((means_inputs .builtin h hn c).trans (fun s vs w _ => by simp) hf)

/-- A condition gives a value with the right truth value. -/
lemma gives_condition (h : GivesInputs d blocks b (evaluate blocks)) {name : String}
    (hn : b.holdsStack name = false) (c : Compiler) :
    ∃ f : Scene → World → Value × World, c.Gives f (c.condition .builtin d blocks b name) ∧
      ∀ s w, truthOf blocks s b name w = ((f s w).1.toBool, (f s w).2) := by
  have hi := gives_input h hn c
  rcases condition_cases .builtin blocks b d c name with he | he <;> rw [he]
  · exact ⟨_, hi, fun _ _ => rfl⟩
  · exact ⟨_, (hi.unary .not).unary .not, fun _ _ => by
      simp [UnaryOp.apply, Value.toBool, truthOf, valueOf]⟩

end

/-! ### Calls -/

open Machine (Steady Reaches bodyCode)

/-- The code gathers values for the call that is being prepared. -/
def Gathers (c : Compiler) (f : Scene → World → List Value × World) (c' : Compiler) : Prop :=
  ∃ is, c.Emits is c' ∧ Code.AllFull is ∧ ∀ (p : Program) (s : Scene), c'.Suits p s →
    ∀ w pre post (m : Machine) vs, p.Holds m.routine (pre ++ (is ++ post)) → Steady p s m →
      Reaches p ((m.gather vs).put (Code.extent pre) m.stack, w)
        ((m.gather (vs ++ (f s w).1)).put (Code.extent (pre ++ is)) m.stack, (f s w).2)

section

variable {blocks : BlockMap} {c c₁ c₂ : Compiler}

lemma gathers_nothing (c : Compiler) : c.Gathers (fun _ w => ([], w)) c :=
  ⟨[], .refl c, by simp [Code.AllFull], fun p s _ w pre post m vs _ _ => by
    simpa using Reaches.refl p _⟩

lemma Gathers.trans {f g : Scene → World → List Value × World} (h : c.Gathers f c₁)
    (k : c₁.Gathers g c₂) :
    c.Gathers (fun s w => ((f s w).1 ++ (g s (f s w).2).1, (g s (f s w).2).2)) c₂ := by
  obtain ⟨is, hi, hf, hr⟩ := h
  obtain ⟨js, hj, hf', hr'⟩ := k
  refine ⟨is ++ js, hi.trans hj, hf.append hf', fun p s hs w pre post m vs hp hm => ?_⟩
  have h1 := hr p s (hs.before hj) w pre (js ++ post) m vs (by simpa using hp) hm
  have h2 := hr' p s hs (f s w).2 (pre ++ is) post m (vs ++ (f s w).1) (by simpa using hp) hm
  simpa using h1.trans h2

lemma Gives.gathers {f : Scene → World → Value × World} (h : c.Gives f c₁) :
    c.Gathers (fun s w => ([(f s w).1], (f s w).2)) (c₁.emit .addArg) := by
  obtain ⟨is, hi, hf, hd⟩ := h
  refine ⟨is ++ [⟨.addArg, []⟩], hi.trans (emits_emit c₁ .addArg), hf.append (allFull_emit rfl),
    fun p s hs w pre post m vs hp hm => ?_⟩
  have hvalue := hd p s (hs.before (emits_emit c₁ .addArg)) [] w rfl pre ([⟨.addArg, []⟩] ++ post)
    ((m.gather vs).put (Code.extent pre) m.stack) m.stack (by simpa using hp) rfl
    ((hm.gather vs).put _ _).toActs rfl
  have hadd := @Machine.reaches_addArg p m hm.running m.stack vs (f s w).2 (pre ++ is) post
    (f s w).1 (by simpa using hp)
  simpa using hvalue.reaches.trans hadd

variable {d : Descent} {b : Block}

lemma gathers_arguments (h : GivesInputs d blocks b (evaluate blocks))
    (hn : ∀ name, b.holdsStack name = false) (defaults : Signature) (args : List (String × Nat))
    (c : Compiler) :
    c.Gathers (fun s w => argumentsOf blocks s b defaults args w)
      (args.foldl (argument d blocks b defaults) c) := by
  induction args generalizing c with
  | nil => exact gathers_nothing c
  | cons arg rest ih =>
    have hone : c.Gathers (fun s w =>
        let v := if (b.input? arg.1).isSome then valueOf blocks s b arg.1 w
          else (defaults.defaultArgument arg.2, w)
        ([v.1], v.2)) (argument d blocks b defaults c arg) := by
      unfold argument
      cases (b.input? arg.1).isSome with
      | true => exact (gives_input h (hn arg.1) c).gathers
      | false => exact (gives_const c _).gathers
    exact hone.trans (ih _)

/-- The values of arguments that are left out change nothing else. -/
lemma argumentsOf_world (s : Scene) (x y : Signature) (args : List (String × Nat)) (w : World) :
    (argumentsOf blocks s b x args w).2 = (argumentsOf blocks s b y args w).2 := by
  induction args generalizing w with
  | nil => rfl
  | cons arg rest ih =>
    simp only [argumentsOf]
    split <;> exact ih _

/-- The bodies of custom blocks do what their stacks do. -/
def Custom (blocks : BlockMap) (stack : Scene → Option String → World → Option (Ending × World)) :
    Prop :=
  ∀ code id d, blocks.headOf? code = some (id, d) → ∀ p : Program, Linked blocks p.tables →
    p.tables.Small → ∀ i : Nat, p.tables.procedureCodes[i]? = some code →
    ∀ (s : Scene) args w r, stack { s with arguments := args } (some id) w = some r →
      ∃ is, p.Holds (.procedure i) (bodyCode d.warp is) ∧
        Performs p { s with signature := some d, arguments := args } is w r

lemma emits_definition (c : Compiler) (code : String) :
    c.Emits [] (c.definition blocks code).2 := by
  unfold definition
  repeat' split
  all_goals exact ⟨by simp, .refl _, rfl, rfl⟩

lemma Linked.code?_none {p : Program} (h : Linked blocks p.tables) {code : String} {i : Nat}
    (hi : p.tables.procedureCodes[i]? = some code) (hnone : blocks.headOf? code = none) :
    p.code? (.procedure i) = none := by
  simp only [Program.code?]
  cases hp : p.tables.procedures[i]? with
  | none => rfl
  | some x =>
    cases x with
    | none => rfl
    | some body => exact absurd hp (h.unbodied code hnone i body hi)

/-- The first signature with the code of a custom block is that of its head. -/
lemma findSignature?_of_headOf? (ho : blocks.Orderly) {code id : String} {d : Signature}
    (h : blocks.headOf? code = some (id, d)) : findSignature? blocks code = some d := by
  obtain ⟨e, he, hat⟩ := List.exists_of_findSome?_eq_some h
  obtain ⟨-, hd, hcode, -⟩ := BlockMap.headAt?_eq_some.1 hat
  rw [← hcode]
  exact ho.signatures e he d hd

/-- When its arguments are gathered a call does what the stack of the custom block does. -/
lemma Custom.ends_call {stack : Scene → Option String → World → Option (Ending × World)}
    (hcustom : Custom blocks stack) {p : Program} (hl : Linked blocks p.tables)
    (hsmall : p.tables.Small) {s : Scene} {m : Machine} (hm : Steady p s m) {i : UInt32}
    {code id : String} {d : Signature} (hhead : blocks.headOf? code = some (id, d))
    (hcode : p.tables.procedureCodes[i.toNat]? = some code) {pre post : List Instruction}
    (hp : p.Holds m.routine (pre ++ ⟨.callProcedure, [i]⟩ :: post)) {args : List Value} {w : World}
    {r : Ending × World} (hr : stack { s with arguments := args } (some id) w = some r) :
    Machine.Ends p ((m.gather args).put (Code.extent pre) m.stack, w) m
      (Code.extent (pre ++ [⟨.callProcedure, [i]⟩])) (.done, r.2) := by
  obtain ⟨is, hbody, hperf⟩ := hcustom code id d hhead p hl hsmall _ hcode s args w r hr
  have henter := @Machine.reaches_call p m hm.running m.stack args w pre post i hp
    (by rw [hbody.code]; rfl)
  have hback := Machine.reaches_body
    (hm.put (Code.extent (pre ++ [⟨.callProcedure, [i]⟩])) m.stack) hbody hperf
  exact henter.trans hback

lemma enacts_call (ho : blocks.Orderly) (hk : c.Known blocks)
    (h : GivesInputs d blocks b (evaluate blocks)) (hn : ∀ name, b.holdsStack name = false)
    {stack : Scene → Option String → World → Option (Ending × World)} (hcustom : Custom blocks stack)
    (steps : Nat) :
    c.Enacts blocks (fun s w => Command.run blocks stack steps s b w .call) (c.call d blocks b) := by
  unfold call
  cases hm : b.mutation with
  | none =>
    refine (enacts_nothing (.refl c)).congr fun s w _ => ?_
    simp [Command.run, hm]
  | some m =>
    simp only [Command.run, hm]
    set sig := Signature.ofMutation m
    have hfound := definition_eq hk sig.code
    have hdef := @emits_definition blocks c sig.code
    have hin := emits_internProcedure (c.definition blocks sig.code).2 sig.code
    have hcode := get_internProcedure (c.definition blocks sig.code).2 sig.code
    set c₁ := ((c.definition blocks sig.code).2.internProcedure sig.code).2
    set i := ((c.definition blocks sig.code).2.internProcedure sig.code).1
    rw [hfound]
    set defaults := (findSignature? blocks sig.code).getD sig
    obtain ⟨is, hi, hf, hgather⟩ := gathers_arguments h hn defaults sig.argumentIds.zipIdx
      (c₁.emit .initProcedure)
    set c₂ := sig.argumentIds.zipIdx.foldl (argument d blocks b defaults) (c₁.emit .initProcedure)
    have hcall := emits_emitAt c₂ .callProcedure i
    have hafter := (emits_emit c₁ .initProcedure).trans (hi.trans hcall)
    refine ⟨_, hdef.trans (hin.trans hafter), (allFull_emit rfl).append (hf.append
      (by simp [Code.AllFull, Instruction.Full, Opcode.operandCount])), fun p s hs hl w r hr => ?_⟩
    intro pre post m hp ha hm
    simp only [List.nil_append] at hp ⊢
    have hi' : (UInt32.ofNat i).toNat = i := by
      rw [UInt32.toNat_ofNat']
      exact Nat.mod_eq_of_lt (lt_of_lt_of_le
        (lt_of_get? (get?_mono (hs.before hafter).grows.codes hcode)) hs.small.codes)
    have hpcode : p.tables.procedureCodes[(UInt32.ofNat i).toNat]? = some sig.code := by
      rw [hi']
      exact get?_mono (hs.before hafter).grows.codes hcode
    -- the arguments are gathered first
    have hinit := @Machine.reaches_initProcedure p m hm.running m.stack w pre
      (is ++ ⟨.callProcedure, [UInt32.ofNat i]⟩ :: post) (by simpa using hp)
    rw [← ha, Machine.put_self] at hinit
    have hargs := hgather p s (hs.before hcall) w (pre ++ [⟨.initProcedure, []⟩])
      (⟨.callProcedure, [UInt32.ofNat i]⟩ :: post) m [] (by simpa using hp) hm
    rw [List.nil_append] at hargs
    refine .of_reaches (hinit.trans hargs) ?_
    have hp' : p.Holds m.routine (((pre ++ [⟨.initProcedure, []⟩]) ++ is) ++
        ⟨.callProcedure, [UInt32.ofNat i]⟩ :: post) := by simpa using hp
    cases hhead : blocks.headOf? sig.code with
    | none =>
      simp only [hhead, Option.map_none, Option.getD_none, Option.some.injEq] at hr
      subst hr
      rw [argumentsOf_world s sig defaults]
      simpa [Machine.Ends] using Machine.reaches_call_none hm.running hp'
        (hl.code?_none hpcode hhead)
    | some x =>
      obtain ⟨id, s₀⟩ := x
      have hdefaults : defaults = s₀ := by
        simp only [defaults, findSignature?_of_headOf? ho hhead, Option.getD_some]
      simp only [hhead, Option.map_some, Option.getD_some, ← hdefaults] at hr
      obtain ⟨r', hr', rfl⟩ := Option.map_eq_some_iff.1 hr
      simpa using hcustom.ends_call hl hs.small hm hhead hpcode hp' hr'

end

end Compiler

/-! ### Commands -/

namespace Command

/-- The inputs fit the instruction, and none of them holds a stack. -/
def isFit : Command → Bool
  | .var op => op != .read
  | .list inputs op => Machine.listChangeArity op == some inputs.length &&
      inputs.all fun n => n != "SUBSTACK" && n != "SUBSTACK2"
  | .deed inputs d => d.native.arity == inputs.length &&
      inputs.all fun n => n != "SUBSTACK" && n != "SUBSTACK2"
  | _ => true

lemma isFit_of_mem : ∀ e ∈ table, e.2.isFit = true := by decide

lemma opcode_of_mem : ∀ e ∈ table, e.2 ≠ .head → e.1 ≠ "procedures_definition" := by
  decide

lemma opcode_of_head_mem : ∀ e ∈ table, e.2 = .head → e.1 = "procedures_definition" := by
  decide

lemma control_of_mem : ∀ e ∈ table, e.2 = .call →
    (Palette.control.recipes.lookup e.1).isSome = false := by
  decide

section

variable {b : Block} {cmd : Command} (h : of? b.opcode = some cmd)

include h

lemma not_holdsStack (hc : cmd ≠ .head) {name : String}
    (hname : name ≠ "SUBSTACK" ∧ name ≠ "SUBSTACK2") : b.holdsStack name = false := by
  have hop := opcode_of_mem _ (mem_of_lookup h) hc
  simp only at hop
  simp [Block.holdsStack, hop, hname.1, hname.2]

lemma not_holdsStack_call (hc : cmd = .call) (name : String) : b.holdsStack name = false := by
  have hop := opcode_of_mem _ (mem_of_lookup h) (by simp [hc])
  have hcontrol := control_of_mem _ (mem_of_lookup h) hc
  simp only at hop hcontrol
  simp [Block.holdsStack, Block.isControl, hop, hcontrol]

end

end Command

namespace Compiler

section

variable {blocks : BlockMap} {d : Descent} {t : Trace} {b : Block}
  {stack : Scene → Option String → World → Option (Ending × World)}

/-- The stacks in the inputs of a block are enacted. -/
def EnactsBodies (d : Descent) (blocks : BlockMap) (b : Block)
    (stack : Scene → Option String → World → Option (Ending × World)) : Prop :=
  ∀ name (c : Compiler), c.Known blocks →
    c.Enacts blocks (fun s w => stack s (b.plugged? name) w) (c.body d blocks b name)

lemma enacts_loopBody (h : EnactsBodies d blocks b stack) (name : String) {c : Compiler}
    (hk : c.Known blocks) :
    c.Enacts blocks (fun s w => stack s (b.plugged? name) w)
      (c.step .builtin d blocks b (.loopBody name)) := by
  simp only [step]
  split
  · exact h name c hk
  · exact enacts_breakFrame (h name c hk)

variable (id : String) (hsound : Sound d t) (hkeeps : d.Keeping blocks b)
  (hin : GivesInputs d blocks b (evaluate blocks)) (hbodies : EnactsBodies d blocks b stack)

include hsound in
lemma nests_body (c : Compiler) (name : String) : c.Nests (c.body d blocks b name) :=
  (writes_body blocks b hsound c name).nests

include id hsound in
lemma nests_loopBody (c : Compiler) (name : String) :
    c.Nests (c.step .builtin d blocks b (.loopBody name)) :=
  (writes_loopBody .builtin blocks id b hsound c name).nests

variable {c : Compiler} {cmd : Command}

include hsound hkeeps hin hbodies in
lemma enacts_branching (hcmd : cmd = .branch ∨ cmd = .choice)
    (hop : Command.of? b.opcode = some cmd) (hk : c.Known blocks) (steps : Nat) :
    c.Enacts blocks (fun s w => cmd.run blocks stack steps s b w)
      (c.recipe .builtin d blocks b cmd.recipe) := by
  have hn : b.holdsStack "CONDITION" = false :=
    Command.not_holdsStack hop (by rcases hcmd with rfl | rfl <;> simp) (by decide)
  obtain ⟨f, hf, htruth⟩ := gives_condition hin hn c
  have hk₁ := (keeps_condition hkeeps .builtin c "CONDITION").known hk
  rcases hcmd with rfl | rfl
  · refine (enacts_branch hf (hbodies "SUBSTACK" _ hk₁) (nests_body hsound _ _)).congr
      fun s w _ => ?_
    simp only [Command.run, htruth]
  · have hk₂ := (keeps_body hkeeps ((c.condition .builtin d blocks b "CONDITION").emit .branch)
      "SUBSTACK").known hk₁
    refine (enacts_choice hf (hbodies "SUBSTACK" _ hk₁) (nests_body hsound _ _)
      (hbodies "SUBSTACK2" _ hk₂) (nests_body hsound _ _)).congr fun s w _ => ?_
    simp only [Command.run, htruth]
    split <;> simp_all

include hbodies in
lemma enacts_foreverLoop (hk : c.Known blocks) (steps : Nat) :
    c.Enacts blocks (fun s w => Command.forever.run blocks stack steps s b w)
      (c.recipe .builtin d blocks b Command.forever.recipe) :=
  enacts_forever (enacts_loopBody hbodies "SUBSTACK" hk) steps

include id hsound hkeeps hin hbodies in
lemma enacts_timesLoop (hop : Command.of? b.opcode = some .times) (hk : c.Known blocks)
    (steps : Nat) :
    c.Enacts blocks (fun s w => Command.times.run blocks stack steps s b w)
      (c.recipe .builtin d blocks b Command.times.recipe) := by
  have hn : b.holdsStack "TIMES" = false := Command.not_holdsStack hop (by simp) (by decide)
  have hk₁ := (keeps_input hkeeps c "TIMES").known hk
  exact enacts_times (gives_input hin hn c) (enacts_loopBody hbodies "SUBSTACK" hk₁)
    (nests_loopBody id hsound _ _)

include id hsound hkeeps hin hbodies in
lemma enacts_testedLoop (hcmd : cmd = .untilTrue ∨ cmd = .whileTrue)
    (hop : Command.of? b.opcode = some cmd) (hk : c.Known blocks) (steps : Nat) :
    c.Enacts blocks (fun s w => cmd.run blocks stack steps s b w)
      (c.recipe .builtin d blocks b cmd.recipe) := by
  have hn : b.holdsStack "CONDITION" = false :=
    Command.not_holdsStack hop (by rcases hcmd with rfl | rfl <;> simp) (by decide)
  obtain ⟨f, hf, htruth⟩ := gives_condition hin hn (c.emit .untilLoop)
  have hk₁ := (keeps_condition hkeeps .builtin (c.emit .untilLoop) "CONDITION").known hk
  have hwrites := writes_condition .builtin blocks id b hsound (c.emit .untilLoop) "CONDITION"
  rcases hcmd with rfl | rfl
  · refine (enacts_tested hf hwrites.nests (enacts_loopBody hbodies "SUBSTACK" hk₁)
      (nests_loopBody id hsound _ _) steps).congr fun s w _ => ?_
    simp only [Command.run]
    congr 1
    funext w
    exact htruth s w
  · have hnot := hwrites.trans (@writes_emit _ (.unary .not) rfl rfl id)
    refine (enacts_tested (hf.unary .not) hnot.nests (enacts_loopBody hbodies "SUBSTACK" hk₁)
      (nests_loopBody id hsound _ _) steps).congr fun s w _ => ?_
    simp only [Command.run]
    congr 1
    funext w
    simp [htruth, UnaryOp.apply, Value.toBool]

include id hsound hkeeps hin hbodies in
lemma enacts_forEachLoop (hop : Command.of? b.opcode = some .forEach) (hk : c.Known blocks)
    (steps : Nat) :
    c.Enacts blocks (fun s w => Command.forEach.run blocks stack steps s b w)
      (c.recipe .builtin d blocks b Command.forEach.recipe) := by
  have hn : b.holdsStack "VALUE" = false := Command.not_holdsStack hop (by simp) (by decide)
  simp only [Command.recipe, recipe]
  cases hfield : b.field? Recipe.variableField with
  | none =>
    refine (enacts_nothing (.refl c)).congr fun s w _ => ?_
    simp only [Command.run, hfield]
  | some f =>
    have hentry : c.Enacts blocks (fun _ w => some (.done, w)) (c.internVariable f.reference).2 :=
      enacts_nothing (emits_internVariable c f.reference)
    have hk₁ := (keeps_internVariable c f.reference).known hk
    have hk₂ := (keeps_input hkeeps (c.internVariable f.reference).2 "VALUE").known hk₁
    set c₁ := (((c.internVariable f.reference).2.input d blocks b "VALUE").emit
      (.unary .ceiling)) with hc₁
    have hk₃ := (keeps_variableOp ((c₁.emit .times).emit .round) .set f.reference).known hk₂
    have hloop := enacts_numbered
      ((gives_input hin hn (c.internVariable f.reference).2).unary .ceiling)
      (enacts_loopBody hbodies "SUBSTACK" hk₃) (nests_loopBody id hsound _ _)
    have hcode : c.steps .builtin d blocks b [.variableEntry, .input "VALUE",
        .emit (.unary .ceiling), .emit .times, .emit .round, .var .set, .loopBody "SUBSTACK",
        .emit .loopEnd] = (step .builtin d blocks b (((c₁.emit .times).emit .round).variableOp .set
          f.reference) (.loopBody "SUBSTACK")).emit .loopEnd := by
      simp only [steps_cons, steps_nil]
      simp only [step, hfield, hc₁]
    simp only [Option.isSome_some, if_true, hcode]
    refine (hentry.trans hloop).congr fun s w _ => ?_
    simp only [Command.run, hfield, andThen]
    rfl

include hin in
lemma enacts_var {op : VariableOp} (hop : Command.of? b.opcode = some (.var op)) (steps : Nat) :
    c.Enacts blocks (fun s w => (Command.var op).run blocks stack steps s b w)
      (c.recipe .builtin d blocks b (Command.var op).recipe) := by
  have hread : op ≠ .read := by
    simpa [Command.isFit] using Command.isFit_of_mem _ (mem_of_lookup hop)
  have hn : ∀ name ∈ ["VALUE"], b.holdsStack name = false := by
    simpa using @Command.not_holdsStack b _ hop (by simp) "VALUE" (by decide)
  simp only [Command.recipe, Recipe.onVariable, recipe]
  cases hfield : b.field? Recipe.variableField with
  | none =>
    refine (enacts_nothing (.refl c)).congr fun s w _ => ?_
    simp only [Command.run, hfield]
  | some f =>
    have hentry := @enacts_nothing blocks _ _ (emits_internVariable c f.reference)
    have hcommand := enacts_after_inputs hin hn (means_changeVar
      ((c.internVariable f.reference).2.steps .builtin d blocks b (["VALUE"].map .input))
      f.reference hread)
    simp only [Option.isSome_some, if_true, steps_onVariable c hfield]
    refine (hentry.trans hcommand).congr fun s w _ => ?_
    simp only [Command.run, hfield, andThen]

include hin in
lemma enacts_list {names : List String} {op : ListOp}
    (hop : Command.of? b.opcode = some (.list names op)) (steps : Nat) :
    c.Enacts blocks (fun s w => (Command.list names op).run blocks stack steps s b w)
      (c.recipe .builtin d blocks b (Command.list names op).recipe) := by
  have hfit := Command.isFit_of_mem _ (mem_of_lookup hop)
  simp only [Command.isFit, Bool.and_eq_true, beq_iff_eq, List.all_eq_true, bne_iff_ne] at hfit
  have hn : ∀ name ∈ names, b.holdsStack name = false := fun name hname =>
    Command.not_holdsStack hop (by simp) (hfit.2 name hname)
  simp only [Command.recipe, Recipe.onList, recipe]
  cases hfield : b.field? Recipe.listField with
  | none =>
    refine (enacts_nothing (.refl c)).congr fun s w _ => ?_
    simp only [Command.run, hfield]
  | some f =>
    have hentry := @enacts_nothing blocks _ _ (emits_internList c f.reference)
    have hcommand := enacts_after_inputs hin hn (means_changeList
      ((c.internList f.reference).2.steps .builtin d blocks b (names.map .input))
      f.reference hfit.1)
    simp only [Option.isSome_some, if_true, steps_onList c hfield]
    refine (hentry.trans hcommand).congr fun s w _ => ?_
    simp only [Command.run, hfield, andThen]

include hin in
lemma enacts_deed {names : List String} {a : Deed}
    (hop : Command.of? b.opcode = some (.deed names a)) (steps : Nat) :
    c.Enacts blocks (fun s w => (Command.deed names a).run blocks stack steps s b w)
      (c.recipe .builtin d blocks b (Command.deed names a).recipe) := by
  have hfit := Command.isFit_of_mem _ (mem_of_lookup hop)
  simp only [Command.isFit, Bool.and_eq_true, beq_iff_eq, List.all_eq_true, bne_iff_ne] at hfit
  have hn : ∀ name ∈ names, b.holdsStack name = false := fun name hname =>
    Command.not_holdsStack hop (by simp) (hfit.2 name hname)
  have hdeed := means_deed (c.steps .builtin d blocks b (names.map .input)) a
  rw [hfit.1] at hdeed
  have hcommand := enacts_after_inputs hin hn hdeed
  simp only [Command.recipe, Recipe.native, recipe, steps_append]
  exact hcommand

include id hsound hkeeps in
lemma enacts_stopping (steps : Nat) :
    c.Enacts blocks (fun s w => Command.stop.run blocks stack steps s b w)
      (c.recipe .builtin d blocks b Command.stop.recipe) := by
  have hoption : Palette.builtin.option? "STOP_OPTION" "this script" = some 1 := by decide
  by_cases hthis : (b.fieldValue "STOP_OPTION").toText = "this script"
  · obtain ⟨f, hf⟩ : ∃ f, b.field? "STOP_OPTION" = some f := by
      by_contra hnone
      have hempty : b.fieldValue "STOP_OPTION" = .empty := by
        cases h : b.field? "STOP_OPTION" with
        | none => simp only [Block.fieldValue, h]
        | some f => exact absurd ⟨f, h⟩ hnone
      rw [hempty] at hthis
      exact absurd hthis (by decide)
    have hfv : f.value.toText = "this script" := by
      simpa only [Block.fieldValue, hf] using hthis
    have hcode : c.recipe .builtin d blocks b Command.stop.recipe =
        c.callNative .stopThisScript := by
      simp only [Command.recipe, recipe, hf, hfv, hoption, Option.bind_eq_bind, Option.bind_some]
      rfl
    rw [hcode]
    refine (enacts_stop c).congr fun s w _ => ?_
    simp only [Command.run, hthis, if_true]
  · have hplans : ∀ ss ∈ Command.stop.recipe.plans, Recipe.Shaped ss := fun ss hss =>
      .plain (by revert ss; decide)
    refine (enacts_never (writes_recipe .builtin blocks id b hsound hplans c)
      (keeps_recipe hkeeps .builtin c (by simp [Command.recipe]))).congr fun s w _ => ?_
    simp only [Command.run, hthis, if_false]

include id hsound hkeeps hin hbodies in
/-- A command does what the interpreter does, given what the stacks in it do. -/
lemma enacts_recipe (ho : blocks.Orderly) (hb : b.head? blocks = none)
    (hcustom : Custom blocks stack) (hop : Command.of? b.opcode = some cmd)
    (hk : c.Known blocks) (steps : Nat) :
    c.Enacts blocks (fun s w => cmd.run blocks stack steps s b w)
      (c.recipe .builtin d blocks b cmd.recipe) := by
  cases cmd with
  | branch => exact enacts_branching hsound hkeeps hin hbodies (Or.inl rfl) hop hk steps
  | choice => exact enacts_branching hsound hkeeps hin hbodies (Or.inr rfl) hop hk steps
  | forever => exact enacts_foreverLoop hbodies hk steps
  | times => exact enacts_timesLoop id hsound hkeeps hin hbodies hop hk steps
  | untilTrue => exact enacts_testedLoop id hsound hkeeps hin hbodies (Or.inl rfl) hop hk steps
  | whileTrue => exact enacts_testedLoop id hsound hkeeps hin hbodies (Or.inr rfl) hop hk steps
  | forEach => exact enacts_forEachLoop id hsound hkeeps hin hbodies hop hk steps
  | var op => exact enacts_var hin hop steps
  | list names op => exact enacts_list hin hop steps
  | deed names a => exact enacts_deed hin hop steps
  | stop => exact enacts_stopping id hsound hkeeps steps
  | head =>
    have hopcode := Command.opcode_of_head_mem _ (mem_of_lookup hop) rfl
    have hcode : c.recipe .builtin d blocks b Command.head.recipe = c :=
      head_of_no_head hopcode hb
    rw [hcode]
    exact enacts_nothing (.refl c)
  | call => exact enacts_call ho hk hin (Command.not_holdsStack_call hop rfl) hcustom steps

include hsound hkeeps hin hbodies in
/-- A block of a stack does what the interpreter does, unless it is the head of a custom block. -/
lemma enacts_block (ho : blocks.Orderly) (hb : b.head? blocks = none)
    (hcustom : Custom blocks stack) (hk : c.Known blocks) (steps : Nat) :
    c.Enacts blocks (fun s w => runBlock blocks stack steps s b w)
      (c.command .builtin d blocks id b) := by
  unfold command runBlock
  cases Palette.builtin.isHat b.opcode with
  | true => exact enacts_nothing (.refl c)
  | false =>
    cases hr : Palette.builtin.recipe? b.opcode with
    | none => exact enacts_nothing (emits_markUnsupported c .builtin blocks id)
    | some r =>
      cases hop : Command.of? b.opcode with
      | none =>
        have hplans := fun ss hss =>
          @Palette.shaped_builtin r (Palette.mem_recipes_of_recipe? hr) ss hss
        exact enacts_never (writes_recipe .builtin blocks id b hsound hplans c)
          (keeps_no_head hkeeps hb c hr)
      | some cmd =>
        cases (Command.recipe?_of_command hop).symm.trans hr
        exact enacts_recipe id hsound hkeeps hin hbodies ho hb hcustom hop hk steps

end

end Compiler

end Blockwork
