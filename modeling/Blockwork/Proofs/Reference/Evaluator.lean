import Blockwork.Machine.Step
import Blockwork.Proofs.Blocks.Kinds

/-!
The meaning of reporters, by recursion on the blocks: the inputs are evaluated from left to right,
and the reporter is applied to their values. No code, no tables and no operand stack are involved.
-/

namespace Blockwork

/-- What the blocks of one activation refer to. -/
structure Scene where
  target : TargetId
  /-- Where the variable of an id lives. -/
  varSlot : String → Slot
  /-- Where the list of an id lives. -/
  listSlot : String → Slot
  /-- The custom block whose body is run. -/
  signature : Option Signature := none
  arguments : List Value := []

namespace Scene

/-- The scene of a script on a target, where variables and lists are looked up by their ids. -/
def new (target : TargetId) (a : Arena) : Scene where
  target := target
  varSlot id := (a.resolveVariable target ⟨"", id⟩).1
  listSlot id := (a.resolveList target ⟨"", id⟩).1

def varValue (s : Scene) (w : World) (id : String) : Value :=
  ((w.targets.variableAt? (s.varSlot id)).map (·.value)).getD .empty

def list? (s : Scene) (w : World) (id : String) : Option ItemList :=
  w.targets.listAt? (s.listSlot id)

def listSize (s : Scene) (w : World) (id : String) : Nat := ((s.list? w id).map (·.size)).getD 0

def listText (s : Scene) (w : World) (id : String) : Value :=
  .text (((s.list? w id).map (·.toText)).getD "")

/-- The place that an index names among `length` places. -/
def place (w : World) (index : Value) (length : Nat) (acceptAll : Bool) : ListIndex × World :=
  if ListIndex.draws index length then
    (ListIndex.resolve index length acceptAll w.draw.1, w.draw.2)
  else (ListIndex.resolve index length acceptAll 0, w)

/-- An argument of the custom block; outside of one it has a fixed value. -/
def argument (s : Scene) (name : String) (outside : Value) : Value :=
  match s.signature.bind (·.argumentIndex? name) with
  | some i => s.arguments[i]?.getD (.number 0)
  | none => outside

end Scene

def MathChoice.apply (f : MathChoice) (v : Value) : Value :=
  match f with
  | .unary f => f.apply v
  | .other f => .number (Native.MathFunction.apply f v.toNumber)

/-- The function that a block has chosen. -/
def Block.mathChoice? (b : Block) : Option MathChoice :=
  (b.field? "OPERATOR").bind fun f => MathChoice.table.lookup f.value.toText

namespace Reporter

/-- The inputs of a reporter in the order in which they are evaluated. -/
def inputs (b : Block) : Reporter → List String
  | .unary a _ => [a]
  | .binary a b _ => [a, b]
  | .random a b => [a, b]
  | .math => if b.mathChoice?.isSome then ["NUM"] else []
  | .keyPressed => ["KEY_OPTION"]
  | .attributeOf => ["OBJECT"]
  | .list inputs _ => if (b.field? Recipe.listField).isSome then inputs else []
  | _ => []

/-- The item at a place, empty when there is none. -/
def itemAt (l : Option ItemList) : ListIndex → Value
  | .item k => (l.bind (·.get? k)).getD .empty
  | _ => .empty

/-- What a reporter on a list gives. -/
def onList (s : Scene) (id : String) (op : ListOp) (values : List Value) (w : World) :
    Value × World :=
  match op, values with
  | .read, _ => (s.listText w id, w)
  | .length, _ => (.ofNat (s.listSize w id), w)
  | .item, [index] =>
    let (k, w) := Scene.place w index (s.listSize w id) false
    (itemAt (s.list? w id) k, w)
  | .indexOf, [v] =>
    (.ofNat ((((s.list? w id).bind (·.indexOf? v)).map (· + 1)).getD 0), w)
  | .contains, [v] => (.bool (((s.list? w id).map (·.contains v)).getD false), w)
  | _, _ => (.empty, w)

/-- What a reporter gives when its inputs have these values. -/
def apply (s : Scene) (b : Block) (r : Reporter) (values : List Value) (w : World) :
    Value × World :=
  match r, values with
  | .unary _ f, [x] => (f.apply x, w)
  | .binary _ _ f, [x, y] => (f.apply x y, w)
  | .random _ _, [x, y] => (x.between y w.draw.1, w.draw.2)
  | .math, [x] => ((b.mathChoice?.map (·.apply x)).getD (.number 0), w)
  | .math, _ => (.number 0, w)
  | .reading r, _ => (Native.read r w s.target, w)
  | .keyPressed, [key] => (.bool (w.host.isKeyPressed key.toText), w)
  | .attributeOf, [object] =>
    (Native.lookUp w (b.fieldValue "PROPERTY").toText object.toText, w)
  | .var, _ =>
    match b.field? Recipe.variableField with
    | some f => (s.varValue w f.reference.id, w)
    | none => (.empty, w)
  | .list _ op, vs =>
    match b.field? Recipe.listField with
    | some f => onList s f.reference.id op vs w
    | none => (.empty, w)
  | .argument outside, _ => (s.argument (b.fieldValue "VALUE").toText outside, w)
  | _, _ => (.empty, w)

end Reporter

section

variable (blocks : BlockMap) (s : Scene)

/-- The value of an input, given the values of blocks. -/
def inputValue (value : String → World → Value × World) (b : Block) (name : String) (w : World) :
    Value × World :=
  match b.source blocks name with
  | .block id => value id w
  | .value v => (v, w)
  | .var r => (s.varValue w r.id, w)
  | .list r => (s.listText w r.id, w)
  | .nothing => (.empty, w)

/-- The values of some inputs, from left to right. -/
def inputValues (value : String → World → Value × World) (b : Block) :
    List String → World → List Value × World
  | [], w => ([], w)
  | name :: names, w =>
    let (v, w) := inputValue blocks s value b name w
    let (vs, w) := inputValues value b names w
    (v :: vs, w)

/-- The value of a block, which is followed to a bounded depth. What is no reporter is empty. -/
def evaluateTo : (depth : Nat) → String → World → Value × World
  | 0, _, w => (.empty, w)
  | depth + 1, id, w =>
    match blocks.get? id with
    | none => (.empty, w)
    | some b =>
      match Reporter.of? b.opcode with
      | none => (.empty, w)
      | some r =>
        let (vs, w) := inputValues blocks s (evaluateTo depth) b (r.inputs b) w
        r.apply s b vs w

/-- The value of a block. No chain of blocks without a repetition is longer than the map. -/
def evaluate (id : String) (w : World) : Value × World :=
  evaluateTo blocks s (blocks.size + 1) id w

end

/-! ### What an evaluation leaves alone -/

/-- Nothing happened but that random numbers were drawn. -/
def World.Draws (w w' : World) : Prop :=
  ∃ draws, w' = { w with host := { w.host with draws } }

lemma World.Draws.refl (w : World) : w.Draws w := ⟨w.host.draws, rfl⟩

lemma World.Draws.trans {w w' w'' : World} (h : w.Draws w') (k : w'.Draws w'') :
    w.Draws w'' := by
  obtain ⟨ds, rfl⟩ := h
  obtain ⟨es, rfl⟩ := k
  exact ⟨es, rfl⟩

lemma World.draws_draw (w : World) : w.Draws w.draw.2 := by
  unfold World.draw Host.draw
  rcases hd : w.host.draws with _ | ⟨x, _ | ⟨y, rest⟩⟩
  · exact .refl w
  · exact .refl w
  · exact ⟨y :: rest, rfl⟩

lemma Scene.draws_place (w : World) (index : Value) (length : Nat) (acceptAll : Bool) :
    w.Draws (Scene.place w index length acceptAll).2 := by
  unfold Scene.place
  split
  · exact w.draws_draw
  · exact .refl w

lemma Reporter.draws_onList (s : Scene) (id : String) (op : ListOp) (values : List Value)
    (w : World) : w.Draws (Reporter.onList s id op values w).2 := by
  unfold Reporter.onList
  split
  case h_3 => exact Scene.draws_place w _ _ _
  all_goals exact .refl w

lemma Reporter.draws_apply (s : Scene) (b : Block) (r : Reporter) (values : List Value)
    (w : World) : w.Draws (r.apply s b values w).2 := by
  unfold Reporter.apply
  split
  case h_3 => exact w.draws_draw
  case h_9 => split <;> exact .refl w
  case h_10 =>
    split
    · exact draws_onList s _ _ _ w
    · exact .refl w
  all_goals exact .refl w

section

variable {blocks : BlockMap} {s : Scene} {value : String → World → Value × World}

lemma draws_inputValue (hv : ∀ id (w : World), w.Draws (value id w).2) (b : Block) (name : String)
    (w : World) : w.Draws (inputValue blocks s value b name w).2 := by
  unfold inputValue
  split
  · exact hv _ w
  all_goals exact .refl w

lemma draws_inputValues (hv : ∀ id (w : World), w.Draws (value id w).2) (b : Block) (names : List String)
    (w : World) : w.Draws (inputValues blocks s value b names w).2 := by
  induction names generalizing w with
  | nil => exact .refl w
  | cons name names ih => exact (draws_inputValue hv b name w).trans (ih _)

@[simp] lemma length_inputValues (b : Block) (names : List String) (w : World) :
    (inputValues blocks s value b names w).1.length = names.length := by
  induction names generalizing w with
  | nil => rfl
  | cons name names ih => simp [inputValues, ih]

end

lemma draws_evaluateTo (blocks : BlockMap) (s : Scene) (depth : Nat) (id : String) (w : World) :
    w.Draws (evaluateTo blocks s depth id w).2 := by
  induction depth generalizing id w with
  | zero => exact .refl w
  | succ depth ih =>
    simp only [evaluateTo]
    split
    · exact .refl w
    · split
      · exact .refl w
      · exact (draws_inputValues ih _ _ w).trans (Reporter.draws_apply s _ _ _ _)


end Blockwork
