import Blockwork.Proofs.Compile.Repeatable
import Blockwork.Proofs.Value.Order

/-!
The tables of a compiler as one notion. Whatever is entered, a constant, a variable, a list, a custom
block or a native, is looked up among the entries of its table by its own sameness and put at their
end if it is not found. So no two entries of a table are the same, an entry stays where it is, and a
position tells two things apart just when they are not the same. This goes on through whole units,
which enter what they refer to and give bodies to custom blocks long after their places were handed
out.
-/

namespace Blockwork

/-! ### Entering one thing after the other -/

section

variable {α β : Type} {same : α → α → Bool}

/-- A table does not depend on how its entries are wrapped. -/
lemma intern_map {same' : β → β → Bool} {f : α → β} (h : ∀ x y, same' (f x) (f y) = same x y)
    (a : α) (table : List α) :
    intern same' (f a) (table.map f) = ((intern same a table).1, (intern same a table).2.map f) := by
  have hfind : (table.map f).findIdx? (same' · (f a)) = table.findIdx? (same · a) := by
    rw [List.findIdx?_map]
    exact congrArg (List.findIdx? · table) (funext fun x => h x a)
  rw [intern, intern, hfind]
  cases table.findIdx? (same · a) with
  | some i => rfl
  | none => simp

lemma intern_of_new {a : α} {table : List α} (h : ∀ x ∈ table, same x a = false) :
    intern same a table = (table.length, table ++ [a]) := by
  rw [intern, List.findIdx?_eq_none_iff.2 h]

lemma intern_of_found {a : α} {table : List α} (h : ∃ x ∈ table, same x a = true) :
    (intern same a table).2 = table := by
  obtain ⟨i, hi⟩ := Option.isSome_iff_exists.1 (List.findIdx?_isSome (p := (same · a)) ▸
    List.any_eq_true.2 h)
  rw [intern, hi]

/-- No two entries are the same. -/
def Distinct (same : α → α → Bool) (table : List α) : Prop :=
  table.Pairwise fun x y => same x y = false

lemma Distinct.intern {table : List α} (h : Distinct same table) (a : α) :
    Distinct same (intern same a table).2 := by
  by_cases hfound : ∃ x ∈ table, same x a = true
  · rwa [intern_of_found hfound]
  · have hnew : ∀ x ∈ table, same x a = false := by simpa using hfound
    rw [intern_of_new hnew]
    exact List.pairwise_append.2
      ⟨h, List.pairwise_singleton _ _, fun x hx y hy => List.mem_singleton.1 hy ▸ hnew x hx⟩

/-- Entering some things in turn. -/
def internAll (same : α → α → Bool) (table as : List α) : List α :=
  as.foldl (fun t a => (intern same a t).2) table

lemma internAll_of_distinct {table : List α} (h : Distinct same table) :
    internAll same [] table = table := by
  induction table using List.reverseRecOn with
  | nil => rfl
  | append_singleton table a ih =>
    obtain ⟨htable, -, hnew⟩ := List.pairwise_append.1 h
    rw [internAll, List.foldl_append]
    change (Blockwork.intern same a (internAll same [] table)).2 = table ++ [a]
    rw [ih htable, intern_of_new fun x hx => hnew x hx a (List.mem_singleton_self a)]

/-- What is entered in turn is kept when it is first seen. -/
lemma internAll_nil (hsymm : ∀ x y, same x y = same y x) (as : List α) :
    internAll same [] as = as.eraseDupsBy same := by
  have key : ∀ table : List α,
      internAll same table as = List.eraseDupsBy.loop same as table.reverse := by
    induction as with
    | nil => simp [internAll, List.eraseDupsBy.loop]
    | cons a as ih =>
      intro table
      change internAll same (Blockwork.intern same a table).2 as = _
      have hany : table.reverse.any (same a) = table.any (same · a) := by
        rw [List.any_reverse]
        exact congrArg table.any (funext fun x => hsymm a x)
      rw [ih, List.eraseDupsBy.loop, hany]
      cases hfound : table.any (same · a) with
      | true => rw [intern_of_found (List.any_eq_true.1 hfound)]
      | false =>
        rw [intern_of_new (by simpa using hfound), List.reverse_append]
        rfl
  exact key []

lemma internAll_eq (hsymm : ∀ x y, same x y = same y x) {table : List α}
    (h : Distinct same table) (as : List α) :
    internAll same table as = (table ++ as).eraseDupsBy same := by
  rw [← internAll_nil hsymm, internAll, internAll, List.foldl_append]
  exact congrArg (as.foldl _) (internAll_of_distinct h).symm

end

/-! ### The five tables -/

/-- What can be looked up in a table. -/
inductive Entry where
  | const (v : Value)
  | var (r : Reference)
  | list (r : Reference)
  | procedure (code : String)
  | native (n : Native)

namespace Entry

inductive Kind where
  | const | var | list | procedure | native
  deriving DecidableEq

/-- The table it belongs to. -/
def kind : Entry → Kind
  | .const _ => .const
  | .var _ => .var
  | .list _ => .list
  | .procedure _ => .procedure
  | .native _ => .native

/-- Identical values, references of one id, the same code, the same native. -/
def same : Entry → Entry → Bool
  | .const v, .const w => v.identical w
  | .var r, .var s => Compiler.sameId r s
  | .list r, .list s => Compiler.sameId r s
  | .procedure c, .procedure d => c == d
  | .native m, .native n => m == n
  | _, _ => false

/-- What is left when names do not count. -/
def nameless : Entry → Entry
  | .var r => .var { r with name := "" }
  | .list r => .list { r with name := "" }
  | e => e

variable {a b c : Entry}

lemma same_iff : a.same b = true ↔ a.nameless = b.nameless := by
  cases a <;> cases b <;> simp [same, nameless, Compiler.sameId, Value.identical_iff_eq]

lemma same_comm (a b : Entry) : a.same b = b.same a := by
  rw [Bool.eq_iff_iff, same_iff, same_iff, eq_comm]

lemma same_trans (h : a.same b = true) (k : b.same c = true) : a.same c = true :=
  same_iff.2 ((same_iff.1 h).trans (same_iff.1 k))

end Entry

/-- The entries of a table. -/
def Tables.entries (t : Tables) : Entry.Kind → List Entry
  | .const => t.constants.map .const
  | .var => t.vars.map .var
  | .list => t.lists.map .list
  | .procedure => t.procedureCodes.map .procedure
  | .native => t.natives.map .native

lemma Tables.Grows.entries {s t : Tables} (h : s.Grows t) (k : Entry.Kind) :
    s.entries k <+: t.entries k := by
  cases k with
  | const => exact h.constants.map _
  | var => exact h.vars.map _
  | list => exact h.lists.map _
  | procedure => exact h.codes.map _
  | native => exact h.natives.map _

namespace Compiler

/-- Asks for a position. A native is called at once. -/
def enter (c : Compiler) : Entry → Nat × Compiler
  | .const v => c.internConst v
  | .var r => c.internVariable r
  | .list r => c.internList r
  | .procedure code => c.internProcedure code
  | .native n => ((c.internNative n).1, c.callNative n)

lemma internProcedure_eq (c : Compiler) (code : String) :
    intern (· == ·) code c.tables.procedureCodes =
      ((c.internProcedure code).1, (c.internProcedure code).2.tables.procedureCodes) := by
  unfold intern internProcedure
  cases c.tables.procedureCodes.findIdx? (· == code) <;> rfl

/-- All tables are looked up and grow in one way. -/
lemma intern_entries (c : Compiler) (e : Entry) :
    intern Entry.same e (c.tables.entries e.kind) =
      ((c.enter e).1, (c.enter e).2.tables.entries e.kind) := by
  cases e with
  | const v => exact intern_map (fun _ _ => rfl) v c.tables.constants
  | var r => exact intern_map (fun _ _ => rfl) r c.tables.vars
  | list r => exact intern_map (fun _ _ => rfl) r c.tables.lists
  | procedure code =>
    have h : intern Entry.same (.procedure code) (c.tables.procedureCodes.map .procedure) =
        ((intern (· == ·) code c.tables.procedureCodes).1,
          (intern (· == ·) code c.tables.procedureCodes).2.map .procedure) :=
      intern_map (fun _ _ => rfl) code c.tables.procedureCodes
    rwa [internProcedure_eq] at h
  | native n => exact intern_map (fun _ _ => rfl) n c.tables.natives

lemma entries_enter_ne (c : Compiler) {e : Entry} {k : Entry.Kind} (h : k ≠ e.kind) :
    (c.enter e).2.tables.entries k = c.tables.entries k := by
  cases e with
  | procedure code =>
    change (c.internProcedure code).2.tables.entries k = _
    rcases internProcedure_cases c code with ⟨i, hi, -⟩ | ⟨-, hi⟩ <;> rw [hi]
    cases k <;> first | rfl | exact absurd rfl h
  | _ => cases k <;> first | rfl | exact absurd rfl h

lemma entries_enter (c : Compiler) (e : Entry) (k : Entry.Kind) :
    (c.enter e).2.tables.entries k =
      if e.kind = k then (intern Entry.same e (c.tables.entries k)).2 else c.tables.entries k := by
  split
  · next h => rw [← h, intern_entries]
  · next h => exact entries_enter_ne c (Ne.symm h)

lemma grows_enter (c : Compiler) (e : Entry) : c.tables.Grows (c.enter e).2.tables := by
  cases e with
  | const v => exact (emits_internConst c v).grows
  | var r => exact (emits_internVariable c r).grows
  | list r => exact (emits_internList c r).grows
  | procedure code => exact (emits_internProcedure c code).grows
  | native n =>
    obtain ⟨i, h, -⟩ := emits_callNative c n
    exact h.grows

/-- The position leads to an entry that is the same. -/
lemma get_enter (c : Compiler) (e : Entry) :
    ∃ x, ((c.enter e).2.tables.entries e.kind)[(c.enter e).1]? = some x ∧ x.same e = true := by
  obtain ⟨x, hx, hsame⟩ := get_intern Entry.same e (c.tables.entries e.kind)
  rw [intern_entries] at hx
  refine ⟨x, hx, ?_⟩
  rcases hsame with rfl | hsame
  · exact Entry.same_iff.2 rfl
  · exact hsame

/-! ### No entry stands twice -/

/-- No table has the same entry twice. -/
def Tidied (c : Compiler) : Prop := ∀ k, Distinct Entry.same (c.tables.entries k)

lemma tidied_new : new.Tidied := by
  intro k
  cases k <;> exact .nil

variable {c : Compiler}

lemma Tidied.congr {c' : Compiler} (h : c.Tidied) (htables : c'.tables = c.tables) : c'.Tidied := by
  rwa [Tidied, htables]

lemma Tidied.enter (h : c.Tidied) (e : Entry) : (c.enter e).2.Tidied := by
  intro k
  rw [entries_enter]
  split
  · exact (h k).intern e
  · exact h k

lemma Tidied.head (h : c.Tidied) (blocks : BlockMap) (b : Block) : (c.head blocks b).Tidied := by
  unfold Compiler.head
  cases (pluggedBlock? blocks b "custom_block").bind (·.mutation) with
  | none => exact h
  | some m =>
    have hdefine : (c.define (Signature.ofMutation m)).Tidied :=
      (h.enter (.procedure (Signature.ofMutation m).code)).congr rfl
    simp only
    split
    · exact hdefine.congr rfl
    · exact hdefine

/-- A unit enters what it refers to and no more. -/
lemma couples_tidied (blocks : BlockMap) :
    Couples blocks blocks (fun _ => True) fun c c' => c = c' ∧ c'.Tidied where
  emit := by
    rintro _ c op ⟨rfl, h⟩ -
    exact ⟨rfl, h.congr rfl⟩
  const := by
    rintro _ c v ⟨rfl, h⟩
    exact ⟨rfl, (h.enter (.const v)).congr rfl⟩
  callNative := by
    rintro _ c n ⟨rfl, h⟩ -
    exact ⟨rfl, h.enter (.native n)⟩
  internVariable := by
    rintro _ c r ⟨rfl, h⟩
    exact ⟨rfl, h.enter (.var r)⟩
  internList := by
    rintro _ c r ⟨rfl, h⟩
    exact ⟨rfl, h.enter (.list r)⟩
  variableOp := by
    rintro _ c op r ⟨rfl, h⟩
    exact ⟨rfl, (h.enter (.var r)).congr rfl⟩
  listOp := by
    rintro _ c op r ⟨rfl, h⟩
    exact ⟨rfl, (h.enter (.list r)).congr rfl⟩
  unsupported := by
    rintro _ c id ⟨rfl, h⟩
    exact ⟨rfl, h.congr (by rw [markUnsupported])⟩
  pause := by
    rintro _ c ⟨rfl, h⟩
    refine ⟨rfl, ?_⟩
    split
    · exact h
    · exact h.congr rfl
  head := by
    rintro _ c a b b' ⟨rfl, h⟩ - hb hb' -
    cases hb.symm.trans hb'
    exact ⟨rfl, h.head blocks b⟩
  definition := by
    rintro _ _ code ⟨rfl, h⟩
    exact ⟨rfl, h.congr (tables_definition _ code)⟩
  defaults := by
    rintro _ c code s i ⟨rfl, -⟩
    rfl
  internProcedure := by
    rintro _ c code ⟨rfl, h⟩
    exact ⟨rfl, h.enter (.procedure code)⟩
  callCode := by
    rintro _ c code ⟨rfl, h⟩
    exact ⟨rfl, (h.enter (.procedure code)).congr rfl⟩
  argumentIndex := by
    rintro _ c name ⟨rfl, -⟩
    rfl
  readArg := by
    rintro _ c i ⟨rfl, h⟩
    exact ⟨rfl, h.congr rfl⟩

lemma Tidied.install (h : c.Tidied) (s : Signature) (body : Code) : (c.install s body).Tidied := by
  have hin : (c.internProcedure s.code).2.Tidied := h.enter (.procedure s.code)
  unfold Compiler.install
  simp only
  split
  · -- a body that is filled in is no entry
    intro k
    have hk := hin k
    cases k <;> exact hk
  · exact hin

lemma Tidied.compile (h : c.Tidied) (blocks : BlockMap) (id : String) (mode : Mode) :
    (c.compile .builtin blocks id mode).2.Tidied := by
  have hstart : (c.fresh.emit .start).Tidied := h.congr rfl
  have hroot : _ ∧ ((c.fresh.emit .start).root .builtin blocks id mode).Tidied :=
    (couples_tidied blocks).root (.refl blocks) (BlockMap.closed_all blocks) trivial mode
      ⟨rfl, hstart⟩
  have hend : (((c.fresh.emit .start).root .builtin blocks id mode).emit .halt).Tidied :=
    hroot.2.congr rfl
  simp only [Compiler.compile]
  split
  · exact (hend.install _ _).congr rfl
  · exact hend.congr rfl

/-! ### A history of the compiler -/

/-- What a compiler may be asked to do. -/
inductive Task where
  /-- To give the position of an entry. -/
  | enter (e : Entry)
  /-- To compile a unit. -/
  | compile (blocks : BlockMap) (id : String) (mode : Mode)

def perform (c : Compiler) : Task → Compiler
  | .enter e => (c.enter e).2
  | .compile blocks id mode => (c.compile .builtin blocks id mode).2

def performAll (c : Compiler) (ts : List Task) : Compiler := ts.foldl perform c

/-- The positions that were given, each with what was asked for. -/
def answers (c : Compiler) : List Task → List (Entry × Nat)
  | [] => []
  | .enter e :: ts => (e, (c.enter e).1) :: (c.enter e).2.answers ts
  | t :: ts => (c.perform t).answers ts

lemma grows_perform (c : Compiler) (t : Task) : c.tables.Grows (c.perform t).tables := by
  cases t with
  | enter e => exact grows_enter c e
  | compile blocks id mode => exact grows_compile c blocks id mode

lemma grows_performAll (c : Compiler) (ts : List Task) :
    c.tables.Grows (c.performAll ts).tables := by
  induction ts generalizing c with
  | nil => exact .refl _
  | cons t ts ih => exact (grows_perform c t).trans (ih _)

lemma Tidied.performAll (h : c.Tidied) (ts : List Task) : (c.performAll ts).Tidied := by
  induction ts generalizing c with
  | nil => exact h
  | cons t ts ih =>
    refine ih ?_
    cases t with
    | enter e => exact h.enter e
    | compile blocks id mode => exact h.compile blocks id mode

/-- A position that was given leads to the same entry from then on. -/
lemma stands_of_mem {p : Entry × Nat} {ts : List Task} (h : p ∈ c.answers ts) :
    ∃ x, x.same p.1 = true ∧ ((c.performAll ts).tables.entries p.1.kind)[p.2]? = some x := by
  induction ts generalizing c with
  | nil => cases h
  | cons t ts ih =>
    cases t with
    | compile blocks id mode => exact ih h
    | enter e =>
      rcases List.mem_cons.1 h with rfl | h
      · obtain ⟨x, hx, hsame⟩ := get_enter c e
        exact ⟨x, hsame, get?_mono ((grows_performAll _ ts).entries e.kind) hx⟩
      · exact ih h

lemma Tidied.position_eq (h : c.Tidied) {k : Entry.Kind} {i j : Nat} {x y : Entry}
    (hx : (c.tables.entries k)[i]? = some x) (hy : (c.tables.entries k)[j]? = some y)
    (hsame : x.same y = true) : i = j := by
  obtain ⟨hi, rfl⟩ := List.getElem?_eq_some_iff.1 hx
  obtain ⟨hj, rfl⟩ := List.getElem?_eq_some_iff.1 hy
  have hdistinct := List.pairwise_iff_getElem.1 (h k)
  rcases lt_trichotomy i j with hlt | heq | hgt
  · rw [hdistinct i j hi hj hlt] at hsame
    cases hsame
  · exact heq
  · rw [Entry.same_comm, hdistinct j i hj hi hgt] at hsame
    cases hsame

lemma entries_performAll_enter (c : Compiler) (es : List Entry) (k : Entry.Kind) :
    (c.performAll (es.map .enter)).tables.entries k =
      internAll Entry.same (c.tables.entries k) (es.filter (·.kind = k)) := by
  induction es generalizing c with
  | nil => rfl
  | cons e es ih =>
    rw [List.map_cons]
    change ((c.enter e).2.performAll (es.map .enter)).tables.entries k = _
    rw [ih, entries_enter, List.filter_cons]
    by_cases hk : e.kind = k
    · rw [if_pos hk, if_pos (decide_eq_true hk)]
      rfl
    · rw [if_neg hk, if_neg (by simpa using hk)]

/-- **Positions tell entries apart.** Whatever a compiler was asked for, and whatever it compiled in
between, no entry stands twice in a table and every custom block has a place for its body. A
position that was given leads to an entry that is the same as what was asked for and stays there, two
positions in one table are equal just when the same was asked for, and what is entered next is kept
in the order in which it is first seen. -/
theorem positions_of_entries (ts : List Task) :
    (∀ k, ((new.performAll ts).tables.entries k).Pairwise fun x y => x.same y = false) ∧
    (new.performAll ts).tables.procedures.length =
      (new.performAll ts).tables.procedureCodes.length ∧
    (∀ p ∈ new.answers ts, ∃ x, x.same p.1 = true ∧ ∀ later,
      (((new.performAll ts).performAll later).tables.entries p.1.kind)[p.2]? = some x) ∧
    (∀ p ∈ new.answers ts, ∀ q ∈ new.answers ts, p.1.kind = q.1.kind →
      (p.2 = q.2 ↔ p.1.same q.1 = true)) ∧
    ∀ (es : List Entry) (k : Entry.Kind),
      ((new.performAll ts).performAll (es.map .enter)).tables.entries k =
        ((new.performAll ts).tables.entries k ++ es.filter (·.kind = k)).eraseDupsBy
          Entry.same := by
  have hnew := tidied_new.performAll ts
  refine ⟨hnew, ((grows_performAll .new ts).tidy Tables.tidy_empty).aligned, ?stands, ?apart, ?order⟩
  case stands =>
    intro p hp
    obtain ⟨x, hsame, hx⟩ := stands_of_mem hp
    exact ⟨x, hsame, fun later => get?_mono ((grows_performAll _ later).entries _) hx⟩
  case apart =>
    intro p hp q hq hk
    obtain ⟨x, hxp, hx⟩ := stands_of_mem hp
    obtain ⟨y, hyq, hy⟩ := stands_of_mem hq
    rw [← hk] at hy
    constructor
    · intro heq
      rw [heq] at hx
      obtain rfl : x = y := Option.some.inj (hx.symm.trans hy)
      exact Entry.same_trans (Entry.same_comm x p.1 ▸ hxp) hyq
    · intro hsame
      exact hnew.position_eq hx hy
        (Entry.same_trans (Entry.same_trans hxp hsame) (Entry.same_comm y q.1 ▸ hyq))
  case order =>
    intro es k
    rw [entries_performAll_enter, internAll_eq Entry.same_comm (hnew k)]

/-- A number and the text of it have two places, two names of one variable have one. -/
theorem positions_of_entries_renamed :
    let ts : List Task := [.enter (.const (.number 10)), .enter (.var ⟨"lives", "v"⟩),
      .enter (.const (.text "10")), .enter (.var ⟨"health", "v"⟩)]
    (new.answers ts).map (·.2) = [0, 0, 1, 0] ∧
    (Entry.const (.number 10)).same (.const (.text "10")) = false ∧
    (Entry.var ⟨"lives", "v"⟩).same (.var ⟨"health", "v"⟩) = true := by
  intro ts
  have hanswers : new.answers ts = [(.const (.number 10), 0), (.var ⟨"lives", "v"⟩, 0),
      (.const (.text "10"), 1), (.var ⟨"health", "v"⟩, 0)] := rfl
  obtain ⟨-, -, -, hapart, -⟩ := positions_of_entries ts
  rw [hanswers] at hapart ⊢
  refine ⟨rfl, ?_, ?_⟩
  · refine Bool.eq_false_iff.2 fun hsame => ?_
    have heq : (0 : Nat) = 1 := (hapart (.const (.number 10), 0) (by simp)
      (.const (.text "10"), 1) (by simp) rfl).2 hsame
    cases heq
  · exact (hapart (.var ⟨"lives", "v"⟩, 0) (by simp) (.var ⟨"health", "v"⟩, 0) (by simp) rfl).1 rfl

end Compiler

end Blockwork
