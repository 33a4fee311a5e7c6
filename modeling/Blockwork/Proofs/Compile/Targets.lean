import Blockwork.Proofs.Compile.Units

/-!
The units of one target, in the order in which they are compiled: first the scripts of the heads of
custom blocks, then each hat with its condition. Every routine of a script is one of them, and a custom
block has for its body the code of the first unit that ends with its signature in force.
-/

namespace Blockwork

namespace Compiler

/-- What is compiled for a hat. -/
def hatUnits (e : String × Block) : List (String × Mode) :=
  if (Palette.builtin.predicate? e.2.opcode).isSome then [(e.1, .script), (e.1, .predicate)]
  else [(e.1, .script)]

/-- What is compiled for a target. -/
def targetUnits (blocks : BlockMap) : List (String × Mode) :=
  scriptsOf (Engine.rootsWhere (·.opcode == "procedures_definition") blocks) ++
    (Engine.rootsWhere (Palette.builtin.isHat ·.opcode) blocks).flatMap hatUnits

/-- The compiler comes to a unit on its way through some units. -/
def Meets (blocks : BlockMap) (start : Compiler) (units : List (String × Mode)) (c : Compiler)
    (id : String) (mode : Mode) : Prop :=
  ∃ before after, units = before ++ (id, mode) :: after ∧ c = start.compileAll .builtin blocks before

section

variable {blocks : BlockMap} {start c : Compiler} {units : List (String × Mode)} {id : String}
  {mode : Mode}

lemma compileAll_append (blocks : BlockMap) (c : Compiler) (xs ys : List (String × Mode)) :
    c.compileAll .builtin blocks (xs ++ ys) =
      (c.compileAll .builtin blocks xs).compileAll .builtin blocks ys :=
  List.foldl_append

lemma Meets.after (more : List (String × Mode))
    (h : Meets blocks (start.compileAll .builtin blocks more) units c id mode) :
    Meets blocks start (more ++ units) c id mode := by
  obtain ⟨before, after, rfl, rfl⟩ := h
  exact ⟨more ++ before, after, by simp, (compileAll_append blocks start more before).symm⟩

lemma Meets.grows (h : Meets blocks start units c id mode) :
    (c.compile .builtin blocks id mode).2.tables.Grows
      (start.compileAll .builtin blocks units).tables := by
  obtain ⟨before, after, rfl, rfl⟩ := h
  rw [compileAll_append]
  exact grows_compileAll _ blocks after

/-! ### Bodies -/

/-- A unit gives at most one body: its own code, to the custom block that is in force at its end. -/
lemma body_of_compile {i : Nat} {body : Code}
    (h : (c.compile .builtin blocks id mode).2.tables.procedures[i]? = some (some body)) :
    c.tables.procedures[i]? = some (some body) ∨
      ∃ s, c.prototype? .builtin blocks id mode = some s ∧
        body = (c.compile .builtin blocks id mode).1 ∧
        (c.compile .builtin blocks id mode).2.tables.procedureCodes[i]? = some s.code := by
  have hold := (composes_bodies blocks).listing c id mode i body
  simp only [Compiler.compile] at h ⊢
  split at h
  · next s hs =>
    rcases body_of_install h with h' | hbody
    · exact .inl (hold h')
    · rcases bodies_install h with h' | hcode
      · exact .inl (hold h')
      · exact .inr ⟨s, hs, hbody, hcode⟩
  · exact .inl (hold h)

/-- Every body is the code of a unit that ends with the signature of the custom block in force. -/
lemma body_of_compileAll {i : Nat} {body : Code}
    (h : (start.compileAll .builtin blocks units).tables.procedures[i]? = some (some body)) :
    start.tables.procedures[i]? = some (some body) ∨
      ∃ c id mode s, Meets blocks start units c id mode ∧
        c.prototype? .builtin blocks id mode = some s ∧
        body = (c.compile .builtin blocks id mode).1 ∧
        (start.compileAll .builtin blocks units).tables.procedureCodes[i]? = some s.code := by
  induction units generalizing start with
  | nil => exact .inl h
  | cons u rest ih =>
    obtain ⟨id, mode⟩ := u
    rcases ih h with h' | ⟨c, id', mode', s, hm, hs, hbody, hcode⟩
    · rcases body_of_compile h' with h' | ⟨s, hs, hbody, hcode⟩
      · exact .inl h'
      · have hgrows := grows_compileAll (start.compile .builtin blocks id mode).2 blocks rest
        exact .inr ⟨start, id, mode, s, ⟨[], rest, rfl, rfl⟩, hs, hbody, get?_mono hgrows.codes hcode⟩
    · exact .inr ⟨c, id', mode', s, hm.after [(id, mode)], hs, hbody, hcode⟩

/-! ### Hats -/

/-- The code of a compiled hat and of its condition comes from units. -/
structure FromUnits (blocks : BlockMap) (start : Compiler) (units : List (String × Mode))
    (h : Engine.CompiledHat) : Prop where
  main : ∃ c id, Meets blocks start units c id .script ∧ h.main = (c.compile .builtin blocks id .script).1
  predicate : ∀ code, h.predicate = some code →
    ∃ c id, Meets blocks start units c id .predicate ∧
      code = (c.compile .builtin blocks id .predicate).1

lemma compileHats_units (blocks : BlockMap) (c : Compiler) (entries : List (String × Block)) :
    (Engine.compileHats .builtin blocks entries c).2 =
        c.compileAll .builtin blocks (entries.flatMap hatUnits) ∧
      ∀ h ∈ (Engine.compileHats .builtin blocks entries c).1,
        FromUnits blocks c (entries.flatMap hatUnits) h := by
  induction entries generalizing c with
  | nil => exact ⟨rfl, by simp [Engine.compileHats]⟩
  | cons e rest ih =>
    obtain ⟨id, b⟩ := e
    have hrest := ih (c.compileAll .builtin blocks (hatUnits (id, b)))
    have hlater : ∀ h, FromUnits blocks (c.compileAll .builtin blocks (hatUnits (id, b)))
        (rest.flatMap hatUnits) h → FromUnits blocks c (hatUnits (id, b) ++ rest.flatMap hatUnits) h :=
      fun h hh => ⟨hh.main.imp fun _ => .imp fun _ hm => ⟨hm.1.after _, hm.2⟩,
        fun code hcode => (hh.predicate code hcode).imp fun _ => .imp fun _ hm => ⟨hm.1.after _, hm.2⟩⟩
    simp only [Engine.compileHats, List.flatMap_cons, compileAll_append]
    by_cases hp : (Palette.builtin.predicate? b.opcode).isSome
    · have hunits : hatUnits (id, b) = [(id, .script), (id, .predicate)] := if_pos hp
      rw [hunits] at hrest hlater ⊢
      simp only [hp, if_true]
      refine ⟨hrest.1, List.forall_mem_cons.2 ⟨⟨⟨c, id, ⟨[], _, rfl, rfl⟩, rfl⟩, ?_⟩,
        fun h hh => hlater h (hrest.2 h hh)⟩⟩
      rintro code hcode
      cases hcode
      exact ⟨_, id, ⟨[(id, .script)], _, rfl, rfl⟩, rfl⟩
    · have hunits : hatUnits (id, b) = [(id, .script)] := if_neg hp
      rw [hunits] at hrest hlater ⊢
      simp only [hp]
      exact ⟨hrest.1, List.forall_mem_cons.2 ⟨⟨⟨c, id, ⟨[], _, rfl, rfl⟩, rfl⟩, by simp⟩,
        fun h hh => hlater h (hrest.2 h hh)⟩⟩

end

end Compiler

/-- Hats that start on a condition have one. -/
lemma Palette.predicate_of_edge {b : Block} (hhat : builtin.isHat b.opcode = true)
    (hedge : Hat.ofBlock b = .edge) : (builtin.predicate? b.opcode).isSome := by
  have hothers : ∀ s ∈ builtin.sections, ∀ op ∈ s.hats, op ∈ ["event_whenflagclicked",
      "event_whenbroadcastreceived", "control_start_as_clone", "event_whenkeypressed",
      "event_whenthisspriteclicked", "event_whenstageclicked"] := by
    decide
  obtain ⟨s, hs, hmem⟩ := List.any_eq_true.1 hhat
  rcases Bool.or_eq_true_iff.1 hmem with hmem | hmem
  · have hop := hothers s hs b.opcode (List.contains_iff_mem.1 hmem)
    simp only [List.mem_cons, List.not_mem_nil, or_false] at hop
    rcases hop with hop | hop | hop | hop | hop | hop <;> simp [Hat.ofBlock, hop] at hedge
  · rw [predicate?, List.findSome?_isSome_iff]
    exact ⟨s, hs, hmem⟩

lemma Engine.hat_of_compileHats {blocks : BlockMap} {c : Compiler} {entries : List (String × Block)}
    {h : CompiledHat} (hh : h ∈ (compileHats .builtin blocks entries c).1) :
    ∃ e ∈ entries, h.hat = Hat.ofBlock e.2 ∧
      h.predicate.isSome = (Palette.builtin.predicate? e.2.opcode).isSome := by
  induction entries generalizing c with
  | nil => cases hh
  | cons e rest ih =>
    obtain ⟨id, b⟩ := e
    simp only [compileHats, List.mem_cons] at hh
    rcases hh with rfl | hh
    · refine ⟨(id, b), List.mem_cons_self, rfl, ?_⟩
      cases (Palette.builtin.predicate? b.opcode).isSome <;> rfl
    · obtain ⟨e, he, heq⟩ := ih hh
      exact ⟨e, List.mem_cons_of_mem _ he, heq⟩

lemma Engine.predicate_of_mem {blocks : BlockMap} {target : TargetId} {s : Script}
    (hs : s ∈ (Engine.compileTarget .builtin target blocks).1) (hedge : s.hat = .edge) :
    s.program.predicate.isSome := by
  obtain ⟨h, hmem, rfl⟩ := List.mem_map.1 hs
  obtain ⟨e, he, hhat, hpredicate⟩ := hat_of_compileHats hmem
  have hroot := (List.mem_filter.1 he).2
  simp only [Bool.and_eq_true] at hroot
  exact hpredicate.trans (Palette.predicate_of_edge hroot.2 (hhat.symm.trans hedge))

open Compiler in
/-- The tables of a script are what the units of its target leave. -/
lemma Engine.tables_of_mem {blocks : BlockMap} {target : TargetId} {s : Script}
    (hs : s ∈ (Engine.compileTarget .builtin target blocks).1) :
    s.program.tables = (Compiler.new.compileAll .builtin blocks (targetUnits blocks)).tables := by
  obtain ⟨h, -, rfl⟩ := List.mem_map.1 hs
  simp only [(compileHats_units blocks _ _).1, compileDefinitions_eq, targetUnits, compileAll_append]

open Compiler in
/-- Every routine of a script is a unit of its target; a body belongs to its custom block. -/
lemma Engine.meets_of_mem {blocks : BlockMap} {target : TargetId} {s : Script}
    (hs : s ∈ (Engine.compileTarget .builtin target blocks).1) {r : Routine} {code : Code}
    (hr : s.program.code? r = some code) :
    ∃ c id mode, Meets blocks .new (targetUnits blocks) c id mode ∧
      code = (c.compile .builtin blocks id mode).1 ∧
      ∀ i, r = .procedure i → ∃ sig, c.prototype? .builtin blocks id mode = some sig ∧
        s.program.tables.procedureCodes[i]? = some sig.code := by
  have htables := tables_of_mem hs
  obtain ⟨h, hmem, rfl⟩ := List.mem_map.1 hs
  have hhat := (compileHats_units blocks _ _).2 h hmem
  rw [compileDefinitions_eq] at hhat
  cases r with
  | main =>
    obtain ⟨c, id, hm, hcode⟩ := hhat.main
    cases hr
    exact ⟨c, id, .script, hm.after _, hcode, by simp⟩
  | predicate =>
    obtain ⟨c, id, hm, hcode⟩ := hhat.predicate code hr
    exact ⟨c, id, .predicate, hm.after _, hcode, by simp⟩
  | procedure i =>
    have hbody := Option.join_eq_some_iff.1 hr
    rw [htables] at hbody ⊢
    rcases body_of_compileAll hbody with hnew | ⟨c, id, mode, sig, hm, hs, hcode, hplace⟩
    · simp [Compiler.new] at hnew
    · exact ⟨c, id, mode, hm, hcode, fun _ hi => by cases hi; exact ⟨sig, hs, hplace⟩⟩

end Blockwork
