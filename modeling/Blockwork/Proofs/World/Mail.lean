import Blockwork.Thread
import Mathlib.Tactic.Lemma

/-!
What passes between threads and the engine: questions, requests and promises. Almost all that is done
to a world leaves them alone; and nothing that is done to a world makes new blocks.
-/

namespace Blockwork

/-! ### The blocks of an arena -/

namespace Arena

/-- Some target has these blocks. -/
def HasBlocks (a : Arena) (blocks : BlockMap) : Prop :=
  ∃ e ∈ a.entries, ∃ t, e.target = some t ∧ t.blocks = blocks

/-- All blocks of the second arena are in the first. -/
def Covers (a a' : Arena) : Prop := ∀ blocks, a'.HasBlocks blocks → a.HasBlocks blocks

lemma Covers.refl (a : Arena) : a.Covers a := fun _ h => h

lemma Covers.trans {a b c : Arena} (h : a.Covers b) (k : b.Covers c) : a.Covers c :=
  fun blocks hb => h blocks (k blocks hb)

lemma hasBlocks_of_live {a : Arena} {x : TargetId × Target} (h : x ∈ a.live) :
    a.HasBlocks x.2.blocks := by
  obtain ⟨⟨e, i⟩, hmem, he⟩ := List.mem_filterMap.1 h
  obtain ⟨t, ht, rfl⟩ := Option.map_eq_some_iff.1 he
  exact ⟨e, List.fst_mem_of_mem_zipIdx hmem, t, ht, rfl⟩

lemma hasBlocks_of_get? {a : Arena} {id : TargetId} {t : Target} (h : a.get? id = some t) :
    a.HasBlocks t.blocks := by
  unfold get? at h
  split at h
  · next e he =>
    split at h
    · exact ⟨e, List.mem_of_getElem? he, t, h, rfl⟩
    · cases h
  · cases h

/-- A new entry brings only the blocks of its target. -/
lemma hasBlocks_set {a : Arena} {i : Nat} {e : Entry} {free : List Nat} {blocks : BlockMap}
    (h : HasBlocks ⟨a.entries.set i e, free⟩ blocks) :
    a.HasBlocks blocks ∨ ∃ t, e.target = some t ∧ t.blocks = blocks := by
  obtain ⟨x, hx, t, ht, hb⟩ := h
  rcases List.mem_or_eq_of_mem_set hx with hx | rfl
  · exact Or.inl ⟨x, hx, t, ht, hb⟩
  · exact Or.inr ⟨t, ht, hb⟩

lemma covers_modify (a : Arena) (id : TargetId) {f : Target → Target}
    (hf : ∀ t, a.get? id = some t → (f t).blocks = t.blocks) : a.Covers (a.modify id f) := by
  intro blocks h
  unfold modify at h
  split at h
  · next t ht =>
    rcases hasBlocks_set h with h | ⟨t', ht', rfl⟩
    · exact h
    · cases ht'
      rw [hf t ht]
      exact hasBlocks_of_get? ht
  · exact h

lemma hasBlocks_insert {a : Arena} {t : Target} {blocks : BlockMap}
    (h : (a.insert t).2.HasBlocks blocks) : a.HasBlocks blocks ∨ t.blocks = blocks := by
  unfold insert at h
  split at h
  · rcases hasBlocks_set h with h | ⟨t', ht', rfl⟩
    · exact Or.inl h
    · cases ht'
      exact Or.inr rfl
  · obtain ⟨e, he, t', ht', hb⟩ := h
    rcases List.mem_append.1 he with he | he
    · exact Or.inl ⟨e, he, t', ht', hb⟩
    · cases List.mem_singleton.1 he
      cases ht'
      exact Or.inr hb

lemma remove_eq (a : Arena) (id : TargetId) : a.remove id =
    if a.contains id then
      ⟨a.entries.set id.index ⟨id.generation + 1, none⟩, id.index :: a.free⟩
    else a := by
  unfold remove take contains
  cases a.get? id <;> rfl

lemma covers_remove (a : Arena) (id : TargetId) : a.Covers (a.remove id) := by
  intro blocks h
  rw [remove_eq] at h
  split at h
  · rcases hasBlocks_set h with h | ⟨t, ht, -⟩
    · exact h
    · cases ht
  · exact h

lemma covers_resolveVariable (a : Arena) (target : TargetId) (r : Reference) :
    a.Covers (a.resolveVariable target r).2 := by
  unfold resolveVariable
  split
  · exact .refl a
  · exact covers_modify a _ fun _ _ => rfl

lemma covers_resolveList (a : Arena) (target : TargetId) (r : Reference) :
    a.Covers (a.resolveList target r).2 := by
  unfold resolveList
  split
  · exact .refl a
  · exact covers_modify a _ fun _ _ => rfl

end Arena

/-! ### Promises -/

namespace Promise.Ledger

lemma lt_of_isPending {l : Ledger} {p : Promise} (h : l.isPending p = true) :
    p.index < l.states.size := by
  rcases Nat.lt_or_ge p.index l.states.size with hp | hp
  · exact hp
  · simp [isPending, state, Array.getD, Nat.not_lt.2 hp] at h

/-- A new promise is none of the old ones. -/
lemma ne_make {l : Ledger} {p : Promise} (h : p.index < l.states.size) : p ≠ l.make.1 := by
  rintro rfl
  exact Nat.lt_irrefl _ h

lemma size_make (l : Ledger) : l.make.2.states.size = l.states.size + 1 := Array.size_push _

/-- A promise is pending when it is made, and makes no difference to the others. -/
lemma isPending_make (l : Ledger) (p : Promise) :
    l.make.2.isPending p = true ↔ p = l.make.1 ∨ l.isPending p = true := by
  obtain ⟨i⟩ := p
  simp only [make, isPending, state, Array.getD_eq_getD_getElem?, Array.getElem?_push, Promise.mk.injEq]
  by_cases hi : i = l.states.size <;> simp [hi]

/-- A promise that is pending gets its outcome, and the others keep theirs. -/
lemma state_settle (l : Ledger) (p q : Promise) (s : State) :
    (l.settle p s).state q = if l.isPending p = true ∧ q = p then s else l.state q := by
  obtain ⟨i⟩ := p
  obtain ⟨j⟩ := q
  unfold settle
  split
  · next hp =>
    have hi : i < l.states.size := lt_of_isPending hp
    by_cases hj : j = i
    · subst hj
      simp [state, hi, hp]
    · simp [state, hj, Array.getElem?_setIfInBounds_ne (Ne.symm hj)]
  · next hp => simp [hp]

/-- Only the promise itself is settled. -/
lemma isPending_settle {s : State} (hs : s ≠ .pending) (l : Ledger) (p q : Promise) :
    (l.settle p s).isPending q = true ↔ l.isPending q = true ∧ q ≠ p := by
  obtain ⟨i⟩ := p
  obtain ⟨j⟩ := q
  unfold settle
  split
  · next h =>
    have hi : i < l.states.size := lt_of_isPending h
    simp only [isPending, state, Array.getD_eq_getD_getElem?, Array.getElem?_setIfInBounds, ne_eq,
      Promise.mk.injEq]
    by_cases hj : i = j
    · subst hj
      simp [hi, hs]
    · simp [hj, Ne.symm hj]
  · next h =>
    constructor
    · intro hq
      refine ⟨hq, ?_⟩
      rintro ⟨⟩
      exact h hq
    · exact And.left

lemma isPending_cancel (l : Ledger) (p q : Promise) :
    (l.cancel p).isPending q = true ↔ l.isPending q = true ∧ q ≠ p :=
  isPending_settle (by simp) l p q

lemma isPending_resolve (l : Ledger) (p q : Promise) :
    (l.resolve p).isPending q = true ↔ l.isPending q = true ∧ q ≠ p :=
  isPending_settle (by simp) l p q

lemma size_settle (l : Ledger) (p : Promise) (s : State) :
    (l.settle p s).states.size = l.states.size := by
  unfold settle
  split <;> simp

end Promise.Ledger

/-! ### Mail -/

/-- The promise that the sender waits for. -/
def Request.promise? : Request → Option Promise
  | .broadcast _ p => p
  | _ => none

/-- The questions not yet answered, the requests not yet done, and what became of the promises. -/
structure Mail where
  questions : List Question
  requests : List Request
  promises : Promise.Ledger

namespace World

def mail (w : World) : Mail := ⟨w.questions, w.requests, w.promises⟩

@[simp] lemma mail_draw (w : World) : w.draw.2.mail = w.mail := rfl

@[simp] lemma mail_resetTimer (w : World) : w.resetTimer.mail = w.mail := rfl

@[simp] lemma mail_modifyTarget (w : World) (id : TargetId) (f : Target → Target) :
    (w.modifyTarget id f).mail = w.mail := rfl

@[simp] lemma mail_request (w : World) (r : Request) :
    (w.request r).mail = ⟨w.questions, w.requests ++ [r], w.promises⟩ := rfl

@[simp] lemma mail_newPromise (w : World) :
    w.newPromise.2.mail = ⟨w.questions, w.requests, w.promises.make.2⟩ := rfl

@[simp] lemma mail_setBubble (w : World) (id : TargetId) (kind : BubbleKind) (text : String) :
    (w.setBubble id kind text).mail = w.mail := by
  unfold setBubble
  split <;> rfl

lemma covers_setBubble (w : World) (id : TargetId) (kind : BubbleKind) (text : String) :
    w.targets.Covers (w.setBubble id kind text).targets := by
  unfold setBubble
  split
  · exact .refl _
  · next t ht =>
    refine Arena.covers_modify _ _ fun t' ht' => ?_
    rw [ht, Option.some.injEq] at ht'
    subst ht'
    rfl

@[simp] lemma mail_announce (w : World) : w.announce.mail = w.mail := by
  unfold announce
  split
  · rfl
  · next q rest hq =>
    split
    · exact mail_setBubble w q.target .say q.text
    · rfl

lemma covers_announce (w : World) : w.targets.Covers w.announce.targets := by
  unfold announce
  split
  · exact .refl _
  · split
    · exact covers_setBubble w _ _ _
    · exact .refl _

@[simp] lemma mail_withdraw (w : World) (q : Question) : (w.withdraw q).mail = w.mail := by
  unfold withdraw
  split
  · exact mail_setBubble w _ _ _
  · rfl

lemma covers_withdraw (w : World) (q : Question) : w.targets.Covers (w.withdraw q).targets := by
  unfold withdraw
  split
  · exact covers_setBubble w _ _ _
  · exact .refl _

lemma mail_ask (w : World) (target : TargetId) (text : String) (p : Promise) :
    (w.ask target text p).mail = ⟨w.questions ++ [⟨text, target, p, w.isVisibleSprite target⟩],
      w.requests, w.promises⟩ := by
  unfold ask
  simp only
  split
  · rw [mail_announce]
    rfl
  · rfl

lemma covers_ask (w : World) (target : TargetId) (text : String) (p : Promise) :
    w.targets.Covers (w.ask target text p).targets := by
  unfold ask
  simp only
  split
  · exact covers_announce _
  · exact .refl _

/-- An answer settles the first question. -/
lemma mail_answerQuestion (w : World) (answer : String) : (w.answerQuestion answer).mail =
    match w.questions with
    | [] => w.mail
    | q :: rest => ⟨rest, w.requests, w.promises.resolve q.promise⟩ := by
  cases h : w.questions with
  | nil => simp [answerQuestion, mail, h]
  | cons q rest =>
    have hmail := mail_withdraw { w with answer, questions := rest } q
    simp only [answerQuestion, h, mail_announce]
    exact congrArg (fun x : Mail => Mail.mk x.questions x.requests (x.promises.resolve q.promise)) hmail

lemma covers_answerQuestion (w : World) (answer : String) :
    w.targets.Covers (w.answerQuestion answer).targets := by
  unfold answerQuestion
  simp only
  split
  · exact .refl _
  · next q rest _ =>
    exact (covers_withdraw { w with answer, questions := rest } q).trans (covers_announce _)

/-- Dropping the question of a promise leaves the others. -/
lemma mail_abortPromise (w : World) (p : Promise) : (w.abortPromise p).mail =
    ⟨w.questions.eraseP (·.promise == p), w.requests, w.promises⟩ := by
  unfold abortPromise
  split
  · next h => simp [mail, h]
  · next q rest h =>
    split
    · next hq =>
      rw [mail_announce, h, List.eraseP_cons_of_pos (p := fun x : Question => x.promise == p) hq]
      exact mail_withdraw { w with questions := rest } q
    · next hq =>
      rw [h, List.eraseP_cons_of_neg (p := fun x : Question => x.promise == p) hq]
      rfl

lemma covers_abortPromise (w : World) (p : Promise) :
    w.targets.Covers (w.abortPromise p).targets := by
  unfold abortPromise
  split
  · exact .refl _
  · next q rest _ =>
    split
    · exact (covers_withdraw { w with questions := rest } q).trans (covers_announce _)
    · exact .refl _

/-- A clone asks for its scripts to be started, and for nothing else. -/
lemma mail_createClone (w : World) (id : TargetId) : (w.createClone id).2.mail = w.mail ∨
    ∃ clone, (w.createClone id).2.mail =
      ⟨w.questions, w.requests ++ [.startClone clone], w.promises⟩ := by
  unfold createClone
  repeat' split
  · exact Or.inl rfl
  · exact Or.inl rfl
  · exact Or.inl rfl
  · exact Or.inr ⟨_, rfl⟩

lemma covers_createClone (w : World) (id : TargetId) :
    w.targets.Covers (w.createClone id).2.targets := by
  unfold createClone
  split
  · exact .refl _
  · split
    · exact .refl _
    · next t ht =>
      split
      · exact .refl _
      · intro blocks h
        rcases Arena.hasBlocks_insert h with h | rfl
        · exact h
        · exact (Arena.hasBlocks_of_get? ht : w.targets.HasBlocks t.blocks)

lemma mail_deleteClone (w : World) (id : TargetId) : (w.deleteClone id).mail = w.mail ∨
    (w.deleteClone id).mail = ⟨w.questions, w.requests ++ [.killThreadsOf id], w.promises⟩ := by
  unfold deleteClone
  repeat' split
  · exact Or.inl rfl
  · exact Or.inr rfl
  · exact Or.inr rfl
  · exact Or.inl rfl

lemma covers_deleteClone (w : World) (id : TargetId) :
    w.targets.Covers (w.deleteClone id).targets := by
  unfold deleteClone
  split
  · exact .refl _
  · split
    · exact Arena.covers_remove _ _
    · exact .refl _

end World

/-! ### Threads -/

lemma Machine.covers_resolveAll {resolve : Arena → TargetId → Reference → Slot × Arena}
    (h : ∀ (a : Arena) target r, a.Covers (resolve a target r).2) (target : TargetId) (a : Arena)
    (rs : List Reference) : a.Covers (resolveAll resolve target a rs).2 := by
  induction rs generalizing a with
  | nil => exact .refl a
  | cons r rs ih => exact (h a target r).trans (ih _)

namespace Thread

variable (id : ThreadId) (script : Nat) (p : Program) (target : TargetId) (t : Thread) (w : World)

@[simp] lemma mail_new : (new id script p target w).2.mail = w.mail := rfl

lemma covers_new : w.targets.Covers (new id script p target w).2.targets :=
  (Machine.covers_resolveAll Arena.covers_resolveVariable _ _ _).trans
    (Machine.covers_resolveAll Arena.covers_resolveList _ _ _)

/-- What is dropped with a promise that a thread waits for. -/
lemma mail_releasePromise : (t.releasePromise w).mail =
    match t.pendingPromise? w with
    | some p => ⟨w.questions.eraseP (·.promise == p), w.requests, w.promises.cancel p⟩
    | none => w.mail := by
  unfold releasePromise
  cases t.pendingPromise? w with
  | some p => exact World.mail_abortPromise _ p
  | none => rfl

lemma covers_releasePromise : w.targets.Covers (t.releasePromise w).targets := by
  unfold releasePromise
  split
  · exact World.covers_abortPromise _ _
  · exact .refl _

end Thread

end Blockwork
