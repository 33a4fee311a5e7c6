import Blockwork.Proofs.World.Layout
import Mathlib.Data.List.Nodup
import Mathlib.Data.List.Perm.Basic

/-!
Questions take turns. A record is kept of what became of each question: it is answered, called off while
it is being asked, called off while it waits, or it is still in the queue. The host hears of a question
when it comes to the head of the queue and never before, so the one that it has heard of last, if it is
not answered or called off yet, is the first of the queue.

In between anything may happen to the world that leaves the queue and its promises alone: sprites are
shown, hidden and deleted.
-/

namespace Blockwork

/-- The text that a question is announced by: none if a bubble shows it. -/
def Question.caption (q : Question) : String := if q.inBubble then "" else q.text

/-- A target when the bubble of a question says something. -/
def Question.mark (q : Question) (text : String) (id : TargetId) (t : Target) : Target :=
  if q.inBubble = true ∧ id = q.target then t.say .say text else t

/-- Something that is done about questions. -/
inductive Question.Deed where
  | ask (target : TargetId) (text : String) (p : Promise)
  | answer (text : String)
  | abort (p : Promise)

def Event.isAsked : Event → Bool
  | .asked _ => true
  | _ => false

namespace World

/-! ### What the host hears -/

/-- What the host heard about questions, the latest first. -/
def news (w : World) : List Event := w.host.events.filter fun e => e.isAsked || e == .aborted

variable (w : World)

lemma host_tell (e : Event) : (w.host.tell e).bare = w.host.bare ∧
    (w.host.bare = false → (w.host.tell e).events = e :: w.host.events) := by
  unfold Host.tell
  split
  · next h => exact ⟨rfl, fun hb => by rw [h] at hb; cases hb⟩
  · exact ⟨rfl, fun _ => rfl⟩

lemma bare_setBubble (id : TargetId) (kind : BubbleKind) (text : String) :
    (w.setBubble id kind text).host.bare = w.host.bare := by
  unfold setBubble
  split
  · rfl
  · exact (w.host_tell _).1

lemma news_setBubble (id : TargetId) (kind : BubbleKind) (text : String) :
    (w.setBubble id kind text).news = w.news := by
  unfold setBubble
  split
  · rfl
  · simp only [news, Host.tell]
    split
    · rfl
    · exact List.filter_cons_of_neg (by simp [Event.isAsked])

lemma bare_withdraw (q : Question) : (w.withdraw q).host.bare = w.host.bare := by
  unfold withdraw
  split
  · exact w.bare_setBubble _ _ _
  · rfl

lemma news_withdraw (q : Question) : (w.withdraw q).news = w.news := by
  unfold withdraw
  split
  · exact w.news_setBubble _ _ _
  · rfl

lemma bare_announce : w.announce.host.bare = w.host.bare := by
  unfold announce
  split
  · rfl
  · split
    · exact ((w.setBubble _ _ _).host_tell _).1.trans (w.bare_setBubble _ _ _)
    · exact (w.host_tell _).1

/-- The first question is announced, once. -/
lemma news_announce (h : w.host.bare = false) : w.announce.news =
    (w.questions.head?.toList.map fun q => .asked q.caption) ++ w.news := by
  unfold announce
  split
  · next hq => simp [hq]
  · next q rest hq =>
    split
    · next hb =>
      have hbare := (w.bare_setBubble q.target .say q.text).trans h
      simp only [hq, List.head?_cons, Option.toList_some, List.map_cons, List.map_nil,
        List.singleton_append, Question.caption, hb, if_true]
      rw [← w.news_setBubble q.target .say q.text]
      simp only [news, ((w.setBubble q.target .say q.text).host_tell (.asked "")).2 hbare]
      exact List.filter_cons_of_pos rfl
    · next hb =>
      simp only [hq, List.head?_cons, Option.toList_some, List.map_cons, List.map_nil,
        List.singleton_append, Question.caption, hb, if_false, Bool.false_eq_true]
      simp only [news, (w.host_tell (.asked q.text)).2 h]
      exact List.filter_cons_of_pos rfl

/-! ### What the targets show -/

lemma get?_withdraw (q : Question) (id : TargetId) : (w.withdraw q).targets.get? id =
    (w.targets.get? id).map (q.mark "" id) := by
  unfold withdraw Question.mark
  by_cases hb : q.inBubble = true
  · rw [if_pos hb, get?_setBubble]
    by_cases hid : id = q.target
    · simp [hb, hid]
    · simp [hid]
  · simp [hb]

lemma get?_announce (id : TargetId) : w.announce.targets.get? id =
    (w.targets.get? id).map fun t => w.questions.head?.elim t fun q => q.mark q.text id t := by
  unfold announce
  split
  · next hq => simp [hq]
  · next q rest hq =>
    simp only [hq, List.head?_cons, Option.elim_some]
    unfold Question.mark
    by_cases hb : q.inBubble = true
    · rw [if_pos hb]
      simp only [get?_setBubble]
      by_cases hid : id = q.target
      · simp [hb, hid]
      · simp [hid]
    · simp [hb]

/-! ### Deeds -/

def perform (w : World) : Question.Deed → World
  | .ask target text p => w.ask target text p
  | .answer text => w.answerQuestion text
  | .abort p => w.abortPromise p

/-- The first question, if it is answered or called off. -/
def closes? (w : World) : Question.Deed → Option Question
  | .ask .. => none
  | .answer _ => w.questions.head?
  | .abort p => w.questions.head?.filter (·.promise == p)

/-- The question that has come to the head of the queue. -/
def opens? (w : World) (d : Question.Deed) : Option Question :=
  if (w.perform d).questions.head? = w.questions.head? then none else (w.perform d).questions.head?

/-- A first question that is called off is news. -/
def callsOff (w : World) : Question.Deed → List Event
  | .abort p => (w.closes? (.abort p)).toList.map fun _ => .aborted
  | _ => []

/-- No two questions of the queue have the same promise. -/
def Distinct (w : World) : Prop := (w.questions.map (·.promise)).Nodup

lemma eraseP_promise {qs : List Question} (h : (qs.map (·.promise)).Nodup) (p : Promise) :
    qs.eraseP (·.promise == p) = qs.filter (·.promise != p) := by
  induction qs with
  | nil => rfl
  | cons q qs ih =>
    obtain ⟨hq, hqs⟩ := List.nodup_cons.1 h
    by_cases hp : q.promise = p
    · have hall : qs.filter (·.promise != p) = qs := by
        refine List.filter_eq_self.2 fun x hx => bne_iff_ne.2 ?_
        rintro rfl
        exact hq (List.mem_map.2 ⟨x, hx, hp.symm⟩)
      simp [hp, hall]
    · simp [hp, ih hqs]

section

variable {w : World}

lemma questions_ask (target : TargetId) (text : String) (p : Promise) :
    (w.ask target text p).questions = w.questions ++ [⟨text, target, p, w.isVisibleSprite target⟩] :=
  congrArg Mail.questions (w.mail_ask target text p)

lemma questions_answerQuestion (text : String) :
    (w.answerQuestion text).questions = w.questions.tail := by
  have h := congrArg Mail.questions (w.mail_answerQuestion text)
  refine h.trans ?_
  cases hq : w.questions with
  | nil => exact hq
  | cons q rest => rfl

/-- Only one question has the promise, so the first that is found is the only one. -/
lemma questions_abortPromise (h : w.Distinct) (p : Promise) :
    (w.abortPromise p).questions = w.questions.filter (·.promise != p) :=
  (congrArg Mail.questions (w.mail_abortPromise p)).trans (eraseP_promise h p)

lemma abortPromise_of_front {q : Question} {rest : List Question} (hq : w.questions = q :: rest) :
    w.abortPromise q.promise =
      let v := { w with questions := rest }.withdraw q
      { v with host := v.host.tell .aborted }.announce := by
  unfold abortPromise
  rw [hq]
  exact if_pos (beq_self_eq_true _)

/-- A question that is not asked yet is called off in silence. -/
lemma abortPromise_of_ne {p : Promise} (h : ∀ q ∈ w.questions.head?, q.promise ≠ p) :
    w.abortPromise p = { w with questions := w.questions.eraseP (·.promise == p) } := by
  unfold abortPromise
  split
  · next hq => rw [hq, List.eraseP_nil, ← hq]
  · next q rest hq =>
    have hne : (q.promise == p) = false := beq_eq_false_iff_ne.2 (h q (by simp [hq]))
    simp [hne, hq]

lemma answerQuestion_of_front {q : Question} {rest : List Question} (hq : w.questions = q :: rest)
    (text : String) : w.answerQuestion text =
      let v := { w with answer := text, questions := rest }.withdraw q
      { v with promises := v.promises.resolve q.promise }.announce := by
  simp only [answerQuestion, hq]

lemma answerQuestion_of_nil (hq : w.questions = []) (text : String) :
    w.answerQuestion text = { w with answer := text } := by
  simp only [answerQuestion, hq]

/-- A question that has none before it is asked at once. -/
lemma ask_eq (target : TargetId) (text : String) (p : Promise) : w.ask target text p =
    let v := { w with questions := w.questions ++ [⟨text, target, p, w.isVisibleSprite target⟩] }
    if w.questions = [] then v.announce else v := by
  unfold ask
  cases hq : w.questions <;> simp

lemma opens?_ask (target : TargetId) (text : String) (p : Promise) :
    w.opens? (.ask target text p) = if w.questions = [] then
      some ⟨text, target, p, w.isVisibleSprite target⟩ else none := by
  have hask : (w.perform (.ask target text p)).questions = _ := questions_ask target text p
  unfold opens?
  rw [hask]
  cases w.questions <;> simp

/-- After the first question comes another. -/
lemma Distinct.tail_ne (h : w.Distinct) {q : Question} {rest : List Question}
    (hq : w.questions = q :: rest) : rest.head? ≠ some q := by
  intro hhead
  rw [Distinct, hq] at h
  exact (List.nodup_cons.1 h).1 (List.mem_map_of_mem (List.mem_of_mem_head? hhead))

lemma opens?_answer (h : w.Distinct) (text : String) :
    w.opens? (.answer text) = w.questions.tail.head? := by
  have hanswer : (w.perform (.answer text)).questions = _ := questions_answerQuestion text
  unfold opens?
  rw [hanswer]
  cases hq : w.questions with
  | nil => rfl
  | cons q rest => exact if_neg (h.tail_ne hq)

lemma opens?_abort_of_front (h : w.Distinct) {q : Question} {rest : List Question}
    (hq : w.questions = q :: rest) : w.opens? (.abort q.promise) = rest.head? := by
  have habort : (w.perform (.abort q.promise)).questions = rest := by
    refine (congrArg Mail.questions (w.mail_abortPromise q.promise)).trans ?_
    simp [hq]
  unfold opens?
  rw [habort, hq]
  exact if_neg (h.tail_ne hq)

lemma opens?_abort_of_ne {p : Promise} (h : ∀ q ∈ w.questions.head?, q.promise ≠ p) :
    w.opens? (.abort p) = none := by
  have habort : (w.perform (.abort p)).questions = w.questions.eraseP (·.promise == p) :=
    congrArg Mail.questions (w.mail_abortPromise p)
  unfold opens?
  rw [habort]
  cases hq : w.questions with
  | nil => rfl
  | cons q rest =>
    have hne : (q.promise == p) = false := beq_eq_false_iff_ne.2 (h q (by simp [hq]))
    simp [hne]

lemma closes?_abort_of_front {q : Question} {rest : List Question} (hq : w.questions = q :: rest) :
    w.closes? (.abort q.promise) = some q := by
  unfold closes?
  rw [hq]
  exact Option.filter_some_pos (beq_self_eq_true _)

lemma closes?_abort_of_ne {p : Promise} (h : ∀ q ∈ w.questions.head?, q.promise ≠ p) :
    w.closes? (.abort p) = none :=
  Option.filter_eq_none_iff.2 fun q hq => by simpa using h q hq

/-- Either the question that is being asked is called off, or none that is asked is. -/
lemma front_or_ne (w : World) (p : Promise) :
    (∃ q rest, w.questions = q :: rest ∧ q.promise = p) ∨ ∀ q ∈ w.questions.head?, q.promise ≠ p := by
  cases hq : w.questions with
  | nil => exact .inr (by simp)
  | cons q rest =>
    by_cases hp : q.promise = p
    · exact .inl ⟨q, rest, rfl, hp⟩
    · exact .inr (by simpa using hp)

/-- The bubbles that a deed takes away and puts up; nothing else is seen on any target. -/
lemma get?_perform (h : w.Distinct) (d : Question.Deed) (id : TargetId) :
    (w.perform d).targets.get? id = (w.targets.get? id).map fun t =>
      let t := (w.closes? d).elim t fun q => q.mark "" id t
      (w.opens? d).elim t fun q => q.mark q.text id t := by
  cases d with
  | ask target text p =>
    rw [opens?_ask]
    simp only [perform, ask_eq, closes?, Option.elim_none]
    split
    · next hq => simp [get?_announce, hq]
    · simp
  | answer text =>
    rw [opens?_answer h]
    cases hq : w.questions with
    | nil => simp [perform, closes?, answerQuestion_of_nil hq, hq]
    | cons q rest =>
      have hrest : ({ w with answer := text, questions := rest }.withdraw q).questions = rest :=
        congrArg Mail.questions (mail_withdraw { w with answer := text, questions := rest } q)
      simp only [perform, answerQuestion_of_front hq, closes?, hq, get?_announce, get?_withdraw,
        hrest, Option.map_map, List.head?_cons, Option.elim_some, List.tail_cons]
      rfl
  | abort p =>
    obtain ⟨q, rest, hq, rfl⟩ | hne := w.front_or_ne p
    · have hrest : ({ w with questions := rest }.withdraw q).questions = rest :=
        congrArg Mail.questions (mail_withdraw { w with questions := rest } q)
      rw [opens?_abort_of_front h hq, closes?_abort_of_front hq]
      simp only [perform, abortPromise_of_front hq, get?_announce, get?_withdraw, hrest,
        Option.map_map, Option.elim_some]
      rfl
    · rw [opens?_abort_of_ne hne, closes?_abort_of_ne hne]
      simp [perform, abortPromise_of_ne hne]

lemma bare_perform (d : Question.Deed) : (w.perform d).host.bare = w.host.bare := by
  cases d with
  | ask target text p =>
    simp only [perform, ask]
    split
    · exact bare_announce _
    · rfl
  | answer text =>
    simp only [perform, answerQuestion]
    split
    · rfl
    · exact (bare_announce _).trans (bare_withdraw _ _)
  | abort p =>
    simp only [perform, abortPromise]
    split
    · rfl
    · split
      · exact (bare_announce _).trans ((host_tell _ _).1.trans (bare_withdraw _ _))
      · rfl

/-- What the host hears of a deed: that the first question is called off, and which one is asked now. -/
lemma news_perform (h : w.Distinct) (hb : w.host.bare = false) (d : Question.Deed) :
    (w.perform d).news =
      ((w.opens? d).toList.map fun q => .asked q.caption) ++ w.callsOff d ++ w.news := by
  cases d with
  | ask target text p =>
    rw [opens?_ask]
    simp only [perform, ask_eq, callsOff, List.append_nil]
    split
    · next hq =>
      rw [news_announce]
      · simp [hq, news]
      · exact hb
    · rfl
  | answer text =>
    rw [opens?_answer h]
    simp only [perform, callsOff, List.append_nil]
    cases hq : w.questions with
    | nil => rw [answerQuestion_of_nil hq]; rfl
    | cons q rest =>
      rw [answerQuestion_of_front hq]
      have hrest : ({ w with answer := text, questions := rest }.withdraw q).questions = rest :=
        congrArg Mail.questions (mail_withdraw { w with answer := text, questions := rest } q)
      have hbare : ({ w with answer := text, questions := rest }.withdraw q).host.bare = false :=
        (bare_withdraw _ q).trans hb
      have hnews : ({ w with answer := text, questions := rest }.withdraw q).news = w.news :=
        news_withdraw _ q
      rw [news_announce, ← hnews]
      · simp only [hrest, List.tail_cons]
        rfl
      · exact hbare
  | abort p =>
    obtain ⟨q, rest, hq, rfl⟩ | hne := w.front_or_ne p
    · have hrest : ({ w with questions := rest }.withdraw q).questions = rest :=
        congrArg Mail.questions (mail_withdraw { w with questions := rest } q)
      have hbare : ({ w with questions := rest }.withdraw q).host.bare = false :=
        (bare_withdraw _ q).trans hb
      have hnews : ({ w with questions := rest }.withdraw q).news = w.news := news_withdraw _ q
      have hcalls : w.callsOff (.abort q.promise) = [.aborted] := by
        rw [callsOff, closes?_abort_of_front hq]
        rfl
      rw [opens?_abort_of_front h hq, hcalls]
      simp only [perform, abortPromise_of_front hq]
      generalize { w with questions := rest }.withdraw q = v at hrest hbare hnews
      have htold := v.host_tell .aborted
      refine (news_announce _ (htold.1.trans hbare)).trans ?_
      rw [hrest, List.append_assoc, ← hnews]
      congr 1
      simp only [news, htold.2 hbare]
      exact List.filter_cons_of_pos rfl
    · rw [opens?_abort_of_ne hne]
      simp [callsOff, closes?_abort_of_ne hne, perform, abortPromise_of_ne hne, news]

end

end World

/-! ### Turns -/

namespace Question

/-- What became of the questions so far. -/
structure Record where
  asked : List Question := []
  /-- Those that came to the head of the queue, in this order. -/
  announced : List Question := []
  answered : List Question := []
  /-- Called off at the head of the queue. -/
  withdrawn : List Question := []
  /-- Called off before they came to the head. -/
  dropped : List Question := []

/-- Notes what is done in a world. -/
def Record.note (r : Record) (w : World) (d : Deed) : Record :=
  let r := { r with announced := r.announced ++ (w.opens? d).toList }
  match d with
  | .ask target text p =>
    { r with asked := r.asked ++ [⟨text, target, p, w.isVisibleSprite target⟩] }
  | .answer _ => { r with answered := r.answered ++ (w.closes? d).toList }
  | .abort p => { r with
      withdrawn := r.withdrawn ++ (w.closes? d).toList
      dropped := r.dropped ++ w.questions.tail.filter (·.promise == p) }

/-- A question comes with a promise of its own. -/
def Deed.Fresh (r : Record) (w : World) : Deed → Prop
  | .ask _ _ p => w.promises.isPending p = true ∧ ∀ q ∈ r.asked, q.promise ≠ p
  | _ => True

/-- A world, and the record of its questions. -/
inductive Course (w₀ : World) : World → Record → Prop where
  | start (h : w₀.questions = []) : Course w₀ w₀ {}
  | deed {w : World} {r : Record} (h : Course w₀ w r) (d : Deed) (hd : d.Fresh r w) :
      Course w₀ (w.perform d) (r.note w d)
  /-- Nothing is done about questions. -/
  | meanwhile {w w' : World} {r : Record} (h : Course w₀ w r) (hq : w'.questions = w.questions)
      (hp : ∀ q ∈ w.questions, w'.promises.state q.promise = w.promises.state q.promise)
      (hh : w'.host.bare = w.host.bare ∧ w'.news = w.news) : Course w₀ w' r

/-- The record and the queue agree. -/
structure Agree (w₀ w : World) (r : Record) : Prop where
  /-- Every question is answered, called off or waits. -/
  all : r.asked.Perm (r.answered ++ r.withdrawn ++ r.dropped ++ w.questions)
  nodup : (r.asked.map (·.promise)).Nodup
  /-- Questions are announced in the order in which they are asked, and the others wait in it. -/
  order : (r.announced ++ w.questions.tail).Sublist r.asked
  /-- The one that is announced and neither answered nor called off is the first of the queue. -/
  front : r.announced.Perm (r.answered ++ r.withdrawn ++ w.questions.head?.toList)
  pending : ∀ q ∈ w.questions, w.promises.isPending q.promise = true
  bare : w.host.bare = w₀.host.bare
  heard : w₀.host.bare = false →
    w.news.filter Event.isAsked =
      (r.announced.map fun q => .asked q.caption).reverse ++ w₀.news.filter Event.isAsked
  calledOff : w₀.host.bare = false →
    w.news.count .aborted = r.withdrawn.length + w₀.news.count .aborted

/-- The promise that an answer resolves. -/
def Deed.resolves? (w : World) : Deed → Option Promise
  | .answer _ => w.questions.head?.map (·.promise)
  | _ => none

/-- The queue that a deed leaves. -/
def Deed.queue (w : World) : Deed → List Question
  | .ask target text p => w.questions ++ [⟨text, target, p, w.isVisibleSprite target⟩]
  | .answer _ => w.questions.tail
  | .abort p => w.questions.filter (·.promise != p)

/-- All that a deed does. -/
structure Deed.Done (w : World) (d : Deed) (w' : World) : Prop where
  queue : w'.questions = d.queue w
  settled (p : Promise) : w'.promises.state p =
    if d.resolves? w = some p then .resolved else w.promises.state p
  heard : w.host.bare = false →
    w'.news = ((w.opens? d).toList.map fun q => .asked q.caption) ++ w.callsOff d ++ w.news
  shown (id : TargetId) : w'.targets.get? id = (w.targets.get? id).map fun t =>
    let t := (w.closes? d).elim t fun q => q.mark "" id t
    (w.opens? d).elim t fun q => q.mark q.text id t

lemma Deed.questions_perform {w : World} (h : w.Distinct) (d : Deed) :
    (w.perform d).questions = d.queue w := by
  cases d with
  | ask target text p => exact World.questions_ask target text p
  | answer text => exact World.questions_answerQuestion text
  | abort p => exact World.questions_abortPromise h p

lemma Deed.queue_abort_of_front {w : World} (h : w.Distinct) {q : Question} {rest : List Question}
    (hq : w.questions = q :: rest) : (Deed.abort q.promise).queue w = rest := by
  refine (World.eraseP_promise h q.promise).symm.trans ?_
  simp [hq]

/-- The question at the head makes way for the one that comes there. -/
lemma Deed.heads_perform {w : World} (h : w.Distinct) (d : Deed) :
    ((w.opens? d).toList ++ w.questions.head?.toList).Perm
      ((w.closes? d).toList ++ (d.queue w).head?.toList) := by
  cases d with
  | ask target text p =>
    rw [World.opens?_ask]
    cases hq : w.questions <;> simp [Deed.queue, World.closes?, hq]
  | answer text =>
    rw [World.opens?_answer h]
    exact List.perm_append_comm
  | abort p =>
    obtain ⟨q, rest, hq, rfl⟩ | hne := w.front_or_ne p
    · rw [World.opens?_abort_of_front h hq, World.closes?_abort_of_front hq,
        Deed.queue_abort_of_front h hq, hq]
      exact List.perm_append_comm
    · rw [World.opens?_abort_of_ne hne, World.closes?_abort_of_ne hne]
      cases hq : w.questions with
      | nil => simp [Deed.queue, hq]
      | cons q rest =>
        have hqp : q.promise ≠ p := hne q (by simp [hq])
        simp [Deed.queue, hq, hqp]

/-- Those that still wait keep their order. -/
lemma Deed.tails_perform {w : World} (h : w.Distinct) (d : Deed) (r : Record) :
    ((r.note w d).announced ++ (d.queue w).tail).Sublist (r.announced ++ w.questions.tail ++
      ((r.note w d).asked.drop r.asked.length)) := by
  have happ : ∀ {xs ys : List Question}, xs.Sublist ys →
      (r.announced ++ xs).Sublist (r.announced ++ ys) := fun hs => hs.append_left r.announced
  cases d with
  | ask target text p =>
    simp only [Record.note, List.drop_left, List.append_assoc]
    refine happ ?_
    rw [World.opens?_ask]
    cases hq : w.questions <;> simp [Deed.queue, hq]
  | answer text =>
    simp only [Record.note, List.drop_length, List.append_nil, List.append_assoc]
    refine happ ?_
    rw [World.opens?_answer h, Deed.queue]
    cases w.questions.tail <;> simp
  | abort p =>
    simp only [Record.note, List.drop_length, List.append_nil, List.append_assoc]
    refine happ ?_
    obtain ⟨q, rest, hq, rfl⟩ | hne := w.front_or_ne p
    · rw [World.opens?_abort_of_front h hq, Deed.queue_abort_of_front h hq, hq]
      cases rest <;> simp
    · rw [World.opens?_abort_of_ne hne, Deed.queue]
      cases hq : w.questions with
      | nil => simp
      | cons q rest =>
        have hqp : q.promise ≠ p := hne q (by simp [hq])
        simp [hqp]

lemma Deed.done_perform {w : World} (h : w.Distinct)
    (hp : ∀ q ∈ w.questions, w.promises.isPending q.promise = true) (d : Deed) :
    d.Done w (w.perform d) where
  queue := d.questions_perform h
  settled p := by
    cases d with
    | ask target text p' =>
      exact congrArg (fun m : Mail => m.promises.state p) (w.mail_ask target text p')
    | abort p' =>
      exact congrArg (fun m : Mail => m.promises.state p) (w.mail_abortPromise p')
    | answer text =>
      refine (congrArg (fun m : Mail => m.promises.state p) (w.mail_answerQuestion text)).trans ?_
      unfold Deed.resolves?
      cases hq : w.questions with
      | nil => rfl
      | cons q rest =>
        have hpend := hp q (hq ▸ List.mem_cons_self)
        simp [Promise.Ledger.resolve, Promise.Ledger.state_settle, hpend, eq_comm]
  heard hb := w.news_perform h hb d
  shown id := w.get?_perform h d id

namespace Agree

variable {w₀ w : World} {r : Record}

lemma distinct (h : Agree w₀ w r) : w.Distinct := by
  have hnd := ((h.all.map (·.promise)).nodup_iff).1 h.nodup
  rw [List.map_append] at hnd
  exact hnd.of_append_right

/-- A question that is called off before its turn is never announced. -/
lemma notMem_announced (h : Agree w₀ w r) {q : Question} (hq : q ∈ r.dropped) : q ∉ r.announced := by
  intro hann
  have hnd := (h.all.nodup_iff).1 (List.Nodup.of_map _ h.nodup)
  have hcount := List.nodup_iff_count_le_one.1 hnd q
  have hdropped := List.count_pos_iff.2 hq
  have hfront := List.count_pos_iff.2 (h.front.mem_iff.1 hann)
  have hhead : w.questions.head?.toList.count q ≤ w.questions.count q := by
    cases w.questions <;> simp [List.count_cons]
  simp only [List.count_append] at hcount hfront
  omega

lemma start (h : w₀.questions = []) : Agree w₀ w₀ {} := by
  constructor <;> simp [h]

lemma meanwhile {w' : World} (h : Agree w₀ w r) (hq : w'.questions = w.questions)
    (hp : ∀ q ∈ w.questions, w'.promises.state q.promise = w.promises.state q.promise)
    (hh : w'.host.bare = w.host.bare ∧ w'.news = w.news) : Agree w₀ w' r where
  all := by rw [hq]; exact h.all
  nodup := h.nodup
  order := by rw [hq]; exact h.order
  front := by rw [hq]; exact h.front
  pending q hmem := by
    rw [hq] at hmem
    rw [Promise.Ledger.isPending, hp q hmem]
    exact h.pending q hmem
  bare := hh.1.trans h.bare
  heard hb := by rw [hh.2]; exact h.heard hb
  calledOff hb := by rw [hh.2]; exact h.calledOff hb

lemma nodup_note (h : Agree w₀ w r) {d : Deed} (hd : d.Fresh r w) :
    ((r.note w d).asked.map (·.promise)).Nodup := by
  cases d with
  | ask target text p =>
    simp only [Record.note, List.map_append, List.map_cons, List.map_nil]
    refine List.nodup_append.2 ⟨h.nodup, by simp, ?_⟩
    simpa using hd.2
  | answer text => exact h.nodup
  | abort p => exact h.nodup

lemma all_note (h : Agree w₀ w r) (d : Deed) : (r.note w d).asked.Perm ((r.note w d).answered ++
    (r.note w d).withdrawn ++ (r.note w d).dropped ++ d.queue w) := by
  refine List.perm_iff_count.2 fun x => ?_
  have hx := h.all.count_eq x
  cases d with
  | ask target text p =>
    simp only [Record.note, Deed.queue, List.count_append] at hx ⊢
    omega
  | answer text =>
    have hsplit : w.questions.count x =
        w.questions.head?.toList.count x + w.questions.tail.count x := by
      cases w.questions <;> simp [List.count_cons, Nat.add_comm]
    simp only [Record.note, Deed.queue, World.closes?, List.count_append] at hx ⊢
    omega
  | abort p =>
    have hoff : w.questions.filter (·.promise == p) =
        (w.closes? (.abort p)).toList ++ w.questions.tail.filter (·.promise == p) := by
      unfold World.closes?
      cases hq : w.questions with
      | nil => rfl
      | cons q rest => by_cases hp : q.promise = p <;> simp [Option.filter, hp]
    have hsplit := (List.filter_append_perm (·.promise == p) w.questions).count_eq x
    simp only [Record.note, Deed.queue, hoff, bne, List.count_append] at hx hsplit ⊢
    omega

lemma front_note (h : Agree w₀ w r) (d : Deed) : (r.note w d).announced.Perm
    ((r.note w d).answered ++ (r.note w d).withdrawn ++ (d.queue w).head?.toList) := by
  refine List.perm_iff_count.2 fun x => ?_
  have hx := h.front.count_eq x
  have hheads := (d.heads_perform h.distinct).count_eq x
  cases d <;> simp only [Record.note, List.count_append] at hx hheads ⊢
  case ask => simp only [World.closes?, Option.toList_none, List.count_nil] at hheads; omega
  case answer => omega
  case abort => omega

lemma order_note (h : Agree w₀ w r) (d : Deed) :
    ((r.note w d).announced ++ (d.queue w).tail).Sublist (r.note w d).asked := by
  have hasked : (r.note w d).asked = r.asked ++ (r.note w d).asked.drop r.asked.length := by
    cases d <;> simp [Record.note]
  rw [hasked]
  exact (d.tails_perform h.distinct r).trans (h.order.append_right _)

lemma pending_perform (h : Agree w₀ w r) {d : Deed} (hd : d.Fresh r w) :
    ∀ q ∈ d.queue w, (w.perform d).promises.isPending q.promise = true := by
  intro q hq
  have hkeep : d.resolves? w ≠ some q.promise → w.promises.isPending q.promise = true →
      (w.perform d).promises.isPending q.promise = true := fun hne hp => by
    rwa [Promise.Ledger.isPending, (d.done_perform h.distinct h.pending).settled, if_neg hne]
  cases d with
  | ask target text p =>
    refine hkeep (by simp [Deed.resolves?]) ?_
    obtain hmem | rfl := by simpa [Deed.queue] using hq
    · exact h.pending q hmem
    · exact hd.1
  | answer text =>
    have hmem : q ∈ w.questions.tail := hq
    refine hkeep ?_ (h.pending q (List.mem_of_mem_tail hmem))
    -- the first question has another promise than those behind it
    have hnd := h.distinct
    unfold World.Distinct at hnd
    cases hqs : w.questions with
    | nil => simp [hqs] at hmem
    | cons f rest =>
      rw [hqs] at hmem hnd
      intro heq
      simp only [Deed.resolves?, hqs, List.head?_cons, Option.map_some, Option.some.injEq] at heq
      exact (List.nodup_cons.1 hnd).1 (List.mem_map.2 ⟨q, hmem, heq.symm⟩)
  | abort p =>
    exact hkeep (by simp [Deed.resolves?]) (h.pending q (List.mem_filter.1 hq).1)

lemma heard_perform (h : Agree w₀ w r) (hb : w₀.host.bare = false) (d : Deed) :
    (w.perform d).news.filter Event.isAsked =
      ((r.note w d).announced.map fun q => .asked q.caption).reverse ++
        w₀.news.filter Event.isAsked := by
  have hnews := w.news_perform h.distinct (h.bare.trans hb) d
  have hann : (r.note w d).announced = r.announced ++ (w.opens? d).toList := by cases d <;> rfl
  have hoff : (w.callsOff d).filter Event.isAsked = [] := by
    unfold World.callsOff
    split <;> simp [Event.isAsked]
  have hopen : (((w.opens? d).toList.map fun q => Event.asked q.caption).filter Event.isAsked) =
      ((w.opens? d).toList.map fun q => Event.asked q.caption).reverse := by
    cases w.opens? d <;> simp [Event.isAsked]
  rw [hnews, hann, List.filter_append, List.filter_append, hoff, hopen, h.heard hb]
  simp

lemma calledOff_perform (h : Agree w₀ w r) (hb : w₀.host.bare = false) (d : Deed) :
    (w.perform d).news.count .aborted =
      (r.note w d).withdrawn.length + w₀.news.count .aborted := by
  have hnews := w.news_perform h.distinct (h.bare.trans hb) d
  have hopen : ((w.opens? d).toList.map fun q => Event.asked q.caption).count .aborted = 0 := by
    cases w.opens? d <;> simp
  have hoff : (r.note w d).withdrawn.length = r.withdrawn.length + (w.callsOff d).count .aborted := by
    cases d <;> simp [Record.note, World.callsOff]
  rw [hnews, List.count_append, List.count_append, hopen, hoff, h.calledOff hb]
  omega

lemma deed (h : Agree w₀ w r) {d : Deed} (hd : d.Fresh r w) :
    Agree w₀ (w.perform d) (r.note w d) where
  all := by rw [d.questions_perform h.distinct]; exact h.all_note d
  nodup := h.nodup_note hd
  order := by rw [d.questions_perform h.distinct]; exact h.order_note d
  front := by rw [d.questions_perform h.distinct]; exact h.front_note d
  pending := by rw [d.questions_perform h.distinct]; exact h.pending_perform hd
  bare := (w.bare_perform d).trans h.bare
  heard hb := h.heard_perform hb d
  calledOff hb := h.calledOff_perform hb d

end Agree

lemma Course.agree {w₀ w : World} {r : Record} (h : Course w₀ w r) : Agree w₀ w r := by
  induction h with
  | start h => exact .start h
  | deed _ d hd ih => exact ih.deed hd
  | meanwhile _ hq hp hh ih => exact ih.meanwhile hq hp hh

/-- Questions take turns: each is announced once, when it comes to the head of the queue, and then it is
answered or called off before the next one comes. -/
theorem questions_take_turns {w₀ w : World} {r : Record} (h : Course w₀ w r) :
    Agree w₀ w r ∧ (∀ q ∈ r.dropped, q ∉ r.announced) ∧ ∀ d : Deed, d.Done w (w.perform d) :=
  ⟨h.agree, fun _ hq => h.agree.notMem_announced hq,
    fun d => d.done_perform h.agree.distinct h.agree.pending⟩

/-- A stage and a cat. -/
def cast : World where
  targets := ((Arena.empty.insert { name := "Stage", isStage := true }).2.insert
    { name := "Cat", isStage := false }).2
  promises := ⟨#[.pending, .pending]⟩

/-- The cat asks, then the stage does, and then the cat hides. -/
def asking : World :=
  let w := (cast.perform (.ask ⟨1, 0⟩ "Name?" ⟨0⟩)).perform (.ask ⟨0, 0⟩ "Age?" ⟨1⟩)
  { w with targets := w.targets.modify ⟨1, 0⟩ fun t => { t with visible := false } }

/-- The question of the cat is called off: its bubble goes, though the cat is hidden by now, and the
host hears that the question is called off and that the other one is asked. -/
theorem questions_take_turns_called_off :
    (∃ r, Course cast asking r ∧ Agree cast asking r ∧
      (Deed.abort ⟨0⟩).Done asking (asking.perform (.abort ⟨0⟩))) ∧
    (asking.targets.get? ⟨1, 0⟩).map (·.bubble) = some (some ⟨.say, "Name?"⟩) ∧
    ((asking.perform (.abort ⟨0⟩)).targets.get? ⟨1, 0⟩).map (·.bubble) = some none ∧
    (asking.perform (.abort ⟨0⟩)).news = [.asked "Age?", .aborted, .asked ""] := by
  have hcast : Course cast cast {} := .start rfl
  have hcat := hcast.deed (.ask ⟨1, 0⟩ "Name?" ⟨0⟩) ⟨by rfl, nofun⟩
  have hstage := hcat.deed (.ask ⟨0, 0⟩ "Age?" ⟨1⟩) ⟨by rfl, by simp [Record.note]⟩
  have hasking : Course cast asking _ := hstage.meanwhile rfl (fun _ _ => rfl) ⟨rfl, rfl⟩
  obtain ⟨hagree, -, hdone⟩ := questions_take_turns hasking
  exact ⟨⟨_, hasking, hagree, hdone _⟩, by rfl, by rfl, by rfl⟩

end Question

end Blockwork
