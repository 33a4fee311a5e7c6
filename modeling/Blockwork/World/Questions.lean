import Blockwork.World.Basic

/-!
Questions. They wait in a queue, and only the first one is asked at a time: by a bubble if the
sprite was visible when it asked, else by its text.
-/

namespace Blockwork.World

/-- Asks the first question of the queue. -/
def announce (w : World) : World :=
  match w.questions with
  | [] => w
  | q :: _ =>
    if q.inBubble then
      let w := w.setBubble q.target .say q.text
      { w with host := w.host.tell (.asked "") }
    else { w with host := w.host.tell (.asked q.text) }

/-- Takes away the bubble of a question. -/
def withdraw (w : World) (q : Question) : World :=
  if q.inBubble then w.setBubble q.target .say "" else w

def isVisibleSprite (w : World) (id : TargetId) : Bool :=
  (w.targets.get? id).any fun t => t.visible && !t.isStage

/-- Queues a question. -/
def ask (w : World) (target : TargetId) (text : String) (promise : Promise) : World :=
  let q : Question := ⟨text, target, promise, w.isVisibleSprite target⟩
  let w := { w with questions := w.questions ++ [q] }
  if w.questions.length == 1 then w.announce else w

/-- Answers the first question and goes on to the next. Without a question the answer is only
remembered. -/
def answerQuestion (w : World) (answer : String) : World :=
  let w := { w with answer }
  match w.questions with
  | [] => w
  | q :: rest =>
    let w := { w with questions := rest }.withdraw q
    { w with promises := w.promises.resolve q.promise }.announce

/-- Drops the question that a promise belongs to. -/
def abortPromise (w : World) (p : Promise) : World :=
  match w.questions with
  | [] => w
  | q :: rest =>
    if q.promise == p then
      let w := { w with questions := rest }.withdraw q
      { w with host := w.host.tell .aborted }.announce
    else { w with questions := q :: rest.eraseP (·.promise == p) }

end Blockwork.World
