import Chiptune.Fault

/-!
# Notifications

While a song plays, the host is told of what it may want to react to. Notifications wait in a
bounded queue, `Notices`; when the queue is full, the oldest one makes room.
-/

namespace Chiptune

inductive Notification
  /-- The song ended by itself or by its loop limit. -/
  | songEnded
  /-- The song has gone round; carries the number of completed loops. -/
  | loopWrapped (loops : Nat)
  /-- A track stopped at an error; the others go on. -/
  | trackFailed (track : Nat) (error : DecodeError)
  /-- A note could not sound. -/
  | resourceMissing (track : Nat) (error : ResourceError)
  deriving DecidableEq, Repr, Inhabited

/-- The song has come to an end, or to its start again. -/
def Notification.IsTurn : Notification → Prop
  | songEnded => True
  | loopWrapped _ => True
  | trackFailed _ _ => False
  | resourceMissing _ _ => False

instance (n : Notification) : Decidable n.IsTurn := by
  unfold Notification.IsTurn
  split <;> infer_instance

/-- The notifications that wait for the host, oldest first. -/
structure Notices where
  waiting : List Notification := []
  deriving DecidableEq, Repr, Inhabited

namespace Notices

/-- The most notifications that wait. -/
def capacity : Nat := 32

/-- Add a notification; in a full queue the oldest one is dropped. -/
def push (q : Notices) (n : Notification) : Notices :=
  ⟨(if q.waiting.length < capacity then q.waiting else q.waiting.drop 1) ++ [n]⟩

/-- Take the oldest notification out. -/
def pop (q : Notices) : Option Notification × Notices := (q.waiting.head?, ⟨q.waiting.drop 1⟩)

theorem waiting_push_of_lt {q : Notices} (n : Notification) (h : q.waiting.length < capacity) :
    (q.push n).waiting = q.waiting ++ [n] := by
  simp [push, h]

/-- The queue never grows beyond its capacity. -/
theorem length_push_le {q : Notices} (n : Notification) (h : q.waiting.length ≤ capacity) :
    (q.push n).waiting.length ≤ capacity := by
  unfold push
  simp only [List.length_append, List.length_cons, List.length_nil]
  split
  · omega
  · simp only [List.length_drop]
    unfold capacity at *
    omega

end Notices
end Chiptune
