import Mathlib.Data.List.GetD

/-!
# `Library.Replica` — a copy of a register behind a queue

A single writer keeps a register and sends its value to a copy every time it may have changed; the copy
takes over what arrives. `Synced cur view q` says that the copy `view`, after everything still on its way
in the queue `q` (oldest first), holds the writer's current value `cur`. Sending the current value
establishes it, delivery keeps it, and with an empty queue the copy *is* the register (`Synced.quiet`).
-/

namespace Replica

variable {V : Type}

/-- Once the queue is drained, the copy holds the current value. -/
def Synced (cur view : V) (q : List V) : Prop := q.getLastD view = cur

theorem Synced.refl (v : V) : Synced v v [] := rfl

/-- The writer sends its value, whatever was on the way before. -/
theorem Synced.publish (cur view : V) (q : List V) : Synced cur view (q ++ [cur]) := by
  unfold Synced
  rw [List.getLastD_eq_getLast?, List.getLast?_append]
  rfl

/-- The oldest value arrives. -/
theorem Synced.deliver {cur view v : V} {q : List V} (h : Synced cur view (v :: q)) :
    Synced cur v q := by
  unfold Synced at h ⊢
  rw [List.getLastD_cons] at h
  exact h

/-- The oldest value arrives and is still on the way. -/
theorem Synced.redeliver {cur view v : V} {q : List V} (h : Synced cur view (v :: q)) :
    Synced cur v (v :: q) := by
  unfold Synced at h ⊢
  rw [List.getLastD_cons] at h ⊢
  exact h

theorem Synced.quiet {cur view : V} (h : Synced cur view []) : view = cur := h

end Replica
