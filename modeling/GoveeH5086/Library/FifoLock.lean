import Mathlib.Data.List.Nodup

/-!
# A first-come, first-served lock

The lock of an event loop: a task that finds it free and nobody waiting takes it at once, any other
task joins the end of the queue. A release leaves the lock free; the head of the queue takes it
when it is woken, and until then nobody overtakes it.

1. `acquire_free`, `acquire_busy`: what a request does.
2. `acquire_free_grant`: taking a free lock is queueing and being woken at once, so that a proof
   about runs needs to look at the queue only.
-/

namespace FifoLock

variable {ι : Type*}

structure Lock (ι : Type*) where
  holder : Option ι
  waiters : List ι
deriving DecidableEq, Repr

namespace Lock

def unlocked : Lock ι := ⟨none, []⟩

/-- Nobody holds the lock and nobody waits for it. -/
def free (l : Lock ι) : Bool := l.holder.isNone && l.waiters.isEmpty

def enqueue (l : Lock ι) (i : ι) : Lock ι := { l with waiters := l.waiters ++ [i] }

/-- A request by `i`: the lock, and whether `i` holds it now. -/
def acquire (l : Lock ι) (i : ι) : Lock ι × Bool :=
  if l.free then (⟨some i, []⟩, true) else (l.enqueue i, false)

def release (l : Lock ι) : Lock ι := { l with holder := none }

/-- The head of the queue is woken, when the lock is not held. -/
def grant (l : Lock ι) : Option (ι × Lock ι) :=
  match l.holder, l.waiters with
  | none, i :: rest => some (i, ⟨some i, rest⟩)
  | _, _ => none

theorem free_iff {l : Lock ι} : l.free = true ↔ l.holder = none ∧ l.waiters = [] := by
  simp [free, Option.isNone_iff_eq_none]

theorem grant_eq_some {l l' : Lock ι} {i : ι} :
    l.grant = some (i, l') ↔
      l.holder = none ∧ l.waiters = i :: l'.waiters ∧ l'.holder = some i := by
  obtain ⟨holder, waiters⟩ := l
  obtain ⟨holder', waiters'⟩ := l'
  cases holder with
  | some j => simp [grant]
  | none =>
    cases waiters with
    | nil => simp [grant]
    | cons j rest =>
      simp only [grant, Option.some.injEq, Prod.mk.injEq, Lock.mk.injEq, true_and, List.cons.injEq]
      constructor
      · rintro ⟨rfl, rfl, rfl⟩
        exact ⟨⟨rfl, rfl⟩, rfl⟩
      · rintro ⟨⟨rfl, rfl⟩, rfl⟩
        exact ⟨rfl, rfl, rfl⟩

theorem acquire_busy {l : Lock ι} (h : l.free = false) (i : ι) :
    l.acquire i = (l.enqueue i, false) := by
  simp [acquire, h]

theorem acquire_free {l : Lock ι} (h : l.free = true) (i : ι) :
    l.acquire i = (⟨some i, []⟩, true) := by
  simp [acquire, h]

/-- Taking a free lock is queueing and being woken at once. -/
theorem acquire_free_grant {l : Lock ι} (h : l.free = true) (i : ι) :
    (l.enqueue i).grant = some (i, (l.acquire i).1) := by
  obtain ⟨hh, hw⟩ := free_iff.mp h
  rw [acquire_free h, grant_eq_some]
  simp [enqueue, hh, hw]

end Lock

end FifoLock
