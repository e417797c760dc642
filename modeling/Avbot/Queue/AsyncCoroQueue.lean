import Mathlib.Data.PNat.Defs
import Mathlib.Data.List.Basic

/-!
# The queue between coroutines

`boost::async_coro_queue`: a container of values on one side, the handlers of the coroutines that wait for a value on the other. An operation answers the queue it leaves and the completions it posted, in posting order. The flag of a waiter is raised only by the overload with a timeout, which no coroutine of the repository calls.
-/

namespace Avbot

/-- The container behind the queue: an unbounded list, or a circular buffer whose `push_back` overwrites the oldest value once it is full. -/
inductive Container where
  | list
  | circularBuffer (capacity : ℕ+)
  deriving DecidableEq

namespace Container

def full (container : Container) (n : Nat) : Bool :=
  match container with
  | .list => false
  | .circularBuffer capacity => decide (capacity.val ≤ n)

def pushBack {α : Type} (container : Container) (values : List α) (value : α) : List α :=
  if container.full values.length then values.tail ++ [value] else values ++ [value]

theorem pushBack_sublist {α : Type} (container : Container) (values : List α) (value : α) :
    (container.pushBack values value).Sublist (values ++ [value]) := by
  unfold pushBack
  split
  · exact (List.tail_sublist values).append (List.Sublist.refl _)
  · exact List.Sublist.refl _

end Container

inductive QueueError where
  | success
  | operationCanceled
  deriving DecidableEq

structure PopWaiter (H : Type) where
  timedOuted : Bool
  handler : H
  deriving DecidableEq

inductive Completion (H W α : Type) where
  | pop (handler : H) (ec : QueueError) (value : α)
  | wait (handler : W) (ec : QueueError)
  deriving DecidableEq

structure AsyncCoroQueue (H W α : Type) where
  container : Container
  mList : List α
  mHandlers : List (PopWaiter H)
  mWaitHandlers : List W
  deriving DecidableEq

namespace AsyncCoroQueue

variable {H W α : Type} [Inhabited α]

def new (container : Container) : AsyncCoroQueue H W α := ⟨container, [], [], []⟩

def asyncPop (q : AsyncCoroQueue H W α) (handler : H) :
    AsyncCoroQueue H W α × List (Completion H W α) :=
  match q.mList with
  | [] => ({ q with mHandlers := q.mHandlers ++ [⟨false, handler⟩] }, [])
  | value :: rest => ({ q with mList := rest }, [.pop handler .success value])

def asyncWait (q : AsyncCoroQueue H W α) (handler : W) :
    AsyncCoroQueue H W α × List (Completion H W α) :=
  match q.mList with
  | [] => ({ q with mWaitHandlers := q.mWaitHandlers ++ [handler] }, [])
  | _ :: _ => (q, [.wait handler .success])

/-- Hand the value to the first waiter that has not timed out, dropping those that have, or store it. The recursion is the source's `return push(value)`. -/
def pushValue (container : Container) (values : List α) :
    List (PopWaiter H) → α → List α × List (PopWaiter H) × List (Completion H W α)
  | [], value => (container.pushBack values value, [], [])
  | waiter :: waiters, value =>
    if waiter.timedOuted then pushValue container values waiters value
    else (values, waiters, [.pop waiter.handler .success value])

def push (q : AsyncCoroQueue H W α) (value : α) :
    AsyncCoroQueue H W α × List (Completion H W α) :=
  let (values, waiters, posted) := pushValue q.container q.mList q.mHandlers value
  ({ q with mList := values, mHandlers := waiters, mWaitHandlers := [] },
    q.mWaitHandlers.map (.wait · .success) ++ posted)

def cancelWaiter (waiter : PopWaiter H) : List (Completion H W α) :=
  if waiter.timedOuted then [] else [.pop waiter.handler .operationCanceled default]

def cancele (q : AsyncCoroQueue H W α) : AsyncCoroQueue H W α × List (Completion H W α) :=
  match q.mHandlers with
  | [] => (q, [])
  | _ :: _ =>
    ({ q with mHandlers := [], mWaitHandlers := [] },
      q.mWaitHandlers.map (.wait · .operationCanceled) ++ q.mHandlers.flatMap cancelWaiter)

def clear (q : AsyncCoroQueue H W α) : AsyncCoroQueue H W α × List (Completion H W α) :=
  ({ q.cancele.1 with mList := [] }, q.cancele.2)

def empty (q : AsyncCoroQueue H W α) : Bool := q.mList.isEmpty

theorem cancele_mHandlers (q : AsyncCoroQueue H W α) : q.cancele.1.mHandlers = [] := by
  unfold cancele
  split
  · assumption
  · rfl

variable {q : AsyncCoroQueue H W α}

theorem cancele_of_no_waiter (hq : q.mHandlers = []) : q.cancele = (q, []) := by
  simp only [cancele, hq]

omit [Inhabited α]

theorem push_of_no_waiter (hq : q.mHandlers = []) (value : α) :
    q.push value = ({ q with mList := q.container.pushBack q.mList value, mWaitHandlers := [] },
      q.mWaitHandlers.map (.wait · .success)) := by
  simp [push, pushValue, hq]

theorem push_of_waiter {waiter : PopWaiter H} {waiters : List (PopWaiter H)}
    (hq : q.mHandlers = waiter :: waiters) (huntimed : waiter.timedOuted = false) (value : α) :
    q.push value = ({ q with mHandlers := waiters, mWaitHandlers := [] },
      q.mWaitHandlers.map (.wait · .success) ++ [.pop waiter.handler .success value]) := by
  simp [push, pushValue, hq, huntimed]

theorem asyncPop_of_nil (hq : q.mList = []) (handler : H) :
    q.asyncPop handler = ({ q with mHandlers := q.mHandlers ++ [⟨false, handler⟩] }, []) := by
  simp only [asyncPop, hq]

theorem asyncPop_of_cons {value : α} {rest : List α} (hq : q.mList = value :: rest) (handler : H) :
    q.asyncPop handler = ({ q with mList := rest }, [.pop handler .success value]) := by
  simp only [asyncPop, hq]

theorem mWaitHandlers_eq_nil [IsEmpty W] (q : AsyncCoroQueue H W α) : q.mWaitHandlers = [] := by
  cases h : q.mWaitHandlers with
  | nil => rfl
  | cons handler => exact isEmptyElim handler

end AsyncCoroQueue

end Avbot
