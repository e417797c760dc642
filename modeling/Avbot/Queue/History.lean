import Avbot.Queue.AsyncCoroQueue
import Mathlib.Data.List.Induction

/-!
# Whole histories of a queue

What every sequence of calls on an `async_coro_queue` has in common. As soon as there is a value, nobody waits, so a value is either handed over at once, to the waiter that has waited longest, or it joins the end of the container. The account of a history gives every pushed value that has left the container its fate, in the order of the pushes.
-/

namespace Avbot

open List Function
open Container (full pushBack)

inductive Fate where
  | delivered
  | overwritten
  | cleared
  deriving DecidableEq

inductive QueueOp (H W α : Type) where
  | push (value : α)
  | asyncPop (handler : H)
  | asyncWait (handler : W)
  | cancele
  | clear

namespace QueueOp

variable {H W α : Type}

def pushed? : QueueOp H W α → Option α
  | .push value => some value
  | _ => none

def popHandler? : QueueOp H W α → Option H
  | .asyncPop handler => some handler
  | _ => none

end QueueOp

namespace Completion

variable {H W α : Type}

def popHandler? : Completion H W α → Option H
  | .pop handler _ _ => some handler
  | .wait _ _ => none

def delivered? : Completion H W α → Option α
  | .pop _ .success value => some value
  | _ => none

end Completion

namespace AsyncCoroQueue

variable {H W α : Type}

def apply [Inhabited α] (q : AsyncCoroQueue H W α) : QueueOp H W α →
    AsyncCoroQueue H W α × List (Completion H W α)
  | .push value => q.push value
  | .asyncPop handler => q.asyncPop handler
  | .asyncWait handler => q.asyncWait handler
  | .cancele => q.cancele
  | .clear => q.clear

/-- The values an operation takes out of the container or past it, with what becomes of them. A push onto a full circular buffer overwrites the oldest value. -/
def settles (q : AsyncCoroQueue H W α) : QueueOp H W α → List (α × Fate)
  | .push value =>
    if q.mHandlers.any (fun waiter => !waiter.timedOuted) then [(value, .delivered)]
    else if q.container.full q.mList.length then (q.mList.take 1).map (·, .overwritten)
    else []
  | .asyncPop _ => (q.mList.take 1).map (·, .delivered)
  | .clear => q.mList.map (·, .cleared)
  | .asyncWait _ => []
  | .cancele => []

structure Settled (q : AsyncCoroQueue H W α) : Prop where
  handlers : q.mList = [] ∨ q.mHandlers = []
  waitHandlers : q.mList = [] ∨ q.mWaitHandlers = []
  untimed : ∀ waiter ∈ q.mHandlers, waiter.timedOuted = false

theorem Settled.new (container : Container) : (AsyncCoroQueue.new container : AsyncCoroQueue H W α).Settled :=
  ⟨.inl rfl, .inl rfl, by simp [AsyncCoroQueue.new]⟩

variable [Inhabited α]

theorem cancele_mList (q : AsyncCoroQueue H W α) : q.cancele.1.mList = q.mList := by
  unfold cancele
  split <;> rfl

variable {q : AsyncCoroQueue H W α} {fate : Fate}

theorem Settled.cancele (hq : q.Settled) : q.cancele.1.Settled := by
  refine ⟨.inr (cancele_mHandlers q), ?_, by simp [cancele_mHandlers]⟩
  rw [cancele_mList]
  unfold AsyncCoroQueue.cancele
  split
  · exact hq.waitHandlers
  · exact .inr rfl

theorem cancele_popHandlers (hq : q.Settled) :
    q.cancele.2.filterMap Completion.popHandler? = q.mHandlers.map PopWaiter.handler := by
  unfold cancele
  split
  · rename_i hnil
    simp [hnil]
  · rename_i waiter waiters hcons
    rw [filterMap_append, filterMap_map]
    have hwaits : q.mWaitHandlers.filterMap
        (Completion.popHandler? ∘ fun w => (.wait w .operationCanceled : Completion H W α)) = [] := by
      simp [Completion.popHandler?, comp_def]
    rw [hwaits, nil_append]
    have huntimed := hq.untimed
    generalize q.mHandlers = waiting at huntimed ⊢
    induction waiting with
    | nil => rfl
    | cons first rest ih =>
      have hfirst : first.timedOuted = false := huntimed first (by simp)
      have hrest := ih fun waiter hmem => huntimed waiter (mem_cons_of_mem _ hmem)
      simp [cancelWaiter, hfirst, Completion.popHandler?, hrest]

theorem cancele_delivered (q : AsyncCoroQueue H W α) : q.cancele.2.filterMap Completion.delivered? = [] := by
  unfold cancele
  split
  · rfl
  · rw [filterMap_eq_nil_iff]
    intro completion hmem
    rcases mem_append.mp hmem with hmem | hmem
    · obtain ⟨handler, _, rfl⟩ := mem_map.mp hmem
      rfl
    · obtain ⟨waiter, _, hwaiter⟩ := mem_flatMap.mp hmem
      unfold cancelWaiter at hwaiter
      split at hwaiter
      · simp at hwaiter
      · rw [mem_singleton] at hwaiter
        subst hwaiter
        rfl

theorem Settled.apply (hq : q.Settled) (op : QueueOp H W α) : (q.apply op).1.Settled := by
  cases op with
  | push value =>
    cases hwaiters : q.mHandlers with
    | nil =>
      simp only [AsyncCoroQueue.apply, push_of_no_waiter hwaiters]
      exact ⟨.inr hwaiters, .inr rfl, by simp [hwaiters]⟩
    | cons waiter waiters =>
      have huntimed := hq.untimed
      rw [hwaiters] at huntimed
      have hlist : q.mList = [] := hq.handlers.resolve_right (by simp [hwaiters])
      simp only [AsyncCoroQueue.apply, push_of_waiter hwaiters (huntimed waiter (by simp))]
      exact ⟨.inl hlist, .inl hlist, fun w hw => huntimed w (mem_cons_of_mem _ hw)⟩
  | asyncPop handler =>
    cases hlist : q.mList with
    | nil =>
      simp only [AsyncCoroQueue.apply, asyncPop_of_nil hlist]
      refine ⟨.inl hlist, .inl hlist, fun waiter hmem => ?_⟩
      rcases mem_append.mp hmem with hmem | hmem
      · exact hq.untimed waiter hmem
      · rw [mem_singleton] at hmem
        rw [hmem]
    | cons value rest =>
      simp only [AsyncCoroQueue.apply, asyncPop_of_cons hlist]
      exact ⟨.inr (hq.handlers.resolve_left (by simp [hlist])),
        .inr (hq.waitHandlers.resolve_left (by simp [hlist])), hq.untimed⟩
  | asyncWait handler =>
    simp only [AsyncCoroQueue.apply, AsyncCoroQueue.asyncWait]
    split
    · rename_i hlist
      exact ⟨.inl hlist, .inl hlist, hq.untimed⟩
    · exact hq
  | cancele => exact hq.cancele
  | clear => exact ⟨.inl rfl, .inl rfl, hq.cancele.untimed⟩

omit [Inhabited α] in
theorem settles_push_of_waiter (hq : q.Settled)
    (hwaiters : q.mHandlers ≠ []) (value : α) : q.settles (.push value) = [(value, .delivered)] := by
  obtain ⟨waiter, waiters, hcons⟩ := exists_cons_of_ne_nil hwaiters
  have huntimed : waiter.timedOuted = false := hq.untimed waiter (by simp [hcons])
  simp [settles, hcons, huntimed]

theorem apply_account (hq : q.Settled) (op : QueueOp H W α) :
    q.mList ++ op.pushed?.toList = (q.settles op).map Prod.fst ++ (q.apply op).1.mList := by
  cases op with
  | push value =>
    cases hwaiters : q.mHandlers with
    | nil =>
      rw [apply, push_of_no_waiter hwaiters]
      simp only [settles, hwaiters, pushBack, QueueOp.pushed?]
      by_cases hfull : q.container.full q.mList.length = true
      · -- the oldest value goes, unless the buffer of a positive capacity were empty and full
        cases hlist : q.mList with
        | nil =>
          rw [hlist] at hfull
          cases hc : q.container with
          | list => simp [hc, full] at hfull
          | circularBuffer capacity =>
            have := capacity.pos
            simp only [hc, full, length_nil, decide_eq_true_eq] at hfull
            omega
        | cons oldest rest =>
          rw [hlist, length_cons] at hfull
          simp [hfull]
      · simp [hfull]
    | cons waiter waiters =>
      have hne : q.mHandlers ≠ [] := by simp [hwaiters]
      have hlist : q.mList = [] := hq.handlers.resolve_right hne
      rw [settles_push_of_waiter hq hne, apply, push_of_waiter hwaiters (hq.untimed waiter (by simp [hwaiters]))]
      simp [hlist, QueueOp.pushed?]
  | asyncPop handler =>
    cases hlist : q.mList with
    | nil => simp [apply, asyncPop_of_nil hlist, settles, hlist, QueueOp.pushed?]
    | cons value rest =>
      simp [apply, asyncPop_of_cons hlist, settles, hlist, QueueOp.pushed?]
  | asyncWait handler =>
    simp only [apply, asyncWait, settles, QueueOp.pushed?]
    split <;> simp
  | cancele => simp [apply, cancele_mList, settles, QueueOp.pushed?]
  | clear =>
    simp [apply, clear, settles, QueueOp.pushed?, comp_def]

def deliveredOf (account : List (α × Fate)) : List α :=
  (account.filter fun entry => entry.2 = .delivered).map Prod.fst

omit [Inhabited α] in
@[simp] theorem deliveredOf_append (left right : List (α × Fate)) :
    deliveredOf (left ++ right) = deliveredOf left ++ deliveredOf right := by
  simp [deliveredOf]

omit [Inhabited α] in
theorem deliveredOf_sublist (account : List (α × Fate)) : (deliveredOf account).Sublist (account.map Prod.fst) :=
  List.Sublist.map _ filter_sublist

omit [Inhabited α] in
theorem mem_map_fate {value : α} {fate' : Fate} {values : List α} :
    (value, fate) ∈ values.map (·, fate') ↔ value ∈ values ∧ fate' = fate := by
  simp

omit [Inhabited α] in
theorem deliveredOf_map_of_ne (hfate : fate ≠ .delivered) (values : List α) :
    deliveredOf (values.map (·, fate)) = [] := by
  simp [deliveredOf, filter_map, comp_def, hfate]

omit [Inhabited α] in
private theorem filterMap_delivered_waits (handlers : List W) (ec : QueueError) :
    (handlers.map fun h => (.wait h ec : Completion H W α)).filterMap Completion.delivered? = [] := by
  simp [filterMap_map, Completion.delivered?, comp_def]

omit [Inhabited α] in
private theorem filterMap_popHandler_waits (handlers : List W) (ec : QueueError) :
    (handlers.map fun h => (.wait h ec : Completion H W α)).filterMap Completion.popHandler? = [] := by
  simp [filterMap_map, Completion.popHandler?, comp_def]

theorem apply_delivered (hq : q.Settled) (op : QueueOp H W α) :
    (q.apply op).2.filterMap Completion.delivered? = deliveredOf (q.settles op) := by
  cases op with
  | push value =>
    cases hwaiters : q.mHandlers with
    | nil =>
      rw [apply, push_of_no_waiter hwaiters, filterMap_delivered_waits]
      simp only [settles, hwaiters, any_nil, Bool.false_eq_true, if_false]
      split
      · exact (deliveredOf_map_of_ne (by decide) _).symm
      · rfl
    | cons waiter waiters =>
      rw [settles_push_of_waiter hq (by simp [hwaiters]), apply,
        push_of_waiter hwaiters (hq.untimed waiter (by simp [hwaiters])),
        filterMap_append, filterMap_delivered_waits]
      rfl
  | asyncPop handler =>
    cases hlist : q.mList with
    | nil => simp [apply, asyncPop_of_nil hlist, settles, hlist, deliveredOf]
    | cons value rest =>
      simp [apply, asyncPop_of_cons hlist, settles, hlist, deliveredOf, Completion.delivered?]
  | asyncWait handler =>
    simp only [apply, asyncWait, settles]
    split <;> simp [deliveredOf, Completion.delivered?]
  | cancele => simpa [apply, settles, deliveredOf] using cancele_delivered q
  | clear =>
    rw [settles, deliveredOf_map_of_ne (by decide)]
    exact cancele_delivered q

theorem apply_popHandlers (hq : q.Settled) (op : QueueOp H W α) :
    q.mHandlers.map PopWaiter.handler ++ op.popHandler?.toList =
      (q.apply op).2.filterMap Completion.popHandler? ++
        (q.apply op).1.mHandlers.map PopWaiter.handler := by
  cases op with
  | push value =>
    cases hwaiters : q.mHandlers with
    | nil =>
      rw [apply, push_of_no_waiter hwaiters, filterMap_popHandler_waits]
      simp [hwaiters, QueueOp.popHandler?]
    | cons waiter waiters =>
      rw [apply,
        push_of_waiter hwaiters (hq.untimed waiter (by simp [hwaiters])),
        filterMap_append, filterMap_popHandler_waits]
      simp [QueueOp.popHandler?, Completion.popHandler?]
  | asyncPop handler =>
    cases hlist : q.mList with
    | nil => simp [apply, asyncPop_of_nil hlist, QueueOp.popHandler?]
    | cons value rest =>
      have hnone : q.mHandlers = [] := hq.handlers.resolve_left (by simp [hlist])
      simp [apply, asyncPop_of_cons hlist, hnone, QueueOp.popHandler?, Completion.popHandler?]
  | asyncWait handler =>
    simp only [apply, asyncWait]
    split <;> simp [QueueOp.popHandler?, Completion.popHandler?]
  | cancele =>
    simp [apply, cancele_popHandlers hq, cancele_mHandlers, QueueOp.popHandler?]
  | clear =>
    simp [apply, clear, cancele_popHandlers hq, cancele_mHandlers, QueueOp.popHandler?]

end AsyncCoroQueue

structure QueueHistory (H W α : Type) where
  queue : AsyncCoroQueue H W α
  posted : List (Completion H W α)
  account : List (α × Fate)

namespace QueueHistory

open AsyncCoroQueue

variable {H W α : Type} [Inhabited α]

def next (history : QueueHistory H W α) (op : QueueOp H W α) : QueueHistory H W α where
  queue := (history.queue.apply op).1
  posted := history.posted ++ (history.queue.apply op).2
  account := history.account ++ history.queue.settles op

def of (container : Container) (ops : List (QueueOp H W α)) : QueueHistory H W α :=
  ops.foldl next ⟨.new container, [], []⟩

variable (container : Container) (ops : List (QueueOp H W α))

@[simp] theorem of_nil : (of container [] : QueueHistory H W α) = ⟨.new container, [], []⟩ := rfl

@[simp] theorem of_concat (op : QueueOp H W α) : of container (ops ++ [op]) = (of container ops).next op := by
  simp [of]

private theorem filterMap_singleton {β γ : Type} (f : β → Option γ) (x : β) : [x].filterMap f = (f x).toList := by
  cases hf : f x <;> simp [hf]

theorem of_settled : (of container ops).queue.Settled := by
  induction ops using reverseRecOn with
  | nil => exact Settled.new container
  | append_singleton ops op ih =>
    rw [of_concat]
    exact ih.apply op

theorem of_account :
    ops.filterMap QueueOp.pushed? =
      (of container ops).account.map Prod.fst ++ (of container ops).queue.mList := by
  induction ops using reverseRecOn with
  | nil => rfl
  | append_singleton ops op ih =>
    rw [filterMap_append, of_concat, ih, filterMap_singleton, append_assoc, apply_account (of_settled container ops) op]
    simp [next]

theorem of_delivered :
    (of container ops).posted.filterMap Completion.delivered? =
      deliveredOf (of container ops).account := by
  induction ops using reverseRecOn with
  | nil => rfl
  | append_singleton ops op ih =>
    rw [of_concat]
    simp only [next, filterMap_append, deliveredOf_append, ih, apply_delivered (of_settled container ops) op]

theorem of_popHandlers :
    ops.filterMap QueueOp.popHandler? =
      (of container ops).posted.filterMap Completion.popHandler? ++
        (of container ops).queue.mHandlers.map PopWaiter.handler := by
  induction ops using reverseRecOn with
  | nil => rfl
  | append_singleton ops op ih =>
    rw [filterMap_append, of_concat, ih, filterMap_singleton, append_assoc,
      apply_popHandlers (of_settled container ops) op]
    simp [next]

theorem exists_settles_of_mem_account {entry : α × Fate} (hentry : entry ∈ (of container ops).account) :
    ∃ before op after, ops = before ++ op :: after ∧
      entry ∈ (of container before).queue.settles op := by
  induction ops using reverseRecOn with
  | nil => simp at hentry
  | append_singleton ops op ih =>
    rw [of_concat] at hentry
    rcases mem_append.mp hentry with hentry | hentry
    · obtain ⟨before, earlier, after, rfl, hsettles⟩ := ih hentry
      exact ⟨before, earlier, after ++ [op], by simp, hsettles⟩
    · exact ⟨ops, op, [], rfl, hentry⟩

variable {value : α}

omit [Inhabited α] in
theorem cases_of_mem_settles {q : AsyncCoroQueue H W α} {op : QueueOp H W α} {fate : Fate}
    (hmem : (value, fate) ∈ q.settles op) :
    fate = .delivered ∨
      (fate = .overwritten ∧ (∃ pushed, op = .push pushed) ∧ q.container.full q.mList.length = true ∧
        q.mList.head? = some value) ∨
      (fate = .cleared ∧ op = .clear ∧ value ∈ q.mList) := by
  cases op with
  | push pushed =>
    simp only [settles] at hmem
    split at hmem
    · exact .inl (Prod.mk.inj (mem_singleton.mp hmem)).2
    · split at hmem
      case isTrue hfull =>
        obtain ⟨hvalue, rfl⟩ := mem_map_fate.mp hmem
        refine .inr (.inl ⟨rfl, ⟨pushed, rfl⟩, hfull, ?_⟩)
        cases hlist : q.mList with
        | nil => simp [hlist] at hvalue
        | cons oldest rest => simpa [hlist, eq_comm] using hvalue
      case isFalse => cases hmem
  | asyncPop handler => exact .inl (mem_map_fate.mp hmem).2.symm
  | clear =>
    obtain ⟨hvalue, rfl⟩ := mem_map_fate.mp hmem
    exact .inr (.inr ⟨rfl, rfl, hvalue⟩)
  | asyncWait handler => cases hmem
  | cancele => cases hmem

theorem overwritten_origin (hvalue : (value, Fate.overwritten) ∈ (of container ops).account) :
    ∃ before pushed after capacity, ops = before ++ .push pushed :: after ∧
      (of container before).queue.container = .circularBuffer capacity ∧
      capacity.val ≤ (of container before).queue.mList.length ∧
      (of container before).queue.mList.head? = some value := by
  obtain ⟨before, op, after, rfl, hsettles⟩ := exists_settles_of_mem_account container ops hvalue
  rcases cases_of_mem_settles hsettles with hfate | ⟨-, ⟨pushed, rfl⟩, hfull, holdest⟩ | ⟨hfate, -⟩
  · cases hfate
  · cases hcontainer : (of container before).queue.container with
    | list => simp [hcontainer, full] at hfull
    | circularBuffer capacity =>
      refine ⟨before, pushed, after, capacity, rfl, hcontainer, ?_, holdest⟩
      simpa [hcontainer, full] using hfull
  · cases hfate

theorem cleared_origin (hvalue : (value, Fate.cleared) ∈ (of container ops).account) :
    ∃ before after, ops = before ++ .clear :: after ∧
      value ∈ (of container before).queue.mList := by
  obtain ⟨before, op, after, rfl, hsettles⟩ := exists_settles_of_mem_account container ops hvalue
  rcases cases_of_mem_settles hsettles with hfate | ⟨hfate, -⟩ | ⟨-, rfl, hmem⟩
  · cases hfate
  · cases hfate
  · exact ⟨before, after, rfl, hmem⟩

/-- No value and no waiter are kept side by side. The values posted without an error are a subsequence of the pushed ones; the others were overwritten in a full circular buffer, thrown away by `clear`, or are still there. Every handler given to `async_pop` was posted once or still waits. -/
theorem of_first_in_first_out (container : Container) (ops : List (QueueOp H W α)) :
    ((of container ops).queue.mList = [] ∨ (of container ops).queue.mHandlers = []) ∧
    ((of container ops).queue.mList = [] ∨ (of container ops).queue.mWaitHandlers = []) ∧
    ops.filterMap QueueOp.pushed? =
      (of container ops).account.map Prod.fst ++ (of container ops).queue.mList ∧
    (of container ops).posted.filterMap Completion.delivered? =
      deliveredOf (of container ops).account ∧
    ((of container ops).posted.filterMap Completion.delivered?).Sublist
      (ops.filterMap QueueOp.pushed?) ∧
    (∀ value, (value, Fate.overwritten) ∈ (of container ops).account →
      ∃ before pushed after capacity, ops = before ++ .push pushed :: after ∧
        (of container before).queue.container = .circularBuffer capacity ∧
        capacity.val ≤ (of container before).queue.mList.length ∧
        (of container before).queue.mList.head? = some value) ∧
    (∀ value, (value, Fate.cleared) ∈ (of container ops).account →
      ∃ before after, ops = before ++ .clear :: after ∧
        value ∈ (of container before).queue.mList) ∧
    ops.filterMap QueueOp.popHandler? =
      (of container ops).posted.filterMap Completion.popHandler? ++
        (of container ops).queue.mHandlers.map PopWaiter.handler := by
  have hsettled := of_settled container ops
  refine ⟨hsettled.handlers, hsettled.waitHandlers, of_account container ops,
    of_delivered container ops, ?_, fun _ => overwritten_origin container ops,
    fun _ => cleared_origin container ops, of_popHandlers container ops⟩
  rw [of_delivered, of_account container ops]
  exact (deliveredOf_sublist _).trans (sublist_append_left _ _)

end QueueHistory

namespace AsyncCoroQueue

variable {H W α : Type} [Inhabited α]

/-- Each waiting handler gets `operation_canceled` once, nothing else is posted, nobody waits any more, and the values are untouched. -/
def CancelsAll (q : AsyncCoroQueue H W α) : Prop :=
  q.cancele.2.Perm (q.mWaitHandlers.map (.wait · .operationCanceled) ++
    q.mHandlers.map fun waiter => .pop waiter.handler .operationCanceled default) ∧
  q.cancele.1.mHandlers = [] ∧ q.cancele.1.mWaitHandlers = [] ∧ q.cancele.1.mList = q.mList

variable {q : AsyncCoroQueue H W α}

theorem cancele_of_waiter (hq : q.mHandlers ≠ []) :
    q.cancele = ({ q with mHandlers := [], mWaitHandlers := [] },
      q.mWaitHandlers.map (.wait · .operationCanceled) ++ q.mHandlers.flatMap cancelWaiter) := by
  obtain ⟨waiter, waiters, hcons⟩ := exists_cons_of_ne_nil hq
  simp only [cancele, hcons]

theorem Settled.flatMap_cancelWaiter (hq : q.Settled) :
    q.mHandlers.flatMap cancelWaiter =
      q.mHandlers.map fun waiter => (.pop waiter.handler .operationCanceled default : Completion H W α) := by
  rw [map_eq_flatMap]
  apply flatMap_congr
  intro waiter hmem
  rw [cancelWaiter, hq.untimed waiter hmem]
  rfl

end AsyncCoroQueue

namespace QueueHistory

open AsyncCoroQueue

variable {H W α : Type} [Inhabited α]

/-- `cancele` looks at the waiting handlers only if some pop handler waits as well. -/
theorem cancelsAll_iff (container : Container) (ops : List (QueueOp H W α)) :
    (of container ops).queue.CancelsAll ↔
      (of container ops).queue.mHandlers ≠ [] ∨ (of container ops).queue.mWaitHandlers = [] := by
  have hsettled := of_settled container ops
  generalize (of container ops).queue = q at hsettled ⊢
  by_cases hhandlers : q.mHandlers = []
  · rw [CancelsAll, cancele_of_no_waiter hhandlers, hhandlers]
    constructor
    · intro hcancels
      exact .inr hcancels.2.2.1
    · intro hnone
      have hwaits := hnone.resolve_left fun hne => hne rfl
      rw [hwaits]
      exact ⟨List.Perm.refl _, rfl, rfl, rfl⟩
  · apply iff_of_true _ (.inl hhandlers)
    rw [CancelsAll, cancele_of_waiter hhandlers, hsettled.flatMap_cancelWaiter]
    exact ⟨List.Perm.refl _, rfl, rfl, rfl⟩

/-- A coroutine that waits alone is not told. -/
theorem lone_wait_not_cancelled :
    ((of .list [.asyncWait 0] : QueueHistory Nat Nat Nat).queue.cancele.2 = [] ∧
      (of .list [.asyncWait 0] : QueueHistory Nat Nat Nat).queue.cancele.1.mWaitHandlers = [0]) ∧
    ¬ (of .list [.asyncWait 0] : QueueHistory Nat Nat Nat).queue.CancelsAll := by
  refine ⟨by decide, ?_⟩
  intro hcancels
  exact absurd hcancels.2.2.1 (by decide)

end QueueHistory

end Avbot
