import Avbot.Base.ErrorCode
import Avbot.Lib.EventMachine
import Avbot.Queue.History

/-!
# The group message sender

`group_message_sender_op` takes messages from `m_group_message_queue` and posts them to the server, one at a time. The model is its list of suspension points and, for each, what the coroutine does when it is resumed. The message it has taken lives in the argument `v` of its continuation and nowhere else.
-/

namespace Avbot

open List AsyncCoroQueue EventMachine Option

/-- The tuple in the queue: the group's `gid`, the text, and the callback for the result. -/
structure GroupMessage where
  group : Str
  msg : Str
  donecb : Nat
  deriving DecidableEq, Inhabited

inductive SenderPoint where
  | firstPop
  | waitOnline (v : GroupMessage) (ec : ErrorCode)
  | sending (v : GroupMessage)
  | pacing (v : GroupMessage) (ec : ErrorCode)
  | pop
  | ended
  deriving DecidableEq

namespace SenderPoint

def held : SenderPoint → List GroupMessage
  | .waitOnline v _ => [v]
  | _ => []

end SenderPoint

/-- A request started by `send_group_message`, with the status its loop test has just read. -/
structure Submission where
  message : GroupMessage
  status : LwqqStatus
  deriving DecidableEq

abbrev SenderQueue := AsyncCoroQueue SenderPoint Unit GroupMessage

structure SenderWorld where
  mStatus : LwqqStatus
  mPsessionid : Str
  mGroupMessageQueue : SenderQueue
  posted : List (Completion SenderPoint Unit GroupMessage)
  point : SenderPoint
  pushed : List GroupMessage
  taken : List GroupMessage
  submissions : List Submission
  reported : List (GroupMessage × ErrorCode)
  deriving DecidableEq

inductive SenderEvent where
  | sendGroupMessage (v : GroupMessage)
  | status (s : LwqqStatus)
  | psessionid (s : Str)
  | stop
  | dispatch
  | timer
  | http (ec : ErrorCode)
  deriving DecidableEq

namespace SenderWorld

/-- The queue as `WebQQ::WebQQ` builds it and the first `async_pop` of the constructor. A cached session makes the main loop start in the state `ONLINE`. -/
def start (cached : Bool) (psessionid : Str) : SenderWorld where
  mStatus := if cached then .online else .offline
  mPsessionid := psessionid
  mGroupMessageQueue := ((new (.circularBuffer 20) : SenderQueue).asyncPop .firstPop).1
  posted := ((new (.circularBuffer 20) : SenderQueue).asyncPop .firstPop).2
  point := .firstPop
  pushed := []
  taken := []
  submissions := []
  reported := []

def submit (w : SenderWorld) (v : GroupMessage) : SenderWorld :=
  { w with point := .sending v, submissions := w.submissions ++ [⟨v, w.mStatus⟩] }

/-- From the test of the first inner loop to the next suspension. When that loop is left the second one's test reads the same status. -/
def waitTest (w : SenderWorld) (v : GroupMessage) (ec : ErrorCode) : SenderWorld :=
  if w.mStatus ≠ .online ∨ w.mPsessionid = [] then { w with point := .waitOnline v ec }
  else w.submit v

def outerTest (w : SenderWorld) (v : GroupMessage) (ec : ErrorCode) : SenderWorld :=
  if w.mStatus = .quitting then { w with point := .ended } else w.waitTest v ec

def sendTest (w : SenderWorld) (v : GroupMessage) (ec : ErrorCode) : SenderWorld :=
  if w.mStatus = .online then w.submit v else w.outerTest v ec

def asyncPop (w : SenderWorld) : SenderWorld :=
  { w with
    mGroupMessageQueue := (w.mGroupMessageQueue.asyncPop .pop).1
    posted := w.posted ++ (w.mGroupMessageQueue.asyncPop .pop).2
    point := .pop }

def popped (w : SenderWorld) (point : SenderPoint) (ec : QueueError) (v : GroupMessage) :
    SenderWorld :=
  match ec with
  | .operationCanceled => { w with point := .ended }
  | .success =>
    match point with
    | .firstPop => { w with taken := w.taken ++ [v] }.outerTest v .success
    | _ => { w with taken := w.taken ++ [v] }.sendTest v .success

def step (w : SenderWorld) : SenderEvent → Option SenderWorld
  | .sendGroupMessage v => some
      { w with
        mGroupMessageQueue := (w.mGroupMessageQueue.push v).1
        posted := w.posted ++ (w.mGroupMessageQueue.push v).2
        pushed := w.pushed ++ [v] }
  | .status s => some { w with mStatus := s }
  | .psessionid s => some { w with mPsessionid := s }
  | .stop => some
      { w with
        mGroupMessageQueue := w.mGroupMessageQueue.cancele.1
        posted := w.posted ++ w.mGroupMessageQueue.cancele.2
        mStatus := .quitting }
  | .dispatch =>
    match w.posted with
    | [] => none
    | .wait _ _ :: rest => some { w with posted := rest }
    | .pop point ec v :: rest => some ({ w with posted := rest }.popped point ec v)
  | .timer =>
    match w.point with
    | .waitOnline v ec => some (w.waitTest v ec)
    | .pacing _ _ => some w.asyncPop
    | _ => none
  | .http ec =>
    match w.point with
    | .sending v =>
      if ec.isCanceled then some { w with point := .ended }
      else some { w with point := .pacing v ec, reported := w.reported ++ [(v, ec)] }
    | _ => none

/-- An event of a run in which nobody quits: no change to `QUITTING`, no `stop`, no cancelled request. -/
def Undisturbed (_ : SenderWorld) : SenderEvent → Prop
  | .status s => s ≠ .quitting
  | .stop => False
  | .http ec => ec.isCanceled = false
  | _ => True

def inFlight (w : SenderWorld) : List GroupMessage := w.posted.filterMap Completion.delivered?

/-- One pop handler while the coroutine waits for a message, in the queue or on its way with a value, and none while it does anything else. -/
def OneHandler (w : SenderWorld) : Prop :=
  if w.point = .firstPop ∨ w.point = .pop then
    (w.mGroupMessageQueue.mHandlers = [⟨false, w.point⟩] ∧ w.mGroupMessageQueue.mList = [] ∧
      w.posted = []) ∨
    (w.mGroupMessageQueue.mHandlers = [] ∧ ∃ v, w.posted = [.pop w.point .success v])
  else w.mGroupMessageQueue.mHandlers = [] ∧ w.posted = []

structure Inv (w : SenderWorld) : Prop where
  running : w.mStatus ≠ .quitting
  alive : w.point ≠ .ended
  noWaiters : w.mGroupMessageQueue.mWaitHandlers = []
  oneHandler : w.OneHandler
  inOrder : (w.taken ++ w.inFlight ++ w.mGroupMessageQueue.mList).Sublist w.pushed
  submitted : w.taken = w.submissions.map Submission.message ++ w.point.held
  online : ∀ s ∈ w.submissions, s.status = .online

theorem start_inv (cached : Bool) (psessionid : Str) : (start cached psessionid).Inv where
  running := by cases cached <;> simp [start]
  alive := by simp [start]
  noWaiters := rfl
  oneHandler := .inl ⟨rfl, rfl, rfl⟩
  inOrder := by simp [start, inFlight, new, AsyncCoroQueue.asyncPop]
  submitted := rfl
  online := by simp [start]

structure Holding (w : SenderWorld) (v : GroupMessage) : Prop where
  running : w.mStatus ≠ .quitting
  noWaiters : w.mGroupMessageQueue.mWaitHandlers = []
  noHandler : w.mGroupMessageQueue.mHandlers = []
  nothingPosted : w.posted = []
  inOrder : (w.taken ++ w.mGroupMessageQueue.mList).Sublist w.pushed
  submitted : w.taken = w.submissions.map Submission.message ++ [v]
  online : ∀ s ∈ w.submissions, s.status = .online

variable {w w' : SenderWorld} {v : GroupMessage} {ec : ErrorCode}

theorem Holding.submit (hw : w.Holding v) (honline : w.mStatus = .online) : (w.submit v).Inv where
  running := hw.running
  alive := by simp [SenderWorld.submit]
  noWaiters := hw.noWaiters
  oneHandler := by
    rw [OneHandler, if_neg (by simp [SenderWorld.submit])]
    exact ⟨hw.noHandler, hw.nothingPosted⟩
  inOrder := by
    simpa [SenderWorld.submit, inFlight, hw.nothingPosted] using hw.inOrder
  submitted := by simp [SenderWorld.submit, hw.submitted, SenderPoint.held]
  online := by
    intro s hs
    rcases mem_append.mp hs with hs | hs
    · exact hw.online s hs
    · rw [mem_singleton] at hs
      rw [hs, honline]

theorem Holding.waitTest (hw : w.Holding v) (ec : ErrorCode) : (w.waitTest v ec).Inv := by
  rw [SenderWorld.waitTest]
  split
  · -- not yet logged in: the message stays in the continuation of the 20 s timer
    exact {
      running := hw.running
      alive := by simp
      noWaiters := hw.noWaiters
      oneHandler := by
        rw [OneHandler, if_neg (by simp)]
        exact ⟨hw.noHandler, hw.nothingPosted⟩
      inOrder := by simpa [inFlight, hw.nothingPosted] using hw.inOrder
      submitted := by simp [hw.submitted, SenderPoint.held]
      online := hw.online }
  · rename_i hready
    rw [not_or, not_not] at hready
    exact hw.submit hready.1

theorem Holding.outerTest (hw : w.Holding v) (ec : ErrorCode) : (w.outerTest v ec).Inv := by
  rw [SenderWorld.outerTest, if_neg hw.running]
  exact hw.waitTest ec

theorem Holding.sendTest (hw : w.Holding v) (ec : ErrorCode) : (w.sendTest v ec).Inv := by
  rw [SenderWorld.sendTest]
  split
  · rename_i honline
    exact hw.submit honline
  · exact hw.outerTest ec

section

variable (hw : w.Inv)

include hw

theorem Inv.holding_of_posted {point : SenderPoint} (hpoint : w.point = point) (hpop : point = .firstPop ∨ point = .pop)
    (hposted : w.posted = [.pop point .success v]) (hhandlers : w.mGroupMessageQueue.mHandlers = []) :
    ({ w with posted := [], taken := w.taken ++ [v] } : SenderWorld).Holding v where
  running := hw.running
  noWaiters := hw.noWaiters
  noHandler := hhandlers
  nothingPosted := rfl
  inOrder := by
    have horder := hw.inOrder
    rw [inFlight, hposted] at horder
    simpa [Completion.delivered?] using horder
  submitted := by
    have hheld : w.point.held = [] := by
      rcases hpop with rfl | rfl <;> rw [hpoint] <;> rfl
    simp [hw.submitted, hheld]
  online := hw.online

theorem Inv.holding_of_waitOnline (hpoint : w.point = .waitOnline v ec) : w.Holding v := by
  have hone := hw.oneHandler
  rw [OneHandler, if_neg (by simp [hpoint])] at hone
  refine ⟨hw.running, hw.noWaiters, hone.1, hone.2, ?_, ?_, hw.online⟩
  · simpa [inFlight, hone.2] using hw.inOrder
  · rw [hw.submitted, hpoint]
    rfl

theorem step_dispatch_inv (hstep : w.step .dispatch = some w') : w'.Inv := by
  have hone := hw.oneHandler
  rw [OneHandler] at hone
  split at hone
  · rename_i hpop
    rcases hone with ⟨_, _, hposted⟩ | ⟨hhandlers, v, hposted⟩
    · simp [step, hposted] at hstep
    · have hholding := hw.holding_of_posted rfl hpop hposted hhandlers
      simp only [step, hposted, some.injEq] at hstep
      subst hstep
      rcases hpop with hpoint | hpoint
      · simp only [popped, hpoint]
        exact hholding.outerTest _
      · simp only [popped, hpoint]
        exact hholding.sendTest _
  · simp [step, hone.2] at hstep

theorem asyncPop_inv (hheld : w.point.held = [])
    (hhandlers : w.mGroupMessageQueue.mHandlers = []) (hposted : w.posted = []) :
    w.asyncPop.Inv := by
  have horder := hw.inOrder
  simp only [inFlight, hposted, filterMap_nil, append_nil] at horder
  cases hlist : w.mGroupMessageQueue.mList with
  | nil =>
    rw [hlist, append_nil] at horder
    exact {
      running := hw.running
      alive := by simp [asyncPop]
      noWaiters := by simp [asyncPop, asyncPop_of_nil hlist, hw.noWaiters]
      oneHandler := by
        rw [OneHandler, if_pos (.inr rfl)]
        left
        simp [asyncPop, asyncPop_of_nil hlist, hhandlers, hlist, hposted]
      inOrder := by simpa [asyncPop, inFlight, asyncPop_of_nil hlist, hlist, hposted] using horder
      submitted := by
        change w.taken = w.submissions.map Submission.message ++ []
        rw [hw.submitted, hheld]
      online := hw.online }
  | cons v rest =>
    rw [hlist] at horder
    exact {
      running := hw.running
      alive := by simp [asyncPop]
      noWaiters := by simp [asyncPop, asyncPop_of_cons hlist, hw.noWaiters]
      oneHandler := by
        rw [OneHandler, if_pos (.inr rfl)]
        right
        simp [asyncPop, asyncPop_of_cons hlist, hhandlers, hposted]
      inOrder := by
        simpa [asyncPop, inFlight, asyncPop_of_cons hlist, hposted, Completion.delivered?]
          using horder
      submitted := by
        change w.taken = w.submissions.map Submission.message ++ []
        rw [hw.submitted, hheld]
      online := hw.online }

theorem step_timer_inv (hstep : w.step .timer = some w') : w'.Inv := by
  cases hpoint : w.point with
  | waitOnline v ec =>
    simp only [step, hpoint, some.injEq] at hstep
    subst hstep
    exact (hw.holding_of_waitOnline hpoint).waitTest ec
  | pacing v ec =>
    simp only [step, hpoint, some.injEq] at hstep
    subst hstep
    have hone := hw.oneHandler
    rw [OneHandler, if_neg (by simp [hpoint])] at hone
    exact asyncPop_inv hw (by rw [hpoint]; rfl) hone.1 hone.2
  | _ => simp [step, hpoint] at hstep

theorem step_http_inv (hec : ec.isCanceled = false) (hstep : w.step (.http ec) = some w') : w'.Inv := by
  cases hpoint : w.point with
  | sending v =>
    simp only [step, hpoint, hec, Bool.false_eq_true, if_false, some.injEq] at hstep
    subst hstep
    have hone := hw.oneHandler
    rw [OneHandler, if_neg (by simp [hpoint])] at hone
    refine { hw with alive := by simp, oneHandler := ?_, submitted := ?_ }
    · rw [OneHandler, if_neg (by simp)]
      exact hone
    · rw [hw.submitted, hpoint]
      rfl
  | _ => simp [step, hpoint] at hstep

theorem step_push_inv (hstep : w.step (.sendGroupMessage v) = some w') : w'.Inv := by
  simp only [step, some.injEq] at hstep
  subst hstep
  have horder := hw.inOrder.append (List.Sublist.refl [v])
  have hone := hw.oneHandler
  by_cases hwaiting : w.mGroupMessageQueue.mHandlers = []
  · -- nobody waits: the message joins the buffer, where it may push out an older one
    rw [push_of_no_waiter hwaiting, hw.noWaiters, map_nil, append_nil]
    refine { hw with noWaiters := rfl, oneHandler := ?_, inOrder := ?_ }
    · rw [OneHandler] at hone ⊢
      split at hone
      · rename_i hpop
        rw [if_pos hpop]
        refine .inr (hone.resolve_left ?_)
        rintro ⟨hhandlers, _⟩
        simp [hwaiting] at hhandlers
      · rename_i hpop
        rw [if_neg hpop]
        exact hone
    · refine List.Sublist.trans ?_ horder
      rw [append_assoc _ _ [v]]
      exact (List.Sublist.refl _).append (Container.pushBack_sublist _ _ _)
  · -- the coroutine waits, so the buffer is empty and the message goes to it at once
    rw [OneHandler] at hone
    split at hone
    · rename_i hpop
      rcases hone with ⟨hhandlers, hlist, hposted⟩ | ⟨hhandlers, _⟩
      · rw [push_of_waiter hhandlers rfl, hw.noWaiters, map_nil, nil_append, hposted, nil_append]
        refine { hw with noWaiters := rfl, oneHandler := ?_, inOrder := ?_ }
        · rw [OneHandler, if_pos hpop]
          exact .inr ⟨rfl, v, rfl⟩
        · simpa [inFlight, hlist, hposted, Completion.delivered?] using horder
      · exact absurd hhandlers hwaiting
    · exact absurd hone.1 hwaiting

theorem step_inv {e : SenderEvent} (he : w.Undisturbed e) (hstep : w.step e = some w') : w'.Inv := by
  cases e with
  | sendGroupMessage v => exact step_push_inv hw hstep
  | status s =>
    simp only [step, some.injEq] at hstep
    subst hstep
    exact { hw with running := he }
  | psessionid s =>
    simp only [step, some.injEq] at hstep
    subst hstep
    exact { hw with }
  | stop => exact he.elim
  | dispatch => exact step_dispatch_inv hw hstep
  | timer => exact step_timer_inv hw hstep
  | http ec => exact step_http_inv hw he hstep

end

theorem run_inv {cached : Bool} {psessionid : Str} {events : List SenderEvent}
    (hmeets : Meets step Undisturbed (start cached psessionid) events)
    (hrun : run step (start cached psessionid) events = some w) : w.Inv :=
  invariant_of_meets (fun _ _ _ hs he hstep => step_inv hs he hstep) (start_inv cached psessionid)
    hmeets hrun

theorem timer_submits_held (hheld : w.point.held = [v]) (honline : w.mStatus = .online)
    (hsession : w.mPsessionid ≠ []) : w.step .timer = some (w.submit v) := by
  cases hpoint : w.point with
  | waitOnline u ec =>
    obtain rfl : u = v := by simpa [hpoint, SenderPoint.held] using hheld
    simp [step, hpoint, waitTest, honline, hsession]
  | _ => simp [hpoint, SenderPoint.held] at hheld

/-- The messages taken from the queue are, in the order of the pushes, those submitted followed by at most one that still waits for the login, and every submission was started under the status `ONLINE`. -/
theorem run_submits_in_order {cached : Bool} {psessionid : Str} {events : List SenderEvent}
    {w : SenderWorld} (hmeets : Meets step Undisturbed (start cached psessionid) events)
    (hrun : run step (start cached psessionid) events = some w) :
    w.taken = w.submissions.map Submission.message ++ w.point.held ∧
    w.taken.Sublist w.pushed ∧
    (∀ s ∈ w.submissions, s.status = .online) ∧
    ∀ v, w.point.held = [v] → w.mStatus = .online → w.mPsessionid ≠ [] →
      w.step .timer = some (w.submit v) := by
  have hw := run_inv hmeets hrun
  refine ⟨hw.submitted, ?_, hw.online, fun v => timer_submits_held⟩
  have htaken : w.taken.Sublist (w.taken ++ w.inFlight ++ w.mGroupMessageQueue.mList) := by
    rw [append_assoc]
    exact sublist_append_left _ _
  exact htaken.trans hw.inOrder

instance decidableUndisturbed (w : SenderWorld) : ∀ e, Decidable (w.Undisturbed e)
  | .status s => inferInstanceAs (Decidable (s ≠ .quitting))
  | .stop => inferInstanceAs (Decidable False)
  | .http ec => inferInstanceAs (Decidable (ec.isCanceled = false))
  | .sendGroupMessage _ => inferInstanceAs (Decidable True)
  | .psessionid _ => inferInstanceAs (Decidable True)
  | .dispatch => inferInstanceAs (Decidable True)
  | .timer => inferInstanceAs (Decidable True)

/-- Two messages pushed before the login, the second while the first waits; the status flips between the timers, and both go out once, in order. -/
def acrossLogin : List SenderEvent :=
  [.sendGroupMessage ⟨['1'], ['a'], 0⟩, .dispatch, .sendGroupMessage ⟨['1'], ['b'], 1⟩, .timer,
    .status .online, .psessionid ['s'], .timer, .http .success, .status .offline, .timer, .dispatch,
    .timer, .status .online, .timer]

theorem run_submits_in_order_across_login :
    Meets step Undisturbed (start false []) acrossLogin ∧
    ∃ w, run step (start false []) acrossLogin = some w ∧
      w.taken = w.submissions.map Submission.message ++ w.point.held ∧
      w.submissions = [⟨⟨['1'], ['a'], 0⟩, .online⟩, ⟨⟨['1'], ['b'], 1⟩, .online⟩] := by
  have hmeets : Meets step Undisturbed (start false []) acrossLogin := by decide
  obtain ⟨w, hrun⟩ : ∃ w, run step (start false []) acrossLogin = some w := ⟨_, rfl⟩
  refine ⟨hmeets, w, hrun, (run_submits_in_order hmeets hrun).1, ?_⟩
  have hsent : (run step (start false []) acrossLogin).map submissions =
      some [⟨⟨['1'], ['a'], 0⟩, .online⟩, ⟨⟨['1'], ['b'], 1⟩, .online⟩] := by decide
  simpa [hrun] using hsent

end SenderWorld

end Avbot
