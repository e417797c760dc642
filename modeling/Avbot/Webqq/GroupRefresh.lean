import Avbot.Base.ErrorCode
import Avbot.Lib.EventMachine
import Avbot.Queue.AsyncCoroQueue

/-!
# Refreshing the groups

`group_refresh_loop_op` takes commands from a queue, one at a time, and waits if the list of groups was asked for less than half an hour ago. It looks at the minutes of the hour and the seconds of the minute, not at the whole duration. Clock readings are in whole seconds; what the loop does is kept in `trail`, the latest entry first.
-/

namespace Avbot

open EventMachine Int List

structure RefreshCommand where
  handler : Option Nat
  gid : Str
  deriving DecidableEq, Inhabited

inductive RefreshEntry where
  | updateGroupList (time : Int)
  | updateGroupMember (gid : Str)
  | called (handler : Nat) (ec : ErrorCode)
  | finished (time : Int)
  deriving DecidableEq

inductive RefreshPoint where
  | popping
  | delay (expiry : Int) (v : RefreshCommand)
  | groupList (v : RefreshCommand)
  | groupMember (v : RefreshCommand)
  | ended
  deriving DecidableEq

structure RefreshLoop where
  mStatus : LwqqStatus
  mGroupRefreshQueue : AsyncCoroQueue Unit Empty RefreshCommand
  /-- Not a time until a command has been finished: the handler of the first pop is a copy made before the constructor sets it. -/
  mLastSync : Option Int
  point : RefreshPoint
  posted : List (Completion Unit Empty RefreshCommand)
  now : Int
  trail : List RefreshEntry

inductive RefreshEvent where
  | popped (curtime : Int)
  | timer (curtime : Int)
  /-- What the clock shows when the loop is resumed and when it finishes the command, and the commands that the handler pushes in between. -/
  | updated (ec : ErrorCode) (curtime finish : Int) (pushed : List RefreshCommand)
  | push (v : RefreshCommand)
  | cancele
  | setStatus (status : LwqqStatus)

/-- `minutes()` and `seconds()` of a duration in seconds: fields of its text, not totals. -/
def durationFields (seconds : Int) : Int × Int := ((seconds.tdiv 60).tmod 60, seconds.tmod 60)

namespace RefreshLoop

def note (w : RefreshLoop) (entry : RefreshEntry) : RefreshLoop := { w with trail := entry :: w.trail }

def push (w : RefreshLoop) (v : RefreshCommand) : RefreshLoop :=
  let (q, posted) := w.mGroupRefreshQueue.push v
  { w with mGroupRefreshQueue := q, posted := w.posted ++ posted }

def startPop (w : RefreshLoop) : RefreshLoop :=
  let (q, posted) := w.mGroupRefreshQueue.asyncPop ()
  { w with mGroupRefreshQueue := q, posted := w.posted ++ posted, point := .popping }

def new (mStatus : LwqqStatus) (now : Int) : RefreshLoop :=
  startPop ⟨mStatus, .new .list, none, .popping, [], now, []⟩

def requestList (w : RefreshLoop) (v : RefreshCommand) (curtime : Int) : RefreshLoop :=
  { w.note (.updateGroupList curtime) with point := .groupList v }

/-- `minutes()` and `seconds()` of the time since the last command. `special` is what they are when one of the times is not a time. -/
def sinceLastSync (w : RefreshLoop) (special : Int × Int) (curtime : Int) : Int × Int :=
  match w.mLastSync with
  | none => special
  | some lastSync => durationFields (curtime - lastSync)

def accept (w : RefreshLoop) (special : Int × Int) (v : RefreshCommand) (curtime : Int) : RefreshLoop :=
  if w.mStatus = .quitting then { w with point := .ended }
  else if v.gid = [] then
    let (minutes, seconds) := w.sinceLastSync special curtime
    if minutes ≤ 30 then { w with point := .delay (curtime + (1800 - seconds)) v } else w.requestList v curtime
  else { w.note (.updateGroupMember v.gid) with point := .groupMember v }

def finish (w : RefreshLoop) (v : RefreshCommand) (ec : ErrorCode) (time : Int) (pushed : List RefreshCommand) : RefreshLoop :=
  let w := match v.handler with
    | some handler => pushed.foldl push (w.note (.called handler ec))
    | none => w
  startPop { w.note (.finished time) with mLastSync := some time, now := time }

def completed (w : RefreshLoop) (ec : ErrorCode) (v again : RefreshCommand) (curtime time : Int)
    (pushed : List RefreshCommand) : RefreshLoop :=
  if ec.isCanceled then { w with now := curtime, point := .ended }
  else (if ec.failed then w.push again else w).finish v ec time pushed

def step (special : Int × Int) (w : RefreshLoop) : RefreshEvent → Option RefreshLoop
  | .popped curtime =>
    match w.point, w.posted with
    | .popping, .pop _ ec v :: posted =>
      if curtime < w.now then none
      else if ec = .operationCanceled then some { w with posted := posted, now := curtime, point := .ended }
      else some ({ w with posted := posted, now := curtime }.accept special v curtime)
    | _, _ => none
  | .timer curtime =>
    match w.point with
    | .delay expiry v =>
      if curtime < w.now ∨ curtime < expiry then none else some ({ w with now := curtime }.requestList v curtime)
    | _ => none
  | .updated ec curtime time pushed =>
    if curtime < w.now ∨ time < curtime then none
    else
      match w.point with
      | .groupList v => some (w.completed ec v v curtime time pushed)
      | .groupMember v => some (w.completed ec v ⟨none, []⟩ curtime time pushed)
      | _ => none
  | .push v => some (w.push v)
  | .cancele =>
    let (q, posted) := w.mGroupRefreshQueue.cancele
    some { w with mGroupRefreshQueue := q, posted := w.posted ++ posted }
  | .setStatus status => some { w with mStatus := status }

def Apart (later earlier : RefreshEntry) : Prop :=
  ∀ request finish, later = .updateGroupList request → earlier = .finished finish → finish + 1800 ≤ request

/-- What the loop keeps up: the last synchronisation is not before any finish and not in the future, and a delay lasts until half an hour after it. -/
structure Paced (w : RefreshLoop) : Prop where
  synced : ∀ t, .finished t ∈ w.trail → ∃ l, w.mLastSync = some l ∧ t ≤ l
  past : ∀ l, w.mLastSync = some l → l ≤ w.now
  delay : ∀ expiry v, w.point = .delay expiry v → ∀ l, w.mLastSync = some l → l + 1800 ≤ expiry
  apart : w.trail.Pairwise Apart

theorem durationFields_of_nonneg {seconds : Int} (hseconds : 0 ≤ seconds) :
    durationFields seconds = (seconds / 60 % 60, seconds % 60) := by
  rw [durationFields, tdiv_eq_ediv_of_nonneg hseconds, tmod_eq_emod_of_nonneg hseconds,
    tmod_eq_emod_of_nonneg (ediv_nonneg hseconds (by decide))]

variable {lastSync curtime time : Int} {w : RefreshLoop} {special : Int × Int}

theorem delay_of_fields (hpast : lastSync ≤ curtime) :
    lastSync + 1800 ≤ curtime + (1800 - (durationFields (curtime - lastSync)).2) := by
  rw [durationFields_of_nonneg (by omega)]
  omega

theorem elapsed_of_fields (hpast : lastSync ≤ curtime)
    (hminutes : ¬ (durationFields (curtime - lastSync)).1 ≤ 30) : lastSync + 1800 ≤ curtime := by
  rw [durationFields_of_nonneg (by omega)] at hminutes
  omega

theorem Paced.push (hw : w.Paced) (v : RefreshCommand) : (w.push v).Paced :=
  ⟨hw.synced, hw.past, hw.delay, hw.apart⟩

theorem Paced.pushes (hw : w.Paced) (vs : List RefreshCommand) : (vs.foldl RefreshLoop.push w).Paced := by
  induction vs generalizing w with
  | nil => exact hw
  | cons v vs ih => exact ih (hw.push v)

theorem Paced.note {w : RefreshLoop} (hw : w.Paced) {entry : RefreshEntry} (hlist : ∀ t, entry ≠ .updateGroupList t)
    (hfinished : ∀ t, entry ≠ .finished t) : (w.note entry).Paced := by
  refine ⟨?_, hw.past, hw.delay, ?_⟩
  · intro t ht
    rcases mem_cons.mp ht with heq | ht
    · exact absurd heq.symm (hfinished t)
    · exact hw.synced t ht
  · apply List.Pairwise.cons ?_ hw.apart
    intro earlier _ request _ hrequest
    exact absurd hrequest (hlist request)

theorem Paced.moveTo (hw : w.Paced) {point : RefreshPoint} (hpoint : ∀ expiry v, point ≠ .delay expiry v) :
    Paced { w with point := point } :=
  ⟨hw.synced, hw.past, fun expiry v h => absurd h (hpoint expiry v), hw.apart⟩

theorem Paced.ended {w : RefreshLoop} (hw : w.Paced) : Paced { w with point := .ended } :=
  hw.moveTo fun _ _ h => RefreshPoint.noConfusion h

theorem Paced.tick (hw : w.Paced) {now : Int} (hnow : w.now ≤ now)
    (posted : List (Completion Unit Empty RefreshCommand)) : Paced { w with posted := posted, now := now } :=
  ⟨hw.synced, fun l hl => le_trans (hw.past l hl) hnow, hw.delay, hw.apart⟩

theorem Paced.requestList (hw : w.Paced) (v : RefreshCommand) (hnow : w.now ≤ curtime)
    (hwaited : ∀ l, w.mLastSync = some l → l + 1800 ≤ curtime) :
    ({ w with now := curtime }.requestList v curtime).Paced := by
  refine ⟨?_, fun l hl => le_trans (hw.past l hl) hnow, fun expiry v h => RefreshPoint.noConfusion h, ?_⟩
  · intro t ht
    rcases mem_cons.mp ht with heq | ht
    · cases heq
    · exact hw.synced t ht
  · apply List.Pairwise.cons ?_ hw.apart
    rintro earlier hmem request finish ⟨⟩ rfl
    obtain ⟨l, hl, hle⟩ := hw.synced finish hmem
    exact le_trans (by omega) (hwaited l hl)

theorem sinceLastSync_of_some
    (hlast : w.mLastSync = some lastSync) : w.sinceLastSync special curtime = durationFields (curtime - lastSync) := by
  rw [sinceLastSync, hlast]

theorem Paced.accept (hw : w.Paced) (special : Int × Int) (v : RefreshCommand) : (w.accept special v w.now).Paced := by
  unfold RefreshLoop.accept
  split
  · exact hw.ended
  · split
    · dsimp only
      split
      case isTrue hminutes =>
        refine ⟨hw.synced, hw.past, ?_, hw.apart⟩
        rintro expiry v ⟨⟩ l hl
        have hlast : w.mLastSync = some l := hl
        rw [sinceLastSync_of_some hlast]
        exact delay_of_fields (hw.past l hl)
      case isFalse hminutes =>
        apply hw.requestList v (le_refl _)
        intro l hl
        rw [sinceLastSync_of_some hl] at hminutes
        exact elapsed_of_fields (hw.past l hl) hminutes
    · have hnoted := @Paced.note _ hw (.updateGroupMember v.gid) (fun _ h => RefreshEntry.noConfusion h)
        (fun _ h => RefreshEntry.noConfusion h)
      exact hnoted.moveTo fun _ _ h => RefreshPoint.noConfusion h

theorem now_pushes (w : RefreshLoop) (vs : List RefreshCommand) : (vs.foldl push w).now = w.now := by
  induction vs generalizing w with
  | nil => rfl
  | cons v vs ih => exact ih (w.push v)

theorem Paced.sync (hw : w.Paced) (htime : w.now ≤ time) :
    (startPop { w.note (.finished time) with mLastSync := some time, now := time }).Paced := by
  refine ⟨?_, ?_, fun expiry v h => RefreshPoint.noConfusion h, ?_⟩
  · intro t ht
    refine ⟨time, rfl, ?_⟩
    rcases mem_cons.mp ht with heq | ht
    · cases heq
      exact le_refl _
    · obtain ⟨l, hl, hle⟩ := hw.synced t ht
      exact le_trans hle (le_trans (hw.past l hl) htime)
  · rintro l ⟨⟩
    exact le_refl _
  · apply List.Pairwise.cons ?_ hw.apart
    intro earlier _ request _ hrequest
    cases hrequest

theorem Paced.finish (hw : w.Paced) (v : RefreshCommand) (ec : ErrorCode)
    (htime : w.now ≤ time) (pushed : List RefreshCommand) : (w.finish v ec time pushed).Paced := by
  unfold RefreshLoop.finish
  cases v.handler with
  | none => exact hw.sync htime
  | some handler =>
    have hcalled : (w.note (.called handler ec)).Paced :=
      hw.note (fun _ h => RefreshEntry.noConfusion h) (fun _ h => RefreshEntry.noConfusion h)
    apply (hcalled.pushes pushed).sync
    rw [now_pushes]
    exact htime

theorem Paced.completed (hw : w.Paced) {ec : ErrorCode} {v again : RefreshCommand}
    (hnow : w.now ≤ curtime) (htime : curtime ≤ time) (pushed : List RefreshCommand) :
    (w.completed ec v again curtime time pushed).Paced := by
  unfold RefreshLoop.completed
  split
  · exact (hw.tick hnow w.posted).ended
  · split
    · exact (hw.push again).finish v ec (le_trans hnow htime) pushed
    · exact hw.finish v ec (le_trans hnow htime) pushed

theorem Paced.step {w' : RefreshLoop} {e : RefreshEvent} (hw : w.Paced)
    (hstep : w.step special e = some w') : w'.Paced := by
  cases e with
  | push v =>
    cases hstep
    exact hw.push v
  | cancele =>
    cases hstep
    exact ⟨hw.synced, hw.past, hw.delay, hw.apart⟩
  | setStatus status =>
    cases hstep
    exact ⟨hw.synced, hw.past, hw.delay, hw.apart⟩
  | popped curtime =>
    simp only [RefreshLoop.step] at hstep
    split at hstep
    case h_1 u ec v posted hpoint hposted =>
      split_ifs at hstep with hback hcanceled
      · cases hstep
        exact (hw.tick (Int.not_lt.mp hback) posted).ended
      · cases hstep
        exact (hw.tick (Int.not_lt.mp hback) posted).accept special v
    case h_2 => cases hstep
  | timer curtime =>
    simp only [RefreshLoop.step] at hstep
    split at hstep
    case h_1 expiry v hpoint =>
      split_ifs at hstep with hearly
      cases hstep
      rw [not_or, not_lt, not_lt] at hearly
      apply hw.requestList v hearly.1
      intro l hl
      exact le_trans (hw.delay expiry v hpoint l hl) hearly.2
    case h_2 => cases hstep
  | updated ec curtime time pushed =>
    simp only [RefreshLoop.step] at hstep
    split_ifs at hstep with hback
    rw [not_or, not_lt, not_lt] at hback
    split at hstep
    · cases hstep
      exact hw.completed hback.1 hback.2 pushed
    · cases hstep
      exact hw.completed hback.1 hback.2 pushed
    · cases hstep

/-- With a clock that does not go back and timers that do not come early, each request for the list of groups comes at least 1800 seconds after every command that the loop had finished before it. -/
theorem requests_apart {special : Int × Int} {mStatus : LwqqStatus} {now : Int} {events : List RefreshEvent} {w : RefreshLoop}
    (hrun : run (step special) (new mStatus now) events = some w) : w.trail.Pairwise Apart := by
  have hnew : (new mStatus now).Paced :=
    ⟨fun _ h => absurd h not_mem_nil, fun _ h => (Option.some_ne_none _ h.symm).elim, fun _ _ h => RefreshPoint.noConfusion h,
      List.Pairwise.nil⟩
  have hpaced : w.Paced := invariant_of_run (fun w e w' hw he => hw.step he) hnew hrun
  exact hpaced.apart

/-- A command for all groups that comes 100 seconds after a finish waits for 1760 seconds more. -/
theorem requests_apart_after_delay :
    ∃ w, run (step (0, 0)) (new .online 0) [.push ⟨none, ['g']⟩, .popped 5, .updated .success 6 7 [], .push ⟨some 1, []⟩,
        .popped 107, .timer 1867] = some w ∧ w.trail = [.updateGroupList 1867, .finished 7, .updateGroupMember ['g']] ∧
      w.trail.Pairwise Apart :=
  ⟨_, rfl, rfl, @requests_apart (0, 0) .online 0
    [.push ⟨none, ['g']⟩, .popped 5, .updated .success 6 7 [], .push ⟨some 1, []⟩, .popped 107, .timer 1867] _ rfl⟩

end RefreshLoop

end Avbot
