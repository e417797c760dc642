import Avbot.Queue.AsyncCoroQueue
import Avbot.Webqq.PollMessage

/-!
# The main loop

`webqq_main_loop_op` polls as long as the account is online, and logs in when it is not. A login takes a verify code from a queue with one place, which `feed_vc` may fill at any time. The model has one point for each suspension. Every code carries the number of `check_login` answers that there were when it was pushed, which no function here looks at.
-/

namespace Avbot

open List Option EventMachine

def networkError : ErrorCode := makeErrorCode .pollFailedNetworkError

def needLogin : ErrorCode := makeErrorCode .pollFailedNeedLogin

def needVc : ErrorCode := makeErrorCode .loginCheckNeedVc

structure VerifyCode where
  code : Str
  checks : Nat
  deriving DecidableEq

inductive LoopEntry where
  | poll
  /-- The completion of a poll, with the status after the loop has looked at the error. -/
  | polled (ec : ErrorCode) (status : LwqqStatus)
  | wait (seconds : Nat)
  /-- A call of `async_login`, and how many answers of `check_login` there were. -/
  | login (vc : VerifyCode) (checks : Nat)
  deriving DecidableEq

inductive LoopPoint where
  | starting
  | polling
  | pollDelay (ec : ErrorCode)
  | checkLogin
  | checkDelay
  | popping
  | login
  | blockedDelay
  | loginDelay
  | ended
  deriving DecidableEq

structure MainLoop where
  mStatus : LwqqStatus
  mVcQueue : AsyncCoroQueue Unit Empty VerifyCode
  firsStart : Nat
  mCountedNetworkError : Nat
  point : LoopPoint
  posted : List (Completion Unit Empty VerifyCode)
  checks : Nat
  trail : List LoopEntry

inductive LoopEvent where
  | start
  | polled (ec : ErrorCode)
  | timer
  /-- The answer of `check_login`, and the codes that the handlers of `m_signeedvc` feed before they return. -/
  | checked (ec : ErrorCode) (str : Str) (answered : List Str)
  | popped
  | loggedIn (ec : ErrorCode)
  | feedVc (vccode : Str)
  | setStatus (status : LwqqStatus)

namespace MainLoop

def new (mClientid : Str) : MainLoop where
  mStatus := if mClientid = [] then .offline else .online
  mVcQueue := .new (.circularBuffer 1)
  firsStart := if mClientid = [] then 1 else 0
  mCountedNetworkError := 0
  point := .starting
  posted := []
  checks := 0
  trail := []

def note (w : MainLoop) (entry : LoopEntry) : MainLoop := { w with trail := entry :: w.trail }

def wait (w : MainLoop) (seconds : Nat) (point : LoopPoint) : MainLoop := { w.note (.wait seconds) with point := point }

def feed (w : MainLoop) (code : Str) : MainLoop :=
  let (q, posted) := w.mVcQueue.push ⟨code, w.checks⟩
  { w with mVcQueue := q, posted := w.posted ++ posted }

def pollOrLogin (w : MainLoop) : MainLoop :=
  if w.mStatus = .online then { w.note .poll with point := .polling } else { w with point := .checkLogin }

def nextRound (w : MainLoop) : MainLoop :=
  if w.mStatus = .quitting then { w with point := .ended } else { w with mCountedNetworkError := 0 }.pollOrLogin

def endPoll (w : MainLoop) (ec : ErrorCode) : MainLoop :=
  { w with
    mCountedNetworkError := if ec.failed then w.mCountedNetworkError else w.mCountedNetworkError - 1
    firsStart := 1 }.pollOrLogin

def handlePoll (w : MainLoop) (ec : ErrorCode) : MainLoop :=
  if ec = needLogin ∨ ec = kickedOff then
    ({ w with mStatus := .offline }.note (.polled ec .offline)).wait (60 * w.firsStart) (.pollDelay ec)
  else if ec = networkError then
    let counted := w.mCountedNetworkError + 1
    let status := if counted ≥ 3 then .offline else w.mStatus
    ({ w with mCountedNetworkError := counted, mStatus := status }.note (.polled ec status)).wait 12 (.pollDelay ec)
  else if ec = needRefresh then
    ({ w with mStatus := .offline }.note (.polled ec .offline)).wait 12 (.pollDelay ec)
  else (w.note (.polled ec w.mStatus)).endPoll ec

def startPop (w : MainLoop) : MainLoop :=
  let (q, posted) := w.mVcQueue.asyncPop ()
  { w with mVcQueue := q, posted := w.posted ++ posted, point := .popping }

/-- `check_login` has answered. The loop around it repeats while there is an error other than the need of a code. -/
def handleCheck (w : MainLoop) (ec : ErrorCode) (str : Str) (answered : List Str) : MainLoop :=
  let w := { w with checks := w.checks + 1 }
  if ec.failed then
    if ec = needVc then (answered.foldl feed w).startPop
    else w.wait 300 .checkDelay
  else (w.feed str).startPop

def handlePop (w : MainLoop) (vc : VerifyCode) : MainLoop :=
  if vc.code ≠ [] then { w.note (.login vc w.checks) with point := .login } else w.nextRound

def handleLogin (w : MainLoop) (ec : ErrorCode) : MainLoop :=
  if ec.failed then
    if ec = makeErrorCode .loginFailedWrongPasswd then { w with mStatus := .quitting, point := .ended }
    else if ec = makeErrorCode .loginFailedBlockedAccount then w.wait 300 .blockedDelay
    else w.wait 30 .loginDelay
  else w.nextRound

def unlessCanceled (w : MainLoop) (ec : ErrorCode) (next : MainLoop) : MainLoop :=
  if ec.isCanceled then { w with point := .ended } else next

def step (w : MainLoop) : LoopEvent → Option MainLoop
  | .start =>
    match w.point with
    | .starting => some w.nextRound
    | _ => none
  | .polled ec =>
    match w.point with
    | .polling => some (w.unlessCanceled ec (w.handlePoll ec))
    | _ => none
  | .timer =>
    match w.point with
    | .pollDelay ec => some (w.endPoll ec)
    | .checkDelay => some { w with point := .checkLogin }
    | .blockedDelay => some (w.wait 30 .loginDelay)
    | .loginDelay => some w.nextRound
    | _ => none
  | .checked ec str answered =>
    match w.point with
    | .checkLogin => some (w.unlessCanceled ec (w.handleCheck ec str answered))
    | _ => none
  | .popped =>
    match w.point, w.posted with
    | .popping, .pop _ .success vc :: posted => some ({ w with posted := posted }.handlePop vc)
    | .popping, .pop _ .operationCanceled _ :: posted => some { w with posted := posted, point := .ended }
    | _, _ => none
  | .loggedIn ec =>
    match w.point with
    | .login => some (w.unlessCanceled ec (w.handleLogin ec))
    | _ => none
  | .feedVc vccode => some (w.feed vccode)
  | .setStatus status => some { w with mStatus := status }

inductive Moves (w : MainLoop) : LoopEvent → MainLoop → Prop
  | start (hpoint : w.point = .starting) : Moves w .start w.nextRound
  | polled (ec : ErrorCode) (hpoint : w.point = .polling) : Moves w (.polled ec) (w.unlessCanceled ec (w.handlePoll ec))
  | afterPoll (ec : ErrorCode) (hpoint : w.point = .pollDelay ec) : Moves w .timer (w.endPoll ec)
  | afterCheck (hpoint : w.point = .checkDelay) : Moves w .timer { w with point := .checkLogin }
  | afterBlocked (hpoint : w.point = .blockedDelay) : Moves w .timer (w.wait 30 .loginDelay)
  | afterLogin (hpoint : w.point = .loginDelay) : Moves w .timer w.nextRound
  | checked (ec : ErrorCode) (str : Str) (answered : List Str) (hpoint : w.point = .checkLogin) :
      Moves w (.checked ec str answered) (w.unlessCanceled ec (w.handleCheck ec str answered))
  | popped {u : Unit} {vc : VerifyCode} {posted : List (Completion Unit Empty VerifyCode)} (hpoint : w.point = .popping)
      (hposted : w.posted = .pop u .success vc :: posted) : Moves w .popped ({ w with posted := posted }.handlePop vc)
  | popCanceled {u : Unit} {vc : VerifyCode} {posted : List (Completion Unit Empty VerifyCode)} (hpoint : w.point = .popping)
      (hposted : w.posted = .pop u .operationCanceled vc :: posted) :
      Moves w .popped { w with posted := posted, point := .ended }
  | loggedIn (ec : ErrorCode) (hpoint : w.point = .login) :
      Moves w (.loggedIn ec) (w.unlessCanceled ec (w.handleLogin ec))
  | feedVc (vccode : Str) : Moves w (.feedVc vccode) (w.feed vccode)
  | setStatus (status : LwqqStatus) : Moves w (.setStatus status) { w with mStatus := status }

variable {e : LoopEvent} {ec : ErrorCode} {next : MainLoop}

theorem moves_of_step {w w' : MainLoop} (hstep : w.step e = some w') : w.Moves e w' := by
  cases e <;> simp only [step] at hstep
  case start =>
    split at hstep
    · next hpoint =>
        obtain rfl := some.inj hstep
        exact .start hpoint
    · cases hstep
  case polled ec =>
    split at hstep
    · next hpoint =>
        obtain rfl := some.inj hstep
        exact .polled ec hpoint
    · cases hstep
  case timer =>
    split at hstep
    · next ec hpoint =>
        obtain rfl := some.inj hstep
        exact .afterPoll ec hpoint
    · next hpoint =>
        obtain rfl := some.inj hstep
        exact .afterCheck hpoint
    · next hpoint =>
        obtain rfl := some.inj hstep
        exact .afterBlocked hpoint
    · next hpoint =>
        obtain rfl := some.inj hstep
        exact .afterLogin hpoint
    · cases hstep
  case checked ec str answered =>
    split at hstep
    · next hpoint =>
        obtain rfl := some.inj hstep
        exact .checked ec str answered hpoint
    · cases hstep
  case popped =>
    split at hstep
    · next hpoint hposted =>
        obtain rfl := some.inj hstep
        exact .popped hpoint hposted
    · next hpoint hposted =>
        obtain rfl := some.inj hstep
        exact .popCanceled hpoint hposted
    · cases hstep
  case loggedIn ec =>
    split at hstep
    · next hpoint =>
        obtain rfl := some.inj hstep
        exact .loggedIn ec hpoint
    · cases hstep
  case feedVc vccode =>
    obtain rfl := some.inj hstep
    exact .feedVc vccode
  case setStatus status =>
    obtain rfl := some.inj hstep
    exact .setStatus status

def due : List LoopEntry → Bool
  | [] | .poll :: _ => false
  | .polled ec status :: _ => ec.failed && decide (status = .online)
  | .wait seconds :: trail => due trail && decide (seconds < 1)
  | .login _ _ :: trail => due trail

def Paced : List LoopEntry → Prop
  | [] => True
  | .poll :: trail => due trail = false ∧ Paced trail
  | .polled _ _ :: trail | .wait _ :: trail | .login _ _ :: trail => Paced trail

def Heeds (ec : ErrorCode) : Prop :=
  ec.failed = true → ec.isCanceled = true ∨ ec = needLogin ∨ ec = kickedOff ∨ ec = networkError ∨ ec = needRefresh

def HeedsPoll (w : MainLoop) : LoopEvent → Prop
  | .polled ec => w.point = .polling → w.mStatus = .online → Heeds ec
  | _ => True

instance (ec : ErrorCode) : Decidable (Heeds ec) := inferInstanceAs (Decidable (_ → _))

instance decidableHeedsPoll (w : MainLoop) : (e : LoopEvent) → Decidable (w.HeedsPoll e)
  | .polled ec => inferInstanceAs (Decidable (_ → _ → Heeds ec))
  | .start | .timer | .checked _ _ _ | .popped | .loggedIn _ | .feedVc _ | .setStatus _ => .isTrue trivial

instance decidablePaced : (trail : List LoopEntry) → Decidable (Paced trail)
  | [] => .isTrue trivial
  | .poll :: trail =>
    have := decidablePaced trail
    inferInstanceAs (Decidable (_ ∧ Paced trail))
  | .polled _ _ :: trail | .wait _ :: trail | .login _ _ :: trail => decidablePaced trail

structure OnTime (w : MainLoop) : Prop where
  paced : Paced w.trail
  settled : due w.trail = false

variable {w w' : MainLoop}

theorem OnTime.of_trail_eq (h : w.OnTime) (htrail : w'.trail = w.trail) : w'.OnTime := by
  constructor
  · rw [htrail]
    exact h.paced
  · rw [htrail]
    exact h.settled

theorem OnTime.wait (h : w.OnTime) (seconds : Nat) (point : LoopPoint) : (w.wait seconds point).OnTime := by
  refine ⟨h.paced, ?_⟩
  show (due w.trail && decide (seconds < 1)) = false
  rw [h.settled, Bool.false_and]

theorem OnTime.pollOrLogin (h : w.OnTime) : w.pollOrLogin.OnTime := by
  unfold MainLoop.pollOrLogin
  split
  · exact ⟨⟨h.settled, h.paced⟩, rfl⟩
  · exact h.of_trail_eq rfl

theorem trail_endPoll (honline : w.mStatus = .online) (ec : ErrorCode) : (w.endPoll ec).trail = .poll :: w.trail := by
  unfold endPoll pollOrLogin
  rw [if_pos honline]
  rfl

theorem OnTime.nextRound (h : w.OnTime) : w.nextRound.OnTime := by
  unfold MainLoop.nextRound
  split
  · exact h.of_trail_eq rfl
  · have hreset : OnTime { w with mCountedNetworkError := 0 } := h.of_trail_eq rfl
    exact hreset.pollOrLogin

theorem OnTime.endPoll (h : w.OnTime) (ec : ErrorCode) : (w.endPoll ec).OnTime := by
  apply OnTime.pollOrLogin
  exact h.of_trail_eq rfl

theorem OnTime.note_polled (h : w.OnTime) {status : LwqqStatus}
    (hnone : (ec.failed && decide (status = .online)) = false) : (w.note (.polled ec status)).OnTime :=
  ⟨h.paced, hnone⟩

theorem trail_foldl_feed (w : MainLoop) (codes : List Str) : (codes.foldl feed w).trail = w.trail := by
  induction codes generalizing w with
  | nil => rfl
  | cons code codes ih => exact ih (w.feed code)

theorem OnTime.handleCheck (h : w.OnTime) (ec : ErrorCode) (str : Str) (answered : List Str) :
    (w.handleCheck ec str answered).OnTime := by
  have hcounted : ({ w with checks := w.checks + 1 } : MainLoop).OnTime := h.of_trail_eq rfl
  unfold MainLoop.handleCheck
  split
  · split
    · exact hcounted.of_trail_eq (trail_foldl_feed _ answered)
    · exact hcounted.wait 300 .checkDelay
  · exact hcounted.of_trail_eq rfl

theorem OnTime.handlePop (h : w.OnTime) (vc : VerifyCode) : (w.handlePop vc).OnTime := by
  unfold MainLoop.handlePop
  split
  · exact ⟨h.paced, h.settled⟩
  · exact h.nextRound

theorem OnTime.handleLogin (h : w.OnTime) (ec : ErrorCode) : (w.handleLogin ec).OnTime := by
  unfold MainLoop.handleLogin
  split
  · split
    · exact h.of_trail_eq rfl
    · split
      · exact h.wait 300 .blockedDelay
      · exact h.wait 30 .loginDelay
  · exact h.nextRound

theorem OnTime.unlessCanceled (h : w.OnTime) (ec : ErrorCode) (hnext : ec.isCanceled = false → next.OnTime) :
    (w.unlessCanceled ec next).OnTime := by
  unfold MainLoop.unlessCanceled
  split
  · exact h.of_trail_eq rfl
  · next hec => exact hnext (by simpa using hec)

theorem OnTime.handlePoll (h : w.OnTime) (hcanceled : ec.isCanceled = false)
    (hheeds : w.mStatus = .online → Heeds ec) : (w.handlePoll ec).OnTime := by
  unfold MainLoop.handlePoll
  have hleft : ({ w with mStatus := .offline } : MainLoop).OnTime := h.of_trail_eq rfl
  have hoffline : (ec.failed && decide (LwqqStatus.offline = .online)) = false := Bool.and_false _
  by_cases hlogin : ec = needLogin ∨ ec = kickedOff
  · rw [if_pos hlogin]
    exact (hleft.note_polled hoffline).wait _ _
  rw [if_neg hlogin]
  by_cases hnetwork : ec = networkError
  · rw [if_pos hnetwork]
    exact ⟨h.paced, Bool.and_false _⟩
  rw [if_neg hnetwork]
  by_cases hrefresh : ec = needRefresh
  · rw [if_pos hrefresh]
    exact (hleft.note_polled hoffline).wait _ _
  rw [if_neg hrefresh]
  apply OnTime.endPoll
  apply h.note_polled
  by_cases honline : w.mStatus = .online
  · have hok : ec.failed = false := by
      by_contra hfailed
      have := hheeds honline (by simpa using hfailed)
      rw [hcanceled] at this
      tauto
    rw [hok, Bool.false_and]
  · rw [decide_eq_false honline, Bool.and_false]

theorem not_paced_handlePoll (honline : w.mStatus = .online) (hheeds : ¬ Heeds ec) :
    ¬ Paced (w.handlePoll ec).trail := by
  unfold Heeds at hheeds
  push Not at hheeds
  obtain ⟨hfailed, -, hlogin, hkicked, hnetwork, hrefresh⟩ := hheeds
  have htrail : (w.handlePoll ec).trail = .poll :: .polled ec .online :: w.trail := by
    rw [handlePoll, if_neg (by tauto), if_neg hnetwork, if_neg hrefresh, honline]
    exact trail_endPoll (w := w.note (.polled ec .online)) honline ec
  rw [htrail]
  intro hpaced
  have hdue : (ec.failed && decide (LwqqStatus.online = .online)) = false := hpaced.1
  rw [hfailed] at hdue
  exact absurd hdue (by decide)

theorem onTime_step (h : w.OnTime) (hstep : w.step e = some w') :
    (w.HeedsPoll e ∧ w'.OnTime) ∨ (¬ w.HeedsPoll e ∧ ¬ Paced w'.trail) := by
  cases moves_of_step hstep with
  | start => exact .inl ⟨trivial, h.nextRound⟩
  | polled ec hpoint =>
    by_cases hheeds : w.HeedsPoll (.polled ec)
    · exact .inl ⟨hheeds, h.unlessCanceled ec fun hcanceled => h.handlePoll hcanceled (hheeds hpoint)⟩
    · refine .inr ⟨hheeds, ?_⟩
      simp only [HeedsPoll, Classical.not_imp] at hheeds
      obtain ⟨-, honline, hheeds⟩ := hheeds
      have hcanceled : ¬ ec.isCanceled = true := fun hc => hheeds fun _ => .inl hc
      rw [unlessCanceled, if_neg hcanceled]
      exact not_paced_handlePoll honline hheeds
  | afterPoll ec => exact .inl ⟨trivial, h.endPoll ec⟩
  | afterBlocked => exact .inl ⟨trivial, h.wait 30 .loginDelay⟩
  | afterLogin => exact .inl ⟨trivial, h.nextRound⟩
  | checked ec str answered => exact .inl ⟨trivial, h.unlessCanceled ec fun _ => h.handleCheck ec str answered⟩
  | @popped _ vc posted =>
    have hposted : OnTime { w with posted := posted } := h.of_trail_eq rfl
    exact .inl ⟨trivial, hposted.handlePop vc⟩
  | loggedIn ec => exact .inl ⟨trivial, h.unlessCanceled ec fun _ => h.handleLogin ec⟩
  | _ => exact .inl ⟨trivial, h.of_trail_eq rfl⟩

theorem suffix_pollOrLogin (w : MainLoop) : w.trail <:+ w.pollOrLogin.trail := by
  unfold pollOrLogin
  split
  · exact suffix_cons _ _
  · exact suffix_rfl

theorem suffix_nextRound (w : MainLoop) : w.trail <:+ w.nextRound.trail := by
  unfold nextRound
  split
  · exact suffix_rfl
  · exact suffix_pollOrLogin { w with mCountedNetworkError := 0 }

theorem suffix_endPoll (w : MainLoop) (ec : ErrorCode) : w.trail <:+ (w.endPoll ec).trail :=
  suffix_pollOrLogin { w with mCountedNetworkError := _, firsStart := 1 }

theorem suffix_handlePoll (w : MainLoop) (ec : ErrorCode) : w.trail <:+ (w.handlePoll ec).trail := by
  have hwait : ∀ entry seconds, w.trail <:+ LoopEntry.wait seconds :: entry :: w.trail :=
    fun entry seconds => (suffix_cons entry _).trans (suffix_cons _ _)
  unfold handlePoll
  split
  · exact hwait _ _
  · split
    · exact hwait _ _
    · split
      · exact hwait _ _
      · exact (suffix_cons _ _).trans (suffix_endPoll (w.note (.polled ec w.mStatus)) ec)

theorem suffix_handleCheck (w : MainLoop) (ec : ErrorCode) (str : Str) (answered : List Str) :
    w.trail <:+ (w.handleCheck ec str answered).trail := by
  unfold handleCheck
  split
  · split
    · have hfed := trail_foldl_feed { w with checks := w.checks + 1 } answered
      exact ⟨[], hfed.symm⟩
    · exact suffix_cons _ _
  · exact suffix_rfl

theorem suffix_handlePop (w : MainLoop) (vc : VerifyCode) : w.trail <:+ (w.handlePop vc).trail := by
  unfold handlePop
  split
  · exact suffix_cons _ _
  · exact suffix_nextRound w

theorem suffix_handleLogin (w : MainLoop) (ec : ErrorCode) : w.trail <:+ (w.handleLogin ec).trail := by
  unfold handleLogin
  split
  · split
    · exact suffix_rfl
    · split <;> exact suffix_cons _ _
  · exact suffix_nextRound w

theorem suffix_unlessCanceled (ec : ErrorCode) (hnext : w.trail <:+ next.trail) :
    w.trail <:+ (w.unlessCanceled ec next).trail := by
  unfold unlessCanceled
  split
  · exact suffix_rfl
  · exact hnext

theorem suffix_step (hstep : w.step e = some w') : w.trail <:+ w'.trail := by
  cases moves_of_step hstep with
  | start | afterLogin => exact suffix_nextRound w
  | polled ec => exact suffix_unlessCanceled ec (suffix_handlePoll w ec)
  | afterPoll ec => exact suffix_endPoll w ec
  | afterBlocked => exact suffix_cons _ _
  | checked ec str answered => exact suffix_unlessCanceled ec (suffix_handleCheck w ec str answered)
  | @popped _ vc posted => exact suffix_handlePop { w with posted := posted } vc
  | loggedIn ec => exact suffix_unlessCanceled ec (suffix_handleLogin w ec)
  | afterCheck | popCanceled | feedVc | setStatus => exact suffix_rfl

theorem paced_of_suffix {trail trail' : List LoopEntry} (hsuffix : trail <:+ trail') (hpaced : Paced trail') : Paced trail := by
  induction trail' with
  | nil =>
    obtain rfl := suffix_nil.mp hsuffix
    trivial
  | cons entry rest ih =>
    rcases suffix_cons_iff.mp hsuffix with rfl | hrest
    · exact hpaced
    · apply ih hrest
      cases entry with
      | poll => exact hpaced.2
      | polled | wait | login => exact hpaced

/-- A pause of at least a second follows each poll that fails with the account online exactly when the loop heeds all errors of such polls. -/
theorem paced_iff_heeds {mClientid : Str} {events : List LoopEvent} (hrun : run step (new mClientid) events = some w) :
    Paced w.trail ↔ Meets step HeedsPoll (new mClientid) events := by
  have hstart : (new mClientid).OnTime := ⟨trivial, rfl⟩
  refine @meets_iff_of_run _ _ step OnTime (fun w => ¬ Paced w.trail) (fun w => Paced w.trail) HeedsPoll
    (fun _ _ _ => onTime_step) ?_ (fun _ hv => hv.paced) (fun _ hbad => hbad) _ _ _ hstart hrun
  intro v e v' hbad hstep hpaced
  exact hbad (paced_of_suffix (suffix_step hstep) hpaced)

/-- After an error of the network the loop pauses for twelve seconds. -/
theorem paced_of_network_error :
    ∃ w, run step (new ['1']) [.start, .polled networkError, .timer] = some w ∧
      w.trail = [.poll, .wait 12, .polled networkError .online, .poll] ∧ Paced w.trail := by
  have hheeds : Meets step HeedsPoll (new ['1']) [.start, .polled networkError, .timer] := by decide
  exact ⟨_, rfl, by decide, (paced_iff_heeds rfl).mpr hheeds⟩

def quitAnswer : HttpAnswer where
  ec := .success
  body := "\x7b\"retcode\":110\x7d".toList
  json := some (.node [] [("retcode", .leaf "110".toList)])

/-- The poll completes with an error that the loop has no branch for, and the next poll follows at once. -/
theorem quit_polls_at_once :
    (∃ p, (PollWorld.start PollWorld.emptyTables).step PollWorld.quietEnv (.answer quitAnswer) = some p ∧
        p.point = .handed (makeErrorCode .pollFailedUserQuit)) ∧
      ∃ w, run step (new ['1']) [.start, .polled (makeErrorCode .pollFailedUserQuit)] = some w ∧
        w.trail = [.poll, .polled (makeErrorCode .pollFailedUserQuit) .online, .poll] ∧ ¬ Paced w.trail :=
  ⟨⟨_, rfl, rfl⟩, _, rfl, by decide, by decide⟩

end MainLoop

end Avbot
