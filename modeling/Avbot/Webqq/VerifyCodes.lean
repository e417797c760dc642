import Avbot.Webqq.MainLoop

/-!
# Verify codes that are left over

The queue that brings the verify codes to the main loop is never cleared. A code that is fed when nobody waits for one is taken by the next attempt, unless a newer code has taken its place.
-/

namespace Avbot

open List EventMachine

namespace MainLoop

/-- Every code that was passed on had been pushed after the last answer of `check_login`. -/
def Fresh (trail : List LoopEntry) : Prop := ∀ vc checks, .login vc checks ∈ trail → vc.checks = checks

def NoneLeft (w : MainLoop) : LoopEvent → Prop
  | .checked ec _ answered =>
    w.point = .checkLogin → ec = needVc → answered ≠ [] ∨ ∀ vc ∈ w.mVcQueue.mList, vc.code = []
  | _ => True

instance decidableNoneLeft (w : MainLoop) : (e : LoopEvent) → Decidable (w.NoneLeft e)
  | .checked ec _ answered =>
    inferInstanceAs (Decidable (_ → ec = needVc → answered ≠ [] ∨ ∀ vc ∈ w.mVcQueue.mList, vc.code = []))
  | .start | .timer | .polled _ | .popped | .loggedIn _ | .feedVc _ | .setStatus _ => .isTrue trivial

variable {w w' : MainLoop}

structure Unasked (w : MainLoop) : Prop where
  container : w.mVcQueue.container = .circularBuffer 1
  short : w.mVcQueue.mList.length ≤ 1
  waiters : w.mVcQueue.mHandlers = []
  posted : w.posted = []

def Usable (w : MainLoop) (vc : VerifyCode) : Prop := vc.code = [] ∨ vc.checks = w.checks

structure Asked (w : MainLoop) : Prop where
  container : w.mVcQueue.container = .circularBuffer 1
  short : w.mVcQueue.mList.length ≤ 1
  wanted : (w.mVcQueue.mHandlers = [⟨false, ()⟩] ∧ w.mVcQueue.mList = [] ∧ w.posted = []) ∨
    (w.mVcQueue.mHandlers = [] ∧ ∃ vc, w.posted = [.pop () .success vc] ∧ w.Usable vc)

structure CodesInv (w : MainLoop) : Prop where
  fresh : Fresh w.trail
  unasked : w.point ≠ .popping → w.Unasked
  asked : w.point = .popping → w.Asked

theorem pushBack_one {values : List VerifyCode} (hshort : values.length ≤ 1) (vc : VerifyCode) :
    (Container.circularBuffer 1).pushBack values vc = [vc] := by
  obtain _ | ⟨old, _ | ⟨older, rest⟩⟩ := values
  · rfl
  · rfl
  · simp at hshort

theorem feed_of_no_waiter (hwaiters : w.mVcQueue.mHandlers = []) (hcontainer : w.mVcQueue.container = .circularBuffer 1)
    (hshort : w.mVcQueue.mList.length ≤ 1) (code : Str) :
    w.feed code = { w with mVcQueue := { w.mVcQueue with mList := [⟨code, w.checks⟩] } } := by
  unfold feed
  rw [AsyncCoroQueue.push_of_no_waiter hwaiters, hcontainer, pushBack_one hshort, w.mVcQueue.mWaitHandlers_eq_nil]
  dsimp only
  rw [map_nil, append_nil, ← w.mVcQueue.mWaitHandlers_eq_nil, ← hcontainer]

theorem feed_of_waiter (hwaiters : w.mVcQueue.mHandlers = [⟨false, ()⟩]) (code : Str) :
    w.feed code = { w with
      mVcQueue := { w.mVcQueue with mHandlers := [] }
      posted := w.posted ++ [.pop () .success ⟨code, w.checks⟩] } := by
  unfold feed
  rw [AsyncCoroQueue.push_of_waiter hwaiters rfl, w.mVcQueue.mWaitHandlers_eq_nil]
  rw [map_nil, nil_append, ← w.mVcQueue.mWaitHandlers_eq_nil]

theorem Unasked.feed (h : w.Unasked) (code : Str) :
    (w.feed code).Unasked ∧ (w.feed code).mVcQueue.mList = [⟨code, w.checks⟩] := by
  rw [feed_of_no_waiter h.waiters h.container h.short]
  exact ⟨⟨h.container, le_refl 1, h.waiters, h.posted⟩, rfl⟩

theorem Asked.feed (h : w.Asked) (code : Str) : (w.feed code).Asked := by
  rcases h.wanted with ⟨hwaiters, hlist, hposted⟩ | ⟨hwaiters, vc, hposted, husable⟩
  · rw [feed_of_waiter hwaiters]
    refine ⟨h.container, h.short, .inr ⟨rfl, ⟨code, w.checks⟩, ?_, .inr rfl⟩⟩
    rw [hposted, nil_append]
  · rw [feed_of_no_waiter hwaiters h.container h.short]
    exact ⟨h.container, le_refl 1, .inr ⟨hwaiters, vc, hposted, husable⟩⟩

theorem Unasked.foldl_feed (h : w.Unasked) (codes : List Str) :
    (codes.foldl MainLoop.feed w).Unasked ∧ (codes.foldl MainLoop.feed w).checks = w.checks ∧
      ∀ vc ∈ (codes.foldl MainLoop.feed w).mVcQueue.mList, (codes = [] ∧ vc ∈ w.mVcQueue.mList) ∨ vc.checks = w.checks := by
  induction codes generalizing w with
  | nil => exact ⟨h, rfl, fun vc hvc => .inl ⟨rfl, hvc⟩⟩
  | cons code codes ih =>
    obtain ⟨hfed, hlist⟩ := h.feed code
    obtain ⟨hend, hchecks, hmem⟩ := ih hfed
    refine ⟨hend, hchecks, ?_⟩
    intro vc hvc
    right
    rcases hmem vc hvc with ⟨-, hold⟩ | hnew
    · rw [hlist, mem_singleton] at hold
      rw [hold]
    · exact hnew

theorem Unasked.startPop (h : w.Unasked) (husable : ∀ vc ∈ w.mVcQueue.mList, w.Usable vc) : w.startPop.Asked := by
  unfold MainLoop.startPop
  cases hlist : w.mVcQueue.mList with
  | nil =>
    rw [AsyncCoroQueue.asyncPop_of_nil hlist]
    refine ⟨h.container, h.short, .inl ⟨?_, hlist, ?_⟩⟩
    · rw [h.waiters, nil_append]
    · show w.posted ++ [] = []
      rw [h.posted, nil_append]
  | cons vc rest =>
    rw [AsyncCoroQueue.asyncPop_of_cons hlist]
    have hshort : rest.length ≤ 1 := by
      have := h.short
      rw [hlist, length_cons] at this
      omega
    refine ⟨h.container, hshort, .inr ⟨h.waiters, vc, ?_, husable vc (by rw [hlist]; exact mem_cons_self)⟩⟩
    show w.posted ++ [.pop () .success vc] = [.pop () .success vc]
    rw [h.posted, nil_append]

/-- The second state has the same queue as the first, does not wait for a code and has passed no code on since. -/
structure Calm (w w' : MainLoop) : Prop where
  queue : w'.mVcQueue = w.mVcQueue
  posted : w'.posted = w.posted
  point : w'.point ≠ .popping
  logins : ∀ vc checks, .login vc checks ∈ w'.trail → .login vc checks ∈ w.trail

theorem Unasked.of_calm (h : w.Unasked) (hcalm : Calm w w') : w'.Unasked := by
  obtain ⟨hqueue, hposted, -, -⟩ := hcalm
  constructor
  · rw [hqueue]
    exact h.container
  · rw [hqueue]
    exact h.short
  · rw [hqueue]
    exact h.waiters
  · rw [hposted]
    exact h.posted

theorem CodesInv.of_calm (hfresh : Fresh w.trail) (h : w.Unasked) (hcalm : Calm w w') : w'.CodesInv where
  fresh vc checks hmem := hfresh vc checks (hcalm.logins vc checks hmem)
  unasked _ := h.of_calm hcalm
  asked hpoint := absurd hpoint hcalm.point

variable {point : LoopPoint}

theorem calm_moved (hpoint : point ≠ .popping) : Calm w { w with point := point } :=
  ⟨rfl, rfl, hpoint, fun _ _ hmem => hmem⟩

theorem calm_wait (seconds : Nat) (hpoint : point ≠ .popping) : Calm w (w.wait seconds point) :=
  ⟨rfl, rfl, hpoint, fun _ _ hmem => (mem_cons.mp hmem).resolve_left (by simp)⟩

theorem calm_pollOrLogin (w : MainLoop) : Calm w w.pollOrLogin := by
  unfold pollOrLogin
  split
  · exact ⟨rfl, rfl, by simp, fun _ _ hmem => (mem_cons.mp hmem).resolve_left (by simp)⟩
  · exact calm_moved (by simp)

theorem calm_nextRound (w : MainLoop) : Calm w w.nextRound := by
  unfold nextRound
  split
  · exact calm_moved (by simp)
  · obtain ⟨hqueue, hposted, hpoint, hlogins⟩ := calm_pollOrLogin { w with mCountedNetworkError := 0 }
    exact ⟨hqueue, hposted, hpoint, hlogins⟩

theorem calm_endPoll (w : MainLoop) (ec : ErrorCode) : Calm w (w.endPoll ec) := by
  obtain ⟨hqueue, hposted, hpoint, hlogins⟩ := calm_pollOrLogin { w with
    mCountedNetworkError := if ec.failed then w.mCountedNetworkError else w.mCountedNetworkError - 1, firsStart := 1 }
  exact ⟨hqueue, hposted, hpoint, hlogins⟩

theorem calm_handlePoll (w : MainLoop) (ec : ErrorCode) : Calm w (w.handlePoll ec) := by
  have hpolled : ∀ status seconds vc checks,
      .login vc checks ∈ LoopEntry.wait seconds :: .polled ec status :: w.trail → .login vc checks ∈ w.trail := by
    intro status seconds vc checks hmem
    simpa using hmem
  unfold handlePoll
  split
  · exact ⟨rfl, rfl, by simp [wait], hpolled _ _⟩
  · split
    · exact ⟨rfl, rfl, by simp [wait], hpolled _ _⟩
    · split
      · exact ⟨rfl, rfl, by simp [wait], hpolled _ _⟩
      · obtain ⟨hqueue, hposted, hpoint, hlogins⟩ := calm_endPoll (w.note (.polled ec w.mStatus)) ec
        exact ⟨hqueue, hposted, hpoint, fun vc checks hmem => (mem_cons.mp (hlogins vc checks hmem)).resolve_left (by simp)⟩

theorem calm_handleLogin (w : MainLoop) (ec : ErrorCode) : Calm w (w.handleLogin ec) := by
  unfold handleLogin
  split
  · split
    · exact ⟨rfl, rfl, by simp, fun _ _ hmem => hmem⟩
    · split
      · exact calm_wait 300 (by simp)
      · exact calm_wait 30 (by simp)
  · exact calm_nextRound w

theorem calm_unlessCanceled {next : MainLoop} (ec : ErrorCode) (hnext : Calm w next) : Calm w (w.unlessCanceled ec next) := by
  unfold unlessCanceled
  split
  · exact calm_moved (by simp)
  · exact hnext

theorem point_startPop (w : MainLoop) : w.startPop.point = .popping := rfl

theorem CodesInv.of_startPop (hfresh : Fresh w.trail) (h : w.Unasked) (husable : ∀ vc ∈ w.mVcQueue.mList, w.Usable vc) :
    w.startPop.CodesInv where
  fresh := hfresh
  unasked hpoint := absurd w.point_startPop hpoint
  asked _ := h.startPop husable

theorem codesInv_handleCheck (hfresh : Fresh w.trail) (h : w.Unasked) {ec : ErrorCode} {answered : List Str}
    (hleft : ec = needVc → answered ≠ [] ∨ ∀ vc ∈ w.mVcQueue.mList, vc.code = []) (str : Str) :
    (w.handleCheck ec str answered).CodesInv := by
  have hcounted : ({ w with checks := w.checks + 1 } : MainLoop).Unasked := ⟨h.container, h.short, h.waiters, h.posted⟩
  unfold handleCheck
  split
  · split
    · next hvc =>
        obtain ⟨hfed, hchecks, hmem⟩ := hcounted.foldl_feed answered
        apply CodesInv.of_startPop _ hfed
        · intro vc hin
          rcases hmem vc hin with ⟨hnone, hold⟩ | hnew
          · exact .inl ((hleft hvc).resolve_left (not_not.mpr hnone) vc hold)
          · exact .inr (hnew.trans hchecks.symm)
        · rw [trail_foldl_feed]
          exact hfresh
    · exact CodesInv.of_calm (w := { w with checks := w.checks + 1 }) hfresh hcounted (calm_wait 300 (by simp))
  · obtain ⟨hfed, hlist⟩ := hcounted.feed str
    apply CodesInv.of_startPop _ hfed
    · intro vc hin
      rw [hlist, mem_singleton] at hin
      exact .inr (by rw [hin]; rfl)
    · exact hfresh

theorem codesInv_handlePop {vc : VerifyCode} (hfresh : Fresh w.trail) (h : w.Unasked) (husable : w.Usable vc) :
    (w.handlePop vc).CodesInv := by
  unfold handlePop
  split
  · next hcode =>
      refine ⟨?_, fun _ => ⟨h.container, h.short, h.waiters, h.posted⟩, fun hpoint => absurd hpoint (by simp)⟩
      intro vc' checks hmem
      rcases mem_cons.mp hmem with hlast | hold
      · obtain ⟨rfl, rfl⟩ := LoopEntry.login.inj hlast
        exact husable.resolve_left hcode
      · exact hfresh vc' checks hold
  · exact .of_calm hfresh h (calm_nextRound w)

theorem CodesInv.calm (h : w.CodesInv) (hpoint : w.point = point) (hne : point ≠ .popping)
    (hcalm : Calm w w') : w'.CodesInv := by
  apply CodesInv.of_calm h.fresh _ hcalm
  apply h.unasked
  rw [hpoint]
  exact hne

theorem codesInv_step {e : LoopEvent} (h : w.CodesInv) (hleft : w.NoneLeft e) (hstep : w.step e = some w') : w'.CodesInv := by
  cases moves_of_step hstep with
  | start hpoint => exact h.calm hpoint (by simp) (calm_nextRound w)
  | polled ec hpoint => exact h.calm hpoint (by simp) (calm_unlessCanceled ec (calm_handlePoll w ec))
  | afterPoll ec hpoint => exact h.calm hpoint (by simp) (calm_endPoll w ec)
  | afterCheck hpoint => exact h.calm hpoint (by simp) (calm_moved (by simp))
  | afterBlocked hpoint => exact h.calm hpoint (by simp) (calm_wait 30 (by simp))
  | afterLogin hpoint => exact h.calm hpoint (by simp) (calm_nextRound w)
  | checked ec str answered hpoint =>
    unfold unlessCanceled
    split
    · exact h.calm hpoint (by simp) (calm_moved (by simp))
    · exact codesInv_handleCheck h.fresh (h.unasked (by rw [hpoint]; simp)) (hleft hpoint) str
  | @popped _ vc posted hpoint hposted =>
    obtain ⟨hcontainer, hshort, hwanted⟩ := h.asked hpoint
    rcases hwanted with ⟨-, -, hnone⟩ | ⟨hwaiters, vc', hone, husable⟩
    · rw [hnone] at hposted
      cases hposted
    · rw [hone] at hposted
      cases hposted
      exact codesInv_handlePop (w := { w with posted := [] }) h.fresh ⟨hcontainer, hshort, hwaiters, rfl⟩ husable
  | popCanceled hpoint hposted =>
    -- the queue never cancels a pop here
    obtain ⟨-, -, ⟨-, -, hnone⟩ | ⟨-, vc', hone, -⟩⟩ := h.asked hpoint
    · rw [hnone] at hposted
      cases hposted
    · rw [hone] at hposted
      cases hposted
  | loggedIn ec hpoint => exact h.calm hpoint (by simp) (calm_unlessCanceled ec (calm_handleLogin w ec))
  | feedVc code =>
    exact ⟨h.fresh, fun hpoint => ((h.unasked hpoint).feed code).1, fun hpoint => (h.asked hpoint).feed code⟩
  | setStatus status =>
    refine ⟨h.fresh, fun hpoint => ?_, fun hpoint => ?_⟩
    · obtain ⟨hcontainer, hshort, hwaiters, hposted⟩ := h.unasked hpoint
      exact ⟨hcontainer, hshort, hwaiters, hposted⟩
    · obtain ⟨hcontainer, hshort, hwanted⟩ := h.asked hpoint
      exact ⟨hcontainer, hshort, hwanted⟩

/-- In every run in which no code is left in the queue when the server asks for one, each code that is passed on belongs to its attempt. -/
theorem fresh_of_noneLeft {mClientid : Str} {events : List LoopEvent} (hleft : Meets step NoneLeft (new mClientid) events)
    (hrun : run step (new mClientid) events = some w) : Fresh w.trail := by
  have hstart : (new mClientid).CodesInv := by
    refine ⟨?_, fun _ => ⟨rfl, Nat.zero_le 1, rfl, rfl⟩, fun hpoint => absurd hpoint (by simp [new])⟩
    intro vc checks hmem
    cases hmem
  exact (invariant_of_meets (fun _ _ _ => codesInv_step) hstart hleft hrun).fresh

def sampleCode : Str := "abcd".toList

def twoAttempts : List LoopEvent :=
  [.start, .checked needVc [] [], .feedVc sampleCode, .popped, .loggedIn (makeErrorCode .loginFailedWrongVc), .timer,
    .checked needVc [] [], .feedVc "efgh".toList, .popped]

/-- The server asks for a code in two attempts, and each time somebody feeds one, which is passed on. -/
theorem fresh_of_two_codes :
    ∃ w, Meets step NoneLeft (new []) twoAttempts ∧ run step (new []) twoAttempts = some w ∧
      .login ⟨sampleCode, 1⟩ 1 ∈ w.trail ∧ .login ⟨"efgh".toList, 2⟩ 2 ∈ w.trail ∧ Fresh w.trail := by
  have hleft : Meets step NoneLeft (new []) twoAttempts := by decide +kernel
  exact ⟨_, hleft, rfl, by decide, by decide, fresh_of_noneLeft hleft rfl⟩

/-- Two codes are fed for the first attempt. The second one is too late for it, and is passed on in the next attempt. -/
theorem late_code_in_next_attempt :
    ∃ w, run step (new []) [.start, .checked needVc [] [], .feedVc sampleCode, .popped, .feedVc "efgh".toList,
        .loggedIn (makeErrorCode .loginFailedWrongVc), .timer, .checked needVc [] [], .popped] = some w ∧
      .login ⟨"efgh".toList, 1⟩ 2 ∈ w.trail ∧ ¬ Fresh w.trail := by
  refine ⟨_, rfl, mem_cons_self, ?_⟩
  intro hfresh
  exact absurd (hfresh ⟨"efgh".toList, 1⟩ 2 mem_cons_self) (by decide)

end MainLoop

end Avbot
