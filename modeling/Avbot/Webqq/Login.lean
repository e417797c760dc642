import Avbot.Http.Url
import Avbot.Webqq.GroupList

/-!
# Logging in

`login_vc_op` is one coroutine that starts with the answer to the login request and goes on through redirects, the session key, the online status and the lists. It reports to its handler at most once, from one of five places. A completion that is posted to the `io_service` is delivered in the same step, since nothing else resumes this coroutine.
-/

namespace Avbot

open EventMachine Except

namespace Str

def lit (p s : Str) : Option Str := if p.isPrefixOf s then some (s.drop p.length) else none

def optSpace : Str → Str
  | ' ' :: s => s
  | s => s

def digit : Str → Option Str
  | c :: s => if c.isDigit then some s else none
  | [] => none

def nextField (s : Str) : Option Str := do
  let s ← lit "',".toList s
  lit "'".toList (optSpace s)

end Str

/-- The groups 1, 3 and 6 of `ptuiCB\('([0-9]+)',[ ]?'([0-9])',[ ]?'([^']*)',[ ]?'([0-9])',[ ]?'([^']*)',[ ]?'([^']*)'[ ]*\);` at the start of a text. No part can match in two ways. -/
def matchPtuiCB (s : Str) : Option (Str × Str × Str) := do
  let s ← Str.lit "ptuiCB('".toList s
  let status := s.takeWhile Char.isDigit
  if status = [] then none
  let s ← Str.nextField (s.dropWhile Char.isDigit)
  let s ← Str.digit s
  let s ← Str.nextField s
  let url := s.takeWhile (· ≠ '\x27')
  let s ← Str.nextField (s.dropWhile (· ≠ '\x27'))
  let s ← Str.digit s
  let s ← Str.nextField s
  let s ← Str.nextField (s.dropWhile (· ≠ '\x27'))
  let nick := s.takeWhile (· ≠ '\x27')
  let s ← Str.lit "'".toList (s.dropWhile (· ≠ '\x27'))
  let _ ← Str.lit ");".toList (s.dropWhile (· = ' '))
  return (status, url, nick)

/-- `regex_search(response.c_str(), ..)`: the leftmost match before the first `NUL`. -/
def searchPtuiCB (response : Str) : Option (Str × Str × Str) :=
  (response.takeWhile (· ≠ '\x00')).tails.findSome? matchPtuiCB

/-- Where the coroutine is suspended. The members still to be fetched are those of `rest`. -/
inductive LoginPoint where
  | login
  | redirect
  | redirectAgain
  | vfwebqq
  | changeStatus
  | buddyList
  | groupList (i : Nat) (point : GroupListPoint)
  | retryDelay (i : Nat) (ec : ErrorCode)
  | member (rest : List Str)
  | memberDelay (rest : List Str) (ec : ErrorCode)
  | ended
  | crashed
  deriving DecidableEq

structure LoginWorld where
  mStatus : LwqqStatus
  mNick : Str
  mNextUrl : Str
  mVfwebqq : Str
  mPsessionid : Str
  mMyselfUin : Str
  mFetchGroups : Bool
  groups : GroupsWorld
  point : LoginPoint
  reports : List (ErrorCode × LwqqStatus)

inductive LoginEvent where
  | answer (now : Nat) (a : HttpAnswer)
  /-- The answer of `m_next_url`, and `m_stream->location()` after it. -/
  | redirected (ec : ErrorCode) (location : Str)
  | timer
  | member (ec : ErrorCode)

namespace LoginWorld

def report (w : LoginWorld) (ec : ErrorCode) : LoginWorld :=
  { w with point := .ended, reports := w.reports ++ [(ec, w.mStatus)] }

def loginError (status : Int) : ErrorCode :=
  if (0 ≤ status ∧ status ≤ 8) ∨ status = 19 then ⟨status, .webqq⟩
  else makeErrorCode .loginFailedOther

/-- In the error branch the source assigns `LWQQ_STATUS_OFFLINE` to its local `status`, not to the member. -/
def checkLogin (w : LoginWorld) (response : Str) : Except Exn (LoginWorld × ErrorCode) :=
  match searchPtuiCB response with
  | none => .ok (w, loginError 9)
  | some (digits, url, nick) =>
    match Str.lexicalCast digits with
    | .error e => .error e
    | .ok status =>
      let w := { w with mNick := nick, mNextUrl := url }
      if (loginError status).failed then .ok (w, loginError status)
      else .ok ({ w with mStatus := .online }, loginError status)

/-- `update_vfwebqq_op`. The login ignores its error. -/
def updateVfwebqq (w : LoginWorld) (a : HttpAnswer) : LoginWorld :=
  if a.ec.failed then w
  else
    match a.json with
    | none => w
    | some json =>
      if json.get? ["retcode"] = some "0".toList then
        match json.get? ["result", "vfwebqq"] with
        | none => w
        | some vfwebqq => { w with mVfwebqq := vfwebqq, mStatus := .online }
      else w

/-- `change_status_op`. A field that is missing throws after the ones before it have been stored. -/
def changeStatus (w : LoginWorld) (a : HttpAnswer) : LoginWorld × ErrorCode :=
  let failed := makeErrorCode .failedToChangeStatus
  if a.ec.failed then (w, failed)
  else
    match a.json with
    | none => (w, failed)
    | some json =>
      if json.get? ["retcode"] = some "0".toList then
        match json.get? ["result", "psessionid"] with
        | none => (w, failed)
        | some psessionid =>
          let w := { w with mPsessionid := psessionid }
          match json.get? ["result", "vfwebqq"] with
          | none => (w, failed)
          | some vfwebqq =>
            let w := { w with mVfwebqq := vfwebqq }
            match json.get? ["result", "uin"] with
            | none => (w, failed)
            | some uin => ({ w with mMyselfUin := uin, mStatus := .online }, .success)
      else (w, failed)

/-- The reads of `update_buddy_list_op` that are not inside a `try` of their own. -/
def readFriend (result : Ptree) : Except Exn (Str × Int × Int) := do
  let uin ← getString result ["uin"]
  let flag ← getInt result ["flag"]
  let categories ← getInt result ["categories"]
  return (uin, flag, categories)

/-- The error of `update_buddy_list_op`. A `retcode` other than 0 is not one. -/
def buddyListError (a : HttpAnswer) : ErrorCode :=
  let result : Except Exn Unit :=
    match a.json with
    | none => throw .ptreeBadData
    | some jsonobj => do
      let retcode ← getInt jsonobj ["retcode"]
      if retcode = 0 then
        match jsonobj.getChild? ["result", "friends"] with
        | none => throw .ptreeBadPath
        | some friends => friends.children.forM fun friend => do
          let _ ← readFriend friend.2
  match result with
  | .ok _ => .success
  | .error _ => makeErrorCode .failedToFetchBuddyList

def nextMember (w : LoginWorld) (ec : ErrorCode) : List Str → LoginWorld
  | [] => w.report ec
  | _ :: rest => { w with point := .member rest }

def afterGroupList (w : LoginWorld) (i : Nat) (ec : ErrorCode) : LoginWorld :=
  if ec.failed then { w with point := .retryDelay i ec }
  else w.nextMember ec w.groups.mGroups.keys

def stepGroupList (w : LoginWorld) (i : Nat) (op : GroupListOp) : LoginWorld :=
  let w := { w with groups := op.world }
  match op.point with
  | .done ec => w.afterGroupList i ec
  | point => { w with point := .groupList i point }

def step (w : LoginWorld) : LoginEvent → Option LoginWorld
  | .answer now a =>
    match w.point with
    | .login =>
      match w.checkLogin a.body with
      | .error _ => some { w with point := .crashed }
      | .ok (w, ec) =>
        -- the next URL, as the location after it, is asked for its cookies: what is no URL throws
        some (if ec.failed then w.report ec
          else { w with point := if (Http.Url.fromString w.mNextUrl).isSome then .redirect else .crashed })
    | .redirectAgain => some { w with point := .vfwebqq }
    | .vfwebqq => some { w.updateVfwebqq a with point := .changeStatus }
    | .changeStatus =>
      let (w, ec) := w.changeStatus a
      some (if ec.failed then w.report ec else { w with point := .buddyList })
    | .buddyList =>
      some (if w.mFetchGroups then { w with point := .groupList 0 .fetching }
        else w.report (buddyListError a))
    | .groupList i point =>
      (GroupListOp.step ⟨w.groups, point⟩ (.answer now a)).map (w.stepGroupList i)
    | _ => none
  | .redirected ec location =>
    match w.point with
    | .redirect => some { w with
        point := if (Http.Url.fromString location).isNone then .crashed else if ec = .found then .redirectAgain else .vfwebqq }
    | _ => none
  | .timer =>
    match w.point with
    | .groupList i point => (GroupListOp.step ⟨w.groups, point⟩ .timer).map (w.stepGroupList i)
    -- the test `i++ < 5 && ec`: five repetitions after the first attempt
    | .retryDelay i ec =>
      some (if i < 5 then { w with point := .groupList (i + 1) .fetching } else w.report ec)
    | .memberDelay rest ec => some (w.nextMember ec rest)
    | _ => none
  | .member ec =>
    match w.point with
    | .member rest => some { w with point := .memberDelay rest ec }
    | _ => none

def start (w : LoginWorld) : LoginWorld := { w with point := .login, reports := [] }

/-- Every error was reported with a status other than `ONLINE`. -/
def ReportsOffline (w : LoginWorld) : Prop :=
  ∀ r ∈ w.reports, r.1.failed = true → r.2 ≠ .online

/-- A login that is turned down from a state other than `ONLINE`, a status change that the server accepts, a buddy list that is read if it is the last thing to be fetched, a group list that arrives by the sixth attempt, and a last member list without error. -/
def Favourable (w : LoginWorld) : LoginEvent → Prop
  | .answer _ a =>
    match w.point with
    | .login =>
      match w.checkLogin a.body with
      | .error _ => True
      | .ok (_, ec) => ec.failed = true → w.mStatus ≠ .online
    | .changeStatus => (w.changeStatus a).2.failed = false
    | .buddyList => w.mFetchGroups = true ∨ (buddyListError a).failed = false
    | _ => True
  | .timer =>
    match w.point with
    | .retryDelay i _ => i < 5
    | .memberDelay rest ec => rest ≠ [] ∨ ec.failed = false
    | _ => True
  | .redirected _ _ | .member _ => True

/-- From the moment the account is accepted the status is `ONLINE`, and a pause before a retry follows an error. -/
structure Inv (w : LoginWorld) : Prop where
  right : w.ReportsOffline
  online : w.point = .login ∨ w.point = .ended ∨ w.point = .crashed ∨ w.mStatus = .online
  retry : ∀ i ec, w.point = .retryDelay i ec → ec.failed = true

variable {w w' : LoginWorld} {ec : ErrorCode} {now : Nat} {a : HttpAnswer}

theorem ReportsOffline.of_reports (hw : w.ReportsOffline) (hreports : w'.reports = w.reports) : w'.ReportsOffline := by
  rw [ReportsOffline, hreports]
  exact hw

theorem report_inv (hright : w.ReportsOffline) (hec : ec.failed = true → w.mStatus ≠ .online) : (w.report ec).Inv := by
  refine ⟨?_, .inr (.inl rfl), fun i ec h => by simp [report] at h⟩
  intro r hr
  rcases List.mem_append.mp hr with hr | hr
  · exact hright r hr
  · rw [List.mem_singleton] at hr
    exact hr ▸ hec

/-- The attempt is over and has left an error behind with the status `ONLINE`. -/
def FailedOnline (w : LoginWorld) : Prop := w.point = .ended ∧ ¬ w.ReportsOffline

theorem report_bad (hec : ec.failed = true) (hstatus : w.mStatus = .online) : (w.report ec).FailedOnline :=
  ⟨rfl, fun h => h (ec, w.mStatus) (by simp [report]) hec hstatus⟩

theorem suspend_inv {point : LoginPoint} (hright : w.ReportsOffline)
    (hstatus : w.mStatus = .online) (hpoint : ∀ i ec, point ≠ .retryDelay i ec) :
    { w with point := point }.Inv :=
  ⟨hright, .inr (.inr (.inr hstatus)), fun i ec h => absurd h (hpoint i ec)⟩

theorem nextMember_inv {gids : List Str} (hright : w.ReportsOffline) (hstatus : w.mStatus = .online)
    (hec : gids ≠ [] ∨ ec.failed = false) : (w.nextMember ec gids).Inv := by
  cases gids with
  | nil => exact report_inv hright fun h => by simp [h] at hec
  | cons gid rest => exact suspend_inv hright hstatus (by simp)

theorem stepGroupList_inv (i : Nat) (op : GroupListOp)
    (hright : w.ReportsOffline) (hstatus : w.mStatus = .online) : (w.stepGroupList i op).Inv := by
  unfold stepGroupList
  split
  · rename_i ec _
    unfold afterGroupList
    split
    · rename_i hec
      exact ⟨hright, .inr (.inr (.inr hstatus)), fun j ec' h => by
        simp only [LoginPoint.retryDelay.injEq] at h
        exact h.2 ▸ hec⟩
    · rename_i hec
      exact nextMember_inv hright hstatus (.inr (by simpa using hec))
  · exact suspend_inv hright hstatus (by simp)

theorem checkLogin_spec {response : Str} (h : w.checkLogin response = .ok (w', ec)) :
    w'.reports = w.reports ∧
      (ec.failed = true → w'.mStatus = w.mStatus) ∧ (ec.failed = false → w'.mStatus = .online) := by
  unfold checkLogin at h
  split at h
  · obtain ⟨rfl, rfl⟩ := Prod.mk.inj (ok.inj h)
    exact ⟨rfl, fun _ => rfl, fun h => absurd h (by decide)⟩
  · split at h
    · exact absurd h (by simp)
    · split at h
      · rename_i hfailed
        obtain ⟨rfl, rfl⟩ := Prod.mk.inj (ok.inj h)
        exact ⟨rfl, fun _ => rfl, fun h => by simp [hfailed] at h⟩
      · rename_i hfailed
        obtain ⟨rfl, rfl⟩ := Prod.mk.inj (ok.inj h)
        exact ⟨rfl, fun h => absurd h hfailed, fun _ => rfl⟩

theorem updateVfwebqq_spec (w : LoginWorld) (a : HttpAnswer) :
    (w.updateVfwebqq a).reports = w.reports ∧
      (w.mStatus = .online → (w.updateVfwebqq a).mStatus = .online) := by
  unfold updateVfwebqq
  repeat' split
  all_goals exact ⟨rfl, fun h => by first | exact h | rfl⟩

theorem changeStatus_spec (w : LoginWorld) (a : HttpAnswer) :
    (w.changeStatus a).1.reports = w.reports ∧
      (w.mStatus = .online → (w.changeStatus a).1.mStatus = .online) := by
  unfold changeStatus
  repeat' split
  all_goals exact ⟨rfl, fun h => by first | exact h | rfl⟩

section

variable (hw : w.Inv)

include hw

theorem Inv.status (hpoint : ¬ (w.point = .login ∨ w.point = .ended ∨ w.point = .crashed)) : w.mStatus = .online := by
  simpa [not_or.mp hpoint, ← or_assoc] using hw.online

/-- A step either is favourable and keeps the invariant, or ends the attempt with an error and the status `ONLINE`. -/
def Settles (w : LoginWorld) (e : LoginEvent) (w' : LoginWorld) : Prop :=
  (w.Favourable e ∧ w'.Inv) ∨ (¬ w.Favourable e ∧ w'.FailedOnline)

theorem step_login_exact (hpoint : w.point = .login)
    (hstep : w.step (.answer now a) = some w') : w.Settles (.answer now a) w' := by
  simp only [step, Settles, Favourable, hpoint] at hstep ⊢
  cases hcheck : w.checkLogin a.body with
  | error e =>
    simp only [hcheck, Option.some.injEq] at hstep
    subst hstep
    exact .inl ⟨trivial, hw.right, .inr (.inr (.inl rfl)), by simp⟩
  | ok result =>
    obtain ⟨u, ec⟩ := result
    obtain ⟨hreports, hkept, honline⟩ := checkLogin_spec hcheck
    have hright : u.ReportsOffline := hw.right.of_reports hreports
    simp only [hcheck, Option.some.injEq] at hstep ⊢
    subst hstep
    split
    · rename_i hfailed
      by_cases hoff : w.mStatus = .online
      · exact .inr ⟨fun h => h hfailed hoff, report_bad hfailed ((hkept hfailed).trans hoff)⟩
      · exact .inl ⟨fun _ => hoff, report_inv hright fun _ => (hkept hfailed).symm ▸ hoff⟩
    · rename_i hfailed
      refine .inl ⟨fun h => absurd h hfailed, suspend_inv hright (honline (by simpa using hfailed)) ?_⟩
      split <;> simp

theorem step_changeStatus_exact (hpoint : w.point = .changeStatus)
    (hstep : w.step (.answer now a) = some w') : w.Settles (.answer now a) w' := by
  obtain ⟨hreports, honline⟩ := changeStatus_spec w a
  have hstatus := honline (hw.status (by simp [hpoint]))
  simp only [step, Settles, Favourable, hpoint, Option.some.injEq] at hstep ⊢
  subst hstep
  split
  · rename_i hfailed
    exact .inr ⟨by simp [hfailed], report_bad hfailed hstatus⟩
  · rename_i hfailed
    exact .inl ⟨by simpa using hfailed, suspend_inv (hw.right.of_reports hreports) hstatus (by simp)⟩

theorem step_buddyList_exact (hpoint : w.point = .buddyList)
    (hstep : w.step (.answer now a) = some w') : w.Settles (.answer now a) w' := by
  have hstatus := hw.status (by simp [hpoint])
  simp only [step, Settles, Favourable, hpoint, Option.some.injEq] at hstep ⊢
  subst hstep
  split
  · rename_i hfetch
    exact .inl ⟨.inl hfetch, suspend_inv hw.right hstatus (by simp)⟩
  · rename_i hfetch
    by_cases hfailed : (buddyListError a).failed = true
    · exact .inr ⟨by simp [hfetch, hfailed], report_bad hfailed hstatus⟩
    · exact .inl ⟨.inr (by simpa using hfailed), report_inv hw.right fun h => absurd h hfailed⟩

theorem step_answer_exact (hstep : w.step (.answer now a) = some w') : w.Settles (.answer now a) w' := by
  cases hpoint : w.point with
  | login => exact step_login_exact hw hpoint hstep
  | changeStatus => exact step_changeStatus_exact hw hpoint hstep
  | buddyList => exact step_buddyList_exact hw hpoint hstep
  | redirectAgain =>
    have hstatus := hw.status (by simp [hpoint])
    simp only [step, Settles, Favourable, hpoint, Option.some.injEq] at hstep ⊢
    subst hstep
    exact .inl ⟨trivial, suspend_inv hw.right hstatus (by simp)⟩
  | vfwebqq =>
    obtain ⟨hreports, honline⟩ := updateVfwebqq_spec w a
    have hstatus := honline (hw.status (by simp [hpoint]))
    simp only [step, Settles, Favourable, hpoint, Option.some.injEq] at hstep ⊢
    subst hstep
    exact .inl ⟨trivial, suspend_inv (hw.right.of_reports hreports) hstatus (by simp)⟩
  | groupList i point =>
    have hstatus := hw.status (by simp [hpoint])
    simp only [step, Settles, Favourable, hpoint] at hstep ⊢
    obtain ⟨op, _, rfl⟩ := Option.map_eq_some_iff.mp hstep
    exact .inl ⟨trivial, stepGroupList_inv i op hw.right hstatus⟩
  | _ => simp [step, hpoint] at hstep

theorem step_timer_exact (hstep : w.step .timer = some w') : w.Settles .timer w' := by
  cases hpoint : w.point with
  | groupList i point =>
    have hstatus := hw.status (by simp [hpoint])
    simp only [step, Settles, Favourable, hpoint] at hstep ⊢
    obtain ⟨op, _, rfl⟩ := Option.map_eq_some_iff.mp hstep
    exact .inl ⟨trivial, stepGroupList_inv i op hw.right hstatus⟩
  | retryDelay i ec =>
    have hstatus := hw.status (by simp [hpoint])
    simp only [step, Settles, Favourable, hpoint, Option.some.injEq] at hstep ⊢
    subst hstep
    split
    · rename_i hi
      exact .inl ⟨hi, suspend_inv hw.right hstatus (by simp)⟩
    · rename_i hi
      exact .inr ⟨hi, report_bad (hw.retry i ec hpoint) hstatus⟩
  | memberDelay rest ec =>
    have hstatus := hw.status (by simp [hpoint])
    simp only [step, Settles, Favourable, hpoint, Option.some.injEq] at hstep ⊢
    subst hstep
    by_cases hend : rest ≠ [] ∨ ec.failed = false
    · exact .inl ⟨hend, nextMember_inv hw.right hstatus hend⟩
    · refine .inr ⟨hend, ?_⟩
      rw [not_or, not_not, Bool.not_eq_false] at hend
      rw [hend.1]
      exact report_bad hend.2 hstatus
  | _ => simp [step, hpoint] at hstep

theorem step_exact {e : LoginEvent} (hstep : w.step e = some w') : w.Settles e w' := by
  cases e with
  | answer now a => exact step_answer_exact hw hstep
  | timer => exact step_timer_exact hw hstep
  | redirected ec location =>
    refine .inl ⟨trivial, ?_⟩
    cases hpoint : w.point <;> simp only [step, hpoint, Option.some.injEq, reduceCtorEq] at hstep
    subst hstep
    refine suspend_inv hw.right (hw.status (by simp [hpoint])) ?_
    repeat' split
    all_goals simp
  | member ec =>
    refine .inl ⟨trivial, ?_⟩
    cases hpoint : w.point <;> simp only [step, hpoint, Option.some.injEq, reduceCtorEq] at hstep
    subst hstep
    exact suspend_inv hw.right (hw.status (by simp [hpoint])) (by simp)

end

/-- Every error is reported with a status other than `ONLINE` exactly when every step is favourable. -/
theorem reportsOffline_iff_favourable {w w' : LoginWorld} {es : List LoginEvent}
    (hrun : run step w.start es = some w') :
    w'.ReportsOffline ↔ Meets step Favourable w.start es := by
  have hstart : w.start.Inv := ⟨by simp [ReportsOffline, start], .inl rfl, by simp [start]⟩
  refine meets_iff_of_run (fun _ _ _ hs he => step_exact hs he) ?_ (fun _ hs => hs.right)
    (fun _ hbad => hbad.2) hstart hrun
  intro s e s' hbad hstep
  cases e <;> simp [step, hbad.1] at hstep

def loggedOut : LoginWorld where
  mStatus := .offline
  mNick := []
  mNextUrl := []
  mVfwebqq := []
  mPsessionid := []
  mMyselfUin := []
  mFetchGroups := false
  groups := ⟨∅, .empty⟩
  point := .login
  reports := []

def acceptedThen (rest : List LoginEvent) : List LoginEvent :=
  .answer 0 ⟨.success, "ptuiCB('0','0','http://w.qq.com/','0','ok', 'av');".toList, none⟩ ::
    .redirected .found "http://w.qq.com/p".toList :: .answer 0 ⟨.success, [], none⟩ :: .answer 0 ⟨.success, [], none⟩ :: rest

theorem login_favourable_to_the_end :
    let es := acceptedThen
      [.answer 0 ⟨.success, "\x7b\"retcode\":0,\"result\":\x7b\"psessionid\":\"p\",\"vfwebqq\":\"v\",\"uin\":1\x7d\x7d".toList,
        some (.node [] [("retcode", .leaf ['0']), ("result", .node []
          [("psessionid", .leaf ['p']), ("vfwebqq", .leaf ['v']), ("uin", .leaf ['1'])])])⟩,
      .answer 0 ⟨.success, "\x7b\"retcode\":0,\"result\":\x7b\"friends\":[]\x7d\x7d".toList,
        some (.node [] [("retcode", .leaf ['0']), ("result", .node [] [("friends", .node [] [])])])⟩]
    ∃ w', run step loggedOut.start es = some w' ∧ w'.reports = [(.success, .online)] ∧
      Meets step Favourable loggedOut.start es := by
  intro es
  obtain ⟨w', hrun⟩ : ∃ w', run step loggedOut.start es = some w' := ⟨_, rfl⟩
  have hreports : w'.reports = [(.success, .online)] := by
    have h : (run step loggedOut.start es).map reports = some [(.success, .online)] := by decide
    simpa [hrun] using h
  refine ⟨w', hrun, hreports, (reportsOffline_iff_favourable hrun).mp ?_⟩
  rw [ReportsOffline, hreports]
  decide

/-- The account is accepted and the status change fails: the error is reported with the status `ONLINE`, with which the main loop goes on to poll. -/
theorem error_reported_online :
    (run step loggedOut.start (acceptedThen [.answer 0 ⟨.success, "busy".toList, none⟩])).map reports =
      some [(makeErrorCode .failedToChangeStatus, .online)] ∧
    (makeErrorCode .failedToChangeStatus).failed = true := by
  decide

end LoginWorld

end Avbot
