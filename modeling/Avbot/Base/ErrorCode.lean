/-!
# Error codes and account states

`boost::system::error_code` is a value and a category; it counts as an error when the value is not zero. The categories that matter are the system's, libwebqq's own (`webqq::error::errc_t`) and avhttp's.
-/

namespace Avbot

inductive ErrorCategory where
  | system
  | generic
  | webqq
  | avhttp
  deriving DecidableEq, Repr

structure ErrorCode where
  value : Int
  category : ErrorCategory
  deriving DecidableEq, Repr

namespace ErrorCode

def success : ErrorCode := ⟨0, .system⟩

def failed (ec : ErrorCode) : Bool := decide (ec.value ≠ 0)

/-- `operation_aborted` on POSIX systems is `ECANCELED`, the same condition as `operation_canceled`. -/
def operationCanceled : ErrorCode := ⟨125, .system⟩

/-- The comparison `ec == boost::system::errc::operation_canceled`. -/
def isCanceled (ec : ErrorCode) : Bool :=
  decide (ec.value = 125 ∧ (ec.category = .system ∨ ec.category = .generic))

def found : ErrorCode := ⟨302, .avhttp⟩

@[simp] theorem failed_success : success.failed = false := rfl

end ErrorCode

inductive Errc where
  | ok
  | loginFailedServerBusy
  | loginFailedQqOutdate
  | loginFailedWrongPasswd
  | loginFailedWrongVc
  | loginFailedVerifyFailed
  | loginFailedTryAgain
  | loginFailedWrongInput
  | loginFailedTooManyLogin
  | loginFailedOther
  | loginFailedBlockedAccount
  | loginCheckNeedVc
  | fetchVerifycodeFailed
  | failedToChangeStatus
  | failedToFetchGroupList
  | failedToFetchBuddyList
  | failedToFetchGroupQqnumber
  | pollFailedUserKickedOff
  | pollFailedNetworkError
  | pollFailedNeedLogin
  | pollFailedNeedRefresh
  | pollFailedUserQuit
  | pollFailedUnknowRetCode
  | sendMessageFailedNotLogin
  | sendMessageFailedTooLong
  | sendMessageFailedTooOften
  | uploadOfflineFileFailed
  deriving DecidableEq, Repr

def Errc.value : Errc → Int
  | .ok => 0
  | .loginFailedServerBusy => 1
  | .loginFailedQqOutdate => 2
  | .loginFailedWrongPasswd => 3
  | .loginFailedWrongVc => 4
  | .loginFailedVerifyFailed => 5
  | .loginFailedTryAgain => 6
  | .loginFailedWrongInput => 7
  | .loginFailedTooManyLogin => 8
  | .loginFailedOther => 9
  | .loginFailedBlockedAccount => 19
  | .loginCheckNeedVc => 1000
  | .fetchVerifycodeFailed => 1001
  | .failedToChangeStatus => 1002
  | .failedToFetchGroupList => 1003
  | .failedToFetchBuddyList => 1004
  | .failedToFetchGroupQqnumber => 1005
  | .pollFailedUserKickedOff => 1006
  | .pollFailedNetworkError => 1007
  | .pollFailedNeedLogin => 1008
  | .pollFailedNeedRefresh => 1009
  | .pollFailedUserQuit => 1010
  | .pollFailedUnknowRetCode => 1011
  | .sendMessageFailedNotLogin => 1012
  | .sendMessageFailedTooLong => 1013
  | .sendMessageFailedTooOften => 1014
  | .uploadOfflineFileFailed => 1015

def makeErrorCode (e : Errc) : ErrorCode := ⟨e.value, .webqq⟩

inductive LwqqStatus where
  | unknow
  | online
  | offline
  | away
  | hidden
  | busy
  | callme
  | slient
  | quitting
  deriving DecidableEq, Repr

/-- A `std::string`, as the list of its characters. -/
abbrev Str := List Char

end Avbot
