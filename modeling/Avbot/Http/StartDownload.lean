import Avbot.Base.MachineInt
import Avbot.Http.ContentDisposition
import Avbot.Http.Rangefield
import Avbot.Http.Request

/-!
# The first answer of a download

`start` and `handle_start` of `multi_download` take the size of the file, its name and whether the server allows several connections from the first answer. Without a length the asynchronous one asks for the range, but the synchronous one asks for the length again.
-/

namespace Avbot

/-- `boost::lexical_cast<boost::int64_t>`. -/
def Str.lexicalCastInt64 (s : Str) : Except Exn Int :=
  match intValue s with
  | some n => if int64 n = n then .ok n else .error .badLexicalCast
  | none => .error .badLexicalCast

namespace Http

open Httpd (Options)

def HttpOptions.contentLength : Str := "Content-Length".toList

def HttpOptions.contentRange : Str := "Content-Range".toList

/-- The members of `multi_download` that the first answer decides. -/
structure Starting where
  mFinalUrl : Url
  mFileSize : Int
  mAcceptMulti : Bool
  mFileName : Str
  mRangefield : Rangefield
  mDownloadedField : Rangefield

namespace Starting

def afterSlash (s : Str) : Str := (s.dropWhile (· ≠ '/')).tail

def lengthText (second : Str) (opts : Options) : Str :=
  let length := opts.find HttpOptions.contentLength
  if length = [] then afterSlash (opts.find second) else length

def takeLength (d : Starting) (length : Str) : Starting :=
  if length = [] then { d with mAcceptMulti := false }
  else
    match length.lexicalCastInt64 with
    | .ok fileSize =>
      if fileSize ≠ -1 ∧ fileSize ≠ d.mFileSize then
        { d with mFileSize := fileSize, mRangefield := .new fileSize, mDownloadedField := .new fileSize }
      else d
    | .error _ => { d with mAcceptMulti := false }

def takeName (d : Starting) (filename : Str) : Starting :=
  let value := if filename = [] then [] else (contentDispositionFilename filename []).2
  { d with mFileName := if value = [] then d.mFileName else value }

def allowsMulti (disableMultiDownload : Bool) (opts : Options) : Bool :=
  decide (opts.find HttpOptions.statusCode = "206".toList) && !disableMultiDownload

/-- The last URL. The assignment throws if the location is none. -/
def finalUrl (d : Starting) (location : Str) : Option Url :=
  if location = [] then some d.mFinalUrl else Url.fromString location

/-- What both do with the answer. Where they look for the length if there is none is a parameter. -/
def takeAnswer (second : Str) (disableMultiDownload : Bool) (d : Starting) (location : Str) (opts : Options) : Option Starting := do
  let url ← d.finalUrl location
  let d := { d with mFinalUrl := url, mAcceptMulti := allowsMulti disableMultiDownload opts }
  return (d.takeLength (lengthText second opts)).takeName (opts.find "Content-Disposition".toList)

def start : Bool → Starting → Str → Options → Option Starting := takeAnswer HttpOptions.contentLength

def handleStart : Bool → Starting → Str → Options → Option Starting := takeAnswer HttpOptions.contentRange

/-- There is a length, or the range tells nothing that would change the download. -/
def LengthsAgree (disableMultiDownload : Bool) (d : Starting) (opts : Options) : Prop :=
  opts.find HttpOptions.contentLength ≠ [] ∨
    ∀ n, (afterSlash (opts.find HttpOptions.contentRange)).lexicalCastInt64 = .ok n →
      (n = -1 ∨ n = d.mFileSize) ∧ allowsMulti disableMultiDownload opts = false

/-- Taking a length is the same as taking none if it tells nothing new. -/
theorem takeLength_eq_iff (d : Starting) (length filename : Str) :
    (d.takeLength []).takeName filename = (d.takeLength length).takeName filename ↔
      ∀ n, length.lexicalCastInt64 = .ok n → (n = -1 ∨ n = d.mFileSize) ∧ d.mAcceptMulti = false := by
  by_cases hlength : length = []
  · subst hlength
    exact iff_of_true rfl fun n hn => by cases hn
  · rw [takeLength, takeLength, if_pos rfl, if_neg hlength]
    cases hcast : length.lexicalCastInt64 with
    | error e => exact iff_of_true rfl (by simp)
    | ok n =>
      simp only [Except.ok.injEq, forall_eq']
      split
      · rename_i hnew
        refine iff_of_false (fun h => hnew.2 (congrArg mFileSize h).symm) fun h => ?_
        exact h.1.elim hnew.1 hnew.2
      · rename_i hold
        constructor
        · intro h
          exact ⟨by rwa [← not_not (a := n = -1 ∨ _), not_or], (congrArg mAcceptMulti h).symm⟩
        · rintro ⟨-, hmulti⟩
          rw [← hmulti]

/-- Both take the same from an answer unless only the range tells the size. -/
theorem start_eq_handleStart_iff (disableMultiDownload : Bool) (d : Starting) (location : Str) (opts : Options) :
    start disableMultiDownload d location opts = handleStart disableMultiDownload d location opts ↔
      LengthsAgree disableMultiDownload d opts ∨ d.finalUrl location = none := by
  rw [start, handleStart, takeAnswer, takeAnswer]
  cases d.finalUrl location with
  | none => exact iff_of_true rfl (.inr rfl)
  | some url =>
    rw [or_iff_left (by simp)]
    show some _ = some _ ↔ _
    rw [Option.some.injEq, LengthsAgree, lengthText, lengthText]
    by_cases hlength : opts.find HttpOptions.contentLength = []
    · rw [if_pos hlength, if_pos hlength, hlength, or_iff_right (not_not.mpr rfl)]
      exact takeLength_eq_iff _ _ _
    · rw [if_neg hlength, if_neg hlength]
      exact iff_of_true rfl (.inl hlength)

/-- The size is only in the range, and the synchronous start does not find it. -/
theorem start_ne_handleStart_range :
    let d : Starting := ⟨.empty, -1, false, [], .new 0, .new 0⟩
    let opts : Options := [("_status_code".toList, "206".toList), ("Content-Range".toList, "bytes 0-9/10".toList)]
    (start false d [] opts).map (fun d => (d.mFileSize, d.mAcceptMulti)) = some (-1, false) ∧
      (handleStart false d [] opts).map (fun d => (d.mFileSize, d.mAcceptMulti)) = some (10, true) := by
  decide

end Starting

end Http

end Avbot
