import Avbot.Base.StringAlgo
import Avbot.Lib.EventMachine

/-!
# Lectures in the log

`avlog` keeps a file for every group, and one more while a lecture is held. `begin_lecture` stores the stream of the lecture before it looks whether the file could be created. What the file system answers is part of a call.
-/

namespace Avbot

open EventMachine Option

structure OfStream where
  path : Str
  app : Bool
  failed : Bool
  text : Str
  deriving DecidableEq

namespace OfStream

def new (path : Str) (app opened : Bool) : OfStream := ⟨path, app, !opened, []⟩

def write (f : OfStream) (data : Str) : OfStream := if f.failed then f else { f with text := f.text ++ data }

end OfStream

def joinPath (path p : Str) : Str :=
  if p = [] then path
  else if p.head? = some '/' ∨ path = [] ∨ path.getLast? = some '/' then path ++ p
  else path ++ '/' :: p

structure Avlog where
  mLectureFile : Option OfStream
  mLectureGroupid : Str
  /-- The streams of the groups. One that could not be created is a null pointer. -/
  mGroupList : List (Str × Option OfStream)
  mPath : Str

/-- What the file system answers to `create_file`. An error is an exception of `boost::filesystem`. -/
structure CreateAnswers where
  day : Str
  dirExists : Except Exn Bool
  dirCreated : Except Exn Bool
  fileExists : Except Exn Bool
  opened : Bool

namespace Avlog

def new (mPath : Str) : Avlog := ⟨none, [], [], mPath⟩

def makePath (l : Avlog) (groupid : Str) : Str := joinPath l.mPath groupid

def makeFilename (p day : Str) : Str := joinPath p (day ++ ".html".toList)

def infoHead : Str := "<head><meta http-equiv=\"Content-Type\" content=\"text/plain; charset=UTF-8\">\n".toList

def createFile (l : Avlog) (groupid : Str) (a : CreateAnswers) : Except Exn (Option OfStream) := do
  let savePath := l.makePath groupid
  let dirExists ← a.dirExists
  let dirThere ← if dirExists then .ok true else a.dirCreated
  if !dirThere then return none
  let fileExists ← a.fileExists
  let file := OfStream.new (makeFilename savePath a.day) fileExists a.opened
  return if file.failed then none else some (file.write infoHead)

def setGroup (l : Avlog) (groupid : Str) (file : Option OfStream) : Avlog :=
  { l with mGroupList := (groupid, file) :: l.mGroupList.filter (·.1 ≠ groupid) }

def logData (time msg : Str) (id : Int) : Str :=
  let line := " ".toList ++ time ++ " ".toList ++ msg ++ " </p>\n".toList
  if id > 0 then "<p id=\"".toList ++ Str.decimalInt id ++ "\">".toList ++ line else "<p>".toList ++ line

/-- The part of `add_log` that looks the group up and creates its file if it has none. -/
def findGroup (l : Avlog) (groupid : Str) (first : CreateAnswers) : Except Exn Avlog :=
  if (l.mGroupList.lookup groupid).isNone then (l.createFile groupid first).map (l.setGroup groupid) else .ok l

/-- The part of `add_log` that finds the stream of the group, with the log that a thrown end leaves behind. `create_file` may be called twice. A null pointer that is dereferenced gives no end. -/
def openGroup (l : Avlog) (groupid : Str) (first second : CreateAnswers) (dayExists : Except Exn Bool) :
    Option (Avlog × Except Exn (Option OfStream)) :=
  match l.findGroup groupid first with
  | .error e => some (l, .error e)
  | .ok l =>
    let found := (l.mGroupList.lookup groupid).join
    match dayExists with
    | .error e => some (l, .error e)
    | .ok true => some (l, .ok found)
    | .ok false =>
      match l.createFile groupid second with
      | .error e => some (l, .error e)
      -- the old stream is closed and its only pointer replaced
      | .ok file => found.map fun _ => (l.setGroup groupid file, .ok file)

def addLog (l : Avlog) (groupid msg : Str) (id : Int) (time : Str) (first second : CreateAnswers)
    (dayExists : Except Exn Bool) : Option (Avlog × Except Exn Unit) :=
  match l.openGroup groupid first second dayExists with
  | none | some (_, .ok none) => none
  | some (l, .error e) => some (l, .error e)
  | some (l, .ok (some file)) =>
    let data := logData time msg id
    let l := l.setGroup groupid (some (file.write data))
    match l.mLectureFile with
    | none => some (l, .ok ())
    | some lecture =>
      some (if l.mLectureGroupid = groupid then { l with mLectureFile := some (lecture.write data) } else l, .ok ())

/-- `fs::exists` is asked before `m_lecture_file` is set, and it may throw. -/
def beginLecture (l : Avlog) (groupid title : Str) (fileExists : Except Exn Bool) (opened : Bool) : Except Exn Bool × Avlog :=
  if l.mLectureFile.isSome then (.ok false, l)
  else
    match fileExists with
    | .error e => (.error e, l)
    | .ok fileExists =>
      let file := OfStream.new (l.makePath groupid ++ "/".toList ++ title ++ ".html".toList) fileExists opened
      if file.failed then (.ok false, { l with mLectureFile := some file })
      else
        let file := (file.write infoHead).write ("<title>".toList ++ title ++ "</title>\r\n".toList)
        (.ok true, { l with mLectureFile := some file, mLectureGroupid := groupid })

def endLecture (l : Avlog) : Avlog := { l with mLectureGroupid := [], mLectureFile := none }

end Avlog

inductive AvlogCall where
  | beginLecture (groupid title : Str) (fileExists : Except Exn Bool) (opened : Bool)
  | endLecture
  | addLog (groupid msg : Str) (id : Int) (time : Str) (first second : CreateAnswers) (dayExists : Except Exn Bool)

structure LectureWorld where
  log : Avlog
  begun : Bool

namespace LectureWorld

def start (mPath : Str) : LectureWorld := ⟨.new mPath, false⟩

def step (w : LectureWorld) : AvlogCall → Option LectureWorld
  | .beginLecture groupid title fileExists opened =>
    let (answer, log) := w.log.beginLecture groupid title fileExists opened
    some ⟨log, w.begun || answer = .ok true⟩
  | .endLecture => some ⟨w.log.endLecture, false⟩
  | .addLog groupid msg id time first second dayExists =>
    (w.log.addLog groupid msg id time first second dayExists).map fun (log, _) => { w with log := log }

/-- The file can be created: it can be looked for, and it can be opened. -/
def Creatable (fileExists : Except Exn Bool) (opened : Bool) : Prop := fileExists.isOk = true ∧ opened = true

/-- A `begin_lecture` that fails changes nothing, and it succeeds exactly if no lecture is on and the file can be created. -/
def BeginsWell (w : LectureWorld) : AvlogCall → Prop
  | .beginLecture groupid title fileExists opened =>
    let (answer, log) := w.log.beginLecture groupid title fileExists opened
    (answer = .ok false → log.mLectureFile = w.log.mLectureFile ∧ log.mLectureGroupid = w.log.mLectureGroupid) ∧
      (answer = .ok true ↔ w.begun = false ∧ Creatable fileExists opened)
  | _ => True

/-- If no lecture is on, a file that can be looked for can be created. -/
def CanCreate (w : LectureWorld) : AvlogCall → Prop
  | .beginLecture _ _ fileExists opened => w.begun = false → fileExists.isOk = true → opened = true
  | _ => True

def InStep (w : LectureWorld) : Prop := w.log.mLectureFile.isSome = w.begun

end LectureWorld

namespace Avlog

theorem beginLecture_on {l : Avlog} (hon : l.mLectureFile.isSome = true) (groupid title : Str) (fileExists : Except Exn Bool)
    (opened : Bool) : l.beginLecture groupid title fileExists opened = (.ok false, l) :=
  if_pos hon

theorem beginLecture_off {l : Avlog} (hoff : l.mLectureFile = none) (groupid title : Str) (fileExists : Except Exn Bool)
    (opened : Bool) : (∃ e, fileExists = .error e ∧ l.beginLecture groupid title fileExists opened = (.error e, l)) ∨
      fileExists.isOk = true ∧ ∃ file l', l.beginLecture groupid title fileExists opened = (.ok opened, l') ∧
        l'.mLectureFile = some file := by
  unfold beginLecture
  rw [if_neg (by simp [hoff])]
  cases fileExists with
  | error e => exact .inl ⟨e, rfl, rfl⟩
  | ok fileExists =>
    cases opened with
    | false => exact .inr ⟨rfl, _, _, rfl, rfl⟩
    | true => exact .inr ⟨rfl, _, _, rfl, rfl⟩

variable {l l' : Avlog} {groupid : Str} {first second : CreateAnswers} {dayExists : Except Exn Bool}

theorem mLectureFile_of_findGroup (hfind : l.findGroup groupid first = .ok l') : l'.mLectureFile = l.mLectureFile := by
  rw [findGroup] at hfind
  split at hfind
  · cases hfile : l.createFile groupid first with
    | error e =>
      rw [hfile] at hfind
      cases hfind
    | ok file =>
      rw [hfile] at hfind
      cases hfind
      rfl
  · cases hfind
    rfl

theorem mLectureFile_of_openGroup {file : Except Exn (Option OfStream)}
    (hopen : l.openGroup groupid first second dayExists = some (l', file)) : l'.mLectureFile = l.mLectureFile := by
  rw [openGroup] at hopen
  cases hfind : l.findGroup groupid first with
  | error e =>
    rw [hfind] at hopen
    cases hopen
    rfl
  | ok mid =>
    rw [hfind] at hopen
    rw [← mLectureFile_of_findGroup hfind]
    dsimp only at hopen
    split at hopen
    · cases hopen
      rfl
    · cases hopen
      rfl
    · split at hopen
      · cases hopen
        rfl
      · obtain ⟨old, -, heq⟩ := map_eq_some_iff.mp hopen
        cases heq
        rfl

theorem isSome_of_addLog {msg time : Str} {id : Int} {answer : Except Exn Unit}
    (hadd : l.addLog groupid msg id time first second dayExists = some (l', answer)) :
    l'.mLectureFile.isSome = l.mLectureFile.isSome := by
  rw [addLog] at hadd
  split at hadd
  · cases hadd
  · cases hadd
  · rename_i mid e hopen
    cases hadd
    rw [mLectureFile_of_openGroup hopen]
  · rename_i mid file hopen
    rw [← mLectureFile_of_openGroup hopen]
    dsimp only [setGroup] at hadd
    cases hlecture : mid.mLectureFile with
    | none =>
      rw [hlecture] at hadd
      cases hadd
      rfl
    | some lecture =>
      rw [hlecture] at hadd
      obtain ⟨rfl, -⟩ := Prod.mk.inj (some.inj hadd)
      split
      · rfl
      · rfl

end Avlog

namespace LectureWorld

theorem beginsWell_iff {w : LectureWorld} (hw : w.InStep) (call : AvlogCall) : w.BeginsWell call ↔ w.CanCreate call := by
  cases call with
  | endLecture => exact Iff.rfl
  | addLog => exact Iff.rfl
  | beginLecture groupid title fileExists opened =>
    unfold InStep at hw
    simp only [BeginsWell, CanCreate, Creatable]
    rw [← hw]
    cases hfile : w.log.mLectureFile with
    | some file =>
      rw [Avlog.beginLecture_on (by rw [hfile]; rfl)]
      simp [hfile]
    | none =>
      rcases w.log.beginLecture_off hfile groupid title fileExists opened with ⟨e, rfl, heq⟩ | ⟨hok, file, log, heq, hfile'⟩
      · rw [heq]
        simp [Except.isOk, Except.toBool]
      · rw [heq]
        cases opened with
        | true => simp [hok]
        -- the answer is negative, and the stream that could not be created is there
        | false => simp [hok, hfile']

theorem inStep_of_step {w w' : LectureWorld} {call : AvlogCall} (hw : w.InStep) (hcan : w.CanCreate call)
    (hstep : w.step call = some w') : w'.InStep := by
  cases call with
  | endLecture =>
    cases hstep
    rfl
  | addLog groupid msg id time first second dayExists =>
    obtain ⟨⟨log, answer⟩, hadd, rfl⟩ := map_eq_some_iff.mp hstep
    exact (Avlog.isSome_of_addLog hadd).trans hw
  | beginLecture groupid title fileExists opened =>
    obtain rfl := some.inj hstep
    unfold InStep at hw
    show (w.log.beginLecture groupid title fileExists opened).2.mLectureFile.isSome =
      (w.begun || (w.log.beginLecture groupid title fileExists opened).1 = .ok true)
    cases hfile : w.log.mLectureFile with
    | some file =>
      have hon : w.log.mLectureFile.isSome = true := by rw [hfile]; rfl
      rw [Avlog.beginLecture_on hon, ← hw, hon]
      rfl
    | none =>
      have hoff : w.begun = false := by rw [← hw, hfile]; rfl
      rcases w.log.beginLecture_off hfile groupid title fileExists opened with ⟨e, -, heq⟩ | ⟨hok, file, log, heq, hfile'⟩
      · rw [heq, hoff]
        exact congrArg isSome hfile
      · rw [heq, hcan hoff hok]
        simp [hfile']

/-- A failed `begin_lecture` changes nothing and a lecture can begin exactly when none is on and its file can be created, unless at some point the file of the only lecture can be looked for and not be created. -/
theorem meets_beginsWell_iff (mPath : Str) (calls : List AvlogCall) :
    Meets step BeginsWell (start mPath) calls ↔ Meets step CanCreate (start mPath) calls :=
  meets_iff_meets (fun _ call hw => beginsWell_iff hw call) (fun _ _ _ hw hcan hstep => inStep_of_step hw hcan hstep)
    (show (start mPath).InStep from rfl) calls

/-- After a lecture whose file could not be created, the next one does not begin although no lecture is on and its file can be created. -/
theorem second_lecture_not_begun :
    let calls := [AvlogCall.beginLecture ['g'] ['t'] (.ok false) false, .beginLecture ['g'] ['t'] (.ok false) true]
    let w := (LectureWorld.start []).step (.beginLecture ['g'] ['t'] (.ok false) false)
    (w.map fun w => (w.begun, decide ((w.log.beginLecture ['g'] ['t'] (.ok false) true).1 = .ok true))) = some (false, false) ∧
      ¬ Meets step BeginsWell (start []) calls := by
  refine ⟨by decide, ?_⟩
  intro hmeets
  have hkept := (hmeets.1.1 rfl).1
  cases hkept

end LectureWorld

end Avbot
