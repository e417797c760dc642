import Avbot.Http.Request

/-!
# Uploading a file as a form

`file_upload` sends a form whose last field is a file. The length of the body is announced first, from a formula of its own; the parts are written by `open`, by the coroutine of `async_open`, by the user and by `write_tail`. Of Boost's paths only the last component and its extension are used.
-/

namespace Avbot.Http

open List
open Str (crlf sizeLimit toLower)

def mappings : List (Str × Str) :=
  [ (".flv", "video/flv"), (".rmvb", "video/x-pn-realvideo"), (".gif", "image/gif"), (".htm", "text/html"),
    (".html", "text/html"), (".jpg", "image/jpeg"), (".png", "image/png"), (".htm", "text/html"),
    (".html", "text/html"), (".txt", "text/plain"), (".xml", "text/xml"), (".dtd", "text/dtd"),
    (".css", "text/css"), (".gif", "image/gif"), (".jpe", "image/jpeg"), (".jpg", "image/jpeg"),
    (".jpeg", "image/jpeg"), (".png", "image/png"), (".flv", "video/flv"), (".rmvb", "video/x-pn-realvideo"),
    (".mp4", "video/mp4"), (".3gp", "video/3gpp"), (".divx", "video/divx"), (".avi", "video/avi"),
    (".asf", "video/x-ms-asf"), (".m1a", "audio/mpeg"), (".m2a", "audio/mpeg"), (".m1v", "video/mpeg"),
    (".m2v", "video/mpeg"), (".mp2", "audio/mpeg"), (".mp3", "audio/mpeg"), (".mpa", "audio/mpeg"),
    (".mpg", "video/mpeg"), (".mpeg", "video/mpeg"), (".mpe", "video/mpeg"), (".mov", "video/quicktime"),
    (".moov", "video/quicktime"), (".oga", "audio/ogg"), (".ogg", "application/ogg"), (".ogm", "application/ogg"),
    (".ogv", "video/ogg"), (".ogx", "application/ogg"), (".opus", "audio/ogg; codecs=opus"), (".spx", "audio/ogg"),
    (".wav", "audio/wav"), (".wma", "audio/x-ms-wma"), (".wmv", "video/x-ms-wmv"), (".webm", "video/webm") ].map
    fun m => (String.toList m.1, String.toList m.2)

def extensionToType (extension : Str) : Str :=
  match mappings.find? (fun m => m.1 = extension) with
  | some m => m.2
  | none => "application/octet-stream".toList

structure PathLib where
  leaf : Str → Str
  extension : Str → Str
  extension_leaf : ∀ p, extension (leaf p) = extension p

abbrev FormArgs := List (Str × Str)

def addSize (n k : Nat) : Nat := (n + k) % sizeLimit

def argumentTemplate : Str := "Content-Disposition: form-data; name=\"\"\r\n\r\n\r\n".toList

def fileTemplate : Str := "Content-Disposition: form-data; name=\"\"; filename=\"\"\r\nContent-Type: \r\n\r\n".toList

def addArgument (boundarySize n : Nat) (arg : Str × Str) : Nat :=
  let n := addSize n boundarySize
  let n := addSize n argumentTemplate.length
  let n := addSize n arg.1.length
  addSize n arg.2.length

def calcContentLength (lib : PathLib) (fileSize : Nat) (filename fileOfForm baseBoundary : Str)
    (args : FormArgs) : Nat :=
  let boundarySize := addSize baseBoundary.length 4
  let extensionSize := (extensionToType (toLower (lib.extension filename))).length
  let n := args.foldl (addArgument boundarySize) (fileSize % sizeLimit)
  let n := addSize n boundarySize
  let n := addSize n fileTemplate.length
  let n := addSize n extensionSize
  let n := addSize n fileOfForm.length
  let n := addSize n (lib.leaf filename).length
  let n := addSize n 4
  addSize n boundarySize

def boundaryLine (baseBoundary : Str) : Str := "--".toList ++ baseBoundary ++ crlf

def argumentPart (arg : Str × Str) : Str :=
  "Content-Disposition: form-data; name=\"".toList ++ arg.1 ++ "\"\r\n\r\n".toList ++ arg.2 ++ crlf

def filePart (fileOfForm shortFilename extension : Str) : Str :=
  "Content-Disposition: form-data; name=\"".toList ++ fileOfForm ++ "\"; filename=\"".toList ++ shortFilename ++
    "\"\r\nContent-Type: ".toList ++ extensionToType (toLower extension) ++ "\r\n\r\n".toList

def tail (baseBoundary : Str) : Str := "\r\n--".toList ++ baseBoundary ++ "--\r\n".toList

/-- The size of the file, if it can be had, whether the stream opens, and which of the writes that follow fail, after how many bytes. -/
structure UploadWorld where
  fileSize : Option Nat
  opens : Bool
  failsAfter : Nat → Option Nat

def UploadWorld.reliable (size : Nat) : UploadWorld where
  fileSize := some size
  opens := true
  failsAfter := fun _ => none

structure Conn where
  written : Str
  writes : Nat
  deriving DecidableEq

def Conn.start : Conn := ⟨[], 0⟩

def Conn.write (world : UploadWorld) (c : Conn) (bytes : Str) : Conn × Bool :=
  match world.failsAfter c.writes with
  | none => (⟨c.written ++ bytes, c.writes + 1⟩, false)
  | some k => (⟨c.written ++ bytes.take k, c.writes + 1⟩, true)

structure FileUpload where
  mBaseBoundary : Str

namespace FileUpload

def writeArguments (world : UploadWorld) (boundary : Str) : Conn → FormArgs → Conn × Bool
  | c, [] => (c, false)
  | c, arg :: args =>
    let (c, failed) := c.write world boundary
    if failed then (c, true)
    else
      let (c, failed) := c.write world (argumentPart arg)
      if failed then (c, true) else writeArguments world boundary c args

def writeForm (world : UploadWorld) (boundary part : Str) (c : Conn) (args : FormArgs) : Conn × Bool :=
  let (c, failed) := writeArguments world boundary c args
  if failed then (c, true)
  else
    let (c, failed) := c.write world boundary
    if failed then (c, true) else c.write world part

def openUpload (u : FileUpload) (lib : PathLib) (world : UploadWorld) (filename fileOfForm : Str)
    (args : FormArgs) : Conn × Bool :=
  let shortFilename := lib.leaf filename
  if world.fileSize = none then (.start, true)
  else if !world.opens then (.start, true)
  else
    writeForm world (boundaryLine u.mBaseBoundary)
      (filePart fileOfForm shortFilename (lib.extension shortFilename)) .start args

/-- Where the coroutine of `async_open` goes on when the write it waits for has ended. -/
inductive Point where
  | argument (arg : Str × Str) (rest : FormArgs)
  | nextArgument (rest : FormArgs)
  | file
  | finish

inductive Waiting where
  | write (bytes : Str) (next : Point)
  | done (failed : Bool)

def nextBoundary (boundary : Str) : FormArgs → Waiting
  | [] => .write boundary .file
  | arg :: rest => .write boundary (.argument arg rest)

def resume (lib : PathLib) (boundary filename fileOfForm : Str) (failed : Bool) (p : Point) : Waiting :=
  if failed then .done true
  else
    match p with
    | .argument arg rest => .write (argumentPart arg) (.nextArgument rest)
    | .nextArgument rest => nextBoundary boundary rest
    | .file =>
      .write (filePart fileOfForm (lib.leaf filename) (lib.extension filename)) .finish
    | .finish => .done false

def drive (lib : PathLib) (world : UploadWorld) (boundary filename fileOfForm : Str) :
    Nat → Conn → Waiting → Option (Conn × Bool)
  | _, c, .done failed => some (c, failed)
  | 0, _, .write _ _ => none
  | n + 1, c, .write bytes next =>
    let (c, failed) := c.write world bytes
    drive lib world boundary filename fileOfForm n c (resume lib boundary filename fileOfForm failed next)

def asyncOpen (u : FileUpload) (lib : PathLib) (world : UploadWorld) (filename fileOfForm : Str)
    (args : FormArgs) (n : Nat) : Option (Conn × Bool) :=
  let boundary := boundaryLine u.mBaseBoundary
  if world.fileSize = none then some (.start, true)
  else if !world.opens then some (.start, true)
  else drive lib world boundary filename fileOfForm n .start (nextBoundary boundary args)

section Drive

variable (lib : PathLib) (world : UploadWorld) (boundary filename fileOfForm : Str)

theorem drive_done (n : Nat) (c : Conn) (failed : Bool) :
    drive lib world boundary filename fileOfForm n c (.done failed) = some (c, failed) := by
  cases n with
  | zero => rfl
  | succ n => rfl

theorem drive_write (n : Nat) (c : Conn) (bytes : Str) (next : Point) :
    drive lib world boundary filename fileOfForm (n + 1) c (.write bytes next) =
      if (c.write world bytes).2 then some ((c.write world bytes).1, true)
      else drive lib world boundary filename fileOfForm n (c.write world bytes).1
        (resume lib boundary filename fileOfForm false next) := by
  rw [drive]
  cases hfailed : (c.write world bytes).2 with
  | true => simp [hfailed, resume, drive_done]
  | false => simp [hfailed]

theorem drive_nextBoundary (args : FormArgs) (c : Conn) {n : Nat} (hn : 2 * args.length + 2 ≤ n) :
    drive lib world boundary filename fileOfForm n c (nextBoundary boundary args) =
      some (writeForm world boundary (filePart fileOfForm (lib.leaf filename) (lib.extension filename)) c args) := by
  induction args generalizing c n with
  | nil =>
    obtain ⟨n, rfl⟩ : ∃ k, n = k + 2 := ⟨n - 2, by simp at hn; omega⟩
    rw [nextBoundary, drive_write]
    cases hfailed : (c.write world boundary).2 with
    | true => simp [writeForm, writeArguments, hfailed]
    | false =>
      simp only [Bool.false_eq_true, if_false, resume, drive_write, drive_done, writeForm, writeArguments, hfailed]
      split
      · rename_i hpart
        rw [← hpart]
      · rename_i hpart
        rw [← Bool.eq_false_iff.mpr hpart]
  | cons arg args ih =>
    obtain ⟨n, rfl⟩ : ∃ k, n = k + 2 := ⟨n - 2, by simp at hn; omega⟩
    rw [nextBoundary, drive_write]
    cases hfailed : (c.write world boundary).2 with
    | true => simp [writeForm, writeArguments, hfailed]
    | false =>
      simp only [Bool.false_eq_true, if_false, resume, drive_write]
      cases hpart : ((c.write world boundary).1.write world (argumentPart arg)).2 with
      | true => simp [writeForm, writeArguments, hfailed, hpart]
      | false =>
        have hn' : 2 * args.length + 2 ≤ n := by
          simp at hn
          omega
        simp only [Bool.false_eq_true, if_false, ih _ hn']
        simp [writeForm, writeArguments, hfailed, hpart]

end Drive

variable (baseBoundary : Str) (u : FileUpload)

theorem asyncOpen_eq (lib : PathLib) (world : UploadWorld) (filename fileOfForm : Str)
    (args : FormArgs) {n : Nat} (hn : 2 * args.length + 2 ≤ n) :
    u.asyncOpen lib world filename fileOfForm args n =
      some (u.openUpload lib world filename fileOfForm args) := by
  unfold asyncOpen openUpload
  dsimp only
  rw [lib.extension_leaf, drive_nextBoundary lib world _ filename fileOfForm args .start hn]
  split
  · rfl
  · split
    · rfl
    · rfl

theorem write_reliable (size : Nat) (c : Conn) (bytes : Str) :
    c.write (.reliable size) bytes = (⟨c.written ++ bytes, c.writes + 1⟩, false) := rfl

theorem writeArguments_reliable (size : Nat) (boundary : Str) (args : FormArgs) (c : Conn) :
    writeArguments (.reliable size) boundary c args =
      (⟨c.written ++ args.flatMap fun arg => boundary ++ argumentPart arg, c.writes + 2 * args.length⟩, false) := by
  induction args generalizing c with
  | nil => simp [writeArguments]
  | cons arg args ih =>
    simp only [writeArguments, write_reliable, Bool.false_eq_true, if_false, ih]
    simp only [flatMap_cons, append_assoc, length_cons, Prod.mk.injEq, Conn.mk.injEq, true_and, and_true]
    omega

theorem openUpload_reliable (lib : PathLib) (size : Nat) (filename fileOfForm : Str) (args : FormArgs) :
    (u.openUpload lib (.reliable size) filename fileOfForm args).1.written =
      (args.flatMap fun arg => boundaryLine u.mBaseBoundary ++ argumentPart arg) ++
        (boundaryLine u.mBaseBoundary ++ filePart fileOfForm (lib.leaf filename) (lib.extension filename)) := by
  have hsize : (UploadWorld.reliable size).fileSize ≠ none := by simp [UploadWorld.reliable]
  have hopens : (UploadWorld.reliable size).opens = true := rfl
  simp [openUpload, hsize, hopens, writeForm, writeArguments_reliable, write_reliable, Conn.start, lib.extension_leaf]

theorem addSize_mod_left (n k : Nat) : addSize (n % sizeLimit) k = (n + k) % sizeLimit := by
  simp [addSize]

theorem addSize_addSize (n k l : Nat) : addSize n (addSize k l) = addSize n (k + l) := by
  simp [addSize]

theorem boundaryLine_length : (boundaryLine baseBoundary).length = baseBoundary.length + 4 := by
  rw [boundaryLine, length_append, length_append, show "--".toList.length = 2 from rfl,
    show Str.crlf.length = 2 from rfl]
  omega

theorem argumentTemplate_length : argumentTemplate.length = 45 := by decide

theorem fileTemplate_length : fileTemplate.length = 72 := by decide

theorem disposition_length : "Content-Disposition: form-data; name=\"".toList.length = 38 := by decide

theorem argumentPart_length (arg : Str × Str) :
    (argumentPart arg).length = argumentTemplate.length + arg.1.length + arg.2.length := by
  unfold argumentPart
  rw [argumentTemplate_length, length_append, length_append, length_append,
    length_append, disposition_length, show "\"\r\n\r\n".toList.length = 5 from rfl,
    show Str.crlf.length = 2 from rfl]
  omega

theorem filePart_length (fileOfForm shortFilename extension : Str) :
    (filePart fileOfForm shortFilename extension).length =
      fileTemplate.length + (extensionToType (toLower extension)).length + fileOfForm.length +
        shortFilename.length := by
  unfold filePart
  rw [fileTemplate_length, length_append, length_append, length_append,
    length_append, length_append, length_append, disposition_length,
    show "\"; filename=\"".toList.length = 13 from rfl,
    show "\"\r\nContent-Type: ".toList.length = 17 from rfl, show "\r\n\r\n".toList.length = 4 from rfl]
  omega

theorem tail_length : (tail baseBoundary).length = baseBoundary.length + 8 := by
  rw [tail, length_append, length_append, show "\r\n--".toList.length = 4 from rfl,
    show "--\r\n".toList.length = 4 from rfl]
  omega

theorem addArgument_eq (n : Nat) (arg : Str × Str) :
    addArgument (addSize baseBoundary.length 4) (n % sizeLimit) arg =
      (n + (boundaryLine baseBoundary ++ argumentPart arg).length) % sizeLimit := by
  unfold addArgument
  dsimp only
  rw [addSize_addSize, addSize_mod_left, addSize_mod_left, addSize_mod_left, addSize_mod_left, length_append,
    boundaryLine_length, argumentPart_length]
  congr 1
  omega

theorem foldl_addArgument (args : FormArgs) (n : Nat) :
    args.foldl (addArgument (addSize baseBoundary.length 4)) (n % sizeLimit) =
      (n + (args.flatMap fun arg => boundaryLine baseBoundary ++ argumentPart arg).length) % sizeLimit := by
  induction args generalizing n with
  | nil => rfl
  | cons arg args ih =>
    rw [foldl_cons, addArgument_eq, ih, flatMap_cons, append_assoc, length_append,
      length_append, length_append, Nat.add_assoc, Nat.add_assoc]

theorem calcContentLength_eq (lib : PathLib) (size : Nat) (filename fileOfForm : Str) (args : FormArgs) :
    calcContentLength lib size filename fileOfForm u.mBaseBoundary args =
      ((u.openUpload lib (.reliable size) filename fileOfForm args).1.written.length + size +
        (tail u.mBaseBoundary).length) % sizeLimit := by
  rw [openUpload_reliable]
  unfold calcContentLength
  dsimp only
  rw [foldl_addArgument, addSize_addSize, addSize_addSize, addSize_mod_left, addSize_mod_left, addSize_mod_left,
    addSize_mod_left, addSize_mod_left, addSize_mod_left, addSize_mod_left, length_append, length_append,
    boundaryLine_length, filePart_length, tail_length]
  congr 1
  omega

/-- The announced length is that of the bytes `open` writes, of the file and of the tail, and `async_open` makes the same writes as `open`. A total that `std::size_t` cannot hold is announced modulo its range. -/
theorem upload_length_exact (u : FileUpload) (lib : PathLib) (filename fileOfForm : Str) (args : FormArgs) (size : Nat) :
    let sent := (u.openUpload lib (.reliable size) filename fileOfForm args).1.written
    let total := sent.length + size + (tail u.mBaseBoundary).length
    calcContentLength lib size filename fileOfForm u.mBaseBoundary args = total % sizeLimit ∧
      (total < sizeLimit → calcContentLength lib size filename fileOfForm u.mBaseBoundary args = total) ∧
      ∀ (world : UploadWorld) (n : Nat), 2 * args.length + 2 ≤ n →
        u.asyncOpen lib world filename fileOfForm args n =
          some (u.openUpload lib world filename fileOfForm args) := by
  intro sent total
  have hlength : calcContentLength lib size filename fileOfForm u.mBaseBoundary args = total % sizeLimit :=
    u.calcContentLength_eq lib size filename fileOfForm args
  refine ⟨hlength, fun htotal => hlength.trans (Nat.mod_eq_of_lt htotal), ?_⟩
  intro world n hn
  exact u.asyncOpen_eq lib world filename fileOfForm args hn

def slashPaths : PathLib where
  leaf p := p.rtakeWhile (· ≠ '/')
  extension p :=
    let name := p.rtakeWhile (· ≠ '/')
    if '.' ∈ name then '.' :: name.rtakeWhile (· ≠ '.') else []
  extension_leaf p := by simp only [rtakeWhile_idempotent]

theorem upload_length_of_textFile :
    calcContentLength slashPaths 10 "dir/a.TXT".toList "file".toList "xyz".toList [("k".toList, "v".toList)] = 173 ∧
      (FileUpload.mk "xyz".toList).asyncOpen slashPaths (.reliable 10) "dir/a.TXT".toList "file".toList
          [("k".toList, "v".toList)] 4 =
        some ((FileUpload.mk "xyz".toList).openUpload slashPaths (.reliable 10) "dir/a.TXT".toList "file".toList
          [("k".toList, "v".toList)]) := by
  obtain ⟨-, hlength, hasync⟩ :=
    upload_length_exact (.mk "xyz".toList) slashPaths "dir/a.TXT".toList "file".toList [("k".toList, "v".toList)] 10
  refine ⟨(hlength (by decide +kernel)).trans (by decide +kernel), hasync _ 4 (by decide)⟩

end FileUpload

end Avbot.Http
