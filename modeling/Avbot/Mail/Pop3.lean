import Avbot.Base.Text

/-!
# Fetching mail

The coroutine `mx::pop3`: connect, log in, ask for the list of mails, fetch them one after the other, hand each to the handler and delete it if the handler answers so. Local variables are made anew at every resumption, only the members last. What `imf_read_stream` and `select_content` make of the bytes of a mail is the parameter `imf`.
-/

namespace Avbot

/-- `mailcontent`; `mailFrom` and `mailTo` are its members `from` and `to`. -/
structure MailContent where
  mailFrom : Str
  mailTo : Str
  subject : Str
  contentType : Str
  content : Str
  deriving DecidableEq

/-- Where the coroutine is suspended: in a delay, in the write of a command, or in the read of an answer. -/
inductive Pop3Point where
  | posted
  | delaying
  | connecting
  | retrying
  | greeting
  | user
  | userAnswer
  | pass
  | passAnswer
  | list
  | listAnswer
  | listFirst
  | listMore
  | retr
  | retrAnswer
  | body
  | mail (mail : MailContent)
  | dele
  | deleAnswer
  | quit
  | quitDelay
  | closed
  | threw (e : Exn)
  deriving DecidableEq

structure Pop3 where
  mMailaddr : Str
  mPasswd : Str
  mMailserver : Str
  point : Pop3Point
  mReadbuf : Str
  mWritebuf : Str
  maillist : List Str
  deleted : List MailContent

inductive Pop3Event where
  | start
  | timer
  | connected (failed : Bool)
  | read (failed : Bool) (bytes : Str)
  | written (failed : Bool) (n : Nat)
  | continued (length : Nat)

namespace Pop3

def new (user passwd mailserver : Str) : Pop3 :=
  let server :=
    if mailserver = [] then
      if user.contains '@' then "pop.".toList ++ (user.reverse.takeWhile (· ≠ '@')).reverse
      else "pop.qq.com".toList
    else mailserver
  ⟨user, passwd, server, .posted, [], [], [], []⟩

/-- The loop over the answer to `list`, from one test to its end or to the next read. It takes the words of the buffer in pairs. -/
def listLoop : Nat → List Str → Istream → Option (List Str × Istream × Bool)
  | 0, _, _ => none
  | n + 1, maillist, inbuffer =>
    let (status, inbuffer) := inbuffer.readWord
    let (maillength, inbuffer) := inbuffer.readWord
    let maillist := if maillength.length ≠ 0 then maillist ++ [status] else maillist
    if inbuffer.eof ∧ status ≠ ['.'] then some (maillist, inbuffer, false)
    else if status = ['.'] then some (maillist, inbuffer, true)
    else listLoop n maillist inbuffer

theorem listLoop_isSome {n : Nat} (maillist : List Str) {inbuffer : Istream}
    (hn : inbuffer.buf.length < n) : (listLoop n maillist inbuffer).isSome := by
  induction n generalizing maillist inbuffer with
  | zero => omega
  | succ n ih =>
    unfold listLoop
    dsimp only
    split
    · rfl
    · split
      · rfl
      · rename_i hopen hdot
        have heof : inbuffer.readWord.2.readWord.2.eof = false := by simpa [hdot] using hopen
        have hfirst := inbuffer.readWord_length_le
        have hsecond := Istream.readWord_length_lt heof
        exact ih _ (by omega)

def listWords (maillist : List Str) (buf : Str) : List Str × Istream × Bool :=
  (listLoop (buf.length + 1) maillist ⟨buf, false⟩).get (listLoop_isSome _ (Nat.lt_succ_self _))

def restart (p : Pop3) : Pop3 := { p with point := .delaying }

def command (p : Pop3) (cmd : Str) (point : Pop3Point) : Pop3 :=
  { p with mWritebuf := p.mWritebuf ++ cmd, point := point }

def nextMail (p : Pop3) : Pop3 :=
  match p.maillist with
  | [] => p.command "quit\n".toList .quit
  | id :: _ => p.command ("retr ".toList ++ id ++ "\r\n".toList) .retr

def eraseMail (p : Pop3) : Pop3 := { p with maillist := p.maillist.tail }.nextMail

def listMails (p : Pop3) : Pop3 :=
  match listWords p.maillist p.mReadbuf with
  | (maillist, inbuffer, true) => { p with maillist := maillist, mReadbuf := inbuffer.buf }.nextMail
  | (maillist, inbuffer, false) =>
    { p with maillist := maillist, mReadbuf := inbuffer.buf, point := .listMore }

def readStatus (p : Pop3) (bytes : Str) : Str × Pop3 :=
  let (status, inbuffer) := (Istream.mk (p.mReadbuf ++ bytes) false).readWord
  (status, { p with mReadbuf := inbuffer.buf })

def onOk (p : Pop3) (bytes : Str) (next : Pop3 → Pop3) : Pop3 :=
  let (status, p) := p.readStatus bytes
  if status ≠ "+OK".toList then p.restart else next p

def await (p : Pop3) (point : Pop3Point) : Pop3 := { p with mReadbuf := [], point := point }

variable (imf : Str → Except Exn MailContent)

def processMail (p : Pop3) : Pop3 :=
  match imf p.mReadbuf with
  | .error e => { p with point := .threw e }
  | .ok mail => { p with point := .mail mail }

def onRead (p : Pop3) (failed : Bool) (bytes : Str) : Option Pop3 :=
  match p.point with
  | .greeting => some (p.onOk bytes fun p => p.command ("user ".toList ++ p.mMailaddr ++ "\n".toList) .user)
  | .userAnswer =>
    some (p.onOk bytes fun p => p.command ("pass ".toList ++ p.mPasswd ++ "\r\n".toList) .pass)
  | .passAnswer => some (p.onOk bytes fun p => p.command "list\n".toList .list)
  | .listAnswer => some (p.onOk bytes fun p => { p with maillist := [], point := .listFirst })
  | .listFirst => some { p with mReadbuf := p.mReadbuf ++ bytes }.listMails
  -- these bytes are never committed to the buffer
  | .listMore => some p.listMails
  | .retrAnswer => some (p.onOk bytes fun p => { p with point := .body })
  | .body => some ({ p with mReadbuf := p.mReadbuf ++ bytes }.processMail imf)
  | .deleAnswer =>
    let (status, p) := p.readStatus bytes
    some (if status ≠ "+OK".toList ∧ failed then p.restart else p.eraseMail)
  | _ => none

/-- After a write. Only that of `user` is looked at. -/
def onWritten (p : Pop3) (failed : Bool) : Option Pop3 :=
  match p.point with
  | .user => some (if failed then p.restart else p.await .userAnswer)
  | .pass => some (p.await .passAnswer)
  | .list => some (p.await .listAnswer)
  | .retr => some (p.await .retrAnswer)
  | .dele => some (p.await .deleAnswer)
  | .quit => some { p with point := .quitDelay }
  | _ => none

def onContinued (p : Pop3) (mail : MailContent) (length : Nat) : Pop3 :=
  if length ≠ 0 then
    { p with deleted := p.deleted ++ [mail] }.command
      ("dele ".toList ++ p.maillist.headD [] ++ "\r\n".toList) .dele
  else p.eraseMail

def step (p : Pop3) : Pop3Event → Option Pop3
  | .start =>
    match p.point with
    | .posted => some p.restart
    | _ => none
  | .timer =>
    match p.point with
    | .delaying => some { p with point := .connecting }
    | .retrying => some p.restart
    | .quitDelay => some { p with point := .closed }
    | .closed => some p.restart
    | _ => none
  | .connected failed =>
    match p.point with
    | .connecting => some (if failed then { p with point := .retrying } else p.await .greeting)
    | _ => none
  | .read failed bytes => p.onRead imf failed bytes
  | .written failed n =>
    { p with mWritebuf := if failed then p.mWritebuf.drop n else [] }.onWritten failed
  | .continued length =>
    match p.point with
    | .mail mail => some (p.onContinued mail length)
    | _ => none

variable (p : Pop3)

@[simp] theorem deleted_restart : p.restart.deleted = p.deleted := rfl

@[simp] theorem deleted_command (cmd : Str) (point : Pop3Point) :
    (p.command cmd point).deleted = p.deleted := rfl

@[simp] theorem deleted_await (point : Pop3Point) : (p.await point).deleted = p.deleted := rfl

@[simp] theorem deleted_readStatus (bytes : Str) : (p.readStatus bytes).2.deleted = p.deleted := rfl

@[simp] theorem deleted_nextMail : p.nextMail.deleted = p.deleted := by
  unfold nextMail
  split <;> rfl

@[simp] theorem deleted_eraseMail : p.eraseMail.deleted = p.deleted := by
  rw [eraseMail, deleted_nextMail]

@[simp] theorem deleted_listMails : p.listMails.deleted = p.deleted := by
  unfold listMails
  split
  · rw [deleted_nextMail]
  · rfl

@[simp] theorem deleted_processMail : (p.processMail imf).deleted = p.deleted := by
  unfold processMail
  split <;> rfl

theorem deleted_onOk (bytes : Str) {next : Pop3 → Pop3} (hnext : ∀ p, (next p).deleted = p.deleted) :
    (p.onOk bytes next).deleted = p.deleted := by
  unfold onOk
  dsimp only
  split
  · simp
  · rw [hnext, deleted_readStatus]

variable {p} {p' : Pop3} {imf}

theorem deleted_onRead {failed : Bool} {bytes : Str} (hstep : p.onRead imf failed bytes = some p') :
    p'.deleted = p.deleted := by
  unfold onRead at hstep
  split at hstep
  case h_10 => simp at hstep
  all_goals obtain rfl := Option.some.inj hstep
  case h_9 =>
    split
    · simp
    · simp
  case h_5 => simp
  case h_6 => simp
  case h_8 => simp
  all_goals exact deleted_onOk p bytes fun _ => rfl

theorem deleted_onWritten {failed : Bool} (hstep : p.onWritten failed = some p') : p'.deleted = p.deleted := by
  unfold onWritten at hstep
  split at hstep
  case h_7 => simp at hstep
  all_goals obtain rfl := Option.some.inj hstep
  · split <;> simp
  all_goals rfl

theorem step_deleted {e : Pop3Event} (hstep : p.step imf e = some p') (he : ∀ n, e ≠ .continued n) :
    p'.deleted = p.deleted := by
  cases e with
  | start =>
    simp only [step] at hstep
    split at hstep <;> simp at hstep
    rw [← hstep, deleted_restart]
  | timer =>
    simp only [step] at hstep
    split at hstep <;> simp at hstep <;> rw [← hstep]
    · simp
    · simp
  | connected failed =>
    simp only [step] at hstep
    split at hstep <;> simp at hstep
    rw [← hstep]
    split <;> rfl
  | read failed bytes => exact deleted_onRead hstep
  | written failed n =>
    simp only [step] at hstep
    rw [deleted_onWritten hstep]
  | continued n => exact absurd rfl (he n)

end Pop3

end Avbot
