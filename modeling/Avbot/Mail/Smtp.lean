import Avbot.Base.ErrorCode
import Avbot.Lib.EventMachine
import Avbot.Lib.Fallible
import Avbot.Mail.Imf
import Avbot.Mail.SmtpReply

/-!
# Sending mail

Each call of `async_sendmail` changes the members of one `smtp` object and posts a copy of it as a coroutine of its own. The recipients are appended to the member `rcpts`, which nothing ever clears. A command and the reply to it are a phase; the recipients are named by a coroutine of their own, `send_rcpt_tos_op`.
-/

namespace Avbot

open List Option Pattern EventMachine Except

def ErrorCode.permissionDenied : ErrorCode := ⟨13, .generic⟩

inductive SmtpPhase where
  | welcome
  | ehlo
  | starttls
  | auth
  | mailFrom
  | data
  | body
  deriving DecidableEq

def SmtpPhase.code : SmtpPhase → Nat
  | .welcome => 220
  | .ehlo => 250
  | .starttls => 220
  | .auth => 235
  | .mailFrom => 250
  | .data => 354
  | .body => 250

structure RcptOp where
  mRcpts : List Str
  i : Nat
  sendedRcpt : Nat
  mWritebuf : Str
  deriving DecidableEq

inductive SmtpPoint where
  | posted
  | delayed
  | connecting
  | writing (phase : SmtpPhase)
  | reading (phase : SmtpPhase)
  | checked (phase : SmtpPhase) (ec : ErrorCode)
  | handshaking
  | rcptPosted (op : RcptOp)
  /-- In the loop over the recipients, with the address as it is or in brackets. -/
  | rcptWriting (op : RcptOp) (bracketed : Bool)
  | rcptReading (op : RcptOp) (bracketed : Bool)
  | rcptDone (ec : ErrorCode)
  | handled (ec : ErrorCode)
  | threw (e : ImfExn)
  deriving DecidableEq

structure Smtp where
  mMailaddr : Str
  mMailserver : Str
  mAUTH : Str
  mMailserverQuery : Str × Str
  mImf : Imf
  rcpts : List Str
  retryCount : Nat

namespace Smtp

/-- The expression `(.*):([0-9]+)`. -/
def serverRegex : Regex Char :=
  ⟨[.many (fun _ => true), .one (· == ':'), .some Char.isDigit], [(0, 1), (2, 1)]⟩

def new (user passwd mailserver : Str) : Except ImfExn Smtp := do
  let mAUTH ← Boost.base64Encode ('\x00' :: user ++ '\x00' :: passwd)
  let server :=
    if mailserver = [] then
      if user.contains '@' then "smtp.".toList ++ (user.reverse.takeWhile (· ≠ '@')).reverse else "smtp.qq.com".toList
    else mailserver
  let query :=
    match serverRegex.search (Str.cStr server) with
    | some what => (what.getD 1 [], what.getD 2 [])
    | none => (server, "25".toList)
  return ⟨user, server, mAUTH, query, ⟨[], false, .inl []⟩, [], 0⟩

def isAddressChar (c : Char) : Bool := c.isAlphanum || c == '.' || c == '_' || c == '-'

/-- The expression `[A-Za-z0-9\._\-]*@[A-Za-z0-9\._\-]*`. -/
def addressRegex : Regex Char := ⟨[.many isAddressChar, .one (· == '@'), .many isAddressChar], []⟩

def extractAddresses (line : Str) : List Str :=
  (Imf.mailAddressSplit line).filterMap fun rcpt => (addressRegex.search (Str.cStr rcpt)).map fun what => what.getD 0 []

/-- What `async_sendmail` does to the object, unless `header.at("to")` throws. -/
def asyncSendmail (s : Smtp) (imf : Imf) : Option Smtp :=
  (imf.header.lookup "to".toList).map fun line =>
    { s with retryCount := 0, rcpts := s.rcpts ++ extractAddresses line, mImf := imf }

end Smtp

def Imf.addresses (imf : Imf) : List Str := Smtp.extractAddresses ((imf.header.lookup "to".toList).getD [])

example : Smtp.extractAddresses "\"joe\" <a.b@c-d.e>; nobody, x@".toList = ["a.b@c-d.e".toList, "x@".toList] := by decide

structure SmtpCoro where
  smtp : Smtp
  point : SmtpPoint
  mReadbuf : Str
  mWritebuf : Str
  mSslsocket : Bool
  /-- The recipient lists that `send_rcpt_tos` has been started with. -/
  dialogues : List (List Str)

inductive SmtpEvent where
  | resumed
  | connected (ec : ErrorCode)
  | handshaken (ec : ErrorCode)
  | written (ec : ErrorCode) (n : Nat)
  | read (ec : ErrorCode) (bytes : Str)

namespace SmtpCoro

def retry (c : SmtpCoro) (ec : ErrorCode) : SmtpCoro :=
  { c with
    smtp := { c.smtp with retryCount := c.smtp.retryCount + 1 }
    point := if c.smtp.retryCount ≤ 20 then .delayed else .handled ec }

def command (c : SmtpCoro) (cmd : Str) (phase : SmtpPhase) : SmtpCoro :=
  { c with mWritebuf := c.mWritebuf ++ cmd, point := .writing phase }

def auth (c : SmtpCoro) : SmtpCoro := c.command ("AUTH PLAIN ".toList ++ c.smtp.mAUTH ++ Str.crlf) .auth

def sendRcptTos (c : SmtpCoro) : SmtpCoro :=
  { c with point := .rcptPosted ⟨c.smtp.rcpts, 0, 0, []⟩, dialogues := c.dialogues ++ [c.smtp.rcpts] }

def sendMailData (c : SmtpCoro) : SmtpCoro :=
  match Imf.imfWriteStream c.smtp.mImf with
  | .ok text => c.command (text ++ "\r\n.\r\n".toList) .body
  | .error e => { c with point := .threw e }

def afterCheck (c : SmtpCoro) (phase : SmtpPhase) (ec : ErrorCode) : SmtpCoro :=
  match phase with
  | .welcome => c.command ("EHLO ".toList ++ c.smtp.mMailserver ++ Str.crlf) .ehlo
  | .ehlo => if c.mSslsocket then c.command "STARTTLS\r\n".toList .starttls else c.auth
  | .starttls => { c with point := .handshaking }
  | .auth => c.command ("MAIL FROM: <".toList ++ c.smtp.mMailaddr ++ ">\r\n".toList) .mailFrom
  | .mailFrom => c.sendRcptTos
  | .data => c.sendMailData
  | .body => { c with point := .handled ec }

/-- After the reply to a command has been read: check it and post the outcome. `check_server_cap` also looks for `STARTTLS`. -/
def checkReply (c : SmtpCoro) (phase : SmtpPhase) (bytes : Str) : SmtpCoro :=
  let checked := Smtp.checkSmtpResponse phase.code (c.mReadbuf ++ bytes)
  { c with
    mReadbuf := checked.readbuf
    mSslsocket := c.mSslsocket || (phase == .ehlo && checked.texts.contains "STARTTLS".toList)
    point := .checked phase checked.ec }

def rcptFinish (c : SmtpCoro) (op : RcptOp) : SmtpCoro :=
  { c with point := .rcptDone (if op.sendedRcpt = 0 then .permissionDenied else .success) }

def rcptNext (c : SmtpCoro) (op : RcptOp) : SmtpCoro :=
  match op.mRcpts[op.i]? with
  | some rcpt =>
    { c with point := .rcptWriting { op with mWritebuf := op.mWritebuf ++ "rcpt to: ".toList ++ rcpt ++ Str.crlf } false }
  | none => c.rcptFinish op

def rcptReply (c : SmtpCoro) (op : RcptOp) (bracketed : Bool) (bytes : Str) : SmtpCoro :=
  let checked := Smtp.checkSmtpResponse 250 (c.mReadbuf ++ bytes)
  let c := { c with mReadbuf := checked.readbuf }
  if ! checked.ec.failed then c.rcptNext { op with sendedRcpt := op.sendedRcpt + 1, i := op.i + 1 }
  else if bracketed then c.rcptNext { op with i := op.i + 1 }
  else
    let cmd := "rcpt to: <".toList ++ (op.mRcpts[op.i]?).getD [] ++ ">\r\n".toList
    { c with point := .rcptWriting { op with mWritebuf := op.mWritebuf ++ cmd } true }

def onResumed (c : SmtpCoro) : Option SmtpCoro :=
  match c.point with
  | .posted => some { c with point := .connecting }
  | .delayed => some { c with point := .connecting }
  | .checked phase ec => some (if ec.failed then c.retry ec else c.afterCheck phase ec)
  | .rcptPosted op => some (c.rcptNext op)
  | .rcptDone ec => some (if ec.failed then c.retry ec else c.command "DATA\r\n".toList .data)
  | _ => none

def onWritten (c : SmtpCoro) (ec : ErrorCode) (n : Nat) : Option SmtpCoro :=
  match c.point with
  | .writing phase =>
    some (if ec.failed then { c with mWritebuf := c.mWritebuf.drop n }.retry ec
      else { c with mWritebuf := [], point := .reading phase })
  | .rcptWriting op bracketed =>
    some (if ec.failed then c.rcptFinish op else { c with point := .rcptReading { op with mWritebuf := [] } bracketed })
  | _ => none

def onRead (c : SmtpCoro) (ec : ErrorCode) (bytes : Str) : Option SmtpCoro :=
  match c.point with
  | .reading phase => some (if ec.failed then c.retry ec else c.checkReply phase bytes)
  | .rcptReading op bracketed => some (if ec.failed then c.rcptFinish op else c.rcptReply op bracketed bytes)
  | _ => none

def step (c : SmtpCoro) : SmtpEvent → Option SmtpCoro
  | .resumed => c.onResumed
  | .connected ec =>
    match c.point with
    | .connecting => some (if ec.failed then c.retry ec else { c with mReadbuf := [], point := .reading .welcome })
    | _ => none
  | .handshaken ec =>
    match c.point with
    | .handshaking => some (if ec.failed then c.retry ec else c.auth)
    | _ => none
  | .written ec n => c.onWritten ec n
  | .read ec bytes => c.onRead ec bytes

/-- The coroutine has done this with its recipients: it keeps them, and the only dialogue it can have started is with them. -/
structure KeepsRcpts (c c' : SmtpCoro) : Prop where
  rcpts : c'.smtp.rcpts = c.smtp.rcpts
  dialogues : c'.dialogues = c.dialogues ∨ c'.dialogues = c.dialogues ++ [c.smtp.rcpts]

variable {c c' : SmtpCoro} {ec : ErrorCode}

theorem keepsRcpts_retry (c : SmtpCoro) (ec : ErrorCode) : KeepsRcpts c (c.retry ec) := ⟨rfl, .inl rfl⟩

theorem keepsRcpts_command (c : SmtpCoro) (cmd : Str) (phase : SmtpPhase) : KeepsRcpts c (c.command cmd phase) :=
  ⟨rfl, .inl rfl⟩

theorem keepsRcpts_rcptNext (c : SmtpCoro) (op : RcptOp) : KeepsRcpts c (c.rcptNext op) := by
  rw [rcptNext]
  split <;> exact ⟨rfl, .inl rfl⟩

theorem keepsRcpts_afterCheck (c : SmtpCoro) (phase : SmtpPhase) (ec : ErrorCode) : KeepsRcpts c (c.afterCheck phase ec) := by
  cases phase with
  | welcome => exact keepsRcpts_command c _ _
  | ehlo =>
    rw [afterCheck]
    split
    · exact keepsRcpts_command c _ _
    · exact keepsRcpts_command c _ _
  | starttls => exact ⟨rfl, .inl rfl⟩
  | auth => exact keepsRcpts_command c _ _
  | mailFrom => exact ⟨rfl, .inr rfl⟩
  | data =>
    rw [afterCheck, sendMailData]
    split
    · exact keepsRcpts_command c _ _
    · exact ⟨rfl, .inl rfl⟩
  | body => exact ⟨rfl, .inl rfl⟩

theorem keepsRcpts_rcptReply (c : SmtpCoro) (op : RcptOp) (bracketed : Bool) (bytes : Str) :
    KeepsRcpts c (c.rcptReply op bracketed bytes) := by
  simp only [rcptReply]
  split
  · obtain ⟨hrcpts, hdialogues⟩ := keepsRcpts_rcptNext
      { c with mReadbuf := (Smtp.checkSmtpResponse 250 (c.mReadbuf ++ bytes)).readbuf } _
    exact ⟨hrcpts, hdialogues⟩
  · split
    · obtain ⟨hrcpts, hdialogues⟩ := keepsRcpts_rcptNext
        { c with mReadbuf := (Smtp.checkSmtpResponse 250 (c.mReadbuf ++ bytes)).readbuf } _
      exact ⟨hrcpts, hdialogues⟩
    · exact ⟨rfl, .inl rfl⟩

theorem keepsRcpts_onResumed (hstep : c.onResumed = some c') : KeepsRcpts c c' := by
  rw [onResumed] at hstep
  split at hstep
  case h_1 => exact (some.inj hstep) ▸ ⟨rfl, .inl rfl⟩
  case h_2 => exact (some.inj hstep) ▸ ⟨rfl, .inl rfl⟩
  case h_3 phase ec _ =>
    rw [← some.inj hstep]
    split
    · exact keepsRcpts_retry c ec
    · exact keepsRcpts_afterCheck c phase ec
  case h_4 op _ => exact (some.inj hstep) ▸ keepsRcpts_rcptNext c op
  case h_5 ec _ =>
    rw [← some.inj hstep]
    split
    · exact keepsRcpts_retry c ec
    · exact keepsRcpts_command c _ _
  case h_6 => simp at hstep

theorem keepsRcpts_onWritten {n : Nat} (hstep : c.onWritten ec n = some c') : KeepsRcpts c c' := by
  rw [onWritten] at hstep
  split at hstep
  case h_1 =>
    rw [← some.inj hstep]
    split <;> exact ⟨rfl, .inl rfl⟩
  case h_2 =>
    rw [← some.inj hstep]
    split <;> exact ⟨rfl, .inl rfl⟩
  case h_3 => simp at hstep

theorem keepsRcpts_onRead {bytes : Str} (hstep : c.onRead ec bytes = some c') : KeepsRcpts c c' := by
  rw [onRead] at hstep
  split at hstep
  case h_1 =>
    rw [← some.inj hstep]
    split <;> exact ⟨rfl, .inl rfl⟩
  case h_2 op bracketed _ =>
    rw [← some.inj hstep]
    split
    · exact ⟨rfl, .inl rfl⟩
    · exact keepsRcpts_rcptReply c op bracketed bytes
  case h_3 => simp at hstep

theorem keepsRcpts_step {e : SmtpEvent} (hstep : c.step e = some c') : KeepsRcpts c c' := by
  cases e with
  | resumed => exact keepsRcpts_onResumed hstep
  | written ec n => exact keepsRcpts_onWritten hstep
  | read ec bytes => exact keepsRcpts_onRead hstep
  | connected ec =>
    rw [step] at hstep
    split at hstep
    · rw [← some.inj hstep]
      split <;> exact ⟨rfl, .inl rfl⟩
    · simp at hstep
  | handshaken ec =>
    rw [step] at hstep
    split at hstep
    · rw [← some.inj hstep]
      split <;> exact ⟨rfl, .inl rfl⟩
    · simp at hstep

end SmtpCoro

/-- `mx::mx`, the mails that have been passed to it and the coroutine of each of them. -/
structure SmtpWorld where
  mSmtp : Option Smtp
  mails : List Imf
  coros : List SmtpCoro

inductive SmtpWorldEvent where
  | sendMail (imf : Imf)
  | coro (k : Nat) (e : SmtpEvent)

namespace SmtpWorld

def new (user passwd smtpserver : Str) : Except ImfExn SmtpWorld := do
  if user ≠ [] ∧ passwd ≠ [] then return ⟨some (← Smtp.new user passwd smtpserver), [], []⟩
  else return ⟨none, [], []⟩

def asyncSendMail (w : SmtpWorld) (imf : Imf) : SmtpWorld :=
  match w.mSmtp with
  | none => w
  | some smtp =>
    match smtp.asyncSendmail imf with
    -- `header.at` has thrown
    | none => { w with mSmtp := some { smtp with retryCount := 0 } }
    | some smtp => ⟨some smtp, w.mails ++ [imf], w.coros ++ [⟨smtp, .posted, [], [], false, []⟩]⟩

def step (w : SmtpWorld) : SmtpWorldEvent → Option SmtpWorld
  | .sendMail imf => some (w.asyncSendMail imf)
  | .coro k e =>
    match w.coros[k]? with
    | some c => (c.step e).map fun c => { w with coros := w.coros.set k c }
    | none => none

/-- Every mail is sent to the addresses of its own `to` field. -/
def UsesOwn (w : SmtpWorld) : Prop :=
  ∀ (k : Nat) (mail : Imf) (c : SmtpCoro), w.mails[k]? = some mail → w.coros[k]? = some c →
    c.smtp.rcpts = mail.addresses ∧ ∀ used ∈ c.dialogues, used = mail.addresses

structure Inv (w : SmtpWorld) : Prop where
  lengths : w.coros.length = w.mails.length
  rcpts : ∀ smtp ∈ w.mSmtp, smtp.rcpts = w.mails.flatMap Imf.addresses
  coros : ∀ k c, w.coros[k]? = some c →
    c.smtp.rcpts = (w.mails.take (k + 1)).flatMap Imf.addresses ∧ ∀ used ∈ c.dialogues, used = c.smtp.rcpts

theorem rcpts_new {user passwd mailserver : Str} {smtp : Smtp} (hnew : Smtp.new user passwd mailserver = .ok smtp) :
    smtp.rcpts = [] := by
  rw [Smtp.new] at hnew
  obtain ⟨mAUTH, _, hsmtp⟩ := Fallible.bind_eq_ok_iff.mp hnew
  exact congrArg Smtp.rcpts (ok.inj hsmtp).symm

theorem inv_new {user passwd smtpserver : Str} {w : SmtpWorld} (hnew : new user passwd smtpserver = .ok w) : w.Inv := by
  rw [new] at hnew
  split at hnew
  · obtain ⟨smtp, hsmtp, hw⟩ := Fallible.bind_eq_ok_iff.mp hnew
    obtain rfl := ok.inj hw
    refine ⟨rfl, ?_, by simp⟩
    intro smtp' hmem
    obtain rfl : smtp = smtp' := some.inj hmem
    exact rcpts_new hsmtp
  · obtain rfl := ok.inj hnew
    exact ⟨rfl, by simp, by simp⟩

theorem inv_asyncSendMail {w : SmtpWorld} (hw : w.Inv) (imf : Imf) : (w.asyncSendMail imf).Inv := by
  obtain ⟨hlengths, hrcpts, hcoros⟩ := hw
  rw [asyncSendMail]
  split
  case h_1 => exact ⟨hlengths, hrcpts, hcoros⟩
  case h_2 smtp hsmtp =>
    have hold := hrcpts smtp (by simp [hsmtp])
    split
    case h_1 => exact ⟨hlengths, by simpa using hold, hcoros⟩
    case h_2 smtp' hsend =>
      obtain ⟨line, hline, rfl⟩ := map_eq_some_iff.mp hsend
      have haddresses : imf.addresses = Smtp.extractAddresses line := by rw [Imf.addresses, hline, getD_some]
      have hnew : smtp.rcpts ++ Smtp.extractAddresses line = (w.mails ++ [imf]).flatMap Imf.addresses := by
        rw [flatMap_append, flatMap_singleton, hold, haddresses]
      refine ⟨by simp [hlengths], by simpa using hnew, ?_⟩
      intro k c hc
      by_cases hk : k < w.coros.length
      · rw [getElem?_append_left hk] at hc
        rw [take_append_of_le_length (by omega)]
        exact hcoros k c hc
      · obtain ⟨rfl, rfl⟩ : k = w.coros.length ∧ _ = c := by
          rw [getElem?_append_right (by omega)] at hc
          have hzero : k - w.coros.length = 0 := by
            by_contra hne
            obtain ⟨j, hj⟩ := Nat.exists_eq_succ_of_ne_zero hne
            simp [hj] at hc
          exact ⟨by omega, by simpa [hzero] using hc⟩
        refine ⟨?_, by simp⟩
        rw [hlengths, take_of_length_le (by simp)]
        exact hnew

theorem inv_step {w w' : SmtpWorld} {e : SmtpWorldEvent} (hw : w.Inv) (hstep : w.step e = some w') : w'.Inv := by
  cases e with
  | sendMail imf => exact (some.inj hstep) ▸ inv_asyncSendMail hw imf
  | coro k e =>
    rw [step] at hstep
    split at hstep
    case h_2 => simp at hstep
    case h_1 c hc =>
      obtain ⟨c', hc', rfl⟩ := map_eq_some_iff.mp hstep
      obtain ⟨hlengths, hrcpts, hcoros⟩ := hw
      refine ⟨by simpa using hlengths, hrcpts, ?_⟩
      intro j d hd
      by_cases hj : k = j
      · subst hj
        obtain rfl : c' = d := by
          rw [List.getElem?_set_self (List.getElem?_eq_some_iff.mp hc).1] at hd
          exact some.inj hd
        obtain ⟨hold, hused⟩ := hcoros k c hc
        obtain ⟨hsame, hdialogues⟩ := SmtpCoro.keepsRcpts_step hc'
        refine ⟨hsame.trans hold, ?_⟩
        intro used hmem
        rw [hsame]
        rcases hdialogues with h | h
        · exact hused used (h ▸ hmem)
        · rw [h] at hmem
          rcases mem_append.mp hmem with hmem | hmem
          · exact hused used hmem
          · exact mem_singleton.mp hmem
      · rw [getElem?_set_ne hj] at hd
        exact hcoros j d hd

theorem Inv.eq_addresses_iff {w : SmtpWorld} (hw : w.Inv) {k : Nat} {mail : Imf} {c : SmtpCoro}
    (hmail : w.mails[k]? = some mail) (hc : w.coros[k]? = some c) :
    c.smtp.rcpts = mail.addresses ↔ ∀ old ∈ w.mails.take k, old.addresses = [] := by
  rw [(hw.coros k c hc).1, take_add_one, hmail, toList_some, flatMap_append, flatMap_singleton,
    append_left_eq_self, flatMap_eq_nil_iff]

/-- In every run each mail goes to the addresses of all mails passed so far. So it goes to its own alone exactly if no mail but the last one had an address in it. -/
theorem usesOwn_iff {user passwd smtpserver : Str} {start w : SmtpWorld} (hnew : new user passwd smtpserver = .ok start)
    {es : List SmtpWorldEvent} (hrun : run step start es = some w) :
    w.UsesOwn ↔ ∀ mail ∈ w.mails.dropLast, mail.addresses = [] := by
  have hw : w.Inv := invariant_of_run (fun _ _ _ hs he => inv_step hs he) (inv_new hnew) hrun
  have hdrop : ∀ k, k < w.mails.length → (w.mails.take k) <+: w.mails.dropLast := by
    intro k hk
    rw [dropLast_eq_take]
    exact take_prefix_take_left (by omega)
  constructor
  · intro huses
    by_cases hempty : w.mails = []
    · simp [hempty]
    · -- the last mail has everything before it in its list
      have hpos : 0 < w.mails.length := length_pos_iff.mpr hempty
      have hmail := getElem?_eq_getElem (Nat.sub_one_lt_of_lt hpos)
      have hc := getElem?_eq_getElem (l := w.coros) (i := w.mails.length - 1) (by rw [hw.lengths]; omega)
      rw [dropLast_eq_take]
      exact (hw.eq_addresses_iff hmail hc).mp (huses _ _ _ hmail hc).1
  · intro hall k mail c hmail hc
    have hk : k < w.mails.length := (List.getElem?_eq_some_iff.mp hmail).1
    have howns := (hw.eq_addresses_iff hmail hc).mpr fun old hold => hall old ((hdrop k hk).subset hold)
    exact ⟨howns, fun used hused => ((hw.coros k c hc).2 used hused).trans howns⟩

def mailTo (rcpt : Str) : Imf := ⟨[("to".toList, rcpt)], false, .inl "hi".toList⟩

def untilRcpt (k : Nat) : List SmtpWorldEvent :=
  let exchange (reply : String) : List SmtpWorldEvent :=
    [.coro k (.written .success 0), .coro k (.read .success reply.toList), .coro k .resumed]
  [.coro k .resumed, .coro k (.connected .success), .coro k (.read .success "220 hello\r\n".toList), .coro k .resumed]
    ++ exchange "250 hello\r\n" ++ exchange "235 ok\r\n" ++ exchange "250 ok\r\n"

def started : SmtpWorld :=
  ⟨some ⟨"u".toList, "smtp.qq.com".toList, "AHUAcA==".toList, ("smtp.qq.com".toList, "25".toList), ⟨[], false, .inl []⟩, [], 0⟩,
    [], []⟩

theorem new_eq_started : new "u".toList "p".toList [] = .ok started := rfl

/-- The mail before has no address in its `to` field. -/
theorem usesOwn_after_mail_without_address :
    ∃ w, run step started (.sendMail (mailTo "nobody".toList) :: .sendMail (mailTo "a@b".toList) :: untilRcpt 1) = some w ∧
      w.coros.map (·.dialogues) = [[], [["a@b".toList]]] ∧ w.UsesOwn := by
  obtain ⟨w, hrun, hw⟩ := map_eq_some_iff.mp (by decide :
    (run step started (.sendMail (mailTo "nobody".toList) :: .sendMail (mailTo "a@b".toList) :: untilRcpt 1)).map
      (fun w => (w.mails.map Imf.addresses, w.coros.map (·.dialogues))) = some ([[], ["a@b".toList]], [[], [["a@b".toList]]]))
  obtain ⟨hmails, hcoros⟩ := Prod.mk.inj hw
  refine ⟨w, hrun, hcoros, (usesOwn_iff new_eq_started hrun).mpr ?_⟩
  obtain ⟨first, rest, hlist, hfirst, hrest⟩ := map_eq_cons_iff.mp hmails
  obtain ⟨second, none, rfl, _, hnone⟩ := map_eq_cons_iff.mp hrest
  obtain rfl := map_eq_nil_iff.mp hnone
  simpa [hlist] using hfirst

/-- The second mail is also sent to the recipient of the first one. -/
theorem second_mail_to_first_recipient :
    ∃ w, run step started (.sendMail (mailTo "a@b".toList) :: .sendMail (mailTo "c@d".toList) :: untilRcpt 1) = some w ∧
      w.mails.map Imf.addresses = [["a@b".toList], ["c@d".toList]] ∧
      w.coros.map (·.dialogues) = [[], [["a@b".toList, "c@d".toList]]] ∧ ¬ w.UsesOwn := by
  obtain ⟨w, hrun, hw⟩ := map_eq_some_iff.mp (by decide :
    (run step started (.sendMail (mailTo "a@b".toList) :: .sendMail (mailTo "c@d".toList) :: untilRcpt 1)).map
        (fun w => (w.mails.map Imf.addresses, w.coros.map (·.dialogues))) =
      some ([["a@b".toList], ["c@d".toList]], [[], [["a@b".toList, "c@d".toList]]]))
  obtain ⟨hmails, hcoros⟩ := Prod.mk.inj hw
  refine ⟨w, hrun, hmails, hcoros, fun huses => ?_⟩
  obtain ⟨_, _, hmailList, -, hrest⟩ := map_eq_cons_iff.mp hmails
  obtain ⟨mail, _, rfl, haddresses, -⟩ := map_eq_cons_iff.mp hrest
  obtain ⟨_, _, hcoroList, -, hrest⟩ := map_eq_cons_iff.mp hcoros
  obtain ⟨c, _, rfl, hdialogues, -⟩ := map_eq_cons_iff.mp hrest
  have hused := (huses 1 mail c (by rw [hmailList]; rfl) (by rw [hcoroList]; rfl)).2
  rw [hdialogues, haddresses] at hused
  exact absurd (hused _ (mem_singleton_self _)) (by decide)

end SmtpWorld

end Avbot
