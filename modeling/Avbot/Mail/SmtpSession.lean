import Avbot.Mail.Smtp

/-!
# One mail over several connections

The write buffer and the TLS stream are members of the coroutine: a resumption with an error starts another connection and leaves both as they are. A coroutine is observed here together with what it has given to `async_write` on its present connection and with what the `EHLO` reply of that connection has announced.
-/

namespace Avbot

open List Option EventMachine Bool
open SmtpCoro (afterCheck checkReply command onRead onResumed onWritten rcptNext retry)

namespace SmtpPhase

/-- The command of the phase is written to `m_sslsocket` if there is one, and the reply read from there. -/
def overSsl : SmtpPhase → Bool
  | .welcome | .ehlo | .starttls => false
  | .auth | .mailFrom | .data | .body => true

end SmtpPhase

namespace SmtpCoro

def ehloLine (c : SmtpCoro) : Str := "EHLO ".toList ++ c.smtp.mMailserver ++ Str.crlf

theorem ehloLine_eq (c : SmtpCoro) : c.ehloLine = "EHLO ".toList ++ c.smtp.mMailserver ++ Str.crlf := rfl

def started (c : SmtpCoro) : List Str :=
  match c.point with
  | .writing _ => [c.mWritebuf]
  | .rcptWriting op _ => [op.mWritebuf]
  | _ => []

def UsesSsl (c : SmtpCoro) : Prop :=
  match c.point with
  | .handshaking => True
  | .writing phase => phase.overSsl = true ∧ c.mSslsocket = true
  | .reading phase => phase.overSsl = true ∧ c.mSslsocket = true
  | .rcptPosted _ => c.mSslsocket = true
  | .rcptWriting _ _ => c.mSslsocket = true
  | .rcptReading _ _ => c.mSslsocket = true
  | _ => False

def announces (c : SmtpCoro) (e : SmtpEvent) : Bool :=
  match e with
  | .read ec bytes =>
    c.point == .reading .ehlo && ! ec.failed &&
      (Smtp.checkSmtpResponse 250 (c.mReadbuf ++ bytes)).texts.contains "STARTTLS".toList
  | _ => false

def Breaks (c : SmtpCoro) (e : SmtpEvent) : Prop :=
  match c.point, e with
  | .connecting, .connected ec => ec.failed = true
  | .handshaking, .handshaken ec => ec.failed = true
  | .writing _, .written ec _ => ec.failed = true
  | .reading _, .read ec _ => ec.failed = true
  | .checked _ ec, .resumed => ec.failed = true
  | .rcptDone ec, .resumed => ec.failed = true
  | _, _ => False

instance (c : SmtpCoro) (e : SmtpEvent) : Decidable (c.Breaks e) := by
  unfold Breaks
  split <;> infer_instance

def unsent (c : SmtpCoro) : SmtpEvent → Str
  | .written _ n => c.mWritebuf.drop n
  | _ => c.mWritebuf

end SmtpCoro

structure SmtpSession where
  coro : SmtpCoro
  /-- The contents of the buffers that have been given to `async_write`. -/
  writes : List Str
  /-- The reply to `EHLO` had the line `STARTTLS`. -/
  announced : Bool

namespace SmtpSession

def posted (smtp : Smtp) : SmtpSession := ⟨⟨smtp, .posted, [], [], false, []⟩, [], false⟩

def observe (s : SmtpSession) (e : SmtpEvent) (c : SmtpCoro) : SmtpSession :=
  -- `m_socket` has been reset, and a connection begins
  if c.point = .connecting then ⟨c, [], false⟩
  else ⟨c, s.writes ++ c.started, s.announced || s.coro.announces e⟩

def step (s : SmtpSession) (e : SmtpEvent) : Option SmtpSession := (s.coro.step e).map (s.observe e)

/-- The first thing written on the connection is the `EHLO` line alone, and TLS is used only where it has been announced. -/
structure Proper (s : SmtpSession) : Prop where
  first : ∀ w ∈ s.writes.head?, w = s.coro.ehloLine
  starttls : s.coro.point = .writing .starttls → s.announced = true
  ssl : s.coro.UsesSsl → s.announced = true

/-- If the event makes the coroutine connect again, everything has been written and there is no `m_sslsocket`. -/
def BreaksClean (s : SmtpSession) (e : SmtpEvent) : Prop :=
  s.coro.Breaks e → s.coro.smtp.retryCount ≤ 20 → s.coro.unsent e = [] ∧ s.coro.mSslsocket = false

instance (s : SmtpSession) (e : SmtpEvent) : Decidable (s.BreaksClean e) :=
  inferInstanceAs (Decidable (_ → _ → _))

/-! ### Connections that begin clean -/

inductive Stage where
  | idle
  | greeting
  | ehlo
  | securing
  | dialogue
  | finished

def Stage.of : SmtpPoint → Stage
  | .posted | .delayed => .idle
  | .connecting | .writing .welcome | .reading .welcome | .checked .welcome _ => .greeting
  | .writing .ehlo | .reading .ehlo => .ehlo
  | .writing .starttls | .reading .starttls | .checked .starttls _ | .handshaking => .securing
  | .handled _ | .threw _ => .finished
  | _ => .dialogue

def Stage.Holds (s : SmtpSession) : Stage → Prop
  | .idle => s.coro.mWritebuf = [] ∧ s.coro.mSslsocket = false
  | .greeting => s.coro.mWritebuf = [] ∧ s.coro.mSslsocket = false ∧ s.writes = []
  | .ehlo => s.coro.mSslsocket = false ∧ s.writes ≠ []
  | .securing => s.announced = true ∧ s.writes ≠ []
  | .dialogue => (s.coro.mSslsocket = true → s.announced = true) ∧ s.writes ≠ []
  | .finished => True

structure Inv (s : SmtpSession) : Prop where
  first : ∀ w ∈ s.writes.head?, w = s.coro.ehloLine
  stage : (Stage.of s.coro.point).Holds s

variable {phase : SmtpPhase} {bytes : Str}

theorem Stage.of_overSsl (hphase : phase.overSsl = true) :
    Stage.of (.writing phase) = .dialogue ∧ Stage.of (.reading phase) = .dialogue := by
  cases phase with
  | welcome => cases hphase
  | ehlo => cases hphase
  | starttls => cases hphase
  | _ => exact ⟨rfl, rfl⟩

variable {s s' : SmtpSession} {e : SmtpEvent} {c : SmtpCoro} {ec : ErrorCode}

theorem Inv.proper (hs : s.Inv) : s.Proper := by
  obtain ⟨⟨smtp, point, readbuf, writebuf, ssl, dialogues⟩, writes, announced⟩ := s
  obtain ⟨hfirst, hstage⟩ := hs
  refine ⟨hfirst, ?_, ?_⟩
  · rintro rfl
    exact hstage.1
  · intro huses
    cases point with
    | handshaking => exact hstage.1
    | rcptPosted op => exact hstage.1 huses
    | rcptWriting op bracketed => exact hstage.1 huses
    | rcptReading op bracketed => exact hstage.1 huses
    | writing phase =>
      obtain ⟨hphase, hssl⟩ := huses
      rw [(Stage.of_overSsl hphase).1] at hstage
      exact hstage.1 hssl
    | reading phase =>
      obtain ⟨hphase, hssl⟩ := huses
      rw [(Stage.of_overSsl hphase).2] at hstage
      exact hstage.1 hssl
    | _ => cases huses

theorem inv_observe (hs : s.Inv) (hserver : c.smtp.mMailserver = s.coro.smtp.mMailserver)
    (hpoint : c.point ≠ .connecting) (hwrites : s.writes = [] → ∀ w ∈ c.started, w = c.ehloLine)
    (hstage : (Stage.of c.point).Holds ⟨c, s.writes ++ c.started, s.announced || s.coro.announces e⟩) :
    (s.observe e c).Inv := by
  rw [observe, if_neg hpoint]
  refine ⟨?_, hstage⟩
  intro w hw
  cases hold : s.writes with
  | nil =>
    rw [hold, nil_append] at hw
    exact hwrites hold w (mem_of_mem_head? hw)
  | cons first rest =>
    rw [hold, cons_append, List.head?_cons] at hw
    have hfirst := hs.first first (by rw [hold, List.head?_cons, mem_some_iff])
    have hline : c.ehloLine = s.coro.ehloLine := by rw [SmtpCoro.ehloLine_eq, SmtpCoro.ehloLine_eq, hserver]
    rw [← some.inj hw, hfirst, hline]

theorem inv_observe_retry (hs : s.Inv) (hserver : c.smtp.mMailserver = s.coro.smtp.mMailserver)
    (hclean : c.smtp.retryCount ≤ 20 → c.mWritebuf = [] ∧ c.mSslsocket = false) : (s.observe e (c.retry ec)).Inv := by
  by_cases hcount : c.smtp.retryCount ≤ 20
  · have hpoint : (c.retry ec).point = .delayed := if_pos hcount
    refine inv_observe hs hserver (by simp [hpoint]) (by simp [SmtpCoro.started, hpoint]) ?_
    rw [hpoint]
    exact hclean hcount
  · have hpoint : (c.retry ec).point = .handled ec := if_neg hcount
    refine inv_observe hs hserver (by simp [hpoint]) (by simp [SmtpCoro.started, hpoint]) ?_
    rw [hpoint]
    exact trivial

theorem inv_observe_waits (hs : s.Inv) (hserver : c.smtp.mMailserver = s.coro.smtp.mMailserver)
    (hpoint : c.point ≠ .connecting) (hstarted : c.started = []) (hsame : Stage.of c.point = Stage.of s.coro.point)
    (hbuf : s.coro.mWritebuf = [] → c.mWritebuf = []) (hssl : c.mSslsocket = s.coro.mSslsocket) :
    (s.observe e c).Inv := by
  refine inv_observe hs hserver hpoint (by simp [hstarted]) ?_
  rw [hstarted, append_nil, hsame]
  have hstage := hs.stage
  cases hof : Stage.of s.coro.point <;> rw [hof] at hstage
  case idle => exact ⟨hbuf hstage.1, hssl.trans hstage.2⟩
  case greeting => exact ⟨hbuf hstage.1, hssl.trans hstage.2.1, hstage.2.2⟩
  case ehlo => exact ⟨hssl.trans hstage.1, hstage.2⟩
  case securing => exact ⟨or_eq_true_iff.mpr (.inl hstage.1), hstage.2⟩
  case dialogue => exact ⟨fun h => or_eq_true_iff.mpr (.inl (hstage.1 (hssl ▸ h))), hstage.2⟩
  case finished => exact trivial

theorem inv_observe_dialogue (hs : s.Inv) (hserver : c.smtp.mMailserver = s.coro.smtp.mMailserver)
    (hdialogue : Stage.of c.point = .dialogue) (hbegun : s.writes ≠ [])
    (hssl : c.mSslsocket = true → (s.announced || s.coro.announces e) = true) : (s.observe e c).Inv := by
  refine inv_observe hs hserver ?_ (fun h => absurd h hbegun) ?_
  · intro hpoint
    rw [hpoint] at hdialogue
    cases hdialogue
  · rw [hdialogue]
    exact ⟨hssl, fun h => hbegun (append_eq_nil_iff.mp h).1⟩

structure Stays (c c' : SmtpCoro) : Prop where
  point : Stage.of c'.point = .dialogue
  smtp : c'.smtp = c.smtp
  ssl : c'.mSslsocket = c.mSslsocket

theorem inv_observe_stays (hs : s.Inv) (hof : Stage.of s.coro.point = .dialogue) (hc : Stays s.coro c) :
    (s.observe e c).Inv := by
  have hstage := hs.stage
  rw [hof] at hstage
  obtain ⟨hannounced, hbegun⟩ := hstage
  refine inv_observe_dialogue hs (by rw [hc.smtp]) hc.point hbegun ?_
  intro hssl
  exact or_eq_true_iff.mpr (.inl (hannounced (hc.ssl ▸ hssl)))

theorem stays_rcptNext (c : SmtpCoro) (op : RcptOp) : Stays c (c.rcptNext op) := by
  rw [rcptNext]
  split
  · exact ⟨rfl, rfl, rfl⟩
  · exact ⟨rfl, rfl, rfl⟩

theorem stays_rcptReply (c : SmtpCoro) (op : RcptOp) (bracketed : Bool) (bytes : Str) :
    Stays c (c.rcptReply op bracketed bytes) := by
  have hnext (readbuf : Str) (op : RcptOp) : Stays c (rcptNext { c with mReadbuf := readbuf } op) := by
    obtain ⟨hpoint, hsmtp, hssl⟩ := stays_rcptNext { c with mReadbuf := readbuf } op
    exact ⟨hpoint, hsmtp, hssl⟩
  simp only [SmtpCoro.rcptReply]
  split
  · exact hnext _ _
  · split
    · exact hnext _ _
    · exact ⟨rfl, rfl, rfl⟩

theorem inv_afterCheck (hs : s.Inv) (hpoint : s.coro.point = .checked phase ec) :
    (s.observe e (s.coro.afterCheck phase ec)).Inv := by
  have hstage := hs.stage
  rw [hpoint] at hstage
  cases phase with
  | welcome =>
    obtain ⟨hbuf, hssl, hwrites⟩ := hstage
    refine inv_observe hs rfl (fun h => by cases h) ?_ ?_
    · intro _ w hw
      rw [mem_singleton.mp hw]
      change s.coro.mWritebuf ++ _ = _
      rw [hbuf]
      rfl
    · exact ⟨hssl, by simp [afterCheck, command, SmtpCoro.started]⟩
  | ehlo =>
    obtain ⟨hannounced, hbegun⟩ := hstage
    rw [afterCheck]
    split
    case isTrue hssl =>
      refine inv_observe hs rfl (fun h => by cases h) (fun h => absurd h hbegun) ?_
      exact ⟨or_eq_true_iff.mpr (.inl (hannounced hssl)), fun h => hbegun (append_eq_nil_iff.mp h).1⟩
    case isFalse => exact inv_observe_stays hs (hpoint ▸ rfl) ⟨rfl, rfl, rfl⟩
  | starttls => exact inv_observe_waits hs rfl (fun h => by cases h) rfl (by rw [hpoint]; rfl) id rfl
  | auth => exact inv_observe_stays hs (hpoint ▸ rfl) ⟨rfl, rfl, rfl⟩
  | mailFrom => exact inv_observe_stays hs (hpoint ▸ rfl) ⟨rfl, rfl, rfl⟩
  | data =>
    rw [afterCheck, SmtpCoro.sendMailData]
    split
    · exact inv_observe_stays hs (hpoint ▸ rfl) ⟨rfl, rfl, rfl⟩
    · exact inv_observe hs rfl (fun h => by cases h) (by simp [SmtpCoro.started]) trivial
  | body => exact inv_observe hs rfl (fun h => by cases h) (by simp [SmtpCoro.started, afterCheck]) trivial

theorem inv_connecting (hs : s.Inv) (hidle : Stage.of s.coro.point = .idle) :
    (s.observe e { s.coro with point := .connecting }).Inv := by
  have hstage := hs.stage
  rw [hidle] at hstage
  rw [observe, if_pos rfl]
  exact ⟨by simp, hstage.1, hstage.2, rfl⟩

theorem inv_onResumed (hs : s.Inv) (hclean : s.BreaksClean .resumed) (hstep : s.coro.onResumed = some c) :
    (s.observe .resumed c).Inv := by
  rw [onResumed] at hstep
  split at hstep
  case h_1 hpoint => exact (some.inj hstep) ▸ inv_connecting hs (by rw [hpoint]; rfl)
  case h_2 hpoint => exact (some.inj hstep) ▸ inv_connecting hs (by rw [hpoint]; rfl)
  case h_3 phase ec hpoint =>
    rw [← some.inj hstep]
    split
    case isTrue hfailed => exact inv_observe_retry hs rfl (hclean (by simpa only [SmtpCoro.Breaks, hpoint] using hfailed))
    case isFalse => exact inv_afterCheck hs hpoint
  case h_4 op hpoint =>
    exact (some.inj hstep) ▸ inv_observe_stays hs (hpoint ▸ rfl) (stays_rcptNext s.coro op)
  case h_5 ec hpoint =>
    rw [← some.inj hstep]
    split
    case isTrue hfailed => exact inv_observe_retry hs rfl (hclean (by simpa only [SmtpCoro.Breaks, hpoint] using hfailed))
    case isFalse => exact inv_observe_stays hs (hpoint ▸ rfl) ⟨rfl, rfl, rfl⟩
  case h_6 => simp at hstep

theorem Stage.of_reading (phase : SmtpPhase) : Stage.of (.reading phase) = Stage.of (.writing phase) := by
  cases phase <;> rfl

theorem inv_onWritten {n : Nat} (hs : s.Inv) (hclean : s.BreaksClean (.written ec n))
    (hstep : s.coro.onWritten ec n = some c) : (s.observe (.written ec n) c).Inv := by
  rw [onWritten] at hstep
  split at hstep
  case h_1 phase hpoint =>
    rw [← some.inj hstep]
    split
    case isTrue hfailed => exact inv_observe_retry hs rfl (hclean (by simpa only [SmtpCoro.Breaks, hpoint] using hfailed))
    case isFalse =>
      refine inv_observe_waits hs rfl (fun h => by cases h) rfl ?_ (fun _ => rfl) rfl
      rw [hpoint, Stage.of_reading]
  case h_2 op bracketed hpoint =>
    rw [← some.inj hstep]
    split
    · exact inv_observe_stays hs (hpoint ▸ rfl) ⟨rfl, rfl, rfl⟩
    · exact inv_observe_stays hs (hpoint ▸ rfl) ⟨rfl, rfl, rfl⟩
  case h_3 => simp at hstep

theorem inv_checkReply (hs : s.Inv) (hpoint : s.coro.point = .reading phase)
    (hsuccess : ¬ ec.failed) : (s.observe (.read ec bytes) (s.coro.checkReply phase bytes)).Inv := by
  have hwaits (hphase : phase ≠ .ehlo)
      (hsame : ∀ ec, Stage.of (.checked phase ec) = Stage.of (.reading phase)) :
      (s.observe (.read ec bytes) (s.coro.checkReply phase bytes)).Inv := by
    refine inv_observe_waits hs rfl (fun h => by cases h) rfl (by rw [hpoint]; exact hsame _) id ?_
    simp [checkReply, hphase]
  cases phase with
  | ehlo =>
    have hstage := hs.stage
    rw [hpoint] at hstage
    obtain ⟨hssl, hbegun⟩ := hstage
    refine inv_observe_dialogue hs rfl rfl hbegun ?_
    intro hnew
    simp only [checkReply, hssl, Bool.false_or, beq_self_eq_true, Bool.true_and] at hnew
    have hannounces : s.coro.announces (.read ec bytes) = true := by
      simp only [SmtpCoro.announces, hpoint, hsuccess, beq_self_eq_true, Bool.not_false, Bool.true_and]
      exact hnew
    rw [hannounces, Bool.or_true]
  | _ => exact hwaits (by simp) (fun _ => rfl)

theorem inv_onRead (hs : s.Inv) (hclean : s.BreaksClean (.read ec bytes))
    (hstep : s.coro.onRead ec bytes = some c) : (s.observe (.read ec bytes) c).Inv := by
  rw [onRead] at hstep
  split at hstep
  case h_1 phase hpoint =>
    rw [← some.inj hstep]
    split
    case isTrue hfailed => exact inv_observe_retry hs rfl (hclean (by simpa only [SmtpCoro.Breaks, hpoint] using hfailed))
    case isFalse hsuccess => exact inv_checkReply hs hpoint hsuccess
  case h_2 op bracketed hpoint =>
    rw [← some.inj hstep]
    split
    · exact inv_observe_stays hs (hpoint ▸ rfl) ⟨rfl, rfl, rfl⟩
    · exact inv_observe_stays hs (hpoint ▸ rfl) (stays_rcptReply s.coro op bracketed bytes)
  case h_3 => simp at hstep

theorem inv_connected (hs : s.Inv) (hclean : s.BreaksClean (.connected ec))
    (hstep : s.coro.step (.connected ec) = some c) : (s.observe (.connected ec) c).Inv := by
  rw [SmtpCoro.step] at hstep
  split at hstep
  case h_1 hpoint =>
    rw [← some.inj hstep]
    split
    case isTrue hfailed => exact inv_observe_retry hs rfl (hclean (by simpa only [SmtpCoro.Breaks, hpoint] using hfailed))
    case isFalse => exact inv_observe_waits hs rfl (fun h => by cases h) rfl (by rw [hpoint]; rfl) id rfl
  case h_2 => simp at hstep

theorem inv_handshaken (hs : s.Inv) (hclean : s.BreaksClean (.handshaken ec))
    (hstep : s.coro.step (.handshaken ec) = some c) : (s.observe (.handshaken ec) c).Inv := by
  rw [SmtpCoro.step] at hstep
  split at hstep
  case h_1 hpoint =>
    have hstage := hs.stage
    rw [hpoint] at hstage
    rw [← some.inj hstep]
    split
    case isTrue hfailed => exact inv_observe_retry hs rfl (hclean (by simpa only [SmtpCoro.Breaks, hpoint] using hfailed))
    case isFalse => exact inv_observe_dialogue hs rfl rfl hstage.2 fun _ => or_eq_true_iff.mpr (.inl hstage.1)
  case h_2 => simp at hstep

theorem inv_step (hs : s.Inv) (hclean : s.BreaksClean e) (hstep : s.step e = some s') : s'.Inv := by
  obtain ⟨c, hc, rfl⟩ := map_eq_some_iff.mp hstep
  cases e with
  | resumed => exact inv_onResumed hs hclean hc
  | connected ec => exact inv_connected hs hclean hc
  | handshaken ec => exact inv_handshaken hs hclean hc
  | written ec n => exact inv_onWritten hs hclean hc
  | read ec bytes => exact inv_onRead hs hclean hc

theorem inv_posted (smtp : Smtp) : (posted smtp).Inv := ⟨by simp [posted], rfl, rfl⟩

/-! ### Connections that do not -/

theorem delayed_of_breaks {c' : SmtpCoro} (hbreaks : c.Breaks e) (hcount : c.smtp.retryCount ≤ 20)
    (hstep : c.step e = some c') :
    c'.point = .delayed ∧ c'.mWritebuf = c.unsent e ∧ c'.mSslsocket = c.mSslsocket := by
  have hretry : ∀ (d : SmtpCoro) (ec : ErrorCode), d.smtp = c.smtp → (d.retry ec).point = .delayed := by
    intro d ec hsmtp
    rw [retry, hsmtp]
    exact if_pos hcount
  unfold SmtpCoro.Breaks at hbreaks
  split at hbreaks
  case h_7 => cases hbreaks
  -- in the other cases the step is the call of `retry`
  all_goals
    rename_i hpoint
    simp only [SmtpCoro.step, onWritten, onRead, onResumed, hpoint, hbreaks, if_true, Option.some.injEq] at hstep
    exact hstep ▸ ⟨hretry _ _ rfl, rfl, rfl⟩

def welcomeReply : Str := "220 x\r\n".toList

def ehloReply : Str := "250 x\r\n".toList

@[simp] theorem checkSmtpResponse_welcomeReply :
    Smtp.checkSmtpResponse 220 welcomeReply = ⟨.errcSuccess, ["x".toList], []⟩ := by decide

@[simp] theorem checkSmtpResponse_ehloReply :
    Smtp.checkSmtpResponse 250 ehloReply = ⟨.errcSuccess, ["x".toList], []⟩ := by decide

@[simp] theorem failed_errcSuccess : ErrorCode.errcSuccess.failed = false := rfl

def welcomed : List SmtpEvent := [.resumed, .connected .success, .read .success welcomeReply, .resumed]

def answered : List SmtpEvent := [.written .success 0, .read .success ehloReply, .resumed]

def sentEhlo (c : SmtpCoro) : SmtpSession :=
  ⟨{ c with point := .writing .ehlo, mReadbuf := [], mWritebuf := c.mWritebuf ++ c.ehloLine },
    [c.mWritebuf ++ c.ehloLine], false⟩

theorem run_welcomed (hpoint : s.coro.point = .delayed) : run step s welcomed = some (sentEhlo s.coro) := by
  obtain ⟨⟨smtp, point, readbuf, writebuf, ssl, dialogues⟩, writes, announced⟩ := s
  obtain rfl : point = .delayed := hpoint
  simp [welcomed, run_cons, step, SmtpCoro.step, onResumed, onRead, observe, checkReply,
    SmtpPhase.code, afterCheck, command, SmtpCoro.started, SmtpCoro.announces, sentEhlo,
    SmtpCoro.ehloLine_eq]

theorem run_answered (hssl : c.mSslsocket = true) :
    ∃ s, run step (sentEhlo c) answered = some s ∧ s.coro.point = .writing .starttls ∧ s.announced = false := by
  obtain ⟨smtp, point, readbuf, writebuf, ssl, dialogues⟩ := c
  obtain rfl : ssl = true := hssl
  simp [answered, run_cons, step, SmtpCoro.step, onResumed, onRead, onWritten, observe,
    checkReply, SmtpPhase.code, afterCheck, command, SmtpCoro.started, SmtpCoro.announces,
    sentEhlo]

theorem goes_wrong (hpoint : s.coro.point = .delayed) (hdirty : ¬ (s.coro.mWritebuf = [] ∧ s.coro.mSslsocket = false)) :
    ∃ es s', run step s es = some s' ∧ ¬ s'.Proper := by
  have hwelcomed := run_welcomed hpoint
  by_cases hbuf : s.coro.mWritebuf = []
  · have hssl : s.coro.mSslsocket = true := by simpa [hbuf] using hdirty
    obtain ⟨s', hrun, hstarttls, hannounced⟩ := run_answered hssl
    refine ⟨welcomed ++ answered, s', ?_, ?_⟩
    · rw [run_append, hwelcomed, bind_some, hrun]
    · intro hproper
      rw [hproper.starttls hstarttls] at hannounced
      cases hannounced
  · refine ⟨welcomed, sentEhlo s.coro, hwelcomed, ?_⟩
    intro hproper
    have hfirst : s.coro.mWritebuf ++ s.coro.ehloLine = s.coro.ehloLine := hproper.first _ rfl
    exact hbuf (append_left_eq_self.mp hfirst)

/-- As long as every failure that leads to another connection comes when everything has been written and there is no `m_sslsocket`, each connection begins with the `EHLO` line alone and uses TLS only if its own server has announced it. -/
theorem proper_of_breaksClean (smtp : Smtp) :
    (∀ es s, Meets step BreaksClean (posted smtp) es → run step (posted smtp) es = some s → s.Proper) ∧
      ∀ es s e s', run step (posted smtp) es = some s → s.step e = some s' → ¬ s.BreaksClean e →
        ∃ more s'', run step (posted smtp) (es ++ e :: more) = some s'' ∧ ¬ s''.Proper := by
  constructor
  · intro es s hmeets hrun
    have hinv : s.Inv := invariant_of_meets (fun _ _ _ hs hclean hstep => inv_step hs hclean hstep) (inv_posted smtp) hmeets hrun
    exact hinv.proper
  · intro es s e s' hrun hstep hdirty
    obtain ⟨hbreaks, hcount, hleft⟩ : s.coro.Breaks e ∧ s.coro.smtp.retryCount ≤ 20 ∧
        ¬ (s.coro.unsent e = [] ∧ s.coro.mSslsocket = false) := by simpa [BreaksClean] using hdirty
    obtain ⟨c, hc, rfl⟩ := map_eq_some_iff.mp hstep
    obtain ⟨hpoint, hbuf, hssl⟩ := delayed_of_breaks hbreaks hcount hc
    have hobserve : (s.observe e c).coro = c := by rw [observe, if_neg (by simp [hpoint])]
    obtain ⟨more, s'', hmore, hwrong⟩ := goes_wrong (s := s.observe e c) (by rw [hobserve, hpoint])
      (by rw [hobserve, hbuf, hssl]; exact hleft)
    refine ⟨more, s'', ?_, hwrong⟩
    rw [run_append, hrun, bind_some, run_cons, hstep]
    exact hmore

def smtpFor : Smtp :=
  ⟨"u".toList, "m".toList, "AHUAcA==".toList, ("m".toList, "25".toList), ⟨[], false, .inl []⟩, [], 0⟩

example : Smtp.new "u".toList "p".toList "m".toList = .ok smtpFor := rfl

/-- The first connection is refused, the second one gets as far as the login. -/
theorem proper_of_refused :
    ∃ s, run step (posted smtpFor) ([.resumed, .connected ⟨111, .system⟩] ++ welcomed ++ answered) = some s ∧
      s.coro.point = .writing .auth ∧ s.writes.head? = some "EHLO m\r\n".toList ∧ s.Proper := by
  obtain ⟨s, hrun, hs⟩ := map_eq_some_iff.mp (by decide :
    (run step (posted smtpFor) ([.resumed, .connected ⟨111, .system⟩] ++ welcomed ++ answered)).map
      (fun s => (s.coro.point, s.writes.head?)) = some (.writing .auth, some "EHLO m\r\n".toList))
  obtain ⟨hpoint, hwrites⟩ := Prod.mk.inj hs
  exact ⟨s, hrun, hpoint, hwrites, (proper_of_breaksClean smtpFor).1 _ s (by decide) hrun⟩

/-- The first connection breaks off while `EHLO` is written, and the second one begins with two of them; or it has announced `STARTTLS`, and the second one sends `STARTTLS` to a server that has not. -/
theorem broken_off_not_proper :
    (∃ s, run step (posted smtpFor) (welcomed ++ [.written ⟨32, .system⟩ 0] ++ welcomed) = some s ∧
      s.writes = ["EHLO m\r\nEHLO m\r\n".toList] ∧ ¬ s.Proper) ∧
    ∃ s, run step (posted smtpFor)
        (welcomed ++ [.written .success 0, .read .success "250-x\r\n250 STARTTLS\r\n".toList, .resumed,
          .written .success 0, .read ⟨104, .system⟩ []] ++ welcomed ++ answered) = some s ∧
      s.writes = ["EHLO m\r\n".toList, "STARTTLS\r\n".toList] ∧ s.announced = false ∧ ¬ s.Proper := by
  constructor
  · obtain ⟨s, hrun, hs⟩ := map_eq_some_iff.mp (by decide :
      (run step (posted smtpFor) (welcomed ++ [.written ⟨32, .system⟩ 0] ++ welcomed)).map
        (fun s => (s.writes, s.coro.smtp.mMailserver)) = some (["EHLO m\r\nEHLO m\r\n".toList], "m".toList))
    obtain ⟨hwrites, hserver⟩ := Prod.mk.inj hs
    refine ⟨s, hrun, hwrites, ?_⟩
    intro hproper
    have hfirst := hproper.first _ (by rw [hwrites]; exact rfl)
    rw [SmtpCoro.ehloLine_eq, hserver] at hfirst
    exact absurd hfirst (by decide)
  · obtain ⟨s, hrun, hs⟩ := map_eq_some_iff.mp (by decide :
      (run step (posted smtpFor)
        (welcomed ++ [.written .success 0, .read .success "250-x\r\n250 STARTTLS\r\n".toList, .resumed,
          .written .success 0, .read ⟨104, .system⟩ []] ++ welcomed ++ answered)).map
        (fun s => (s.coro.point, s.writes, s.announced)) =
          some (.writing .starttls, ["EHLO m\r\n".toList, "STARTTLS\r\n".toList], false))
    obtain ⟨hpoint, hs⟩ := Prod.mk.inj hs
    obtain ⟨hwrites, hannounced⟩ := Prod.mk.inj hs
    refine ⟨s, hrun, hwrites, hannounced, ?_⟩
    intro hproper
    rw [hproper.starttls hpoint] at hannounced
    cases hannounced

end SmtpSession
end Avbot
