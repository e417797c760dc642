import Avbot.Bot.Channels
import Avbot.Lib.EventMachine
import Avbot.Mail.Pop3

/-!
# What becomes of a mail

The bot fetches mail with `callback_on_mail` as the handler, which posts the answer for the POP3 loop and then makes the tree of a message from the mail.
-/

namespace Avbot

open EventMachine PropertyTree

/-- The tree below `message`. The content type is a path, with dots between its parts. -/
def mailText (mail : MailContent) : Ptree :=
  (default : Ptree).add ((mail.contentType.splitOn '.').map String.ofList) mail.content

def mailMessage (bot : Bot) (mail : MailContent) : Ptree :=
  let message := (default : Ptree).add ["protocol"] "mail".toList
  let message := message.put ["channel"] (bot.getChannelName "mail".toList)
  let message := message.add ["from"] mail.mailFrom
  let message := message.add ["to"] mail.mailTo
  let message := message.add ["subject"] mail.subject
  message.addChild ["message"] (mailText mail)

/-- A run of `callback_on_mail`: what it posts to the POP3 loop, the tree it makes, and what it passes to `on_message`. -/
structure MailCall where
  continuation : Bool
  message : Ptree
  onMessage : List Ptree

/-- The tree is made and dropped: nothing is passed to `on_message`. -/
def callbackOnMail (bot : Bot) (isOnline : Bool) (mail : MailContent) : Except Exn MailCall :=
  match bot.mQqAccount with
  | none => .error .nullPointer
  | some _ => .ok ⟨isOnline, mailMessage bot mail, []⟩

structure MailWorld where
  pop3 : Pop3
  continuation : Option Bool
  onMessage : List Ptree

inductive MailEvent where
  | pop3 (e : Pop3Event)
  /-- The posted `broadcast_signal` runs. It finds this bot, and this answer of `is_online`. -/
  | broadcast (bot : Bot) (isOnline : Bool)
  | resume

namespace MailWorld

variable (imf : Str → Except Exn MailContent)

def step (w : MailWorld) : MailEvent → Option MailWorld
  | .pop3 (.continued _) => none
  | .pop3 e => (w.pop3.step imf e).map fun p => { w with pop3 := p }
  | .broadcast bot isOnline =>
    match w.pop3.point, w.continuation with
    | .mail mail, none =>
      match callbackOnMail bot isOnline mail with
      | .error e => some { w with pop3 := { w.pop3 with point := .threw e } }
      | .ok call =>
        some { w with
          continuation := some call.continuation
          onMessage := w.onMessage ++ call.onMessage }
    | _, _ => none
  | .resume =>
    match w.continuation with
    | none => none
    | some answer =>
      (w.pop3.step imf (.continued answer.toNat)).map fun p =>
        { w with pop3 := p, continuation := none }

def start (user passwd mailserver : Str) : MailWorld := ⟨.new user passwd mailserver, none, []⟩

structure Carries (message : Ptree) (mail : MailContent) : Prop where
  mailFrom : message.get? ["from"] = some mail.mailFrom
  mailTo : message.get? ["to"] = some mail.mailTo
  subject : message.get? ["subject"] = some mail.subject
  content : message.getChild? ["message"] = some (mailText mail)

def PassedOn (w : MailWorld) : Prop :=
  ∀ mail ∈ w.pop3.deleted, ∃ message ∈ w.onMessage, Carries message mail

def Offline : MailEvent → Prop
  | .broadcast bot isOnline => bot.mQqAccount.isSome → isOnline = false
  | _ => True

instance decidableOffline : ∀ e, Decidable (Offline e)
  | .broadcast bot isOnline => inferInstanceAs (Decidable (bot.mQqAccount.isSome = true → isOnline = false))
  | .pop3 _ | .resume => isTrue trivial

variable {imf} {w w' : MailWorld}

def Spent (w : MailWorld) : Prop := w.pop3.deleted ≠ [] ∨ w.continuation = some true

theorem pop3_keeps {e : Pop3Event} (hstep : w.step imf (.pop3 e) = some w') :
    w'.onMessage = w.onMessage ∧ w'.pop3.deleted = w.pop3.deleted ∧
      w'.continuation = w.continuation := by
  have he : ∀ n, e ≠ .continued n := by
    rintro n rfl
    simp [step] at hstep
  obtain ⟨p, hp, rfl⟩ : ∃ p, w.pop3.step imf e = some p ∧ { w with pop3 := p } = w' := by
    cases e <;> simp_all [step]
  exact ⟨rfl, Pop3.step_deleted hp he, rfl⟩

theorem broadcast_answers {bot : Bot} {isOnline : Bool} (hstep : w.step imf (.broadcast bot isOnline) = some w') :
    w'.onMessage = w.onMessage ∧ w'.pop3.deleted = w.pop3.deleted ∧ w.continuation = none ∧
      w'.continuation = if bot.mQqAccount.isSome then some isOnline else none := by
  simp only [step] at hstep
  split at hstep
  · rename_i hpending
    cases haccount : bot.mQqAccount with
    | none =>
      grind [callbackOnMail]
    | some account =>
      grind [callbackOnMail]
  · simp at hstep

theorem resume_deletes (hstep : w.step imf .resume = some w') :
    w'.onMessage = w.onMessage ∧ w'.continuation = none ∧
      ∃ mail, w'.pop3.deleted = w.pop3.deleted ++ if w.continuation = some true then [mail] else [] := by
  cases hanswer : w.continuation with
  | none => simp [step, hanswer] at hstep
  | some answer =>
    simp only [step, hanswer] at hstep
    obtain ⟨p, hp, rfl⟩ := Option.map_eq_some_iff.mp hstep
    refine ⟨rfl, rfl, ?_⟩
    simp only [Pop3.step] at hp
    split at hp
    · rename_i mail _
      obtain rfl := Option.some.inj hp
      refine ⟨mail, ?_⟩
      cases answer with
      | false => simp [Pop3.onContinued]
      | true => rfl
    · simp at hp

variable {e : MailEvent} {es : List MailEvent}

theorem step_onMessage (hstep : w.step imf e = some w') : w'.onMessage = w.onMessage := by
  cases e with
  | pop3 e => exact (pop3_keeps hstep).1
  | broadcast bot isOnline => exact (broadcast_answers hstep).1
  | resume => exact (resume_deletes hstep).1

theorem run_onMessage (hrun : run (step imf) w es = some w') : w'.onMessage = w.onMessage := by
  have hkeeps : ∀ (s : MailWorld) e s', s.onMessage = w.onMessage → s.step imf e = some s' →
      s'.onMessage = w.onMessage := fun s e s' hs he => (step_onMessage he).trans hs
  exact invariant_of_run hkeeps rfl hrun

theorem step_spent_iff (hw : ¬ w.Spent) (hstep : w.step imf e = some w') :
    Offline e ∧ ¬ w'.Spent ∨ ¬ Offline e ∧ w'.Spent := by
  unfold Spent at hw ⊢
  cases e with
  | pop3 e =>
    obtain ⟨_, hdeleted, hanswer⟩ := pop3_keeps hstep
    rw [hdeleted, hanswer]
    exact .inl ⟨trivial, hw⟩
  | broadcast bot isOnline =>
    obtain ⟨_, hdeleted, _, hanswer⟩ := broadcast_answers hstep
    grind [Offline]
  | resume =>
    obtain ⟨_, hanswer, mail, hdeleted⟩ := resume_deletes hstep
    refine .inl ⟨trivial, ?_⟩
    grind

theorem step_spent (hw : w.Spent) (hstep : w.step imf e = some w') : w'.Spent := by
  unfold Spent at hw ⊢
  cases e with
  | pop3 e =>
    obtain ⟨_, hdeleted, hanswer⟩ := pop3_keeps hstep
    rwa [hdeleted, hanswer]
  | broadcast bot isOnline =>
    obtain ⟨_, hdeleted, hpending, _⟩ := broadcast_answers hstep
    grind
  | resume =>
    obtain ⟨_, _, mail, hdeleted⟩ := resume_deletes hstep
    rw [hdeleted]
    refine .inl ?_
    rcases hw with h | h
    · simp [h]
    · simp [h]

theorem start_not_spent (user passwd mailserver : Str) : ¬ (start user passwd mailserver).Spent := by
  rintro (h | h)
  · exact h rfl
  · exact absurd h (by simp [start])

theorem run_spent_iff (hw : ¬ w.Spent)
    (hrun : run (step imf) w es = some w') : ¬ w'.Spent ↔ Meets (step imf) (fun _ => Offline) w es :=
  meets_iff_of_run (fun _ _ _ hs he => step_spent_iff hs he) (fun _ _ _ hs he => step_spent hs he)
    (fun _ hs => hs) (fun _ hs => not_not.mpr hs) hw hrun

theorem passedOn_iff_deleted_eq_nil (hsilent : w.onMessage = []) : w.PassedOn ↔ w.pop3.deleted = [] := by
  constructor
  · intro hpassed
    by_contra hdeleted
    obtain ⟨mail, hmail⟩ := List.exists_mem_of_ne_nil _ hdeleted
    obtain ⟨message, hmessage, _⟩ := hpassed mail hmail
    simp [hsilent] at hmessage
  · intro hdeleted mail hmail
    simp [hdeleted] at hmail

/-- If QQ is never online when a mail comes to the handler, no mail is deleted. In every other run that does not stop before the answer of the handler, one has been deleted and passed to nobody. -/
theorem passedOn_of_offline {user passwd mailserver : Str} {es : List MailEvent}
    (hrun : run (step imf) (start user passwd mailserver) es = some w) :
    (Meets (step imf) (fun _ => Offline) (start user passwd mailserver) es → w.PassedOn) ∧
      (w.continuation = none → w.PassedOn →
        Meets (step imf) (fun _ => Offline) (start user passwd mailserver) es) := by
  have hpassed := passedOn_iff_deleted_eq_nil (run_onMessage hrun)
  have hspent := run_spent_iff (start_not_spent user passwd mailserver) hrun
  constructor
  · intro hoffline
    rw [hpassed]
    by_contra hdeleted
    exact hspent.mpr hoffline (.inl hdeleted)
  · intro hpending h
    refine hspent.mp ?_
    rintro (hdeleted | hanswer)
    · exact hdeleted (hpassed.mp h)
    · simp [hpending] at hanswer

def fetchOne : List MailEvent :=
  [.pop3 .start, .pop3 .timer, .pop3 (.connected false), .pop3 (.read false "+OK ready\r\n".toList),
    .pop3 (.written false 0), .pop3 (.read false "+OK\r\n".toList),
    .pop3 (.written false 0), .pop3 (.read false "+OK\r\n".toList),
    .pop3 (.written false 0), .pop3 (.read false "+OK\r\n".toList),
    .pop3 (.read false "1 38\r\n.\r\n".toList),
    .pop3 (.written false 0), .pop3 (.read false "+OK 38 octets\r\n".toList),
    .pop3 (.read false "from: a@b\r\nto: c@d\r\nsubject: hi\r\n\r\nx\r\n.\r\n".toList)]

def onlyMail : MailContent :=
  ⟨"a@b".toList, "c@d".toList, "hi".toList, "text/plain".toList, "x\r\n.\r\n\n".toList⟩

def qqBot : Bot := { Bot.new with mQqAccount := some .empty }

theorem passedOn_while_offline :
    ∃ w, run (step fun _ => .ok onlyMail) (start ['u'] ['p'] ['h'])
        (fetchOne ++ [.broadcast qqBot false, .resume]) = some w ∧
      w.pop3.mWritebuf = "quit\n".toList ∧ w.PassedOn := by
  obtain ⟨w, hrun, hquit⟩ : ∃ w, run (step fun _ => .ok onlyMail) (start ['u'] ['p'] ['h'])
      (fetchOne ++ [.broadcast qqBot false, .resume]) = some w ∧
      w.pop3.mWritebuf = "quit\n".toList := ⟨_, rfl, rfl⟩
  exact ⟨w, hrun, hquit, (passedOn_of_offline hrun).1 (by decide)⟩

/-- QQ is online: the mail is deleted from the server, and nobody has been told of it. -/
theorem deleted_unread :
    ∃ w, run (step fun _ => .ok onlyMail) (start ['u'] ['p'] ['h'])
        (fetchOne ++ [.broadcast qqBot true, .resume]) = some w ∧
      w.pop3.mWritebuf = "dele 1\r\n".toList ∧ w.pop3.deleted = [onlyMail] ∧ w.onMessage = [] ∧
      ¬ w.PassedOn := by
  obtain ⟨w, hrun, hdele, hdeleted, hsilent⟩ :
      ∃ w, run (step fun _ => .ok onlyMail) (start ['u'] ['p'] ['h'])
        (fetchOne ++ [.broadcast qqBot true, .resume]) = some w ∧
      w.pop3.mWritebuf = "dele 1\r\n".toList ∧ w.pop3.deleted = [onlyMail] ∧ w.onMessage = [] :=
    ⟨_, rfl, rfl, rfl, rfl⟩
  refine ⟨w, hrun, hdele, hdeleted, hsilent, ?_⟩
  intro hpassed
  obtain ⟨message, hmessage, _⟩ := hpassed onlyMail (by simp [hdeleted])
  simp [hsilent] at hmessage

end MailWorld

end Avbot
