import Avbot.Irc.Loops

/-!
# When a lost connection is noticed

The reader tells the main loop about a lost connection in one way only: it cancels the pops that wait in `messages_send_queue_` at that moment. `Link` keeps of a client what this depends on. Every step of the loops is a move of the link or the failure of its reader.
-/

namespace Avbot

open List Option EventMachine
open AsyncCoroQueue (asyncPop asyncPop_of_cons asyncPop_of_nil cancelWaiter cancele mWaitHandlers_eq_nil)
open IrcPosted (isMain ofMain)
open IrcClient (chatLine mainPosted putCommands putCommands_frame putMessages sendCommand_frame sendNick_frame)

/-- How the main loop stands to `messages_send_queue_`. -/
inductive Standing where
  /-- It has no connection. -/
  | away
  /-- It has one, and will pop when some delay is over. -/
  | busy
  /-- Its pop waits in the queue. -/
  | queued
  /-- Its pop is done, and its completion posted. -/
  | ready (ec : QueueError)
  | ended
  deriving DecidableEq

structure Link where
  standing : Standing
  reader : IrcReaderPoint
  quitting : Bool

namespace Link

inductive Move : Link → Link → Prop where
  | stay (l : Link) : Move l l
  | connect (r : IrcReaderPoint) : Move ⟨.away, r, false⟩ ⟨.busy, .reading, false⟩
  | wait (r : IrcReaderPoint) : Move ⟨.busy, r, false⟩ ⟨.queued, r, false⟩
  | take (r : IrcReaderPoint) : Move ⟨.busy, r, false⟩ ⟨.ready .success, r, false⟩
  | hand (r : IrcReaderPoint) (q : Bool) : Move ⟨.queued, r, q⟩ ⟨.ready .success, r, q⟩
  | send (r : IrcReaderPoint) : Move ⟨.ready .success, r, false⟩ ⟨.busy, r, false⟩
  | leave (r : IrcReaderPoint) : Move ⟨.ready .operationCanceled, r, false⟩ ⟨.away, r, false⟩
  | giveUp (s : Standing) (r : IrcReaderPoint) (q : Bool) : Move ⟨s, r, q⟩ ⟨.ended, r, q⟩
  | stop (s : Standing) (r : IrcReaderPoint) (q : Bool) : Move ⟨s, r, q⟩ ⟨s, r, true⟩

def fail (l : Link) : Link :=
  { l with
    standing := if l.standing = .queued then .ready .operationCanceled else l.standing
    reader := .failed }

structure Sound (l : Link) : Prop where
  away : l.standing = .away → l.reader ≠ .reading
  cancelled : l.standing = .ready .operationCanceled → l.reader = .failed

structure Told (l : Link) : Prop where
  queued : l.reader = .failed → l.standing ≠ .queued
  ready : l.reader = .failed → l.standing ≠ .ready .success
  busy : l.reader = .failed → l.standing = .busy → l.quitting = true

def Lost (l : Link) : Prop :=
  l.standing = .ended ∨
    l.reader = .failed ∧ (l.standing = .busy ∨ l.standing = .queued ∨ l.standing = .ready .success)

variable {l l' : Link}

theorem Move.sound (hmove : Move l l') (hl : l.Sound) : l'.Sound := by
  cases hmove with
  | stay => exact hl
  | leave r =>
    have hfailed := hl.cancelled rfl
    exact ⟨fun _ => by simp_all, by simp⟩
  | stop => exact ⟨hl.away, hl.cancelled⟩
  | _ => exact ⟨by simp, by simp⟩

theorem fail_sound (l : Link) : l.fail.Sound :=
  ⟨fun _ => by simp [fail], fun _ => rfl⟩

theorem told_of_not_failed (hreader : l.reader ≠ .failed) : l.Told :=
  ⟨fun h => absurd h hreader, fun h => absurd h hreader, fun h => absurd h hreader⟩

theorem Move.told (hmove : Move l l') (hl : l.Told) : l'.Told := by
  cases hmove with
  | stay => exact hl
  | connect => exact told_of_not_failed (by simp)
  | wait r => exact told_of_not_failed fun hfailed => by simpa using hl.busy hfailed rfl
  | take r => exact told_of_not_failed fun hfailed => by simpa using hl.busy hfailed rfl
  | hand r q => exact told_of_not_failed fun hfailed => hl.queued hfailed rfl
  | send r => exact told_of_not_failed fun hfailed => hl.ready hfailed rfl
  | leave r => exact ⟨by simp, by simp, by simp⟩
  | giveUp => exact ⟨by simp, by simp, by simp⟩
  | stop => exact ⟨hl.queued, hl.ready, fun _ _ => rfl⟩

theorem fail_told (htime : l.standing = .queued ∨ l.quitting = true ∧ ∀ ec, l.standing ≠ .ready ec) : l.fail.Told := by
  rcases htime with hqueued | ⟨hquitting, hready⟩
  · refine ⟨?_, ?_, ?_⟩ <;> simp [fail, hqueued]
  · refine ⟨?_, ?_, fun _ _ => hquitting⟩
    · grind [fail]
    · grind [fail]

theorem Move.lost (hmove : Move l l') (hl : l.Lost) : l'.Lost := by
  cases hmove with
  | stay => exact hl
  | giveUp => exact .inl rfl
  | stop => exact hl
  | connect r => simp [Lost] at hl
  | leave r => simp [Lost] at hl
  | _ => exact .inr ⟨by simpa [Lost] using hl, by simp⟩

theorem fail_lost (hreading : l.reader = .reading) (hl : l.Lost) : l.fail.Lost := by
  rcases hl with hended | ⟨hfailed, _⟩
  · exact .inl (by simp [fail, hended])
  · simp [hreading] at hfailed

end Link

/-! ### The loops refine the link -/

def IrcMainPoint.standing : IrcMainPoint → Standing
  | .starting | .connecting _ _ | .retrying | .closing => .away
  | .registering | .registered | .joining _ | .pausing => .busy
  | .popping => .queued
  | .ended | .threw _ => .ended

theorem IrcMainPoint.standing_ne_queued {p : IrcMainPoint} (hpopping : p ≠ .popping) : p.standing ≠ .queued := by
  cases p <;> simp_all [standing]

theorem IrcMainPoint.standing_ne_ready (p : IrcMainPoint) (ec : QueueError) : p.standing ≠ .ready ec := by
  cases p <;> simp [standing]

namespace IrcWorld

structure Pending (w : IrcWorld) (waiters : List (PopWaiter Unit)) (posted : List IrcPosted) : Prop where
  waiters : w.client.messagesSendQueue.mHandlers = waiters
  posted : w.client.mainPosted = posted

inductive Shows (w : IrcWorld) : Standing → Prop where
  | starting (hmain : w.main = .starting) (h : w.Pending [] [.start]) : Shows w .away
  | resting (hstarting : w.main ≠ .starting) (hpopping : w.main ≠ .popping) (h : w.Pending [] []) :
      Shows w w.main.standing
  | queued (hmain : w.main = .popping) (h : w.Pending [⟨false, ()⟩] []) : Shows w .queued
  | ready (hmain : w.main = .popping) (ec : QueueError) (message : Str)
      (h : w.Pending [] [.main ec message]) : Shows w (.ready ec)

def link (w : IrcWorld) (s : Standing) : Link := ⟨s, w.reader, w.client.quitting⟩

variable {w w' : IrcWorld} {s : Standing}

theorem Pending.of_eq {waiters : List (PopWaiter Unit)} {posted : List IrcPosted} (h : w.Pending waiters posted)
    (hmessages : w'.client.messagesSendQueue = w.client.messagesSendQueue)
    (hposted : w'.client.mainPosted = w.client.mainPosted) : w'.Pending waiters posted :=
  ⟨by rw [hmessages, h.waiters], hposted.trans h.posted⟩

theorem Shows.of_eq (hw : w.Shows s) (hmain : w'.main = w.main)
    (hmessages : w'.client.messagesSendQueue = w.client.messagesSendQueue)
    (hposted : w'.client.mainPosted = w.client.mainPosted) : w'.Shows s := by
  cases hw with
  | starting hstart h => exact .starting (hmain.trans hstart) (h.of_eq hmessages hposted)
  | resting hstarting hpopping h =>
    rw [← hmain] at hstarting hpopping ⊢
    exact .resting hstarting hpopping (h.of_eq hmessages hposted)
  | queued hpop h => exact .queued (hmain.trans hpop) (h.of_eq hmessages hposted)
  | ready hpop ec message h => exact .ready (hmain.trans hpop) ec message (h.of_eq hmessages hposted)

/-- From a world that stands at `s` to `w'` the link makes a move. -/
def Moves (w : IrcWorld) (s : Standing) (w' : IrcWorld) : Prop :=
  ∃ s', w'.Shows s' ∧ Link.Move (w.link s) (w'.link s')

theorem moves_of_frame (hw : w.Shows s) (hmain : w'.main = w.main) (hreader : w'.reader = w.reader)
    (hframe : w.client.Frame w'.client) : w.Moves s w' := by
  refine ⟨s, hw.of_eq hmain hframe.messages hframe.mainPosted, ?_⟩
  simp only [link, hreader, hframe.quitting]
  exact .stay _

/-! ### The queue of messages -/

variable {posted : List IrcPosted}

theorem putMessages_pending (hposted : w.client.mainPosted = posted)
    (r : AsyncCoroQueue Unit Empty Str × List (Completion Unit Empty Str)) (main : IrcMainPoint)
    (reader : IrcReaderPoint) :
    { w with client := w.client.putMessages r, main := main, reader := reader }.Pending
      r.1.mHandlers (posted ++ r.2.map ofMain) := by
  refine ⟨rfl, ?_⟩
  have hall : (r.2.map ofMain).filter isMain = r.2.map ofMain := by simp
  simp only [mainPosted, putMessages, filter_append, hall]
  rw [← hposted, mainPosted]

theorem Pending.push_idle (h : w.Pending [] posted) (value : Str) :
    { w with client := w.client.putMessages (w.client.messagesSendQueue.push value) }.Pending [] posted := by
  have hput := putMessages_pending h.posted (w.client.messagesSendQueue.push value) w.main w.reader
  rw [AsyncCoroQueue.push_of_no_waiter h.waiters, mWaitHandlers_eq_nil] at hput ⊢
  simpa [h.waiters] using hput

theorem Pending.push_waiting (h : w.Pending [⟨false, ()⟩] []) (value : Str) :
    { w with client := w.client.putMessages (w.client.messagesSendQueue.push value) }.Pending []
      [.main .success value] := by
  have hput := putMessages_pending h.posted (w.client.messagesSendQueue.push value) w.main w.reader
  rw [AsyncCoroQueue.push_of_waiter h.waiters rfl, mWaitHandlers_eq_nil] at hput ⊢
  simpa [ofMain] using hput

theorem chatLine_shows (whom msg : Str) (hw : w.Shows s) :
    ∃ s', { w with client := w.client.chatLine whom msg }.Shows s' ∧
      (s' = s ∨ s = .queued ∧ s' = .ready .success) := by
  unfold chatLine
  split
  · cases hw with
    | starting hmain h => exact ⟨_, .starting hmain (h.push_idle _), .inl rfl⟩
    | resting hstarting hpopping h => exact ⟨_, .resting hstarting hpopping (h.push_idle _), .inl rfl⟩
    | queued hmain h =>
      refine ⟨.ready .success, .ready ?_ .success _ (h.push_waiting _), .inr ⟨rfl, rfl⟩⟩
      exact hmain
    | ready hmain ec message h =>
      refine ⟨.ready ec, .ready ?_ ec message (h.push_idle _), .inl rfl⟩
      exact hmain
  · exact ⟨s, hw, .inl rfl⟩

theorem chatLines_shows (whom : Str) (msgs : List Str) (hw : w.Shows s) :
    ∃ s', { w with client := msgs.foldl (chatLine whom) w.client }.Shows s' ∧
      (s' = s ∨ s = .queued ∧ s' = .ready .success) := by
  induction msgs generalizing w s with
  | nil => exact ⟨s, hw, .inl rfl⟩
  | cons msg msgs ih =>
    obtain ⟨s₁, h₁, hs₁⟩ := chatLine_shows whom msg hw
    grind

theorem chatLines_quitting (whom : Str) (msgs : List Str) (c : IrcClient) :
    (msgs.foldl (chatLine whom) c).quitting = c.quitting := by
  induction msgs generalizing c with
  | nil => rfl
  | cons msg msgs ih =>
    rw [foldl_cons, ih]
    unfold chatLine
    split <;> rfl

theorem chat_moves (whom msg : Str) (hw : w.Shows s) : w.Moves s { w with client := w.client.chat whom msg } := by
  obtain ⟨s', hs', hstanding⟩ := chatLines_shows whom _ hw
  refine ⟨s', hs', ?_⟩
  simp only [link, IrcClient.chat, chatLines_quitting]
  rcases hstanding with rfl | ⟨rfl, rfl⟩
  · exact .stay _
  · exact .hand _ _

/-! ### The main loop -/

theorem popMessage_moves (h : w.Pending [] []) (hquitting : w.client.quitting = false) (hs : s = .busy) :
    w.Moves s w.popMessage := by
  subst hs
  have hput := putMessages_pending h.posted (w.client.messagesSendQueue.asyncPop ()) .popping w.reader
  cases hlist : w.client.messagesSendQueue.mList with
  | nil =>
    refine ⟨.queued, .queued rfl ?_, ?_⟩
    · rw [asyncPop_of_nil hlist] at hput
      simpa [popMessage, asyncPop_of_nil hlist, h.waiters] using hput
    · simp only [link, popMessage, putMessages, hquitting]
      exact .wait _
  | cons value rest =>
    refine ⟨.ready .success, .ready rfl .success value ?_, ?_⟩
    · rw [asyncPop_of_cons hlist] at hput
      simpa [popMessage, asyncPop_of_cons hlist, h.waiters, ofMain] using hput
    · simp only [link, popMessage, putMessages, hquitting]
      exact .take _

theorem moves_of_resting (h : w.Pending [] []) (hframe : w.client.Frame w'.client)
    (hstarting : w'.main ≠ .starting) (hpopping : w'.main ≠ .popping)
    (hmove : Link.Move (w.link s) (w'.link w'.main.standing)) : w.Moves s w' :=
  ⟨_, .resting hstarting hpopping (h.of_eq hframe.messages hframe.mainPosted), hmove⟩

theorem moves_ended (h : w.Pending [] []) : w.Moves s { w with main := .ended } :=
  moves_of_resting h (.refl _) (by simp) (by simp) (.giveUp _ _ _)

theorem tryConnect_moves (h : w.Pending [] []) (hs : s = .away) : w.Moves s w.tryConnect := by
  subst hs
  unfold tryConnect
  split
  · exact moves_ended h
  · split
    · exact moves_of_resting h (.refl _) (by simp) (by simp) (.giveUp _ _ _)
    · exact moves_of_resting h (.refl _) (by simp) (by simp) (.stay _)

theorem logIn_frame (w : IrcWorld) : w.client.Frame w.logIn.client := by
  have hclear := putCommands_frame { w.client with response := [] }
    w.client.ircCommandSendQueue.clear
  have hpop := hclear.trans (putCommands_frame _
    (asyncPop w.client.ircCommandSendQueue.clear.1 w.senders.length))
  have hlogin : ∀ c : IrcClient, c.Frame c.logIn := by
    intro c
    unfold IrcClient.logIn
    split
    · exact (sendCommand_frame c _).trans (sendNick_frame _)
    · exact sendNick_frame c
  have hall := hpop.trans (hlogin _)
  exact ⟨hall.messages, hall.mainPosted, hall.quitting⟩

theorem connected_moves (h : w.Pending [] []) (hquitting : w.client.quitting = false) (hs : s = .away)
    (ok : Bool) : w.Moves s (w.connected ok) := by
  subst hs
  unfold connected
  split
  · refine moves_of_resting h (logIn_frame w) (by simp [logIn]) (by simp [logIn]) ?_
    simp only [link, (logIn_frame w).quitting, hquitting]
    exact .connect _
  · exact moves_of_resting h ⟨rfl, rfl, rfl⟩ (by simp) (by simp) (.stay _)

theorem joinNext_moves (h : w.Pending [] []) (hquitting : w.client.quitting = false) (hs : s = .busy)
    (i : Nat) : w.Moves s (w.joinNext i) := by
  unfold joinNext
  split
  · subst hs
    exact moves_of_resting h (sendCommand_frame _ _) (by simp) (by simp) (.stay _)
  · exact popMessage_moves h hquitting hs

theorem popped_moves (h : w.Pending [] []) (hquitting : w.client.quitting = false) (ec : QueueError)
    (message : Str) : w.Moves (.ready ec) (w.popped ec message) := by
  cases ec with
  | success =>
    refine moves_of_resting h (sendCommand_frame _ _) (by simp [popped]) (by simp [popped]) ?_
    simp only [link, popped, IrcClient.sendCommand, putCommands, hquitting]
    exact .send _
  | operationCanceled =>
    refine moves_of_resting h (putCommands_frame _ _) (by simp [popped]) (by simp [popped]) ?_
    simp only [link, popped, putCommands, hquitting]
    exact .leave _

theorem unlessQuitting_moves (resume : IrcWorld → IrcWorld) (h : w.Pending [] [])
    (hresume : w.client.quitting = false → w.Moves s (resume w)) :
    w.Moves s (w.unlessQuitting resume) := by
  grind [unlessQuitting, moves_ended]

theorem Shows.at_rest (hw : w.Shows s) (hstarting : w.main ≠ .starting) (hpopping : w.main ≠ .popping) :
    s = w.main.standing ∧ w.Pending [] [] := by
  cases hw with
  | starting hmain h => exact absurd hmain hstarting
  | resting _ _ h => exact ⟨rfl, h⟩
  | queued hmain h => exact absurd hmain hpopping
  | ready hmain ec message h => exact absurd hmain hpopping

theorem closing_moves (h : w.Pending [] []) (hs : s = .away) :
    w.Moves s { w with
      client := { w.client with posted := w.client.posted ++ [.start] }, main := .starting } := by
  subst hs
  refine ⟨.away, .starting rfl ⟨h.waiters, ?_⟩, .stay _⟩
  have hposted : w.client.posted.filter isMain = [] := h.posted
  rw [mainPosted, filter_append, hposted]
  rfl

theorem delayed_moves (hw : w.Shows s) (hstep : w.delayed = some w') : w.Moves s (w.unlessQuitting fun _ => w') := by
  have hrest : w.main ≠ .starting ∧ w.main ≠ .popping := by
    grind [delayed]
  obtain ⟨hs, h⟩ := hw.at_rest hrest.1 hrest.2
  refine unlessQuitting_moves _ h fun hquitting => ?_
  unfold delayed at hstep
  split at hstep
  case h_7 => simp at hstep
  all_goals
    rename_i hmain
    rw [hmain] at hs
    obtain rfl := some.inj hstep
  · exact tryConnect_moves h hs
  · subst hs
    exact moves_of_resting h (.refl _) (by simp) (by simp) (.stay _)
  · exact joinNext_moves h hquitting hs 0
  · exact joinNext_moves h hquitting hs _
  · exact popMessage_moves h hquitting hs
  · exact closing_moves h hs

variable {p : IrcPosted} {rest : List IrcPosted} {e : IrcEvent} {P : Link → Prop}

theorem Shows.of_posted (hw : w.Shows s) (hposted : w.client.posted = p :: rest)
    (hp : p.isMain = true) : { w with client := { w.client with posted := rest } }.Pending [] [] ∧
      (p = .start ∧ s = .away ∨ ∃ ec message, p = .main ec message ∧ s = .ready ec) := by
  have hmain : w.client.mainPosted = p :: rest.filter isMain := by
    rw [mainPosted, hposted, filter_cons_of_pos hp]
  cases hw with
  | starting _ h =>
    obtain ⟨hstart, hrest⟩ := List.cons.inj (hmain.symm.trans h.posted)
    exact ⟨⟨h.waiters, hrest⟩, .inl ⟨hstart, rfl⟩⟩
  | resting _ _ h => exact absurd (hmain.symm.trans h.posted) (cons_ne_nil _ _)
  | queued _ h => exact absurd (hmain.symm.trans h.posted) (cons_ne_nil _ _)
  | ready _ ec message h =>
    obtain ⟨hpop, hrest⟩ := List.cons.inj (hmain.symm.trans h.posted)
    exact ⟨⟨h.waiters, hrest⟩, .inr ⟨ec, message, hpop, rfl⟩⟩

theorem runPosted_moves (hw : w.Shows s) (hposted : w.client.posted = p :: rest) :
    w.Moves s ({ w with client := { w.client with posted := rest } }.runPosted p) := by
  cases hp : p.isMain with
  | true =>
    obtain ⟨h, ⟨rfl, hs⟩ | ⟨ec, message, rfl, rfl⟩⟩ := hw.of_posted hposted hp
    · exact unlessQuitting_moves _ h fun _ => tryConnect_moves h hs
    · exact unlessQuitting_moves (fun w => w.popped ec message) h
        fun hquitting => popped_moves h hquitting ec message
  | false =>
    cases p with
    | sender i ec value =>
      refine moves_of_frame hw rfl rfl ⟨rfl, ?_, rfl⟩
      simp [runPosted, sendNext, mainPosted, hposted, isMain]
    | start => simp [isMain] at hp
    | main ec message => simp [isMain] at hp

/-! ### Every step -/

def Fails (w : IrcWorld) (s : Standing) (w' : IrcWorld) : Prop :=
  w.reader = .reading ∧ ∃ s', w'.Shows s' ∧ w'.link s' = (w.link s).fail

theorem readFailed_shows (hw : w.Shows s) :
    { w with
      client := w.client.putMessages w.client.messagesSendQueue.cancele
      reader := .failed }.Shows (if s = Standing.queued then .ready .operationCanceled else s) := by
  have hidle : ∀ posted, w.Pending [] posted → IrcWorld.Pending { w with
      client := w.client.putMessages w.client.messagesSendQueue.cancele, reader := .failed } [] posted := by
    intro posted h
    have hput := putMessages_pending h.posted w.client.messagesSendQueue.cancele w.main .failed
    rw [AsyncCoroQueue.cancele_of_no_waiter h.waiters] at hput ⊢
    simpa [h.waiters] using hput
  cases hw with
  | starting hmain h => exact .starting hmain (hidle _ h)
  | resting hstarting hpopping h =>
    rw [if_neg (IrcMainPoint.standing_ne_queued hpopping)]
    exact .resting hstarting hpopping (hidle _ h)
  | queued hmain h =>
    rw [if_pos rfl]
    refine .ready (by exact hmain) .operationCanceled default ?_
    have hput := putMessages_pending h.posted w.client.messagesSendQueue.cancele w.main .failed
    simpa [cancele, h.waiters, cancelWaiter, mWaitHandlers_eq_nil, ofMain] using hput
  | ready hmain ec message h =>
    rw [if_neg (by simp)]
    exact .ready (by exact hmain) ec message (hidle _ h)

theorem readFailed_fails (hw : w.Shows s) (hstep : w.step .readFailed = some w') : w.Fails s w' := by
  simp only [step] at hstep
  split at hstep
  · rename_i hreading
    obtain rfl := some.inj hstep
    exact ⟨hreading, _, readFailed_shows hw, rfl⟩
  · simp at hstep

theorem step_refines (hw : w.Shows s) (hstep : w.step e = some w') : w.Moves s w' ∨ e = .readFailed ∧ w.Fails s w' := by
  cases e with
  | dispatch =>
    simp only [step] at hstep
    split at hstep
    · simp at hstep
    · rename_i hposted
      obtain rfl := some.inj hstep
      exact .inl (runPosted_moves hw hposted)
  | connected ok =>
    simp only [step] at hstep
    split at hstep
    · rename_i hmain
      obtain rfl := some.inj hstep
      obtain ⟨hs, h⟩ := hw.at_rest (by simp [hmain]) (by simp [hmain])
      rw [hmain] at hs
      exact .inl (unlessQuitting_moves _ h fun hquitting => connected_moves h hquitting hs ok)
    · simp at hstep
  | timer =>
    obtain ⟨next, hnext, rfl⟩ := map_eq_some_iff.mp hstep
    exact .inl (delayed_moves hw hnext)
  | received arrived =>
    simp only [step] at hstep
    split at hstep
    · rename_i n _ _
      obtain rfl := some.inj hstep
      have hframe := IrcClient.processRequest_frame
        { w.client with response := w.client.response ++ arrived } (n + 2)
      exact .inl (moves_of_frame hw rfl rfl ⟨hframe.messages, hframe.mainPosted, hframe.quitting⟩)
    · simp at hstep
  | readFailed => exact .inr ⟨rfl, readFailed_fails hw hstep⟩
  | written i ok =>
    simp only [step] at hstep
    split at hstep
    · obtain rfl := some.inj hstep
      exact .inl (moves_of_frame hw rfl rfl (.refl _))
    · simp at hstep
  | senderTimer i =>
    simp only [step] at hstep
    split at hstep
    · obtain rfl := some.inj hstep
      exact .inl (moves_of_frame hw rfl rfl (putCommands_frame _ _))
    · simp at hstep
  | chat whom msg =>
    obtain rfl := some.inj hstep
    exact .inl (chat_moves whom msg hw)
  | join ch pwd =>
    obtain rfl := some.inj hstep
    exact .inl (moves_of_frame hw rfl rfl ⟨rfl, rfl, rfl⟩)
  | oper user pwd =>
    obtain rfl := some.inj hstep
    exact .inl (moves_of_frame hw rfl rfl (sendCommand_frame _ _))
  | stop =>
    obtain rfl := some.inj hstep
    exact .inl ⟨s, hw.of_eq rfl rfl rfl, .stop _ _ _⟩

/-! ### Runs -/

/-- The reader of the connection has failed while the main loop is suspended in its pop, and no cancellation is posted to it. -/
def Stranded (w : IrcWorld) : Prop :=
  w.reader = .failed ∧ w.main = .popping ∧
    ∀ message, IrcPosted.main .operationCanceled message ∉ w.client.posted

/-- A reader fails in time: while the pop of the main loop waits in the queue, or, once the client is being stopped, while the main loop does not pop. -/
def InTime (w : IrcWorld) : IrcEvent → Prop
  | .readFailed =>
    w.client.messagesSendQueue.mHandlers ≠ [] ∨ w.client.quitting = true ∧ w.main ≠ .popping
  | _ => True

instance decidableInTime (w : IrcWorld) : ∀ e, Decidable (w.InTime e)
  | .readFailed => inferInstanceAs (Decidable (_ ∨ _))
  | .dispatch | .connected _ | .timer | .received _ | .written _ _ | .senderTimer _ | .chat _ _
  | .join _ _ | .oper _ _ | .stop => isTrue trivial

/-- A world in which the link is sound and has the property `P`. -/
def Linked (P : Link → Prop) (w : IrcWorld) : Prop := ∃ s, w.Shows s ∧ (w.link s).Sound ∧ P (w.link s)

theorem start_linked {user pwd server : Str} {maxRetryCount : BitVec 32}
    (hP : P ⟨.away, .unstarted, false⟩) : (start user pwd server maxRetryCount).Linked P :=
  ⟨.away, .starting rfl ⟨rfl, rfl⟩, ⟨by simp [link, start], by simp [link]⟩, hP⟩

theorem InTime.link (hs : w.Shows s) (htime : w.InTime .readFailed) :
    s = .queued ∨ w.client.quitting = true ∧ ∀ ec, s ≠ .ready ec := by
  rcases htime with hwaiters | ⟨hquitting, hmain⟩
  · cases hs with
    | queued => exact .inl rfl
    | starting _ h => exact absurd h.waiters hwaiters
    | resting _ _ h => exact absurd h.waiters hwaiters
    | ready _ _ _ h => exact absurd h.waiters hwaiters
  · refine .inr ⟨hquitting, ?_⟩
    cases hs with
    | queued hpopping => exact absurd hpopping hmain
    | ready hpopping => exact absurd hpopping hmain
    | starting => simp
    | resting => exact IrcMainPoint.standing_ne_ready _

theorem fail_lost_of_late (hs : w.Shows s) (hsound : (w.link s).Sound) (hreading : w.reader = .reading)
    (hlate : ¬ w.InTime .readFailed) : (w.link s).fail.Lost := by
  have hqueued : s ≠ .queued := by
    cases hs with
    | starting => simp
    | resting _ hpopping => exact IrcMainPoint.standing_ne_queued hpopping
    | queued _ h => exact absurd (.inl (by simp [h.waiters])) hlate
    | ready => simp
  have haway : s ≠ .away := fun h => hsound.away h hreading
  have hcancelled : s ≠ .ready .operationCanceled := by
    intro h
    have hfailed : w.reader = .failed := hsound.cancelled h
    simp [hreading] at hfailed
  have hlost : s = .ended ∨ s = .busy ∨ s = .queued ∨ s = .ready .success := by
    cases s with
    | ready ec => cases ec <;> simp_all
    | _ => simp_all
  simpa [Link.Lost, Link.fail, link, hqueued] using hlost

theorem step_linked (hmove : ∀ l l', Link.Move l l' → P l → P l')
    (hfail : ∀ s, w.Shows s → w.reader = .reading → e = .readFailed → P (w.link s) → P (w.link s).fail)
    (hw : w.Linked P) (hstep : w.step e = some w') : w'.Linked P := by
  obtain ⟨s, hs, hsound, hP⟩ := hw
  rcases step_refines hs hstep with ⟨s', hs', hmoved⟩ | ⟨he, hreading, s', hs', hfailed⟩
  · exact ⟨s', hs', hmoved.sound hsound, hmove _ _ hmoved hP⟩
  · refine ⟨s', hs', ?_⟩
    grind [Link.fail_sound]

theorem step_told (hw : w.Linked Link.Told) (htime : w.InTime e)
    (hstep : w.step e = some w') : w'.Linked Link.Told := by
  refine step_linked (fun _ _ => Link.Move.told) ?_ hw hstep
  rintro s hs _ rfl _
  exact Link.fail_told (htime.link hs)

theorem step_lost (hw : w.Linked Link.Lost) (hstep : w.step e = some w') : w'.Linked Link.Lost :=
  step_linked (fun _ _ => Link.Move.lost) (fun _ _ hreading _ => Link.fail_lost hreading) hw hstep

theorem step_sound (hw : w.Linked fun _ => True) (hstep : w.step e = some w') : w'.Linked fun _ => True :=
  step_linked (fun _ _ _ _ => trivial) (fun _ _ _ _ _ => trivial) hw hstep

theorem Stranded.standing (hstranded : w.Stranded) (hs : w.Shows s) : s = .queued ∨ s = .ready .success := by
  obtain ⟨_, hmain, hposted⟩ := hstranded
  cases hs with
  | starting hstarting => simp [hmain] at hstarting
  | resting _ hpopping => exact absurd hmain hpopping
  | queued => exact .inl rfl
  | ready _ ec message h =>
    cases ec with
    | success => exact .inr rfl
    | operationCanceled =>
      have hmem : IrcPosted.main .operationCanceled message ∈ w.client.mainPosted := by
        simp [h.posted]
      exact absurd (mem_filter.mp hmem).1 (hposted message)

variable {user pwd server : Str} {maxRetryCount : BitVec 32} {es fs : List IrcEvent}

theorem run_sound (hrun : run step (start user pwd server maxRetryCount) es = some w) :
    ∃ s, w.Shows s ∧ (w.link s).Sound := by
  obtain ⟨s, hs, hsound, _⟩ := invariant_of_run (fun _ _ _ hs he => step_sound hs he)
    (start_linked trivial) hrun
  exact ⟨s, hs, hsound⟩

theorem lost_never_connects (hw : w.Linked Link.Lost) (hlater : run step w fs = some w')
    (host port : Str) : w'.main ≠ .connecting host port := by
  obtain ⟨s, hs, _, hlost⟩ := invariant_of_run (fun _ _ _ hs he => step_lost hs he) hw hlater
  intro hmain
  obtain ⟨rfl, _⟩ := hs.at_rest (by simp [hmain]) (by simp [hmain])
  simp [Link.Lost, link, hmain, IrcMainPoint.standing] at hlost

theorem late_never_connects (hrun : run step (start user pwd server maxRetryCount) es = some w)
    (hlate : ¬ w.InTime .readFailed) (hlater : run step w (.readFailed :: fs) = some w')
    (host port : Str) : w'.main ≠ .connecting host port := by
  obtain ⟨s, hs, hsound⟩ := run_sound hrun
  rw [run_cons] at hlater
  obtain ⟨next, hstep, hlater⟩ := bind_eq_some_iff.mp hlater
  obtain ⟨hreading, s', hs', hfail⟩ : w.Fails s next := readFailed_fails hs hstep
  refine lost_never_connects ⟨s', hs', ?_⟩ hlater host port
  grind [Link.fail_sound, fail_lost_of_late]

theorem late_never_connects_after_register :
    ∃ w', run step (start ['a'] [] ['h'] 3) [.dispatch, .connected true, .readFailed, .timer, .timer] = some w' ∧
      w'.main ≠ .connecting ['h'] "6667".toList := by
  have hrun : run step (start ['a'] [] ['h'] 3) [.dispatch, .connected true] = some _ := rfl
  exact ⟨_, rfl, late_never_connects hrun (by decide) (show run step _ [.readFailed, .timer, .timer] = _ from rfl) _ _⟩

/-- In a run in which every reader fails in time no state is stranded. -/
theorem run_not_stranded (htime : Meets step InTime (start user pwd server maxRetryCount) es)
    (hrun : run step (start user pwd server maxRetryCount) es = some w) : ¬ w.Stranded := by
  have hstart : (start user pwd server maxRetryCount).Linked Link.Told :=
    start_linked (Link.told_of_not_failed (by simp))
  obtain ⟨s, hs, _, htold⟩ :=
    invariant_of_meets (fun _ _ _ hs htime he => step_told hs htime he) hstart htime hrun
  intro hstranded
  rcases hstranded.standing hs with rfl | rfl
  · exact htold.queued hstranded.1 rfl
  · exact htold.ready hstranded.1 rfl

/-- The server closes the connection while the main loop waits for a message, and the client connects again. -/
theorem run_not_stranded_while_waiting :
    let es : List IrcEvent := [.dispatch, .connected true, .timer, .timer, .readFailed, .dispatch,
      .dispatch, .timer, .dispatch]
    ∃ w, run step (start ['a'] [] ['h'] 3) es = some w ∧ w.main = .connecting ['h'] "6667".toList ∧
      Meets step InTime (start ['a'] [] ['h'] 3) es ∧ ¬ w.Stranded := by
  intro es
  have htime : Meets step InTime (start ['a'] [] ['h'] 3) es := by decide
  have hrun : run step (start ['a'] [] ['h'] 3) es = some _ := rfl
  exact ⟨_, hrun, rfl, htime, run_not_stranded htime hrun⟩

/-- The server closes the connection while the client registers, and the main loop then waits for a message with its connection gone. -/
theorem stranded_after_register :
    ∃ w, run step (start ['a'] [] ['h'] 3)
        [.dispatch, .connected true, .readFailed, .timer, .timer] = some w ∧
      w.client.messagesSendQueue.mHandlers = [⟨false, ()⟩] ∧
      w.client.posted = [.sender 0 .success "NICK a\r\n".toList] ∧ w.Stranded := by
  obtain ⟨w, hrun, hwaiters, hposted, hreader, hmain⟩ : ∃ w, run step (start ['a'] [] ['h'] 3)
      [.dispatch, .connected true, .readFailed, .timer, .timer] = some w ∧
      w.client.messagesSendQueue.mHandlers = [⟨false, ()⟩] ∧
      w.client.posted = [.sender 0 .success "NICK a\r\n".toList] ∧
      w.reader = .failed ∧ w.main = .popping := ⟨_, rfl, rfl, rfl, rfl, rfl⟩
  refine ⟨w, hrun, hwaiters, hposted, hreader, hmain, ?_⟩
  intro message
  simp [hposted]

end IrcWorld

end Avbot
