import Avbot.Base.StringAlgo
import Avbot.Queue.AsyncCoroQueue

/-!
# The IRC client

What the three loops of a connection share: the two queues, the lines read so far, the channels to join, the counters. What the functions post to the `io_service` is appended to `posted`.
-/

namespace Avbot

/-- `irc::irc_msg`; `fromRoom` is its member `from`. -/
structure IrcMsg where
  whom : Str
  fromRoom : Str
  locate : Str
  msg : Str
  deriving DecidableEq

/-- A handler posted to the `io_service`: the start of a main loop, or the completion of a pop by the main loop or by the sender loop number `i`. -/
inductive IrcPosted where
  | start
  | main (ec : QueueError) (message : Str)
  | sender (i : Nat) (ec : QueueError) (value : Str)
  deriving DecidableEq

namespace IrcPosted

def ofMain : Completion Unit Empty Str → IrcPosted
  | .pop _ ec message => .main ec message

def ofSender : Completion Nat Empty Str → IrcPosted
  | .pop i ec value => .sender i ec value

def isMain : IrcPosted → Bool
  | .start | .main _ _ => true
  | .sender _ _ _ => false

@[simp] theorem isMain_ofMain (c : Completion Unit Empty Str) : (ofMain c).isMain = true := by
  cases c with
  | pop => rfl
  | wait h => exact h.elim

@[simp] theorem isMain_ofSender (c : Completion Nat Empty Str) : (ofSender c).isMain = false := by
  cases c with
  | pop => rfl
  | wait h => exact h.elim

end IrcPosted

structure IrcClient where
  user : Str
  pwd : Str
  server : Str
  response : Str
  cb : List IrcMsg
  joinQueue : List Str
  retryCount : BitVec 32
  cRetryCuont : BitVec 32
  quitting : Bool
  ircCommandSendQueue : AsyncCoroQueue Nat Empty Str
  messagesSendQueue : AsyncCoroQueue Unit Empty Str
  posted : List IrcPosted
  deriving DecidableEq

/-- The groups of the expression for a `PING`: the first word after the command. -/
def matchPing (req : Str) : Option Str := do
  let rest ← "PING ".toList.isPrefixOf? req
  let word := rest.takeWhile (· ≠ ' ')
  if word = [] then none else some word

/-- The groups of the expression for a `PRIVMSG`. None of the classes before `(.*)` contains the character that has to follow it. -/
def matchPrivmsg (req : Str) : Option IrcMsg := do
  let rest ← [':'].isPrefixOf? req
  let whom := rest.takeWhile (· ≠ '!')
  let rest ← ['!'].isPrefixOf? (rest.dropWhile (· ≠ '!'))
  let locate := rest.takeWhile (· ≠ ' ')
  let rest ← " PRIVMSG ".toList.isPrefixOf? (rest.dropWhile (· ≠ ' '))
  let fromRoom := rest.takeWhile (· ≠ ' ')
  let msg ← " :".toList.isPrefixOf? (rest.dropWhile (· ≠ ' '))
  if whom = [] ∨ locate = [] ∨ fromRoom = [] then none else some ⟨whom, fromRoom, locate, msg⟩

namespace IrcClient

def new (user pwd server : Str) (maxRetryCount : BitVec 32) : IrcClient :=
  { user := user, pwd := pwd, server := server, response := [], cb := [], joinQueue := []
    retryCount := maxRetryCount, cRetryCuont := 0, quitting := false
    ircCommandSendQueue := .new (.circularBuffer 200)
    messagesSendQueue := .new (.circularBuffer 50), posted := [] }

def putMessages (c : IrcClient) (r : AsyncCoroQueue Unit Empty Str × List (Completion Unit Empty Str)) : IrcClient :=
  { c with messagesSendQueue := r.1, posted := c.posted ++ r.2.map .ofMain }

def putCommands (c : IrcClient) (r : AsyncCoroQueue Nat Empty Str × List (Completion Nat Empty Str)) : IrcClient :=
  { c with ircCommandSendQueue := r.1, posted := c.posted ++ r.2.map .ofSender }

def sendCommand (c : IrcClient) (cmd : Str) : IrcClient :=
  c.putCommands (c.ircCommandSendQueue.push (cmd ++ Str.crlf))

def join (c : IrcClient) (ch pwd : Str) : IrcClient :=
  let msg := if pwd = [] then "JOIN ".toList ++ ch else "JOIN ".toList ++ ch ++ " ".toList ++ pwd
  { c with joinQueue := c.joinQueue ++ [msg] }

def chatLine (whom : Str) (c : IrcClient) (msg : Str) : IrcClient :=
  if msg.length > 0 then
    c.putMessages (c.messagesSendQueue.push ("PRIVMSG ".toList ++ whom ++ " :".toList ++ msg))
  else c

def chat (c : IrcClient) (whom msg : Str) : IrcClient :=
  (msg.splitOnP fun ch => ch = '\r' || ch = '\n').foldl (chatLine whom) c

def oper (c : IrcClient) (user pwd : Str) : IrcClient :=
  c.sendCommand ("OPER ".toList ++ user ++ " ".toList ++ pwd)

def stop (c : IrcClient) : IrcClient := { c with quitting := true }

def sendNick (c : IrcClient) : IrcClient :=
  (c.sendCommand ("NICK ".toList ++ c.user)).sendCommand
    ("USER ".toList ++ c.user ++ " 0 * ".toList ++ c.user)

def nickInUse : Str := "Nickname is already in use.".toList

def processLine (c : IrcClient) (req : Str) : IrcClient :=
  if (Str.find? nickInUse req).isSome then
    let c := { c with user := c.user ++ ['_'] }.sendNick
    c.joinQueue.foldl sendCommand c
  else
    match matchPing req with
    | some word => c.sendCommand ("PONG ".toList ++ word)
    | none =>
      match matchPrivmsg req with
      | some m => { c with cb := c.cb ++ [m], cRetryCuont := 0 }
      | none => c

def processRequest (c : IrcClient) (bytesTransferred : Nat) : IrcClient :=
  let req := c.response.take bytesTransferred
  { c with response := c.response.drop bytesTransferred }.processLine (req.take (bytesTransferred - 2))

def mainPosted (c : IrcClient) : List IrcPosted := c.posted.filter IrcPosted.isMain

/-- The main loop sees no difference between `c` and `c'`: same messages, same posts, same flag. -/
structure Frame (c c' : IrcClient) : Prop where
  messages : c'.messagesSendQueue = c.messagesSendQueue
  mainPosted : c'.mainPosted = c.mainPosted
  quitting : c'.quitting = c.quitting

variable (c : IrcClient)

theorem Frame.refl : Frame c c := ⟨rfl, rfl, rfl⟩

theorem Frame.trans {a b c : IrcClient} (hab : Frame a b) (hbc : Frame b c) : Frame a c :=
  ⟨hbc.messages.trans hab.messages, hbc.mainPosted.trans hab.mainPosted,
    hbc.quitting.trans hab.quitting⟩

theorem putCommands_frame (r : AsyncCoroQueue Nat Empty Str × List (Completion Nat Empty Str)) :
    Frame c (c.putCommands r) := by
  refine ⟨rfl, ?_, rfl⟩
  have hnone : (r.2.map IrcPosted.ofSender).filter IrcPosted.isMain = [] := by simp
  simp only [IrcClient.mainPosted, putCommands, List.filter_append, hnone, List.append_nil]

theorem sendCommand_frame (cmd : Str) : Frame c (c.sendCommand cmd) :=
  putCommands_frame c _

theorem sendNick_frame : Frame c c.sendNick :=
  (sendCommand_frame c _).trans (sendCommand_frame _ _)

theorem sendCommands_frame (cmds : List Str) (c : IrcClient) : Frame c (cmds.foldl sendCommand c) := by
  induction cmds generalizing c with
  | nil => exact .refl c
  | cons cmd cmds ih => exact (sendCommand_frame c cmd).trans (ih _)

theorem processLine_frame (req : Str) : Frame c (c.processLine req) := by
  unfold processLine
  split
  · have hnick := sendNick_frame { c with user := c.user ++ ['_'] }
    have hall := hnick.trans (sendCommands_frame c.joinQueue _)
    exact ⟨hall.messages, hall.mainPosted, hall.quitting⟩
  · split
    · exact sendCommand_frame c _
    · split
      · exact ⟨rfl, rfl, rfl⟩
      · exact .refl c

theorem processRequest_frame (n : Nat) : Frame c (c.processRequest n) := by
  have h := processLine_frame { c with response := c.response.drop n } ((c.response.take n).take (n - 2))
  exact ⟨h.messages, h.mainPosted, h.quitting⟩

end IrcClient

end Avbot
