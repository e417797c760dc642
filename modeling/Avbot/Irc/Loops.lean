import Avbot.Irc.Client
import Avbot.Lib.EventMachine

/-!
# The three loops of the IRC client

A connection is served by three coroutines: the main loop, the reader and the sender. They run one at a time, so a step of the machine is one resumption: a completion of the socket, a timer, or the first handler posted to the `io_service`. The events may come in any order.

Senders are numbered, since one may outlive its connection. A reader cannot, as `Avbot.Irc.Reconnect` proves, so one field is enough.
-/

namespace Avbot

open EventMachine

inductive IrcMainPoint where
  | starting
  | connecting (server port : Str)
  /-- 15 s after a failed connect. -/
  | retrying
  /-- 2 s after `NICK` and `USER`. -/
  | registering
  /-- Another 5 s. -/
  | registered
  /-- 2 s after the channel number `i`. -/
  | joining (i : Nat)
  | popping
  /-- 488 ms after a message. -/
  | pausing
  /-- 20 s after the connection was lost. -/
  | closing
  | ended
  | threw (e : Exn)
  deriving DecidableEq

inductive IrcReaderPoint where
  | unstarted
  | reading
  | failed
  deriving DecidableEq

inductive IrcSenderPoint where
  | popping
  | writing (value : Str)
  /-- 468 ms after a command. -/
  | pausing
  | ended
  deriving DecidableEq

structure IrcWorld where
  client : IrcClient
  main : IrcMainPoint
  reader : IrcReaderPoint
  senders : List IrcSenderPoint
  deriving DecidableEq

inductive IrcEvent where
  | dispatch
  | connected (ok : Bool)
  | timer
  | received (arrived : Str)
  | readFailed
  | written (i : Nat) (ok : Bool)
  | senderTimer (i : Nat)
  | chat (whom msg : Str)
  | join (ch pwd : Str)
  | oper (user pwd : Str)
  | stop

/-- The server and the port in `server_`, by the expression of `async_connect_irc`. -/
def matchServer (server : Str) : Except Exn (Str × Str) :=
  let isHost (c : Char) : Bool := c.isAlphanum || c = '.'
  let host := server.takeWhile isHost
  if host = [] then .error .invalidArgument
  else
    match server.dropWhile isHost with
    | [] => .ok (host, "6667".toList)
    | c :: port =>
      if c = ':' ∧ port ≠ [] ∧ port.all Char.isDigit then .ok (host, port)
      else .error .invalidArgument

namespace IrcClient

def logIn (c : IrcClient) : IrcClient :=
  (if c.pwd ≠ [] then c.sendCommand ("PASS ".toList ++ c.pwd) else c).sendNick

end IrcClient

namespace IrcWorld

def tryConnect (w : IrcWorld) : IrcWorld :=
  if w.client.cRetryCuont.toNat > w.client.retryCount.toNat then { w with main := .ended }
  else
    match matchServer w.client.server with
    | .error e => { w with main := .threw e }
    | .ok (server, port) => { w with main := .connecting server port }

def startSender (w : IrcWorld) : IrcWorld :=
  { w with
    client := w.client.putCommands (w.client.ircCommandSendQueue.asyncPop w.senders.length)
    senders := w.senders ++ [.popping] }

def logIn (w : IrcWorld) : IrcWorld :=
  let client := { w.client with response := [] }
  let client := client.putCommands client.ircCommandSendQueue.clear
  let w := { w with client := client, reader := .reading }.startSender
  { w with client := w.client.logIn, main := .registering }

def popMessage (w : IrcWorld) : IrcWorld :=
  { w with
    client := w.client.putMessages (w.client.messagesSendQueue.asyncPop ())
    main := .popping }

def joinNext (w : IrcWorld) (i : Nat) : IrcWorld :=
  match w.client.joinQueue[i]? with
  | some cmd => { w with client := w.client.sendCommand cmd, main := .joining i }
  | none => w.popMessage

def popped (w : IrcWorld) (ec : QueueError) (message : Str) : IrcWorld :=
  match ec with
  | .success => { w with client := w.client.sendCommand message, main := .pausing }
  | .operationCanceled =>
    { w with client := w.client.putCommands w.client.ircCommandSendQueue.cancele, main := .closing }

def connected (w : IrcWorld) (ok : Bool) : IrcWorld :=
  if ok then w.logIn
  else
    { w with client := { w.client with cRetryCuont := w.client.cRetryCuont + 1 }, main := .retrying }

def delayed (w : IrcWorld) : Option IrcWorld :=
  match w.main with
  | .retrying => some w.tryConnect
  | .registering => some { w with main := .registered }
  | .registered => some (w.joinNext 0)
  | .joining i => some (w.joinNext (i + 1))
  | .pausing => some w.popMessage
  | .closing =>
    some { w with client := { w.client with posted := w.client.posted ++ [.start] }, main := .starting }
  | _ => none

def unlessQuitting (w : IrcWorld) (resume : IrcWorld → IrcWorld) : IrcWorld :=
  if w.client.quitting then { w with main := .ended } else resume w

def sendNext (w : IrcWorld) (i : Nat) (ec : QueueError) (value : Str) : IrcWorld :=
  let point : IrcSenderPoint :=
    if !w.client.quitting && decide (ec ≠ .operationCanceled) then .writing value else .ended
  { w with senders := w.senders.set i point }

def runPosted (w : IrcWorld) : IrcPosted → IrcWorld
  | .start => w.unlessQuitting tryConnect
  | .main ec message => w.unlessQuitting fun w => w.popped ec message
  | .sender i ec value => w.sendNext i ec value

def step (w : IrcWorld) : IrcEvent → Option IrcWorld
  | .dispatch =>
    match w.client.posted with
    | [] => none
    | p :: rest => some ({ w with client := { w.client with posted := rest } }.runPosted p)
  | .connected ok =>
    match w.main with
    | .connecting _ _ => some (w.unlessQuitting fun w => w.connected ok)
    | _ => none
  | .timer => w.delayed.map fun w' => w.unlessQuitting fun _ => w'
  | .received arrived =>
    match w.reader, Str.find? Str.crlf (w.client.response ++ arrived) with
    | .reading, some n =>
      let client := { w.client with response := w.client.response ++ arrived }
      some { w with client := client.processRequest (n + 2) }
    | _, _ => none
  | .readFailed =>
    match w.reader with
    | .reading =>
      some { w with
        client := w.client.putMessages w.client.messagesSendQueue.cancele
        reader := .failed }
    | _ => none
  | .written i ok =>
    match w.senders[i]? with
    | some (.writing _) => some { w with senders := w.senders.set i (if ok then .pausing else .ended) }
    | _ => none
  | .senderTimer i =>
    match w.senders[i]? with
    | some .pausing =>
      some { w with
        client := w.client.putCommands (w.client.ircCommandSendQueue.asyncPop i)
        senders := w.senders.set i .popping }
    | _ => none
  | .chat whom msg => some { w with client := w.client.chat whom msg }
  | .join ch pwd => some { w with client := w.client.join ch pwd }
  | .oper user pwd => some { w with client := w.client.oper user pwd }
  | .stop => some { w with client := w.client.stop }

def start (user pwd server : Str) (maxRetryCount : BitVec 32) : IrcWorld :=
  ⟨{ IrcClient.new user pwd server maxRetryCount with posted := [.start] }, .starting, .unstarted, []⟩

end IrcWorld

end Avbot
