import Avbot.Base.Ptree
import Avbot.Webqq.BuddyMgr

/-!
# Channels

A channel is a named list of rooms, `irc:name`, `xmpp:name@server` or `qq:number`, and a message that comes from one room of a channel is sent to the others. The map from names to channels is a `std::map`: it is visited in the order of the names, and `operator[]` inserts an empty channel under a name it does not hold.
-/

namespace Avbot

abbrev ChannelMap := Std.ExtTreeMap Str (List Str)

/-- A call to one of the accounts: `irc::client::chat`, `xmpp::send_room_message` or `webqq::send_group_message`. -/
inductive Send where
  | irc (whom : Str) (msg : Str)
  | xmpp (room : Str) (msg : Str)
  | qq (group : QqGroup) (msg : Str)
  deriving DecidableEq

/-- The members of `avbot` that routing reads. Of the IRC and XMPP accounts only their presence matters, of the QQ account its tables. -/
structure Bot where
  mQqAccount : Option BuddyMgr
  mIrcAccount : Bool
  mXmppAccount : Bool
  mChannelMap : ChannelMap
  preambleQqFmt : Str
  preambleIrcFmt : Str
  preambleXmppFmt : Str
  mUrlformater : Option (Ptree → Str)
  /-- The calls of `signal_new_channel`, oldest first. -/
  signalNewChannel : List Str

/-- What a function of the bot leaves behind: also one that throws has changed the map and called the accounts before. -/
structure Outcome where
  bot : Bot
  sends : List Send
  thrown : Option Exn

namespace Bot

def new : Bot where
  mQqAccount := none
  mIrcAccount := false
  mXmppAccount := false
  mChannelMap := ∅
  preambleQqFmt := "qq(%a)说：".toList
  preambleIrcFmt := "%a 说：".toList
  preambleXmppFmt := "(%a)说：".toList
  mUrlformater := none
  signalNewChannel := []

def addToChannel (bot : Bot) (channelName roomName : Str) : Bot :=
  match bot.mChannelMap[channelName]? with
  | some c =>
    if roomName ∈ c then bot
    else { bot with mChannelMap := bot.mChannelMap.insert channelName (c ++ [roomName]) }
  | none =>
    { bot with
      mChannelMap := bot.mChannelMap.insertIfNew channelName [roomName]
      signalNewChannel := bot.signalNewChannel ++ [channelName] }

/-- The value `m_channel_map[channel_name]` refers to after the insertion `operator[]` may make. -/
def rooms (bot : Bot) (channelName : Str) : List Str := bot.mChannelMap.getD channelName []

def touch (bot : Bot) (channelName : Str) : Bot :=
  { bot with mChannelMap := bot.mChannelMap.insertIfNew channelName [] }

def getChannelMap (bot : Bot) (channelName : Str) : Bot × List Str :=
  (bot.touch channelName, bot.rooms channelName)

def getChannelName (bot : Bot) (roomName : Str) : Str :=
  match bot.mChannelMap.toList.find? fun c => roomName ∈ c.2 with
  | some c => c.1
  | none => "none".toList

section Sending

variable (locals : Locals)

def deliver (bot : Bot) (chatgroupmember msg : Str) : Except Exn (List Send) :=
  if chatgroupmember.take 3 = "irc".toList then
    if bot.mIrcAccount then do
      let name ← Str.substr chatgroupmember 4
      return [.irc ("#".toList ++ name) msg]
    else return []
  else if chatgroupmember.take 4 = "xmpp".toList then
    if bot.mXmppAccount then do
      let name ← Str.substr chatgroupmember 5
      return [.xmpp name msg]
    else return []
  else if chatgroupmember.take 2 = "qq".toList then
    match bot.mQqAccount with
    | none => return []
    | some account => do
      let qqnum ← Str.substr chatgroupmember 3
      match ← account.getGroupByQq locals qqnum with
      | some group => return [.qq group msg]
      | none => return []
  else return []

def deliverAll (bot : Bot) (excludeRoom msg : Str) : List Str → List Send × Option Exn
  | [] => ([], none)
  | chatgroupmember :: rest =>
    if chatgroupmember = excludeRoom then deliverAll bot excludeRoom msg rest
    else
      match bot.deliver locals chatgroupmember msg with
      | .error e => ([], some e)
      | .ok sends =>
        let (others, thrown) := deliverAll bot excludeRoom msg rest
        (sends ++ others, thrown)

def broadcastMessage (bot : Bot) (channelName excludeRoom msg : Str) : Outcome :=
  let (sends, thrown) := bot.deliverAll locals excludeRoom msg (bot.rooms channelName)
  ⟨bot.touch channelName, sends, thrown⟩

def broadcastChannel (bot : Bot) (channelName msg : Str) : Outcome :=
  bot.broadcastMessage locals channelName [] msg

def broadcastChannels (msg : Str) : Bot → List Str → Outcome
  | bot, [] => ⟨bot, [], none⟩
  | bot, channelName :: rest =>
    let first := bot.broadcastChannel locals channelName msg
    match first.thrown with
    | some e => ⟨first.bot, first.sends, some e⟩
    | none =>
      let others := broadcastChannels msg first.bot rest
      ⟨others.bot, first.sends ++ others.sends, others.thrown⟩

def broadcastAll (bot : Bot) (msg : Str) : Outcome :=
  broadcastChannels locals msg bot bot.mChannelMap.keys

end Sending

end Bot

def roomName (message : Ptree) : Str :=
  let name : Option Str := do
    let protocol ← message.get? ["protocol"]
    if protocol = "mail".toList then return "mail".toList
    if protocol = "qq".toList then
      let number ← message.get? ["room", "groupnumber"]
      return protocol ++ ":".toList ++ number
    let room ← message.get? ["room"]
    return protocol ++ ":".toList ++ room
  name.getD "none".toList

namespace Bot

def formatPart (bot : Bot) (v : String × Ptree) : Except Exn Str :=
  if v.1 = "text" then .ok v.2.data
  else if v.1 = "url" ∨ v.1 = "img" then .ok (" ".toList ++ v.2.data ++ " ".toList)
  else if v.1 = "cface" then
    match bot.mUrlformater with
    | some format => .ok (format v.2 ++ " ".toList)
    | none => do
      let url ← getString v.2 ["gchatpicurl"]
      return url ++ " ".toList
  else .ok []

def formatParts (bot : Bot) : List (String × Ptree) → Except Exn Str
  | [] => .ok []
  | v :: rest => do
    let part ← bot.formatPart v
    let others ← bot.formatParts rest
    return part ++ others

def formatMessage (bot : Bot) (message : Ptree) : Except Exn Str := do
  let protocol ← getString message ["protocol"]
  if protocol ≠ "mail".toList then
    match message.getChild? ["message"] with
    | none => throw .ptreeBadPath
    | some parts =>
      let text ← bot.formatParts parts.children
      return (message.get? ["preamble"]).getD [] ++ text
  else
    let sender ← getString message ["from"]
    let receiver ← getString message ["to"]
    let subject ← getString message ["subject"]
    match message.getChild? ["message"] with
    | none => throw .ptreeBadPath
    | some parts =>
      return "[QQ邮件]\n发件人:".toList ++ sender ++ "\n收件人:".toList ++ receiver ++
        "\n主题:".toList ++ subject ++ "\n\n".toList ++ parts.data

def forwardMessage (locals : Locals) (bot : Bot) (message : Ptree) : Outcome :=
  match getString message ["channel"] with
  | .error e => ⟨bot, [], some e⟩
  | .ok channelName =>
    match bot.formatMessage message with
    | .error e => ⟨bot, [], some e⟩
    | .ok formated =>
      if channelName = [] then bot.broadcastAll locals formated
      else if channelName ∈ bot.mChannelMap then
        bot.broadcastMessage locals channelName (roomName message) formated
      else ⟨bot, [], none⟩

variable {bot : Bot} {channelName : Str} {c : List Str}

theorem touch_of_mem (hmem : channelName ∈ bot.mChannelMap) : bot.touch channelName = bot := by
  have hmap : bot.mChannelMap.insertIfNew channelName [] = bot.mChannelMap := by
    grind
  rw [touch, hmap]

theorem mem_touch {c : Str} : c ∈ (bot.touch channelName).mChannelMap ↔ channelName = c ∨ c ∈ bot.mChannelMap := by
  grind [touch]

theorem rooms_eq_of_getElem? (hc : bot.mChannelMap[channelName]? = some c) : bot.rooms channelName = c := by
  rw [rooms, Std.ExtTreeMap.getD_eq_getD_getElem?, hc, Option.getD_some]

theorem rooms_eq_nil_of_not_mem (hc : channelName ∉ bot.mChannelMap) : bot.rooms channelName = [] :=
  Std.ExtTreeMap.getD_eq_fallback hc

theorem not_mem_of_getElem? (hc : bot.mChannelMap[channelName]? = none) : channelName ∉ bot.mChannelMap := by
  grind

theorem rooms_addToChannel (bot : Bot) (channelName roomName c : Str) :
    (bot.addToChannel channelName roomName).rooms c =
      if channelName = c then
        if roomName ∈ bot.rooms c then bot.rooms c else bot.rooms c ++ [roomName]
      else bot.rooms c := by
  unfold addToChannel
  split
  · rename_i old hold
    by_cases hc : channelName = c
    · subst hc
      rw [if_pos rfl, rooms_eq_of_getElem? hold]
      split
      · exact rooms_eq_of_getElem? hold
      · simp [rooms]
    · grind [rooms]
  · rename_i hnone
    have hnot := not_mem_of_getElem? hnone
    by_cases hc : channelName = c
    · grind [rooms_eq_nil_of_not_mem, rooms]
    · grind [rooms]

theorem mem_addToChannel (bot : Bot) (channelName roomName c : Str) :
    c ∈ (bot.addToChannel channelName roomName).mChannelMap ↔
      channelName = c ∨ c ∈ bot.mChannelMap := by
  unfold addToChannel
  grind

theorem signalNewChannel_addToChannel (bot : Bot) (channelName roomName : Str) :
    (bot.addToChannel channelName roomName).signalNewChannel =
      if channelName ∈ bot.mChannelMap then bot.signalNewChannel
      else bot.signalNewChannel ++ [channelName] := by
  unfold addToChannel
  grind

theorem broadcastChannels_bot (locals : Locals) (msg : Str) {channels : List Str}
    (hmem : ∀ c ∈ channels, c ∈ bot.mChannelMap) :
    (broadcastChannels locals msg bot channels).bot = bot := by
  induction channels with
  | nil => rfl
  | cons c rest ih =>
    have hbot : (bot.broadcastChannel locals c msg).bot = bot :=
      touch_of_mem (hmem c List.mem_cons_self)
    grind [broadcastChannels]

theorem broadcastAll_bot (locals : Locals) (bot : Bot) (msg : Str) : (bot.broadcastAll locals msg).bot = bot :=
  broadcastChannels_bot locals msg fun _ hc => Std.ExtTreeMap.mem_keys.mp hc

theorem forwardMessage_bot (locals : Locals) (bot : Bot) (message : Ptree) :
    (bot.forwardMessage locals message).bot = bot := by
  unfold forwardMessage
  split
  · rfl
  · split
    · rfl
    · split
      · exact broadcastAll_bot locals bot _
      · split
        · rename_i hmem
          exact touch_of_mem hmem
        · rfl

end Bot

inductive ChannelOp where
  | addToChannel (channelName roomName : Str)
  | getChannelMap (channelName : Str)
  | broadcastAll (msg : Str)
  | broadcastChannel (channelName msg : Str)
  | broadcastMessage (channelName excludeRoom msg : Str)
  | forwardMessage (message : Ptree)

def ChannelOp.lookup? : ChannelOp → Option Str
  | .getChannelMap c | .broadcastChannel c _ | .broadcastMessage c _ _ => some c
  | _ => none

namespace Bot

section Signal

variable (locals : Locals)

def apply (bot : Bot) : ChannelOp → Bot
  | .addToChannel c r => bot.addToChannel c r
  | .getChannelMap c => (bot.getChannelMap c).1
  | .broadcastAll msg => (bot.broadcastAll locals msg).bot
  | .broadcastChannel c msg => (bot.broadcastChannel locals c msg).bot
  | .broadcastMessage c r msg => (bot.broadcastMessage locals c r msg).bot
  | .forwardMessage message => (bot.forwardMessage locals message).bot

def withoutChannels (bot : Bot) : Bot := { bot with mChannelMap := ∅, signalNewChannel := [] }

def Signalled (bot : Bot) : Prop :=
  ∀ c, bot.signalNewChannel.count c = if bot.rooms c = [] then 0 else 1

def SignalsRight : Bot → List ChannelOp → Prop
  | bot, [] => bot.Signalled
  | bot, op :: ops =>
    bot.Signalled ∧
    (op.lookup?.isSome → ∀ c, c ∈ (bot.apply locals op).mChannelMap ↔ c ∈ bot.mChannelMap) ∧
    SignalsRight (bot.apply locals op) ops

def LooksUpExisting : Bot → List ChannelOp → Prop
  | _, [] => True
  | bot, op :: ops =>
    (∀ c, op.lookup? = some c → c ∈ bot.mChannelMap) ∧
    LooksUpExisting (bot.apply locals op) ops

variable {bot : Bot} {op : ChannelOp} {ops : List ChannelOp}

theorem apply_of_lookup {c : Str} (hop : op.lookup? = some c) : bot.apply locals op = bot.touch c := by
  cases op <;> simp only [ChannelOp.lookup?, Option.some.injEq, reduceCtorEq] at hop <;> subst hop <;> rfl

theorem apply_of_no_lookup (bot : Bot) (hop : op.lookup? = none) :
    (∃ c r, bot.apply locals op = bot.addToChannel c r) ∨ bot.apply locals op = bot := by
  cases op with
  | addToChannel c r => exact .inl ⟨c, r, rfl⟩
  | broadcastAll msg => exact .inr (broadcastAll_bot locals bot msg)
  | forwardMessage message => exact .inr (forwardMessage_bot locals bot message)
  | _ => simp [ChannelOp.lookup?] at hop

structure SignalInv (bot : Bot) : Prop where
  signalled : bot.Signalled
  nonempty : ∀ c, c ∈ bot.mChannelMap → bot.rooms c ≠ []

omit locals in
theorem SignalInv.addToChannel (hbot : bot.SignalInv) (c r : Str) : (bot.addToChannel c r).SignalInv := by
  have hrooms : (bot.addToChannel c r).rooms c ≠ [] := by
    rw [rooms_addToChannel, if_pos rfl]
    split
    · rename_i hr
      exact List.ne_nil_of_mem hr
    · simp
  constructor
  · intro c'
    have hold := hbot.signalled c'
    rw [signalNewChannel_addToChannel]
    by_cases hc : c = c'
    · subst hc
      rw [if_neg hrooms]
      split
      · rename_i hmem
        rwa [if_neg (hbot.nonempty c hmem)] at hold
      · grind [rooms_eq_nil_of_not_mem]
    · grind [rooms_addToChannel]
  · intro c' hmem
    by_cases hc : c = c'
    · exact hc ▸ hrooms
    · rw [rooms_addToChannel, if_neg hc]
      rw [mem_addToChannel] at hmem
      exact hbot.nonempty c' (hmem.resolve_left hc)

theorem signalsRight_of_looksUpExisting (hbot : bot.SignalInv)
    (hops : bot.LooksUpExisting locals ops) : bot.SignalsRight locals ops := by
  induction ops generalizing bot with
  | nil => exact hbot.signalled
  | cons op ops ih =>
    obtain ⟨hop, hops⟩ := hops
    cases hlookup : op.lookup? with
    | some c =>
      have hsame : bot.apply locals op = bot := by
        rw [apply_of_lookup locals hlookup, touch_of_mem (hop c hlookup)]
      rw [hsame] at hops
      refine ⟨hbot.signalled, fun _ c => by rw [hsame], ?_⟩
      rw [hsame]
      exact ih hbot hops
    | none =>
      refine ⟨hbot.signalled, fun h => by simp [hlookup] at h, ih ?_ hops⟩
      rcases apply_of_no_lookup locals bot hlookup with ⟨c, r, heq⟩ | heq
      · rw [heq]
        exact hbot.addToChannel c r
      · rw [heq]
        exact hbot

theorem looksUpExisting_of_signalsRight (hops : bot.SignalsRight locals ops) : bot.LooksUpExisting locals ops := by
  induction ops generalizing bot with
  | nil => trivial
  | cons op ops ih =>
    obtain ⟨_, hkeys, hops⟩ := hops
    refine ⟨?_, ih hops⟩
    intro c hlookup
    rw [← hkeys (by simp [hlookup]) c, apply_of_lookup locals hlookup, mem_touch]
    exact .inl rfl

omit locals in
theorem withoutChannels_signalInv (bot : Bot) : bot.withoutChannels.SignalInv where
  signalled c := by simp [withoutChannels, rooms]
  nonempty c hc := by simp [withoutChannels] at hc

/-- The signals and the look-ups are right over a history exactly when every look-up by name names a channel that exists at that moment. -/
theorem signalsRight_iff_looksUpExisting (bot : Bot) (ops : List ChannelOp) :
    bot.withoutChannels.SignalsRight locals ops ↔ bot.withoutChannels.LooksUpExisting locals ops :=
  ⟨looksUpExisting_of_signalsRight locals,
    signalsRight_of_looksUpExisting locals (withoutChannels_signalInv bot)⟩

end Signal

/-- After one look-up of a name nobody has used yet, the channel that is then created under it is never announced. -/
theorem signal_lost_after_lookup :
    let channel := "avplayer".toList
    let ops := [ChannelOp.getChannelMap channel, .addToChannel channel "irc:avplayer".toList]
    let locals : Locals := ⟨.null, 0⟩
    let bot := ops.foldl (apply locals) new
    bot.rooms channel = ["irc:avplayer".toList] ∧ bot.signalNewChannel = [] ∧
      ¬ new.withoutChannels.SignalsRight locals ops := by
  refine ⟨by decide, by decide, ?_⟩
  intro h
  have hcount := h.2.2.2.2 "avplayer".toList
  revert hcount
  decide

end Bot

end Avbot
