import Avbot.Bot.Callbacks
import Mathlib.Data.List.Induction

/-!
# Forwarding between bridged rooms

The rooms of one channel mirror each other. Forwarding is right only if three ways of naming a room agree: the name in the channel map, the name `room_name` rebuilds from the message tree, and the target an account is called with.
-/

namespace Avbot

open List Option PropertyTree

namespace Send

def room : Send → Str
  | .irc whom _ => "irc:".toList ++ whom.drop 1
  | .xmpp room _ => "xmpp:".toList ++ room
  | .qq group _ => "qq:".toList ++ group.qqnum

def msg : Send → Str
  | .irc _ msg | .xmpp _ msg | .qq _ msg => msg

end Send

inductive IsRoom (locals : Locals) (account : BuddyMgr) : Str → Prop
  | irc (name : Str) : IsRoom locals account ("irc:".toList ++ name)
  | xmpp (name : Str) : IsRoom locals account ("xmpp:".toList ++ name)
  | qq {number : Str} {group : QqGroup}
      (hgroup : account.getGroupByQq locals number = .ok (some group))
      (hnumber : group.qqnum = number) : IsRoom locals account ("qq:".toList ++ number)

def Arrival.ComesFrom (locals : Locals) (bot : Bot) (room : Str) : Arrival → Prop
  | .irc pMsg => ∃ mark name, pMsg.fromRoom = mark :: name ∧ room = "irc:".toList ++ name
  | .xmpp xmpproom _ _ => room = "xmpp:".toList ++ xmpproom
  | .qq groupCode _ _ => ∃ account group, bot.mQqAccount = some account ∧
      account.getGroupByGid locals groupCode = .ok (some group) ∧ room = "qq:".toList ++ group.qqnum

namespace Bot

structure Bridged (bot : Bot) (account : BuddyMgr) : Prop where
  irc : bot.mIrcAccount = true
  xmpp : bot.mXmppAccount = true
  qq : bot.mQqAccount = some account

section Delivery

variable {locals : Locals} {bot : Bot} {account : BuddyMgr}

theorem deliver_isRoom (hbot : bot.Bridged account) {room : Str} (hroom : IsRoom locals account room) (msg : Str) :
    ∃ s : Send, bot.deliver locals room msg = .ok [s] ∧ s.room = room ∧ s.msg = msg := by
  cases hroom with
  | irc name =>
    refine ⟨.irc ("#".toList ++ name) msg, ?_, rfl, rfl⟩
    have hname : Str.substr ("irc:".toList ++ name) 4 = .ok name := Str.substr_append "irc:".toList name
    simp only [deliver, hbot.irc, hname]
    rfl
  | xmpp name =>
    refine ⟨.xmpp name msg, ?_, rfl, rfl⟩
    have hname : Str.substr ("xmpp:".toList ++ name) 5 = .ok name := Str.substr_append "xmpp:".toList name
    simp only [deliver, hbot.xmpp, hname]
    rfl
  | @qq number group hgroup hnumber =>
    refine ⟨.qq group msg, ?_, congrArg ("qq:".toList ++ ·) hnumber, rfl⟩
    have hname : Str.substr ("qq:".toList ++ number) 3 = .ok number := Str.substr_append "qq:".toList number
    simp only [deliver, hbot.qq, hname]
    rw [if_neg (by simp), if_neg (by simp), if_pos (by simp)]
    change (account.getGroupByQq locals number).bind _ = _
    rw [hgroup]
    rfl

theorem deliverAll_isRoom (hbot : bot.Bridged account) {rooms : List Str}
    (hrooms : ∀ r ∈ rooms, IsRoom locals account r) (excludeRoom msg : Str) :
    ∃ sends, bot.deliverAll locals excludeRoom msg rooms = (sends, none) ∧
      sends.map Send.room = rooms.filter (fun r => r ≠ excludeRoom) ∧
      ∀ s ∈ sends, s.msg = msg := by
  induction rooms with
  | nil => exact ⟨[], rfl, rfl, by simp⟩
  | cons r rest ih =>
    obtain ⟨others, hothers, hnames, htexts⟩ := ih fun r hr => hrooms r (mem_cons_of_mem _ hr)
    by_cases hr : r = excludeRoom
    · grind [deliverAll]
    · obtain ⟨s, hs, hroom, hmsg⟩ := deliver_isRoom hbot (hrooms r mem_cons_self) msg
      grind [deliverAll]

end Delivery

def withChannels (bot : Bot) (calls : List (Str × Str)) : Bot :=
  calls.foldl (fun b call => b.addToChannel call.1 call.2) bot.withoutChannels

structure BuiltFrom (bot : Bot) (calls : List (Str × Str)) : Prop where
  nodup : ∀ c, (bot.rooms c).Nodup
  room_mem : ∀ c, ∀ r ∈ bot.rooms c, (c, r) ∈ calls
  name_mem : ∀ c ∈ bot.mChannelMap, c ∈ calls.map Prod.fst

theorem BuiltFrom.addToChannel {bot : Bot} {calls : List (Str × Str)} (hbot : bot.BuiltFrom calls)
    (channelName roomName : Str) :
    (bot.addToChannel channelName roomName).BuiltFrom (calls ++ [(channelName, roomName)]) := by
  constructor
  · intro c
    rw [rooms_addToChannel]
    split
    · split
      · exact hbot.nodup c
      · rename_i hnew
        exact nodup_append'.mpr ⟨hbot.nodup c, nodup_singleton _, by simpa using hnew⟩
    · exact hbot.nodup c
  · intro c r hr
    rw [rooms_addToChannel] at hr
    split at hr
    · rename_i hc
      split at hr
      · exact mem_append_left _ (hbot.room_mem c r hr)
      · rcases mem_append.mp hr with hr | hr
        · exact mem_append_left _ (hbot.room_mem c r hr)
        · rw [mem_singleton] at hr
          simp [hc, hr]
    · exact mem_append_left _ (hbot.room_mem c r hr)
  · intro c hc
    rw [map_append, mem_append]
    rcases (mem_addToChannel bot channelName roomName c).mp hc with rfl | hc
    · exact .inr mem_cons_self
    · exact .inl (hbot.name_mem c hc)

theorem withChannels_append (bot : Bot) (calls : List (Str × Str)) (call : Str × Str) :
    bot.withChannels (calls ++ [call]) = (bot.withChannels calls).addToChannel call.1 call.2 := by
  simp [withChannels]

theorem withChannels_builtFrom (bot : Bot) (calls : List (Str × Str)) : (bot.withChannels calls).BuiltFrom calls := by
  induction calls using reverseRecOn with
  | nil =>
    exact ⟨fun c => by simp [withChannels, withoutChannels, rooms],
      fun c r hr => by simp [withChannels, withoutChannels, rooms] at hr,
      fun c hc => by simp [withChannels, withoutChannels] at hc⟩
  | append_singleton calls call ih =>
    rw [withChannels_append]
    exact ih.addToChannel call.1 call.2

theorem Bridged.addToChannel {bot : Bot} {account : BuddyMgr} (hbot : bot.Bridged account)
    (channelName roomName : Str) : (bot.addToChannel channelName roomName).Bridged account := by
  unfold Bot.addToChannel
  split
  · split
    · exact hbot
    · exact ⟨hbot.irc, hbot.xmpp, hbot.qq⟩
  · exact ⟨hbot.irc, hbot.xmpp, hbot.qq⟩

theorem Bridged.withChannels {bot : Bot} {account : BuddyMgr} (hbot : bot.Bridged account)
    (calls : List (Str × Str)) : (bot.withChannels calls).Bridged account := by
  induction calls using reverseRecOn with
  | nil => exact ⟨hbot.irc, hbot.xmpp, hbot.qq⟩
  | append_singleton calls call ih =>
    rw [withChannels_append]
    exact ih.addToChannel call.1 call.2

theorem getChannelName_spec {bot : Bot} {c room : Str} (hroom : room ∈ bot.rooms c) :
    bot.getChannelName room ∈ bot.mChannelMap ∧ room ∈ bot.rooms (bot.getChannelName room) := by
  have hlisted : (c, bot.rooms c) ∈ bot.mChannelMap.toList := by
    rw [Std.ExtTreeMap.mem_toList_iff_getElem?_eq_some]
    cases hc : bot.mChannelMap[c]? with
    | some rooms => rw [rooms_eq_of_getElem? hc]
    | none =>
      grind [rooms_eq_nil_of_not_mem]
  obtain ⟨found, hfound⟩ : ∃ found,
      bot.mChannelMap.toList.find? (fun c => room ∈ c.2) = some found := by
    rw [← isSome_iff_exists, find?_isSome]
    exact ⟨_, hlisted, by simpa using hroom⟩
  have hget : bot.mChannelMap[found.1]? = some found.2 :=
    Std.ExtTreeMap.mem_toList_iff_getElem?_eq_some.mp (mem_of_find?_eq_some hfound)
  have hname : bot.getChannelName room = found.1 := by rw [getChannelName, hfound]
  rw [hname, rooms_eq_of_getElem? hget]
  grind

end Bot

/-- Every picture of a text has the address `format_message` asks for. -/
def Pictures (parts : Ptree) : Prop :=
  ∀ v ∈ parts.children, v.1 = "cface" → (v.2.get? ["gchatpicurl"]).isSome

variable {parts : Ptree}

theorem pictures_add (hparts : Pictures parts) {kind : String}
    (hkind : kind ≠ "cface") (text : Str) : Pictures (parts.add [kind] text) := by
  intro v hv
  rw [add, addChild, children_node, mem_append, mem_singleton] at hv
  rcases hv with hv | rfl
  · exact hparts v hv
  · exact fun h => absurd h hkind

theorem addCface_eq (parts : Ptree) (cface : QqMsgCface) :
    ∃ fields : Ptree → Ptree, addCface parts cface =
      parts.alterChild "cface" fun t => (fields t).add ["gchatpicurl"] cface.gchatpicurl := by
  simp only [addCface, add_pair, alterChild_alterChild]
  exact ⟨_, rfl⟩

theorem pictures_addCface (hparts : Pictures parts) (cface : QqMsgCface) : Pictures (addCface parts cface) := by
  obtain ⟨fields, hfields⟩ := addCface_eq parts cface
  rw [hfields]
  refine forall_mem_alterFirst ?_ hparts
  intro t _
  rw [get?_single, add, find?_addChild_single, if_pos rfl]
  cases (fields t).find? "gchatpicurl" <;> rfl

theorem pictures_addQqMsg (hparts : Pictures parts) (part : QqMsg) : Pictures (addQqMsg parts part) := by
  cases part with
  | font font => exact hparts
  | text text => exact pictures_add hparts (by decide) text
  | face face => exact pictures_add hparts (by decide) (faceUrl face)
  | cface cface => exact pictures_addCface hparts cface

theorem pictures_foldl (msg : List QqMsg) : Pictures (msg.foldl addQqMsg default) := by
  induction msg using reverseRecOn with
  | nil => exact fun v hv => by simp at hv
  | append_singleton msg part ih =>
    rw [foldl_append]
    exact pictures_addQqMsg ih part

theorem pictures_textMessage (text : Str) : Pictures (textMessage text) :=
  pictures_add (fun v hv => by simp at hv) (by decide) text

namespace Bot

theorem formatPart_ok (bot : Bot) {v : String × Ptree} (hv : v.1 = "cface" → (v.2.get? ["gchatpicurl"]).isSome) :
    ∃ text, bot.formatPart v = .ok text := by
  unfold formatPart
  split
  · exact ⟨_, rfl⟩
  · split
    · exact ⟨_, rfl⟩
    · split
      · rename_i hcface
        obtain ⟨url, hurl⟩ := isSome_iff_exists.mp (hv hcface)
        cases bot.mUrlformater with
        | some format => exact ⟨_, rfl⟩
        | none => exact ⟨url ++ " ".toList, by simp only [getString, hurl]; rfl⟩
      · exact ⟨_, rfl⟩

theorem formatParts_ok (bot : Bot) {parts : List (String × Ptree)}
    (hparts : ∀ v ∈ parts, v.1 = "cface" → (v.2.get? ["gchatpicurl"]).isSome) :
    ∃ text, bot.formatParts parts = .ok text := by
  induction parts with
  | nil => exact ⟨[], rfl⟩
  | cons v rest ih =>
    obtain ⟨part, hpart⟩ := bot.formatPart_ok (hparts v mem_cons_self)
    obtain ⟨others, hothers⟩ := ih fun v hv => hparts v (mem_cons_of_mem _ hv)
    exact ⟨part ++ others, by simp only [formatParts, hpart, hothers]; rfl⟩

theorem formatMessage_ok (bot : Bot) {message parts : Ptree} {protocol : Str}
    (hprotocol : message.get? ["protocol"] = some protocol)
    (hmail : protocol ≠ "mail".toList) (hmessage : message.find? "message" = some parts)
    (hparts : Pictures parts) : ∃ text, bot.formatMessage message = .ok text := by
  obtain ⟨text, htext⟩ := bot.formatParts_ok hparts
  refine ⟨(message.get? ["preamble"]).getD [] ++ text, ?_⟩
  simp only [formatMessage, getString, hprotocol, getChild?_cons, getChild?_nil, hmessage, bind_some, htext]
  change (if protocol ≠ "mail".toList then _ else _) = _
  rw [if_pos hmail]
  rfl

end Bot

structure Routes (bot : Bot) (room : Str) (message : Ptree) : Prop where
  channel : message.get? ["channel"] = some (bot.getChannelName room)
  name : roomName message = room
  formats : ∃ text, bot.formatMessage message = .ok text

variable {message : Ptree} {room : Str}

theorem roomName_of_room {protocol : Str} (hprotocol : message.get? ["protocol"] = some protocol)
    (hmail : protocol ≠ "mail".toList) (hqq : protocol ≠ "qq".toList)
    (hroom : message.get? ["room"] = some room) :
    roomName message = protocol ++ ":".toList ++ room := by
  grind [roomName]

theorem roomName_of_groupnumber {number : Str} (hprotocol : message.get? ["protocol"] = some "qq".toList)
    (hnumber : message.get? ["room", "groupnumber"] = some number) :
    roomName message = "qq:".toList ++ number := by
  simp [roomName, hprotocol, hnumber]

theorem ircMessage_routes (bot : Bot) {pMsg : IrcMsg} {mark : Char} {name : Str}
    (hfrom : pMsg.fromRoom = mark :: name) :
    ∃ message, ircMessage bot pMsg = .ok message ∧ Routes bot ("irc:".toList ++ name) message := by
  have hname : Str.substr pMsg.fromRoom 1 = .ok name := by
    rw [hfrom]
    exact Str.substr_append [mark] name
  refine ⟨ircMessageTree bot pMsg name, by simp only [ircMessage, hname]; rfl, ?_⟩
  obtain ⟨hprotocol, hroom, hchannel⟩ : (ircMessageTree bot pMsg name).get? ["protocol"] = some "irc".toList ∧
      (ircMessageTree bot pMsg name).get? ["room"] = some name ∧
      (ircMessageTree bot pMsg name).get? ["channel"] = some (bot.getChannelName ("irc:".toList ++ name)) := by
    simp (disch := decide) only [ircMessageTree, get?_single, find?_addChild_of_ne, find?_put_of_ne,
      find?_put_self, data_put_nil, map_some, and_self]
  have htext : (ircMessageTree bot pMsg name).find? "message" = some (textMessage pMsg.msg) := by
    simp (disch := decide) only [ircMessageTree, find?_addChild_single, find?_put_of_ne,
      find?_default, none_or, if_true]
  exact ⟨hchannel, roomName_of_room hprotocol (by decide) (by decide) hroom,
    bot.formatMessage_ok hprotocol (by decide) htext (pictures_textMessage _)⟩

theorem xmppMessage_routes (bot : Bot) (xmpproom who msg : Str) :
    Routes bot ("xmpp:".toList ++ xmpproom) (xmppMessage bot xmpproom who msg) := by
  obtain ⟨hprotocol, hroom, hchannel⟩ : (xmppMessage bot xmpproom who msg).get? ["protocol"] = some "xmpp".toList ∧
      (xmppMessage bot xmpproom who msg).get? ["room"] = some xmpproom ∧
      (xmppMessage bot xmpproom who msg).get? ["channel"] = some (bot.getChannelName ("xmpp:".toList ++ xmpproom)) := by
    simp (disch := decide) only [xmppMessage, get?_single, find?_addChild_of_ne, find?_put_of_ne,
      find?_put_self, data_put_nil, map_some, and_self]
  have htext : (xmppMessage bot xmpproom who msg).find? "message" = some (textMessage msg) := by
    simp (disch := decide) only [xmppMessage, find?_addChild_single, find?_put_of_ne, find?_default, none_or, if_true]
  exact ⟨hchannel, roomName_of_room hprotocol (by decide) (by decide) hroom,
    bot.formatMessage_ok hprotocol (by decide) htext (pictures_textMessage _)⟩

section QqMessage

variable (bot : Bot) (groupCode who : Str) (group : QqGroup) (buddy : Option QqBuddy) (msg : List QqMsg)

theorem find?_qqMessageTree {key : String} (hkey : key ∈ ["protocol", "channel", "room"]) :
    (qqMessageTree bot groupCode who (some group) buddy msg).find? key =
      ((((default : Ptree).put ["protocol"] "qq".toList).put ["channel"]
        (bot.getChannelName ("qq:".toList ++ group.qqnum))).addChild ["room"]
        ((((default : Ptree).add ["code"] groupCode).add ["groupnumber"] group.qqnum).add
          ["name"] group.name)).find? key := by
  have hne : "message" ≠ key ∧ "preamble" ≠ key ∧ "who" ≠ key ∧ "op" ≠ key := by
    simp only [mem_cons, not_mem_nil, or_false] at hkey
    rcases hkey with rfl | rfl | rfl <;> decide
  cases buddy with
  | none => simp only [qqMessageTree, qqWho, add, find?_addChild_of_ne _ hne.1,
      find?_addChild_of_ne _ hne.2.1, find?_addChild_of_ne _ hne.2.2.1]
  | some buddy => simp only [qqMessageTree, qqWho, add, find?_addChild_of_ne _ hne.1,
      find?_addChild_of_ne _ hne.2.1, find?_addChild_of_ne _ hne.2.2.1,
      find?_addChild_of_ne _ hne.2.2.2]

theorem find?_message_qqMessageTree :
    (qqMessageTree bot groupCode who (some group) buddy msg).find? "message" =
      some (msg.foldl addQqMsg default) := by
  cases buddy with
  | _ =>
    simp (disch := decide) only [qqMessageTree, qqWho, add, find?_addChild_single, find?_put_of_ne, find?_default]
    rfl

theorem qqMessageTree_routes :
    Routes bot ("qq:".toList ++ group.qqnum) (qqMessageTree bot groupCode who (some group) buddy msg) := by
  have hprotocol : (qqMessageTree bot groupCode who (some group) buddy msg).get? ["protocol"] =
      some "qq".toList := by
    rw [get?_single, find?_qqMessageTree _ _ _ _ _ _ (by decide)]
    simp (disch := decide) only [find?_addChild_of_ne, find?_put_of_ne, find?_put_self, data_put_nil, map_some]
  have hnumber : (qqMessageTree bot groupCode who (some group) buddy msg).get?
      ["room", "groupnumber"] = some group.qqnum := by
    rw [get?_pair, find?_qqMessageTree _ _ _ _ _ _ (by decide), find?_addChild_single]
    simp (disch := decide) only [find?_put_of_ne, find?_default, none_or, if_true,
      bind_some, add, find?_addChild_single]
    rfl
  refine ⟨?_, roomName_of_groupnumber hprotocol hnumber,
    bot.formatMessage_ok hprotocol (by decide) (find?_message_qqMessageTree bot groupCode who group
      buddy msg) (pictures_foldl msg)⟩
  rw [get?_single, find?_qqMessageTree _ _ _ _ _ _ (by decide)]
  simp (disch := decide) only [find?_addChild_of_ne, find?_put_self, data_put_nil, map_some]

end QqMessage

theorem Arrival.message_routes {locals : Locals} {bot : Bot} {arrival : Arrival}
    (hfrom : arrival.ComesFrom locals bot room) :
    ∃ message, arrival.message locals bot = .ok message ∧ Routes bot room message := by
  cases arrival with
  | irc pMsg =>
    obtain ⟨mark, name, hname, rfl⟩ := hfrom
    exact ircMessage_routes bot hname
  | xmpp xmpproom who msg =>
    obtain rfl : room = _ := hfrom
    exact ⟨_, rfl, xmppMessage_routes bot xmpproom who msg⟩
  | qq groupCode who msg =>
    obtain ⟨account, group, haccount, hgroup, rfl⟩ := hfrom
    refine ⟨_, ?_, qqMessageTree_routes bot groupCode who group
      (account.getBuddyByUin locals who) msg⟩
    simp only [Arrival.message, qqGroupMessage, haccount, hgroup]
    rfl

namespace Bot

theorem forwardMessage_routes {locals : Locals} {bot : Bot} {account : BuddyMgr} {c room text : Str}
    {message : Ptree} (hbot : bot.Bridged account)
    (hrooms : ∀ c, ∀ r ∈ bot.rooms c, IsRoom locals account r)
    (hnames : ∀ c ∈ bot.mChannelMap, c ≠ []) (hroom : room ∈ bot.rooms c)
    (hroutes : Routes bot room message) (htext : bot.formatMessage message = .ok text) :
    ∃ sends, bot.forwardMessage locals message = ⟨bot, sends, none⟩ ∧
      sends.map Send.room = (bot.rooms (bot.getChannelName room)).filter (fun r => r ≠ room) ∧
      ∀ s ∈ sends, s.msg = text := by
  obtain ⟨hmem, _⟩ := getChannelName_spec hroom
  obtain ⟨sends, hsends, hto, htexts⟩ :=
    deliverAll_isRoom hbot (hrooms (bot.getChannelName room)) room text
  refine ⟨sends, ?_, hto, htexts⟩
  simp only [forwardMessage, getString, hroutes.channel, htext, if_neg (hnames _ hmem), if_pos hmem,
    hroutes.name, broadcastMessage, hsends, touch_of_mem hmem]

/-- A message that comes from a room of the map goes, formatted, once to every other room of that room's channel and to no other room. -/
theorem receive_forwards_once (locals : Locals) (bot : Bot) (account : BuddyMgr)
    (calls : List (Str × Str)) (hbot : bot.Bridged account)
    (hcalls : ∀ call ∈ calls, call.1 ≠ [] ∧ IsRoom locals account call.2)
    (arrival : Arrival) (room c : Str) (hroom : room ∈ (bot.withChannels calls).rooms c)
    (hfrom : arrival.ComesFrom locals (bot.withChannels calls) room) :
    ∃ message text, arrival.message locals (bot.withChannels calls) = .ok message ∧
      (bot.withChannels calls).formatMessage message = .ok text ∧
      ∃ sends, (bot.withChannels calls).receive locals arrival =
          ⟨bot.withChannels calls, sends, none⟩ ∧
        (∀ s ∈ sends, s.msg = text) ∧
        ∀ r, (sends.map Send.room).count r =
          if r ∈ (bot.withChannels calls).rooms ((bot.withChannels calls).getChannelName room) ∧ r ≠ room
          then 1 else 0 := by
  have hbuilt := withChannels_builtFrom bot calls
  obtain ⟨message, hmessage, hroutes⟩ := Arrival.message_routes hfrom
  obtain ⟨text, htext⟩ := hroutes.formats
  have hrooms : ∀ c, ∀ r ∈ (bot.withChannels calls).rooms c, IsRoom locals account r :=
    fun c r hr => (hcalls _ (hbuilt.room_mem c r hr)).2
  have hnames : ∀ c ∈ (bot.withChannels calls).mChannelMap, c ≠ [] := by
    intro c hc
    obtain ⟨call, hcall, rfl⟩ := mem_map.mp (hbuilt.name_mem c hc)
    exact (hcalls call hcall).1
  obtain ⟨sends, hsends, hto, htexts⟩ :=
    forwardMessage_routes (hbot.withChannels calls) hrooms hnames hroom hroutes htext
  refine ⟨message, text, hmessage, htext, sends, ?_, htexts, ?_⟩
  · rw [receive, hmessage]
    exact hsends
  · intro r
    rw [hto]
    have hnodup := (hbuilt.nodup ((bot.withChannels calls).getChannelName room)).filter
      (fun r => r ≠ room)
    grind

/-- One channel with a room of each network. -/
theorem receive_forwards_once_three_networks :
    let account : BuddyMgr := .mk [⟨['1'], ['2'], [], some ['3'], some ['7'], 0⟩] [] (by decide)
    let locals : Locals := ⟨.null, 0⟩
    let bot := { Bot.new with mIrcAccount := true, mXmppAccount := true, mQqAccount := some account }
    let calls := [("a".toList, "irc:x".toList), ("a".toList, "xmpp:y".toList),
      ("a".toList, "qq:3".toList), ("b".toList, "irc:z".toList)]
    ∃ sends, (bot.withChannels calls).receive locals (.irc ⟨"n".toList, "#x".toList, "u@h".toList, "hi".toList⟩) =
        ⟨bot.withChannels calls, sends, none⟩ ∧
      (sends.map Send.room).count "qq:3".toList = 1 ∧
      (sends.map Send.room).count "irc:x".toList = 0 := by
  intro account locals bot calls
  have hgroup : account.getGroupByQq locals ['3'] = .ok (some ⟨['1'], [], ['2'], ['3'], ['7']⟩) := rfl
  have hqq : IsRoom locals account "qq:3".toList := .qq hgroup rfl
  have hcalls : ∀ call ∈ calls, call.1 ≠ [] ∧ IsRoom locals account call.2 := by
    simp only [calls, mem_cons, not_mem_nil, or_false, forall_eq_or_imp, forall_eq]
    exact ⟨⟨by decide, .irc ['x']⟩, ⟨by decide, .xmpp ['y']⟩, ⟨by decide, hqq⟩, by decide, .irc ['z']⟩
  have hroom : "irc:x".toList ∈ (bot.withChannels calls).rooms "a".toList := by decide
  obtain ⟨_, _, _, _, sends, hsends, _, hcount⟩ := receive_forwards_once locals bot account calls
    ⟨rfl, rfl, rfl⟩ hcalls (.irc ⟨"n".toList, "#x".toList, "u@h".toList, "hi".toList⟩) "irc:x".toList "a".toList
    hroom ⟨'#', ['x'], rfl, rfl⟩
  refine ⟨sends, hsends, ?_, ?_⟩
  · rw [hcount, if_pos (by decide)]
  · rw [hcount, if_neg (by decide)]

end Bot

end Avbot
