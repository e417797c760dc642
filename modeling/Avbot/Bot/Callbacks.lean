import Avbot.Bot.Channels
import Avbot.Irc.Client

/-!
# From an account's event to a message tree

Each account reports what it heard to one callback of the bot. The callback turns the event into a property tree and hands the tree to `on_message`, whose first slot is `forward_message`.
-/

namespace Avbot

open PropertyTree
open Str (replaceAll)

def preambleFormaterIrc (preambleIrcFmt : Str) (pmsg : IrcMsg) : Str :=
  let preamble := replaceAll preambleIrcFmt "%a".toList pmsg.whom
  let preamble := replaceAll preamble "%r".toList pmsg.fromRoom
  replaceAll preamble "%n".toList pmsg.whom

def preambleFormaterXmpp (preambleXmppFmt who room : Str) : Str :=
  let preamble := replaceAll preambleXmppFmt "%a".toList who
  let preamble := replaceAll preamble "%r".toList room
  replaceAll preamble "%n".toList who

/-- The first of card, nick, number and `uin` that is not empty. -/
def autonick : Option QqBuddy → Str → Str
  | none, falbacknick => falbacknick
  | some buddy, _ =>
    if buddy.card ≠ [] then buddy.card
    else if buddy.nick ≠ [] then buddy.nick
    else if buddy.qqnum ≠ [] then buddy.qqnum
    else buddy.uin

def preambleFormaterQq (preambleQqFmt : Str) (buddy : Option QqBuddy) (falbacknick : Str)
    (group : Option QqGroup) : Str :=
  let who := buddy.getD ⟨[], [], [], 0, []⟩
  let preamble := replaceAll preambleQqFmt "%a".toList (autonick buddy falbacknick)
  let preamble := replaceAll preamble "%n".toList who.nick
  let preamble := replaceAll preamble "%u".toList who.uin
  let preamble := replaceAll preamble "%q".toList who.qqnum
  let preamble := replaceAll preamble "%c".toList who.card
  match group with
  | none => preamble
  | some group =>
    let preamble := replaceAll preamble "%r".toList group.qqnum
    replaceAll preamble "%R".toList group.name

/-- The tree below `message` for a plain text. -/
def textMessage (text : Str) : Ptree := (default : Ptree).add ["text"] text

def ircMessageTree (bot : Bot) (pMsg : IrcMsg) (room : Str) : Ptree :=
  let message := (default : Ptree).put ["protocol"] "irc".toList
  let message := message.put ["room"] room
  let message := message.put ["who", "nick"] pMsg.whom
  let message := message.put ["channel"] (bot.getChannelName ("irc:".toList ++ room))
  let message := message.put ["preamble"] (preambleFormaterIrc bot.preambleIrcFmt pMsg)
  message.addChild ["message"] (textMessage pMsg.msg)

def ircMessage (bot : Bot) (pMsg : IrcMsg) : Except Exn Ptree := do
  let room ← Str.substr pMsg.fromRoom 1
  return ircMessageTree bot pMsg room

def xmppMessage (bot : Bot) (xmpproom who msg : Str) : Ptree :=
  let message := (default : Ptree).put ["protocol"] "xmpp".toList
  let message :=
    message.put ["channel"] (bot.getChannelName ("xmpp:".toList ++ xmpproom))
  let message := message.put ["room"] xmpproom
  let message := message.put ["who", "nick"] who
  let message :=
    message.put ["preamble"] (preambleFormaterXmpp bot.preambleXmppFmt who xmpproom)
  message.addChild ["message"] (textMessage msg)

/-- `textmsg.add("cface.field", value)` for each field. The path goes through the first `cface`, so a second picture adds its fields to the first one's node. -/
def addCface (textmsg : Ptree) (cface : QqMsgCface) : Ptree :=
  let field (t : Ptree) (name : String) (value : Str) := t.add ["cface", name] value
  let textmsg := field textmsg "name" cface.name
  let textmsg := field textmsg "gid" cface.gid
  let textmsg := field textmsg "uin" cface.uin
  let textmsg := field textmsg "key" cface.key
  let textmsg := field textmsg "server" cface.server
  let textmsg := field textmsg "file_id" cface.fileId
  let textmsg := field textmsg "vfwebqq" cface.vfwebqq
  field textmsg "gchatpicurl" cface.gchatpicurl

def faceUrl (face : Int) : Str :=
  "http://0.web.qstatic.com/webqqpic/style/face/".toList ++ (toString face).toList ++ ".gif".toList

def addQqMsg (textmsg : Ptree) : QqMsg → Ptree
  | .font _ => textmsg
  | .text text => textmsg.add ["text"] text
  | .cface cface => addCface textmsg cface
  | .face face => textmsg.add ["img"] (faceUrl face)

def qqWho (who : Str) (group : Option QqGroup) (buddy : Option QqBuddy) :
    Ptree × Option Str :=
  let ptreeWho := (default : Ptree).add ["code"] who
  match group, buddy with
  | some group, some buddy =>
    let ptreeWho :=
      ptreeWho.add ["nick"] (if buddy.nick = [] then buddy.uin else buddy.nick)
    let ptreeWho := ptreeWho.add ["name"] buddy.nick
    let ptreeWho := ptreeWho.add ["qqnumber"] buddy.qqnum
    let ptreeWho := ptreeWho.add ["card"] buddy.card
    let op := if buddy.mflag &&& 1 = 1 ∨ buddy.uin = group.owner then "1".toList else "0".toList
    (ptreeWho, some op)
  | _, _ => (ptreeWho.add ["nick"] who, none)

def qqMessageTree (bot : Bot) (groupCode who : Str) (group : Option QqGroup)
    (buddy : Option QqBuddy) (msg : List QqMsg) : Ptree :=
  let message := (default : Ptree).put ["protocol"] "qq".toList
  let ptreeGroup := (default : Ptree).add ["code"] groupCode
  let (ptreeGroup, channelName) := match group with
    | some group =>
      ((ptreeGroup.add ["groupnumber"] group.qqnum).add ["name"] group.name,
        bot.getChannelName ("qq:".toList ++ group.qqnum))
    | none => (ptreeGroup, groupCode)
  let message := message.put ["channel"] channelName
  let message := message.addChild ["room"] ptreeGroup
  let (ptreeWho, op) := qqWho who group buddy
  let message := match op with
    | some op => message.add ["op"] op
    | none => message
  let message := message.addChild ["who"] ptreeWho
  let message :=
    message.add ["preamble"] (preambleFormaterQq bot.preambleQqFmt buddy who group)
  message.addChild ["message"] (msg.foldl addQqMsg default)

def qqGroupMessage (locals : Locals) (bot : Bot) (groupCode who : Str) (msg : List QqMsg) :
    Except Exn Ptree :=
  match bot.mQqAccount with
  | none => throw .nullPointer
  | some account => do
    let group ← account.getGroupByGid locals groupCode
    -- the member is only looked up once the group is known
    let buddy := group.bind fun _ => account.getBuddyByUin locals who
    return qqMessageTree bot groupCode who group buddy msg

inductive Arrival where
  | irc (pMsg : IrcMsg)
  | xmpp (xmpproom who msg : Str)
  | qq (groupCode who : Str) (msg : List QqMsg)
  deriving DecidableEq

def Arrival.message (locals : Locals) (bot : Bot) : Arrival → Except Exn Ptree
  | .irc pMsg => ircMessage bot pMsg
  | .xmpp xmpproom who msg => .ok (xmppMessage bot xmpproom who msg)
  | .qq groupCode who msg => qqGroupMessage locals bot groupCode who msg

def Bot.receive (locals : Locals) (bot : Bot) (arrival : Arrival) : Outcome :=
  match arrival.message locals bot with
  | .error e => ⟨bot, [], some e⟩
  | .ok message => bot.forwardMessage locals message

/-- Bit 0 of the value stored in the column. `NULL` has no bits. -/
def GroupBuddyRow.isManager (row : GroupBuddyRow) : Prop :=
  ∃ v, row.mflag = some v ∧ v.getLsbD 0 = true

theorem qqMessageTree_op (bot : Bot) (groupCode who : Str) (group : QqGroup) (buddy : QqBuddy) (msg : List QqMsg) :
    (qqMessageTree bot groupCode who (some group) (some buddy) msg).get? ["op"] =
      some (if buddy.mflag &&& 1 = 1 ∨ buddy.uin = group.owner then "1".toList else "0".toList) := by
  simp (disch := decide) only [qqMessageTree, qqWho, add, get?_single, find?_addChild_of_ne]
  rw [find?_addChild_single]
  simp (disch := decide) only [find?_addChild_of_ne, find?_put_of_ne, find?_default, Option.none_or,
    if_true, Option.map_some, data_leaf]

theorem op_value_eq_one {p : Prop} [Decidable p] : (if p then "1".toList else "0".toList) = "1".toList ↔ p := by
  by_cases hp : p <;> simp [hp]

theorem and_one_eq_one_iff (x : BitVec 32) : x &&& 1 = 1 ↔ x.getLsbD 0 = true := by
  have hand : x &&& 1 = BitVec.setWidth 32 (BitVec.ofBool (x.getLsbD 0)) :=
    BitVec.and_one_eq_setWidth_ofBool_getLsbD
  rw [hand]
  cases x.getLsbD 0 <;> decide

theorem fetched_bit (row : GroupBuddyRow) (locals : Locals) :
    ((row.mflag.map (BitVec.setWidth 32)).getD locals.mflag).getLsbD 0 = true ↔
      row.isManager ∨ (row.mflag = none ∧ locals.mflag.getLsbD 0 = true) := by
  cases hflag : row.mflag with
  | none => simp [GroupBuddyRow.isManager, hflag]
  | some v => simp [GroupBuddyRow.isManager, hflag]

def marksOp (locals : Locals) (bot : Bot) (groupCode who : Str) (msg : List QqMsg) : Prop :=
  ∃ message, qqGroupMessage locals bot groupCode who msg = .ok message ∧
    message.get? ["op"] = some "1".toList

section Marked

variable {locals : Locals} {bot : Bot} {account : BuddyMgr} {groupCode : Str} {group : QqGroup} {row : GroupBuddyRow}
  (haccount : bot.mQqAccount = some account) (hgroup : account.getGroupByGid locals groupCode = .ok (some group))
  (hrow : row ∈ account.groupBuddies) (msg : List QqMsg)

include haccount hgroup hrow

theorem marksOp_iff : marksOp locals bot groupCode row.uid msg ↔
      row.isManager ∨ (row.mflag = none ∧ locals.mflag.getLsbD 0 = true) ∨ group.owner = [] := by
  have hmessage : qqGroupMessage locals bot groupCode row.uid msg =
      .ok (qqMessageTree bot groupCode row.uid (some group)
        (account.getBuddyByUin locals row.uid) msg) := by
    simp only [qqGroupMessage, haccount, hgroup]
    rfl
  simp only [marksOp, hmessage, BuddyMgr.getBuddyByUin_of_mem hrow, Except.ok.injEq, exists_eq_left',
    qqMessageTree_op, Option.some.injEq, op_value_eq_one]
  rw [and_one_eq_one_iff, fetched_bit, or_assoc, eq_comm (a := ([] : Str))]

/-- The mark is what the tables say about the member exactly if the member is a manager; or the column is `NULL`, the local held an odd value and the member is the owner; or the owner's column is empty exactly when it is the member's. -/
theorem op_mark_right_iff :
    (marksOp locals bot groupCode row.uid msg ↔ row.isManager ∨ row.uid = group.owner) ↔
      row.isManager ∨
      (row.mflag = none ∧ locals.mflag.getLsbD 0 = true ∧ row.uid = group.owner) ∨
      (¬(row.mflag = none ∧ locals.mflag.getLsbD 0 = true) ∧
        (group.owner = [] ↔ row.uid = group.owner)) := by
  rw [marksOp_iff haccount hgroup hrow msg]
  grind

end Marked

def ownerRow : GroupBuddyRow := ⟨['1'], ['7'], none, none, some 0, none⟩

def managerRow : GroupBuddyRow := ⟨['1'], ['8'], none, none, some 1, none⟩

/-- A group owned by `7`, with `8` as its manager. -/
def ownedTables : BuddyMgr where
  groups := [⟨['1'], ['2'], [], some ['3'], some ['7'], 0⟩]
  groupBuddies := [ownerRow, managerRow]
  uid_unique := by decide

theorem ownedTables_getGroupByGid : ownedTables.getGroupByGid ⟨.null, 0⟩ ['1'] =
    .ok (some ⟨['1'], [], ['2'], ['3'], ['7']⟩) := rfl

theorem op_mark_right_of_manager :
    let bot := { Bot.new with mQqAccount := some ownedTables }
    managerRow ∈ ownedTables.groupBuddies ∧
      (marksOp ⟨.null, 0⟩ bot ['1'] managerRow.uid [] ↔
        managerRow.isManager ∨ managerRow.uid = ['7']) := by
  have hrow : managerRow ∈ ownedTables.groupBuddies := by decide
  exact ⟨hrow, (op_mark_right_iff rfl ownedTables_getGroupByGid hrow []).mpr (.inl ⟨1, rfl, rfl⟩)⟩

/-- The owner is not marked. -/
theorem owner_not_marked :
    let bot := { Bot.new with mQqAccount := some ownedTables }
    ownerRow ∈ ownedTables.groupBuddies ∧
      ownedTables.getGroupByGid ⟨.null, 0⟩ ['1'] = .ok (some ⟨['1'], [], ['2'], ['3'], ownerRow.uid⟩) ∧
      ¬ marksOp ⟨.null, 0⟩ bot ['1'] ownerRow.uid [] := by
  have hrow : ownerRow ∈ ownedTables.groupBuddies := by decide
  refine ⟨hrow, rfl, ?_⟩
  rw [marksOp_iff rfl ownedTables_getGroupByGid hrow []]
  rintro (⟨v, hv, hbit⟩ | ⟨hnull, _⟩ | howner)
  · obtain rfl : 0 = v := Option.some.inj hv
    exact absurd hbit (by decide)
  · exact absurd hnull (by decide)
  · exact absurd howner (by decide)

end Avbot
