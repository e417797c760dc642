import Avbot.Base.Ptree
import Avbot.Lib.EventMachine
import Avbot.Webqq.BuddyMgr

/-!
# Polling for messages

`poll_message_op` walks through the items of the answer to a poll. A group message is handed to `process_group_message_op`, another coroutine, whose error code becomes the `ec` of the walk. Both are one machine here, since the first sleeps while the second runs. Every event that resumes them carries the tables it finds. What an exception leaves behind is the point `threw`.
-/

namespace Avbot

open List EventMachine Option

abbrev Items := List (String × Ptree)

structure PollEnv where
  locals : Locals
  facemap : Int → Int
  mVfwebqq : Str

def needRefresh : ErrorCode := makeErrorCode .pollFailedNeedRefresh

def kickedOff : ErrorCode := makeErrorCode .pollFailedUserKickedOff

structure ForeignError where
  ec : ErrorCode
  foreign : ec ≠ needRefresh ∧ ec ≠ kickedOff

/-- A group message, whether its group was known at the first look-up, and the error of the last completion that it waited for. -/
structure GroupItem where
  mJstree : Ptree
  groupCode : Str
  who : Str
  known : Bool
  completion : ErrorCode
  rest : Items

/-- What a finished group message was told from outside: by the tables, whether its group is known, and by the last completion. -/
structure GroupVerdict where
  item : Ptree
  known : Bool
  completion : ErrorCode

def GroupItem.verdict (item : GroupItem) : GroupVerdict := ⟨item.mJstree, item.known, item.completion⟩

inductive PollPoint where
  | polling
  | idle (item : Ptree) (rest : Items)
  | members (item : GroupItem)
  | picture (cface : QqMsgCface) (parts : List QqMsg) (item : GroupItem) (content : Items)
  | handed (ec : ErrorCode)
  | threw (e : Exn)

structure PollWorld where
  mBuddyMgr : BuddyMgr
  point : PollPoint
  verdicts : List GroupVerdict
  siggroupmessage : List (Str × Str × List QqMsg)
  signewbuddy : List (Option QqGroup × QqBuddy)
  newMembers : List (Str × Str)

inductive PollEvent where
  | answer (a : HttpAnswer)
  | idle (m : BuddyMgr)
  | members (e : ForeignError) (m : BuddyMgr)
  | picture (e : ForeignError) (url : Str) (m : BuddyMgr)

def readGroupJoin (result : Ptree) : Except Exn (Option (Str × Str)) := do
  let kind ← getString result ["value", "type"]
  if kind = "group_join".toList then
    let groupnumber ← getString result ["value", "t_gcode"]
    let newuseruid ← getString result ["value", "new_member"]
    return some (groupnumber, newuseruid)
  else return none

inductive Content where
  | nothing
  | part (msg : QqMsg)
  | picture (cface : QqMsgCface)

/-- A `cface`. The group is looked up once more, and the pointer is used without a test. -/
def readPicture (env : PollEnv) (m : BuddyMgr) (groupCode who : Str) (last : Ptree) :
    Except Exn QqMsgCface := do
  match ← m.getGroupByGid env.locals groupCode with
  | none => throw .nullPointer
  | some group =>
    let fileId ← getString last ["file_id"]
    let name ← getString last ["name"]
    let key ← getString last ["key"]
    let server ← getString last ["server"]
    return { gid := group.code, uin := who, vfwebqq := env.mVfwebqq, name := name,
             fileId := fileId, key := key, server := server, gchatpicurl := [] }

def contentKind (content : Ptree) : Str := (content.children.head?.map fun c => c.2.data).getD []

def contentBody (content : Ptree) : Ptree := (content.children.getLast?.map Prod.snd).getD default

/-- One element of `value.content`: an array whose first entry is its kind, or a text. -/
def readContent (env : PollEnv) (m : BuddyMgr) (groupCode who : Str) (content : Ptree) :
    Except Exn Content :=
  if (content.find? "").isSome then
    if contentKind content = "font".toList then
      (getString (contentBody content) ["name"]).map fun name => .part (.font name)
    else if contentKind content = "face".toList then
      (Str.lexicalCast (contentBody content).data).map fun wface => .part (.face (env.facemap wface))
    else if contentKind content = "cface".toList then (readPicture env m groupCode who (contentBody content)).map .picture
    else .ok .nothing
  else .ok (.part (.text content.data))

namespace PollWorld

variable (env : PollEnv)

/-- From one test of the loop over the items to the next suspension. The first two branches already cover every `poll_type`. -/
def nextItem (w : PollWorld) (ec : ErrorCode) : Items → PollWorld
  | [] => { w with point := .handed ec }
  | result :: rest =>
    match getString result.2 ["poll_type"] with
    | .error e => { w with point := .threw e }
    | .ok pollType =>
      if pollType ≠ "group_message".toList then nextItem w ec rest
      else if pollType = "group_message".toList then { w with point := .idle result.2 rest }
      else if pollType = "sys_g_msg".toList then
        match readGroupJoin result.2 with
        | .error e => { w with point := .threw e }
        | .ok none => nextItem w ec rest
        | .ok (some join) => nextItem { w with newMembers := w.newMembers ++ [join] } ec rest
      else if pollType = "kick_message".toList then nextItem w kickedOff rest
      else nextItem w ec rest

/-- The end of `process_group_message_op`: `m_handler(ec)` resumes the walk, the signal comes after it. -/
def finishItem (w : PollWorld) (ec : ErrorCode) (parts : List QqMsg) (item : GroupItem) : PollWorld :=
  let w : PollWorld := { w with verdicts := w.verdicts ++ [item.verdict] }
  let w := w.nextItem ec item.rest
  { w with siggroupmessage := w.siggroupmessage ++ [(item.groupCode, item.who, parts)] }

def nextContent (w : PollWorld) (ec : ErrorCode) (parts : List QqMsg) (item : GroupItem) :
    Items → PollWorld
  | [] => w.finishItem ec parts item
  | content :: rest =>
    match readContent env w.mBuddyMgr item.groupCode item.who content.2 with
    | .error e => { w with point := .threw e }
    | .ok .nothing => nextContent w ec parts item rest
    | .ok (.part msg) => nextContent w ec (parts ++ [msg]) item rest
    | .ok (.picture cface) =>
      { w with point := .picture cface parts item rest }

def startContent (w : PollWorld) (ec : ErrorCode) (item : GroupItem) : PollWorld :=
  match item.mJstree.getChild? ["value", "content"] with
  | none => { w with point := .threw .ptreeBadPath }
  | some content => w.nextContent env ec [] item content.children

/-- The reads at the head of `process_group_message_op` and the first look-up of the group. -/
def lookUpGroup (m : BuddyMgr) (result : Ptree) : Except Exn (Str × Str × Option QqGroup) := do
  let groupCode ← getString result ["value", "from_uin"]
  let who ← getString result ["value", "send_uin"]
  let group ← m.getGroupByGid env.locals groupCode
  return (groupCode, who, group)

/-- `process_group_message_op` from its start to its first suspension. A sender who is not stored is asked for first, unless the group is unknown as well. -/
def startItem (w : PollWorld) (result : Ptree) (rest : Items) : PollWorld :=
  match lookUpGroup env w.mBuddyMgr result with
  | .error e => { w with point := .threw e }
  | .ok (groupCode, who, none) => w.startContent env needRefresh ⟨result, groupCode, who, false, .success, rest⟩
  | .ok (groupCode, who, some _) =>
    if (w.mBuddyMgr.getBuddyByUin env.locals who).isNone then
      { w with point := .members ⟨result, groupCode, who, true, .success, rest⟩ }
    else w.startContent env .success ⟨result, groupCode, who, true, .success, rest⟩

/-- `process_group_message_op` when the members have been asked for: a sender who is now stored is announced. -/
def resumeMembers (w : PollWorld) (ec : ErrorCode) (item : GroupItem) : PollWorld :=
  match w.mBuddyMgr.getBuddyByUin env.locals item.who with
  | none => w.startContent env ec item
  | some buddy =>
    match w.mBuddyMgr.getGroupByGid env.locals item.groupCode with
    | .error e => { w with point := .threw e }
    | .ok group =>
      { w with signewbuddy := w.signewbuddy ++ [(group, buddy)] }.startContent env ec item

def readPoll (w : PollWorld) (jstree : Ptree) : PollWorld :=
  let hand (ec : ErrorCode) : PollWorld := { w with point := .handed ec }
  match getInt jstree ["retcode"] with
  | .error _ => hand (makeErrorCode .pollFailedNetworkError)
  | .ok retcode =>
    if retcode = 116 then
      match getString jstree ["p"] with
      | .error _ => hand (makeErrorCode .pollFailedNetworkError)
      | .ok _ => hand .success
    else if retcode = 102 then hand .success
    else if retcode = 121 ∨ retcode = 120 ∨ retcode = 100 then hand (makeErrorCode .pollFailedNeedLogin)
    else if retcode = 103 then hand (makeErrorCode .pollFailedNeedLogin)
    else if retcode = 110 then hand (makeErrorCode .pollFailedUserQuit)
    else if retcode = 100006 then hand needRefresh
    else if retcode ≠ 0 then hand (makeErrorCode .pollFailedUnknowRetCode)
    else
      match jstree.getChild? ["result"] with
      | none => { w with point := .threw .ptreeBadPath }
      | some result => w.nextItem .success result.children

def step (w : PollWorld) : PollEvent → Option PollWorld
  | .answer a =>
    match w.point with
    | .polling =>
      match a.ec.failed, a.json with
      | false, some jstree => some (w.readPoll jstree)
      | _, _ => some { w with point := .handed (makeErrorCode .pollFailedNetworkError) }
    | _ => none
  | .idle m =>
    match w.point with
    | .idle result rest => some ({ w with mBuddyMgr := m }.startItem env result rest)
    | _ => none
  | .members e m =>
    match w.point with
    | .members item => some ({ w with mBuddyMgr := m }.resumeMembers env e.ec { item with completion := e.ec })
    | _ => none
  | .picture e url m =>
    match w.point with
    | .picture cface parts item content =>
      some ({ w with mBuddyMgr := m }.nextContent env e.ec
        (parts ++ [QqMsg.cface { cface with gchatpicurl := url }]) { item with completion := e.ec } content)
    | _ => none

def start (m : BuddyMgr) : PollWorld := ⟨m, .polling, [], [], [], []⟩

end PollWorld

/-! ### The verdict -/

def IsKick (result : String × Ptree) : Prop :=
  getString result.2 ["poll_type"] = .ok "kick_message".toList

def groupMessages : Items → List Ptree
  | [] => []
  | result :: rest =>
    match getString result.2 ["poll_type"] with
    | .ok pollType =>
      if pollType = "group_message".toList then result.2 :: groupMessages rest
      else groupMessages rest
    | .error _ => groupMessages rest

def PollPoint.pending : PollPoint → Option (List Ptree)
  | .idle item rest => some (item :: groupMessages rest)
  | .members item => some (item.mJstree :: groupMessages item.rest)
  | .picture _ _ item _ => some (item.mJstree :: groupMessages item.rest)
  | .handed _ => some []
  | .polling | .threw _ => none

def GroupVerdict.ec (v : GroupVerdict) : ErrorCode := if v.known then v.completion else needRefresh

def lastError (verdicts : List GroupVerdict) : ErrorCode :=
  (verdicts.getLast?.map GroupVerdict.ec).getD .success

def GroupVerdict.Honest (v : GroupVerdict) : Prop :=
  v.completion ≠ needRefresh ∧ v.completion ≠ kickedOff

namespace PollWorld

/-- What the main loop should be told about a list of items: a kick first, then an unknown group, then success. Nothing may be thrown on the way. -/
def VerdictRight (items : Items) (w : PollWorld) : Prop :=
  match w.point with
  | .handed ec =>
    ((∃ result ∈ items, IsKick result) → ec = kickedOff) ∧
    ((¬ ∃ result ∈ items, IsKick result) → (∃ v ∈ w.verdicts, v.known = false) → ec = needRefresh) ∧
    ((¬ ∃ result ∈ items, IsKick result) → (¬ ∃ v ∈ w.verdicts, v.known = false) →
      ec.failed = false)
  | .threw _ => False
  | _ => True

/-- Nothing is thrown, no item is a kick, and the last group message is itself from an unknown group if any of them is, and else its last completion was without an error. -/
def LastDecides (items : Items) (w : PollWorld) : Prop :=
  match w.point with
  | .handed _ =>
    (¬ ∃ result ∈ items, IsKick result) ∧
    ∀ last ∈ w.verdicts.getLast?,
      ((∃ v ∈ w.verdicts, v.known = false) → last.known = false) ∧
      ((¬ ∃ v ∈ w.verdicts, v.known = false) → last.completion.failed = false)
  | .threw _ => False
  | _ => True

/-- The verdicts given so far are honest and, with `rest`, make up `messages`. -/
structure Walked (messages rest : List Ptree) (w : PollWorld) : Prop where
  honest : ∀ v ∈ w.verdicts, v.Honest
  covers : w.verdicts.map GroupVerdict.item ++ rest = messages

structure Inv (messages : List Ptree) (w : PollWorld) : Prop where
  honest : ∀ v ∈ w.verdicts, v.Honest
  covers : ∀ rest ∈ w.point.pending, w.verdicts.map GroupVerdict.item ++ rest = messages
  started : w.point ≠ .polling
  handed : ∀ ec, w.point = .handed ec → ec = lastError w.verdicts
  members : ∀ item, w.point = .members item → item.known = true
  picture : ∀ cface parts item content, w.point = .picture cface parts item content → item.known = true

variable {messages rest : List Ptree}

variable {w : PollWorld} {ec : ErrorCode} {item : GroupItem} {m : BuddyMgr} {groupCode : Str}
    {result : Ptree} {v : GroupVerdict}

theorem threw_inv (hw : Walked messages rest w) (e : Exn) : ({ w with point := .threw e } : PollWorld).Inv messages :=
  ⟨hw.honest, by simp [PollPoint.pending], by simp, by simp, by simp, by simp⟩

theorem Inv.walked (hw : w.Inv messages) (hrest : w.point.pending = some rest) : Walked messages rest w :=
  ⟨hw.honest, hw.covers rest hrest⟩

theorem nextItem_cases (w : PollWorld) (ec : ErrorCode) (items : Items) :
    (w.nextItem ec items = { w with point := .handed ec } ∧ groupMessages items = []) ∨
      (∃ e, w.nextItem ec items = { w with point := .threw e }) ∨
      ∃ result rest, w.nextItem ec items = { w with point := .idle result rest } ∧
        groupMessages items = result :: groupMessages rest := by
  induction items with
  | nil => exact .inl ⟨rfl, rfl⟩
  | cons result rest ih =>
    rw [nextItem, groupMessages]
    cases getString result.2 ["poll_type"] with
    | error e => exact .inr (.inl ⟨e, rfl⟩)
    | ok pollType =>
      dsimp only
      by_cases hgroup : pollType = "group_message".toList
      · rw [if_neg (not_not.mpr hgroup), if_pos hgroup, if_pos hgroup]
        exact .inr (.inr ⟨_, _, rfl, rfl⟩)
      · rw [if_pos hgroup, if_neg hgroup]
        exact ih

theorem nextItem_inv {items : Items} (hw : Walked messages (groupMessages items) w) :
    (w.nextItem (lastError w.verdicts) items).Inv messages := by
  rcases nextItem_cases w (lastError w.verdicts) items with ⟨h, hnone⟩ | ⟨e, h⟩ | ⟨result, rest, h, hsome⟩
  · rw [h]
    refine ⟨hw.honest, ?_, by simp, by simp, by simp, by simp⟩
    simpa [PollPoint.pending, hnone] using hw.covers
  · rw [h]
    exact threw_inv hw e
  · rw [h]
    refine ⟨hw.honest, ?_, by simp, by simp, by simp, by simp⟩
    simpa [PollPoint.pending, hsome] using hw.covers

theorem finishItem_inv (parts : List QqMsg) (hw : Walked messages (item.mJstree :: groupMessages item.rest) w)
    (hhonest : item.verdict.Honest) (hec : ec = item.verdict.ec) :
    (w.finishItem ec parts item).Inv messages := by
  let w' : PollWorld := { w with verdicts := w.verdicts ++ [item.verdict] }
  have hwalked : Walked messages (groupMessages item.rest) w' := by
    refine ⟨?_, by simpa [w', GroupItem.verdict] using hw.covers⟩
    intro v hv
    rcases mem_append.mp hv with hv | hv
    · exact hw.honest v hv
    · rw [mem_singleton] at hv
      exact hv ▸ hhonest
  have hlast : lastError w'.verdicts = ec := by simp [lastError, w', hec]
  have hnext := nextItem_inv hwalked
  rw [hlast] at hnext
  exact ⟨hnext.honest, hnext.covers, hnext.started, hnext.handed, hnext.members, hnext.picture⟩

variable {env : PollEnv}

theorem readContent_of_unknown
    (hunknown : m.getGroupByGid env.locals groupCode = .ok none) (who : Str) (content : Ptree)
    (cface : QqMsgCface) : readContent env m groupCode who content ≠ .ok (.picture cface) := by
  have hpicture : ∀ last, readPicture env m groupCode who last = .error .nullPointer := by
    intro last
    rw [readPicture, hunknown]
    rfl
  unfold readContent
  split
  · split
    · cases getString _ _ <;> simp [Except.map]
    · split
      · cases Str.lexicalCast _ <;> simp [Except.map]
      · split
        · rw [hpicture]
          simp [Except.map]
        · simp
  · simp

theorem nextContent_inv (parts : List QqMsg)
    (content : Items) (hw : Walked messages (item.mJstree :: groupMessages item.rest) w)
    (hhonest : item.verdict.Honest) (hec : ec = item.verdict.ec)
    (hknown : item.known = false → w.mBuddyMgr.getGroupByGid env.locals item.groupCode = .ok none) :
    (w.nextContent env ec parts item content).Inv messages := by
  induction content generalizing parts with
  | nil => exact finishItem_inv parts hw hhonest hec
  | cons c rest ih =>
    unfold nextContent
    split
    · exact threw_inv hw _
    · exact ih parts
    · exact ih _
    · rename_i cface hread
      have hitem : item.known = true := by
        by_contra hnot
        exact readContent_of_unknown (hknown (by simpa using hnot)) _ _ cface hread
      refine ⟨hw.honest, ?_, by simp, by simp, by simp, ?_⟩
      · simpa [PollPoint.pending] using hw.covers
      · intro cface' parts' item' content' h
        simp only [PollPoint.picture.injEq] at h
        exact h.2.2.1 ▸ hitem

theorem startContent_inv (hw : Walked messages (item.mJstree :: groupMessages item.rest) w)
    (hhonest : item.verdict.Honest) (hec : ec = item.verdict.ec)
    (hknown : item.known = false → w.mBuddyMgr.getGroupByGid env.locals item.groupCode = .ok none) :
    (w.startContent env ec item).Inv messages := by
  unfold startContent
  split
  · exact threw_inv hw _
  · exact nextContent_inv [] _ hw hhonest hec hknown

theorem success_ne_needRefresh : ErrorCode.success ≠ needRefresh := by decide

theorem success_ne_kickedOff : ErrorCode.success ≠ kickedOff := by decide

theorem ec_of_known (hknown : item.known = true) : item.completion = item.verdict.ec := by
  simp [GroupVerdict.ec, GroupItem.verdict, hknown]

theorem honest_success (hitem : item.completion = .success) : item.verdict.Honest := by
  unfold GroupVerdict.Honest GroupItem.verdict
  rw [hitem]
  exact ⟨success_ne_needRefresh, success_ne_kickedOff⟩

theorem resumeMembers_inv
    (hw : Walked messages (item.mJstree :: groupMessages item.rest) w) (hknown : item.known = true)
    (hhonest : item.verdict.Honest) : (w.resumeMembers env item.completion item).Inv messages := by
  have hec := ec_of_known hknown
  unfold resumeMembers
  split
  · exact startContent_inv hw hhonest hec (by simp [hknown])
  · split
    · exact threw_inv hw _
    · exact startContent_inv ⟨hw.honest, hw.covers⟩ hhonest hec (by simp [hknown])

theorem lookUpGroup_spec {who : Str}
    {group : Option QqGroup} (h : lookUpGroup env m result = .ok (groupCode, who, group)) :
    m.getGroupByGid env.locals groupCode = .ok group := by
  unfold lookUpGroup at h
  cases hcode : getString result ["value", "from_uin"] with
  | error e => simp [hcode, bind, Except.bind] at h
  | ok code =>
    cases hwho : getString result ["value", "send_uin"] with
    | error e => simp [hcode, hwho, bind, Except.bind] at h
    | ok sender =>
      cases hgroup : m.getGroupByGid env.locals code with
      | error e => simp [hcode, hwho, hgroup, bind, Except.bind] at h
      | ok found =>
        simp only [hcode, hwho, hgroup, bind, Except.bind, pure, Except.pure, Except.ok.injEq, Prod.mk.injEq] at h
        obtain ⟨rfl, _, rfl⟩ := h
        exact hgroup

theorem startItem_inv {rest : Items} (hw : Walked messages (result :: groupMessages rest) w) :
    (w.startItem env result rest).Inv messages := by
  unfold startItem
  split
  · exact threw_inv hw _
  · rename_i hlook
    exact startContent_inv hw (honest_success rfl) rfl fun _ => lookUpGroup_spec hlook
  · split
    · refine ⟨hw.honest, ?_, by simp, by simp, ?_, by simp⟩
      · simpa [PollPoint.pending] using hw.covers
      · intro item h
        simp only [PollPoint.members.injEq] at h
        rw [← h]
    · exact startContent_inv hw (honest_success rfl) rfl (by simp)

theorem step_inv {w' : PollWorld} {e : PollEvent} (hw : w.Inv messages)
    (hstep : w.step env e = some w') : w'.Inv messages := by
  have hwalked : ∀ rest, w.point.pending = some rest → Walked messages rest w :=
    fun _ hrest => hw.walked hrest
  cases hpoint : w.point with
  | polling => exact absurd hpoint hw.started
  | idle result rest =>
    cases e <;> simp only [step, hpoint, some.injEq, reduceCtorEq] at hstep
    subst hstep
    have h := hwalked _ (by rw [hpoint]; rfl)
    exact startItem_inv ⟨h.honest, h.covers⟩
  | members item =>
    cases e <;> simp only [step, hpoint, some.injEq, reduceCtorEq] at hstep
    rename_i e m
    subst hstep
    have h := hwalked _ (by rw [hpoint]; rfl)
    refine resumeMembers_inv ⟨h.honest, h.covers⟩ ?_ e.foreign
    exact hw.members item hpoint
  | picture cface parts item content =>
    cases e <;> simp only [step, hpoint, some.injEq, reduceCtorEq] at hstep
    rename_i e url m
    subst hstep
    have h := hwalked _ (by rw [hpoint]; rfl)
    have hknown := hw.picture cface parts item content hpoint
    have hec : e.ec = ({ item with completion := e.ec } : GroupItem).verdict.ec := by
      simp [GroupVerdict.ec, GroupItem.verdict, hknown]
    exact nextContent_inv _ _ ⟨h.honest, h.covers⟩ e.foreign hec (by simp [hknown])
  | handed ec => cases e <;> simp [step, hpoint] at hstep
  | threw ex => cases e <;> simp [step, hpoint] at hstep

theorem needRefresh_ne_kickedOff : needRefresh ≠ kickedOff := by decide

theorem ec_ne_kickedOff (h : v.Honest) : v.ec ≠ kickedOff := by
  unfold GroupVerdict.ec
  split
  · exact h.2
  · exact needRefresh_ne_kickedOff

theorem lastError_ne_kickedOff {verdicts : List GroupVerdict} (h : ∀ v ∈ verdicts, v.Honest) :
    lastError verdicts ≠ kickedOff := by
  unfold lastError
  cases hlast : verdicts.getLast? with
  | none => exact success_ne_kickedOff
  | some v => exact ec_ne_kickedOff (h v (mem_of_getLast? hlast))

theorem ec_eq_needRefresh_iff (h : v.Honest) : v.ec = needRefresh ↔ v.known = false := by
  unfold GroupVerdict.ec
  split
  · rename_i hknown
    simp [hknown, h.1]
  · rename_i hknown
    simpa using hknown

theorem verdictRight_iff_lastDecides (hw : w.Inv messages) (items : Items) :
    VerdictRight items w ↔ LastDecides items w := by
  unfold VerdictRight LastDecides
  cases hpoint : w.point with
  | handed ec =>
    obtain rfl := hw.handed ec hpoint
    have hkick := lastError_ne_kickedOff hw.honest
    by_cases hany : ∃ result ∈ items, IsKick result
    · simp [hany, hkick]
    · cases hlast : w.verdicts.getLast? with
      | none =>
        have hnil : w.verdicts = [] := by simpa using hlast
        simp [hany, hnil, lastError]
      | some last =>
        have hec : lastError w.verdicts = last.ec := by simp [lastError, hlast]
        have hmem := mem_of_getLast? hlast
        have hrefresh := ec_eq_needRefresh_iff (hw.honest last hmem)
        by_cases hunknown : ∃ v ∈ w.verdicts, v.known = false
        · simp only [hany, hec, hrefresh, hunknown, mem_def, some.injEq, forall_eq',
            false_implies, true_and, not_false_eq_true, true_implies, not_true_eq_false, and_true]
        · have hknown : last.known = true := by
            by_contra h
            exact hunknown ⟨last, hmem, by simpa using h⟩
          have hcompletion : last.ec = last.completion := by simp [GroupVerdict.ec, hknown]
          simp only [hany, hec, hcompletion, hunknown, mem_def, some.injEq, forall_eq',
            false_implies, true_and, not_false_eq_true, true_implies]
  | _ => simp

/-- Every group message has its verdict when the walk ends, and the error handed to the main loop is the right one exactly when the last of them decides it. -/
theorem handed_right_iff_lastDecides {m : BuddyMgr} {a : HttpAnswer} {jstree result : Ptree}
    {es : List PollEvent} {w : PollWorld} (hec : a.ec.failed = false) (hjson : a.json = some jstree)
    (hretcode : getInt jstree ["retcode"] = .ok 0) (hresult : jstree.getChild? ["result"] = some result)
    (hrun : run (step env) (start m) (.answer a :: es) = some w) :
    (∀ ec, w.point = .handed ec →
      w.verdicts.map GroupVerdict.item = groupMessages result.children) ∧
    (VerdictRight result.children w ↔ LastDecides result.children w) := by
  have hfirst : (start m).step env (.answer a) =
      some ((start m).nextItem .success result.children) := by
    simp [step, start, hec, hjson, readPoll, hretcode, hresult]
  rw [run_cons, hfirst, bind_some] at hrun
  have hstart : Walked (groupMessages result.children) (groupMessages result.children) (start m) :=
    ⟨by simp [start], by simp [start]⟩
  have hw : w.Inv (groupMessages result.children) :=
    invariant_of_run (fun _ _ _ hs he => step_inv hs he) (nextItem_inv hstart) hrun
  refine ⟨?_, verdictRight_iff_lastDecides hw _⟩
  intro ec hhanded
  simpa using hw.covers [] (by rw [hhanded]; rfl)

def pollItem (pollType : String) (value : List (String × Ptree)) : String × Ptree :=
  ("", .node [] [("poll_type", .leaf pollType.toList), ("value", .node [] value)])

def pollTree (items : Items) : Ptree :=
  .node [] [("retcode", .leaf ['0']), ("result", .node [] items)]

def emptyTables : BuddyMgr := .empty

def quietEnv : PollEnv := ⟨⟨.null, 0⟩, id, []⟩

def knownTables : BuddyMgr :=
  { emptyTables with groups := [⟨['4'], ['c'], ['n'], some ['9'], some ['o'], 0⟩], groups_bound := by decide }

def groupMessage (gid : Char) : String × Ptree :=
  pollItem "group_message" [("from_uin", .leaf [gid]), ("send_uin", .leaf ['7']), ("content", .node [] [("", .leaf ['h', 'i'])])]

def mixedItems : Items := [pollItem "message" [], groupMessage '4', pollItem "sys_g_msg" [], groupMessage '5']

def mixedAnswer : HttpAnswer where
  ec := .success
  body := "\x7b\"retcode\":0,\"result\":[\x7b\"poll_type\":\"message\",\"value\":\x7b\x7d\x7d,\x7b\"poll_type\":\"group_message\",\"value\":\x7b\"from_uin\":\"4\",\"send_uin\":\"7\",\"content\":[\"hi\"]\x7d\x7d,\x7b\"poll_type\":\"sys_g_msg\",\"value\":\x7b\x7d\x7d,\x7b\"poll_type\":\"group_message\",\"value\":\x7b\"from_uin\":\"5\",\"send_uin\":\"7\",\"content\":[\"hi\"]\x7d\x7d]\x7d".toList
  json := some (pollTree mixedItems)

/-- Of four items two are group messages, the first from a group that is known and the second from one that is not. -/
theorem handed_right_of_mixedItems :
    ∃ w, run (step quietEnv) (start knownTables)
        [.answer mixedAnswer, .idle knownTables, .members ⟨.success, by decide⟩ knownTables, .idle knownTables] = some w ∧
      w.point = .handed needRefresh ∧ VerdictRight mixedItems w := by
  let w : PollWorld :=
    { mBuddyMgr := knownTables, point := .handed needRefresh
      verdicts := [⟨(groupMessage '4').2, true, .success⟩, ⟨(groupMessage '5').2, false, .success⟩]
      siggroupmessage := [(['4'], ['7'], [.text ['h', 'i']]), (['5'], ['7'], [.text ['h', 'i']])]
      signewbuddy := [], newMembers := [] }
  have hrun : run (step quietEnv) (start knownTables)
      [.answer mixedAnswer, .idle knownTables, .members ⟨.success, by decide⟩ knownTables, .idle knownTables] = some w := rfl
  have hresult : (pollTree mixedItems).getChild? ["result"] = some (.node [] mixedItems) := rfl
  have hiff := (handed_right_iff_lastDecides rfl rfl rfl hresult hrun).2
  refine ⟨w, hrun, rfl, hiff.mpr ⟨?_, ?_⟩⟩
  · unfold IsKick
    decide
  · simp [w]

def kickAnswer : HttpAnswer where
  ec := .success
  body := "\x7b\"retcode\":0,\"result\":[\x7b\"poll_type\":\"kick_message\",\"value\":\x7b\x7d\x7d]\x7d".toList
  json := some (pollTree [pollItem "kick_message" []])

/-- The account was kicked off, and the main loop is told that all is well. -/
theorem kick_handed_as_success :
    ∃ w, run (step quietEnv) (start emptyTables)
        [.answer kickAnswer] = some w ∧
      w.point = .handed .success ∧ ¬ VerdictRight [pollItem "kick_message" []] w := by
  refine ⟨_, rfl, rfl, ?_⟩
  intro hright
  exact success_ne_kickedOff (hright.1 ⟨_, mem_singleton_self _, rfl⟩)

end PollWorld

end Avbot
