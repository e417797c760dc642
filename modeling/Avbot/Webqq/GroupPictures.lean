import Avbot.Webqq.PollMessage

/-!
# Pictures in group messages

`process_group_message_op` goes on if it does not know the group of a message. A picture in the content needs the group, and its look-up is used without a test. The tables that the operation may find are a parameter, as they can change whenever it waits.
-/

namespace Avbot

open List Option EventMachine Except

def IsPicture (content : Ptree) : Prop := (content.find? "").isSome ∧ contentKind content = "cface".toList

def WellFormedContent (content : Ptree) : Prop :=
  (content.find? "").isSome →
    (contentKind content = "font".toList ∧ (getString (contentBody content) ["name"]).toOption.isSome) ∨
    (contentKind content = "face".toList ∧ (Str.lexicalCast (contentBody content).data).toOption.isSome) ∨
    (contentKind content = "cface".toList ∧
      ∀ field ∈ ["file_id", "name", "key", "server"], (getString (contentBody content) [field]).toOption.isSome)

instance (content : Ptree) : Decidable (IsPicture content) := inferInstanceAs (Decidable (_ ∧ _))

instance (content : Ptree) : Decidable (WellFormedContent content) := inferInstanceAs (Decidable (_ → _))

/-- An item of type `group_message` with these fields. -/
structure WellFormedMessage (item : Ptree) (fromUin sendUin : Str) (content : Ptree) : Prop where
  group : getString item ["value", "from_uin"] = .ok fromUin
  sender : getString item ["value", "send_uin"] = .ok sendUin
  list : item.getChild? ["value", "content"] = some content
  parts : ∀ part ∈ content.children, WellFormedContent part.2

def PollEvent.tables : PollEvent → Option BuddyMgr
  | .answer _ => none
  | .idle m | .members _ m | .picture _ _ m => some m

namespace PollWorld

variable {env : PollEnv} {possible : BuddyMgr → Prop}

def NeverNull (env : PollEnv) (possible : BuddyMgr → Prop) (item : Ptree) : Prop :=
  ∀ (w w' : PollWorld) (es : List PollEvent), w.point = .idle item [] → (∀ e ∈ es, ∀ m ∈ e.tables, possible m) →
    run (step env) w es = some w' → w'.point ≠ .threw .nullPointer

theorem getString_ne_nullPointer (tree : Ptree) (path : List String) : getString tree path ≠ .error .nullPointer := by
  unfold getString
  split <;> simp

theorem lexicalCast_ne_nullPointer (text : Str) : Str.lexicalCast text ≠ .error .nullPointer := by
  unfold Str.lexicalCast
  split <;> simp

variable {α β : Type} {m : BuddyMgr} {groupCode : Str} {w : PollWorld} {i : GroupItem}

theorem map_ne_nullPointer {x : Except Exn α} (f : α → β) (hx : x ≠ .error .nullPointer) :
    x.map f ≠ .error .nullPointer := by
  cases x with
  | error e =>
    intro h
    exact hx (congrArg error (error.inj h))
  | ok a => simp [Except.map]

theorem bind_ne_nullPointer {x : Except Exn α} {f : α → Except Exn β} (hx : x ≠ .error .nullPointer)
    (hf : ∀ a, f a ≠ .error .nullPointer) : x >>= f ≠ .error .nullPointer := by
  cases x with
  | error e =>
    intro h
    exact hx (congrArg error (error.inj h))
  | ok a => exact hf a

theorem getGroupByGid_ne_nullPointer (m : BuddyMgr) (locals : Locals) (gid : Str) :
    m.getGroupByGid locals gid ≠ .error .nullPointer := by
  unfold BuddyMgr.getGroupByGid
  split
  · simp
  · split <;> simp

theorem readPicture_ne_nullPointer (hknown : m.getGroupByGid env.locals groupCode ≠ .ok none)
    (who : Str) (last : Ptree) : readPicture env m groupCode who last ≠ .error .nullPointer := by
  unfold readPicture
  cases hgroup : m.getGroupByGid env.locals groupCode with
  | error e =>
    intro h
    have he : e = .nullPointer := Except.error.inj h
    exact getGroupByGid_ne_nullPointer m env.locals groupCode (by rw [hgroup, he])
  | ok group =>
    cases group with
    | none => exact absurd hgroup hknown
    | some group =>
      have hfield := fun field => getString_ne_nullPointer last [field]
      apply bind_ne_nullPointer (hfield "file_id")
      intro fileId
      apply bind_ne_nullPointer (hfield "name")
      intro name
      apply bind_ne_nullPointer (hfield "key")
      intro key
      apply bind_ne_nullPointer (hfield "server")
      intro server
      simp [pure, Except.pure]

theorem readContent_ne_nullPointer {content : Ptree}
    (hsafe : IsPicture content → m.getGroupByGid env.locals groupCode ≠ .ok none) (who : Str) :
    readContent env m groupCode who content ≠ .error .nullPointer := by
  unfold readContent
  split
  · next harray =>
      split
      · exact map_ne_nullPointer _ (getString_ne_nullPointer _ _)
      · split
        · exact map_ne_nullPointer _ (lexicalCast_ne_nullPointer _)
        · split
          · next hkind => exact map_ne_nullPointer _ (readPicture_ne_nullPointer (hsafe ⟨harray, hkind⟩) who _)
          · simp
  · simp

theorem readContent_picture {content : Ptree}
    (hunknown : m.getGroupByGid env.locals groupCode = .ok none) (hpicture : IsPicture content) (who : Str) :
    readContent env m groupCode who content = .error .nullPointer := by
  obtain ⟨harray, hkind⟩ := hpicture
  have hread : readPicture env m groupCode who (contentBody content) = .error .nullPointer := by
    rw [readPicture, hunknown]
    rfl
  rw [readContent, if_pos harray, hkind, if_neg (by decide), if_neg (by decide), if_pos rfl]
  exact congrArg (Except.map Content.picture) hread

theorem exists_ok_of_isSome {x : Except Exn α} (hx : x.toOption.isSome) : ∃ a, x = .ok a := by
  cases x with
  | error e => cases hx
  | ok a => exact ⟨a, rfl⟩

theorem readContent_part {content : Ptree} (hwell : WellFormedContent content)
    (hpicture : ¬ IsPicture content) (who : Str) : ∃ msg, readContent env m groupCode who content = .ok (.part msg) := by
  by_cases harray : (content.find? "").isSome
  · rcases hwell harray with ⟨hkind, hname⟩ | ⟨hkind, hface⟩ | ⟨hkind, -⟩
    · obtain ⟨name, hname⟩ := exists_ok_of_isSome hname
      refine ⟨.font name, ?_⟩
      rw [readContent, if_pos harray, hkind, if_pos rfl]
      exact congrArg (Except.map _) hname
    · obtain ⟨face, hface⟩ := exists_ok_of_isSome hface
      refine ⟨.face (env.facemap face), ?_⟩
      rw [readContent, if_pos harray, hkind, if_neg (by decide), if_pos rfl]
      exact congrArg (Except.map _) hface
    · exact absurd ⟨harray, hkind⟩ hpicture
  · refine ⟨.text content.data, ?_⟩
    unfold readContent
    rw [if_neg harray]

variable {item content : Ptree} {fromUin sendUin : Str}

def OnItem (item content : Ptree) (fromUin : Str) : PollPoint → Prop
  | .idle item' rest => item' = item ∧ rest = []
  | .members i => i.mJstree = item ∧ i.groupCode = fromUin ∧ i.rest = []
  | .picture _ _ i left => i.groupCode = fromUin ∧ i.rest = [] ∧ ∀ part ∈ left, part ∈ content.children
  | .handed _ => True
  | .threw e => e ≠ .nullPointer
  | .polling => False

def GroupFound (env : PollEnv) (m : BuddyMgr) (fromUin : Str) (content : Ptree) : Prop :=
  (∃ part ∈ content.children, IsPicture part.2) → m.getGroupByGid env.locals fromUin ≠ .ok none

theorem onItem_nextContent (hfound : GroupFound env w.mBuddyMgr fromUin content)
    (hcode : i.groupCode = fromUin) (hrest : i.rest = []) (ec : ErrorCode) (parts : List QqMsg) (left : Items)
    (hleft : ∀ part ∈ left, part ∈ content.children) :
    OnItem item content fromUin (w.nextContent env ec parts i left).point := by
  induction left generalizing parts with
  | nil =>
    rw [nextContent, finishItem, hrest]
    trivial
  | cons part left ih =>
    have hpart := hleft part mem_cons_self
    have hleft' : ∀ p ∈ left, p ∈ content.children := fun p hp => hleft p (mem_cons_of_mem _ hp)
    have hread : readContent env w.mBuddyMgr i.groupCode i.who part.2 ≠ .error .nullPointer := by
      rw [hcode]
      exact readContent_ne_nullPointer (fun hpicture => hfound ⟨part, hpart, hpicture⟩) i.who
    unfold nextContent
    split
    · next e herror =>
        rintro rfl
        exact hread herror
    · exact ih parts hleft'
    · exact ih _ hleft'
    · exact ⟨hcode, hrest, hleft'⟩

section

variable (hwell : WellFormedMessage item fromUin sendUin content)

include hwell

theorem onItem_startContent
    (hfound : GroupFound env w.mBuddyMgr fromUin content) (hitem : i.mJstree = item) (hcode : i.groupCode = fromUin)
    (hrest : i.rest = []) (ec : ErrorCode) : OnItem item content fromUin (w.startContent env ec i).point := by
  rw [startContent, hitem, hwell.list]
  exact onItem_nextContent hfound hcode hrest ec [] content.children fun _ hpart => hpart

theorem lookUpGroup_eq (m : BuddyMgr) :
    lookUpGroup env m item = (m.getGroupByGid env.locals fromUin).map fun group => (fromUin, sendUin, group) := by
  unfold lookUpGroup
  rw [hwell.group, hwell.sender]
  show (m.getGroupByGid env.locals fromUin >>= fun group => pure (fromUin, sendUin, group)) = _
  cases m.getGroupByGid env.locals fromUin <;> rfl

theorem onItem_startItem
    (hfound : GroupFound env w.mBuddyMgr fromUin content) : OnItem item content fromUin (w.startItem env item []).point := by
  unfold startItem
  rw [lookUpGroup_eq hwell]
  cases hgroup : w.mBuddyMgr.getGroupByGid env.locals fromUin with
  | error e =>
    rintro rfl
    exact getGroupByGid_ne_nullPointer _ _ _ hgroup
  | ok group =>
    cases group with
    | none => exact onItem_startContent hwell hfound rfl rfl rfl needRefresh
    | some group =>
      dsimp only [Except.map]
      split
      · exact ⟨rfl, rfl, rfl⟩
      · exact onItem_startContent hwell hfound rfl rfl rfl .success

theorem onItem_resumeMembers
    (hfound : GroupFound env w.mBuddyMgr fromUin content) (hitem : i.mJstree = item) (hcode : i.groupCode = fromUin)
    (hrest : i.rest = []) (ec : ErrorCode) : OnItem item content fromUin (w.resumeMembers env ec i).point := by
  unfold resumeMembers
  split
  · exact onItem_startContent hwell hfound hitem hcode hrest ec
  · split
    · next e herror =>
        rintro rfl
        exact getGroupByGid_ne_nullPointer _ _ _ herror
    · next group _ =>
        exact onItem_startContent (w := { w with signewbuddy := w.signewbuddy ++ [(group, _)] }) hwell hfound hitem hcode hrest ec

theorem onItem_step {w' : PollWorld} {e : PollEvent}
    (hfound : ∀ m ∈ e.tables, GroupFound env m fromUin content) (hw : OnItem item content fromUin w.point)
    (hstep : w.step env e = some w') : OnItem item content fromUin w'.point := by
  obtain ⟨mgr, point, verdicts, siggroupmessage, signewbuddy, newMembers⟩ := w
  cases point with
  | polling => exact absurd hw id
  | idle item' rest =>
    obtain ⟨rfl, rfl⟩ := hw
    cases e with
    | idle m =>
      obtain rfl := some.inj hstep
      exact onItem_startItem hwell (hfound m rfl)
    | answer | members | picture => cases hstep
  | members i =>
    obtain ⟨hitem, hcode, hrest⟩ := hw
    cases e with
    | members e m =>
      obtain rfl := some.inj hstep
      exact onItem_resumeMembers (w := ⟨m, _, _, _, _, _⟩) (i := { i with completion := e.ec }) hwell (hfound m rfl) hitem
        hcode hrest e.ec
    | answer | idle | picture => cases hstep
  | picture cface parts i left =>
    obtain ⟨hcode, hrest, hleft⟩ := hw
    cases e with
    | picture e url m =>
      obtain rfl := some.inj hstep
      exact onItem_nextContent (w := ⟨m, _, _, _, _, _⟩) (i := { i with completion := e.ec }) (hfound m rfl) hcode hrest
        e.ec _ left hleft
    | answer | idle | members => cases hstep
  | handed | threw => cases e <;> cases hstep

end

theorem nextContent_of_unknown
    (hunknown : w.mBuddyMgr.getGroupByGid env.locals i.groupCode = .ok none) (ec : ErrorCode) (parts : List QqMsg) (left : Items)
    (hwell : ∀ part ∈ left, WellFormedContent part.2) (hpicture : ∃ part ∈ left, IsPicture part.2) :
    (w.nextContent env ec parts i left).point = .threw .nullPointer := by
  induction left generalizing parts with
  | nil => simp at hpicture
  | cons part left ih =>
    rw [nextContent]
    by_cases hfirst : IsPicture part.2
    · rw [readContent_picture hunknown hfirst]
    · obtain ⟨msg, hmsg⟩ := readContent_part (m := w.mBuddyMgr) (hwell part mem_cons_self) hfirst i.who
      rw [hmsg]
      apply ih
      · exact fun p hp => hwell p (mem_cons_of_mem _ hp)
      · obtain ⟨p, hp, hpic⟩ := hpicture
        rcases mem_cons.mp hp with rfl | hp
        · exact absurd hpic hfirst
        · exact ⟨p, hp, hpic⟩

theorem startItem_of_unknown (hwell : WellFormedMessage item fromUin sendUin content)
    (hunknown : w.mBuddyMgr.getGroupByGid env.locals fromUin = .ok none)
    (hpicture : ∃ part ∈ content.children, IsPicture part.2) :
    (w.startItem env item []).point = .threw .nullPointer := by
  unfold startItem
  rw [lookUpGroup_eq hwell, hunknown]
  dsimp only [Except.map]
  rw [startContent, hwell.list]
  exact nextContent_of_unknown hunknown needRefresh [] content.children hwell.parts hpicture

/-- No null pointer is used exactly when the message has no picture, or its group is found in all tables that are possible while it is processed. -/
theorem neverNull_iff (hwell : WellFormedMessage item fromUin sendUin content) :
    NeverNull env possible item ↔ ∀ m, possible m → GroupFound env m fromUin content := by
  constructor
  · intro hnever m hm hpicture hunknown
    let w : PollWorld := ⟨m, .idle item [], [], [], [], []⟩
    have htables : ∀ e ∈ [PollEvent.idle m], ∀ m' ∈ e.tables, possible m' := by
      intro e he m' hm'
      obtain rfl := mem_singleton.mp he
      obtain rfl := some.inj hm'
      exact hm
    exact hnever w _ _ rfl htables rfl (startItem_of_unknown hwell hunknown hpicture)
  · intro hfound w w' es hpoint htables hrun
    have hstart : OnItem item content fromUin w.point := by
      rw [hpoint]
      exact ⟨rfl, rfl⟩
    have hend : OnItem item content fromUin w'.point :=
      invariant_of_meets
        (fun v e v' hv hpossible hstep => onItem_step hwell (fun m hm => hfound m (hpossible m hm)) hv hstep)
        hstart (meets_of_forall_mem htables w) hrun
    intro hnull
    rw [hnull] at hend
    exact hend rfl

def pictureContent : Ptree :=
  .node [] [("", .leaf ['h', 'i']), ("", .node [] [("", .leaf "cface".toList), ("", .node []
    [("name", .leaf ['n']), ("file_id", .leaf ['f']), ("key", .leaf ['k']), ("server", .leaf ['s'])])])]

def pictureMessage : Ptree :=
  .node [] [("poll_type", .leaf "group_message".toList),
    ("value", .node [] [("from_uin", .leaf ['5']), ("send_uin", .leaf ['7']), ("content", pictureContent)])]

theorem wellFormed_pictureMessage : WellFormedMessage pictureMessage ['5'] ['7'] pictureContent :=
  ⟨rfl, rfl, rfl, by decide +kernel⟩

/-- The group is stored, and stays so. -/
theorem neverNull_of_stored_group :
    let m : BuddyMgr := .mk [⟨['5'], ['6'], ['a'], some ['9'], some [], 0⟩] [] nodup_nil
    WellFormedMessage pictureMessage ['5'] ['7'] pictureContent ∧ NeverNull quietEnv (· = m) pictureMessage := by
  intro m
  refine ⟨wellFormed_pictureMessage, (neverNull_iff wellFormed_pictureMessage).mpr ?_⟩
  rintro m' rfl -
  simp [BuddyMgr.getGroupByGid, m, Str.cStr]

/-- No group is stored. The text is read, and then the group of the picture is a null pointer. -/
theorem picture_of_unknown_group :
    WellFormedMessage pictureMessage ['5'] ['7'] pictureContent ∧
      ∃ w, run (step quietEnv) ⟨emptyTables, .idle pictureMessage [], [], [], [], []⟩ [.idle emptyTables] = some w ∧
        w.point = .threw .nullPointer :=
  ⟨wellFormed_pictureMessage, _, rfl, rfl⟩

end PollWorld

end Avbot
