import Avbot.Webqq.GroupList
import Avbot.Webqq.GroupTable

/-!
# The numbers of groups under a new list

The server gives every group a new `gid` at each login. `update_group_list_op` enters a list into the table one group at a time, and each entry takes the number over from the row of its code, which is gone if an entry before has got its old `gid`.
-/

namespace Avbot

open List

/-- The `gid` as the table holds it. -/
def QqGroup.boundGid (g : QqGroup) : Str := Str.cStr g.gid

def QqGroup.boundCode (g : QqGroup) : Str := Str.cStr g.code

namespace BuddyMgr

def storedQqnum (m : BuddyMgr) (code : Str) : Option Str :=
  (m.groups.find? fun row => row.groupCode = Str.cStr code).bind GroupRow.qqnum

/-- The number that is found when the rows with these `gid`s are gone. -/
def storedQqnumWithout (m : BuddyMgr) (gids : List Str) (code : Str) : Option Str :=
  ((m.groups.filter fun row => row.gid ∉ gids).find? fun row => row.groupCode = Str.cStr code).bind GroupRow.qqnum

def updateAll (now : Nat) (m : BuddyMgr) (gs : List QqGroup) : BuddyMgr :=
  gs.foldl (fun m g => m.updateGroupList now g.gid g.name g.code) m

variable (now : Nat) (m : BuddyMgr)

theorem updateAll_append (gs hs : List QqGroup) :
    m.updateAll now (gs ++ hs) = (m.updateAll now gs).updateAll now hs := foldl_append

theorem updateAll_cons (g : QqGroup) (gs : List QqGroup) :
    m.updateAll now (g :: gs) = (m.updateGroupList now g.gid g.name g.code).updateAll now gs := rfl

theorem storedQqnum_eq (code : Str) :
    m.storedQqnum code = (m.groups.filter fun row => row.groupCode = Str.cStr code).head?.bind GroupRow.qqnum := by
  rw [storedQqnum, head?_filter]

variable {gs : List QqGroup} {code : Str}

theorem filter_updateAll (hcode : code ∉ gs.map QqGroup.boundCode) (now : Nat) (m : BuddyMgr) :
    (m.updateAll now gs).groups.filter (fun row => row.groupCode = code) =
      (m.groups.filter fun row => row.groupCode = code).filter fun row => row.gid ∉ gs.map QqGroup.boundGid := by
  induction gs generalizing m with
  | nil => simp [updateAll]
  | cons g gs ih =>
    obtain ⟨hne, hrest⟩ := ne_and_not_mem_of_not_mem_cons hcode
    have hnew : ¬ (m.insertedRow now g.gid g.name g.code).groupCode = code := fun h => hne h.symm
    rw [updateAll_cons, ih hrest, BuddyMgr.updateGroupList, Rows.filter_replaceWhere, if_neg hnew, append_nil,
      filter_filter, filter_filter]
    apply filter_congr
    intro row _
    rw [← Bool.decide_and, ← Bool.decide_and]
    apply decide_eq_decide.mpr
    rw [map_cons, mem_cons]
    constructor
    · rintro ⟨hgids, hrow, hkept⟩
      exact ⟨fun h => h.elim (fun hgid => hkept (.inl hgid)) hgids, hrow⟩
    · rintro ⟨hgids, hrow⟩
      refine ⟨fun h => hgids (.inr h), hrow, ?_⟩
      rintro (hgid | hcode')
      · exact hgids (.inl hgid)
      · exact hne (hrow.symm.trans hcode')

theorem storedQqnum_updateAll (hcode : Str.cStr code ∉ gs.map QqGroup.boundCode) (now : Nat)
    (m : BuddyMgr) : (m.updateAll now gs).storedQqnum code = m.storedQqnumWithout (gs.map QqGroup.boundGid) code := by
  rw [storedQqnum_eq, filter_updateAll hcode, storedQqnumWithout, ← head?_filter, filter_comm]

theorem storedQqnum_updateAll_entry {before after : List QqGroup} {g : QqGroup}
    (hgids : ((before ++ g :: after).map QqGroup.boundGid).Nodup)
    (hcodes : ((before ++ g :: after).map QqGroup.boundCode).Nodup) :
    (m.updateAll now (before ++ g :: after)).storedQqnum g.code =
      some ((m.storedQqnumWithout (before.map QqGroup.boundGid) g.code).getD []) := by
  rw [map_append, map_cons, nodup_middle, nodup_cons, mem_append, not_or] at hgids hcodes
  obtain ⟨⟨hbefore, hafter⟩, -⟩ := hcodes
  obtain ⟨⟨-, hgid⟩, -⟩ := hgids
  rw [← storedQqnum_updateAll hbefore now m, updateAll_append, updateAll_cons, storedQqnum_eq, ← QqGroup.boundCode,
    filter_updateAll hafter, QqGroup.boundCode, filter_updateGroupList]
  have hkept : decide (((m.updateAll now before).insertedRow now g.gid g.name g.code).gid ∉ after.map QqGroup.boundGid) = true :=
    decide_eq_true hgid
  rw [filter_cons_of_pos (p := fun row : GroupRow => decide (row.gid ∉ after.map QqGroup.boundGid)) hkept]
  rfl

end BuddyMgr

theorem GroupListLoop.mBuddyMgr_foldl_visit (now : Nat) (l : GroupListLoop) (gs : List QqGroup) :
    (gs.foldl (visit now) l).world.mBuddyMgr = l.world.mBuddyMgr.updateAll now (gs.filter fun g => ¬ g.Refused) := by
  induction gs generalizing l with
  | nil => rfl
  | cons g gs ih =>
    rw [foldl_cons, ih]
    by_cases hg : g.Refused
    · rw [filter_cons_of_neg (by simpa using hg), visit, if_pos hg]
    · rw [filter_cons_of_pos (by simpa using hg), visit, if_neg hg, BuddyMgr.updateAll_cons]

structure AcceptedList (answer : HttpAnswer) (results : List (String × Ptree)) : Prop where
  list : gnamelist answer = .ok (some results)
  wellFormed : ¬ Malformed results
  granted : ∀ g ∈ listed results, ¬ g.Refused

theorem mBuddyMgr_readGroupList {answer : HttpAnswer} {results : List (String × Ptree)} (haccepted : AcceptedList answer results)
    (now : Nat) (w : GroupsWorld) :
    (readGroupList now w answer).1.mBuddyMgr = w.mBuddyMgr.updateAll now (listed results) := by
  obtain ⟨hloop, -⟩ := GroupListLoop.visitAll_eq now ⟨w, ∅, false, false⟩ results
  have htable := GroupListLoop.mBuddyMgr_foldl_visit now ⟨w, ∅, false, false⟩ (listed results)
  rw [← hloop, ← entered, GroupListOp.entered_of_no_refused haccepted.granted] at htable
  simp only [readGroupList, haccepted.list]
  split
  · exact htable
  · split <;> exact htable

def KeepsNumbers (now : Nat) (w : GroupsWorld) (answer : HttpAnswer) (results : List (String × Ptree)) : Prop :=
  ∀ g ∈ listed results, ∀ qqnum, qqnum ≠ [] → w.mBuddyMgr.storedQqnum g.code = some qqnum →
    (readGroupList now w answer).1.mBuddyMgr.storedQqnum g.code = some qqnum

/-- The number of an entry is found as well without the rows whose `gid`s the entries before have got. -/
def Spared (m : BuddyMgr) (gs : List QqGroup) : Prop :=
  ∀ before g after, gs = before ++ g :: after → ∀ qqnum, qqnum ≠ [] → m.storedQqnum g.code = some qqnum →
    m.storedQqnumWithout (before.map QqGroup.boundGid) g.code = some qqnum

theorem some_getD_eq_iff {found : Option Str} {qqnum : Str} (hne : qqnum ≠ []) :
    some (found.getD []) = some qqnum ↔ found = some qqnum := by
  cases found with
  | none => simp [Ne.symm hne]
  | some value => rfl

/-- Every code keeps its number exactly when no entry gets the old `gid` of a numbered group that comes later in the list. -/
theorem keepsNumbers_iff_spared {answer : HttpAnswer} {results : List (String × Ptree)} (haccepted : AcceptedList answer results)
    (hgids : ((listed results).map QqGroup.boundGid).Nodup) (hcodes : ((listed results).map QqGroup.boundCode).Nodup)
    (now : Nat) (w : GroupsWorld) : KeepsNumbers now w answer results ↔ Spared w.mBuddyMgr (listed results) := by
  have hentry : ∀ before g after, listed results = before ++ g :: after →
      (readGroupList now w answer).1.mBuddyMgr.storedQqnum g.code =
        some ((w.mBuddyMgr.storedQqnumWithout (before.map QqGroup.boundGid) g.code).getD []) := by
    intro before g after hsplit
    rw [mBuddyMgr_readGroupList haccepted, hsplit]
    rw [hsplit] at hgids hcodes
    exact BuddyMgr.storedQqnum_updateAll_entry now _ hgids hcodes
  constructor
  · intro hkeeps before g after hsplit qqnum hne hstored
    have hmem : g ∈ listed results := by
      rw [hsplit]
      exact mem_append_right _ mem_cons_self
    rw [← some_getD_eq_iff hne, ← hentry before g after hsplit]
    exact hkeeps g hmem qqnum hne hstored
  · intro hspared g hmem qqnum hne hstored
    obtain ⟨before, after, hsplit⟩ := append_of_mem hmem
    rw [hentry before g after hsplit, some_getD_eq_iff hne]
    exact hspared before g after hsplit qqnum hne hstored

def namelistEntry (gid code : Str) : String × Ptree :=
  ("", .node [] [("gid", .leaf gid), ("name", .leaf ['a']), ("code", .leaf code)])

def crossedEntries : List (String × Ptree) := [namelistEntry ['2'] ['5'], namelistEntry ['1'] ['6']]

def crossedList : HttpAnswer where
  ec := .success
  body := ("\x7b\"retcode\":0,\"result\":\x7b\"gnamelist\":[\x7b\"gid\":\"2\",\"name\":\"a\",\"code\":\"5\"\x7d," ++
    "\x7b\"gid\":\"1\",\"name\":\"a\",\"code\":\"6\"\x7d]\x7d\x7d").toList
  json := some (.node [] [("retcode", .leaf ['0']), ("result", .node [] [("gnamelist", .node [] crossedEntries)])])

theorem acceptedList_crossed : AcceptedList crossedList crossedEntries := ⟨rfl, by decide, by decide⟩

/-- With one group in the table before, nothing is lost. -/
theorem keepsNumbers_of_one_group :
    let w : GroupsWorld := ⟨∅, .mk [⟨['1'], ['5'], ['a'], some ['9'], some [], 0⟩] [] (by decide)⟩
    AcceptedList crossedList crossedEntries ∧ w.mBuddyMgr.storedQqnum ['5'] = some ['9'] ∧
      KeepsNumbers 1 w crossedList crossedEntries := by
  intro w
  refine ⟨acceptedList_crossed, by decide, ?_⟩
  apply (keepsNumbers_iff_spared acceptedList_crossed (by decide) (by decide) 1 w).mpr
  intro before g after hsplit qqnum _ hstored
  cases before with
  | nil => simpa [BuddyMgr.storedQqnumWithout, BuddyMgr.storedQqnum] using hstored
  | cons first rest =>
    -- the second entry has no number
    obtain rfl : g = ⟨['1'], ['a'], ['6'], [], []⟩ := by
      obtain ⟨-, hrest⟩ := cons.inj hsplit
      cases rest with
      | nil => exact (cons.inj hrest).1.symm
      | cons second rest =>
        have hlength : 1 = (second :: (rest ++ g :: after)).length := congrArg length hrest
        simp at hlength
    have hnone : w.mBuddyMgr.storedQqnum ['6'] = none := by decide
    exact absurd (hnone.symm.trans hstored) (by simp)

/-- Both groups are in the table, each with the `gid` that the other one gets. The first entry deletes both rows, and the number of the second is gone. -/
theorem crossed_gids_lose_number :
    let w : GroupsWorld := ⟨∅, .mk [⟨['1'], ['5'], ['a'], some ['9'], some [], 0⟩, ⟨['2'], ['6'], ['a'], some ['8'], some [], 0⟩]
      [] (by decide)⟩
    AcceptedList crossedList crossedEntries ∧ ((listed crossedEntries).map QqGroup.gid).Nodup ∧
      ((listed crossedEntries).map QqGroup.code).Nodup ∧
      w.mBuddyMgr.storedQqnum ['6'] = some ['8'] ∧
      (readGroupList 1 w crossedList).1.mBuddyMgr.storedQqnum ['6'] = some [] ∧
      ¬ KeepsNumbers 1 w crossedList crossedEntries := by
  intro w
  have hbefore : w.mBuddyMgr.storedQqnum ['6'] = some ['8'] := by decide
  have hafter : (readGroupList 1 w crossedList).1.mBuddyMgr.storedQqnum ['6'] = some [] := by decide +kernel
  refine ⟨acceptedList_crossed, by decide, by decide, hbefore, hafter, ?_⟩
  intro hkeeps
  have hkept := hkeeps ⟨['1'], ['a'], ['6'], [], []⟩ (by decide) ['8'] (by decide) hbefore
  rw [hafter] at hkept
  exact absurd hkept (by decide)

end Avbot
