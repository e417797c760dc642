import Avbot.Lib.EventMachine
import Avbot.Webqq.BuddyMgr

/-!
# The table of groups

Nothing in the schema of `groups` makes a `gid` or a code unique but `update_group_list`, which deletes every row that has the one or the other before it inserts the new row.
-/

namespace Avbot

open Option EventMachine List
open Str (cStr)

inductive GroupsCall where
  | updateGroupList (now : Nat) (gid name code : Str)
  | mapGroupQqnum (code qqnum : Str)
  | setGroupOwner (gid owner : Str)

namespace BuddyMgr

def callGroups (m : BuddyMgr) : GroupsCall → Option BuddyMgr
  | .updateGroupList now gid name code => some (m.updateGroupList now gid name code)
  | .mapGroupQqnum code qqnum => some (m.mapGroupQqnum code qqnum)
  | .setGroupOwner gid owner => some (m.setGroupOwner gid owner)

/-- No two rows share a `gid` or a code, and no number or owner is `NULL`. -/
structure GroupsSound (m : BuddyMgr) : Prop where
  gids : (m.groups.map GroupRow.gid).Nodup
  codes : (m.groups.map GroupRow.groupCode).Nodup
  filled : ∀ row ∈ m.groups, row.qqnum.isSome ∧ row.owner.isSome

variable {m m' : BuddyMgr}

theorem groupsSound_updateGroupList (hm : m.GroupsSound) (now : Nat) (gid name code : Str) :
    (m.updateGroupList now gid name code).GroupsSound where
  gids := Rows.nodup_replaceWhere hm.gids fun _ _ hgid => .inl hgid
  codes := Rows.nodup_replaceWhere hm.codes fun _ _ hcode => .inr hcode
  filled := Rows.forall_replaceWhere hm.filled ⟨rfl, rfl⟩

theorem groupsSound_updateWhere {p : GroupRow → Prop} [DecidablePred p] {set : GroupRow → GroupRow} (hm : m.GroupsSound)
    (hgroups : m'.groups = Rows.updateWhere p set m.groups) (hgid : ∀ row, (set row).gid = row.gid)
    (hcode : ∀ row, (set row).groupCode = row.groupCode)
    (hfilled : ∀ row, row.qqnum.isSome ∧ row.owner.isSome → (set row).qqnum.isSome ∧ (set row).owner.isSome) :
    m'.GroupsSound where
  gids := by
    rw [hgroups, Rows.map_updateWhere hgid]
    exact hm.gids
  codes := by
    rw [hgroups, Rows.map_updateWhere hcode]
    exact hm.codes
  filled := by
    rw [hgroups]
    exact Rows.forall_updateWhere hm.filled hfilled

theorem groupsSound_callGroups {call : GroupsCall} (hm : m.GroupsSound) (hcall : m.callGroups call = some m') :
    m'.GroupsSound := by
  cases call with
  | updateGroupList now gid name code =>
    obtain rfl := some.inj hcall
    exact groupsSound_updateGroupList hm now gid name code
  | mapGroupQqnum code qqnum =>
    obtain rfl := some.inj hcall
    exact groupsSound_updateWhere hm rfl (fun _ => rfl) (fun _ => rfl)
      fun row hrow => ⟨rfl, hrow.2⟩
  | setGroupOwner gid owner =>
    obtain rfl := some.inj hcall
    exact groupsSound_updateWhere hm rfl (fun _ => rfl) (fun _ => rfl)
      fun row hrow => ⟨hrow.1, rfl⟩

theorem groupsSound_of_run {calls : List GroupsCall} (hempty : m.groups = [])
    (hrun : run callGroups m calls = some m') : m'.GroupsSound := by
  have hstart : m.GroupsSound := by
    constructor <;> simp [hempty]
  exact invariant_of_run (fun _ _ _ hm hcall => groupsSound_callGroups hm hcall) hstart hrun

theorem find?_groupCode_of_mem (hm : m.GroupsSound) {row : GroupRow} (hrow : row ∈ m.groups) :
    m.groups.find? (fun r => r.groupCode = row.groupCode) = some row := by
  rw [← head?_filter, Rows.filter_eq_singleton hm.codes hrow]
  rfl

theorem insertedRow_of_mem (hm : m.GroupsSound) {old : GroupRow} {code : Str} (hold : old ∈ m.groups)
    (hcode : old.groupCode = cStr code) (now : Nat) (gid name : Str) :
    m.insertedRow now gid name code = { old with gid := cStr gid, name := cStr name, generateTime := now } := by
  obtain ⟨hqqnum, howner⟩ := hm.filled old hold
  obtain ⟨qqnum, hqqnum⟩ := isSome_iff_exists.mp hqqnum
  obtain ⟨owner, howner⟩ := isSome_iff_exists.mp howner
  unfold insertedRow
  rw [← hcode, find?_groupCode_of_mem hm hold]
  dsimp only [bind_some]
  rw [hqqnum, howner]
  rfl

theorem insertedRow_of_new {code : Str} (hnew : ∀ old ∈ m.groups, old.groupCode ≠ cStr code) (now : Nat) (gid name : Str) :
    m.insertedRow now gid name code = ⟨cStr gid, cStr code, cStr name, some [], some [], now⟩ := by
  have hnone : m.groups.find? (fun row => row.groupCode = cStr code) = none := by
    apply find?_eq_none.mpr
    intro row hrow hcode
    exact hnew row hrow (of_decide_eq_true hcode)
  rw [insertedRow, hnone]
  rfl

theorem filter_updateGroupList (m : BuddyMgr) (now : Nat) (gid name code : Str) :
    (m.updateGroupList now gid name code).groups.filter (fun row => row.groupCode = cStr code) =
      [m.insertedRow now gid name code] := by
  have hnone : m.groups.filter (fun row => row.groupCode = cStr code ∧
      ¬ (row.gid = cStr gid ∨ row.groupCode = cStr code)) = [] := by
    apply filter_eq_nil_iff.mpr
    intro row _ hrow
    have := of_decide_eq_true hrow
    tauto
  rw [updateGroupList, Rows.filter_replaceWhere, hnone, nil_append]
  exact if_pos rfl

/-- No two rows share a `gid` or a code. A further update leaves one row for its code, with the number and the owner that the code had, or empty ones, and removes no row of another `gid` and another code. Of each argument the part before its first NUL byte counts. -/
theorem groups_of_run {calls : List GroupsCall} (hempty : m.groups = []) (hrun : run callGroups m calls = some m') :
    (m'.groups.map GroupRow.gid).Nodup ∧ (m'.groups.map GroupRow.groupCode).Nodup ∧
      ∀ now gid name code,
        (∃ row, (m'.updateGroupList now gid name code).groups.filter (fun r => r.groupCode = cStr code) = [row] ∧
          row.gid = cStr gid ∧ row.name = cStr name ∧
          (∀ old ∈ m'.groups, old.groupCode = cStr code → row.qqnum = old.qqnum ∧ row.owner = old.owner) ∧
          ((∀ old ∈ m'.groups, old.groupCode ≠ cStr code) → row.qqnum = some [] ∧ row.owner = some [])) ∧
        ∀ old ∈ m'.groups, old.gid ≠ cStr gid → old.groupCode ≠ cStr code →
          old ∈ (m'.updateGroupList now gid name code).groups := by
  have hm := groupsSound_of_run hempty hrun
  refine ⟨hm.gids, hm.codes, ?_⟩
  intro now gid name code
  constructor
  · refine ⟨_, filter_updateGroupList m' now gid name code, rfl, rfl, ?_, ?_⟩
    · intro old hold hcode
      rw [insertedRow_of_mem hm hold hcode]
      exact ⟨rfl, rfl⟩
    · intro hnew
      rw [insertedRow_of_new hnew]
      exact ⟨rfl, rfl⟩
  · intro old hold hgid hcode
    exact Rows.mem_replaceWhere.mpr (.inl ⟨hold, fun h => h.elim hgid hcode⟩)

/-- A group whose `gid` changes keeps its number. -/
theorem groups_of_run_renamed :
    let m : BuddyMgr := .mk [] [] (by decide)
    let calls : List GroupsCall := [.updateGroupList 0 ['1'] ['a'] ['5'], .mapGroupQqnum ['5'] ['9'], .setGroupOwner ['1'] ['3']]
    ∃ m', m.groups = [] ∧ run callGroups m calls = some m' ∧
      m'.groups = [⟨['1'], ['5'], ['a'], some ['9'], some ['3'], 0⟩] ∧
      ∃ row, (m'.updateGroupList 1 ['2'] ['b'] ['5']).groups.filter (fun r => r.groupCode = ['5']) = [row] ∧
        row.gid = ['2'] ∧ row.qqnum = some ['9'] ∧ row.owner = some ['3'] := by
  intro m calls
  have hrows : ∀ m', run callGroups m calls = some m' → m'.groups = [⟨['1'], ['5'], ['a'], some ['9'], some ['3'], 0⟩] := by
    intro m' hrun
    obtain rfl := some.inj hrun
    decide +kernel
  refine ⟨_, rfl, rfl, hrows _ rfl, ?_⟩
  obtain ⟨-, -, hupdate⟩ := groups_of_run (m := m) rfl (rfl : run callGroups m calls = some _)
  obtain ⟨⟨row, hfilter, hgid, -, hkept, -⟩, -⟩ := hupdate 1 ['2'] ['b'] ['5']
  obtain ⟨hqqnum, howner⟩ := hkept _ (by rw [hrows _ rfl]; exact mem_cons_self) rfl
  exact ⟨row, hfilter, hgid, hqqnum, howner⟩

/-- The name is stored without its part from the NUL byte on. -/
theorem updateGroupList_cuts_name :
    let m : BuddyMgr := .mk [] [] (by decide)
    let m' := m.updateGroupList 0 ['1'] ['a', '\x00', 'b'] ['5']
    m'.groups = [⟨['1'], ['5'], ['a'], some [], some [], 0⟩] ∧
      ∀ row ∈ m'.groups, row.groupCode = ['5'] → row.name ≠ ['a', '\x00', 'b'] := by
  decide

end BuddyMgr

end Avbot
