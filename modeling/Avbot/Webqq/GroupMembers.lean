import Avbot.Http.Parsers
import Avbot.Webqq.BuddyMgr

/-!
# Writing the members of groups

The table of members has one row for each `uid`. `update_group_member_op` inserts the members of a group and then sets their flags and cards. The statement that sets the flag has its two parameters in the wrong order.
-/

namespace Avbot

open List BitVec
open Str (cStr decimalInt)

inductive BuddyUpdate where
  | mflag (mflag : BitVec 32)
  | card (card : Str)
  | qqnum (qqnum : Str)

namespace BuddyUpdate

def apply (column : IntegerColumn) (m : BuddyMgr) (uid : Str) : BuddyUpdate → BuddyMgr
  | .mflag flag => m.groupBuddyUpdateMflag column uid flag
  | .card text => m.groupBuddyUpdateCard uid text
  | .qqnum number => m.mapBuddyQqnum uid number

/-- The second row is the first one with the field set, and the other fields as they were. The flag is what `get_buddy_by_uin` reads. -/
def IsSet (update : BuddyUpdate) (row row' : GroupBuddyRow) : Prop :=
  match update with
  | .mflag flag => row' = { row with mflag := row'.mflag } ∧ row'.mflag.map (BitVec.setWidth 32) = some flag
  | .card text => row' = { row with card := some text }
  | .qqnum number => row' = { row with qqnum := some number }

/-- The field is set in the row of `uid` as it is bound, and every other row is unchanged. -/
def SetsField (update : BuddyUpdate) (column : IntegerColumn) (m : BuddyMgr) (uid : Str) : Prop :=
  List.Forall₂ (fun row row' => if row.uid = cStr uid then update.IsSet row row' else row' = row)
    m.groupBuddies (update.apply column m uid).groupBuddies

/-- The flag is the `uid` itself, or was there before, and a member whose `uid` is the flag has the `uid` as its flag already. A text for a member has no NUL byte. -/
def Settable (update : BuddyUpdate) (column : IntegerColumn) (m : BuddyMgr) (uid : Str) : Prop :=
  match update with
  | .mflag flag => decimalInt flag.toInt = cStr uid ∨ ∀ row ∈ m.groupBuddies,
      (row.uid = cStr uid → row.mflag.map (BitVec.setWidth 32) = some flag) ∧
        (row.uid = decimalInt flag.toInt → row.mflag = some (column.read (cStr uid)))
  | .card text | .qqnum text => ∀ row ∈ m.groupBuddies, row.uid = cStr uid → Bound text

theorem forall₂_updateGroupBuddies (m : BuddyMgr) (value : BuddyValue) (key : Str)
    (related : GroupBuddyRow → GroupBuddyRow → Prop) :
    List.Forall₂ related m.groupBuddies (m.updateGroupBuddies value key).groupBuddies ↔
      ∀ row ∈ m.groupBuddies, related row (if row.uid = cStr key then row.set value else row) := by
  show List.Forall₂ related m.groupBuddies (m.groupBuddies.map _) ↔ _
  rw [forall₂_map_right_iff, forall₂_same]

theorem setWidth_read_decimal (column : IntegerColumn) (mflag : BitVec 32) :
    (column.read (decimalInt mflag.toInt)).setWidth 32 = mflag := by
  have hlow := mflag.le_toInt
  have hhigh := mflag.toInt_lt
  rw [column.read_decimal mflag.toInt (by omega) (by omega)]
  show (mflag.signExtend 64).setWidth 32 = mflag
  ext i hi
  have hwide : i < 64 := by omega
  rw [getElem_setWidth, getLsbD_signExtend, if_pos hi, decide_eq_true hwide, Bool.true_and]
  exact getLsbD_eq_getElem hi

/-- The field of a member is set, and nothing else, exactly when the update is of the card or the number, or the flag is one that can be set. -/
theorem setsField_iff_settable (column : IntegerColumn) (m : BuddyMgr) (uid : Str) (update : BuddyUpdate) :
    update.SetsField column m uid ↔ update.Settable column m uid := by
  cases update with
  | card text =>
    rw [SetsField, apply, BuddyMgr.groupBuddyUpdateCard, forall₂_updateGroupBuddies]
    refine forall₂_congr fun row _ => ?_
    split
    · next hrow => simp [hrow, IsSet, GroupBuddyRow.set, Bound, Str.cStr_eq_self_iff]
    · next hrow => simp [hrow]
  | qqnum number =>
    rw [SetsField, apply, BuddyMgr.mapBuddyQqnum, forall₂_updateGroupBuddies]
    refine forall₂_congr fun row _ => ?_
    split
    · next hrow => simp [hrow, IsSet, GroupBuddyRow.set, Bound, Str.cStr_eq_self_iff]
    · next hrow => simp [hrow]
  | mflag flag =>
    have hkey : cStr (decimalInt flag.toInt) = decimalInt flag.toInt := Str.cStr_decimalInt _
    rw [SetsField, apply, BuddyMgr.groupBuddyUpdateMflag, forall₂_updateGroupBuddies, Settable, hkey]
    by_cases hsame : decimalInt flag.toInt = cStr uid
    · apply iff_of_true _ (.inl hsame)
      intro row _
      rw [← hsame]
      by_cases hrow : row.uid = decimalInt flag.toInt
      · rw [if_pos hrow, if_pos hrow]
        exact ⟨rfl, congrArg some (setWidth_read_decimal column flag)⟩
      · rw [if_neg hrow, if_neg hrow]
    · constructor
      · intro hset
        refine .inr fun row hmem => ⟨?_, ?_⟩
        · intro hrow
          have h := hset row hmem
          rw [if_pos hrow, if_neg (by rw [hrow]; exact Ne.symm hsame)] at h
          exact h.2
        · intro hrow
          have h := hset row hmem
          rw [if_neg (by rw [hrow]; exact hsame), if_pos hrow] at h
          exact (congrArg GroupBuddyRow.mflag h).symm
      · intro hthere row hmem
        obtain ⟨hflag, hother⟩ := hthere.resolve_left hsame row hmem
        by_cases hrow : row.uid = cStr uid
        · rw [if_pos hrow, if_neg (by rw [hrow]; exact Ne.symm hsame)]
          exact ⟨rfl, hflag hrow⟩
        · rw [if_neg hrow]
          split
          · next hkey => rw [GroupBuddyRow.set, ← hother hkey]
          · rfl

def strtolColumn : IntegerColumn where
  read text := BitVec.ofInt 64 (Http.strtoll (cStr text))
  read_decimal n hlow hhigh := by rw [Http.strtoll_decimalInt (by omega)]

/-- The member 100 is to get the flag 5. It keeps its own flag, and the member 5 gets the flag 100. -/
theorem mflag_set_in_other_row :
    let row (uid : Str) : GroupBuddyRow := ⟨['7'], uid, some ['a'], none, some 0, some []⟩
    let m : BuddyMgr := .mk [] [row "100".toList, row "5".toList] (by decide +kernel)
    (m.groupBuddyUpdateMflag strtolColumn "100".toList 5).groupBuddies =
        [row "100".toList, { row "5".toList with mflag := some 100 }] ∧
      ¬ (mflag 5).SetsField strtolColumn m "100".toList := by
  intro row m
  refine ⟨by decide +kernel, ?_⟩
  intro hset
  have hfirst := (forall₂_updateGroupBuddies m _ _ _).mp hset (row "100".toList) mem_cons_self
  rw [if_pos (by decide +kernel), if_neg (by decide +kernel)] at hfirst
  exact absurd hfirst.2 (by decide)

end BuddyUpdate

namespace BuddyMgr

theorem take_filter_ne_eq_iff (uids : List Str) (n : Nat) (uid : Str) :
    (uids.filter (· ≠ uid)).take n = uids.take n ↔ uid ∉ uids.take n := by
  constructor
  · intro hsame hmem
    rw [← hsame] at hmem
    simpa using mem_filter.mp (mem_of_mem_take hmem)
  · intro hmem
    have hkept : (uids.take n).filter (· ≠ uid) = uids.take n := by
      apply filter_eq_self.mpr
      intro u hu
      apply decide_eq_true
      rintro rfl
      exact hmem hu
    have hsplit : uids.filter (· ≠ uid) = uids.take n ++ (uids.drop n).filter (· ≠ uid) := by
      rw [← hkept, ← filter_append, take_append_drop]
    rw [hsplit]
    by_cases hlong : n ≤ uids.length
    · rw [take_append_of_le_length (by rw [length_take]; omega), take_take, Nat.min_self]
    · rw [drop_eq_nil_of_le (by omega), filter_nil, append_nil, take_take, Nat.min_self]

theorem uids_groupNewBuddy (m : BuddyMgr) {gid other : Str} (hne : cStr gid ≠ other) (uid qqnum nick : Str) :
    ((m.groupNewBuddy gid uid qqnum nick).groupBuddies.filter fun row => row.gid = other).map GroupBuddyRow.uid =
      ((m.groupBuddies.filter fun row => row.gid = other).map GroupBuddyRow.uid).filter (· ≠ cStr uid) := by
  let new : GroupBuddyRow := ⟨cStr gid, cStr uid, some (cStr nick), none, none, some (cStr qqnum)⟩
  have hrows : (m.groupNewBuddy gid uid qqnum nick).groupBuddies.filter (fun row => row.gid = other) =
      m.groupBuddies.filter (fun row => row.gid = other ∧ ¬ row.uid = cStr uid) ++
        if new.gid = other then [new] else [] :=
    Rows.filter_replaceWhere new
  rw [hrows, if_neg hne, append_nil, filter_map, filter_filter]
  congr 1
  apply filter_congr
  intro row _
  rw [Function.comp_apply, ← Bool.decide_and]
  exact decide_eq_decide.mpr and_comm

/-- A new member of one group leaves the list of another one as it is exactly when the person is not in that list. -/
theorem getGroupAllBuddiesUin_groupNewBuddy_iff (m : BuddyMgr) {gid other : Str} (hne : cStr gid ≠ cStr other)
    (uid qqnum nick : Str) :
    (m.groupNewBuddy gid uid qqnum nick).getGroupAllBuddiesUin other = m.getGroupAllBuddiesUin other ↔
      cStr uid ∉ m.getGroupAllBuddiesUin other := by
  rw [getGroupAllBuddiesUin, getGroupAllBuddiesUin, uids_groupNewBuddy m hne]
  exact take_filter_ne_eq_iff _ 10000 (cStr uid)

/-- A person who is in no group enters one, and the other stays as it is. -/
theorem getGroupAllBuddiesUin_groupNewBuddy_stranger :
    let m : BuddyMgr := .mk [] [⟨['8'], ['2'], none, none, none, none⟩] (by decide +kernel)
    (['7'] : Str) ≠ ['8'] ∧ (['1'] : Str) ∉ m.getGroupAllBuddiesUin ['8'] ∧
      (m.groupNewBuddy ['7'] ['1'] [] ['a']).getGroupAllBuddiesUin ['8'] = m.getGroupAllBuddiesUin ['8'] := by
  intro m
  have hne : (['7'] : Str) ≠ ['8'] := by decide
  have hstranger : (['1'] : Str) ∉ m.getGroupAllBuddiesUin ['8'] := by decide +kernel
  exact ⟨hne, hstranger, (getGroupAllBuddiesUin_groupNewBuddy_iff m (by decide) ['1'] [] ['a']).mpr hstranger⟩

/-- A member of the group 8 enters the group 7 and is gone from the group 8. -/
theorem groupNewBuddy_takes_from_other :
    let m : BuddyMgr := .mk [] [⟨['8'], ['1'], none, none, none, none⟩] (by decide +kernel)
    m.getGroupAllBuddiesUin ['8'] = [['1']] ∧
      (m.groupNewBuddy ['7'] ['1'] [] ['a']).getGroupAllBuddiesUin ['8'] = [] ∧
      (m.groupNewBuddy ['7'] ['1'] [] ['a']).getGroupAllBuddiesUin ['7'] = [['1']] := by
  decide +kernel

end BuddyMgr

end Avbot
