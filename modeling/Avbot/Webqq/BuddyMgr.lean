import Avbot.Base.StringAlgo
import Avbot.Lib.Rows
import Avbot.Webqq.Types

/-!
# The tables of groups and members

`buddy_mgr` keeps groups and their members in two tables of an sqlite database. A table is its list of rows in `rowid` order; a column that may be `NULL` is an `Option`. A `select` into local variables that finds no row leaves them as they happened to be: those values are the argument `Locals`. SOCI copies every text that it binds with `strcpy`, so that it ends before its first NUL byte.
-/

namespace Avbot

open List

open Str (cStr)

structure GroupRow where
  gid : Str
  groupCode : Str
  name : Str
  qqnum : Option Str
  owner : Option Str
  generateTime : Nat
  deriving DecidableEq

def GroupRow.texts (row : GroupRow) : List Str := [row.gid, row.groupCode, row.name, row.qqnum.getD [], row.owner.getD []]

structure GroupBuddyRow where
  gid : Str
  uid : Str
  nick : Option Str
  card : Option Str
  /-- The integer as SOCI's `strtol` reads it from the column. -/
  mflag : Option (BitVec 64)
  qqnum : Option Str
  deriving DecidableEq

def GroupBuddyRow.texts (row : GroupBuddyRow) : List Str :=
  [row.gid, row.uid, row.nick.getD [], row.card.getD [], row.qqnum.getD []]

inductive Indicator where
  | ok
  | null
  | truncated
  deriving DecidableEq

structure Locals where
  indicator : Indicator
  mflag : BitVec 32
  deriving DecidableEq

/-- A text without a NUL byte, as a bound one is. -/
def Bound (text : Str) : Prop := '\x00' ∉ text

instance (text : Str) : Decidable (Bound text) := inferInstanceAs (Decidable (¬ _))

/-- The database. `uid` is declared `UNIQUE ON CONFLICT replace`. -/
structure BuddyMgr where
  groups : List GroupRow
  groupBuddies : List GroupBuddyRow
  uid_unique : (groupBuddies.map GroupBuddyRow.uid).Nodup
  groups_bound : ∀ row ∈ groups, ∀ text ∈ row.texts, Bound text := by decide
  buddies_bound : ∀ row ∈ groupBuddies, ∀ text ∈ row.texts, Bound text := by decide

namespace BuddyMgr

def empty : BuddyMgr := .mk [] [] nodup_nil

/-- `get_group_by_gid`. Only `gid` has an indicator, so a `NULL` in `qqnum` or `owner` makes SOCI throw. -/
def getGroupByGid (m : BuddyMgr) (locals : Locals) (gid : Str) : Except Exn (Option QqGroup) :=
  match m.groups.find? fun row => row.gid = cStr gid with
  | none => .ok (if locals.indicator = .ok then some ⟨[], [], [], [], []⟩ else none)
  | some row =>
    match row.qqnum, row.owner with
    | some qqnum, some owner => .ok (some ⟨row.gid, row.name, row.groupCode, qqnum, owner⟩)
    | _, _ => .error .soci

def latest : List GroupRow → Option GroupRow
  | [] => none
  | row :: rows =>
    match latest rows with
    | none => some row
    | some other => if row.generateTime < other.generateTime then some other else some row

/-- `get_group_by_qq`. Without a row `gid` stays the empty string. -/
def getGroupByQq (m : BuddyMgr) (locals : Locals) (qqnum : Str) : Except Exn (Option QqGroup) :=
  m.getGroupByGid locals
    (((latest (m.groups.filter fun row => row.qqnum = some (cStr qqnum))).map GroupRow.gid).getD [])

/-- `get_buddy_by_uin`. The `uid` column is read into the argument `uid`; the local `uin`, which becomes the buddy's, stays empty. -/
def getBuddyByUin (m : BuddyMgr) (locals : Locals) (uid : Str) : Option QqBuddy :=
  match m.groupBuddies.find? fun row => row.uid = cStr uid with
  | none => if locals.indicator = .ok then some ⟨[], [], [], locals.mflag, []⟩ else none
  | some row => some
      { uin := []
        nick := row.nick.getD []
        card := row.card.getD []
        mflag := (row.mflag.map (BitVec.setWidth 32)).getD locals.mflag
        qqnum := row.qqnum.getD [] }

def groupHasQqnum (m : BuddyMgr) (code : Str) : Bool :=
  match m.groups.find? fun row => row.groupCode = cStr code with
  | none => false
  | some row => decide (row.qqnum.getD [] ≠ [])

theorem bound_cStr (text : Str) : Bound (cStr text) := Str.nul_not_mem_cStr text

theorem bound_nil : Bound [] := not_mem_nil

theorem bound_getD (m : BuddyMgr) {column : GroupRow → Option Str} (p : GroupRow → Bool)
    (hcolumn : ∀ row : GroupRow, (column row).getD [] ∈ row.texts) : Bound (((m.groups.find? p).bind column).getD []) := by
  cases hfind : m.groups.find? p with
  | none => exact bound_nil
  | some row => exact m.groups_bound row (mem_of_find?_eq_some hfind) _ (hcolumn row)

/-- The row of `update_group_list`. The number and the owner are read from the row that has the code. -/
def insertedRow (m : BuddyMgr) (now : Nat) (gid name code : Str) : GroupRow :=
  let old := m.groups.find? fun row => row.groupCode = cStr code
  { gid := cStr gid, groupCode := cStr code, name := cStr name,
    qqnum := some ((old.bind GroupRow.qqnum).getD []), owner := some ((old.bind GroupRow.owner).getD []), generateTime := now }

/-- `update_group_list`: every other row of the same `gid` or code goes. -/
def updateGroupList (m : BuddyMgr) (now : Nat) (gid name code : Str) : BuddyMgr :=
  { m with
    groups := Rows.replaceWhere (fun row => row.gid = cStr gid ∨ row.groupCode = cStr code)
      (m.insertedRow now gid name code) m.groups
    groups_bound := by
      refine Rows.forall_replaceWhere m.groups_bound ?_
      simp only [GroupRow.texts, insertedRow, Option.getD_some, forall_mem_cons]
      exact ⟨bound_cStr gid, bound_cStr code, bound_cStr name, m.bound_getD _ (by simp [GroupRow.texts]),
        m.bound_getD _ (by simp [GroupRow.texts]), by simp⟩ }

def mapGroupQqnum (m : BuddyMgr) (code qqnum : Str) : BuddyMgr :=
  { m with
    groups := Rows.updateWhere (fun row => row.groupCode = cStr code)
      (fun row => { row with qqnum := some (cStr qqnum) }) m.groups
    groups_bound := Rows.forall_updateWhere m.groups_bound fun row hrow => by
      simp only [GroupRow.texts, forall_mem_cons] at hrow ⊢
      exact ⟨hrow.1, hrow.2.1, hrow.2.2.1, bound_cStr qqnum, hrow.2.2.2.2⟩ }

def setGroupOwner (m : BuddyMgr) (gid owner : Str) : BuddyMgr :=
  { m with
    groups := Rows.updateWhere (fun row => row.gid = cStr gid)
      (fun row => { row with owner := some (cStr owner) }) m.groups
    groups_bound := Rows.forall_updateWhere m.groups_bound fun row hrow => by
      simp only [GroupRow.texts, forall_mem_cons] at hrow ⊢
      exact ⟨hrow.1, hrow.2.1, hrow.2.2.1, hrow.2.2.2.1, bound_cStr owner, hrow.2.2.2.2.2⟩ }

/-- `group_new_buddy`. The columns `card` and `mflag` of the new row are `NULL`. -/
def groupNewBuddy (m : BuddyMgr) (gid uid qqnum nick : Str) : BuddyMgr :=
  let new : GroupBuddyRow :=
    { gid := cStr gid, uid := cStr uid, nick := some (cStr nick), card := none, mflag := none,
      qqnum := some (cStr qqnum) }
  { m with
    -- the conflict rule of `uid` deletes first
    groupBuddies := Rows.replaceWhere (fun row => row.uid = cStr uid) new m.groupBuddies
    uid_unique := Rows.nodup_replaceWhere m.uid_unique fun _ _ huid => huid
    buddies_bound := by
      refine Rows.forall_replaceWhere m.buddies_bound ?_
      simp only [GroupBuddyRow.texts, forall_mem_cons]
      exact ⟨bound_cStr gid, bound_cStr uid, bound_cStr nick, bound_nil, bound_cStr qqnum, by simp⟩ }

def getGroupAllBuddiesUin (m : BuddyMgr) (gid : Str) : List Str :=
  ((m.groupBuddies.filter fun row => row.gid = cStr gid).map GroupBuddyRow.uid).take 10000

end BuddyMgr

inductive BuddyValue where
  | card (card : Str)
  | mflag (mflag : BitVec 64)
  | qqnum (qqnum : Str)

def GroupBuddyRow.set (row : GroupBuddyRow) : BuddyValue → GroupBuddyRow
  | .card card => { row with card := some (cStr card) }
  | .mflag mflag => { row with mflag := some mflag }
  | .qqnum qqnum => { row with qqnum := some (cStr qqnum) }

theorem GroupBuddyRow.uid_set (row : GroupBuddyRow) (value : BuddyValue) : (row.set value).uid = row.uid := by
  cases value <;> rfl

theorem GroupBuddyRow.bound_set (row : GroupBuddyRow) (value : BuddyValue) (hrow : ∀ text ∈ row.texts, Bound text) :
    ∀ text ∈ (row.set value).texts, Bound text := by
  simp only [GroupBuddyRow.texts, forall_mem_cons] at hrow ⊢
  cases value with
  | card card => exact ⟨hrow.1, hrow.2.1, hrow.2.2.1, BuddyMgr.bound_cStr card, hrow.2.2.2.2⟩
  | mflag mflag => exact hrow
  | qqnum qqnum => exact ⟨hrow.1, hrow.2.1, hrow.2.2.1, hrow.2.2.2.1, BuddyMgr.bound_cStr qqnum, hrow.2.2.2.2.2⟩

/-- A text in a column of type `INTEGER` as `strtol` reads it back. Sqlite turns a text that is a number into that number. -/
structure IntegerColumn where
  read : Str → BitVec 64
  read_decimal : ∀ n : Int, -2147483648 ≤ n → n ≤ 2147483647 → read (Str.decimalInt n) = BitVec.ofInt 64 n

namespace BuddyMgr

/-- The statements `update group_buddies set … where uid = …`. -/
def updateGroupBuddies (m : BuddyMgr) (value : BuddyValue) (uid : Str) : BuddyMgr :=
  { m with
    groupBuddies := Rows.updateWhere (fun row => row.uid = cStr uid) (·.set value) m.groupBuddies
    uid_unique := by
      rw [Rows.map_updateWhere (fun row => row.uid_set value)]
      exact m.uid_unique
    buddies_bound := Rows.forall_updateWhere m.buddies_bound fun row => row.bound_set value }

def mapBuddyQqnum (m : BuddyMgr) (uid qqnum : Str) : BuddyMgr := m.updateGroupBuddies (.qqnum qqnum) uid

def groupBuddyUpdateCard (m : BuddyMgr) (uid card : Str) : BuddyMgr := m.updateGroupBuddies (.card card) uid

/-- The parameters are bound in the order of `use`: `uid` to the new value, and `mflag`, printed as an `int`, to the second placeholder. -/
def groupBuddyUpdateMflag (column : IntegerColumn) (m : BuddyMgr) (uid : Str) (mflag : BitVec 32) : BuddyMgr :=
  m.updateGroupBuddies (.mflag (column.read (cStr uid))) (Str.decimalInt mflag.toInt)

theorem getBuddyByUin_of_mem {m : BuddyMgr} {row : GroupBuddyRow} (hrow : row ∈ m.groupBuddies) (locals : Locals) :
    m.getBuddyByUin locals row.uid = some
      { uin := []
        nick := row.nick.getD []
        card := row.card.getD []
        mflag := (row.mflag.map (BitVec.setWidth 32)).getD locals.mflag
        qqnum := row.qqnum.getD [] } := by
  have huid : cStr row.uid = row.uid :=
    Str.cStr_eq_self_iff.mpr (m.buddies_bound row hrow row.uid (by simp [GroupBuddyRow.texts]))
  have hfind : m.groupBuddies.find? (fun r => r.uid = cStr row.uid) = some row := by
    rw [huid, ← head?_filter, Rows.filter_eq_singleton m.uid_unique hrow]
    rfl
  rw [getBuddyByUin, hfind]

end BuddyMgr

end Avbot
