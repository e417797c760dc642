import Avbot.Base.Ptree
import Avbot.Lib.EventMachine
import Avbot.Webqq.BuddyMgr

/-!
# Fetching the group list

`update_group_list_op` asks the server for the list of groups, enters what it reads into `m_groups` and into the tables, and then asks for the number of every group that has none yet. Two maps are filled: `m_groups` itself and a new list that replaces it at the end if the loop has set `replace_list`.
-/

namespace Avbot

open List EventMachine

abbrev GroupMap := Std.ExtTreeMap Str QqGroup

structure GroupsWorld where
  mGroups : GroupMap
  mBuddyMgr : BuddyMgr

structure GroupListLoop where
  world : GroupsWorld
  newlist : GroupMap
  replaceList : Bool
  retry : Bool

def readGroup (result : Ptree) : Except Exn QqGroup := do
  let gid ← getString result ["gid"]
  let name ← getString result ["name"]
  let code ← getString result ["code"]
  return { gid := gid, name := name, code := code, qqnum := [], owner := [] }

/-- A `gid` with which the server says that it could not read the group. -/
def QqGroup.Refused (group : QqGroup) : Prop := group.gid.head? = some '-'

instance (group : QqGroup) : Decidable group.Refused := inferInstanceAs (Decidable (_ = _))

namespace GroupListLoop

def visit (now : Nat) (l : GroupListLoop) (newgroup : QqGroup) : GroupListLoop :=
  if newgroup.Refused then { l with retry := true }
  else
    { l with
      world :=
        { mGroups := l.world.mGroups.insertIfNew newgroup.gid newgroup
          mBuddyMgr :=
            l.world.mBuddyMgr.updateGroupList now newgroup.gid newgroup.name newgroup.code }
      newlist := l.newlist.insertIfNew newgroup.gid newgroup
      replaceList := l.replaceList || l.world.mGroups.contains newgroup.gid }

def visitAll (now : Nat) : GroupListLoop → List (String × Ptree) → GroupListLoop × Bool
  | l, [] => (l, false)
  | l, result :: rest =>
    match readGroup result.2 with
    | .error _ => (l, true)
    | .ok newgroup => visitAll now (l.visit now newgroup) rest

end GroupListLoop

/-- The children of `result.gnamelist` if `retcode` is 0. A body that is no JSON throws as well. -/
def gnamelist (answer : HttpAnswer) : Except Exn (Option (List (String × Ptree))) :=
  match answer.json with
  | none => .error .ptreeBadData
  | some jsonobj => do
    let retcode ← getInt jsonobj ["retcode"]
    if retcode = 0 then
      match jsonobj.getChild? ["result", "gnamelist"] with
      | some list => return some list.children
      | none => throw .ptreeBadPath
    else return none

def readGroupList (now : Nat) (w : GroupsWorld) (answer : HttpAnswer) : GroupsWorld × Bool :=
  match gnamelist answer with
  | .error _ => (w, true)
  | .ok none => (w, false)
  | .ok (some results) =>
    let (l, thrown) := GroupListLoop.visitAll now ⟨w, ∅, false, false⟩ results
    if thrown then (l.world, true)
    else if l.replaceList then ({ l.world with mGroups := l.newlist }, l.retry)
    else (l.world, l.retry)

/-- What `update_group_qqnumber_op` reads from its answer; without it the operation reports `failed_to_fetch_group_qqnumber`. -/
def readQqnumber (answer : HttpAnswer) : Option Str := do
  let jsonobj ← answer.json
  let retcode ← (getInt jsonobj ["retcode"]).toOption
  if retcode = 0 then jsonobj.get? ["result", "account"] else none

inductive GroupListPoint where
  | fetching
  | number (gid : Str) (rest : List Str)
  | delay (rest : List Str) (ec : ErrorCode)
  | done (ec : ErrorCode)
  deriving DecidableEq

inductive GroupListEvent where
  | answer (now : Nat) (a : HttpAnswer)
  | timer

structure GroupListOp where
  world : GroupsWorld
  point : GroupListPoint

namespace GroupListOp

def nextNumber (w : GroupsWorld) : List Str → ErrorCode → GroupListPoint
  | [], ec => .done ec
  | gid :: rest, ec =>
    match w.mGroups[gid]? with
    | none => nextNumber w rest ec
    | some group =>
      if w.mBuddyMgr.groupHasQqnum group.code then nextNumber w rest ec else .number gid rest

def takeNumber (w : GroupsWorld) (gid : Str) (answer : HttpAnswer) : GroupsWorld × ErrorCode :=
  match w.mGroups[gid]?, readQqnumber answer with
  | some group, some qqnum =>
    ({ mGroups := w.mGroups.insert gid { group with qqnum := qqnum }
       mBuddyMgr := w.mBuddyMgr.mapGroupQqnum group.code qqnum }, .success)
  | _, _ => (w, makeErrorCode .failedToFetchGroupQqnumber)

def step (op : GroupListOp) : GroupListEvent → Option GroupListOp
  | .answer now a =>
    match op.point with
    | .fetching =>
      let (w, retry) := readGroupList now op.world a
      some ⟨w, if retry then .done (makeErrorCode .failedToFetchGroupList)
        else nextNumber w w.mGroups.keys .success⟩
    | .number gid rest =>
      let (w, ec) := takeNumber op.world gid a
      some ⟨w, .delay rest ec⟩
    | _ => none
  | .timer =>
    match op.point with
    | .delay rest ec => some { op with point := nextNumber op.world rest ec }
    | _ => none

end GroupListOp

def listed : List (String × Ptree) → List QqGroup
  | [] => []
  | result :: rest =>
    match readGroup result.2 with
    | .error _ => []
    | .ok newgroup => newgroup :: listed rest

def Malformed (results : List (String × Ptree)) : Prop :=
  ∃ result ∈ results, (readGroup result.2).toOption.isNone

instance (results : List (String × Ptree)) : Decidable (Malformed results) :=
  inferInstanceAs (Decidable (∃ result ∈ results, (readGroup result.2).toOption.isNone))

def entered (results : List (String × Ptree)) : List QqGroup :=
  (listed results).filter fun group => ¬ group.Refused

def insertAll (groups : GroupMap) (gs : List QqGroup) : GroupMap :=
  gs.foldl (fun m g => m.insertIfNew g.gid g) groups

/-- When the loop sets `replace_list`: a `gid` was in the map before, or comes twice. -/
def Replaces (groups : GroupMap) (gs : List QqGroup) : Prop :=
  (∃ g ∈ gs, g.gid ∈ groups) ∨ ¬ (gs.map QqGroup.gid).Nodup

instance (groups : GroupMap) (gs : List QqGroup) : Decidable (Replaces groups gs) :=
  inferInstanceAs (Decidable ((∃ g ∈ gs, g.gid ∈ groups) ∨ ¬ (gs.map QqGroup.gid).Nodup))

variable {groups : GroupMap} {gs : List QqGroup}

theorem mem_insertAll {gid : Str} : gid ∈ insertAll groups gs ↔ gid ∈ groups ∨ gid ∈ gs.map QqGroup.gid := by
  induction gs generalizing groups with
  | nil => simp [insertAll]
  | cons g gs ih =>
    rw [insertAll, foldl_cons, ← insertAll, ih, Std.ExtTreeMap.mem_insertIfNew,
      Std.LawfulEqOrd.compare_eq_iff_eq, map_cons, mem_cons]
    grind

theorem insertAll_eq_self (hgs : ∀ g ∈ gs, g.gid ∈ groups) : insertAll groups gs = groups := by
  induction gs with
  | nil => rfl
  | cons g gs ih =>
    have hg : groups.insertIfNew g.gid g = groups := by
      apply Std.ExtTreeMap.ext_getElem?
      intro k
      rw [Std.ExtTreeMap.getElem?_insertIfNew, if_neg (by simp [hgs g mem_cons_self])]
    rw [insertAll, foldl_cons, hg, ← insertAll]
    exact ih fun g hg => hgs g (mem_cons_of_mem _ hg)

theorem insertAll_eq_self_iff : insertAll groups gs = groups ↔ ∀ g ∈ gs, g.gid ∈ groups := by
  refine ⟨fun h g hg => ?_, insertAll_eq_self⟩
  rw [← h, mem_insertAll]
  exact .inr (mem_map_of_mem hg)

theorem replaces_cons {g : QqGroup} :
    Replaces groups (g :: gs) ↔
      g.gid ∈ groups ∨ Replaces (groups.insertIfNew g.gid g) gs := by
  simp only [Replaces, mem_cons, map_cons, nodup_cons, mem_map,
    Std.ExtTreeMap.mem_insertIfNew, Std.LawfulEqOrd.compare_eq_iff_eq]
  grind

namespace GroupListLoop

theorem visitAll_eq (now : Nat) (l : GroupListLoop) (results : List (String × Ptree)) :
    (visitAll now l results).1 = (listed results).foldl (visit now) l ∧
      ((visitAll now l results).2 = true ↔ Malformed results) := by
  induction results generalizing l with
  | nil => simp [visitAll, listed, Malformed]
  | cons result rest ih =>
    cases hread : readGroup result.2 with
    | error e =>
      simp only [visitAll, listed, hread, foldl_nil, true_and, true_iff]
      exact ⟨result, mem_cons_self, by rw [hread]; rfl⟩
    | ok newgroup =>
      obtain ⟨hloop, hthrown⟩ := ih (l.visit now newgroup)
      simp only [visitAll, listed, hread, foldl_cons, hloop, hthrown, true_and]
      simp [Malformed, hread, Except.toOption]

theorem foldl_visit (now : Nat) (l : GroupListLoop) (gs : List QqGroup) :
    (gs.foldl (visit now) l).world.mGroups =
        insertAll l.world.mGroups (gs.filter fun g => ¬ g.Refused) ∧
      (gs.foldl (visit now) l).newlist = insertAll l.newlist (gs.filter fun g => ¬ g.Refused) ∧
      ((gs.foldl (visit now) l).replaceList = true ↔
        l.replaceList = true ∨ Replaces l.world.mGroups (gs.filter fun g => ¬ g.Refused)) ∧
      ((gs.foldl (visit now) l).retry = true ↔ l.retry = true ∨ ∃ g ∈ gs, g.Refused) := by
  induction gs generalizing l with
  | nil => simp [insertAll, Replaces]
  | cons g gs ih =>
    obtain ⟨hgroups, hnew, hreplace, hretry⟩ := ih (l.visit now g)
    rw [foldl_cons, hgroups, hnew, hreplace, hretry]
    by_cases hg : g.Refused
    · simp [visit, hg]
    · simp [visit, hg, replaces_cons, insertAll, or_assoc]

end GroupListLoop

theorem readGroupList_of_list (now : Nat) (w : GroupsWorld) {answer : HttpAnswer}
    {results : List (String × Ptree)} (hanswer : gnamelist answer = .ok (some results)) :
    ((readGroupList now w answer).2 = true ↔
        Malformed results ∨ ∃ g ∈ listed results, g.Refused) ∧
      (readGroupList now w answer).1.mGroups =
        if ¬ Malformed results ∧ Replaces w.mGroups (entered results) then
          insertAll ∅ (entered results)
        else insertAll w.mGroups (entered results) := by
  obtain ⟨hloop, hthrown⟩ :=
    GroupListLoop.visitAll_eq now ⟨w, ∅, false, false⟩ results
  obtain ⟨hgroups, hnew, hreplace, hretry⟩ :=
    GroupListLoop.foldl_visit now ⟨w, ∅, false, false⟩ (listed results)
  rw [← hloop, ← entered] at hgroups hnew hreplace
  rw [← hloop] at hretry
  simp only [Bool.false_eq_true, false_or] at hreplace hretry
  simp only [readGroupList, hanswer]
  by_cases hmal : Malformed results
  · simp [hthrown.mpr hmal, hmal, hgroups]
  · have hnot : (GroupListLoop.visitAll now ⟨w, ∅, false, false⟩ results).2 = false := by
      rw [← Bool.not_eq_true, hthrown]
      exact hmal
    by_cases hrep : Replaces w.mGroups (entered results)
    · simp [hnot, hmal, hreplace.mpr hrep, hrep, hnew, hretry]
    · have hkeep : (GroupListLoop.visitAll now ⟨w, ∅, false, false⟩ results).1.replaceList = false := by
        rw [← Bool.not_eq_true, hreplace]
        exact hrep
      simp [hnot, hmal, hkeep, hrep, hgroups, hretry]

namespace GroupListOp

theorem success_ne_failed : ErrorCode.success ≠ makeErrorCode .failedToFetchGroupList := by decide

theorem qqnumber_ne_failed :
    makeErrorCode .failedToFetchGroupQqnumber ≠ makeErrorCode .failedToFetchGroupList := by decide

/-- The second half of the operation: it keeps the `gid`s and never reports the error of the first half. -/
structure Numbering (groups : GroupMap) (op : GroupListOp) : Prop where
  keys : ∀ gid, gid ∈ op.world.mGroups ↔ gid ∈ groups
  started : op.point ≠ .fetching
  error : ∀ ec, (op.point = .done ec ∨ ∃ rest, op.point = .delay rest ec) →
    ec ≠ makeErrorCode .failedToFetchGroupList

theorem nextNumber_cases (w : GroupsWorld) (gids : List Str) (ec : ErrorCode) :
    nextNumber w gids ec = .done ec ∨ ∃ gid rest, nextNumber w gids ec = .number gid rest := by
  induction gids with
  | nil => exact .inl rfl
  | cons gid rest ih =>
    unfold nextNumber
    split
    · exact ih
    · split
      · exact ih
      · exact .inr ⟨gid, rest, rfl⟩

variable {groups : GroupMap} {w : GroupsWorld} {ec : ErrorCode}

theorem numbering_nextNumber (gids : List Str) (hkeys : ∀ gid, gid ∈ w.mGroups ↔ gid ∈ groups)
    (hec : ec ≠ makeErrorCode .failedToFetchGroupList) :
    Numbering groups ⟨w, nextNumber w gids ec⟩ := by
  rcases nextNumber_cases w gids ec with hpoint | ⟨gid, rest, hpoint⟩
  · rw [hpoint]
    refine ⟨hkeys, by simp, ?_⟩
    rintro ec' (h | ⟨rest, h⟩)
    · exact GroupListPoint.done.inj h ▸ hec
    · simp at h
  · rw [hpoint]
    exact ⟨hkeys, by simp, by simp⟩

theorem takeNumber_spec (w : GroupsWorld) (gid : Str) (a : HttpAnswer) :
    (∀ k, k ∈ (takeNumber w gid a).1.mGroups ↔ k ∈ w.mGroups) ∧
      (takeNumber w gid a).2 ≠ makeErrorCode .failedToFetchGroupList := by
  unfold takeNumber
  split
  · rename_i group qqnum hgroup hnumber
    refine ⟨fun k => ?_, success_ne_failed⟩
    have hmem : gid ∈ w.mGroups := by
      rw [Std.ExtTreeMap.mem_iff_isSome_getElem?, hgroup]
      rfl
    rw [Std.ExtTreeMap.mem_insert, Std.LawfulEqOrd.compare_eq_iff_eq]
    exact ⟨fun h => h.elim (fun heq => heq ▸ hmem) id, .inr⟩
  · exact ⟨fun k => Iff.rfl, qqnumber_ne_failed⟩

theorem step_numbering {op op' : GroupListOp} {e : GroupListEvent}
    (hop : Numbering groups op) (hstep : op.step e = some op') : Numbering groups op' := by
  obtain ⟨w, point⟩ := op
  cases e with
  | answer now a =>
    cases point with
    | fetching => exact absurd rfl hop.started
    | number gid rest =>
      obtain ⟨hkeys, hec⟩ := takeNumber_spec w gid a
      simp only [step, Option.some.injEq] at hstep
      subst hstep
      refine ⟨fun k => (hkeys k).trans (hop.keys k), by simp, ?_⟩
      rintro ec (h | ⟨rest', h⟩)
      · simp at h
      · simp only [GroupListPoint.delay.injEq] at h
        exact h.2 ▸ hec
    | delay rest ec => simp [step] at hstep
    | done ec => simp [step] at hstep
  | timer =>
    cases point with
    | delay rest ec =>
      simp only [step, Option.some.injEq] at hstep
      subst hstep
      exact numbering_nextNumber rest hop.keys (hop.error ec (.inr ⟨rest, rfl⟩))
    | _ => simp [step] at hstep

theorem exists_run_done (w : GroupsWorld) (gids : List Str) (ec : ErrorCode) :
    ∃ es w' ec', run step ⟨w, nextNumber w gids ec⟩ es = some ⟨w', .done ec'⟩ := by
  induction gids generalizing w ec with
  | nil => exact ⟨[], w, ec, rfl⟩
  | cons gid rest ih =>
    by_cases hnumber : nextNumber w (gid :: rest) ec = .number gid rest
    · let a : HttpAnswer := ⟨.success, [], none⟩
      obtain ⟨es, w', ec', hrun⟩ := ih (takeNumber w gid a).1 (takeNumber w gid a).2
      exact ⟨.answer 0 a :: .timer :: es, w', ec', by rw [hnumber]; exact hrun⟩
    · have hskip : nextNumber w (gid :: rest) ec = nextNumber w rest ec := by
        rw [nextNumber] at hnumber ⊢
        split
        · rfl
        · split
          · rfl
          · simp_all
      obtain ⟨es, w', ec', hrun⟩ := ih w ec
      exact ⟨es, w', ec', by rw [hskip]; exact hrun⟩

/-- What the operation should do with one answer to its first request, however it goes on: an accepted list replaces the map, and a failure leaves the map alone. -/
def AllOrNothing (w : GroupsWorld) (a : HttpAnswer) : Prop :=
  ∀ now es w' ec, run step ⟨w, .fetching⟩ (.answer now a :: es) = some ⟨w', .done ec⟩ →
    (∀ results, gnamelist a = .ok (some results) → ¬ Malformed results →
      (∀ g ∈ listed results, ¬ g.Refused) →
      ∀ gid, gid ∈ w'.mGroups ↔ gid ∈ (listed results).map QqGroup.gid) ∧
    (ec = makeErrorCode .failedToFetchGroupList → w'.mGroups = w.mGroups)

/-- A malformed list must not have named a new group before its first bad entry; a list with a refused group must be the old one or enter nothing; an accepted list must share a `gid` with the old one or repeat one of its own, unless there is nothing to remove. -/
def Harmless (old : GroupMap) (a : HttpAnswer) : Prop :=
  ∀ results, gnamelist a = .ok (some results) →
    if Malformed results then ∀ g ∈ entered results, g.gid ∈ old
    else if ∃ g ∈ listed results, g.Refused then
      if Replaces old (entered results) then insertAll ∅ (entered results) = old
      else entered results = []
    else Replaces old (entered results) ∨ ∀ gid, gid ∉ old

theorem entered_of_no_refused {results : List (String × Ptree)}
    (h : ∀ g ∈ listed results, ¬ g.Refused) : entered results = listed results := by
  rw [entered, filter_eq_self]
  simpa using h

theorem run_done {w' : GroupsWorld} {a : HttpAnswer} {now : Nat} {es : List GroupListEvent}
    (hrun : run step ⟨w, .fetching⟩ (.answer now a :: es) = some ⟨w', .done ec⟩) :
    if (readGroupList now w a).2 then
      w' = (readGroupList now w a).1 ∧ ec = makeErrorCode .failedToFetchGroupList
    else (∀ gid, gid ∈ w'.mGroups ↔ gid ∈ (readGroupList now w a).1.mGroups) ∧
      ec ≠ makeErrorCode .failedToFetchGroupList := by
  rw [run_cons] at hrun
  simp only [step, Option.bind_some] at hrun
  split
  · rename_i hretry
    rw [if_pos hretry] at hrun
    cases es with
    | nil =>
      simp only [run_nil, Option.some.injEq, GroupListOp.mk.injEq, GroupListPoint.done.injEq] at hrun
      exact ⟨hrun.1.symm, hrun.2.symm⟩
    | cons e es =>
      rw [run_cons] at hrun
      cases e <;> simp [step] at hrun
  · rename_i hretry
    rw [if_neg hretry] at hrun
    have hnumbering := invariant_of_run (fun _ _ _ hs he => step_numbering hs he)
      (numbering_nextNumber _ (fun _ => Iff.rfl) success_ne_failed) hrun
    exact ⟨hnumbering.keys, hnumbering.error ec (.inl rfl)⟩

theorem exists_run_of_answer (now : Nat) (w : GroupsWorld) (a : HttpAnswer) :
    ∃ es w' ec, run step ⟨w, .fetching⟩ (.answer now a :: es) = some ⟨w', .done ec⟩ := by
  simp only [run_cons, step, Option.bind_some]
  split
  · exact ⟨[], _, _, rfl⟩
  · exact exists_run_done _ _ _

theorem allOrNothing_iff_first (w : GroupsWorld) (a : HttpAnswer) :
    AllOrNothing w a ↔ ∀ now,
      (∀ results, gnamelist a = .ok (some results) → ¬ Malformed results →
        (∀ g ∈ listed results, ¬ g.Refused) →
        ∀ gid, gid ∈ (readGroupList now w a).1.mGroups ↔ gid ∈ (listed results).map QqGroup.gid) ∧
      ((readGroupList now w a).2 = true → (readGroupList now w a).1.mGroups = w.mGroups) := by
  constructor
  · intro h now
    obtain ⟨es, w', ec, hrun⟩ := exists_run_of_answer now w a
    obtain ⟨haccepted, hfailed⟩ := h now es w' ec hrun
    have hdone := run_done hrun
    split at hdone
    · obtain ⟨rfl, rfl⟩ := hdone
      exact ⟨haccepted, fun _ => hfailed rfl⟩
    · rename_i hretry
      exact ⟨fun results hr hm hg gid => (hdone.1 gid).symm.trans (haccepted results hr hm hg gid),
        fun h => absurd h hretry⟩
  · intro h now es w' ec hrun
    obtain ⟨haccepted, hfailed⟩ := h now
    have hdone := run_done hrun
    split at hdone
    · rename_i hretry
      obtain ⟨rfl, rfl⟩ := hdone
      exact ⟨haccepted, fun _ => hfailed hretry⟩
    · exact ⟨fun results hr hm hg gid => (hdone.1 gid).trans (haccepted results hr hm hg gid),
        fun h => absurd h hdone.2⟩

theorem not_mem_of_not_replaces {gs : List QqGroup} (h : ¬ Replaces groups gs) : ∀ g ∈ gs, g.gid ∉ groups :=
  fun g hg hmem => h (.inl ⟨g, hg, hmem⟩)

theorem refused_iff (old : GroupMap) (gs : List QqGroup) :
    (if Replaces old gs then insertAll ∅ gs else insertAll old gs) = old ↔
      if Replaces old gs then insertAll ∅ gs = old else gs = [] := by
  split
  · rfl
  · rename_i hrep
    rw [insertAll_eq_self_iff]
    constructor
    · intro h
      rw [eq_nil_iff_forall_not_mem]
      exact fun g hg => not_mem_of_not_replaces hrep g hg (h g hg)
    · rintro rfl
      simp

theorem accepted_iff (old : GroupMap) (gs : List QqGroup) :
    (∀ gid, gid ∈ (if Replaces old gs then insertAll ∅ gs else insertAll old gs) ↔
        gid ∈ gs.map QqGroup.gid) ↔ Replaces old gs ∨ ∀ gid, gid ∉ old := by
  by_cases hrep : Replaces old gs
  · simp [hrep, mem_insertAll]
  · rw [if_neg hrep]
    simp only [mem_insertAll, hrep, false_or]
    constructor
    · intro h gid hgid
      obtain ⟨g, hg, rfl⟩ := mem_map.mp ((h gid).mp (.inl hgid))
      exact not_mem_of_not_replaces hrep g hg hgid
    · intro h gid
      exact ⟨fun hgid => hgid.resolve_left (h gid), .inr⟩

/-- For every previous content of the map and every answer, the operation is all or nothing exactly when the answer is harmless. -/
theorem allOrNothing_iff_harmless (w : GroupsWorld) (a : HttpAnswer) : AllOrNothing w a ↔ Harmless w.mGroups a := by
  rw [allOrNothing_iff_first]
  cases hlist : gnamelist a with
  | error e => simp [Harmless, hlist, readGroupList]
  | ok list =>
    cases list with
    | none => simp [Harmless, hlist, readGroupList]
    | some results =>
      have hread := fun now => readGroupList_of_list now w hlist
      simp only [Harmless, hlist, Except.ok.injEq, Option.some.injEq, forall_eq']
      by_cases hmal : Malformed results
      · simp [(hread _).1, (hread _).2, hmal, insertAll_eq_self_iff]
      · by_cases href : ∃ g ∈ listed results, g.Refused
        · have hnone : ¬ ∀ g ∈ listed results, ¬ g.Refused := fun h => by
            obtain ⟨g, hg, hrefused⟩ := href
            exact h g hg hrefused
          simp only [(hread _).1, (hread _).2, hmal, href, hnone, not_false_eq_true, true_and,
            forall_const, if_true, if_false, or_true, false_implies, refused_iff]
        · have hall : ∀ g ∈ listed results, ¬ g.Refused := fun g hg h => href ⟨g, hg, h⟩
          simp only [(hread _).1, (hread _).2, hmal, href, not_false_eq_true, true_and, or_self,
            false_implies, and_true, forall_const, if_false, iff_true_intro hall]
          rw [← entered_of_no_refused hall]
          exact accepted_iff w.mGroups (entered results)

/-- The old map has one group that is gone, the answer names another one: both stay. -/
theorem stale_group_kept :
    let old : GroupsWorld := ⟨(∅ : GroupMap).insert ['1'] ⟨['1'], ['a'], ['5'], ['9'], []⟩, .mk [] [] (by decide)⟩
    let entry : Ptree := .node [] [("gid", .leaf ['2']), ("name", .leaf ['b']), ("code", .leaf ['6'])]
    let answer : HttpAnswer := ⟨.success,
      "\x7b\"retcode\":0,\"result\":\x7b\"gnamelist\":[\x7b\"gid\":\"2\",\"name\":\"b\",\"code\":\"6\"\x7d]\x7d\x7d".toList,
      some (.node [] [("retcode", .leaf ['0']), ("result", .node [] [("gnamelist", .node [] [("", entry)])])])⟩
    listed [("", entry)] = [⟨['2'], ['b'], ['6'], [], []⟩] ∧
      gnamelist answer = .ok (some [("", entry)]) ∧
      ['1'] ∈ (readGroupList 0 old answer).1.mGroups ∧
      ¬ AllOrNothing old answer := by
  intro old entry answer
  have hstale : ['1'] ∈ (readGroupList 0 old answer).1.mGroups := by decide
  refine ⟨rfl, rfl, hstale, ?_⟩
  rw [allOrNothing_iff_first]
  intro h
  have hkeys := ((h 0).1 [("", entry)] rfl (by decide) (by decide) ['1']).mp hstale
  revert hkeys
  decide

end GroupListOp

end Avbot
