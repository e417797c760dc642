import Mathlib.Data.List.Nodup
import Mathlib.Data.List.Perm.Subperm
import Avbot.Base.ErrorCode
import Avbot.Base.Ptree
import Avbot.Lib.EventMachine

/-!
# The routines of the accounts

Every account has a coroutine, `accountsroutine`, which enters the account in `m_accouts`, logs in and reads messages until a fatal error. At the end of its scope it takes the address out with `std::remove`, which does not make the vector shorter.
-/

namespace Avbot

open List EventMachine

/-- `std::remove`: what is kept moves to the front, and the places that become free keep their values. -/
def stdRemove {α : Type*} [DecidableEq α] (a : α) (xs : List α) : List α :=
  let kept := xs.filter (· ≠ a)
  kept ++ xs.drop kept.length

theorem length_stdRemove {α : Type*} [DecidableEq α] (a : α) (xs : List α) : (stdRemove a xs).length = xs.length := by
  have hle := length_filter_le (fun x => decide (x ≠ a)) xs
  grind [stdRemove]

inductive AccountPoint where
  | login
  | recvMessage
  deriving DecidableEq

structure AccountRoutine (α : Type*) where
  account : α
  isErrorFatal : ErrorCode → Bool
  point : AccountPoint

structure AccountsWorld (α : Type*) where
  mAccouts : List α
  mQuit : Bool
  routines : List (AccountRoutine α)
  messages : List Ptree

inductive AccountEvent (α : Type*) where
  /-- A routine starts, with its account at an address that no running routine has. -/
  | start (account : α) (isErrorFatal : ErrorCode → Bool)
  | logined (account : α) (ec : ErrorCode)
  | received (account : α) (ec : ErrorCode) (message : Ptree)
  | destroy

namespace AccountsWorld

variable {α : Type*} [DecidableEq α]

def new : AccountsWorld α := ⟨[], false, [], []⟩

def accounts (w : AccountsWorld α) : List α := w.routines.map (·.account)

def waiting (w : AccountsWorld α) (a : α) (point : AccountPoint) : Option (AccountRoutine α) :=
  w.routines.find? fun r => r.account = a ∧ r.point = point

def enter (w : AccountsWorld α) (a : α) (isErrorFatal : ErrorCode → Bool) : AccountsWorld α :=
  { w with mAccouts := w.mAccouts ++ [a], routines := w.routines ++ [⟨a, isErrorFatal, .login⟩] }

def leave (w : AccountsWorld α) (a : α) : AccountsWorld α :=
  { w with
    mAccouts := if w.mQuit then w.mAccouts else stdRemove a w.mAccouts
    routines := w.routines.filter (·.account ≠ a) }

def moveTo (w : AccountsWorld α) (a : α) (point : AccountPoint) : AccountsWorld α :=
  { w with routines := w.routines.map fun r => if r.account = a then { r with point := point } else r }

def step (w : AccountsWorld α) : AccountEvent α → Option (AccountsWorld α)
  | .start a isErrorFatal => if w.mQuit ∨ a ∈ w.accounts then none else some (w.enter a isErrorFatal)
  | .logined a ec =>
    (w.waiting a .login).map fun r =>
      if w.mQuit then w.leave a
      else if r.isErrorFatal ec then w.leave a
      else if ec.failed then w
      else w.moveTo a .recvMessage
  | .received a ec message =>
    (w.waiting a .recvMessage).map fun r =>
      if w.mQuit then w.leave a
      else
        let w := if ec.failed then w else { w with messages := w.messages ++ [message] }
        if r.isErrorFatal ec then w.moveTo a .login else w
  | .destroy => some { w with mQuit := true }

def Exact (w : AccountsWorld α) : Prop := w.mAccouts.Nodup ∧ ∀ a, a ∈ w.mAccouts ↔ a ∈ w.accounts

def NotFatal (w : AccountsWorld α) : AccountEvent α → Prop
  | .logined a ec => ∀ r, w.waiting a .login = some r → r.isErrorFatal ec = false
  | _ => True

omit [DecidableEq α] in
@[simp] theorem accounts_enter (w : AccountsWorld α) (a : α) (isErrorFatal : ErrorCode → Bool) :
    (w.enter a isErrorFatal).accounts = w.accounts ++ [a] := by
  simp [accounts, enter]

@[simp] theorem accounts_leave (w : AccountsWorld α) (a : α) : (w.leave a).accounts = w.accounts.filter (· ≠ a) := by
  simp only [accounts, leave, filter_map]
  rfl

@[simp] theorem accounts_moveTo (w : AccountsWorld α) (a : α) (point : AccountPoint) :
    (w.moveTo a point).accounts = w.accounts := by
  simp only [accounts, moveTo, map_map]
  apply map_congr_left
  grind

variable {w w' : AccountsWorld α} {a : α} {e : AccountEvent α}

theorem mem_accounts_of_waiting {point : AccountPoint} {r : AccountRoutine α}
    (hwaiting : w.waiting a point = some r) : a ∈ w.accounts := by
  have hfound := List.find?_some hwaiting
  have haccount : r.account = a := (of_decide_eq_true hfound).1
  exact mem_map.mpr ⟨r, mem_of_find?_eq_some hwaiting, haccount⟩

theorem enter_of_step_start {isErrorFatal : ErrorCode → Bool}
    (hstep : w.step (.start a isErrorFatal) = some w') : a ∉ w.accounts ∧ w' = w.enter a isErrorFatal := by
  simp only [step] at hstep
  grind

theorem mQuit_of_step (hstep : w.step e = some w') (halive : w'.mQuit = false) : w.mQuit = false := by
  cases e with
  | start a isErrorFatal =>
    obtain ⟨-, rfl⟩ := enter_of_step_start hstep
    exact halive
  | logined a ec =>
    obtain ⟨r, -, rfl⟩ := Option.map_eq_some_iff.mp hstep
    split_ifs at halive <;> exact halive
  | received a ec message =>
    obtain ⟨r, -, rfl⟩ := Option.map_eq_some_iff.mp hstep
    split_ifs at halive <;> exact halive
  | destroy =>
    cases hstep
    exact absurd halive Bool.noConfusion

theorem step_cases (hstep : w.step e = some w') (halive : w'.mQuit = false) :
    (w.NotFatal e ∧ ∃ a, a ∉ w.accounts ∧ w'.accounts = w.accounts ++ [a] ∧ w'.mAccouts = w.mAccouts ++ [a]) ∨
    (¬ w.NotFatal e ∧ ∃ a ∈ w.accounts, w'.accounts = w.accounts.filter (· ≠ a) ∧ w'.mAccouts = stdRemove a w.mAccouts) ∨
    (w.NotFatal e ∧ w'.accounts = w.accounts ∧ w'.mAccouts = w.mAccouts) := by
  have hquit := mQuit_of_step hstep halive
  cases e with
  | start a isErrorFatal =>
    obtain ⟨hnew, rfl⟩ := enter_of_step_start hstep
    exact .inl ⟨trivial, a, hnew, accounts_enter w a isErrorFatal, rfl⟩
  | logined a ec =>
    obtain ⟨r, hwaiting, rfl⟩ := Option.map_eq_some_iff.mp hstep
    simp only [hquit, Bool.false_eq_true, ↓reduceIte]
    split_ifs with hfatal hfailed
    · refine .inr (.inl ⟨?_, a, mem_accounts_of_waiting hwaiting, accounts_leave w a, ?_⟩)
      · intro hnot
        exact absurd (hnot r hwaiting) (by simp [hfatal])
      · simp [leave, hquit]
    all_goals
      have hnot : w.NotFatal (.logined a ec) := by
        intro r' hr'
        grind
    · exact .inr (.inr ⟨hnot, rfl, rfl⟩)
    · exact .inr (.inr ⟨hnot, accounts_moveTo w a _, rfl⟩)
  | received a ec message =>
    obtain ⟨r, -, rfl⟩ := Option.map_eq_some_iff.mp hstep
    refine .inr (.inr ⟨trivial, ?_⟩)
    simp only [hquit, Bool.false_eq_true, ↓reduceIte]
    split_ifs
    · exact ⟨accounts_moveTo w a _, rfl⟩
    · exact ⟨accounts_moveTo _ a _, rfl⟩
    · exact ⟨rfl, rfl⟩
    · exact ⟨rfl, rfl⟩
  | destroy =>
    cases hstep
    exact absurd halive Bool.noConfusion

def Listed (w : AccountsWorld α) : Prop := w.mAccouts = w.accounts ∧ w.accounts.Nodup

def Stale (w : AccountsWorld α) : Prop := w.accounts.length < w.mAccouts.length

omit [DecidableEq α] in
theorem Listed.exact (hw : w.Listed) : w.Exact := by
  unfold Exact
  rw [hw.1]
  exact ⟨hw.2, fun a => Iff.rfl⟩

omit [DecidableEq α] in
theorem Exact.not_stale (hw : w.Exact) : ¬ w.Stale := by
  have hsub := subperm_of_subset hw.1 fun a ha => (hw.2 a).mp ha
  exact Nat.not_lt.mpr hsub.length_le

theorem listed_or_stale_of_step (halive : w'.mQuit = false)
    (hw : w.Listed) (hstep : w.step e = some w') : (w.NotFatal e ∧ w'.Listed) ∨ (¬ w.NotFatal e ∧ w'.Stale) := by
  obtain ⟨hlist, hnodup⟩ := hw
  rcases step_cases hstep halive with ⟨hnot, a, hnew, hrun, hvec⟩ | ⟨hfatal, a, ha, hrun, hvec⟩ | ⟨hnot, hrun, hvec⟩
  · refine .inl ⟨hnot, ?_, ?_⟩
    · rw [hvec, hrun, hlist]
    · grind
  · refine .inr ⟨hfatal, ?_⟩
    unfold Stale
    rw [hrun, hvec, length_stdRemove, hlist]
    exact length_filter_lt_length_iff_exists.mpr ⟨a, ha, by simp⟩
  · refine .inl ⟨hnot, ?_, ?_⟩
    · rw [hvec, hrun, hlist]
    · rw [hrun]
      exact hnodup

theorem stale_of_step (halive : w'.mQuit = false) (hw : w.Stale) (hstep : w.step e = some w') : w'.Stale := by
  unfold Stale at *
  rcases step_cases hstep halive with ⟨-, a, -, hrun, hvec⟩ | ⟨-, a, -, hrun, hvec⟩ | ⟨-, hrun, hvec⟩
  · rw [hrun, hvec]
    simpa using hw
  · grind [length_stdRemove]
  · rwa [hrun, hvec]

/-- While the object lives, the vector holds exactly the running accounts if and only if no routine has ended by a fatal error of its login. -/
theorem exact_iff_notFatal {events : List (AccountEvent α)} {w : AccountsWorld α} (hrun : run step new events = some w)
    (halive : w.mQuit = false) : w.Exact ↔ Meets step NotFatal new events := by
  have hnew : (new : AccountsWorld α).Listed := ⟨rfl, nodup_nil⟩
  refine @meets_iff_of_live_run _ _ _ (fun w => w.mQuit = false) Listed Stale Exact NotFatal
    (fun w e w' he h => mQuit_of_step he h) ?_ ?_ ?_ ?_ _ _ _ hnew hrun halive
  · grind [listed_or_stale_of_step]
  · grind [stale_of_step]
  · intro w hw
    exact hw.exact
  · intro w hw hexact
    exact hexact.not_stale hw

/-- Two accounts, one of which has logged in and read a message. -/
theorem exact_of_two_accounts :
    (AccountsWorld.mk [1, 2] false [⟨1, fun _ => false, .recvMessage⟩, ⟨2, fun _ => true, .login⟩] [.leaf []] :
      AccountsWorld Nat).Exact :=
  (@exact_iff_notFatal Nat _ [.start 1 fun _ => false, .start 2 fun _ => true, .logined 1 .success,
    .received 1 .success (.leaf [])] _ rfl rfl).mpr ⟨trivial, trivial, fun r hr => by cases hr; rfl, trivial, trivial⟩

/-- The only account has ended, and its address is still there. -/
theorem stale_after_fatal_login :
    let events := [AccountEvent.start 1 fun ec => ec.failed, .logined 1 .operationCanceled]
    ∃ w, run step (new : AccountsWorld Nat) events = some w ∧ w.mQuit = false ∧ w.accounts = [] ∧ w.mAccouts = [1] ∧
      ¬ w.Exact := by
  refine ⟨_, rfl, rfl, rfl, rfl, ?_⟩
  intro hexact
  have hrunning := (hexact.2 1).mp mem_cons_self
  cases hrunning

end AccountsWorld

end Avbot
