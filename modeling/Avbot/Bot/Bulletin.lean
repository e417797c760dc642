import Avbot.Base.Ptree
import Avbot.Lib.Fallible
import Mathlib.Data.List.Pairwise
import Mathlib.Data.Nat.Order.Lemmas
import Mathlib.Order.Monotone.Basic

/-!
# The announcements of a channel

`schedule_next` looks for the next minute that a settings line matches, in steps of a minute from 45 seconds behind the present time on, and sets a timer for the first line it finds. The timer fires between 15 and 44 seconds after the time found, and then everything begins again. So of the lines of a minute only the first is announced, and if the seconds add up a minute is left out.
-/

namespace Avbot.Bulletin

open List Except

/-- A settings line that one of the expressions accepts. Without a file name it is `bulletin.txt`. -/
structure CronLine where
  year : Str
  month : Str
  day : Str
  hour : Str
  minute : Str
  msgfile : Str
  accepted : ∀ s ∈ [year, month, day, hour, minute], s ≠ [] ∧ ∀ c ∈ s, c.isDigit = true ∨ c = '*'

/-- What the fields of a line are compared with. -/
structure Moment where
  year : Int
  month : Int
  day : Int
  hour : Int
  minute : Int

def isMatch (cronlineField : Str) (field : Int) : Except Exn Bool :=
  if cronlineField = ['*'] then .ok true else (Str.lexicalCast cronlineField).map fun n => decide (n = field)

def matchLine (l : CronLine) (t : Moment) : Except Exn Bool :=
  [(l.year, t.year), (l.month, t.month), (l.day, t.day), (l.hour, t.hour), (l.minute, t.minute)].allM fun f => isMatch f.1 f.2

def firstMatch (t : Moment) : List CronLine → Except Exn (Option CronLine)
  | [] => .ok none
  | l :: rest => do
    if ← matchLine l t then return some l
    firstMatch t rest

/-- After `schedule_next`: the time of the call, and the time and line for which the timer is set. Times are in seconds. -/
structure State where
  now : Int
  waiting : Option (Int × CronLine)

variable (calendar : Int → Moment) (settings : List CronLine)

def search : Nat → Int → Except Exn (Option (Int × CronLine))
  | 0, _ => .ok none
  | n + 1, titr => do
    match ← firstMatch (calendar (titr / 60)) settings with
    | some l => return some (titr, l)
    | none => search n (titr + 60)

/-- From 45 seconds to two hours there are 120 steps of a minute. -/
def scheduleNext (now : Int) : Except Exn State := do
  return ⟨now, ← search calendar settings 120 (now + 45)⟩

/-- The timer fires, with the value of `std::rand() % 30`. -/
def fire (rand : Fin 30) (s : State) : Except Exn State :=
  scheduleNext calendar settings (s.waiting.elim (s.now + 3600) fun w => w.1 + (rand.val + 15))

def stateAt (start : Int) (rand : Nat → Fin 30) : Nat → Except Exn State
  | 0 => scheduleNext calendar settings start
  | n + 1 => do fire calendar settings (rand n) (← stateAt start rand n)

/-- The minute and the line of the message that is sent when the timer fires. -/
def State.announcement (s : State) : Option (Int × CronLine) := s.waiting.map fun w => (w.1 / 60, w.2)

def Matches (l : CronLine) (m : Int) : Prop := matchLine l (calendar m) = .ok true

/-- Each field is a star or a number of the type `int`. -/
def CronLine.Castable (l : CronLine) : Prop :=
  ∀ s ∈ [l.year, l.month, l.day, l.hour, l.minute], s = ['*'] ∨ ∃ n, Str.lexicalCast s = .ok n

/-- No line matches the minute that is left out if the seconds add up to two minutes. -/
def NoneSkipped (rand : Fin 30) (s : State) : Prop :=
  ∀ t l, s.waiting = some (t, l) → t % 60 + (rand.val + 15) + 45 < 120 ∨ ∀ l ∈ settings, ¬ Matches calendar l (t / 60 + 1)

def State.first (s : State) : Int := (s.now + 45) / 60

/-- What `schedule_next` has found out of the minutes from the first on. -/
structure Scheduled (s : State) : Prop where
  idle : s.waiting = none → ∀ m, s.first ≤ m → m < s.first + 120 → ∀ l ∈ settings, ¬ Matches calendar l m
  waiting : ∀ t l, s.waiting = some (t, l) → s.first ≤ t / 60 ∧ l ∈ settings ∧ Matches calendar l (t / 60) ∧
    ∀ m, s.first ≤ m → m < t / 60 → ∀ l ∈ settings, ¬ Matches calendar l m

variable {calendar settings}

theorem matchLine_ok {l : CronLine} (h : l.Castable) (t : Moment) : ∃ b, matchLine l t = .ok b := by
  have hfields : ∀ fields : List (Str × Int), (∀ f ∈ fields, f.1 = ['*'] ∨ ∃ n, Str.lexicalCast f.1 = .ok n) →
      ∃ b, (fields.allM fun f => isMatch f.1 f.2) = .ok b := by
    intro fields hfields
    induction fields with
    | nil => exact ⟨true, rfl⟩
    | cons f fields ih =>
      obtain ⟨hf, hrest⟩ := forall_mem_cons.mp hfields
      obtain ⟨b, hb⟩ : ∃ b, isMatch f.1 f.2 = .ok b := by
        rw [isMatch]
        split
        · exact ⟨true, rfl⟩
        · obtain ⟨n, hn⟩ := hf.resolve_left ‹_›
          exact ⟨_, by rw [hn]; rfl⟩
      rw [allM, hb]
      cases b with
      | false => exact ⟨false, rfl⟩
      | true => exact ih hrest
  exact hfields _ (by simpa [CronLine.Castable] using h)

section

variable (hcast : ∀ l ∈ settings, l.Castable)

include hcast

theorem firstMatch_spec (m : Int) :
    ∃ r, firstMatch (calendar m) settings = .ok r ∧ (r = none → ∀ l ∈ settings, ¬ Matches calendar l m) ∧
      ∀ l, r = some l → l ∈ settings ∧ Matches calendar l m := by
  induction settings with
  | nil => exact ⟨none, rfl, by simp, by simp⟩
  | cons l rest ih =>
    obtain ⟨hl, hrest⟩ := forall_mem_cons.mp hcast
    obtain ⟨b, hb⟩ := matchLine_ok hl (calendar m)
    rw [firstMatch, hb]
    cases b with
    | true => exact ⟨some l, rfl, by simp, by rintro _ ⟨⟩; exact ⟨mem_cons_self, hb⟩⟩
    | false =>
      obtain ⟨r, hr, hnone, hsome⟩ := ih hrest
      refine ⟨r, hr, fun h => forall_mem_cons.mpr ⟨?_, hnone h⟩, fun l hl => ⟨mem_cons_of_mem _ (hsome l hl).1, (hsome l hl).2⟩⟩
      rw [Matches, hb]
      simp

/-- The search finds the first minute that a line matches, if there is one soon enough. -/
theorem search_spec (n : Nat) (titr : Int) :
    ∃ r, search calendar settings n titr = .ok r ∧
      (r = none → ∀ m, titr / 60 ≤ m → m < titr / 60 + n → ∀ l ∈ settings, ¬ Matches calendar l m) ∧
      ∀ t l, r = some (t, l) → titr / 60 ≤ t / 60 ∧ l ∈ settings ∧ Matches calendar l (t / 60) ∧
        ∀ m, titr / 60 ≤ m → m < t / 60 → ∀ l ∈ settings, ¬ Matches calendar l m := by
  induction n generalizing titr with
  | zero => exact ⟨none, rfl, fun _ m hlow hhigh => by omega, by simp⟩
  | succ n ih =>
    obtain ⟨r, hr, hnone, hsome⟩ := firstMatch_spec hcast (titr / 60)
    rw [search, hr]
    cases r with
    | some l =>
      obtain ⟨hmem, hmatches⟩ := hsome l rfl
      refine ⟨some (titr, l), rfl, by simp, ?_⟩
      rintro _ _ ⟨⟩
      exact ⟨le_refl _, hmem, hmatches, fun m hlow hhigh => by omega⟩
    | none =>
      obtain ⟨r, hr, hnone', hsome'⟩ := ih (titr + 60)
      have hnext : (titr + 60) / 60 = titr / 60 + 1 := by omega
      rw [hnext] at hnone' hsome'
      have hstep : ∀ {m}, titr / 60 ≤ m → m = titr / 60 ∨ titr / 60 + 1 ≤ m := by omega
      refine ⟨r, hr, fun h m hlow hhigh => ?_, fun t l htl => ?_⟩
      · rcases hstep hlow with rfl | hlow
        · exact hnone rfl
        · exact hnone' h m hlow (by omega)
      · obtain ⟨hle, hmem, hmatches, hbefore⟩ := hsome' t l htl
        refine ⟨by omega, hmem, hmatches, fun m hlow hhigh => ?_⟩
        rcases hstep hlow with rfl | hlow
        · exact hnone rfl
        · exact hbefore m hlow hhigh

theorem scheduleNext_spec (now : Int) :
    ∃ s, scheduleNext calendar settings now = .ok s ∧ s.now = now ∧ Scheduled calendar settings s := by
  obtain ⟨r, hr, hnone, hsome⟩ := search_spec hcast 120 (now + 45)
  exact ⟨⟨now, r⟩, by rw [scheduleNext, hr]; rfl, rfl, hnone, hsome⟩

theorem fire_spec (rand : Fin 30) (s : State) :
    ∃ s', fire calendar settings rand s = .ok s' ∧
      (s'.now = s.waiting.elim (s.now + 3600) fun w => w.1 + (rand.val + 15)) ∧ Scheduled calendar settings s' :=
  scheduleNext_spec hcast _

end

/-- Between two calls of `schedule_next` what matches is announced, if only one line matches and no minute is left out. -/
theorem Scheduled.fire {s s' : State} {rand : Fin 30} (h : Scheduled calendar settings s)
    (hone : ∀ m, ∀ l ∈ settings, ∀ l' ∈ settings, Matches calendar l m → Matches calendar l' m → l = l')
    (hskip : NoneSkipped calendar settings rand s)
    (hnow : s'.now = s.waiting.elim (s.now + 3600) fun w => w.1 + (rand.val + 15)) :
    s.first < s'.first ∧ (∀ m l, s.announcement = some (m, l) → s.first ≤ m ∧ m < s'.first) ∧
      ∀ l ∈ settings, ∀ m, s.first ≤ m → m < s'.first → Matches calendar l m → s.announcement = some (m, l) := by
  have hfirst : s'.first = (s'.now + 45) / 60 := rfl
  have hfirst' : s.first = (s.now + 45) / 60 := rfl
  rw [State.announcement]
  cases hw : s.waiting with
  | none =>
    rw [hw, Option.elim_none] at hnow
    exact ⟨by omega, by simp, fun l hl m hlow hhigh hmatches => absurd hmatches (h.idle hw m hlow (by omega) l hl)⟩
  | some w =>
    obtain ⟨t, found⟩ := w
    rw [hw, Option.elim_some] at hnow
    replace hnow : s'.now = t + (rand.val + 15) := hnow
    obtain ⟨hle, hmem, hfound, hbefore⟩ := h.waiting t found hw
    refine ⟨by omega, ?_, fun l hl m hlow hhigh hmatches => ?_⟩
    · rintro _ _ ⟨⟩
      show s.first ≤ t / 60 ∧ t / 60 < s'.first
      omega
    · obtain rfl : m = t / 60 := by
        rcases lt_trichotomy m (t / 60) with hlt | heq | hgt
        · exact absurd hmatches (hbefore m hlow hlt l hl)
        · exact heq
        · rcases hskip t found hw with hsmall | hnone
          · omega
          · obtain rfl : m = t / 60 + 1 := by omega
            exact absurd hmatches (hnone l hl)
      rw [hone _ l hl found hmem hmatches hfound]
      rfl

/-- In every run in which no field fails to be a number, no two lines match one minute and no minute that a line matches is left out, each line is announced once for every minute it matches. -/
theorem announced_once (start : Int) (rand : Nat → Fin 30) (hcast : ∀ l ∈ settings, l.Castable)
    (hone : settings.Pairwise fun l l' => ∀ m, ¬ (Matches calendar l m ∧ Matches calendar l' m))
    (hskip : ∀ n s, stateAt calendar settings start rand n = .ok s → NoneSkipped calendar settings (rand n) s) :
    (∀ n, ∃ s, stateAt calendar settings start rand n = .ok s) ∧
      ∀ l ∈ settings, ∀ m, start / 60 + 2 ≤ m → Matches calendar l m →
        ∃! n, ∃ s, stateAt calendar settings start rand n = .ok s ∧ s.announcement = some (m, l) := by
  have hunique : ∀ m, ∀ l ∈ settings, ∀ l' ∈ settings, Matches calendar l m → Matches calendar l' m → l = l' := by
    intro m l hl l' hl' hmatches hmatches'
    have : Std.Symm fun l l' => ∀ m, ¬ (Matches calendar l m ∧ Matches calendar l' m) := ⟨fun _ _ h m hm => h m hm.symm⟩
    by_contra hne
    exact hone.forall hl hl' hne m ⟨hmatches, hmatches'⟩
  have hrun : ∀ n, ∃ s, stateAt calendar settings start rand n = .ok s ∧ Scheduled calendar settings s := by
    intro n
    induction n with
    | zero =>
      obtain ⟨s, hs, -, hscheduled⟩ := scheduleNext_spec hcast start
      exact ⟨s, hs, hscheduled⟩
    | succ n ih =>
      obtain ⟨s, hs, -⟩ := ih
      obtain ⟨s', hs', -, hscheduled⟩ := fire_spec hcast (rand n) s
      exact ⟨s', by rw [stateAt, hs]; exact hs', hscheduled⟩
  choose s hs hscheduled using hrun
  have hbegin : (s 0).first = (start + 45) / 60 := by
    obtain ⟨s', hs', hnow, -⟩ := scheduleNext_spec hcast start
    rw [ok.inj ((hs 0).symm.trans hs'), State.first, hnow]
  have hnow : ∀ n, (s (n + 1)).now = (s n).waiting.elim ((s n).now + 3600) fun w => w.1 + ((rand n).val + 15) := by
    intro n
    have hnext := hs (n + 1)
    rw [stateAt, hs n] at hnext
    obtain ⟨s', hs', hnow, -⟩ := fire_spec hcast (rand n) (s n)
    rw [ok.inj (hnext.symm.trans hs'), hnow]
  have hstep : ∀ n, _ := fun n => (hscheduled n).fire hunique (hskip n _ (hs n)) (hnow n)
  have hmono : StrictMono fun n => (s n).first := strictMono_nat_of_lt_succ fun n => (hstep n).1
  have hgrows : ∀ n : Nat, (s 0).first + n ≤ (s n).first := by
    intro n
    induction n with
    | zero => simp
    | succ n ih =>
      have := (hstep n).1
      push_cast
      omega
  refine ⟨fun n => ⟨s n, hs n⟩, fun l hl m hm hmatches => ?_⟩
  -- the minute lies between two calls of `schedule_next`
  obtain ⟨n, hlow, hhigh⟩ := Nat.exists_not_and_succ_of_not_zero_of_exists (p := fun n => m < (s n).first)
    (by omega) ⟨(m - (s 0).first + 1).toNat, by have := hgrows (m - (s 0).first + 1).toNat; omega⟩
  refine ⟨n, ⟨s n, hs n, (hstep n).2.2 l hl m (not_lt.mp hlow) hhigh hmatches⟩, ?_⟩
  rintro k ⟨s', hs', hannouncement⟩
  obtain rfl := ok.inj ((hs k).symm.trans hs')
  obtain ⟨hlow', hhigh'⟩ := (hstep k).2.1 m l hannouncement
  rcases lt_trichotomy k n with hlt | heq | hgt
  · have := hmono.monotone (Nat.succ_le_of_lt hlt)
    exact absurd (hhigh'.trans_le this) hlow
  · exact heq
  · have := hmono.monotone (Nat.succ_le_of_lt hgt)
    exact absurd (hhigh.trans_le this) (not_lt.mpr hlow')

def everyMinute (msgfile : Str) : CronLine := ⟨['*'], ['*'], ['*'], ['*'], ['*'], msgfile, by decide⟩

def atMinute (c : Char) (hc : c.isDigit = true) : CronLine := ⟨['*'], ['*'], ['*'], ['*'], [c], [], by simp [hc]⟩

def minutesOfDay (m : Int) : Moment := ⟨2014, 1, 1, m / 60, m % 60⟩

theorem matches_atMinute {c : Char} {hc : c.isDigit = true} {n m : Int} (hstar : c ≠ '*') (hcast : Str.lexicalCast [c] = .ok n) :
    Matches minutesOfDay (atMinute c hc) m ↔ n = m % 60 := by
  simp only [Matches, matchLine, atMinute, isMatch, minutesOfDay, allM, if_true, Fallible.ok_bind, cons.injEq, hstar, false_and,
    if_false, hcast, Except.map]
  by_cases hn : n = m % 60 <;> simp [hn, pure, Except.pure]

/-- One line is for the fifth minute of every hour, the other for the eighth. -/
theorem announced_once_of_two_lines :
    let lines := [atMinute '5' rfl, atMinute '8' rfl]
    (∃! n, ∃ s, stateAt minutesOfDay lines 0 (fun _ => 0) n = .ok s ∧ s.announcement = some (5, atMinute '5' rfl)) ∧
      ∃! n, ∃ s, stateAt minutesOfDay lines 0 (fun _ => 0) n = .ok s ∧ s.announcement = some (68, atMinute '8' rfl) := by
  intro lines
  have hfive (m : Int) : Matches minutesOfDay (atMinute '5' rfl) m ↔ 5 = m % 60 := matches_atMinute (by decide) (by decide)
  have height (m : Int) : Matches minutesOfDay (atMinute '8' rfl) m ↔ 8 = m % 60 := matches_atMinute (by decide) (by decide)
  have hcast : ∀ l ∈ lines, l.Castable := by
    have hnumbers : (∃ n, Str.lexicalCast ['5'] = .ok n) ∧ ∃ n, Str.lexicalCast ['8'] = .ok n := ⟨⟨5, by decide⟩, 8, by decide⟩
    simpa [lines, CronLine.Castable, atMinute] using hnumbers
  have hone : lines.Pairwise fun l l' => ∀ m, ¬ (Matches minutesOfDay l m ∧ Matches minutesOfDay l' m) := by
    simp only [lines, pairwise_pair, hfive, height]
    omega
  have honce := (announced_once 0 (fun _ => 0) hcast hone fun _ _ _ t _ _ => .inl
    (by show t % 60 + (0 + 15) + 45 < 120; omega)).2
  exact ⟨honce _ mem_cons_self 5 (by decide) ((hfive 5).mpr rfl),
    honce _ (mem_cons_of_mem _ mem_cons_self) 68 (by decide) ((height 68).mpr rfl)⟩

theorem scheduleNext_two (calendar : Int → Moment) (now : Int) (a b : Str) :
    scheduleNext calendar [everyMinute a, everyMinute b] now = .ok ⟨now, some (now + 45, everyMinute a)⟩ := rfl

/-- Of two lines for every minute only the first is announced, and a field that is neither a star nor a number is accepted but throws. -/
theorem not_announced_second_line :
    let calendar : Int → Moment := fun m => ⟨2014, 1, 1, 0, m⟩
    (∀ start rand n s m, stateAt calendar [everyMinute ['a'], everyMinute ['b']] start rand n = .ok s →
      Matches calendar (everyMinute ['b']) m ∧ s.announcement ≠ some (m, everyMinute ['b'])) ∧
    scheduleNext calendar [{ everyMinute [] with year := "1*".toList, accepted := by decide }] 0 = .error .badLexicalCast := by
  refine ⟨fun start rand n s m hs => ⟨rfl, ?_⟩, rfl⟩
  obtain ⟨now, hnow⟩ : ∃ now, scheduleNext (fun m => ⟨2014, 1, 1, 0, m⟩) [everyMinute ['a'], everyMinute ['b']] now = .ok s := by
    cases n with
    | zero => exact ⟨start, hs⟩
    | succ n =>
      rw [stateAt] at hs
      obtain ⟨s', -, hfire⟩ := Fallible.bind_eq_ok_iff.mp hs
      exact ⟨_, hfire⟩
  rw [scheduleNext_two] at hnow
  obtain rfl := ok.inj hnow
  simp [State.announcement, everyMinute]

end Avbot.Bulletin
