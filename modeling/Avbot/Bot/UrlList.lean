import Avbot.Base.Text
import Avbot.Lib.Recent
import Mathlib.Data.List.Induction

/-!
# Repeated URLs

`do_urlpreview` starts a preview only if five minutes have passed since the last mention of the same URL. It compares the minutes within the hour.
-/

namespace Avbot.UrlPreview

open List Recent

/-- A call of `do_urlpreview`. The time is in microseconds. -/
structure Mention where
  speaker : Str
  url : Str
  current : Int

def minute : Int := 60000000

def hour : Int := 60 * minute

def minutes (ticks : Int) : Int := (ticks.tdiv minute).tmod 60

def capacity : Nat := 20

variable (canPreview : Str → Str → Bool)

def doUrlpreview (urllist : List (Str × Int)) (m : Mention) : List (Str × Int) × Bool :=
  if canPreview m.speaker m.url then
    let jiange := ((urllist.find? (·.1 = m.url)).map Prod.snd).elim (99 * minute) (m.current - ·)
    (touch capacity urllist m.url m.current, 5 ≤ minutes jiange)
  else (urllist, false)

def urllist (past : List Mention) : List (Str × Int) := past.foldl (fun l m => (doUrlpreview canPreview l m).1) []

def Starts (past : List Mention) (m : Mention) : Prop := (doUrlpreview canPreview (urllist canPreview past) m).2 = true

def lastMention (past : List Mention) (url : Str) : Option Int := last (past.map fun m => (m.url, m.current)) url

def Due (past : List Mention) (m : Mention) : Prop :=
  lastMention past m.url = none ∨ ∃ t, lastMention past m.url = some t ∧ 5 * minute ≤ m.current - t

variable {canPreview}

section Rule

variable {past : List Mention} {m : Mention}

theorem tracks_urllist (hpreview : ∀ m ∈ past, canPreview m.speaker m.url = true)
    (hurls : (past.map Mention.url).dedup.length ≤ capacity) :
    Tracks (past.map fun m => (m.url, m.current)) (urllist canPreview past) := by
  induction past using List.reverseRecOn with
  | nil => exact Tracks.init
  | append_singleton past m ih =>
    have hroom : (((past.map fun m => (m.url, m.current)) ++ [(m.url, m.current)]).map Prod.fst).dedup.length ≤ capacity := by
      simpa [Function.comp_def] using hurls
    have hfewer : (past.map Mention.url).dedup.length ≤ capacity := by
      refine Nat.le_trans (length_dedup_le ?_) hurls
      grind
    have htracks := (ih (fun m' hm' => hpreview m' (mem_append_left [m] hm')) hfewer).touch hroom
    grind [urllist, doUrlpreview]

theorem minutes_of_nonneg {d : Int} (hd : 0 ≤ d) : 5 ≤ minutes d ↔ 5 * minute ≤ d % hour := by
  grind [minutes, hour, minute]

theorem starts_iff_due_iff (hpreview : ∀ m' ∈ past ++ [m], canPreview m'.speaker m'.url = true)
    (hurls : (past.map Mention.url).dedup.length ≤ capacity) (htimes : ∀ m' ∈ past, m'.current ≤ m.current) :
    (Starts canPreview past m ↔ Due past m) ↔
      ∀ t, lastMention past m.url = some t → hour ≤ m.current - t → 5 * minute ≤ (m.current - t) % hour := by
  have htracks := tracks_urllist (fun m' hm' => hpreview m' (mem_append_left [m] hm')) hurls
  rw [Starts, doUrlpreview, if_pos (hpreview m (mem_append_right past mem_cons_self)), htracks.find_eq, Due]
  change (decide (5 ≤ minutes ((lastMention past m.url).elim _ _)) = true ↔ _) ↔ _
  cases hlast : lastMention past m.url with
  | none =>
    have hfirst : 5 ≤ minutes (99 * minute) := by decide
    simp [hfirst]
  | some t =>
    obtain ⟨m', hm', heq⟩ := mem_map.mp (mem_of_last hlast)
    obtain ⟨-, rfl⟩ := Prod.mk.inj heq
    have hle := htimes m' hm'
    have hd : 0 ≤ m.current - m'.current := by omega
    rw [decide_eq_true_iff, Option.elim_some, minutes_of_nonneg hd]
    simp only [reduceCtorEq, false_or, Option.some.injEq, exists_eq_left', forall_eq']
    rw [hour, minute]
    grind

end Rule

/-- The decisions for a sequence of mentions. -/
theorem starts_iff (canPreview : Str → Str → Bool) (ms : List Mention)
    (hpreview : ∀ m ∈ ms, canPreview m.speaker m.url = true) (hurls : (ms.map Mention.url).dedup.length ≤ 20)
    (htimes : ms.Pairwise fun m m' => m.current ≤ m'.current) :
    (∀ past m rest, ms = past ++ m :: rest → (Starts canPreview past m ↔ Due past m)) ↔
      ∀ past m rest, ms = past ++ m :: rest →
        ∀ t, lastMention past m.url = some t → hour ≤ m.current - t → 5 * minute ≤ (m.current - t) % hour := by
  refine forall_congr' fun past => forall_congr' fun m => forall_congr' fun rest => forall_congr' fun hms => ?_
  have hbefore : past ++ [m] ⊆ ms := by
    grind
  have hfewer : (past.map Mention.url).dedup.length ≤ capacity :=
    Nat.le_trans (length_dedup_le (map_subset _ fun m' hm' => hbefore (mem_append_left [m] hm'))) hurls
  grind [starts_iff_due_iff]

def mentionAt (t : Int) : Mention := ⟨"a".toList, "http://a.b".toList, t⟩

theorem starts_after_five_minutes :
    Starts (fun _ _ => true) [mentionAt 0] (mentionAt (5 * minute)) ↔ Due [mentionAt 0] (mentionAt (5 * minute)) := by
  refine (starts_iff (fun _ _ => true) [mentionAt 0, mentionAt (5 * minute)] (fun _ _ => rfl) (by decide)
    (by simp [mentionAt, minute])).mpr ?_ _ _ [] rfl
  intro past m rest hms t hlast hlong
  obtain ⟨m', hm', heq⟩ := mem_map.mp (mem_of_last hlast)
  obtain ⟨-, rfl⟩ := Prod.mk.inj heq
  have hrange : ∀ m ∈ [mentionAt 0, mentionAt (5 * minute)], 0 ≤ m.current ∧ m.current ≤ 5 * minute := by
    simp [mentionAt, minute]
  rw [hms] at hrange
  grind [hour, minute]

theorem not_starts_after_an_hour :
    Due [mentionAt 0] (mentionAt hour) ∧ ¬ Starts (fun _ _ => true) [mentionAt 0] (mentionAt hour) := by
  refine ⟨.inr ⟨0, by decide, by decide⟩, ?_⟩
  unfold Starts
  decide

end Avbot.UrlPreview
