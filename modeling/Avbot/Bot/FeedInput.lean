import Mathlib.Data.List.Nodup
import Avbot.Base.Ptree
import Avbot.Lib.EventMachine

/-!
# Waiting for a line of input

`avbot_vc_feed_input` keeps the handlers that wait for the next line of any chat room. A timer that comes to its end calls all handlers that wait at that moment, whoever they are. A handler that registers again in its callback invalidates the iterators of the walk over the vector.

Every registration gets a number. What happens is kept in `trail`, the latest entry first.
-/

namespace Avbot

open List Option EventMachine Nat

structure InputWaiter where
  id : Nat
  deadline : Option Int
  deriving DecidableEq

inductive InputEntry where
  | registered (id : Nat) (deadline : Option Int)
  | fed (line : Str)
  /-- A handler is called or posted, with a line or with `timed_out`. -/
  | called (id : Nat) (line : Option Str) (time : Int)
  deriving DecidableEq

inductive InputCall where
  | asyncInputRead
  | asyncInputReadTimeout (timedOut : Int)
  | feedLine (line : Str)
  | feedMessage (message : Ptree)

def leavesAlone (calls : List InputCall) : Bool :=
  calls.all fun
    | .feedMessage message => (getString message ["message", "text"]).toOption.isNone
    | _ => false

inductive InputEvent where
  | call (time : Int) (call : InputCall)
  /-- The end of a timer, and the calls that each handler makes in its callback. -/
  | expire (time expiry : Int) (callbacks : Nat → List InputCall)

structure FeedInput where
  mInputWaitHandlers : List InputWaiter
  timers : List Int
  now : Int
  registrations : Nat
  undefined : Bool
  trail : List InputEntry

namespace FeedInput

def new (now : Int) : FeedInput := ⟨[], [], now, 0, false, []⟩

def note (w : FeedInput) (entry : InputEntry) : FeedInput := { w with trail := entry :: w.trail }

def register (w : FeedInput) (deadline : Option Int) : FeedInput :=
  { w.note (.registered w.registrations deadline) with
    mInputWaitHandlers := w.mInputWaitHandlers ++ [⟨w.registrations, deadline⟩]
    registrations := w.registrations + 1 }

def asyncInputRead (w : FeedInput) : FeedInput := w.register none

def asyncInputReadTimeout (w : FeedInput) (timedOut : Int) : FeedInput :=
  let w := w.register (some (w.now + timedOut))
  { w with timers := w.timers ++ [w.now + timedOut] }

def callAll (w : FeedInput) (line : Str) : List InputWaiter → FeedInput
  | [] => { w with mInputWaitHandlers := [] }
  | v :: vs => (w.note (.called v.id (some line) w.now)).callAll line vs

def callThisToFeedLine (w : FeedInput) (line : Str) : FeedInput := (w.note (.fed line)).callAll line w.mInputWaitHandlers

def callThisToFeedMessage (w : FeedInput) (message : Ptree) : FeedInput :=
  match getString message ["message", "text"] with
  | .ok line => w.callThisToFeedLine line
  | .error _ => w

def timeoutAll (w : FeedInput) (callbacks : Nat → List InputCall) : List InputWaiter → FeedInput
  | [] => { w with mInputWaitHandlers := [] }
  | v :: vs =>
    let w := w.note (.called v.id none w.now)
    if leavesAlone (callbacks v.id) then w.timeoutAll callbacks vs else { w with undefined := true }

def callThisToFeedTimeout (w : FeedInput) (callbacks : Nat → List InputCall) : FeedInput :=
  w.timeoutAll callbacks w.mInputWaitHandlers

def apply (w : FeedInput) : InputCall → FeedInput
  | .asyncInputRead => w.asyncInputRead
  | .asyncInputReadTimeout timedOut => w.asyncInputReadTimeout timedOut
  | .feedLine line => w.callThisToFeedLine line
  | .feedMessage message => w.callThisToFeedMessage message

/-- The clock does not go back, and a timer does not end early. Once the behaviour is undefined nothing is said of it. -/
def step (w : FeedInput) : InputEvent → Option FeedInput
  | .call time call =>
    if w.undefined then some w else if time < w.now then none else some ({ w with now := time }.apply call)
  | .expire time expiry callbacks =>
    if w.undefined then some w
    else if time < w.now ∨ time < expiry ∨ expiry ∉ w.timers then none
    else some ({ w with now := time, timers := w.timers.erase expiry }.callThisToFeedTimeout callbacks)

/-! ### What is promised -/

def FirstLine (id : Nat) (line : Str) (past : List InputEntry) : Prop :=
  ∃ later between earlier deadline, past = later ++ .fed line :: (between ++ .registered id deadline :: earlier) ∧
    ∀ l, .fed l ∉ between

def Uncalled (id : Nat) (past : List InputEntry) : Prop := ∀ line time, .called id line time ∉ past

/-- A call is the first one of its handler, and brings the first line since the registration or comes when the handler's own time is up. -/
def EntryOk (past : List InputEntry) : InputEntry → Prop
  | .called id (some line) _ => Uncalled id past ∧ FirstLine id line past
  | .called id none time => Uncalled id past ∧ ∃ deadline, .registered id (some deadline) ∈ past ∧ deadline ≤ time
  | _ => True

def Sound : List InputEntry → Prop
  | [] => True
  | entry :: past => EntryOk past entry ∧ Sound past

def Served (trail : List InputEntry) : Prop :=
  ∀ later between earlier id line deadline,
    trail = later ++ .fed line :: (between ++ .registered id deadline :: earlier) → ∃ result time, .called id result time ∈ trail

def Keeps (w : FeedInput) : Prop := w.undefined = false ∧ Sound w.trail ∧ Served w.trail

/-- When a timer ends, the own time of every waiting handler is up, and none registers or feeds a line in its callback. -/
def AllDue (w : FeedInput) : InputEvent → Prop
  | .expire time _ callbacks =>
    ∀ v ∈ w.mInputWaitHandlers, (∃ deadline, v.deadline = some deadline ∧ deadline ≤ time) ∧ leavesAlone (callbacks v.id)
  | _ => True

/-! ### The handlers that wait -/

def NotFedSince (id : Nat) (trail : List InputEntry) : Prop :=
  ∀ later between earlier line deadline, trail ≠ later ++ .fed line :: (between ++ .registered id deadline :: earlier)

structure Waits (v : InputWaiter) (trail : List InputEntry) : Prop where
  registered : .registered v.id v.deadline ∈ trail
  own : ∀ deadline, .registered v.id deadline ∈ trail → deadline = v.deadline
  uncalled : Uncalled v.id trail
  notFed : NotFedSince v.id trail

theorem NotFedSince.cons {id : Nat} {trail : List InputEntry} (h : NotFedSince id trail) {entry : InputEntry}
    (hentry : ∀ line, entry ≠ .fed line) : NotFedSince id (entry :: trail) := by
  intro later between earlier line deadline heq
  cases later with
  | nil =>
    obtain ⟨hfed, -⟩ := List.cons.inj heq
    exact hentry line hfed
  | cons e later =>
    obtain ⟨-, hrest⟩ := List.cons.inj heq
    exact h later between earlier line deadline hrest

theorem Waits.cons {v : InputWaiter} {trail : List InputEntry} (h : Waits v trail) {entry : InputEntry}
    (hregistered : ∀ deadline, entry ≠ .registered v.id deadline) (hcalled : ∀ result time, entry ≠ .called v.id result time)
    (hfed : ∀ line, entry ≠ .fed line) : Waits v (entry :: trail) := by
  refine ⟨mem_cons_of_mem _ h.registered, ?_, ?_, h.notFed.cons hfed⟩
  · intro deadline hmem
    rcases mem_cons.mp hmem with heq | hmem
    · exact absurd heq.symm (hregistered deadline)
    · exact h.own deadline hmem
  · intro line time hmem
    rcases mem_cons.mp hmem with heq | hmem
    · exact absurd heq.symm (hcalled line time)
    · exact h.uncalled line time hmem

variable {v : InputWaiter} {trail past : List InputEntry} {id other : Nat} {vs : List InputWaiter}
    {result : Option Str} {time : Int} {callbacks : Nat → List InputCall} {w w' : FeedInput}
    {e : InputEvent}

theorem Waits.called (h : Waits v trail) (hid : id ≠ v.id)
    (result : Option Str) (time : Int) : Waits v (.called id result time :: trail) := by
  apply h.cons
  · intro deadline heq
    cases heq
  · grind
  · intro line heq
    cases heq

theorem Waits.firstLine (h : Waits v trail) (line : Str) : FirstLine v.id line (.fed line :: trail) := by
  obtain ⟨between, earlier, htrail⟩ := append_of_mem h.registered
  refine ⟨[], between, earlier, v.deadline, by rw [htrail]; rfl, fun l hmem => ?_⟩
  obtain ⟨before, after, hbetween⟩ := append_of_mem hmem
  apply h.notFed before after earlier l v.deadline
  grind

/-! ### Calling all of them -/

def called (vs : List InputWaiter) (result : Option Str) (time : Int) (trail : List InputEntry) : List InputEntry :=
  vs.foldl (fun trail v => .called v.id result time :: trail) trail

theorem mem_called {entry : InputEntry} :
    entry ∈ called vs result time trail ↔ (∃ v ∈ vs, entry = .called v.id result time) ∨ entry ∈ trail := by
  induction vs generalizing trail with
  | nil => simp [called]
  | cons v vs ih =>
    grind [called]

theorem callAll_eq (w : FeedInput) (line : Str) (vs : List InputWaiter) :
    w.callAll line vs = { w with mInputWaitHandlers := [], trail := called vs (some line) w.now w.trail } := by
  induction vs generalizing w with
  | nil => rfl
  | cons v vs ih =>
    rw [callAll, ih]
    rfl

theorem timeoutAll_eq (w : FeedInput) (hquiet : ∀ v ∈ vs, leavesAlone (callbacks v.id) = true) :
    w.timeoutAll callbacks vs = { w with mInputWaitHandlers := [], trail := called vs none w.now w.trail } := by
  induction vs generalizing w with
  | nil => rfl
  | cons v vs ih =>
    rw [timeoutAll, if_pos (hquiet v mem_cons_self), ih _ fun u hu => hquiet u (mem_cons_of_mem v hu)]
    rfl

theorem FirstLine.cons {id : Nat} {line : Str} {past : List InputEntry} (h : FirstLine id line past) (entry : InputEntry) :
    FirstLine id line (entry :: past) := by
  obtain ⟨later, between, earlier, deadline, rfl, hnone⟩ := h
  exact ⟨entry :: later, between, earlier, deadline, rfl, hnone⟩

theorem Uncalled.called (h : Uncalled id past) (hne : other ≠ id)
    (result : Option Str) (time : Int) : Uncalled id (.called other result time :: past) := by
  intro line t hmem
  rcases mem_cons.mp hmem with heq | hmem
  · exact hne (InputEntry.called.inj heq).1.symm
  · exact h line t hmem

theorem EntryOk.called
    (h : EntryOk past (.called id result time)) (hne : other ≠ id) (result' : Option Str) (time' : Int) :
    EntryOk (.called other result' time' :: past) (.called id result time) := by
  cases result with
  | some line => exact ⟨h.1.called hne result' time', h.2.cons _⟩
  | none =>
    obtain ⟨huncalled, deadline, hmem, hle⟩ := h
    exact ⟨huncalled.called hne result' time', deadline, mem_cons_of_mem _ hmem, hle⟩

theorem sound_called (hsound : Sound trail)
    (hnodup : (vs.map (·.id)).Nodup) (hok : ∀ v ∈ vs, EntryOk trail (.called v.id result time)) :
    Sound (called vs result time trail) := by
  induction vs generalizing trail with
  | nil => exact hsound
  | cons v vs ih =>
    obtain ⟨hnew, hnodup⟩ := nodup_cons.mp hnodup
    refine ih ⟨hok v mem_cons_self, hsound⟩ hnodup fun u hu => ?_
    apply (hok u (mem_cons_of_mem v hu)).called
    grind

theorem sound_of_suffix (h : Sound trail) (hpast : past <:+ trail) : Sound past := by
  obtain ⟨new, rfl⟩ := hpast
  induction new with
  | nil => exact h
  | cons entry new ih => exact ih h.2

/-! ### The invariant -/

structure Orderly (w : FeedInput) : Prop where
  defined : w.undefined = false
  sound : Sound w.trail
  waits : ∀ v ∈ w.mInputWaitHandlers, Waits v w.trail
  nodup : (w.mInputWaitHandlers.map (·.id)).Nodup
  registered_lt : ∀ id deadline, .registered id deadline ∈ w.trail → id < w.registrations
  called_lt : ∀ id result time, .called id result time ∈ w.trail → id < w.registrations
  kept : ∀ id deadline, .registered id deadline ∈ w.trail →
    (∃ result time, .called id result time ∈ w.trail) ∨ ∃ v ∈ w.mInputWaitHandlers, v.id = id

section

variable (h : w.Orderly)

include h

theorem Orderly.keeps : w.Keeps := by
  refine ⟨h.defined, h.sound, ?_⟩
  intro later between earlier id line deadline htrail
  have hmem : .registered id deadline ∈ w.trail := by simp [htrail]
  rcases h.kept id deadline hmem with hcalled | ⟨v, hv, rfl⟩
  · exact hcalled
  · exact absurd htrail ((h.waits v hv).notFed later between earlier line deadline)

theorem Orderly.id_lt (hv : v ∈ w.mInputWaitHandlers) : v.id < w.registrations :=
  h.registered_lt v.id v.deadline (h.waits v hv).registered

theorem Orderly.waits_registered (deadline : Option Int)
    (hv : v ∈ w.mInputWaitHandlers) : Waits v (.registered w.registrations deadline :: w.trail) := by
  apply (h.waits v hv).cons
  · intro d heq
    exact Nat.ne_of_gt (h.id_lt hv) (InputEntry.registered.inj heq).1
  · intro result time heq
    cases heq
  · intro line heq
    cases heq

theorem Orderly.waits_new (deadline : Option Int) :
    Waits ⟨w.registrations, deadline⟩ (.registered w.registrations deadline :: w.trail) := by
  have hnew : ∀ d, .registered w.registrations d ∉ w.trail := fun d hmem => Nat.lt_irrefl _ (h.registered_lt _ d hmem)
  refine ⟨mem_cons_self, ?_, ?_, ?_⟩
  · grind
  · intro result time hmem
    rcases mem_cons.mp hmem with heq | hmem
    · cases heq
    · exact Nat.lt_irrefl _ (h.called_lt _ result time hmem)
  · apply NotFedSince.cons
    · intro later between earlier line d htrail
      exact hnew d (by simp [htrail])
    · intro line heq
      cases heq

theorem Orderly.register (deadline : Option Int) : (w.register deadline).Orderly := by
  refine ⟨h.defined, ⟨trivial, h.sound⟩, ?_, ?_, ?_, ?_, ?_⟩
  · intro v hv
    rcases mem_append.mp hv with hv | hv
    · exact h.waits_registered deadline hv
    · obtain rfl := mem_singleton.mp hv
      exact h.waits_new deadline
  · show ((w.mInputWaitHandlers ++ [InputWaiter.mk w.registrations deadline]).map InputWaiter.id).Nodup
    rw [map_append, nodup_append]
    refine ⟨h.nodup, nodup_singleton _, ?_⟩
    intro a ha b hb
    obtain ⟨v, hv, rfl⟩ := mem_map.mp ha
    obtain rfl := mem_singleton.mp hb
    exact Nat.ne_of_lt (h.id_lt hv)
  · intro id d hmem
    rcases mem_cons.mp hmem with heq | hmem
    · rw [(InputEntry.registered.inj heq).1]
      exact lt_succ_self _
    · exact lt_succ_of_lt (h.registered_lt id d hmem)
  · intro id result time hmem
    rcases mem_cons.mp hmem with heq | hmem
    · cases heq
    · exact lt_succ_of_lt (h.called_lt id result time hmem)
  · intro id d hmem
    rcases mem_cons.mp hmem with heq | hmem
    · obtain ⟨rfl, rfl⟩ := InputEntry.registered.inj heq
      exact .inr ⟨⟨w.registrations, d⟩, mem_append_right _ mem_cons_self, rfl⟩
    · rcases h.kept id d hmem with ⟨result, time, hcalled⟩ | ⟨v, hv, hvid⟩
      · exact .inl ⟨result, time, mem_cons_of_mem _ hcalled⟩
      · exact .inr ⟨v, mem_append_left _ hv, hvid⟩

theorem Orderly.callAll (htrail : trail = w.trail ∨ ∃ line, trail = .fed line :: w.trail) (hsound : Sound trail)
    (hok : ∀ v ∈ w.mInputWaitHandlers, EntryOk trail (.called v.id result time)) :
    Orderly { w with mInputWaitHandlers := [], trail := called w.mInputWaitHandlers result time trail } := by
  have hregistered : ∀ id d, .registered id d ∈ called w.mInputWaitHandlers result time trail → .registered id d ∈ w.trail := by
    intro id d hmem
    rcases mem_called.mp hmem with ⟨v, -, heq⟩ | hmem
    · cases heq
    · rcases htrail with rfl | ⟨line, rfl⟩
      · exact hmem
      · exact (mem_cons.mp hmem).resolve_left InputEntry.noConfusion
  have hold : ∀ entry ∈ w.trail, entry ∈ called w.mInputWaitHandlers result time trail := by
    intro entry hmem
    apply mem_called.mpr
    rcases htrail with rfl | ⟨line, rfl⟩
    · exact .inr hmem
    · exact .inr (mem_cons_of_mem _ hmem)
  refine ⟨h.defined, sound_called hsound h.nodup hok, fun v hv => absurd hv not_mem_nil, nodup_nil, ?_, ?_, ?_⟩
  · intro id d hmem
    exact h.registered_lt id d (hregistered id d hmem)
  · intro id result' time' hmem
    rcases mem_called.mp hmem with ⟨v, hv, heq⟩ | hmem
    · rw [(InputEntry.called.inj heq).1]
      exact h.id_lt hv
    · rcases htrail with rfl | ⟨line, rfl⟩
      · exact h.called_lt id result' time' hmem
      · exact h.called_lt id result' time' ((mem_cons.mp hmem).resolve_left InputEntry.noConfusion)
  · intro id d hmem
    left
    rcases h.kept id d (hregistered id d hmem) with ⟨result', time', hcalled⟩ | ⟨v, hv, rfl⟩
    · exact ⟨result', time', hold _ hcalled⟩
    · exact ⟨result, time, mem_called.mpr (.inl ⟨v, hv, rfl⟩)⟩

theorem Orderly.callThisToFeedLine (line : Str) : (w.callThisToFeedLine line).Orderly := by
  rw [FeedInput.callThisToFeedLine, callAll_eq]
  apply h.callAll (.inr ⟨line, rfl⟩) ⟨trivial, h.sound⟩
  intro v hv
  refine ⟨?_, (h.waits v hv).firstLine line⟩
  intro result time hmem
  rcases mem_cons.mp hmem with heq | hmem
  · cases heq
  · exact (h.waits v hv).uncalled result time hmem

theorem Orderly.apply (call : InputCall) : (w.apply call).Orderly := by
  cases call with
  | asyncInputRead => exact h.register none
  | asyncInputReadTimeout timedOut =>
    have hreg := h.register (some (w.now + timedOut))
    exact ⟨hreg.defined, hreg.sound, hreg.waits, hreg.nodup, hreg.registered_lt, hreg.called_lt, hreg.kept⟩
  | feedLine line => exact h.callThisToFeedLine line
  | feedMessage message =>
    show (w.callThisToFeedMessage message).Orderly
    unfold callThisToFeedMessage
    cases getString message ["message", "text"] with
    | ok line => exact h.callThisToFeedLine line
    | error e => exact h

theorem Orderly.tick (now : Int) (timers : List Int) : Orderly { w with now := now, timers := timers } :=
  ⟨h.defined, h.sound, h.waits, h.nodup, h.registered_lt, h.called_lt, h.kept⟩

theorem Orderly.callThisToFeedTimeout
    (hdue : ∀ v ∈ w.mInputWaitHandlers, (∃ deadline, v.deadline = some deadline ∧ deadline ≤ w.now) ∧ leavesAlone (callbacks v.id)) :
    (w.callThisToFeedTimeout callbacks).Orderly := by
  rw [FeedInput.callThisToFeedTimeout, timeoutAll_eq w fun v hv => (hdue v hv).2]
  apply h.callAll (.inl rfl) h.sound
  intro v hv
  obtain ⟨deadline, hdeadline, hle⟩ := (hdue v hv).1
  exact ⟨(h.waits v hv).uncalled, deadline, hdeadline ▸ (h.waits v hv).registered, hle⟩

end

/-! ### What cannot be made good -/

def Spoiled (w : FeedInput) : Prop := w.undefined = true ∨ ¬ Sound w.trail

theorem suffix_note (w : FeedInput) (entry : InputEntry) : w.trail <:+ (w.note entry).trail := suffix_cons _ _

theorem suffix_callAll (w : FeedInput) (line : Str) (vs : List InputWaiter) : w.trail <:+ (w.callAll line vs).trail := by
  induction vs generalizing w with
  | nil => exact suffix_refl _
  | cons v vs ih => exact (w.suffix_note _).trans (ih _)

theorem suffix_timeoutAll (w : FeedInput) (callbacks : Nat → List InputCall) (vs : List InputWaiter) :
    w.trail <:+ (w.timeoutAll callbacks vs).trail := by
  induction vs generalizing w with
  | nil => exact suffix_refl _
  | cons v vs ih =>
    rw [timeoutAll]
    split
    · exact (w.suffix_note _).trans (ih _)
    · exact w.suffix_note _

theorem suffix_callThisToFeedLine (w : FeedInput) (line : Str) : w.trail <:+ (w.callThisToFeedLine line).trail :=
  (w.suffix_note _).trans (suffix_callAll _ line _)

theorem suffix_apply (w : FeedInput) (call : InputCall) : w.trail <:+ (w.apply call).trail := by
  cases call with
  | asyncInputRead => exact w.suffix_note _
  | asyncInputReadTimeout timedOut => exact w.suffix_note _
  | feedLine line => exact w.suffix_callThisToFeedLine line
  | feedMessage message =>
    show w.trail <:+ (w.callThisToFeedMessage message).trail
    grind [callThisToFeedMessage, w.suffix_callThisToFeedLine]

theorem spoiled_timeoutAll (hwaits : ∀ v ∈ vs, Waits v w.trail) (hnodup : (vs.map (·.id)).Nodup)
    (hnot : ¬ ∀ v ∈ vs, (∃ deadline, v.deadline = some deadline ∧ deadline ≤ w.now) ∧ leavesAlone (callbacks v.id)) :
    (w.timeoutAll callbacks vs).Spoiled := by
  induction vs generalizing w with
  | nil => exact absurd (fun v hv => absurd hv not_mem_nil) hnot
  | cons v vs ih =>
    obtain ⟨hnew, hnodup⟩ := nodup_cons.mp hnodup
    rw [timeoutAll]
    split
    case isFalse => exact .inl rfl
    case isTrue hquiet =>
      by_cases hdue : ∃ deadline, v.deadline = some deadline ∧ deadline ≤ w.now
      · refine ih (fun u hu => ?_) hnodup ?_
        · apply (hwaits u (mem_cons_of_mem v hu)).called
          intro heq
          exact hnew (mem_map.mpr ⟨u, hu, heq.symm⟩)
        · intro hrest
          exact hnot (forall_mem_cons.mpr ⟨⟨hdue, hquiet⟩, hrest⟩)
      · right
        intro hsound
        have hcall := sound_of_suffix hsound (suffix_timeoutAll (w.note (.called v.id none w.now)) callbacks vs)
        obtain ⟨-, deadline, hmem, hle⟩ := hcall.1
        exact hdue ⟨deadline, ((hwaits v mem_cons_self).own _ hmem).symm, hle⟩

theorem step_call {call : InputCall} (hdefined : w.undefined = false)
    (hstep : w.step (.call time call) = some w') : w' = { w with now := time }.apply call := by
  grind [step]

theorem step_expire {expiry : Int} (hdefined : w.undefined = false)
    (hstep : w.step (.expire time expiry callbacks) = some w') :
    w' = { w with now := time, timers := w.timers.erase expiry }.callThisToFeedTimeout callbacks := by
  grind [step]

theorem step_of_undefined (hundefined : w.undefined = true) (hstep : w.step e = some w') : w' = w := by
  cases e with
  | call time call =>
    grind [step]
  | expire time expiry callbacks =>
    grind [step]

theorem Spoiled.step (h : w.Spoiled) (hstep : w.step e = some w') : w'.Spoiled := by
  cases hundefined : w.undefined with
  | true =>
    rw [step_of_undefined hundefined hstep]
    exact h
  | false =>
    have hsound : ¬ Sound w.trail := h.resolve_left (by simp [hundefined])
    right
    intro hsound'
    apply hsound
    cases e with
    | call time call =>
      obtain rfl := step_call hundefined hstep
      exact sound_of_suffix hsound' (suffix_apply { w with now := time } call)
    | expire time expiry callbacks =>
      obtain rfl := step_expire hundefined hstep
      exact sound_of_suffix hsound'
        (suffix_timeoutAll { w with now := time, timers := w.timers.erase expiry } callbacks w.mInputWaitHandlers)

theorem orderly_or_spoiled_of_step (h : w.Orderly) (hstep : w.step e = some w') :
    (w.AllDue e ∧ w'.Orderly) ∨ (¬ w.AllDue e ∧ w'.Spoiled) := by
  cases e with
  | call time call =>
    obtain rfl := step_call h.defined hstep
    exact .inl ⟨trivial, (h.tick time w.timers).apply call⟩
  | expire time expiry callbacks =>
    obtain rfl := step_expire h.defined hstep
    have hticked := h.tick time (w.timers.erase expiry)
    by_cases hdue : w.AllDue (.expire time expiry callbacks)
    · exact .inl ⟨hdue, hticked.callThisToFeedTimeout hdue⟩
    · exact .inr ⟨hdue, spoiled_timeoutAll hticked.waits hticked.nodup hdue⟩

/-- The handlers get what they were promised if and only if, whenever a timer ends, the own time of every waiting handler is up and none of them registers or feeds a line in its callback. -/
theorem keeps_iff_allDue {now : Int} {events : List InputEvent} {w : FeedInput} (hrun : run step (new now) events = some w) :
    w.Keeps ↔ Meets step AllDue (new now) events := by
  have hnew : (new now).Orderly :=
    ⟨rfl, trivial, fun _ h => absurd h not_mem_nil, nodup_nil, fun _ _ h => absurd h not_mem_nil,
      fun _ _ _ h => absurd h not_mem_nil, fun _ _ h => absurd h not_mem_nil⟩
  refine meets_iff_of_run (fun _ _ _ hw he => orderly_or_spoiled_of_step hw he) (fun _ _ _ hw he => hw.step he)
    (fun _ hw => hw.keeps) ?_ hnew hrun
  rintro w (hundefined | hsound) hkeeps
  · exact absurd (hundefined.symm.trans hkeeps.1) (by decide)
  · exact hsound hkeeps.2.1

/-- A handler gets its line, and the next one is called when its time is up. -/
theorem keeps_of_line_and_timeout :
    ∃ w, run step (new 0) [.call 0 (.asyncInputReadTimeout 10), .call 1 (.feedLine ['a']), .expire 10 10 fun _ => [],
        .call 11 (.asyncInputReadTimeout 10), .expire 21 21 fun _ => []] = some w ∧
      w.trail = [.called 1 none 21, .registered 1 (some 21), .called 0 (some ['a']) 1, .fed ['a'], .registered 0 (some 10)] ∧
      w.Keeps := by
  refine ⟨_, rfl, rfl, ?_⟩
  apply (@keeps_iff_allDue 0 [.call 0 (.asyncInputReadTimeout 10), .call 1 (.feedLine ['a']), .expire 10 10 fun _ => [],
    .call 11 (.asyncInputReadTimeout 10), .expire 21 21 fun _ => []] _ rfl).mpr
  refine ⟨trivial, trivial, ?_, trivial, ?_, trivial⟩
  · intro v hv
    cases hv
  · intro v hv
    obtain rfl := mem_singleton.mp hv
    exact ⟨⟨21, rfl, by decide⟩, rfl⟩

/-- The timer of a handler that has got its line is not cancelled, and hits a handler that was registered a second before. -/
theorem old_timer_hits_new_handler :
    ∃ w, run step (new 0) [.call 0 (.asyncInputReadTimeout 10), .call 1 (.feedLine ['a']), .call 9 (.asyncInputReadTimeout 10),
        .expire 10 10 fun _ => []] = some w ∧
      w.trail = [.called 1 none 10, .registered 1 (some 19), .called 0 (some ['a']) 1, .fed ['a'], .registered 0 (some 10)] ∧
      ¬ w.Keeps := by
  refine ⟨_, rfl, rfl, ?_⟩
  rintro ⟨-, ⟨⟨-, deadline, hmem, hle⟩, -⟩, -⟩
  have hpast : InputEntry.registered 1 (some deadline) ∈
      [.registered 1 (some 19), .called 0 (some ['a']) 1, .fed ['a'], .registered 0 (some 10)] := hmem
  grind

end FeedInput

end Avbot
