import Mathlib.Logic.Basic

/-!
# Machines driven by events

A machine is a state together with a partial step function on events, and a run is a list of events. A step that is not enabled answers `none`, and so does every run through it. The rules: an invariant kept by every step that meets a guard holds after every run whose steps all meet it, and where every other step is fatal the guard is also necessary.
-/

namespace EventMachine

variable {σ ε : Type*} (step : σ → ε → Option σ)

def run : σ → List ε → Option σ
  | s, [] => some s
  | s, e :: es => (step s e).bind fun s' => run s' es

def Meets (guard : σ → ε → Prop) : σ → List ε → Prop
  | _, [] => True
  | s, e :: es => guard s e ∧ ((step s e).elim True fun s' => Meets guard s' es)

instance decidableMeets (guard : σ → ε → Prop) [∀ s e, Decidable (guard s e)] :
    ∀ s es, Decidable (Meets step guard s es)
  | _, [] => .isTrue trivial
  | s, e :: es =>
    match hstep : step s e with
    | none => decidable_of_iff (guard s e) (by simp [Meets, hstep])
    | some s' =>
      have := decidableMeets guard s' es
      decidable_of_iff (guard s e ∧ Meets step guard s' es) (by simp [Meets, hstep])

@[simp] theorem run_nil (s : σ) : run step s [] = some s := rfl

theorem run_cons (s : σ) (e : ε) (es : List ε) :
    run step s (e :: es) = (step s e).bind fun s' => run step s' es := rfl

theorem run_append (s : σ) (es es' : List ε) :
    run step s (es ++ es') = (run step s es).bind fun s' => run step s' es' := by
  induction es generalizing s with
  | nil => rfl
  | cons e es ih => simp only [List.cons_append, run_cons, Option.bind_assoc, ih]

variable {step}

theorem invariant_of_meets {inv : σ → Prop} {guard : σ → ε → Prop}
    (hstep : ∀ s e s', inv s → guard s e → step s e = some s' → inv s') {s s' : σ} {es : List ε}
    (hs : inv s) (hmeets : Meets step guard s es) (hrun : run step s es = some s') : inv s' := by
  induction es generalizing s with
  | nil =>
    obtain rfl : s = s' := by simpa using hrun
    exact hs
  | cons e es ih =>
    rw [run_cons] at hrun
    obtain ⟨hguard, hrest⟩ := hmeets
    obtain ⟨mid, hmid, hrun⟩ := Option.bind_eq_some_iff.mp hrun
    grind

theorem meets_of_forall_mem {guard : ε → Prop} {es : List ε} (hguard : ∀ e ∈ es, guard e) (s : σ) :
    Meets step (fun _ e => guard e) s es := by
  induction es generalizing s with
  | nil => trivial
  | cons e es ih =>
    refine ⟨hguard e List.mem_cons_self, ?_⟩
    cases step s e with
    | none => trivial
    | some s' => exact ih (fun e he => hguard e (List.mem_cons_of_mem _ he)) s'

theorem invariant_of_run {inv : σ → Prop} (hstep : ∀ s e s', inv s → step s e = some s' → inv s')
    {s s' : σ} {es : List ε} (hs : inv s) (hrun : run step s es = some s') : inv s' :=
  invariant_of_meets (fun s e s' hs _ he => hstep s e s' hs he) hs (meets_of_forall_mem (fun _ _ => trivial) s) hrun

theorem meets_congr {guard guard' : σ → ε → Prop} (h : ∀ s e, guard s e ↔ guard' s e) (s : σ)
    (es : List ε) : Meets step guard s es ↔ Meets step guard' s es := by
  have hguard : guard = guard' := by
    funext s e
    exact propext (h s e)
  rw [hguard]

theorem meets_iff_meets {inv : σ → Prop} {law guard : σ → ε → Prop} (hagree : ∀ s e, inv s → (law s e ↔ guard s e))
    (hstep : ∀ s e s', inv s → guard s e → step s e = some s' → inv s') {s : σ} (hs : inv s) (es : List ε) :
    Meets step law s es ↔ Meets step guard s es := by
  induction es generalizing s with
  | nil => exact Iff.rfl
  | cons e es ih =>
    rw [Meets, Meets, hagree s e hs]
    apply and_congr_right
    intro hguard
    cases hnext : step s e with
    | none => exact Iff.rfl
    | some s' => exact ih (hstep s e s' hs hguard hnext)

/-- A step that meets the guard keeps the invariant, a step that does not leads to a bad state, and bad states stay bad. All of this is asked only while the machine is live, and a machine that is live was never dead. -/
theorem meets_iff_of_live_run {live inv bad good : σ → Prop} {guard : σ → ε → Prop}
    (hlive : ∀ s e s', step s e = some s' → live s' → live s)
    (hstep : ∀ s e s', live s' → inv s → step s e = some s' → (guard s e ∧ inv s') ∨ (¬ guard s e ∧ bad s'))
    (hbad : ∀ s e s', live s' → bad s → step s e = some s' → bad s')
    (hgood : ∀ s, inv s → good s) (hnot : ∀ s, bad s → ¬ good s)
    {s s' : σ} {es : List ε} (hs : inv s) (hrun : run step s es = some s') (hend : live s') :
    good s' ↔ Meets step guard s es := by
  induction es generalizing s with
  | nil =>
    obtain rfl : s = s' := by simpa using hrun
    exact ⟨fun _ => trivial, fun _ => hgood s hs⟩
  | cons e es ih =>
    rw [run_cons] at hrun
    obtain ⟨mid, hmid, hrun⟩ := Option.bind_eq_some_iff.mp hrun
    -- read backwards, being live is an invariant
    have hlivemid : live mid := by
      apply Classical.byContradiction
      intro hdead
      have hstays : ∀ s e s', ¬ live s → step s e = some s' → ¬ live s' :=
        fun s e s' hs he hs' => hs (hlive s e s' he hs')
      exact invariant_of_run hstays hdead hrun hend
    rcases hstep s e mid hlivemid hs hmid with ⟨hguard, hnext⟩ | ⟨hguard, hnext⟩
    · grind [Meets]
    · have hlost : live s' → bad s' := by
        have hstays : ∀ s e s', (live s → bad s) → step s e = some s' → live s' → bad s' :=
          fun s e s' hs he hs' => hbad s e s' hs' (hs (hlive s e s' he hs')) he
        exact @invariant_of_run _ _ _ (fun s => live s → bad s) hstays _ _ _ (fun _ => hnext) hrun
      exact ⟨fun h => absurd h (hnot s' (hlost hend)), fun h => absurd h.1 hguard⟩

theorem meets_iff_of_run {inv bad good : σ → Prop} {guard : σ → ε → Prop}
    (hstep : ∀ s e s', inv s → step s e = some s' →
      (guard s e ∧ inv s') ∨ (¬ guard s e ∧ bad s'))
    (hbad : ∀ s e s', bad s → step s e = some s' → bad s')
    (hgood : ∀ s, inv s → good s) (hnot : ∀ s, bad s → ¬ good s)
    {s s' : σ} {es : List ε} (hs : inv s) (hrun : run step s es = some s') :
    good s' ↔ Meets step guard s es :=
  @meets_iff_of_live_run _ _ _ (fun _ => True) _ _ _ _ (fun _ _ _ _ h => h) (fun s e s' _ => hstep s e s')
    (fun s e s' _ => hbad s e s') hgood hnot _ _ _ hs hrun trivial

end EventMachine
