import Avbot.Lib.Chain
import Avbot.Qqwry.MatchRecord

/-!
# Following redirects

`Get_String`, `GetIPLocation` and `MatchRecord` call themselves for a redirect of mode 1, and nothing bounds how often. They end if the redirects they follow do not come back to where they were.
-/

namespace Avbot.Qqwry

open Fallible Chain

def Terminates {β : Type} (f : Nat → Except Fault β) : Prop := Finishes (.error .unfinished) f

namespace Ipdb

variable (d : Ipdb)

def redirect (p : Nat) : Option Nat :=
  match d.read p with
  | .ok mode => if mode = redirectMode1 then (d.get3BYTE (p + 1)).toOption else none
  | .error _ => none

def Loops (p : Nat) : Prop := ComesBack d.redirect p

/-- What `GetIPLocation` does before it reads the area: the country, and the place of the area. -/
def countryAndArea (c : Nat) : Except Fault (Str × Nat) := do
  let mode ← d.read c
  let countryptr ← d.getString 1 c
  let country ← d.strncpy countryptr
  let areaptr ← d.areaptr mode c countryptr
  return (country, areaptr)

/-- What `MatchRecord` does with the country of such a record: if it passes, the place of the area, and what is known to match. -/
def matchCountry (expCountry : Str) (m : Matched) (c : Nat) : Except Fault (Option (Nat × Matched)) := do
  let mode ← d.read c
  if mode = redirectMode2 then
    let target ← d.get3BYTE (c + 1)
    return if target ∈ m.country then some (c + 4, m) else none
  else
    let country ← d.getString 1 c
    let found ← matchResult (d.file.drop country) expCountry
    if found then
      let length ← strlen (d.file.drop country)
      return some (c + length + 1, { m with country := country :: m.country })
    else return none

variable {d} {p c : Nat}

theorem read_ne_unfinished : d.read p ≠ .error .unfinished := by
  rw [read, charAt]
  split
  · exact ok_ne_error _
  · rintro ⟨⟩

theorem getDWORD_ne_unfinished : d.getDWORD p ≠ .error .unfinished :=
  bind_ne_error read_ne_unfinished fun _ _ => bind_ne_error read_ne_unfinished fun _ _ =>
    bind_ne_error read_ne_unfinished fun _ _ => bind_ne_error read_ne_unfinished fun _ _ => ok_ne_error _

theorem get3BYTE_ne_unfinished : d.get3BYTE p ≠ .error .unfinished :=
  bind_ne_error getDWORD_ne_unfinished fun _ _ => ok_ne_error _

theorem strncpy_ne_unfinished : d.strncpy p ≠ .error .unfinished := by
  rw [strncpy]
  split
  · exact ok_ne_error _
  · rintro ⟨⟩

theorem areaptr_ne_unfinished (mode : Char) (s : Nat) : d.areaptr mode p s ≠ .error .unfinished := by
  rw [areaptr, strcpy, cString]
  split
  · simp
  split
  · rw [ok_bind]
    split
    · rintro ⟨⟩
    · rintro ⟨⟩
  · rintro ⟨⟩

theorem redirect_eq_some_iff {q : Nat} :
    d.redirect p = some q ↔ d.read p = .ok redirectMode1 ∧ d.get3BYTE (p + 1) = .ok q := by
  rw [redirect]
  cases d.read p with
  | error e => simp
  | ok mode =>
    by_cases hmode : mode = redirectMode1
    · cases d.get3BYTE (p + 1) with
      | error e => simp [hmode, Except.toOption]
      | ok t => simp [hmode, Except.toOption]
    · simp [hmode]

theorem exists_last_iff_not_loops : (∃ c, Last d.redirect p c) ↔ ¬ d.Loops p :=
  Chain.exists_last_iff (Set.finite_lt_nat 16777216) fun _ _ hnext => get3BYTE_lt (redirect_eq_some_iff.mp hnext).2

theorem follows_getString : Follows d.redirect (.error .unfinished) d.getString where
  zero _ := rfl
  step n a b hnext := by
    obtain ⟨hread, hget⟩ := redirect_eq_some_iff.mp hnext
    rw [getString, hread, ok_bind, if_pos rfl, hget, ok_bind]

theorem follows_getIPLocation : Follows d.redirect (.error .unfinished) d.getIPLocation where
  zero _ := rfl
  step n a b hnext := by
    obtain ⟨hread, hget⟩ := redirect_eq_some_iff.mp hnext
    rw [getIPLocation, hread, ok_bind, if_pos rfl, hget, ok_bind]

theorem follows_matchRecord {expCountry expArea : Str} (hstar : isStar expCountry = .ok false) (m : Matched) :
    Follows d.redirect (.error .unfinished) (d.matchRecord expCountry expArea m) where
  zero _ := rfl
  step n a b hnext := by
    obtain ⟨hread, hget⟩ := redirect_eq_some_iff.mp hnext
    rw [matchRecord, hstar, ok_bind, if_neg (by simp), hread, ok_bind, if_pos rfl, hget, ok_bind]

theorem get3BYTE_eq_error (hnone : d.redirect c = none) (hread : d.read c = .ok redirectMode1) :
    ∃ e, d.get3BYTE (c + 1) = .error e := by
  cases hget : d.get3BYTE (c + 1) with
  | error e => exact ⟨e, rfl⟩
  | ok t =>
    rw [redirect_eq_some_iff.mpr ⟨hread, hget⟩] at hnone
    cases hnone

theorem getString_ne_unfinished (hnone : d.redirect c = none) (n : Nat) : d.getString (n + 1) c ≠ .error .unfinished := by
  rw [getString]
  refine bind_ne_error read_ne_unfinished fun mode hread => ?_
  split
  case isTrue hmode =>
    obtain ⟨e, hget⟩ := get3BYTE_eq_error hnone (hmode ▸ hread)
    refine bind_ne_error get3BYTE_ne_unfinished fun t ht => ?_
    cases hget.symm.trans ht
  case isFalse =>
    split
    · exact get3BYTE_ne_unfinished
    · exact ok_ne_error _

theorem terminates_getString_iff : Terminates (d.getString · p) ↔ ¬ d.Loops p := by
  rw [Terminates, follows_getString.finishes_iff, ← exists_last_iff_not_loops]
  refine exists_congr fun c => and_iff_left_of_imp fun hlast => ?_
  obtain ⟨-, -, hnone⟩ := hlast
  refine ⟨1, fun n hn => ?_⟩
  obtain ⟨n, rfl⟩ := Nat.exists_eq_add_of_le' hn
  exact getString_ne_unfinished hnone n

theorem getString_eq_one (hnone : d.redirect c = none) (n : Nat) : d.getString (n + 1) c = d.getString 1 c := by
  rw [getString, getString]
  cases hread : d.read c with
  | error e => rfl
  | ok mode =>
    rw [ok_bind, ok_bind]
    by_cases hmode : mode = redirectMode1
    · obtain ⟨e, hget⟩ := get3BYTE_eq_error hnone (hmode ▸ hread)
      rw [if_pos hmode, if_pos hmode, hget, error_bind, error_bind]
    · rw [if_neg hmode, if_neg hmode]

theorem getIPLocation_eq (hnone : d.redirect c = none) (n : Nat) :
    d.getIPLocation (n + 1) c = (do
      let (country, areaptr) ← d.countryAndArea c
      let area ← d.strncpy (← d.getString (n + 1) areaptr)
      return ⟨country, area⟩) := by
  rw [getIPLocation, countryAndArea]
  cases hread : d.read c with
  | error e => rfl
  | ok mode =>
    rw [ok_bind, ok_bind]
    by_cases hmode : mode = redirectMode1
    · obtain ⟨e, hget⟩ := get3BYTE_eq_error hnone (hmode ▸ hread)
      rw [if_pos hmode, getString, hread, ok_bind, if_pos hmode, hget]
      rfl
    · rw [if_neg hmode, getString_eq_one hnone n]
      simp only [bind_assoc]
      rfl

theorem countryAndArea_ne_unfinished (hnone : d.redirect c = none) : d.countryAndArea c ≠ .error .unfinished := by
  rw [countryAndArea]
  refine bind_ne_error read_ne_unfinished fun mode _ => ?_
  refine bind_ne_error (getString_ne_unfinished hnone 0) fun countryptr _ => ?_
  refine bind_ne_error strncpy_ne_unfinished fun country _ => ?_
  exact bind_ne_error (areaptr_ne_unfinished mode countryptr) fun a _ => ok_ne_error _

theorem terminates_getIPLocation_iff :
    Terminates (d.getIPLocation · p) ↔
      ¬ d.Loops p ∧ ∀ c country a, Last d.redirect p c → d.countryAndArea c = .ok (country, a) → ¬ d.Loops a := by
  rw [Terminates, follows_getIPLocation.finishes_iff, ← exists_last_iff_not_loops]
  -- at the last place of the chain only the area can go on for ever
  have hlast : ∀ c, Last d.redirect p c → (Finishes (.error .unfinished) (d.getIPLocation · c) ↔
      ∀ country a, d.countryAndArea c = .ok (country, a) → ¬ d.Loops a) := by
    rintro c ⟨-, -, hnone⟩
    cases hfront : d.countryAndArea c with
    | error e =>
      refine iff_of_true ⟨1, fun n hn => ?_⟩ (by simp)
      obtain ⟨n, rfl⟩ := Nat.exists_eq_add_of_le' hn
      show d.getIPLocation (n + 1) c ≠ _
      rw [getIPLocation_eq hnone, hfront]
      rintro ⟨⟩
      exact countryAndArea_ne_unfinished hnone hfront
    | ok front =>
      obtain ⟨country, a⟩ := front
      have hiff : Finishes (.error .unfinished) (d.getIPLocation · c) ↔ Terminates (d.getString · a) := by
        refine finishes_congr (k := 1) fun n hn => ?_
        obtain ⟨n, rfl⟩ := Nat.exists_eq_add_of_le' hn
        rw [getIPLocation_eq hnone, hfront, ok_bind]
        exact bind_eq_error_iff_left fun s => bind_ne_error strncpy_ne_unfinished fun area _ => ok_ne_error _
      rw [hiff, terminates_getString_iff]
      simp
  constructor
  · rintro ⟨c, hc, hfinish⟩
    refine ⟨⟨c, hc⟩, fun c' country a hc' => ?_⟩
    obtain rfl := hc.unique hc'
    exact (hlast c hc).mp hfinish country a
  · rintro ⟨⟨c, hc⟩, hall⟩
    exact ⟨c, hc, (hlast c hc).mpr fun country a => hall c country a hc⟩

variable {expCountry expArea : Str} (hcountry : expCountry.length < intLimit) (harea : expArea.length < intLimit)
  {m : Matched} {n a : Nat}

theorem length_drop_lt (d : Ipdb) (s : Nat) : (d.file.drop s).length < 4294967296 := by
  have hsize := d.size_lt
  rw [List.length_drop]
  omega

theorem matchResult_ne_unfinished (hexp : expCountry.length < intLimit) (s : Nat) :
    matchResult (d.file.drop s) expCountry ≠ .error .unfinished := by
  intro hresult
  rcases matchResult_spec (length_drop_lt d s) hexp with hout | ⟨b, hb, -⟩
  · cases hout.symm.trans hresult
  · cases hb.symm.trans hresult

include harea in
theorem matchString_eq (hn : d.file.length + expArea.length < n) (p : Nat) :
    d.matchString n p expArea = (do matchResult (d.file.drop (← d.getString n p)) expArea) := by
  rw [matchString]
  cases d.getString n p with
  | error e => rfl
  | ok s =>
    rw [ok_bind, ok_bind, matchExp_eq_matchResult (length_drop_lt d s) harea]
    rw [List.length_drop]
    omega

include harea in
theorem matchString_eq_unfinished_iff (hn : d.file.length + expArea.length < n) (p : Nat) :
    d.matchString n p expArea = .error .unfinished ↔ d.getString n p = .error .unfinished := by
  rw [matchString_eq harea hn]
  exact bind_eq_error_iff_left (matchResult_ne_unfinished harea)

include harea in
theorem matchArea_eq_unfinished_iff (hstar : isStar expArea = .ok false) (hn : d.file.length + expArea.length < n + 1) :
    d.matchArea (n + 1) expArea (some a) m = .error .unfinished ↔
      d.getString (n + 1) a = .error .unfinished ∧ ∀ t, d.redirect a = some t → t ∉ m.area := by
  rw [matchArea, hstar, ok_bind, if_neg (by simp)]
  have hstring := matchString_eq_unfinished_iff harea hn a
  cases hnext : d.redirect a with
  | none =>
    have hget := getString_ne_unfinished hnext n
    refine iff_of_false (bind_ne_error read_ne_unfinished fun mode _ => ?_) fun h => hget h.1
    split
    · refine bind_ne_error get3BYTE_ne_unfinished fun t _ => ?_
      split
      · exact ok_ne_error _
      · exact bind_ne_error (mt hstring.mp hget) fun b _ => ok_ne_error _
    · exact bind_ne_error (mt hstring.mp hget) fun b _ => ok_ne_error _
  | some t =>
    obtain ⟨hread, htarget⟩ := redirect_eq_some_iff.mp hnext
    rw [hread, ok_bind, if_pos (.inr rfl), htarget, ok_bind]
    by_cases ht : t ∈ m.area
    · rw [if_pos ht]
      exact iff_of_false (ok_ne_error _) fun h => h.2 t rfl ht
    · rw [if_neg ht]
      refine (bind_eq_error_iff_left fun b => ok_ne_error _).trans (hstring.trans (and_iff_left ?_).symm)
      rintro _ ⟨⟩
      exact ht

include hcountry in
theorem matchRecord_eq (hstar : isStar expCountry = .ok false) (hnone : d.redirect c = none) (m : Matched)
    (hn : d.file.length + expCountry.length < n + 1) :
    d.matchRecord expCountry expArea m (n + 1) c = (do
      match ← d.matchCountry expCountry m c with
      | none => return (false, m)
      | some (a, m') => d.matchArea (n + 1) expArea (some a) m') := by
  rw [matchRecord, hstar, ok_bind, if_neg (by simp), matchCountry]
  cases hread : d.read c with
  | error e => rfl
  | ok mode =>
    rw [ok_bind, ok_bind]
    by_cases hmode1 : mode = redirectMode1
    · obtain ⟨e, hget⟩ := get3BYTE_eq_error hnone (hmode1 ▸ hread)
      rw [if_pos hmode1, if_neg (by rw [hmode1]; decide), getString, hread, ok_bind, if_pos hmode1, hget]
      rfl
    rw [if_neg hmode1]
    by_cases hmode2 : mode = redirectMode2
    · rw [if_pos hmode2, if_pos hmode2]
      cases d.get3BYTE (c + 1) with
      | error e => rfl
      | ok t =>
        rw [ok_bind, ok_bind]
        by_cases ht : t ∈ m.country
        · rw [if_pos ht, if_pos ht]
          rfl
        · rw [if_neg ht, if_neg ht]
          rfl
    · rw [if_neg hmode2, if_neg hmode2, getString_eq_one hnone]
      cases d.getString 1 c with
      | error e => rfl
      | ok country =>
        rw [ok_bind, ok_bind, matchExp_eq_matchResult (length_drop_lt d country) hcountry
          (by rw [List.length_drop]; omega)]
        cases matchResult (d.file.drop country) expCountry with
        | error e => rfl
        | ok found =>
          cases found with
          | false => rfl
          | true =>
            rw [ok_bind, ok_bind, if_pos rfl, if_pos rfl]
            cases strlen (d.file.drop country) with
            | error e => rfl
            | ok length => rfl

theorem strlen_ne_unfinished (a : Str) : strlen a ≠ .error .unfinished := by
  rw [strlen]
  split <;> simp

include hcountry in
theorem matchCountry_ne_unfinished (hnone : d.redirect c = none) : d.matchCountry expCountry m c ≠ .error .unfinished := by
  rw [matchCountry]
  refine bind_ne_error read_ne_unfinished fun mode _ => ?_
  split
  · exact bind_ne_error get3BYTE_ne_unfinished fun t _ => ok_ne_error _
  · refine bind_ne_error (getString_ne_unfinished hnone 0) fun country _ => ?_
    refine bind_ne_error (matchResult_ne_unfinished hcountry country) fun found _ => ?_
    split
    · exact bind_ne_error (strlen_ne_unfinished _) fun length _ => ok_ne_error _
    · exact ok_ne_error _

theorem area_of_matchCountry {m' : Matched} (hcountry : d.matchCountry expCountry m c = .ok (some (a, m'))) :
    m'.area = m.area := by
  rw [matchCountry, bind_eq_ok_iff] at hcountry
  obtain ⟨mode, -, hcountry⟩ := hcountry
  split at hcountry
  · rw [bind_eq_ok_iff] at hcountry
    obtain ⟨t, -, hcountry⟩ := hcountry
    have hsome := Except.ok.inj hcountry
    split at hsome
    · cases hsome
      rfl
    · cases hsome
  · rw [bind_eq_ok_iff] at hcountry
    obtain ⟨country, -, hcountry⟩ := hcountry
    rw [bind_eq_ok_iff] at hcountry
    obtain ⟨found, -, hcountry⟩ := hcountry
    split at hcountry
    · rw [bind_eq_ok_iff] at hcountry
      obtain ⟨length, -, hcountry⟩ := hcountry
      cases hcountry
      rfl
    · cases hcountry

include harea in
theorem terminates_matchArea_iff (hstar : isStar expArea = .ok false) (m : Matched) :
    Terminates (d.matchArea · expArea (some a) m) ↔ (d.Loops a → ∃ t ∈ m.area, d.redirect a = some t) := by
  by_cases hknown : ∃ t ∈ m.area, d.redirect a = some t
  · refine iff_of_true ⟨d.file.length + expArea.length + 1, fun n hn => ?_⟩ fun _ => hknown
    obtain ⟨n, rfl⟩ := Nat.exists_eq_add_of_le' (Nat.le_trans (Nat.le_add_left 1 _) hn)
    obtain ⟨t, ht, hnext⟩ := hknown
    exact fun hunf => ((matchArea_eq_unfinished_iff harea hstar (by omega)).mp hunf).2 t hnext ht
  · have hnew : ∀ t, d.redirect a = some t → t ∉ m.area := fun t hnext ht => hknown ⟨t, ht, hnext⟩
    have hiff : Terminates (d.matchArea · expArea (some a) m) ↔ Terminates (d.getString · a) := by
      refine finishes_congr (k := d.file.length + expArea.length + 1) fun n hn => ?_
      obtain ⟨n, rfl⟩ := Nat.exists_eq_add_of_le' (Nat.le_trans (Nat.le_add_left 1 _) hn)
      rw [matchArea_eq_unfinished_iff harea hstar (by omega), and_iff_left hnew]
    rw [hiff, terminates_getString_iff]
    simp [hknown]

theorem matchArea_star (hstar : isStar expArea = .ok true) (n : Nat) (parea? : Option Nat) (m : Matched) :
    d.matchArea n expArea parea? m = .ok (true, m) := by
  unfold matchArea
  rw [hstar]
  rfl

include hcountry harea in
theorem terminates_matchRecord_of_last (hstarC : isStar expCountry = .ok false) {b : Bool} (hstarA : isStar expArea = .ok b)
    (hnone : d.redirect c = none) (m : Matched) :
    Terminates (d.matchRecord expCountry expArea m · c) ↔
      b = true ∨ ∀ a m', d.matchCountry expCountry m c = .ok (some (a, m')) → d.Loops a →
        ∃ t ∈ m.area, d.redirect a = some t := by
  -- from here on there are enough calls for the country
  have heq : ∀ n ≥ d.file.length + expCountry.length + 1, d.matchRecord expCountry expArea m n c = (do
      match ← d.matchCountry expCountry m c with
      | none => return (false, m)
      | some (a, m') => d.matchArea n expArea (some a) m') := by
    intro n hn
    obtain ⟨n, rfl⟩ := Nat.exists_eq_add_of_le' (Nat.le_trans (Nat.le_add_left 1 _) hn)
    exact matchRecord_eq hcountry hstarC hnone m hn
  cases hresult : d.matchCountry expCountry m c with
  | error e =>
    refine iff_of_true ⟨d.file.length + expCountry.length + 1, fun n hn => ?_⟩ (.inr (by simp))
    dsimp only
    rw [heq n hn, hresult]
    rintro ⟨⟩
    exact matchCountry_ne_unfinished hcountry hnone hresult
  | ok passed =>
    cases passed with
    | none =>
      refine iff_of_true ⟨d.file.length + expCountry.length + 1, fun n hn => ?_⟩ (.inr (by simp))
      dsimp only
      rw [heq n hn, hresult]
      rintro ⟨⟩
    | some passed =>
      obtain ⟨a, m'⟩ := passed
      have hiff : Terminates (d.matchRecord expCountry expArea m · c) ↔
          Terminates (d.matchArea · expArea (some a) m') :=
        finishes_congr fun n hn => by rw [heq n hn, hresult]; rfl
      rw [hiff]
      cases b with
      | true =>
        refine iff_of_true ⟨0, fun n _ => ?_⟩ (.inl rfl)
        dsimp only
        rw [matchArea_star hstarA]
        simp
      | false =>
        rw [terminates_matchArea_iff harea hstarA, area_of_matchCountry hresult]
        simp

theorem terminates_matchRecord_iff (country area : CString) (m : Matched) :
    Terminates (d.matchRecord (patternArray country) (patternArray area) m · p) ↔
      country.text = ['*'] ∨ (¬ d.Loops p ∧ (area.text = ['*'] ∨
        ∀ c a m', Last d.redirect p c → d.matchCountry (patternArray country) m c = .ok (some (a, m')) →
          d.Loops a → ∃ t ∈ m.area, d.redirect a = some t)) := by
  have hcountry : (patternArray country).length < intLimit := by rw [length_patternArray]; decide
  have harea : (patternArray area).length < intLimit := by rw [length_patternArray]; decide
  by_cases hstar : country.text = ['*']
  · refine iff_of_true ⟨1, fun n hn => ?_⟩ (.inl hstar)
    obtain ⟨n, rfl⟩ := Nat.exists_eq_add_of_le' hn
    dsimp only
    rw [matchRecord, isStar_patternArray, decide_eq_true hstar, ok_bind, if_pos rfl, matchArea, isStar_patternArray, ok_bind]
    split
    · simp [pure, Except.pure]
    · rintro ⟨⟩
  · have hstarC : isStar (patternArray country) = .ok false := by rw [isStar_patternArray, decide_eq_false hstar]
    rw [Terminates, (follows_matchRecord hstarC m).finishes_iff, ← exists_last_iff_not_loops, or_iff_right hstar]
    have hlast : ∀ c, Last d.redirect p c → (Finishes (.error .unfinished)
        (d.matchRecord (patternArray country) (patternArray area) m · c) ↔ _) := fun c hc =>
      terminates_matchRecord_of_last hcountry harea hstarC (isStar_patternArray area) hc.choose_spec.2 m
    constructor
    · rintro ⟨c, hc, hfinish⟩
      refine ⟨⟨c, hc⟩, ((hlast c hc).mp hfinish).imp of_decide_eq_true fun hall c' a m' hc' => ?_⟩
      obtain rfl := hc.unique hc'
      exact hall a m'
    · rintro ⟨⟨c, hc⟩, hall⟩
      exact ⟨c, hc, (hlast c hc).mpr (hall.imp (decide_eq_true ·) fun hall a m' => hall c a m' hc)⟩

/-- The three functions come to an end if the redirects they follow do not come back to where they were. -/
theorem terminates_iff (d : Ipdb) (p : Nat) :
    (Terminates (d.getString · p) ↔ ¬ d.Loops p) ∧
    (Terminates (d.getIPLocation · p) ↔
      ¬ d.Loops p ∧ ∀ c country a, Last d.redirect p c → d.countryAndArea c = .ok (country, a) → ¬ d.Loops a) ∧
    ∀ (country area : CString) (m : Matched),
      (Terminates (d.matchRecord (patternArray country) (patternArray area) m · p) ↔
        country.text = ['*'] ∨ (¬ d.Loops p ∧ (area.text = ['*'] ∨
          ∀ c a m', Last d.redirect p c → d.matchCountry (patternArray country) m c = .ok (some (a, m')) →
            d.Loops a → ∃ t ∈ m.area, d.redirect a = some t))) :=
  ⟨terminates_getString_iff, terminates_getIPLocation_iff, terminates_matchRecord_iff⟩

end Ipdb

def selfRedirect : Ipdb where
  file :=
    [16, 0, 0, 0, 16, 0, 0, 0,
      255, 255, 255, 255, 1, 12, 0, 0,
      0, 0, 0, 0, 8, 0, 0].map Char.ofNat
  isByte := by decide
  size_lt := by decide

/-- All that is read of it stands in the file, and none of the three functions comes to an end. -/
theorem selfRedirect_unfinished :
    selfRedirect.redirect 12 = some 12 ∧ (∀ fuel, selfRedirect.getString fuel 12 = .error .unfinished) ∧
      (∀ fuel, selfRedirect.getIPLocation fuel 12 = .error .unfinished) ∧
      ∀ fuel, selfRedirect.matchRecord (patternArray ⟨['A'], by decide⟩) (patternArray ⟨['*'], by decide⟩) ⟨[], []⟩ fuel 12 =
        .error .unfinished := by
  have hnext : selfRedirect.redirect 12 = some 12 := by decide
  have hlast : ∀ b, ¬ Last selfRedirect.redirect 12 b := by
    intro b
    refine not_last_of_comesBack ⟨0, 1, 12, by decide, rfl, ?_⟩
    rw [after, hnext]
    rfl
  refine ⟨hnext, fun fuel => Ipdb.follows_getString.eq_unfinished hlast fuel,
    fun fuel => Ipdb.follows_getIPLocation.eq_unfinished hlast fuel, fun fuel => ?_⟩
  exact (Ipdb.follows_matchRecord (by decide) _).eq_unfinished hlast fuel

end Avbot.Qqwry
