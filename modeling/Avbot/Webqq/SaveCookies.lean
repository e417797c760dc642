import Avbot.Webqq.CookieStore

/-!
# What a list of cookies leaves in the table

`save_cookie` writes or deletes the row of each cookie of a stream. The test for a date in the past stands under the condition that there is none, so a cookie that has expired is written like any other. The loop is described by what it does to the rows of one key.
-/

namespace Avbot.CookieStore

open List
open Http (Cookie Cookies ptimeLt)

def keyOf (domain : Str) (cookie : Cookie) : Str × Str × Str :=
  (if cookie.domain.isEmpty then domain else cookie.domain,
    if cookie.path.isEmpty then "/".toList else cookie.path, cookie.name)

def Live (now : Int) (cookie : Cookie) : Prop := cookie.value ≠ [] ∧ cookie.expired now = false

instance (now : Int) (cookie : Cookie) : Decidable (Live now cookie) :=
  inferInstanceAs (Decidable (_ ∧ _))

def liveOf (now : Int) (domain : Str) (key : Str × Str × Str) (cookies : List Cookie) : List Cookie :=
  cookies.filter fun c => keyOf domain c = key ∧ Live now c

def filledOf (domain : Str) (key : Str × Str × Str) (cookies : List Cookie) : List Cookie :=
  cookies.filter fun c => keyOf domain c = key ∧ c.value ≠ []

def rowsOf (key : Str × Str × Str) (t : Table) : Table := t.filter fun r => r.key = key

namespace StoreLib

variable (lib : StoreLib)

theorem shallDelete_eq (cookie : Cookie) : lib.shallDelete cookie = cookie.value.isEmpty := by
  unfold shallDelete
  cases hvalue : cookie.value.isEmpty with
  | true => rfl
  | false =>
    cases hexpires : cookie.expires with
    | none => rfl
    | some date => rfl

def rowFor (domain : Str) (cookie : Cookie) : Row :=
  ⟨(keyOf domain cookie).1, (keyOf domain cookie).2.1, cookie.name, cookie.value, lib.toStr cookie.expires⟩

theorem key_rowFor (domain : Str) (cookie : Cookie) : (lib.rowFor domain cookie).key = keyOf domain cookie := rfl

variable {cookie : Cookie} {p : Row → Bool} {domain : Str} {key : Str × Str × Str}

theorem saveStep_of_empty (domain : Str) (s : Saving) (hvalue : cookie.value = []) :
    lib.saveStep domain s cookie =
      if keyOf domain cookie ∈ s.inserted then s
      else { s with table := s.table.filter fun r => r.key ≠ keyOf domain cookie } := by
  unfold saveStep
  rw [shallDelete_eq, hvalue]
  dsimp only [isEmpty_nil]
  rw [if_pos rfl, deleteCookie_eq]
  rfl

theorem saveStep_of_filled (domain : Str) (s : Saving) (hvalue : cookie.value ≠ []) :
    lib.saveStep domain s cookie =
      { table := (s.table.filter fun r => r.key ≠ keyOf domain cookie) ++ [lib.rowFor domain cookie]
        inserted := s.inserted ++ [keyOf domain cookie] } := by
  unfold saveStep
  rw [shallDelete_eq]
  rw [if_neg (by simpa using hvalue), saveCookie_eq]
  rfl

theorem filter_saveStep (domain : Str) (s : Saving) (cookie : Cookie)
    (hp : ∀ r, r.key = keyOf domain cookie → p r = false) :
    (lib.saveStep domain s cookie).table.filter p = s.table.filter p := by
  have hdeleted : (s.table.filter fun r => r.key ≠ keyOf domain cookie).filter p = s.table.filter p := by
    rw [filter_filter]
    apply filter_congr
    intro r _
    by_cases hr : r.key = keyOf domain cookie
    · simp [hp r hr]
    · simp [hr]
  by_cases hvalue : cookie.value = []
  · rw [saveStep_of_empty lib domain s hvalue]
    split
    · rfl
    · exact hdeleted
  · rw [saveStep_of_filled lib domain s hvalue]
    rw [filter_append, hdeleted, filter_cons_of_neg, filter_nil, append_nil]
    rw [hp _ (lib.key_rowFor domain cookie)]
    exact Bool.false_ne_true

def savedAfter (domain : Str) (t : Table) (cookies : List Cookie) : Saving := cookies.foldl (lib.saveStep domain) ⟨t, []⟩

theorem savedAfter_append (domain : Str) (t : Table) (cookies : List Cookie) (cookie : Cookie) :
    lib.savedAfter domain t (cookies ++ [cookie]) = lib.saveStep domain (lib.savedAfter domain t cookies) cookie := by
  rw [savedAfter, foldl_append]
  rfl

theorem filledOf_append_filled (cookies : List Cookie) (hkey : keyOf domain cookie = key) (hvalue : cookie.value ≠ []) :
    filledOf domain key (cookies ++ [cookie]) = filledOf domain key cookies ++ [cookie] := by
  rw [filledOf, filter_append, filter_singleton, decide_eq_true ⟨hkey, hvalue⟩]
  rfl

theorem filledOf_append_other (cookies : List Cookie) (hother : keyOf domain cookie = key → cookie.value = []) :
    filledOf domain key (cookies ++ [cookie]) = filledOf domain key cookies := by
  have hnot : ¬ (keyOf domain cookie = key ∧ cookie.value ≠ []) := fun h => h.2 (hother h.1)
  rw [filledOf, filter_append, filter_singleton, decide_eq_false hnot]
  exact append_nil _

theorem mem_inserted_iff (domain : Str) (t : Table) (key : Str × Str × Str) (cookies : List Cookie) :
    key ∈ (lib.savedAfter domain t cookies).inserted ↔ filledOf domain key cookies ≠ [] := by
  induction cookies using reverseRecOn with
  | nil => simp [savedAfter, filledOf]
  | append_singleton cookies cookie ih =>
    rw [savedAfter_append]
    by_cases hvalue : cookie.value = []
    · have hsame : (lib.saveStep domain (lib.savedAfter domain t cookies) cookie).inserted =
          (lib.savedAfter domain t cookies).inserted := by
        rw [saveStep_of_empty lib domain _ hvalue]
        split <;> rfl
      rw [hsame, ih, filledOf_append_other cookies fun _ => hvalue]
    · rw [saveStep_of_filled lib domain _ hvalue, mem_append, ih, mem_singleton]
      by_cases hkey : keyOf domain cookie = key
      · simp [filledOf_append_filled cookies hkey hvalue, hkey]
      · rw [filledOf_append_other cookies fun h => absurd h hkey]
        simp [Ne.symm hkey]

theorem rowsOf_savedAfter (domain : Str) (t : Table) (key : Str × Str × Str) (cookies : List Cookie) :
    rowsOf key (lib.savedAfter domain t cookies).table =
      match (filledOf domain key cookies).getLast? with
      | some c => [lib.rowFor domain c]
      | none => if key ∈ cookies.map (keyOf domain) then [] else rowsOf key t := by
  induction cookies using reverseRecOn with
  | nil => rfl
  | append_singleton cookies cookie ih =>
    rw [savedAfter_append]
    by_cases hkey : keyOf domain cookie = key
    · by_cases hvalue : cookie.value = []
      · -- a deletion, which is not made if the key was written
        have hinserted := lib.mem_inserted_iff domain t key cookies
        rw [saveStep_of_empty lib domain _ hvalue, hkey, filledOf_append_other cookies fun _ => hvalue]
        by_cases hfilled : filledOf domain key cookies = []
        · rw [if_neg (mt hinserted.mp (not_not.mpr hfilled)), hfilled]
          simp [rowsOf, hkey]
        · rw [if_pos (hinserted.mpr hfilled), ih]
          obtain ⟨c, hc⟩ := Option.ne_none_iff_exists'.mp (mt getLast?_eq_none_iff.mp hfilled)
          rw [hc]
      · rw [saveStep_of_filled lib domain _ hvalue, hkey, filledOf_append_filled cookies hkey hvalue, getLast?_concat]
        simp [rowsOf, filter_append, key_rowFor, hkey]
    · have hother : rowsOf key (lib.saveStep domain (lib.savedAfter domain t cookies) cookie).table =
          rowsOf key (lib.savedAfter domain t cookies).table := by
        apply filter_saveStep
        intro r hr
        simp [hr, hkey]
      rw [hother, ih, filledOf_append_other cookies fun h => absurd h hkey]
      simp [Ne.symm hkey]

theorem filter_savedAfter (domain : Str) (t : Table) (cookies : List Cookie)
    (hp : ∀ r, r.key ∈ cookies.map (keyOf domain) → p r = false) :
    (lib.savedAfter domain t cookies).table.filter p = t.filter p := by
  induction cookies using reverseRecOn with
  | nil => rfl
  | append_singleton cookies cookie ih =>
    rw [savedAfter_append, filter_saveStep, ih]
    · intro r hr
      exact hp r (by simp [hr])
    · intro r hr
      exact hp r (by simp [hr])

/-- What the list should leave: of each of its keys a row with the value of the last cookie that is to be kept, or none, and all other rows as they were. -/
def KeepsLive (now : Int) (domain : Str) (cookies : List Cookie) (t t' : Table) : Prop :=
  (∀ key ∈ cookies.map (keyOf domain),
    (∀ c, (liveOf now domain key cookies).getLast? = some c → (rowsOf key t').map Row.value = [c.value]) ∧
      (liveOf now domain key cookies = [] → rowsOf key t' = [])) ∧
  t'.filter (fun r => r.key ∉ cookies.map (keyOf domain)) = t.filter fun r => r.key ∉ cookies.map (keyOf domain)

def LastFilledLive (now : Int) (domain : Str) (cookies : List Cookie) : Prop :=
  ∀ key c, (filledOf domain key cookies).getLast? = some c →
    ∃ c', (liveOf now domain key cookies).getLast? = some c' ∧ c'.value = c.value

theorem liveOf_eq_nil_of_filledOf {now : Int} {domain : Str} {key : Str × Str × Str} {cookies : List Cookie}
    (hfilled : filledOf domain key cookies = []) : liveOf now domain key cookies = [] := by
  apply filter_eq_nil_iff.mpr
  intro c hc hlive
  have hkept := of_decide_eq_true hlive
  exact filter_eq_nil_iff.mp hfilled c hc (decide_eq_true ⟨hkept.1, hkept.2.1⟩)

/-- `save_cookie` leaves what it should exactly when no expired cookie of a key comes after the last one that is to be kept, unless it has the same value. -/
theorem saveCookies_keepsLive_iff (cookies : Cookies) (domain : Str) (t : Table) :
    KeepsLive lib.now domain cookies.cookies t (lib.saveCookies cookies domain t) ↔
      LastFilledLive lib.now domain cookies.cookies := by
  show KeepsLive lib.now domain cookies.cookies t (lib.savedAfter domain t cookies.cookies).table ↔ _
  generalize cookies.cookies = cs
  constructor
  · intro hkeeps key c hc
    have hfilled : c ∈ filledOf domain key cs := mem_of_getLast? hc
    obtain ⟨hmem, hkey⟩ := mem_filter.mp hfilled
    have hkey : key ∈ cs.map (keyOf domain) := mem_map.mpr ⟨c, hmem, (of_decide_eq_true hkey).1⟩
    obtain ⟨hlive, hnone⟩ := hkeeps.1 key hkey
    have hrows := lib.rowsOf_savedAfter domain t key cs
    rw [hc] at hrows
    cases hlast : (liveOf lib.now domain key cs).getLast? with
    | none =>
      rw [hnone (getLast?_eq_none_iff.mp hlast)] at hrows
      cases hrows
    | some c' =>
      refine ⟨c', rfl, ?_⟩
      have hvalue := hlive c' hlast
      rw [hrows] at hvalue
      exact (cons.inj hvalue).1.symm
  · intro hlast
    refine ⟨?_, lib.filter_savedAfter domain t cs (by simp)⟩
    intro key hkey
    have hrows := lib.rowsOf_savedAfter domain t key cs
    cases hfilled : (filledOf domain key cs).getLast? with
    | none =>
      have hlive := @liveOf_eq_nil_of_filledOf lib.now domain key cs (getLast?_eq_none_iff.mp hfilled)
      rw [hfilled, if_pos hkey] at hrows
      simp [hlive, hrows]
    | some c =>
      obtain ⟨c', hc', hvalue⟩ := hlast key c hfilled
      rw [hfilled] at hrows
      refine ⟨?_, ?_⟩
      · intro d hd
        rw [hc'] at hd
        rw [hrows, ← Option.some.inj hd, hvalue]
        rfl
      · intro hnone
        rw [hnone] at hc'
        cases hc'

/-- A cookie whose date is past is in the table afterwards. -/
theorem expired_cookie_saved :
    let lib : StoreLib := ⟨fun _ _ => none, fun _ => [], 10⟩
    let cookie : Cookie := ⟨"a".toList, "1".toList, [], [], some 5, false, false⟩
    liveOf 10 "h".toList ("h".toList, "/".toList, "a".toList) [cookie] = [] ∧
      lib.saveCookies ⟨[cookie], []⟩ "h".toList [] = [⟨"h".toList, "/".toList, "a".toList, "1".toList, []⟩] ∧
      ¬ KeepsLive 10 "h".toList [cookie] [] (lib.saveCookies ⟨[cookie], []⟩ "h".toList []) := by
  refine ⟨by decide, by decide, ?_⟩
  intro hkeeps
  have hnone := (hkeeps.1 ("h".toList, "/".toList, "a".toList) (by decide)).2 (by decide)
  exact absurd hnone (by decide)

end StoreLib

end Avbot.CookieStore
