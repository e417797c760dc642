import Avbot.Http.CookieMerge

/-!
# Cookies for all hosts of a domain

A domain with a dot at its front stands for all hosts whose name ends with it. `get_cookie_line` takes the dots off before it compares, and then does not see whether the rest of the host ends at a dot.
-/

namespace Avbot.Http

open Str (toLower trim trimRight)

namespace Cookie

/-- A cookie with a value that is copied from the sorted jar: the first of its key, or one that passes the test of `cookie_megerable`. -/
def Kept (sorted : List Cookie) (c : Cookie) : Prop :=
  ∃ before after, sorted = before ++ c :: after ∧ (before.any c.sameKey = false ∨ Passes sorted c)

variable {c : Cookie}

theorem mem_survivors_nil_iff {sorted : List Cookie} (hvalue : c.value ≠ []) :
    c ∈ survivors [] sorted ↔ Kept sorted c := by
  rw [mem_survivors_iff]
  constructor
  · rintro ⟨before, after, rfl, hcopied⟩
    exact ⟨before, after, rfl, (megerable_iff after hvalue).mp hcopied⟩
  · rintro ⟨before, after, rfl, hkept⟩
    exact ⟨before, after, rfl, (megerable_iff after hvalue).mpr hkept⟩

theorem value_ne_nil_of_live {https : Bool} {now : Int} (hlive : c.live https now = true) : c.value ≠ [] := by
  rw [live, decide_eq_true_iff] at hlive
  exact hlive.1

def HostOf (domain host : Str) : Prop :=
  toLower host = toLower domain ∨ '.' :: toLower domain <:+ toLower host

/-- What is left of a domain for the comparison, once its first dot is gone: no more dots at the front and no blanks at the end. -/
def core (domain : Str) : Str := (trimRight domain).dropWhile (· = '.')

/-- The host is no host of the domain of the cookie, which has a dot at its front, but it ends with the letters of the domain, or is blank. -/
def StraysTo (host : Str) (c : Cookie) : Prop :=
  ∃ domain, c.domain = '.' :: domain ∧ ¬ HostOf domain host ∧
    (trim host = [] ∨ toLower (core domain) <:+ toLower (trim host))

theorem trim_dot (domain : Str) : trim ('.' :: domain) = '.' :: trimRight domain := by
  have hright : trimRight ('.' :: domain) = '.' :: trimRight domain := by
    unfold trimRight List.rdropWhile
    rw [List.reverse_cons, List.dropWhile_append]
    split
    case isTrue hblank =>
      rw [List.isEmpty_iff.mp hblank]
      rfl
    case isFalse => simp
  rw [trim, hright]
  rfl

theorem domainMatches_dot {host domain : Str} (hdomain : c.domain = '.' :: domain) :
    c.domainMatches host = true ↔
      trim host = [] ∨ toLower (core domain) <:+ toLower (trim host) := by
  rw [domainMatches, hdomain, trim_dot]
  by_cases hblank : trim host = []
  · simp [hblank]
  · simp [hblank, core]

end Cookie

namespace CookieLib

variable (lib : CookieLib)

theorem mem_selected_iff {jar : Cookies} {https : Bool} {now : Int} {host : Str} {c : Cookie} :
    c ∈ lib.selected jar https now host [] ↔
      Cookie.Kept (lib.sort jar.cookies) c ∧ c.live https now = true ∧ c.domainMatches host = true := by
  have hpath : lib.pathMatches [] c = true := by simp [pathMatches, trim, trimRight, Str.trimLeft]
  rw [selected, List.mem_filter, add, List.nil_append, Cookie.mergeInto_nil, hpath, Bool.and_true, Bool.and_eq_true]
  exact and_congr_left fun h => Cookie.mem_survivors_nil_iff (Cookie.value_ne_nil_of_live h.1)

/-- A line has cookies for all hosts of a domain only for these hosts, exactly if the host merely ends with the letters of no such domain. -/
theorem selected_hostOf_iff (jar : Cookies) (https : Bool) (now : Int) (host : Str) :
    (∀ c ∈ lib.selected jar https now host [], ∀ domain, c.domain = '.' :: domain → Cookie.HostOf domain host) ↔
      ∀ c, Cookie.Kept (lib.sort jar.cookies) c → c.live https now = true → ¬ Cookie.StraysTo host c := by
  constructor
  · rintro hsent c hkept hlive ⟨domain, hdomain, hforeign, hends⟩
    have hselected := lib.mem_selected_iff.mpr ⟨hkept, hlive, (Cookie.domainMatches_dot hdomain).mpr hends⟩
    exact hforeign (hsent c hselected domain hdomain)
  · intro hstray c hselected domain hdomain
    obtain ⟨hkept, hlive, hmatches⟩ := lib.mem_selected_iff.mp hselected
    by_contra hforeign
    exact hstray c hkept hlive ⟨domain, hdomain, hforeign, (Cookie.domainMatches_dot hdomain).mp hmatches⟩

/-- A host that ends with the same letters gets the cookie. -/
theorem line_for_badexample :
    let lib := byInsertion (fun _ => none) (fun _ _ => true)
    let c : Cookie := ⟨"s".toList, "1".toList, ".example.com".toList, "/".toList, none, false, false⟩
    lib.selected ⟨[c], []⟩ false 0 "badexample.com".toList [] = [c] ∧
      lib.getCookieLine ⟨[c], []⟩ false 0 "badexample.com".toList [] = "s=1".toList ∧
      ¬ Cookie.HostOf "example.com".toList "badexample.com".toList := by
  refine ⟨by decide, by decide, ?_⟩
  unfold Cookie.HostOf
  decide

end CookieLib

end Avbot.Http
