import Avbot.Http.CookieDomain
import Avbot.Http.CookieFile
import Avbot.Lib.EventMachine

/-!
# Calls on a jar

A jar starts empty and changes by its own functions only. An update appends a cookie, and nothing is ever taken out again: `remove_cookie` calls `std::remove_if`, which does not shorten the vector. A read takes the first cookie with the name and a value.
-/

namespace Avbot.Http

open List

structure JarLib extends CookieLib where
  /-- The elements of a vector after `std::remove_if`. -/
  removeIf : (Cookie → Bool) → List Cookie → List Cookie
  length_removeIf : ∀ p l, (removeIf p l).length = l.length
  take_removeIf : ∀ p l, (removeIf p l).take (l.filter fun c => !p c).length = l.filter fun c => !p c

namespace Cookie

def ofPair (name value : Str) : Cookie := ⟨name, value, [], [], none, false, false⟩

end Cookie

namespace Cookies

def empty : Cookies := ⟨[], []⟩

def updatePair (jar : Cookies) (name value : Str) : Cookies :=
  { jar with cookies := jar.cookies ++ [Cookie.ofPair name value] }

def updateCookie (jar : Cookies) (cookie : Cookie) : Cookies := { jar with cookies := jar.cookies ++ [cookie] }

def findFilled (name : Str) (cookies : List Cookie) : Option Cookie := cookies.find? fun c => c.name = name ∧ c.value ≠ []

def get (jar : Cookies) (key : Str) : Str := ((findFilled key jar.cookies).map Cookie.value).getD []

end Cookies

inductive JarCall where
  | updatePair (name value : Str)
  | updateCookie (cookie : Cookie)
  | updateString (str : Str)
  | loadFromFile (content : Str)
  | removeCookie (name : Str)
  | clear
  | defaultDomain (domain : Str)

namespace JarLib

variable (lib : JarLib)

def removeCookie (jar : Cookies) (name : Str) : Cookies :=
  { jar with cookies := lib.removeIf (fun c => c.name = name) jar.cookies }

def step (jar : Cookies) : JarCall → Option Cookies
  | .updatePair name value => some (jar.updatePair name value)
  | .updateCookie cookie => some (jar.updateCookie cookie)
  | .updateString str => some (lib.update jar str)
  | .loadFromFile content => (loadFromFile jar.cookies content).map fun cookies => { jar with cookies := cookies }
  | .removeCookie name => some (lib.removeCookie jar name)
  | .clear => some { jar with cookies := [] }
  | .defaultDomain domain => some { jar with mDefaultDomain := domain }

def Removed (name : Str) (before after : List Cookie) : Prop :=
  (∀ c ∈ after, c.name ≠ name) ∧ after.filter (fun c => c.name ≠ name) = before.filter fun c => c.name ≠ name

theorem removeIf_eq_self {p : Cookie → Bool} {l : List Cookie} (hnone : ∀ c ∈ l, p c = false) : lib.removeIf p l = l := by
  have hkept : l.filter (fun c => !p c) = l := by
    apply filter_eq_self.mpr
    intro c hc
    rw [hnone c hc]
    rfl
  have htake := lib.take_removeIf p l
  rw [hkept, ← lib.length_removeIf p l, take_length] at htake
  exact htake

/-- `remove_cookie` removes the cookies of a name exactly if there are none. -/
theorem removeCookie_removed_iff (jar : Cookies) (name : Str) :
    Removed name jar.cookies (lib.removeCookie jar name).cookies ↔ ∀ c ∈ jar.cookies, c.name ≠ name := by
  constructor
  · rintro ⟨hgone, hothers⟩
    -- the vector keeps its length, so the cookies with other names fill all of it
    have hlength : (lib.removeCookie jar name).cookies.length = jar.cookies.length :=
      lib.length_removeIf (fun c => c.name = name) jar.cookies
    have hall : (lib.removeCookie jar name).cookies.filter (fun c => c.name ≠ name) = (lib.removeCookie jar name).cookies :=
      filter_eq_self.mpr fun c hc => decide_eq_true (hgone c hc)
    rw [← hall, hothers, length_filter_eq_length_iff] at hlength
    exact fun c hc => of_decide_eq_true (hlength c hc)
  · intro hnone
    have hsame : (lib.removeCookie jar name).cookies = jar.cookies :=
      lib.removeIf_eq_self fun c hc => decide_eq_false (hnone c hc)
    rw [Removed, hsame]
    exact ⟨hnone, rfl⟩

/-- The elements after `std::remove_if` by assignment: behind the ones that are left everything is as it was. -/
def byAssignment (lib : CookieLib) : JarLib where
  toCookieLib := lib
  removeIf p l := (l.filter fun c => !p c) ++ l.drop (l.filter fun c => !p c).length
  length_removeIf p l := by
    have hle := length_filter_le (fun c => !p c) l
    rw [length_append, length_drop]
    omega
  take_removeIf p l := take_left' rfl

/-- The cookie that is to be removed is still there. -/
theorem removeCookie_keeps_cookie :
    let lib := byAssignment (CookieLib.byInsertion (fun _ => none) (fun _ _ => true))
    let jar := Cookies.empty.updatePair "n".toList "x".toList
    (lib.removeCookie jar "n".toList).cookies = jar.cookies ∧
      ¬ Removed "n".toList jar.cookies (lib.removeCookie jar "n".toList).cookies := by
  refine ⟨by decide, ?_⟩
  intro hremoved
  exact hremoved.1 (Cookie.ofPair "n".toList "x".toList) (by decide) rfl

def Sends (jar : Cookies) (now : Int) (name value : Str) : Prop :=
  ∃ c ∈ lib.selected jar false now [] [], c.name = name ∧ c.domain = [] ∧ c.path = [] ∧ c.value = value

variable (jar : Cookies)

theorem get_updatePair_iff (name : Str) {value : Str} (hvalue : value ≠ []) :
    (jar.updatePair name value).get name = value ↔
      ∀ c, Cookies.findFilled name jar.cookies = some c → c.value = value := by
  have hnew : Cookies.findFilled name [Cookie.ofPair name value] = some (Cookie.ofPair name value) :=
    List.find?_cons_of_pos (by simpa [Cookie.ofPair] using hvalue)
  have hfind : Cookies.findFilled name (jar.updatePair name value).cookies =
      (Cookies.findFilled name jar.cookies).or (some (Cookie.ofPair name value)) := by
    rw [← hnew]
    exact List.find?_append
  rw [Cookies.get, hfind]
  cases Cookies.findFilled name jar.cookies with
  | none => simp [Cookie.ofPair]
  | some c => simp

theorem domainMatches_nil (c : Cookie) : c.domainMatches [] = true := by
  simp [Cookie.domainMatches, Str.trim, Str.trimRight, Str.trimLeft]

theorem sends_iff (now : Int) (name value : Str) :
    lib.Sends jar now name value ↔
      ∃ c, Cookie.Kept (lib.sort jar.cookies) c ∧ c.live false now = true ∧
        c.name = name ∧ c.domain = [] ∧ c.path = [] ∧ c.value = value := by
  apply exists_congr
  intro c
  rw [CookieLib.mem_selected_iff, domainMatches_nil, and_assoc, and_assoc, and_iff_right rfl]

theorem run_updateCookie (cookies : List Cookie) :
    EventMachine.run lib.step jar (cookies.map JarCall.updateCookie) = some { jar with cookies := jar.cookies ++ cookies } := by
  induction cookies generalizing jar with
  | nil => simp
  | cons c cookies ih =>
    rw [map_cons]
    refine (ih (jar.updateCookie c)).trans ?_
    simp [Cookies.updateCookie]

theorem exists_history : ∃ history, EventMachine.run lib.step Cookies.empty history = some jar :=
  ⟨.defaultDomain jar.mDefaultDomain :: jar.cookies.map JarCall.updateCookie, lib.run_updateCookie _ jar.cookies⟩

/-- An update is read back and sent exactly if no cookie of the name with another value stands before it, and if the merge of the sorted jar keeps it or one of the same value. -/
theorem updatePair_visible_iff (jar : Cookies) (name value : Str) (hvalue : value ≠ []) (now : Int) :
    (∃ history, EventMachine.run lib.step Cookies.empty history = some jar) ∧
      ((jar.updatePair name value).get name = value ∧ lib.Sends (jar.updatePair name value) now name value ↔
        (∀ c, Cookies.findFilled name jar.cookies = some c → c.value = value) ∧
          ∃ c, Cookie.Kept (lib.sort (jar.cookies ++ [Cookie.ofPair name value])) c ∧ c.live false now = true ∧
            c.name = name ∧ c.domain = [] ∧ c.path = [] ∧ c.value = value) := by
  refine ⟨lib.exists_history jar, ?_⟩
  rw [get_updatePair_iff jar name hvalue, sends_iff]
  rfl

def usedJar : Cookies :=
  ⟨[⟨"a".toList, "1".toList, "b.com".toList, "/".toList, none, false, false⟩, ⟨"n".toList, [], [], [], some 1, false, false⟩,
    ⟨"c".toList, "2".toList, [], [], some 9, false, false⟩], []⟩

/-- The cookie of the name that is in the jar has no value. -/
theorem updatePair_visible_over_empty :
    let lib := byAssignment (CookieLib.byInsertion (fun _ => none) (fun _ _ => true))
    (usedJar.updatePair "n".toList "x".toList).get "n".toList = "x".toList ∧
      lib.Sends (usedJar.updatePair "n".toList "x".toList) 0 "n".toList "x".toList := by
  intro lib
  have hkept : Cookie.Kept (lib.sort (usedJar.cookies ++ [Cookie.ofPair "n".toList "x".toList]))
      (Cookie.ofPair "n".toList "x".toList) := by
    refine ⟨_, [], (rfl : _ = usedJar.cookies.eraseIdx 1 ++ [usedJar.cookies[1]] ++ _), .inr fun first hfirst => .inl ?_⟩
    cases hfirst
    rfl
  exact (lib.updatePair_visible_iff usedJar "n".toList "x".toList (by decide) 0).2.mpr
    ⟨fun c hc => (Option.some_ne_none c hc.symm).elim, _, hkept, by decide, rfl, rfl, rfl, rfl⟩

/-- The second of two updates is neither read back nor sent. -/
theorem second_update_lost :
    let lib := byAssignment (CookieLib.byInsertion (fun _ => none) (fun _ _ => true))
    let jar := (Cookies.empty.updatePair "n".toList "x".toList).updatePair "n".toList "y".toList
    EventMachine.run lib.step Cookies.empty [.updatePair "n".toList "x".toList, .updatePair "n".toList "y".toList] = some jar ∧
      jar.get "n".toList = "x".toList ∧ lib.getCookieLine jar false 0 [] [] = "n=x".toList := by
  refine ⟨rfl, by decide, by decide⟩

end JarLib

end Avbot.Http
