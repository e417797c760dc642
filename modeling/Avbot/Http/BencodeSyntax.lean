import Avbot.Http.Bencode
import Avbot.Lib.Fallible
import Mathlib.Logic.Relation

/-!
# What the reader accepts

The texts that `bdecode` takes for a value are described by the same rules as bencoded values, with other ways to write numbers and with dictionaries that a key ends. The reader looks behind the end of a text that stops directly behind the letter of a list or a dictionary.
-/

namespace Avbot.Http

open List Relation Nat Except
open Fallible (bind_eq_ok_iff bind_ne_error error_bind ok_bind)

/-- What stands for an integer, and what stands before a text of some length. A key that is no text may end a dictionary. -/
structure Spelling where
  integer : Str → Prop
  length : Str → Nat → Prop
  breaks : Prop

def startsText (s : Str) : Bool := s.head?.any Char.isDigit

/-- A key and its value. -/
def Pair (below : Str → Str → Prop) (s rest : Str) : Prop :=
  startsText s = true ∧ ∃ value, below s value ∧ below value rest

/-- A value and what follows it. The parts of a list or a dictionary are read by `below`. -/
@[mk_iff]
inductive Level (g : Spelling) (below : Str → Str → Prop) : Str → Str → Prop
  | integer {t rest : Str} : 'e' ∉ t → g.integer t → Level g below ('i' :: (t ++ 'e' :: rest)) rest
  | text {t value rest : Str} : startsText t = true → ':' ∉ t → g.length t value.length → Level g below (t ++ ':' :: (value ++ rest)) rest
  | list {s rest : Str} : ReflTransGen below s ('e' :: rest) → Level g below ('l' :: s) rest
  | dictionary {s rest : Str} : ReflTransGen (Pair below) s ('e' :: rest) → Level g below ('d' :: s) rest
  | broken {s key rest : Str} : g.breaks → ReflTransGen (Pair below) s key → startsText key = false → below key rest →
      Level g below ('d' :: s) rest

def Value (g : Spelling) : Nat → Str → Str → Prop
  | 0 => fun _ _ => False
  | depth + 1 => Level g (Value g depth)

def Spelling.bencoded : Spelling where
  integer t := ∃ digits, (t = digits ∨ t = '-' :: digits) ∧ digits ≠ [] ∧ ∀ c ∈ digits, c.isDigit = true
  length t n := (∀ c ∈ t, c.isDigit = true) ∧ t.foldl digit 0 = n
  breaks := False

/-- A number may have anything behind it, and blanks and a plus sign before it. -/
def Spelling.accepted : Spelling where
  integer t := converts (Str.cStr t) = true
  length t n := (atoi t).toNat = n
  breaks := True

/-- The text ends behind the letter of a list or a dictionary, or a part of it does. -/
@[mk_iff]
inductive CutLevel (below : Str → Str → Prop) (cut : Str → Prop) : Str → Prop
  | list : CutLevel below cut ['l']
  | dictionary : CutLevel below cut ['d']
  | element {s part : Str} : ReflTransGen below s part → cut part → CutLevel below cut ('l' :: s)
  | key {s part : Str} : ReflTransGen (Pair below) s part → cut part → CutLevel below cut ('d' :: s)
  | value {s key part : Str} : ReflTransGen (Pair below) s key → startsText key = true → below key part → cut part →
      CutLevel below cut ('d' :: s)

def CutOff : Nat → Str → Prop
  | 0 => fun _ => False
  | depth + 1 => CutLevel (Value .accepted depth) (CutOff depth)

theorem readUntil_eq_ok_iff {endToken : Char} {s t rest : Str} :
    Bencode.readUntil endToken s = .ok (t, rest) ↔ s = t ++ endToken :: rest ∧ endToken ∉ t := by
  constructor
  · intro h
    by_cases hmem : endToken ∈ s
    · obtain ⟨l, r, rfl, hl⟩ := eq_append_cons_of_mem hmem
      rw [Bencode.readUntil_append hl] at h
      obtain ⟨rfl, rfl⟩ := Prod.mk.inj (ok.inj h)
      exact ⟨rfl, hl⟩
    · have hnone : s.dropWhile (· ≠ endToken) = [] :=
        dropWhile_eq_nil_iff.mpr fun c hc => decide_eq_true fun heq => hmem (heq ▸ hc)
      rw [Bencode.readUntil, hnone] at h
      cases h
  · rintro ⟨rfl, ht⟩
    exact Bencode.readUntil_append ht rest

theorem readUntil_ne_undefined (endToken : Char) (s : Str) : Bencode.readUntil endToken s ≠ .error .undefined := by
  rw [Bencode.readUntil]
  split <;> simp

theorem readString_eq_ok_iff {len : Int} {s value rest : Str} :
    readString len s = .ok (value, rest) ↔ s = value ++ rest ∧ len.toNat = value.length := by
  rw [readString]
  constructor
  · intro h
    split at h
    · cases h
    · obtain ⟨rfl, rfl⟩ := Prod.mk.inj (ok.inj h)
      exact ⟨(take_append_drop _ _).symm, by rw [length_take]; omega⟩
  · rintro ⟨rfl, hlen⟩
    simp [hlen]

/-! ### The loops -/

theorem steps_of_unique {α : Type} {r : α → α → Prop} {a b : α} (hstep : ∀ c, r a c ↔ c = b) (x : α) :
    ReflTransGen r a x ↔ a = x ∨ ReflTransGen r b x := by
  rw [ReflTransGen.cases_head_iff]
  simp [hstep]

theorem steps_of_none {α : Type} {r : α → α → Prop} {a : α} (hnone : ∀ c, ¬ r a c) (x : α) : ReflTransGen r a x ↔ a = x := by
  rw [ReflTransGen.cases_head_iff]
  simp [hnone]

/-- What the loops need to know of the reader of the parts. -/
structure ReadsParts (decode : Str → Except Stop (Entry × Str)) (below : Str → Str → Prop) (cut : Str → Prop) : Prop where
  ok (s rest : Str) : (∃ e, decode s = .ok (e, rest)) ↔ below s rest
  cut (s : Str) : decode s = .error .undefined ↔ cut s
  text {s rest : Str} {e : Entry} : decode s = .ok (e, rest) → e ≠ .undefined ∧ ((∃ key, e = .string key) ↔ startsText s = true)
  shorter {s rest : Str} : below s rest → rest.length < s.length
  nil : decode [] = .error .err
  stops (s : Str) : decode ('e' :: s) = .error .err

namespace ReadsParts

variable {decode : Str → Except Stop (Entry × Str)} {below : Str → Str → Prop} {cut : Str → Prop} {s rest mid : Str} {e : Entry}

section

variable (h : ReadsParts decode below cut)

include h

theorem below_iff (hs : decode s = .ok (e, mid)) (x : Str) : below s x ↔ x = mid := by
  rw [← h.ok, hs]
  simp [eq_comm]

theorem not_below {stop : Stop} (hs : decode s = .error stop) (x : Str) : ¬ below s x := by
  rw [← h.ok, hs]
  simp

theorem not_cut (hs : decode s = .error .err) : ¬ cut s := by
  rw [← h.cut, hs]
  simp

theorem not_cut_of_ok (hs : decode s = .ok (e, mid)) : ¬ cut s := by
  rw [← h.cut, hs]
  simp

theorem bdecodeList_iff {fuel : Nat} (hfuel : s.length < fuel) (entries : List Entry) :
    (∀ rest, (∃ e, bdecodeList decode fuel entries s = .ok (e, rest)) ↔ ReflTransGen below s ('e' :: rest)) ∧
      (bdecodeList decode fuel entries s = .error .undefined ↔ s = [] ∨ ∃ part, ReflTransGen below s part ∧ cut part) := by
  induction fuel generalizing s entries with
  | zero => omega
  | succ fuel ih =>
    cases s with
    | nil => simp [bdecodeList, steps_of_none (h.not_below h.nil)]
    | cons c s =>
      by_cases hc : c = 'e'
      · subst hc
        have hcut := h.not_cut (h.stops s)
        simp [bdecodeList, steps_of_none (h.not_below (h.stops s)), hcut]
      · rw [bdecodeList, if_neg hc]
        cases hs : decode (c :: s) with
        | error stop =>
          have hcut := h.cut (c :: s)
          simp only [hs, steps_of_none (h.not_below hs)] at hcut ⊢
          simp [hc, ← hcut, error_bind]
        | ok p =>
          obtain ⟨e, mid⟩ := p
          have hcut := h.not_cut_of_ok hs
          simp only [steps_of_unique (h.below_iff hs), cons.injEq, hc, false_and, false_or]
          show (∀ rest, (∃ e, (if mid = [] then _ else bdecodeList decode fuel (entries ++ [_]) mid) = _) ↔ _) ∧ ((if _ then _ else _) = _ ↔ _)
          split
          · rename_i hmid
            subst hmid
            simp [steps_of_none (h.not_below h.nil), hcut, h.not_cut h.nil]
          · rename_i hmid
            have hlength := h.shorter ((h.ok _ _).mp ⟨e, hs⟩)
            obtain ⟨hok, hundefined⟩ := ih (s := mid) (by simp at hfuel hlength; omega) (entries ++ [e])
            refine ⟨hok, hundefined.trans ?_⟩
            simp [hmid, or_and_right, exists_or, hcut]

theorem pair_iff {key : Str} (hkey : decode s = .ok (.string key, mid))
    (hvalue : decode mid = .ok (e, rest)) (x : Str) : Pair below s x ↔ x = rest := by
  rw [Pair, and_iff_right ((h.text hkey).2.mp ⟨key, rfl⟩)]
  simp [h.below_iff hkey, h.below_iff hvalue]

theorem not_pair_of_error {stop : Stop} (hs : decode s = .error stop) (x : Str) : ¬ Pair below s x :=
  fun ⟨_, value, hkey, _⟩ => h.not_below hs value hkey

theorem bdecodeDict_iff {fuel : Nat} (hfuel : s.length < fuel) (entries : List (Str × Entry)) :
    (∀ rest, (∃ e, bdecodeDict decode fuel entries s = .ok (e, rest)) ↔ ReflTransGen (Pair below) s ('e' :: rest) ∨
        ∃ key, ReflTransGen (Pair below) s key ∧ startsText key = false ∧ below key rest) ∧
      (bdecodeDict decode fuel entries s = .error .undefined ↔ s = [] ∨ ∃ key, ReflTransGen (Pair below) s key ∧
        (cut key ∨ ∃ part, startsText key = true ∧ below key part ∧ cut part)) := by
  induction fuel generalizing s entries with
  | zero => omega
  | succ fuel ih =>
    cases s with
    | nil => simp [bdecodeDict, steps_of_none (h.not_pair_of_error h.nil), h.not_below h.nil]
    | cons c s =>
      by_cases hc : c = 'e'
      · subst hc
        have hcut := h.not_cut (h.stops s)
        simp [bdecodeDict, steps_of_none (h.not_pair_of_error (h.stops s)), hcut, h.not_below (h.stops s)]
      · rw [bdecodeDict, if_neg hc]
        cases hs : decode (c :: s) with
        | error stop =>
          have hcut := h.cut (c :: s)
          simp only [hs, steps_of_none (h.not_pair_of_error hs)] at hcut ⊢
          simp [hc, ← hcut, h.not_below hs, error_bind]
        | ok p =>
          obtain ⟨key, mid⟩ := p
          have hcut := h.not_cut_of_ok hs
          have hlength := h.shorter ((h.ok _ _).mp ⟨key, hs⟩)
          by_cases hkey : startsText (c :: s) = true
          · obtain ⟨key, rfl⟩ := (h.text hs).2.mpr hkey
            simp only [ok_bind]
            cases hmid : decode mid with
            | error stop =>
              have hcut' := h.cut mid
              have hnone : ∀ x, ¬ Pair below (c :: s) x := fun x hx => by
                obtain ⟨-, value, hvalue, hrest⟩ := hx
                obtain rfl := (h.below_iff hs value).mp hvalue
                exact h.not_below hmid x hrest
              simp only [hmid, steps_of_none hnone] at hcut' ⊢
              simp [hc, hkey, hcut, ← hcut', h.below_iff hs, error_bind]
            | ok q =>
              obtain ⟨e, rest⟩ := q
              have hlength' := h.shorter ((h.ok _ _).mp ⟨e, hmid⟩)
              have hcut' := h.not_cut_of_ok hmid
              simp only [steps_of_unique (h.pair_iff hs hmid), cons.injEq, hc, false_and, false_or, ok_bind]
              split
              · rename_i hrest
                subst hrest
                simp [steps_of_none (h.not_pair_of_error h.nil), hcut, hcut', hkey, h.below_iff hs, h.not_cut h.nil, h.not_below h.nil]
              · rename_i hrest
                obtain ⟨hok, hundefined⟩ := ih (s := rest) (by simp at hfuel hlength; omega) (Entry.insertKey key e entries)
                refine ⟨fun x => (hok x).trans ?_, hundefined.trans ?_⟩
                · simp [or_and_right, exists_or, hkey]
                · simp [hrest, or_and_right, exists_or, hcut, hcut', h.below_iff hs]
          · have hnone : ∀ x, ¬ Pair below (c :: s) x := fun x hx => hkey hx.1
            cases key with
            | string key => exact absurd ((h.text hs).2.mp ⟨key, rfl⟩) hkey
            | int | list | dictionary | undefined =>
              simp only [steps_of_none hnone, ok_bind]
              simp [hc, hkey, hcut, h.below_iff hs, pure, Except.pure, eq_comm]

end

end ReadsParts

theorem bdecodeList_isList {decode : Str → Except Stop (Entry × Str)} {fuel : Nat} {entries : List Entry} {s rest : Str} {e : Entry}
    (h : bdecodeList decode fuel entries s = .ok (e, rest)) : ∃ entries, e = .list entries := by
  induction fuel generalizing entries s with
  | zero => cases s <;> cases h
  | succ fuel ih =>
    cases s with
    | nil => cases h
    | cons c s =>
      rw [bdecodeList] at h
      split at h
      · exact ⟨entries, (Prod.mk.inj (ok.inj h)).1.symm⟩
      · obtain ⟨⟨part, mid⟩, -, hrest⟩ := bind_eq_ok_iff.mp h
        dsimp only at hrest
        split at hrest
        · cases hrest
        · exact ih hrest

theorem bdecodeDict_isDictionary {decode : Str → Except Stop (Entry × Str)} {fuel : Nat} {entries : List (Str × Entry)} {s rest : Str}
    {e : Entry} (h : bdecodeDict decode fuel entries s = .ok (e, rest)) : ∃ entries, e = .dictionary entries := by
  induction fuel generalizing entries s with
  | zero => cases s <;> cases h
  | succ fuel ih =>
    cases s with
    | nil => cases h
    | cons c s =>
      rw [bdecodeDict] at h
      split at h
      · exact ⟨entries, (Prod.mk.inj (ok.inj h)).1.symm⟩
      · obtain ⟨⟨key, mid⟩, -, hvalue⟩ := bind_eq_ok_iff.mp h
        cases key with
        | string key =>
          obtain ⟨⟨part, after⟩, -, hrest⟩ := bind_eq_ok_iff.mp hvalue
          dsimp only at hrest
          split at hrest
          · cases hrest
          · exact ih hrest
        | int | list | dictionary | undefined => exact ⟨entries, (Prod.mk.inj (ok.inj hvalue)).1.symm⟩

theorem bdecodeInteger_eq_ok_iff {s rest : Str} {e : Entry} : bdecodeInteger s = .ok (e, rest) ↔
    ∃ t, s = t ++ 'e' :: rest ∧ 'e' ∉ t ∧ converts (Str.cStr t) = true ∧ e = .int (strtoll (Str.cStr t)) := by
  rw [bdecodeInteger, bind_eq_ok_iff]
  constructor
  · rintro ⟨⟨t, mid⟩, hread, hval⟩
    obtain ⟨rfl, ht⟩ := readUntil_eq_ok_iff.mp hread
    dsimp only at hval
    split at hval
    · obtain ⟨rfl, rfl⟩ := Prod.mk.inj (ok.inj hval)
      exact ⟨t, rfl, ht, ‹_›, rfl⟩
    · cases hval
  · rintro ⟨t, hs, ht, hconverts, rfl⟩
    refine ⟨(t, rest), readUntil_eq_ok_iff.mpr ⟨hs, ht⟩, ?_⟩
    show (if converts (Str.cStr t) then _ else _) = _
    rw [if_pos hconverts]
    rfl

theorem bdecodeInteger_ne_undefined (s : Str) : bdecodeInteger s ≠ .error .undefined := by
  refine bind_ne_error (readUntil_ne_undefined _ _) fun p _ => ?_
  show (if converts (Str.cStr p.1) then _ else _) ≠ _
  split <;> simp [pure, Except.pure]

theorem bdecodeString_eq_ok_iff {s rest : Str} {e : Entry} : bdecodeString s = .ok (e, rest) ↔
    ∃ t value, s = t ++ ':' :: (value ++ rest) ∧ ':' ∉ t ∧ (atoi t).toNat = value.length ∧ e = .string value := by
  rw [bdecodeString, bind_eq_ok_iff]
  constructor
  · rintro ⟨⟨t, mid⟩, hread, hval⟩
    obtain ⟨⟨value, after⟩, hstring, hresult⟩ := bind_eq_ok_iff.mp hval
    obtain ⟨rfl, ht⟩ := readUntil_eq_ok_iff.mp hread
    obtain ⟨rfl, hlen⟩ := readString_eq_ok_iff.mp hstring
    obtain ⟨rfl, rfl⟩ := Prod.mk.inj (ok.inj hresult)
    exact ⟨t, value, rfl, ht, hlen, rfl⟩
  · rintro ⟨t, value, hs, ht, hlen, rfl⟩
    refine ⟨(t, value ++ rest), readUntil_eq_ok_iff.mpr ⟨hs, ht⟩, ?_⟩
    exact bind_eq_ok_iff.mpr ⟨(value, rest), readString_eq_ok_iff.mpr ⟨rfl, hlen⟩, rfl⟩

theorem bdecodeString_ne_undefined (s : Str) : bdecodeString s ≠ .error .undefined := by
  refine bind_ne_error (readUntil_ne_undefined _ _) fun p _ => ?_
  refine bind_ne_error ?_ fun q _ => by simp [pure, Except.pure]
  rw [readString]
  split <;> simp

/-! ### The levels -/

section Levels

variable {g : Spelling} {below : Str → Str → Prop} {cut : Str → Prop} {s rest : Str}

theorem startsText_append {t : Str} (ht : startsText t = true) (s : Str) : startsText (t ++ s) = true := by
  cases t with
  | nil => cases ht
  | cons c t => exact ht

theorem level_of_text (hs : startsText s = true) :
    Level g below s rest ↔ ∃ t value, s = t ++ ':' :: (value ++ rest) ∧ ':' ∉ t ∧ g.length t value.length := by
  constructor
  · intro h
    cases h with
    | text _ ht hlen => exact ⟨_, _, rfl, ht, hlen⟩
    | integer | list | dictionary | broken => exact absurd hs (by simp [startsText])
  · rintro ⟨t, value, rfl, ht, hlen⟩
    refine .text ?_ ht hlen
    cases t with
    | nil => cases hs
    | cons c t => exact hs

theorem level_cons {c : Char} (hc : c.isDigit = false) : Level g below (c :: s) rest ↔
    (c = 'i' ∧ ∃ t, s = t ++ 'e' :: rest ∧ 'e' ∉ t ∧ g.integer t) ∨ (c = 'l' ∧ ReflTransGen below s ('e' :: rest)) ∨
      (c = 'd' ∧ (ReflTransGen (Pair below) s ('e' :: rest) ∨
        (g.breaks ∧ ∃ key, ReflTransGen (Pair below) s key ∧ startsText key = false ∧ below key rest))) := by
  have hnot : ∀ t value, startsText t = true → c :: s ≠ t ++ ':' :: (value ++ rest) := by
    intro t value ht heq
    have htext := startsText_append ht (':' :: (value ++ rest))
    rw [← heq] at htext
    simp [startsText, hc] at htext
  rw [level_iff]
  constructor
  · rintro (⟨t, ht, hg, heq⟩ | ⟨t, value, htext, -, -, heq⟩ | ⟨s, hlist, heq⟩ | ⟨s, hdict, heq⟩ | ⟨s, key, hg, hkeys, htext, hkey, heq⟩)
    · obtain ⟨rfl, rfl⟩ := cons.inj heq
      exact .inl ⟨rfl, t, rfl, ht, hg⟩
    · exact absurd heq (hnot t value htext)
    · obtain ⟨rfl, rfl⟩ := cons.inj heq
      exact .inr (.inl ⟨rfl, hlist⟩)
    · obtain ⟨rfl, rfl⟩ := cons.inj heq
      exact .inr (.inr ⟨rfl, .inl hdict⟩)
    · obtain ⟨rfl, rfl⟩ := cons.inj heq
      exact .inr (.inr ⟨rfl, .inr ⟨hg, key, hkeys, htext, hkey⟩⟩)
  · rintro (⟨rfl, t, rfl, ht, hg⟩ | ⟨rfl, hlist⟩ | ⟨rfl, hdict | ⟨hg, key, hkeys, htext, hkey⟩⟩)
    · exact .inl ⟨t, ht, hg, rfl⟩
    · exact .inr (.inr (.inl ⟨s, hlist, rfl⟩))
    · exact .inr (.inr (.inr (.inl ⟨s, hdict, rfl⟩)))
    · exact .inr (.inr (.inr (.inr ⟨s, key, hg, hkeys, htext, hkey, rfl⟩)))

theorem cutLevel_cons {c : Char} : CutLevel below cut (c :: s) ↔
    (c = 'l' ∧ (s = [] ∨ ∃ part, ReflTransGen below s part ∧ cut part)) ∨
      (c = 'd' ∧ (s = [] ∨ ∃ key, ReflTransGen (Pair below) s key ∧
        (cut key ∨ ∃ part, startsText key = true ∧ below key part ∧ cut part))) := by
  constructor
  · intro h
    cases h with
    | list => exact .inl ⟨rfl, .inl rfl⟩
    | dictionary => exact .inr ⟨rfl, .inl rfl⟩
    | element hparts hcut => exact .inl ⟨rfl, .inr ⟨_, hparts, hcut⟩⟩
    | key hkeys hcut => exact .inr ⟨rfl, .inr ⟨_, hkeys, .inl hcut⟩⟩
    | value hkeys htext hkey hcut => exact .inr ⟨rfl, .inr ⟨_, hkeys, .inr ⟨_, htext, hkey, hcut⟩⟩⟩
  · rintro (⟨rfl, rfl | ⟨part, hparts, hcut⟩⟩ | ⟨rfl, rfl | ⟨key, hkeys, hcut | ⟨part, htext, hkey, hcut⟩⟩⟩)
    · exact .list
    · exact .element hparts hcut
    · exact .dictionary
    · exact .key hkeys hcut
    · exact .value hkeys htext hkey hcut

theorem length_le_of_steps {r : Str → Str → Prop} (hr : ∀ {s rest : Str}, r s rest → rest.length < s.length)
    (h : ReflTransGen r s rest) : rest.length ≤ s.length := by
  induction h with
  | refl => exact le_refl _
  | tail _ hstep ih => exact le_trans (le_of_lt (hr hstep)) ih

theorem Level.shorter (hbelow : ∀ {s rest : Str}, below s rest → rest.length < s.length) (h : Level g below s rest) :
    rest.length < s.length := by
  have hpair : ∀ {s rest : Str}, Pair below s rest → rest.length < s.length :=
    fun ⟨_, _, hkey, hvalue⟩ => lt_trans (hbelow hvalue) (hbelow hkey)
  cases h with
  | integer | text =>
    simp only [length_append, length_cons]
    omega
  | list hlist =>
    have hle := length_le_of_steps hbelow hlist
    simp only [length_cons] at hle ⊢
    omega
  | dictionary hdict =>
    have hle := length_le_of_steps hpair hdict
    simp only [length_cons] at hle ⊢
    omega
  | broken _ hkeys _ hkey =>
    have hle := length_le_of_steps hpair hkeys
    have hlt := hbelow hkey
    simp only [length_cons]
    omega

end Levels

theorem ReadsParts.cons {depth : Nat} {below : Str → Str → Prop} {cut : Str → Prop}
    (h : ReadsParts (bdecodeRecursive depth) below cut) (c : Char) (s : Str) :
    (∀ rest, (∃ e, bdecodeRecursive (depth + 1) (c :: s) = .ok (e, rest)) ↔ Level .accepted below (c :: s) rest) ∧
      (bdecodeRecursive (depth + 1) (c :: s) = .error .undefined ↔ CutLevel below cut (c :: s)) ∧
      ∀ {e rest}, bdecodeRecursive (depth + 1) (c :: s) = .ok (e, rest) →
        e ≠ .undefined ∧ ((∃ key, e = .string key) ↔ startsText (c :: s) = true) := by
  rw [bdecodeRecursive]
  split_ifs with hi hl hd hdigit
  · subst hi
    refine ⟨fun rest => ?_, by simp [bdecodeInteger_ne_undefined, cutLevel_cons], fun hs => ?_⟩
    · simp [level_cons, bdecodeInteger_eq_ok_iff, Spelling.accepted]
    · obtain ⟨t, -, -, -, rfl⟩ := bdecodeInteger_eq_ok_iff.mp hs
      simp [startsText]
  · subst hl
    obtain ⟨hok, hcut⟩ := h.bdecodeList_iff (lt_succ_self s.length) []
    refine ⟨fun rest => (hok rest).trans (by simp [level_cons]), hcut.trans (by simp [cutLevel_cons]), fun hs => ?_⟩
    obtain ⟨entries, rfl⟩ := bdecodeList_isList hs
    simp [startsText]
  · subst hd
    obtain ⟨hok, hcut⟩ := h.bdecodeDict_iff (lt_succ_self s.length) []
    refine ⟨fun rest => (hok rest).trans (by simp [level_cons, Spelling.accepted]), hcut.trans (by simp [cutLevel_cons]), fun hs => ?_⟩
    obtain ⟨entries, rfl⟩ := bdecodeDict_isDictionary hs
    simp [startsText]
  · refine ⟨fun rest => ?_, by simp [bdecodeString_ne_undefined, cutLevel_cons, hl, hd], fun hs => ?_⟩
    · simp [level_of_text (show startsText (c :: s) = true from hdigit), bdecodeString_eq_ok_iff, Spelling.accepted]
    · obtain ⟨t, value, -, -, -, rfl⟩ := bdecodeString_eq_ok_iff.mp hs
      simp [startsText, hdigit]
  · simp [level_cons (Bool.eq_false_iff.mpr hdigit), cutLevel_cons, hi, hl, hd]

theorem not_level_nil (g : Spelling) (below : Str → Str → Prop) (rest : Str) : ¬ Level g below [] rest := by
  simp [level_iff]

/-- What the reader does with a text: it reads a value of the accepted syntax, or the text is cut off, or there is an error. -/
theorem readsParts (depth : Nat) : ReadsParts (bdecodeRecursive depth) (Value .accepted depth) (CutOff depth) := by
  induction depth with
  | zero =>
    have herror : ∀ s, bdecodeRecursive 0 s = .error .err := fun s => by rw [bdecodeRecursive]
    exact ⟨by simp [herror, Value], by simp [herror, CutOff], by simp [herror], by simp [Value], herror _, fun _ => herror _⟩
  | succ depth ih =>
    refine ⟨fun s rest => ?_, fun s => ?_, fun {s rest e} hs => ?_, fun h => Level.shorter ih.shorter h, rfl, fun s => rfl⟩
    · cases s with
      | nil => exact iff_of_false (by simp [bdecodeRecursive]) (not_level_nil _ _ _)
      | cons c s => exact (ih.cons c s).1 rest
    · cases s with
      | nil => exact iff_of_false (by simp [bdecodeRecursive]) (by simp [CutOff, cutLevel_iff])
      | cons c s => exact (ih.cons c s).2.1
    · cases s with
      | nil => cases hs
      | cons c s => exact (ih.cons c s).2.2 hs

/-- What is asked of `bdecode`. -/
def DecodesSafely (s : Str) : Prop :=
  bdecode s ≠ .error .undefined ∧ ((∀ rest, ¬ Value .bencoded 100 s rest) → bdecode s = .ok .undefined)

/-- `bdecode` is safe if a text is not cut off, and begins with a bencoded value if it begins with one that is accepted. -/
theorem decodesSafely_iff (s : Str) : DecodesSafely s ↔
    ¬ CutOff 100 s ∧ ((∃ rest, Value .accepted 100 s rest) → ∃ rest, Value .bencoded 100 s rest) := by
  have h := readsParts 100
  rw [DecodesSafely, ← h.cut, bdecode]
  cases hs : bdecodeRecursive 100 s with
  | error stop =>
    have hnone : ¬ ∃ rest, Value .accepted 100 s rest := not_exists.mpr (h.not_below hs)
    cases stop <;> simp [hnone]
  | ok p =>
    have hsome : ∃ rest, Value .accepted 100 s rest := ⟨p.2, (h.ok _ _).mp ⟨p.1, hs⟩⟩
    have hdefined : p.1 ≠ .undefined := (h.text hs).1
    simp only [hsome]
    simp [hdefined]

/-- A list without an end, and a key that is a number. -/
theorem not_decodesSafely_cut :
    bdecode ['l'] = .error .undefined ∧ bdecode "di1ei2ee".toList = .ok (.dictionary []) ∧
      ∀ rest, ¬ Value .bencoded 100 "di1ei2ee".toList rest := by
  refine ⟨rfl, rfl, fun rest => ?_⟩
  show ¬ Level .bencoded (Value .bencoded 99) ('d' :: "i1ei2ee".toList) rest
  have hnone : ∀ x, ¬ Pair (Value .bencoded 99) "i1ei2ee".toList x := fun x hx => absurd hx.1 (by decide)
  have hbreaks : ¬ Spelling.bencoded.breaks := not_false
  rw [level_cons (by decide), steps_of_none hnone]
  simp [hbreaks]

end Avbot.Http
