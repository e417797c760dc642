/-!
# UTF-16

A unit outside the surrogates stands for itself, and two surrogates in the right order stand for a character from 0x10000 on.
-/

namespace Utf16

open List Char Option

def Single (u : Nat) : Prop := u < 0xD800 ∨ 0xDFFF < u ∧ u < 0x10000

instance (u : Nat) : Decidable (Single u) := inferInstanceAs (Decidable (_ ∨ _))

def Pair (u v : Nat) : Prop := 0xD800 ≤ u ∧ u < 0xDC00 ∧ 0xDC00 ≤ v ∧ v < 0xE000

instance (u v : Nat) : Decidable (Pair u v) := inferInstanceAs (Decidable (_ ∧ _))

def decode : List Nat → Option (List Char)
  | [] => some []
  | [u] => if Single u then some [ofNat u] else none
  | u :: v :: us =>
    if Single u then (decode (v :: us)).map (ofNat u :: ·)
    else if Pair u v then (decode us).map (ofNat (0x10000 + (u - 0xD800) * 0x400 + (v - 0xDC00)) :: ·)
    else none

variable {u : Nat} {cs : List Char}

theorem toNat_ofNat_of_single (hu : Single u) : (ofNat u).toNat = u := by
  have hvalid : u.isValidChar := by
    rcases hu with hlow | ⟨hlow, hhigh⟩
    · exact .inl hlow
    · exact .inr ⟨hlow, by omega⟩
  rw [ofNat, dif_pos hvalid]
  rfl

theorem single_toNat {c : Char} (hc : c.toNat < 0x10000) : Single c.toNat := by
  rcases c.valid with hlow | ⟨hlow, -⟩
  · exact .inl hlow
  · exact .inr ⟨hlow, hc⟩

theorem decode_cons_of_single (hu : Single u) (us : List Nat) : decode (u :: us) = (decode us).map (ofNat u :: ·) := by
  cases us with
  | nil =>
    show decode [u] = some [ofNat u]
    rw [decode, if_pos hu]
  | cons v us => rw [decode, if_pos hu]

theorem decode_map_toNat (hcs : ∀ c ∈ cs, c.toNat < 0x10000) : decode (cs.map toNat) = some cs := by
  induction cs with
  | nil => rfl
  | cons c cs ih =>
    have hc := single_toNat (hcs c mem_cons_self)
    rw [map_cons, decode_cons_of_single hc, ih fun d hd => hcs d (mem_cons_of_mem c hd), map_some, ofNat_toNat]

theorem length_of_decode {us : List Nat} (hdecode : decode us = some cs) :
    cs.length ≤ us.length ∧ (cs.length = us.length → ∀ c ∈ cs, c.toNat < 0x10000) := by
  induction us using decode.induct generalizing cs with
  | case1 =>
    cases hdecode
    simp
  | case2 u hu =>
    rw [decode, if_pos hu] at hdecode
    cases hdecode
    refine ⟨Nat.le_refl 1, fun _ c hc => ?_⟩
    obtain rfl := mem_singleton.mp hc
    rw [toNat_ofNat_of_single hu]
    unfold Single at hu
    omega
  | case3 u hu =>
    rw [decode, if_neg hu] at hdecode
    cases hdecode
  | case4 u v us hu ih =>
    rw [decode, if_pos hu] at hdecode
    obtain ⟨ds, hds, rfl⟩ := map_eq_some_iff.mp hdecode
    obtain ⟨hle, hall⟩ := ih hds
    refine ⟨Nat.succ_le_succ hle, fun hlen c hc => ?_⟩
    rcases mem_cons.mp hc with rfl | hc
    · rw [toNat_ofNat_of_single hu]
      unfold Single at hu
      omega
    · exact hall (Nat.succ.inj hlen) c hc
  | case5 u v us hu hpair ih =>
    rw [decode, if_neg hu, if_pos hpair] at hdecode
    obtain ⟨ds, hds, rfl⟩ := map_eq_some_iff.mp hdecode
    have hle := (ih hds).1
    simp only [length_cons]
    exact ⟨by omega, fun hlen => by omega⟩
  | case6 u v us hu hpair =>
    rw [decode, if_neg hu, if_neg hpair] at hdecode
    cases hdecode

end Utf16
