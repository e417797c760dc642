import Avbot.Qqwry.MatchExp

/-!
# Comparing arrays

The strings that `match_exp` is given stand in larger arrays. What an array has behind the part that is read does not matter: with a longer array the result is the same, unless the shorter one is left.
-/

namespace Avbot.Qqwry

open List Fallible Wildcard
open UpTo (refl)

def Longer (E : Fault → Prop) (a a' : Str) : Prop := a' = a ∨ (E .outside ∧ ∃ b, a' = a ++ b)

def More (E : Fault → Prop) (n n' : Nat) : Prop := n' = n ∨ (E .unfinished ∧ n ≤ n')

section Compare

variable {E : Fault → Prop} {a a' e e' : Str} {n n' : Nat}

theorem More.zero (hn : More E 0 n') {β : Type} {x : Except Fault β} (hx : n' = 0 → x = .error .unfinished) :
    UpTo E (.error .unfinished) x := by
  rcases hn with rfl | ⟨hE, -⟩
  · rw [hx rfl]
    exact .refl _
  · exact .error hE

theorem More.succ (hn : More E (n + 1) n') : ∃ m, n' = m + 1 ∧ More E n m := by
  rcases hn with rfl | ⟨hE, hle⟩
  · exact ⟨n, rfl, .inl rfl⟩
  · obtain ⟨m, rfl⟩ := Nat.exists_eq_add_of_le' (Nat.le_trans (Nat.le_add_left 1 n) hle)
    exact ⟨m, rfl, .inr ⟨hE, Nat.le_of_succ_le_succ hle⟩⟩

theorem charAt_upTo (ha : Longer E a a') (i : Nat) : UpTo E (charAt a i) (charAt a' i) := by
  rcases ha with rfl | ⟨hE, b, rfl⟩
  · exact .refl _
  by_cases hi : i < a.length
  · exact .inr (by rw [charAt, charAt, List.getElem?_append_left hi])
  · rw [charAt, List.getElem?_eq_none (by omega)]
    exact .error hE

theorem advanceWhile_upTo (he : Longer E e e') (hn : More E n n') (inc : Nat → Except Fault Nat) (good : Char → Bool) (j : Nat) :
    UpTo E (advanceWhile inc good e n j) (advanceWhile inc good e' n' j) := by
  induction n generalizing n' j with
  | zero => exact hn.zero fun h => by rw [h]; rfl
  | succ n ih =>
    obtain ⟨m, rfl, hm⟩ := hn.succ
    rw [advanceWhile, advanceWhile]
    refine (charAt_upTo he j).bind fun c _ => .ite (fun _ => ?_) fun _ => .refl _
    exact (refl _).bind fun j _ => ih hm j

theorem lt_length_of_advanceWhile {inc : Nat → Except Fault Nat} {good : Char → Bool} {j k : Nat}
    (hk : advanceWhile inc good e n j = .ok k) : k < e.length := by
  induction n generalizing j with
  | zero => cases hk
  | succ n ih =>
    rw [advanceWhile, bind_eq_ok_iff] at hk
    obtain ⟨c, hc, hk⟩ := hk
    split at hk
    · rw [bind_eq_ok_iff] at hk
      obtain ⟨j, -, hk⟩ := hk
      exact ih hk
    · obtain rfl := Except.ok.inj hk
      exact (List.getElem?_eq_some_iff.mp (charAt_eq_ok_iff.mp hc)).1

theorem matchFront_upTo (ha : Longer E a a') (he : Longer E e e') (hn : More E n n') (i j : Nat) :
    UpTo E (matchFront a e n i j) (matchFront a' e' n' i j) := by
  induction n generalizing n' i j with
  | zero => exact hn.zero fun h => by rw [h]; rfl
  | succ n ih =>
    obtain ⟨m, rfl, hm⟩ := hn.succ
    rw [matchFront, matchFront]
    refine (charAt_upTo ha i).bind fun c _ => .ite (fun _ => .refl _) fun _ => ?_
    refine (charAt_upTo he j).bind fun d _ => .ite (fun _ => .refl _) fun _ => .ite (fun _ => .refl _) fun _ => ?_
    exact (refl _).bind fun i _ => (refl _).bind fun j _ => ih hm i j

theorem searchInner_upTo (ha : Longer E a a') (hn : More E n n') (t : Str) (it j : Nat) :
    UpTo E (searchInner t a n it j) (searchInner t a' n' it j) := by
  induction n generalizing n' it j with
  | zero => exact hn.zero fun h => by rw [h]; rfl
  | succ n ih =>
    obtain ⟨m, rfl, hm⟩ := hn.succ
    rw [searchInner, searchInner]
    refine .ite (fun _ => .refl _) fun _ => ?_
    refine (charAt_upTo ha it).bind fun c _ => .ite (fun _ => .refl _) fun _ => ?_
    refine (refl _).bind fun d _ => .ite (fun _ => ?_) fun _ => .refl _
    exact (refl _).bind fun it _ => ih hm it (j + 1)

theorem searchOuter_upTo (ha : Longer E a a') (hn : More E n n') (t : Str) {r r' : Nat} (hr : More E r r') (si : Nat) :
    UpTo E (searchOuter n t a r si) (searchOuter n' t a' r' si) := by
  induction r generalizing r' si with
  | zero => exact hr.zero fun h => by rw [h]; rfl
  | succ r ih =>
    obtain ⟨m, rfl, hm⟩ := hr.succ
    rw [searchOuter, searchOuter]
    refine (charAt_upTo ha si).bind fun c _ => .ite (fun _ => .refl _) fun _ => ?_
    exact (searchInner_upTo ha hn t _ 0).bind fun r _ => .ite (fun _ => .refl _) fun _ => ih hm (si + 1)

theorem take_drop_eq (he : Longer E e e') {j jt : Nat} (hjt : jt < e.length) :
    (e'.drop j).take (jt - j) = (e.drop j).take (jt - j) := by
  rcases he with rfl | ⟨-, b, rfl⟩
  · rfl
  by_cases hj : j ≤ e.length
  · rw [drop_append_of_le_length hj, take_append_of_le_length (by rw [length_drop]; omega)]
  · rw [show jt - j = 0 by omega, take_zero, take_zero]

theorem matchSegments_upTo (ha : Longer E a a') (he : Longer E e e') (hn : More E n n') {r r' : Nat} (hr : More E r r')
    (i j jt : Nat) (lastSubstr : Str) :
    UpTo E (matchSegments n a e r i j jt lastSubstr) (matchSegments n' a' e' r' i j jt lastSubstr) := by
  induction r generalizing r' i j jt lastSubstr with
  | zero => exact hr.zero fun h => by rw [h]; rfl
  | succ r ih =>
    obtain ⟨m, rfl, hm⟩ := hr.succ
    rw [matchSegments, matchSegments]
    refine (charAt_upTo he jt).bind fun c _ => .ite (fun _ => .refl _) fun _ => ?_
    refine (advanceWhile_upTo he hn _ _ j).bind fun j _ => ?_
    refine (charAt_upTo he j).bind fun c _ => .ite (fun _ => .refl _) fun _ => ?_
    refine (advanceWhile_upTo he hn _ _ j).bind fun jt hjt => ?_
    rw [take_drop_eq he (lt_length_of_advanceWhile hjt)]
    refine (searchOuter_upTo ha hn _ hn i).bind fun found _ => ?_
    cases found with
    | none => exact .refl _
    | some r => exact ih hm r.2 jt jt _

theorem matchLast_upTo (ha : Longer E a a') (hn : More E n n') (t : Str) (i j : Nat) :
    UpTo E (matchLast a t n i j) (matchLast a' t n' i j) := by
  induction n generalizing n' i j with
  | zero => exact hn.zero fun h => by rw [h]; rfl
  | succ n ih =>
    obtain ⟨m, rfl, hm⟩ := hn.succ
    rw [matchLast, matchLast]
    refine .ite (fun _ => .refl _) fun _ => (refl _).bind fun d _ => .ite (fun _ => ?_) fun _ => ?_
    · exact (refl _).bind fun i _ => (refl _).bind fun j _ => ih hm i j
    · refine (charAt_upTo ha i).bind fun c _ => .ite (fun _ => .refl _) fun _ => ?_
      exact (refl _).bind fun i _ => (refl _).bind fun j _ => ih hm i j

theorem takeWhile_append_of_mem (hzero : '\x00' ∈ a) (b : Str) :
    (a ++ b).takeWhile (· ≠ '\x00') = a.takeWhile (· ≠ '\x00') := by
  rw [takeWhile_append, if_neg]
  intro hlength
  have hall := ( takeWhile_prefix (fun c => decide (c ≠ '\x00')) (l := a)).eq_of_length hlength
  simpa using takeWhile_eq_self_iff.mp hall '\x00' hzero

theorem strlen_upTo (ha : Longer E a a') : UpTo E (strlen a) (strlen a') := by
  rcases ha with rfl | ⟨hE, b, rfl⟩
  · exact .refl _
  by_cases hzero : '\x00' ∈ a
  · rw [strlen, strlen, if_pos hzero, if_pos (mem_append_left b hzero), takeWhile_append_of_mem hzero]
    exact .refl _
  · rw [strlen, if_neg hzero]
    exact .error hE

theorem matchEnd_upTo (ha : Longer E a a') (he : Longer E e e') (hn : More E n n') (found : Option (Nat × Str)) :
    UpTo E (matchEnd n a e found) (matchEnd n' a' e' found) := by
  cases found with
  | none => exact .refl _
  | some r =>
    refine (charAt_upTo he _).bind fun c _ => .ite (fun _ => .refl _) fun _ => ?_
    exact (strlen_upTo ha).bind fun length _ => matchLast_upTo ha hn r.2 _ 0

theorem matchRest_upTo (ha : Longer E a a') (he : Longer E e e') (hn : More E n n') (front : Option (Nat × Nat)) :
    UpTo E (matchRest n a e front) (matchRest n' a' e' front) := by
  cases front with
  | none => exact .refl _
  | some r =>
    refine (charAt_upTo ha _).bind fun c _ => .ite (fun _ => ?_) fun _ => ?_
    · exact (advanceWhile_upTo he hn _ _ _).bind fun j _ => (charAt_upTo he j).bind fun _ _ => .refl _
    · refine (charAt_upTo he _).bind fun d _ => .ite (fun _ => .refl _) fun _ => ?_
      exact (matchSegments_upTo ha he hn hn _ _ _ []).bind fun found _ => matchEnd_upTo ha he hn found

theorem matchExp_upTo (ha : Longer E a a') (he : Longer E e e') (hn : More E n n') :
    UpTo E (matchExp n a e) (matchExp n' a' e') := by
  refine (charAt_upTo ha 0).bind fun c _ => .ite (fun _ => ?_) fun _ => ?_
  · exact (advanceWhile_upTo he hn _ _ 0).bind fun j _ => (charAt_upTo he j).bind fun _ _ => .refl _
  · refine (charAt_upTo he 0).bind fun d _ => .ite (fun _ => .refl _) fun _ => ?_
    exact (matchFront_upTo ha he hn 0 0).bind fun front _ => matchRest_upTo ha he hn front

end Compare

def arrayText (a : Str) : CString where
  text := a.takeWhile (· ≠ '\x00')
  noZero c hc := by simpa using mem_takeWhile_imp hc

theorem length_arrayText_le (a : Str) : (arrayText a).text.length ≤ a.length :=
  ( takeWhile_prefix _).length_le

theorem exists_array_append (a : Str) : ∃ rest, a ++ ['\x00'] = (arrayText a).array ++ rest := by
  have hsplit := takeWhile_append_dropWhile (p := fun c => decide (c ≠ '\x00')) (l := a)
  change ∃ rest, a ++ ['\x00'] = a.takeWhile (· ≠ '\x00') ++ ['\x00'] ++ rest
  by_cases hnil : a.dropWhile (· ≠ '\x00') = []
  · rw [hnil, append_nil] at hsplit
    exact ⟨[], by rw [hsplit, append_nil]⟩
  · have hhead := head_dropWhile_not (fun c => decide (c ≠ '\x00')) hnil
    obtain ⟨c, rest, hrest⟩ := exists_cons_of_ne_nil hnil
    simp only [hrest, head_cons] at hhead
    refine ⟨rest ++ ['\x00'], ?_⟩
    rw [hrest, show c = '\x00' by simpa using hhead] at hsplit
    conv_lhs => rw [← hsplit]
    simp

variable {fuel : Nat} {pattern : CString}

theorem matchExp_arrays (a e : Str) (ha : a.length < 4294967296) (he : e.length < intLimit)
    (hfuel : a.length + e.length < fuel) :
    matchExp fuel a e = .error .outside ∨
      ∃ b, matchExp fuel a e = .ok b ∧ (b = true ↔ WildcardMatch (arrayText a).text (arrayText e).text) := by
  obtain ⟨restA, hA⟩ := exists_array_append a
  obtain ⟨restE, hE⟩ := exists_array_append e
  have hlengthA := length_arrayText_le a
  have hlengthE := length_arrayText_le e
  have hstars := ( takeWhile_prefix (fun c => decide (c = '*')) (l := (arrayText e).text)).length_le
  rw [intLimit] at he
  obtain ⟨b, hb, hiff⟩ := matchExp_spec (arrayText a) (arrayText e) (by omega) (by omega)
    (fun _ => by rw [intLimit]; omega) (show _ < fuel by omega)
  have hlong : matchExp fuel (a ++ ['\x00']) (e ++ ['\x00']) = .ok b := by
    rcases matchExp_upTo (E := (· = .outside)) (.inr ⟨rfl, restA, hA⟩) (.inr ⟨rfl, restE, hE⟩) (.inl rfl) (n := fuel) with
      ⟨err, -, herr⟩ | heq
    · rw [hb] at herr
      cases herr
    · rw [← heq, hb]
  rcases matchExp_upTo (E := (· = .outside)) (.inr ⟨rfl, _, rfl⟩) (.inr ⟨rfl, _, rfl⟩) (.inl rfl) (n := fuel) with
    ⟨err, rfl, herr⟩ | heq
  · exact .inl herr
  · exact .inr ⟨b, heq.trans hlong, hiff⟩

def matchResult (a e : Str) : Except Fault Bool := matchExp (a.length + e.length + 1) a e

theorem matchResult_spec {a e : Str} (ha : a.length < 4294967296) (he : e.length < intLimit) :
    matchResult a e = .error .outside ∨
      ∃ b, matchResult a e = .ok b ∧ (b = true ↔ WildcardMatch (arrayText a).text (arrayText e).text) :=
  matchExp_arrays a e ha he (Nat.lt_succ_self _)

theorem matchExp_eq_matchResult {a e : Str} (ha : a.length < 4294967296) (he : e.length < intLimit)
    (hfuel : a.length + e.length < fuel) : matchExp fuel a e = matchResult a e := by
  rcases matchExp_upTo (E := (· = .unfinished)) (.inl rfl) (.inl rfl) (.inr ⟨rfl, hfuel⟩) (a := a) (e := e) with
    ⟨err, rfl, herr⟩ | heq
  · rcases matchResult_spec ha he with hout | ⟨b, hb, -⟩
    · cases herr.symm.trans hout
    · cases herr.symm.trans hb
  · exact heq.symm

def patternArray (pattern : CString) : Str := (pattern.text ++ List.replicate arraySize '\x00').take arraySize

theorem length_patternArray (pattern : CString) : (patternArray pattern).length = arraySize := by
  rw [patternArray, length_take, length_append, length_replicate]
  omega

end Avbot.Qqwry
