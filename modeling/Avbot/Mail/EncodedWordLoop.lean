import Avbot.Mail.EncodedWord
import Mathlib.Data.Nat.Find

/-!
# When `imf_base64inline_decode` returns

After the first round the loop looks for a question mark, a letter and a question mark, and finds the last such word of the text. If there is one before it, the groups of `what2` are read, which point into a string that is gone. If there is none, the whole text becomes `decodeerror`, and the next round is the last.
-/

namespace Avbot

open List Option Pattern

namespace Str

structure LastWord (s front : Str) (letter : Char) (rest : Str) : Prop where
  split : s = front ++ '?' :: letter :: '?' :: rest
  letter_ne : letter ≠ '?'
  last : ∀ front' letter' rest', s = front' ++ '?' :: letter' :: '?' :: rest' → letter' ≠ '?' → front'.length ≤ front.length

variable {s front rest : Str} {letter : Char}

theorem LastWord.ne_nil (hword : LastWord s front letter rest) : s ≠ [] := by
  rw [hword.split]
  simp

theorem exists_lastWord (hs : HasWord s) : ∃ front letter rest, LastWord s front letter rest := by
  classical
  let P := fun k => ∃ front letter rest, s = front ++ '?' :: letter :: '?' :: rest ∧ letter ≠ '?' ∧ front.length = k
  have hle : ∀ {k}, P k → k ≤ s.length := by
    rintro k ⟨front, letter, rest, rfl, _, rfl⟩
    simp
  obtain ⟨pre, c, post, hsplit, hc⟩ := hs
  have hP : P pre.length := ⟨pre, c, post, hsplit, hc, rfl⟩
  obtain ⟨front, letter, rest, hfront, hletter, hlength⟩ := Nat.findGreatest_spec (hle hP) hP
  refine ⟨front, letter, rest, hfront, hletter, fun front' letter' rest' hsplit' hletter' => ?_⟩
  have hP' : P front'.length := ⟨front', letter', rest', hsplit', hletter', rfl⟩
  rw [hlength]
  exact Nat.le_findGreatest (hle hP') hP'

theorem cStr_replaceAll {t sub : Str} (hne : cStr t ≠ []) (hsub : '\x00' ∉ sub) :
    cStr (replaceAll t (cStr t) sub) = sub := by
  have hnul := nul_not_mem_cStr t
  have hsplit : cStr t ++ t.dropWhile (· ≠ '\x00') = t := takeWhile_append_dropWhile
  have hreplace : replaceAll t (cStr t) sub = sub ++ replaceAll (t.dropWhile (· ≠ '\x00')) (cStr t) sub := by
    rw [← replaceAll_append hne, hsplit]
  have hrest : cStr (replaceAll (t.dropWhile (· ≠ '\x00')) (cStr t) sub) = [] := by
    cases hdrop : t.dropWhile (· ≠ '\x00') with
    | nil =>
      rw [replaceAll, if_neg hne]
      rfl
    | cons c u =>
      have hc : c = '\x00' := by
        have hhead := List.head?_dropWhile_not (· ≠ '\x00') t
        rw [hdrop] at hhead
        simpa using hhead
      have hmiss : ¬ cStr t <+: c :: u := by
        rintro ⟨v, hv⟩
        cases hfront : cStr t with
        | nil => exact hne hfront
        | cons d w =>
          rw [hfront, cons_append, List.cons.injEq] at hv
          rw [hfront, hv.1, hc] at hnul
          simp at hnul
      rw [replaceAll_cons hmiss, hc]
      rfl
  rw [hreplace, cStr_append_of_not_mem hsub, hrest, append_nil]

end Str

namespace Imf

theorem search_wordRegex {s front rest : Str} {letter : Char} (hword : Str.LastWord s front letter rest) :
    wordRegex.search s = some [s, front, [letter], rest] := by
  have hlengths : ∀ k, k ∈ (Item.many fun _ : Char => true).lengths s ↔ k ≤ s.length := by
    intro k
    rw [Item.mem_lengths]
    simp [Item.Fits, Item.many]
  have hlast : matchFront (fun _ => true) [Item.many fun _ : Char => true] rest = some ([rest], []) := by
    have hgreedy := @matchFront_greedy Char (fun _ => true) (Item.many fun _ => true) [] [] rest ([], []) rfl rfl
      (by simp [Item.many]) (by simp [Item.many]) (by simp) rfl
    simpa using hgreedy
  have hafter : matchFront (fun _ => true)
      [Item.one (· == '?'), Item.one (· != '?'), Item.one (· == '?'), Item.many fun _ => true] (s.drop front.length) =
        some ([['?'], [letter], ['?'], rest], []) := by
    rw [hword.split, drop_left, matchFront_one (by simp), matchFront_one (by simpa using hword.letter_ne),
      matchFront_one (by simp), hlast]
    rfl
  have hfront : s.take front.length = front := by rw [hword.split, take_left]
  have hmatch := @matchFront_longest Char (fun _ => true) (Item.many fun _ => true) _ s front.length _ rfl
    ((hlengths _).mpr (by rw [hword.split, length_append]; omega)) hafter ?_
  · rw [hfront] at hmatch
    have hsearch : wordRegex.search s = _ := Regex.search_of_matchFront hmatch
    rw [hsearch]
    simp [Regex.what, wordRegex, hword.split]
  · -- a later match would be a later word
    intro j hj hlt
    by_contra hsome
    obtain ⟨⟨ts, left⟩, hsome⟩ := ne_none_iff_exists'.mp hsome
    obtain ⟨hdrop, _, hfits⟩ := matchFront_sound hsome
    obtain _ | ⟨h₁, _ | ⟨h₂, _ | ⟨h₃, _⟩⟩⟩ := hfits
    obtain rfl := Item.fits_one_eq_iff.mp h₁
    obtain ⟨b, rfl, hb⟩ := Item.fits_one_iff.mp h₂
    obtain rfl := Item.fits_one_eq_iff.mp h₃
    rename_i last _
    have hsplit : s = s.take j ++ '?' :: b :: '?' :: (last.flatten ++ left) := by
      have hjoin := take_append_drop j s
      rw [hdrop] at hjoin
      simpa using hjoin.symm
    have hle := hword.last _ _ _ hsplit (by simpa using hb)
    rw [length_take, Nat.min_eq_left ((hlengths j).mp hj)] at hle
    omega

section Round

variable {n : Nat} {t front rest : Str} {letter : Char}

theorem cStr_front (hword : Str.LastWord (Str.cStr t) front letter rest) : Str.cStr front = front := by
  have hnul := Str.nul_not_mem_cStr t
  rw [hword.split] at hnul
  exact Str.cStr_eq_self_iff.mpr fun hmem => hnul (mem_append_left _ hmem)

theorem decodeLoop_no_word (hword : ¬ Str.HasWord (Str.cStr t)) : decodeLoop (n + 1) wordRegex t = some (.ok t) := by
  rw [decodeLoop, search_wordRegex_of_not hword]

theorem decodeLoop_one_word (hword : Str.LastWord (Str.cStr t) front letter rest) (hfront : ¬ Str.HasWord front) :
    decodeLoop (n + 1) wordRegex t =
      decodeLoop n wordRegex (Str.replaceAll t (Str.cStr t) "decodeerror".toList) := by
  rw [decodeLoop, search_wordRegex hword]
  simp only [getD_cons_zero, getD_cons_succ]
  rw [cStr_front hword, search_wordRegex_of_not hfront]

theorem decodeLoop_two_words (hword : Str.LastWord (Str.cStr t) front letter rest) (hfront : Str.HasWord front) :
    decodeLoop (n + 1) wordRegex t = some (.error .undefined) := by
  obtain ⟨charset, encode, text, hsecond⟩ := Str.exists_lastWord hfront
  rw [decodeLoop, search_wordRegex hword]
  simp only [getD_cons_zero, getD_cons_succ]
  rw [cStr_front hword, search_wordRegex hsecond]

end Round

/-- Before the last word of the text there is another one. -/
def ReadsFreed (s : Str) : Prop := ∃ front letter rest, Str.LastWord s front letter rest ∧ Str.HasWord front

theorem decodeLoop_returns {t : Str} (hfreed : ¬ ReadsFreed (Str.cStr t)) : ∃ r, decodeLoop 2 wordRegex t = some (.ok r) := by
  by_cases hs : Str.HasWord (Str.cStr t)
  · obtain ⟨front, letter, rest, hword⟩ := Str.exists_lastWord hs
    have hfront : ¬ Str.HasWord front := fun h => hfreed ⟨front, letter, rest, hword, h⟩
    -- the text becomes `decodeerror`, which has no word
    have hnext : Str.cStr (Str.replaceAll t (Str.cStr t) "decodeerror".toList) = "decodeerror".toList :=
      Str.cStr_replaceAll hword.ne_nil (by decide)
    have hnone : ¬ Str.HasWord "decodeerror".toList := not_hasWord_of_search (by decide)
    exact ⟨_, by rw [decodeLoop_one_word hword hfront, decodeLoop_no_word (by rw [hnext]; exact hnone)]⟩
  · exact ⟨t, decodeLoop_no_word hs⟩

theorem decodeLoop_of_readsFreed {t : Str} (hfreed : ReadsFreed (Str.cStr t)) (n : Nat) :
    decodeLoop (n + 1) wordRegex t = some (.error .undefined) := by
  obtain ⟨front, letter, rest, hword, hfront⟩ := hfreed
  exact decodeLoop_two_words hword hfront

/-- The function returns unless the first expression is found and the text that is left of it has two words: then it reads characters of a string that is gone. -/
theorem imfBase64inlineDecode_returns_iff (str : Str) :
    (∃ n r, imfBase64inlineDecode n str = some (.ok r)) ↔
      ∀ what, encodedRegex.search (Str.cStr str) = some what →
        ¬ ReadsFreed (Str.cStr (Str.replaceAll str (what.getD 0 []) "decodeerror".toList)) := by
  cases hsearch : encodedRegex.search (Str.cStr str) with
  | none =>
    have hround : imfBase64inlineDecode 1 str = some (.ok str) := by
      rw [imfBase64inlineDecode, decodeLoop, hsearch]
    constructor
    · intro _ what hwhat
      cases hwhat
    · intro _
      exact ⟨1, str, hround⟩
  | some what =>
    have hround := fun n => imfBase64inlineDecode_of_some (n := n) hsearch
    constructor
    · intro hreturns what' hwhat hfreed
      obtain rfl : what = what' := some.inj hwhat
      obtain ⟨n, r, hr⟩ := hreturns
      cases n with
      | zero => cases hr
      | succ n =>
        rw [hround] at hr
        cases n with
        | zero => cases hr
        | succ n =>
          rw [decodeLoop_of_readsFreed hfreed] at hr
          cases hr
    · intro hfreed
      obtain ⟨r, hr⟩ := decodeLoop_returns (hfreed what rfl)
      exact ⟨3, r, by rw [hround]; exact hr⟩

/-- Two words are left behind the first one: the second round reads the letter of a string that is gone. -/
theorem imfBase64inlineDecode_never_returns :
    (∀ n, imfBase64inlineDecode (n + 2) "=?a?=?Q??Q?".toList = some (.error .undefined)) ∧
      (∀ n, processLine (n + 2) "subject: =?a?=?Q??Q?".toList = some (.error .undefined)) ∧
      ¬ ∃ n r, imfBase64inlineDecode n "=?a?=?Q??Q?".toList = some (.ok r) := by
  have hvalue : ∀ n, imfBase64inlineDecode (n + 2) "=?a?=?Q??Q?".toList = some (.error .undefined) := fun _ => rfl
  refine ⟨hvalue, fun _ => rfl, ?_⟩
  intro hreturns
  obtain ⟨n, r, hr⟩ := hreturns
  rcases n with _ | _ | n
  · cases hr
  · cases hr
  · rw [hvalue n] at hr
    cases hr

end Imf

end Avbot
