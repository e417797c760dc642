import Avbot.Mail.Imf

/-!
# The decoding of encoded words

The expression that starts `imf_base64inline_decode` finds `=?`, at most one character and `?=`, so never an encoded word as `imf_base64inline_encode` writes it. Where it does find something, the text is changed for good.
-/

namespace Avbot

open List Option Pattern
open Item (fits_one_eq_iff fits_one_iff)

namespace Str

theorem replaceAllFrom_skip (pat sub s : Str) (skip : Nat) :
    replaceAllFrom pat sub skip s = replaceAllFrom pat sub 0 (s.drop skip) := by
  induction s generalizing skip with
  | nil => cases skip <;> simp [replaceAllFrom]
  | cons c s ih =>
    cases skip with
    | zero => rfl
    | succ skip =>
      rw [replaceAllFrom, ih, drop_succ_cons]

theorem replaceAll_induction {pat sub : Str} (hpat : pat ≠ []) {P : Str → Str → Prop} (hnil : P [] [])
    (hhit : ∀ s r, P s r → P (pat ++ s) (sub ++ r)) (hmiss : ∀ c s r, ¬ pat <+: c :: s → P s r → P (c :: s) (c :: r))
    (s : Str) : P s (replaceAll s pat sub) := by
  rw [replaceAll, if_neg hpat]
  induction hlength : s.length using Nat.strongRecOn generalizing s with
  | ind n ih =>
    match s with
    | [] => exact hnil
    | c :: s =>
      rw [replaceAllFrom]
      split
      case isTrue hfound =>
        obtain ⟨rest, hrest⟩ := isPrefixOf_iff_prefix.mp hfound
        obtain ⟨d, pat, rfl⟩ := exists_cons_of_ne_nil hpat
        obtain ⟨rfl, hs⟩ : d = c ∧ pat ++ rest = s := by simpa using hrest
        have hdrop : s.drop ((d :: pat).length - 1) = rest := by simp [← hs]
        rw [replaceAllFrom_skip, hdrop, ← hrest]
        refine hhit rest _ (ih rest.length ?_ rest rfl)
        rw [← hlength, ← hs, length_cons, length_append]
        omega
      case isFalse hfound =>
        refine hmiss c s _ (fun h => hfound ( isPrefixOf_iff_prefix.mpr h)) (ih s.length ?_ s rfl)
        rw [← hlength, length_cons]
        omega

variable {pat sub s : Str}

theorem replaceAll_append (hpat : pat ≠ []) (t : Str) : replaceAll (pat ++ t) pat sub = sub ++ replaceAll t pat sub := by
  rw [replaceAll, if_neg hpat, replaceAll, if_neg hpat]
  obtain ⟨c, pat, rfl⟩ := exists_cons_of_ne_nil hpat
  have hfound : (c :: pat).isPrefixOf (c :: (pat ++ t)) := isPrefixOf_iff_prefix.mpr ⟨t, rfl⟩
  rw [cons_append, replaceAllFrom, if_pos hfound, replaceAllFrom_skip]
  simp

variable {c : Char} {t : Str}

theorem replaceAll_cons (hmiss : ¬ pat <+: c :: s) : replaceAll (c :: s) pat sub = c :: replaceAll s pat sub := by
  have hpat : pat ≠ [] := by
    rintro rfl
    exact hmiss nil_prefix
  rw [replaceAll, if_neg hpat, replaceAll, if_neg hpat, replaceAllFrom,
    if_neg fun h => hmiss ( isPrefixOf_iff_prefix.mp h)]

theorem mem_replaceAll (hc : c ∈ replaceAll s pat sub) : c ∈ sub ∨ c ∈ s := by
  by_cases hpat : pat = []
  · rw [replaceAll, if_pos hpat] at hc
    exact .inr hc
  refine replaceAll_induction (P := fun s r => c ∈ r → c ∈ sub ∨ c ∈ s) hpat (by simp) ?_ ?_ s hc
  · intro s r ih hc
    rcases mem_append.mp hc with hc | hc
    · exact .inl hc
    · exact (ih hc).imp_right (mem_append_right pat)
  · intro d s r _ ih hc
    rcases mem_cons.mp hc with rfl | hc
    · exact .inr mem_cons_self
    · exact (ih hc).imp_right (mem_cons_of_mem d)

theorem count_replaceAll_lt (hpat : pat ≠ []) (hc : c ∈ pat) (hsub : c ∉ sub) (hs : pat <:+: s) :
    (replaceAll s pat sub).count c < s.count c := by
  refine (replaceAll_induction (P := fun s r => r.count c ≤ s.count c ∧ (pat <:+: s → r.count c < s.count c))
    hpat ?_ ?_ ?_ s).2 hs
  · exact ⟨le_rfl, fun h => absurd (eq_nil_of_infix_nil h) hpat⟩
  · intro s r ih
    have hpos := count_pos_iff.mpr hc
    rw [count_append, count_append, count_eq_zero.mpr hsub]
    exact ⟨by omega, fun _ => by omega⟩
  · intro d s r hmiss ih
    rw [count_cons, count_cons]
    refine ⟨by omega, fun h => ?_⟩
    have hlt := ih.2 ((infix_cons_iff.mp h).resolve_left hmiss)
    omega

def HasWord (s : Str) : Prop := ∃ pre c post, s = pre ++ '?' :: c :: '?' :: post ∧ c ≠ '?'

theorem hasWord_cons {s : Str} : HasWord (c :: s) ↔ (c = '?' ∧ ∃ d t, d ≠ '?' ∧ s = d :: '?' :: t) ∨ HasWord s := by
  constructor
  · rintro ⟨pre, d, post, heq, hd⟩
    cases pre with
    | nil =>
      rw [nil_append, cons.injEq] at heq
      exact .inl ⟨heq.1, d, post, hd, heq.2⟩
    | cons e pre =>
      rw [cons_append, cons.injEq] at heq
      exact .inr ⟨pre, d, post, heq.2, hd⟩
  · rintro (⟨rfl, d, t, hd, rfl⟩ | ⟨pre, d, post, rfl, hd⟩)
    · exact ⟨[], d, t, rfl, hd⟩
    · exact ⟨c :: pre, d, post, rfl, hd⟩

theorem hasWord_append_left {s : Str} (t : Str) (hs : HasWord s) : HasWord (t ++ s) := by
  obtain ⟨pre, c, post, rfl, hc⟩ := hs
  exact ⟨t ++ pre, c, post, by simp, hc⟩

theorem hasWord_append_right {s : Str} (t : Str) (hs : HasWord s) : HasWord (s ++ t) := by
  obtain ⟨pre, c, post, rfl, hc⟩ := hs
  exact ⟨pre, c, post ++ t, by simp, hc⟩

theorem hasWord_of_append {s : Str} (ht : '?' ∉ t) (hs : HasWord (t ++ s)) : HasWord s := by
  induction t with
  | nil => exact hs
  | cons c t ih =>
    rw [mem_cons, not_or] at ht
    rcases hasWord_cons.mp hs with ⟨rfl, _⟩ | hs
    · exact absurd rfl ht.1
    · exact ih ht.2 hs

theorem hasWord_reverse {s : Str} (hs : HasWord s) : HasWord s.reverse := by
  obtain ⟨pre, c, post, rfl, hc⟩ := hs
  exact ⟨post.reverse, c, pre.reverse, by simp, hc⟩

theorem hasWord_of_append_right {s : Str} (ht : '?' ∉ t) (hs : HasWord (s ++ t)) : HasWord s := by
  have hreverse := hasWord_reverse hs
  rw [reverse_append] at hreverse
  simpa using hasWord_reverse (hasWord_of_append (by simpa using ht) hreverse)

theorem hasWord_of_replaceAll (hpat : pat ≠ []) (hword : HasWord (replaceAll s pat "decodeerror".toList)) : HasWord s := by
  refine (replaceAll_induction (P := fun s r => (HasWord r → HasWord s) ∧ (∀ t, r = '?' :: t → ∃ t', s = '?' :: t') ∧
    ∀ d t, d ≠ '?' → r = d :: '?' :: t → ∃ t', s = d :: '?' :: t') hpat ?_ ?_ ?_ s).1 hword
  · exact ⟨id, by simp, by simp⟩
  · rintro s r ⟨hr, _, _⟩
    refine ⟨fun h => hasWord_append_left pat (hr (hasWord_of_append (by decide) h)), ?_, ?_⟩
    · intro t h
      simp at h
    · intro d t _ h
      simp at h
  · rintro c s r _ ⟨hr, hone, htwo⟩
    refine ⟨fun h => ?_, ?_, ?_⟩
    · rcases hasWord_cons.mp h with ⟨rfl, d, t, hd, rfl⟩ | h
      · obtain ⟨t', rfl⟩ := htwo d t hd rfl
        exact hasWord_cons.mpr (.inl ⟨rfl, d, t', hd, rfl⟩)
      · exact hasWord_cons.mpr (.inr (hr h))
    · rintro t h
      rw [cons.injEq] at h
      exact ⟨s, by rw [h.1]⟩
    · intro d t _ h
      rw [cons.injEq] at h
      obtain ⟨t', rfl⟩ := hone t h.2
      exact ⟨t', by rw [h.1]⟩

end Str

namespace Imf

theorem not_hasWord_of_search {s : Str} (hnone : wordRegex.search s = none) : ¬ Str.HasWord s := by
  rintro ⟨pre, c, post, rfl, hc⟩
  rw [Regex.search, map_eq_none_iff] at hnone
  have hsplit : pre ++ '?' :: c :: '?' :: post = [] ++ ([pre, ['?'], [c], ['?'], post].flatten ++ []) := by simp
  refine searchItems_complete hnone hsplit ?_
  refine .cons ⟨by simp [Item.many], by simp [Item.many], by simp [Item.many]⟩ (.cons (fits_one_eq_iff.mpr rfl)
    (.cons (fits_one_iff.mpr ⟨c, rfl, by simpa using hc⟩) (.cons (fits_one_eq_iff.mpr rfl)
      (.cons ⟨by simp [Item.many], by simp [Item.many], by simp [Item.many]⟩ .nil))))

theorem search_wordRegex_of_not {s : Str} (hs : ¬ Str.HasWord s) : wordRegex.search s = none := by
  rw [Regex.search, map_eq_none_iff]
  by_contra hsome
  obtain ⟨⟨pre, ts, rest⟩, hsearch⟩ := ne_none_iff_exists'.mp hsome
  obtain ⟨rfl, hfits⟩ := searchItems_sound hsearch
  obtain _ | ⟨_, _ | ⟨h₁, _ | ⟨h₂, _ | ⟨h₃, _⟩⟩⟩⟩ := hfits
  obtain rfl := fits_one_eq_iff.mp h₁
  obtain ⟨b, rfl, hb⟩ := fits_one_iff.mp h₂
  obtain rfl := fits_one_eq_iff.mp h₃
  rename_i front _ last _
  exact hs ⟨pre ++ front, b, last.flatten ++ rest, by simp, by simpa using hb⟩

theorem search_wordRegex_of_short {o : Str} (hlength : o.length ≤ 1) : wordRegex.search (Str.cStr o) = none := by
  apply search_wordRegex_of_not
  rintro ⟨front, c, rest, heq, _⟩
  have hle := Str.cStr_length_le o
  rw [heq, length_append, length_cons, length_cons, length_cons] at hle
  omega

theorem search_encodedRegex {s : Str} {what : List Str} (hsearch : encodedRegex.search s = some what) :
    ∃ pre o post, s = pre ++ ('=' :: '?' :: (o ++ '?' :: '=' :: post)) ∧ '?' ∉ o ∧ o.length ≤ 1 ∧
      what = ['=' :: '?' :: (o ++ ['?', '=']), o] := by
  obtain ⟨⟨pre, ts, rest⟩, hitems, rfl⟩ := map_eq_some_iff.mp hsearch
  obtain ⟨rfl, hfits⟩ := searchItems_sound hitems
  obtain _ | ⟨h₁, _ | ⟨h₂, _ | ⟨ho, _ | ⟨h₃, _ | ⟨h₄, _ | _⟩⟩⟩⟩⟩ := hfits
  obtain rfl := fits_one_eq_iff.mp h₁
  obtain rfl := fits_one_eq_iff.mp h₂
  obtain rfl := fits_one_eq_iff.mp h₃
  obtain rfl := fits_one_eq_iff.mp h₄
  rename_i o
  refine ⟨pre, o, rest, by simp, ?_, ho.2.2 1 rfl, by simp [Regex.what, encodedRegex]⟩
  intro hmem
  simpa [Item.opt] using ho.1 '?' hmem

variable {n : Nat} {str r : Str}

theorem decodeLoop_mono {m : Nat} (hmn : m ≤ n) {ex : Regex Char} {r : Except ImfExn Str}
    (hloop : decodeLoop m ex str = some r) : decodeLoop n ex str = some r := by
  induction m generalizing n ex str with
  | zero => simp [decodeLoop] at hloop
  | succ m ih =>
    obtain ⟨n, rfl⟩ : ∃ k, n = k + 1 := ⟨n - 1, by omega⟩
    rw [decodeLoop] at hloop ⊢
    split at hloop
    case h_1 => exact hloop
    case h_2 what _ =>
      split at hloop
      case h_1 => exact hloop
      case h_2 => exact ih (by omega) hloop

theorem decodeLoop_wordRegex (hstr : '\x00' ∉ str)
    (hloop : decodeLoop n wordRegex str = some (.ok r)) : ¬ Str.HasWord r ∧ '\x00' ∉ r := by
  induction n generalizing str with
  | zero => simp [decodeLoop] at hloop
  | succ n ih =>
    rw [decodeLoop] at hloop
    split at hloop
    case h_1 hnone =>
      obtain rfl : str = r := by simpa using hloop
      rw [Str.cStr_eq_self_iff.mpr hstr] at hnone
      exact ⟨not_hasWord_of_search hnone, hstr⟩
    case h_2 what _ =>
      split at hloop
      case h_1 => simp at hloop
      case h_2 => exact ih (fun hmem => (Str.mem_replaceAll hmem).elim (by decide) hstr) hloop

theorem imfBase64inlineDecode_of_none (hstr : '\x00' ∉ str) (hnone : encodedRegex.search str = none) :
    imfBase64inlineDecode (n + 1) str = some (.ok str) := by
  rw [imfBase64inlineDecode, decodeLoop, Str.cStr_eq_self_iff.mpr hstr, hnone]

theorem imfBase64inlineDecode_of_some {what : List Str} (hsearch : encodedRegex.search (Str.cStr str) = some what) :
    imfBase64inlineDecode (n + 1) str =
      decodeLoop n wordRegex (Str.replaceAll str (what.getD 0 []) "decodeerror".toList) := by
  obtain ⟨pre, o, post, _, ho, hlength, rfl⟩ := search_encodedRegex hsearch
  rw [imfBase64inlineDecode, decodeLoop, hsearch]
  simp only [getD_cons_zero, getD_cons_succ]
  rw [search_wordRegex_of_short hlength]

theorem eq_of_imfBase64inlineDecode (hstr : '\x00' ∉ str)
    (hdecode : imfBase64inlineDecode n str = some (.ok r)) (hwords : Str.HasWord str → Str.HasWord r)
    (hcount : str.count '?' ≤ r.count '?') : str = r ∧ encodedRegex.search str = none := by
  cases n with
  | zero => simp [imfBase64inlineDecode, decodeLoop] at hdecode
  | succ n =>
    have hcStr := Str.cStr_eq_self_iff.mpr hstr
    cases hsearch : encodedRegex.search str with
    | none =>
      rw [imfBase64inlineDecode_of_none hstr hsearch] at hdecode
      exact ⟨by simpa using hdecode, rfl⟩
    | some what =>
      exfalso
      rw [imfBase64inlineDecode_of_some (hcStr.symm ▸ hsearch)] at hdecode
      obtain ⟨pre, o, post, hsplit, ho, hlength, rfl⟩ := search_encodedRegex hsearch
      have hfound : '=' :: '?' :: (o ++ ['?', '=']) <:+: str := ⟨pre, post, by simp [hsplit]⟩
      rw [getD_cons_zero] at hdecode
      have hnul : '\x00' ∉ Str.replaceAll str ('=' :: '?' :: (o ++ ['?', '='])) "decodeerror".toList :=
        fun hmem => (Str.mem_replaceAll hmem).elim (by decide) hstr
      obtain ⟨hnoWord, _⟩ := decodeLoop_wordRegex hnul hdecode
      by_cases hword : Str.HasWord str
      · exact hnoWord (hwords hword)
      · -- one replacement, and the question marks are gone
        have hnext : wordRegex.search (Str.cStr (Str.replaceAll str ('=' :: '?' :: (o ++ ['?', '=']))
            "decodeerror".toList)) = none := by
          rw [Str.cStr_eq_self_iff.mpr hnul]
          exact search_wordRegex_of_not fun h => hword (Str.hasWord_of_replaceAll (by simp) h)
        cases n with
        | zero => simp [decodeLoop] at hdecode
        | succ n =>
          rw [decodeLoop, hnext] at hdecode
          obtain rfl : Str.replaceAll str ('=' :: '?' :: (o ++ ['?', '='])) "decodeerror".toList = r := by
            simpa using hdecode
          have hlt : (Str.replaceAll str ('=' :: '?' :: (o ++ ['?', '='])) "decodeerror".toList).count '?' <
              str.count '?' := Str.count_replaceAll_lt (by simp) (by simp) (by decide) hfound
          omega

end Imf

end Avbot
