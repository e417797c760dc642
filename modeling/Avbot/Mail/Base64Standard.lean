import Avbot.Mail.Base64

/-!
# `boost::base64_encode` and RFC 4648

The text that the encoders write is the one of the standard as long as they can hold the length, and the decoder gives it back only if nothing had to be filled up.
-/

namespace Avbot

open List Base64

namespace Boost

theorem encodeGroups_cons (a b c : Char) (l : Str) :
    Str.encodeGroups (a :: b :: c :: l) =
      [encodeChar (a.toNat / 4), encodeChar (a.toNat % 4 * 16 + b.toNat / 16), encodeChar (b.toNat % 16 * 4 + c.toNat / 64),
        encodeChar (c.toNat % 64)] ++ Str.encodeGroups l :=
  rfl

theorem base64Text_cons (a b c : Char) (l : Str) :
    Str.base64Text (a :: b :: c :: l) =
      [encodeChar (a.toNat / 4), encodeChar (a.toNat % 4 * 16 + b.toNat / 16), encodeChar (b.toNat % 16 * 4 + c.toNat / 64),
        encodeChar (c.toNat % 64)] ++ Str.base64Text l := by
  have hlen : Str.lenRoundedDown (a :: b :: c :: l) = Str.lenRoundedDown l + 3 := by
    simp only [Str.lenRoundedDown, length_cons]
    omega
  simp only [Str.base64Text, hlen, take_succ_cons, drop_succ_cons, encodeGroups_cons, append_assoc]

theorem base64Text_eq_text : ∀ {src : Str}, (∀ c ∈ src, c.toNat < 256) →
    Str.base64Text src = text (src.map Char.toNat)
  | [], _ => rfl
  | [a], hsrc => by
    rw [map_cons, map_nil, text_one (hsrc a (by simp))]
    simp [Str.base64Text, Str.lenRoundedDown, Str.encodeTail, Str.encodeGroups, sextets]
  | [a, b], hsrc => by
    rw [map_cons, map_cons, map_nil, text_two (hsrc a (by simp)) (hsrc b (by simp))]
    simp [Str.base64Text, Str.lenRoundedDown, Str.encodeTail, Str.encodeGroups, sextets]
  | a :: b :: c :: l, hsrc => by
    rw [base64Text_cons, map_cons, map_cons, map_cons,
      text_cons (hsrc a (by simp)) (hsrc b (by simp)) (hsrc c (by simp)),
      base64Text_eq_text fun d hd => hsrc d (by simp [hd])]

theorem filter_base64TextLines (n : Nat) (src : Str) :
    (Str.base64TextLines n src).filter (· ≠ '\n') = Str.base64Text src := by
  have hplain : ∀ c ∈ Str.base64Text src, c ≠ '\n' := by
    intro c hc heq
    rcases Str.mem_base64Text hc with hc | hc
    · exact (Str.alphabet_plain c hc).2.2.1 (by simp [heq])
    · rw [hc] at heq
      exact absurd heq (by decide)
  rw [Str.base64Text] at hplain
  rw [Str.base64TextLines, filter_append, Str.base64Text,
    Str.filter_insertLinebreaks (by decide) fun c hc => by simp [hplain c (mem_append_left _ hc)],
    filter_eq_self.mpr fun c hc => by simp [hplain c (mem_append_right _ hc)]]

/-- Both encoders write the text of the standard exactly for the strings whose length they can hold. -/
theorem standard_iff {src : Str} (hsrc : ∀ c ∈ src, c.toNat < 256) :
    (base64Encode src = .ok (text (src.map Char.toNat)) ∧
      ∀ n ≥ 4, (base64EncodeLines n src).map (·.filter (· ≠ '\n')) = base64Encode src) ↔ src.length < 4294967298 := by
  constructor
  · intro hstandard
    by_contra hlong
    rw [base64Encode_of_long (by omega)] at hstandard
    exact absurd hstandard.1 (by simp)
  · intro hshort
    rw [base64Encode_eq hshort, base64Text_eq_text hsrc]
    refine ⟨rfl, fun n hn => ?_⟩
    rw [base64EncodeLines_eq hn hshort, ← base64Text_eq_text hsrc, ← filter_base64TextLines n src]
    rfl

theorem standard_of_hello :
    base64Encode "hello".toList = .ok (text ("hello".toList.map Char.toNat)) ∧
      ∀ n ≥ 4, (base64EncodeLines n "hello".toList).map (·.filter (· ≠ '\n')) = base64Encode "hello".toList :=
  (standard_iff (by decide)).mpr (by decide)

/-- Four gigabytes and two bytes: two bytes are encoded in groups, and the rest does not fit into `tail`. -/
theorem base64Encode_four_gigabytes :
    base64Encode (replicate 4294967298 'a') ≠ .ok (text ((replicate 4294967298 'a').map Char.toNat)) := by
  rw [base64Encode_of_long (by rw [length_replicate])]
  intro h
  cases h

theorem base64Text_front {src : Str} (hne : src ≠ []) :
    ∃ front, Str.base64Text src = front ++ Str.padding src ∧ front.filter (! Str.isSpace ·) = front ∧
      ∃ c ∈ (front ++ Str.padding src).getLast?, c ∉ "\r\n.".toList := by
  obtain ⟨tailFront, htail, halphabet, _⟩ := Str.encodeTail_drop src
  have hencode : Str.base64Text src =
      Str.encodeGroups (src.take (Str.lenRoundedDown src)) ++ tailFront ++ Str.padding src := by
    rw [Str.base64Text, htail, append_assoc]
  refine ⟨_, hencode, ?_, ?_⟩
  · rw [filter_eq_self]
    intro c hc
    have hin : c ∈ alphabet := by
      rcases mem_append.mp hc with hc | hc
      · exact Str.mem_alphabet_of_mem_encodeGroups hc
      · exact halphabet c hc
    simp [(Str.alphabet_plain c hin).1]
  · rw [← hencode]
    have hlength := Str.length_base64Text src
    have hpos := length_pos_iff.mpr hne
    have hnonempty : Str.base64Text src ≠ [] := by
      intro hnil
      rw [hnil, length_nil] at hlength
      omega
    refine ⟨_, getLast?_eq_some_getLast hnonempty, ?_⟩
    rcases Str.mem_base64Text (getLast_mem hnonempty) with hc | hc
    · exact (Str.alphabet_plain _ hc).2.2.1
    · rw [hc]
      decide

/-- An encoded string decodes to itself exactly if it is not empty, needs no filling and has a length that the encoder can hold. -/
theorem base64Decode_base64Encode_iff {src : Str} (hsrc : ∀ c ∈ src, c.toNat < 256) :
    (base64Encode src).bind Str.base64Decode = .ok src ↔
      src ≠ [] ∧ src.length % 3 = 0 ∧ src.length < 4294967298 := by
  by_cases hshort : src.length < 4294967298
  · rw [base64Encode_eq hshort]
    show Str.base64Decode (Str.base64Text src) = .ok src ↔ _
    by_cases hne : src = []
    · subst hne
      simp [Str.base64Text, Str.encodeGroups, sextets, Str.encodeTail, Str.base64Decode]
    · obtain ⟨front, hencode, hfilter, hlast⟩ := base64Text_front hne
      have hiff := @Str.base64Decode_eq_ok_iff _ _ [] hne hsrc (by rw [hfilter, hencode]) hlast (by simp)
      rw [append_nil, ← hencode] at hiff
      rw [hiff]
      exact ⟨fun hwhole => ⟨hne, hwhole, hshort⟩, fun h => h.2.1⟩
  · rw [base64Encode_of_long (by omega)]
    constructor
    · intro h
      cases h
    · intro h
      exact absurd h.2.2 hshort

theorem base64Decode_base64Encode_abc : (base64Encode "abc".toList).bind Str.base64Decode = .ok "abc".toList :=
  (base64Decode_base64Encode_iff (by decide)).mpr (by decide)

/-- With one byte left over, the zero that filled it up comes back. -/
theorem base64Decode_base64Encode_a :
    base64Encode "a".toList = .ok "YQ==".toList ∧ Str.base64Decode "YQ==".toList = .ok "a\x00".toList ∧
      (base64Encode "a".toList).bind Str.base64Decode ≠ .ok "a".toList := by
  have hencode : base64Encode "a".toList = .ok "YQ==".toList := rfl
  have hdecode : Str.base64Decode "YQ==".toList = .ok "a\x00".toList := rfl
  refine ⟨hencode, hdecode, ?_⟩
  rw [hencode]
  show Str.base64Decode "YQ==".toList ≠ _
  rw [hdecode]
  simp

end Boost

end Avbot
