import Avbot.Http.Request
import Avbot.Mail.Base64Standard

/-!
# Basic authentication

The client has an encoder of its own, `detail::encode_base64`. Where the last group is whole there is nothing to fill up, and `4 - result.size() % 4` is four.
-/

namespace Avbot.Http

open List Base64

theorem encodeBase64_cons (a b c : Char) (l : Str) :
    encodeBase64 (a :: b :: c :: l) =
      [encodeChar (a.toNat / 4), encodeChar (a.toNat % 4 * 16 + b.toNat / 16), encodeChar (b.toNat % 16 * 4 + c.toNat / 64),
        encodeChar (c.toNat % 64)] ++ encodeBase64 l := by
  have hsize : (8 * (a :: b :: c :: l).length + 5) / 6 = (8 * l.length + 5) / 6 + 4 := by
    simp only [length_cons]
    omega
  have hpadding (n : Nat) : 4 - (n + 4) % 4 = 4 - n % 4 := by omega
  rw [encodeBase64, hsize]
  simp only [encodeBase64, map_cons, cons_append, nil_append, sextets, take_succ_cons,
    length_cons, Nat.add_assoc, Nat.reduceAdd, hpadding]

theorem encodeBase64_eq : ∀ s : Str,
    encodeBase64 s = Str.base64Text s ++ if s.length % 3 = 0 then "====".toList else []
  | [] => rfl
  | [a] => by simp [encodeBase64, Str.base64Text, Str.lenRoundedDown, Str.encodeTail, Str.encodeGroups, sextets]
  | [a, b] => by simp [encodeBase64, Str.base64Text, Str.lenRoundedDown, Str.encodeTail, Str.encodeGroups, sextets]
  | a :: b :: c :: l => by
    have hlength : (a :: b :: c :: l).length % 3 = l.length % 3 := by
      simp only [length_cons]
      omega
    rw [encodeBase64_cons, Boost.base64Text_cons, encodeBase64_eq l, hlength, append_assoc]

theorem encodeBase64_eq_iff (s : Str) : encodeBase64 s = Str.base64Text s ↔ s.length % 3 ≠ 0 := by
  rw [encodeBase64_eq]
  by_cases hwhole : s.length % 3 = 0
  · simp [hwhole]
  · simp [hwhole]

/-- The encoder of the client differs from the one for mails where nothing has to be filled up, and where the length is too large for the latter. -/
theorem base64Encode_eq_encodeBase64_iff (s : Str) :
    Boost.base64Encode s = .ok (encodeBase64 s) ↔ s.length % 3 ≠ 0 ∧ s.length < 4294967298 := by
  by_cases hshort : s.length < 4294967298
  · rw [Boost.base64Encode_eq hshort, Except.ok.injEq, eq_comm, encodeBase64_eq_iff]
    simp [hshort]
  · rw [Boost.base64Encode_of_long (by omega)]
    simp [hshort]

theorem base64Encode_ne_encodeBase64 :
    encodeBase64 "abc".toList = "YWJj====".toList ∧ Boost.base64Encode "abc".toList = .ok "YWJj".toList := by
  decide

end Avbot.Http
