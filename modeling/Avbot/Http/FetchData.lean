import Avbot.Http.Rangefields

/-!
# Reading from a download

`fetch_data` halves the size of the buffers until the bytes are there, but it compares the right bounds of the ranges with the number of bytes instead of their end.
-/

namespace Avbot.Http

open List

/-- The members of `multi_download` that `fetch_data` uses. -/
structure Fetching where
  mStorage : Bool
  mDownloadPoint : Int
  mDownloadedField : Rangefield

/-- The sizes of the buffers of the caller. They lie in memory, so that the sum is a number of the type `ptrdiff_t`. -/
structure Buffers where
  sizes : List Nat
  fits : sizes.sum < 2 ^ 63

namespace Fetching

def halve (f : Rangefield) (offset : Int) (bufferLength : Nat) : Nat :=
  if bufferLength = 0 then 0
  else if f.checkRange offset bufferLength then bufferLength
  else halve f offset (bufferLength / 2)
termination_by bufferLength

/-- The number of bytes that the reads bring, each of which fills its buffer. -/
def readBuffers : List Nat → Nat → Nat
  | [], _ => 0
  | bufferSize :: rest, availableLength =>
    let length := if (availableLength : Int) - bufferSize < 0 then availableLength else bufferSize
    if availableLength - length = 0 then length else length + readBuffers rest (availableLength - length)

def fetchData (d : Fetching) (buffers : Buffers) (offset : Int) : Fetching × Nat :=
  if d.mStorage then
    let field := if buffers.sizes.sum = 0 then d.mDownloadedField else d.mDownloadedField.tidy
    let bufferLength := halve d.mDownloadedField offset buffers.sizes.sum
    ({ d with mDownloadPoint := offset, mDownloadedField := field },
      if bufferLength = 0 then 0 else readBuffers buffers.sizes bufferLength)
  else (d, 0)

theorem readBuffers_eq {sizes : List Nat} {n : Nat} (hn : n ≤ sizes.sum) : readBuffers sizes n = n := by
  induction sizes generalizing n with
  | nil => exact (Nat.le_zero.mp hn).symm
  | cons size rest ih =>
    rw [sum_cons] at hn
    have hrest : n - size ≤ rest.sum := by omega
    rw [readBuffers]
    grind

variable {f : Rangefield} {offset : Int}

/-- The loop ends with the largest of the halves that `check_range` accepts. -/
theorem halve_spec (f : Rangefield) (offset : Int) (n : Nat) :
    (halve f offset n = 0 ∨ ∃ k, halve f offset n = n / 2 ^ k ∧ f.checkRange offset (n / 2 ^ k : Nat) = true) ∧
      ∀ k, f.checkRange offset (n / 2 ^ k : Nat) = true → n / 2 ^ k ≤ halve f offset n := by
  induction n using Nat.strongRecOn with
  | ind n ih =>
    rw [halve]
    split
    · rename_i hzero
      exact ⟨.inl rfl, by simp [hzero]⟩
    · split
      · rename_i hcheck
        exact ⟨.inr ⟨0, by simp, by simpa using hcheck⟩, fun k _ => Nat.div_le_self _ _⟩
      · rename_i hzero hcheck
        have hhalf : ∀ k, n / 2 / 2 ^ k = n / 2 ^ (k + 1) := fun k => by rw [Nat.div_div_eq_div_mul, Nat.pow_succ']
        obtain ⟨hfound, hlargest⟩ := ih (n / 2) (by omega)
        refine ⟨hfound.imp_right fun ⟨k, hk⟩ => ⟨k + 1, hhalf k ▸ hk⟩, fun k hk => ?_⟩
        cases k with
        | zero => exact absurd (by simpa using hk) hcheck
        | succ k => exact hhalf k ▸ hlargest k (hhalf k ▸ hk)

theorem halve_le (f : Rangefield) (offset : Int) (n : Nat) : halve f offset n ≤ n := by
  rcases (halve_spec f offset n).1 with hzero | ⟨k, hk, -⟩
  · omega
  · exact hk ▸ Nat.div_le_self _ _

theorem fetchData_snd {d : Fetching} (hstorage : d.mStorage = true) (buffers : Buffers) (offset : Int) :
    (d.fetchData buffers offset).2 = halve d.mDownloadedField offset buffers.sizes.sum := by
  rw [fetchData, if_pos hstorage]
  show (if _ = 0 then 0 else _) = _
  rw [readBuffers_eq (halve_le _ _ _)]
  split <;> omega

/-- What is asked of `fetch_data`. -/
def FetchesDownloaded (d : Fetching) (buffers : Buffers) (offset : Int) : Prop :=
  Set.Ico offset (offset + (d.fetchData buffers offset).2) ⊆ d.mDownloadedField.covered

/-- The right bound that `fetch_data` asks for is too small by the offset. -/
theorem fetchesDownloaded_iff (d : Fetching) (h : d.mDownloadedField.Reachable) (buffers : Buffers) (offset : Int) :
    d.FetchesDownloaded buffers offset ↔ (d.mStorage = true → ∀ k, 0 < buffers.sizes.sum / 2 ^ k →
      d.mDownloadedField.checkRange offset (buffers.sizes.sum / 2 ^ k : Nat) = true →
        d.mDownloadedField.checkRange offset (offset + (buffers.sizes.sum / 2 ^ k : Nat)) = true) := by
  rw [FetchesDownloaded]
  cases hstorage : d.mStorage with
  | false => simp [fetchData, hstorage]
  | true =>
    rw [fetchData_snd hstorage]
    obtain ⟨hfound, hlargest⟩ := halve_spec d.mDownloadedField offset buffers.sizes.sum
    constructor
    · intro hsub _ k hpos hcheck
      refine (Rangefield.checkRange_iff h (by omega)).mpr ((Set.Ico_subset_Ico_right ?_).trans hsub)
      have := hlargest k hcheck
      omega
    · intro hcond
      rcases hfound with hzero | ⟨k, hk, hcheck⟩
      · simp [hzero]
      · rcases Nat.eq_zero_or_pos (buffers.sizes.sum / 2 ^ k) with hzero | hpos
        · simp [hk, hzero]
        · rw [hk]
          exact (Rangefield.checkRange_iff h (by omega)).mp (hcond rfl k hpos hcheck)

theorem fetchesDownloaded_start :
    (Fetching.mk true 0 ((Rangefield.new 20).update 0 10).1).FetchesDownloaded ⟨[8], by decide⟩ 0 ∧
      ((Fetching.mk true 0 ((Rangefield.new 20).update 0 10).1).fetchData ⟨[8], by decide⟩ 0).2 = 8 := by
  refine ⟨(fetchesDownloaded_iff _ ((Rangefield.Reachable.new 20).call (.update 0 10)) _ _).mpr ?_, ?_⟩
  · intro _ k _ hcheck
    rwa [zero_add]
  · rw [fetchData_snd rfl, halve]
    decide

/-- Ten bytes are there, and eight are read behind the fifth. -/
theorem not_fetchesDownloaded_offset :
    ((Fetching.mk true 0 ((Rangefield.new 20).update 0 10).1).fetchData ⟨[8], by decide⟩ 5).2 = 8 ∧
      (12 : Int) ∉ ((Rangefield.new 20).update 0 10).1.covered := by
  refine ⟨?_, by decide⟩
  rw [fetchData_snd rfl, halve]
  decide

end Fetching

end Avbot.Http
