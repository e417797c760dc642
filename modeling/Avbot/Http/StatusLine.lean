import Avbot.Http.ResponseHead
import Mathlib.Algebra.Order.Ring.Nat

/-!
# The language of the status line

Which texts `parse_http_status_line` accepts. The states of the machine come in a fixed order, and each has one way to the next, so it can be said for every state what is accepted from there on. The three numbers are `int` in the source, taken modulo the size of the type.
-/

namespace Avbot.Http

open List Scanner Option
open BitVec (ofNat ofNat_add)

abbrev StatusInts := StatusLineOf (BitVec 32)

def intDigit (n : BitVec 32) (c : Char) : BitVec 32 := n * 10 + ofNat 32 c.toNat - ofNat 32 '0'.toNat

/-- `parse_http_status_line` with the three integers zero at the start. -/
def parseHttpStatusInts (s : Str) : Option (StatusInts × Str) := scan (statusLineStepWith intDigit) (.httpVersionH, ⟨0, 0, 0, []⟩) s

def StatusLineOf.toInts (line : StatusLine) : StatusInts :=
  ⟨ofNat 32 line.versionMajor, ofNat 32 line.versionMinor, ofNat 32 line.status, line.reason⟩

theorem intDigit_ofNat (n : Nat) {c : Char} (hc : c.isDigit = true) :
    intDigit (ofNat 32 n) c = ofNat 32 (digit n c) := by
  have hzero : '0'.toNat ≤ c.toNat := by
    rw [Char.isDigit, Bool.and_eq_true, decide_eq_true_eq] at hc
    exact UInt32.le_iff_toNat_le.mp hc.1
  obtain ⟨k, hk⟩ := Nat.exists_eq_add_of_le hzero
  rw [intDigit, digit, hk, Nat.add_sub_cancel_left, ofNat_add, ofNat_add, BitVec.ofNat_mul,
    BitVec.add_comm (ofNat 32 '0'.toNat), ← BitVec.add_assoc, BitVec.add_sub_cancel]
  rfl

theorem statusLineStepWith_intDigit (p : StatusLineState × StatusLine) (c : Char) :
    statusLineStepWith intDigit (p.1, p.2.toInts) c = (statusLineStep p c).map (fun q => (q.1, q.2.toInts)) StatusLineOf.toInts := by
  obtain ⟨state, line⟩ := p
  cases state with
  | httpVersionH | httpVersionT1 | httpVersionT2 | httpVersionP | httpVersionSlash | linefeed =>
    simp only [statusLineStep, statusLineStepWith]
    split
    · rfl
    · rfl
  | httpVersionMajorStart | httpVersionMinorStart | statusCodeStart =>
    simp only [statusLineStep, statusLineStepWith]
    split
    case isTrue hdigit =>
      rw [StatusLineOf.toInts, intDigit_ofNat _ hdigit]
      rfl
    case isFalse => rfl
  | httpVersionMajor | httpVersionMinor | statusCode =>
    simp only [statusLineStep, statusLineStepWith]
    split
    · rfl
    · split
      case isTrue hdigit =>
        rw [StatusLineOf.toInts, intDigit_ofNat _ hdigit]
        rfl
      case isFalse => rfl
  | reasonPhrase =>
    simp only [statusLineStep, statusLineStepWith]
    split
    · rfl
    · split
      · rfl
      · rfl

theorem parseHttpStatusInts_eq (s : Str) :
    parseHttpStatusInts s = (parseHttpStatusLine s).map fun r => (r.1.toInts, r.2) :=
  scan_map (f := fun q : StatusLineState × StatusLine => (q.1, q.2.toInts)) statusLineStepWith_intDigit (.httpVersionH, ⟨0, 0, 0, []⟩) s

abbrev Accepts (state : StatusLineState) (line : StatusLine) (s : Str) (r : StatusLine × Str) : Prop :=
  scan statusLineStep (state, line) s = some r

section States

variable {line : StatusLine} {s : Str} {r : StatusLine × Str}

theorem accepts_char {state next : StatusLineState} {want : Char}
    (hstep : ∀ c, statusLineStep (state, line) c = if c = want then .next (next, line) else .fail) :
    Accepts state line s r ↔ ∃ s', s = want :: s' ∧ Accepts next line s' r := by
  have hone : Accepts state line s r ↔ ∃ c s', s = c :: s' ∧ c = want ∧ Accepts next line s' r :=
    scan_one_iff (fun c hc => by rw [hstep, if_pos hc]) fun c hc => by rw [hstep, if_neg hc]
  rw [hone]
  constructor
  · rintro ⟨c, s', hs, rfl, haccepts⟩
    exact ⟨s', hs, haccepts⟩
  · rintro ⟨s', hs, haccepts⟩
    exact ⟨want, s', hs, rfl, haccepts⟩

theorem accepts_number {start more next : StatusLineState} {sep : Char} (hsep : sep.isDigit = false)
    (put : Nat → StatusLine) (n : Nat)
    (hstart : ∀ c, statusLineStep (start, put n) c = if c.isDigit then .next (more, put (digit n c)) else .fail)
    (hmore : ∀ c m, statusLineStep (more, put m) c =
      if c = sep then .next (next, put m) else if c.isDigit then .next (more, put (digit m c)) else .fail) :
    Accepts start (put n) s r ↔
      ∃ ds s', (ds ≠ [] ∧ ∀ c ∈ ds, c.isDigit = true) ∧ s = ds ++ sep :: s' ∧ Accepts next (put (ds.foldl digit n)) s' r := by
  have hone : Accepts start (put n) s r ↔ ∃ c s', s = c :: s' ∧ c.isDigit = true ∧ Accepts more (put (digit n c)) s' r :=
    scan_one_iff (fun c hc => by rw [hstart, if_pos hc]) fun c hc => by rw [hstart, if_neg hc]
  have hrest : ∀ m s, Accepts more (put m) s r ↔
      ∃ ds s', s = ds ++ sep :: s' ∧ (∀ c ∈ ds, c.isDigit = true) ∧ Accepts next (put (ds.foldl digit m)) s' r := by
    intro m s
    refine scan_stretch_iff (f := fun m => (more, put m)) (g := fun m => (next, put m)) (by simp [hsep]) ?_ ?_ ?_ m
    · intro c hc m
      have hother : c ≠ sep := by
        rintro rfl
        rw [hsep] at hc
        cases hc
      rw [hmore, if_neg hother, if_pos hc]
    · intro m
      rw [hmore, if_pos rfl]
    · intro c hother hc m
      rw [hmore, if_neg hother, if_neg hc]
  rw [hone]
  constructor
  · rintro ⟨c, s', rfl, hc, haccepts⟩
    obtain ⟨ds, s'', rfl, hds, haccepts⟩ := (hrest _ _).mp haccepts
    exact ⟨c :: ds, s'', ⟨cons_ne_nil _ _, forall_mem_cons.mpr ⟨hc, hds⟩⟩, rfl, haccepts⟩
  · rintro ⟨ds, s', ⟨hne, hds⟩, rfl, haccepts⟩
    obtain ⟨c, ds, rfl⟩ := exists_cons_of_ne_nil hne
    obtain ⟨hc, hds⟩ := forall_mem_cons.mp hds
    exact ⟨c, _, rfl, hc, (hrest _ _).mpr ⟨ds, s', rfl, hds, haccepts⟩⟩

theorem accepts_reason :
    Accepts .reasonPhrase line s r ↔
      ∃ reason s', s = reason ++ '\r' :: s' ∧ (∀ c ∈ reason, isCtl c = false) ∧
        Accepts .linefeed { line with reason := line.reason ++ reason } s' r := by
  have hstretch := @scan_stretch_iff _ _ _ statusLineStep s Str
    (fun reason => (.reasonPhrase, { line with reason := reason })) (fun reason => (.linefeed, { line with reason := reason }))
    (fun reason c => reason ++ [c]) (fun c => isCtl c = false) '\r' (by decide) ?_ ?_ ?_ r line.reason
  · simpa only [foldl_concat] using hstretch
  · intro c hc reason
    have hother : c ≠ '\r' := by
      rintro rfl
      exact absurd hc (by decide)
    simp [statusLineStep, statusLineStepWith, hother, hc]
  · intro reason
    rfl
  · intro c hother hc reason
    simp [statusLineStep, statusLineStepWith, hother, hc]

theorem accepts_linefeed : Accepts .linefeed line s r ↔ s = '\n' :: r.2 ∧ r.1 = line := by
  cases s with
  | nil => simp [Accepts, scan]
  | cons c s =>
    by_cases hc : c = '\n'
    · subst hc
      show some (line, s) = some r ↔ _
      rw [some.injEq, Prod.ext_iff]
      simp [eq_comm, and_comm]
    · simp [Accepts, scan, statusLineStep, statusLineStepWith, hc]

end States

structure StatusText where
  major : Str
  minor : Str
  status : Str
  reason : Str
  isNumber : ∀ ds ∈ [major, minor, status], ds ≠ [] ∧ ∀ c ∈ ds, c.isDigit = true
  noCtl : ∀ c ∈ reason, isCtl c = false

def StatusText.text (t : StatusText) : Str :=
  "HTTP/".toList ++ (t.major ++ '.' :: (t.minor ++ ' ' :: (t.status ++ ' ' :: (t.reason ++ Str.crlf))))

abbrev decimalValue (ds : Str) : Nat := Nat.ofDigitChars 10 ds 0

def StatusText.line (t : StatusText) : StatusLine :=
  ⟨decimalValue t.major, decimalValue t.minor, decimalValue t.status, t.reason⟩

theorem accepts_http {line : StatusLine} {s : Str} {r : StatusLine × Str} :
    Accepts .httpVersionH line s r ↔ ∃ s', s = "HTTP/".toList ++ s' ∧ Accepts .httpVersionMajorStart line s' r := by
  have hh : ∀ s, Accepts .httpVersionH line s r ↔ ∃ s', s = 'H' :: s' ∧ Accepts .httpVersionT1 line s' r :=
    fun _ => accepts_char fun _ => rfl
  have ht : ∀ s, Accepts .httpVersionT1 line s r ↔ ∃ s', s = 'T' :: s' ∧ Accepts .httpVersionT2 line s' r :=
    fun _ => accepts_char fun _ => rfl
  have ht' : ∀ s, Accepts .httpVersionT2 line s r ↔ ∃ s', s = 'T' :: s' ∧ Accepts .httpVersionP line s' r :=
    fun _ => accepts_char fun _ => rfl
  have hp : ∀ s, Accepts .httpVersionP line s r ↔ ∃ s', s = 'P' :: s' ∧ Accepts .httpVersionSlash line s' r :=
    fun _ => accepts_char fun _ => rfl
  have hslash : ∀ s, Accepts .httpVersionSlash line s r ↔ ∃ s', s = '/' :: s' ∧ Accepts .httpVersionMajorStart line s' r :=
    fun _ => accepts_char fun _ => rfl
  simp only [hh, ht, ht', hp, hslash]
  constructor
  · rintro ⟨_, rfl, _, rfl, _, rfl, _, rfl, s', rfl, haccepts⟩
    exact ⟨s', rfl, haccepts⟩
  · rintro ⟨s', rfl, haccepts⟩
    exact ⟨_, rfl, _, rfl, _, rfl, _, rfl, s', rfl, haccepts⟩

theorem accepts_numbers {s : Str} {r : StatusLine × Str} :
    Accepts .httpVersionMajorStart ⟨0, 0, 0, []⟩ s r ↔
      ∃ major minor status s', (∀ ds ∈ [major, minor, status], ds ≠ [] ∧ ∀ c ∈ ds, c.isDigit = true) ∧
        s = major ++ '.' :: (minor ++ ' ' :: (status ++ ' ' :: s')) ∧
        Accepts .reasonPhrase ⟨decimalValue major, decimalValue minor, decimalValue status, []⟩ s' r := by
  have hmajor : ∀ s, Accepts .httpVersionMajorStart ⟨0, 0, 0, []⟩ s r ↔ _ :=
    fun s => @accepts_number s r _ .httpVersionMajor .httpVersionMinorStart '.' rfl (fun n => ⟨n, 0, 0, []⟩) 0
      (fun _ => rfl) fun _ _ => rfl
  have hminor : ∀ m s, Accepts .httpVersionMinorStart ⟨m, 0, 0, []⟩ s r ↔ _ :=
    fun m s => @accepts_number s r _ .httpVersionMinor .statusCodeStart ' ' rfl (fun n => ⟨m, n, 0, []⟩) 0
      (fun _ => rfl) fun _ _ => rfl
  have hstatus : ∀ m m' s, Accepts .statusCodeStart ⟨m, m', 0, []⟩ s r ↔ _ :=
    fun m m' s => @accepts_number s r _ .statusCode .reasonPhrase ' ' rfl (fun n => ⟨m, m', n, []⟩) 0
      (fun _ => rfl) fun _ _ => rfl
  simp only [foldl_digit] at hmajor hminor hstatus
  simp only [forall_mem_cons]
  constructor
  · intro haccepts
    obtain ⟨major, s₁, hds₁, rfl, haccepts₁⟩ := (hmajor s).mp haccepts
    obtain ⟨minor, s₂, hds₂, rfl, haccepts₂⟩ := (hminor _ s₁).mp haccepts₁
    obtain ⟨status, s₃, hds₃, rfl, haccepts₃⟩ := (hstatus _ _ s₂).mp haccepts₂
    exact ⟨major, minor, status, s₃, ⟨hds₁, hds₂, hds₃, by simp⟩, rfl, haccepts₃⟩
  · rintro ⟨major, minor, status, s', ⟨hds₁, hds₂, hds₃, -⟩, rfl, haccepts⟩
    exact (hmajor _).mpr ⟨major, _, hds₁, rfl, (hminor _ _).mpr ⟨minor, _, hds₂, rfl,
      (hstatus _ _ _).mpr ⟨status, s', hds₃, rfl, haccepts⟩⟩⟩

theorem parseHttpStatusLine_iff (s : Str) (r : StatusLine × Str) :
    parseHttpStatusLine s = some r ↔ ∃ t : StatusText, s = t.text ++ r.2 ∧ r.1 = t.line := by
  show Accepts .httpVersionH ⟨0, 0, 0, []⟩ s r ↔ _
  rw [accepts_http]
  constructor
  · rintro ⟨s₁, rfl, haccepts⟩
    obtain ⟨major, minor, status, s₂, hds, rfl, haccepts₂⟩ := accepts_numbers.mp haccepts
    obtain ⟨reason, s₃, rfl, hreason, haccepts₃⟩ := accepts_reason.mp haccepts₂
    obtain ⟨rfl, hline⟩ := accepts_linefeed.mp haccepts₃
    refine ⟨⟨major, minor, status, reason, hds, hreason⟩, ?_, hline⟩
    simp [StatusText.text, Str.crlf]
  · rintro ⟨⟨major, minor, status, reason, hds, hreason⟩, rfl, hline⟩
    refine ⟨major ++ '.' :: (minor ++ ' ' :: (status ++ ' ' :: (reason ++ '\r' :: '\n' :: r.2))), ?_, ?_⟩
    · simp [StatusText.text, Str.crlf]
    · exact accepts_numbers.mpr ⟨major, minor, status, _, hds, rfl,
        accepts_reason.mpr ⟨reason, _, rfl, hreason, accepts_linefeed.mpr ⟨rfl, hline⟩⟩⟩

theorem toInt_ofNat {n : Nat} (hn : n < 2 ^ 31) : (ofNat 32 n).toInt = n := by
  have hmod : (ofNat 32 n).toNat = n := Nat.mod_eq_of_lt (by omega)
  rw [BitVec.toInt_eq_toNat_of_lt (by rw [hmod]; omega), hmod]

/-- `parse_http_status_line` returns true exactly for the texts that start with a status line. It takes no more than the line, and a number that fits into an `int` is the value of its digits. -/
theorem parseHttpStatusInts_iff (s : Str) :
    ((parseHttpStatusInts s).isSome = true ↔ ∃ (t : StatusText) (rest : Str), s = t.text ++ rest) ∧
      ∀ (t : StatusText) (rest : Str), s = t.text ++ rest →
        ∃ out, parseHttpStatusInts s = some (out, rest) ∧
          (decimalValue t.major < 2 ^ 31 → out.versionMajor.toInt = decimalValue t.major) ∧
          (decimalValue t.minor < 2 ^ 31 → out.versionMinor.toInt = decimalValue t.minor) ∧
          (decimalValue t.status < 2 ^ 31 → out.status.toInt = decimalValue t.status) := by
  constructor
  · rw [parseHttpStatusInts_eq, isSome_map, isSome_iff_exists]
    constructor
    · rintro ⟨r, hr⟩
      obtain ⟨t, hs, -⟩ := (parseHttpStatusLine_iff s r).mp hr
      exact ⟨t, r.2, hs⟩
    · rintro ⟨t, rest, hs⟩
      exact ⟨(t.line, rest), (parseHttpStatusLine_iff s _).mpr ⟨t, hs, rfl⟩⟩
  · intro t rest hs
    refine ⟨t.line.toInts, ?_, toInt_ofNat, toInt_ofNat, toInt_ofNat⟩
    rw [parseHttpStatusInts_eq, (parseHttpStatusLine_iff s (t.line, rest)).mpr ⟨t, hs, rfl⟩]
    rfl

end Avbot.Http
