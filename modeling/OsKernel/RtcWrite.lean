import OsKernel.Rtc

/-!
# What `rtc_write` accepts

The rate test with its mask of adjacent numbers accepts the powers of two from 2 to 1024. The guard
before it joins its two tests with `&&`: a buffer of another length is read all the same, and a null
one is read where the length is right.
-/

namespace OsKernel

/-- `freq` is a power of two from 2 to 1024. -/
def PowerRate (freq : UInt32) : Prop := ∃ k, 1 ≤ k ∧ k ≤ 10 ∧ freq.toNat = 2 ^ k

/-- The mask of two adjacent numbers is 0 at the powers of two. -/
theorem and_pred_eq_zero_iff {freq : UInt32} (hpos : 0 < freq.toNat) :
    freq &&& (freq - 1) = 0 ↔ freq.toNat.isPowerOfTwo := by
  have hpred : (freq - 1).toNat = freq.toNat - 1 := by
    rw [UInt32.toNat_sub_of_le _ _ (by rw [UInt32.le_iff_toNat_le]; exact hpos)]
    rfl
  rw [← UInt32.toNat_inj, UInt32.toNat_and, hpred]
  exact Nat.and_sub_one_eq_zero_iff_isPowerOfTwo hpos.ne'

/-- The rate test accepts exactly the powers of two in the range. -/
theorem validRate_iff {freq : UInt32} : validRate freq = true ↔ PowerRate freq := by
  have hmax : freq > max_limit_freq ↔ 2 ^ 10 < freq.toNat := UInt32.lt_iff_toNat_lt
  have hmin : freq < min_limit_freq ↔ freq.toNat < 2 := UInt32.lt_iff_toNat_lt
  simp only [validRate, Bool.not_eq_true', Bool.or_eq_false_iff, decide_eq_false_iff_not, bne_eq_false_iff_eq,
    hmax, hmin, Nat.not_lt]
  constructor
  · rintro ⟨⟨hle, hge⟩, hmask⟩
    obtain ⟨k, hk⟩ := (and_pred_eq_zero_iff (by omega)).mp hmask
    rw [hk] at hle hge
    have hupper := (Nat.pow_le_pow_iff_right (by decide : 1 < 2)).mp hle
    have hlower := (Nat.pow_le_pow_iff_right (by decide : 1 < 2)).mp (show 2 ^ 1 ≤ 2 ^ k from hge)
    exact ⟨k, hlower, hupper, hk⟩
  · rintro ⟨k, hlower, hupper, hk⟩
    have hle : freq.toNat ≤ 2 ^ 10 := hk ▸ Nat.pow_le_pow_right (by decide) hupper
    have hge : 2 ^ 1 ≤ freq.toNat := hk ▸ Nat.pow_le_pow_right (by decide) hlower
    exact ⟨⟨hle, hge⟩, (and_pred_eq_zero_iff (by omega)).mpr ⟨k, hk⟩⟩

/-- The reload value of an accepted rate. -/
theorem PowerRate.reload {freq : UInt32} (h : PowerRate freq) : (max_limit_freq / freq).toNat * freq.toNat = 1024 := by
  obtain ⟨k, -, hk, hfreq⟩ := h
  rw [UInt32.toNat_div, hfreq]
  exact Nat.div_mul_cancel (Nat.pow_dvd_pow 2 hk)

namespace Rtc

variable (r : Rtc)

/-- `int32_t rtc_write(int32_t fd, const void* buf, int32_t nbytes)`, where a missing buffer is `NULL`;
there is no result where `NULL` is dereferenced. -/
def rtcWrite (buf : Option Bytes) (nbytes : ℤ) : Option (UInt32 × Rtc) :=
  if buf.isNone ∧ nbytes ≠ 4 then some (FAIL, r)
  else buf.map r.write

/-- The buffer, the length and the rate are right. -/
def WriteAccepts (buf : Option Bytes) (nbytes : ℤ) : Prop :=
  ∃ bytes, buf = some bytes ∧ nbytes = 4 ∧ PowerRate (wordAt bytes)

/-- The call succeeds with a reload value for the rate if everything is right, and else fails without
an effect. -/
structure WriteExact (buf : Option Bytes) (nbytes : ℤ) : Prop where
  accepted : ∀ bytes, buf = some bytes → WriteAccepts buf nbytes →
    ∃ r', r.rtcWrite buf nbytes = some (0, r') ∧ r'.resetCount.toNat * (wordAt bytes).toNat = 1024
  rejected : ¬WriteAccepts buf nbytes → r.rtcWrite buf nbytes = some (FAIL, r)

/-- The guard is enough: a null buffer comes with a wrong length, and any other buffer with the right
length or with a rate that is refused anyway. -/
def GuardSuffices (buf : Option Bytes) (nbytes : ℤ) : Prop :=
  match buf with
  | none => nbytes ≠ 4
  | some bytes => nbytes = 4 ∨ ¬PowerRate (wordAt bytes)

/-- A call with an accepted rate. -/
theorem write_of_powerRate {bytes : Bytes} (h : PowerRate (wordAt bytes)) :
    r.write bytes = (0, { r with resetCount := max_limit_freq / wordAt bytes }) := by
  simp only [write, validRate_iff.mpr h, if_true]

/-- A call with a refused rate. -/
theorem write_of_not_powerRate {bytes : Bytes} (h : ¬PowerRate (wordAt bytes)) : r.write bytes = (FAIL, r) := by
  have hvalid : validRate (wordAt bytes) = false := by
    rw [← Bool.not_eq_true, validRate_iff]
    exact h
  simp only [write, hvalid, Bool.false_eq_true, if_false]

/-- `rtc_write` is exact where its guard is enough, and nowhere else. -/
theorem writeExact_iff (buf : Option Bytes) (nbytes : ℤ) :
    r.WriteExact buf nbytes ↔ GuardSuffices buf nbytes := by
  cases buf with
  | none =>
    have hrefused : ¬WriteAccepts none nbytes := fun ⟨_, hbuf, _⟩ => by cases hbuf
    constructor
    · intro h hlength
      have hresult := h.rejected hrefused
      rw [rtcWrite, if_neg (fun hguard => hguard.2 hlength)] at hresult
      cases hresult
    · intro hlength
      exact ⟨fun _ hbuf => (by cases hbuf), fun _ => if_pos ⟨rfl, hlength⟩⟩
  | some bytes =>
    have hcall : r.rtcWrite (some bytes) nbytes = some (r.write bytes) := if_neg fun hguard => by cases hguard.1
    constructor
    · intro h
      by_contra hnot
      obtain ⟨hlength, hrate⟩ := not_or.mp hnot
      have hresult := h.rejected fun ⟨_, _, hfour, _⟩ => hlength hfour
      rw [hcall, r.write_of_powerRate (not_not.mp hrate)] at hresult
      exact absurd (congrArg Prod.fst (Option.some.inj hresult)) (show (0 : UInt32) ≠ FAIL by decide)
    · intro h
      refine ⟨?_, fun hrefused => ?_⟩
      · rintro _ ⟨⟩ ⟨_, ⟨⟩, -, hrate⟩
        exact ⟨_, by rw [hcall, r.write_of_powerRate hrate], hrate.reload⟩
      · have hrate : ¬PowerRate (wordAt bytes) :=
          h.elim (fun hfour hrate => hrefused ⟨bytes, rfl, hfour, hrate⟩) id
        rw [hcall, r.write_of_not_powerRate hrate]

/-- Eight bytes that start with a valid rate are accepted, and a null buffer of four is read. -/
theorem not_writeExact :
    (¬(bootKernel (fun _ => Pcb.zeroed) fun _ _ => 0).rtc.WriteExact (some (toBytes [0, 4, 0, 0])) 8) ∧
      ¬(bootKernel (fun _ => Pcb.zeroed) fun _ _ => 0).rtc.WriteExact none 4 := by
  refine ⟨fun h => ?_, fun h => ?_⟩
  · have hresult := h.rejected fun ⟨_, _, hfour, _⟩ => absurd hfour (by decide)
    have hcode := congrArg (Option.map Prod.fst) hresult
    exact absurd hcode (by decide)
  · have hresult := h.rejected fun ⟨_, hbuf, _⟩ => by cases hbuf
    cases hresult

end Rtc

end OsKernel
