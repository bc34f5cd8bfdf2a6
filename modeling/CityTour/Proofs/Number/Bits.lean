import Mathlib
import CityTour.Proofs.Number.Double
import CityTour.Proofs.Number.Rounding

/-! The bits of doubles.  `ofMagnitude` makes a double of a sign and the bits below it, which are
read back from it.  A finite double has the bits of its own value (`bitsOf_of_reading`), and its
mantissa and exponent are canonical. -/

namespace CityTour.Double

/-- The bit of a sign. -/
def signBit (negative : Bool) : ℕ := if negative then 2 ^ 63 else 0

@[simp] theorem signBit_false : signBit false = 0 := rfl

@[simp] theorem signBit_true : signBit true = 2 ^ 63 := rfl

/-- The double with a sign and the other sixty-three bits. -/
def ofMagnitude (negative : Bool) (bits : ℕ) : Float :=
  Float.ofBits (UInt64.ofNat (signBit negative + bits))

variable {s : Bool} {bits m den : ℕ} {e : ℤ} {x : Float}

theorem nearest_eq (s : Bool) (num : ℕ) (hden : 0 < den) :
    nearest s num den = ofMagnitude s (bitsOf (num / den)) := by
  have hmagnitude : (if num = 0 then 0 else nearestBits num den) = bitsOf (num / den) := by
    rcases Nat.eq_zero_or_pos num with rfl | hnum
    · simp
    · rw [if_neg hnum.ne', nearestBits_eq hnum hden]
  simp only [nearest, hmagnitude, ofMagnitude, signBit, Nat.pow_eq]
  cases s with
  | false => simp
  | true => rfl

theorem infinity_eq (s : Bool) : infinity s = ofMagnitude s (2047 * 2 ^ 52) := by
  simp only [infinity, ofMagnitude, signBit, Nat.pow_eq]

theorem signBit_le (s : Bool) : signBit s ≤ 2 ^ 63 := by
  cases s with
  | false => exact Nat.zero_le _
  | true => exact le_rfl

theorem signBit_add_lt (s : Bool) (h : bits ≤ 2047 * 2 ^ 52) : signBit s + bits < 2 ^ 64 := by
  have := signBit_le s
  omega

open Float.Model Float.Model.UnpackedFloat in
/-- Bits that do not stand for no number are those of their double. -/
theorem toBits_ofBits {u : UInt64}
    (h : ¬ (u.toNat / 2 ^ 52 % 2 ^ 11 = 2047 ∧ u.toNat % 2 ^ 52 ≠ 0)) :
    (Float.ofBits u).toBits = u := by
  let b : BitVec Format.binary64.numBits := u.toBitVec
  have hnan : isNaNBits b = false := by
    rw [isNaNBits, decide_eq_false_iff_not]
    rintro ⟨hexponent, hmantissa⟩
    rw [← BitVec.toNat_inj, toNat_unpackExponent] at hexponent
    rw [Ne, ← BitVec.toNat_inj, toNat_unpackMantissa] at hmantissa
    exact h ⟨hexponent, hmantissa⟩
  have hpack := pack_unpack b
  rw [hnan] at hpack
  exact UInt64.toBitVec_inj.mp hpack

theorem toNat_toBits_ofMagnitude (s : Bool) (h : bits ≤ 2047 * 2 ^ 52) :
    (ofMagnitude s bits).toBits.toNat = signBit s + bits := by
  have hlt := signBit_add_lt s h
  have hnat : (UInt64.ofNat (signBit s + bits)).toNat = signBit s + bits :=
    UInt64.toNat_ofNat_of_lt' hlt
  rw [ofMagnitude, toBits_ofBits, hnat]
  rw [hnat]
  cases s with
  | false => rw [signBit_false]; omega
  | true => rw [signBit_true]; omega

theorem ofMagnitude_injective {bits' : ℕ} (h : bits ≤ 2047 * 2 ^ 52) (h' : bits' ≤ 2047 * 2 ^ 52)
    (heq : ofMagnitude s bits = ofMagnitude s bits') : bits = bits' := by
  have hbits := congrArg (fun x : Float => x.toBits.toNat) heq
  simp only [toNat_toBits_ofMagnitude s h, toNat_toBits_ofMagnitude s h'] at hbits
  omega

/-- A double is made of its sign and its other bits. -/
theorem ofMagnitude_toBits (h : x.toBits.toNat = signBit s + bits) : ofMagnitude s bits = x := by
  rw [ofMagnitude, ← h, UInt64.ofNat_toNat, Float.ofBits_toBits]

/-! ### Finite doubles -/

/-- The bits of a canonical mantissa and exponent. -/
def canonicalBits (m : ℕ) (e : ℤ) : ℕ := (e + 1074).toNat * 2 ^ 52 + m

theorem Canonical.bits_lt (h : Canonical m e) (he : e ≤ 971) :
    canonicalBits m e < 2047 * 2 ^ 52 := by
  have hlt := h.mantissa_lt
  unfold canonicalBits
  omega

theorem exists_canonicalBits (h : bits < 2047 * 2 ^ 52) :
    ∃ m e, Canonical m e ∧ e ≤ 971 ∧ canonicalBits m e = bits := by
  unfold canonicalBits
  by_cases hsub : bits < 2 ^ 52
  · exact ⟨bits, -1074, ⟨by omega, le_rfl, .inl rfl⟩, by norm_num, by omega⟩
  · refine ⟨2 ^ 52 + bits % 2 ^ 52, bits / 2 ^ 52 - 1075, ⟨by omega, by omega, .inr ?_⟩, by omega,
      by omega⟩
    exact Nat.le_add_right _ _

theorem readingOfBits_finite {b : ℕ} (hb : b < 2 ^ 64) (h : readingOfBits b = .finite s m e) :
    Canonical m e ∧ e ≤ 971 ∧ b = signBit s + canonicalBits m e := by
  have hsign : signBit (b / 2 ^ 63 % 2 == 1) = b / 2 ^ 63 * 2 ^ 63 := by
    rcases (show b / 2 ^ 63 = 0 ∨ b / 2 ^ 63 = 1 by omega) with h0 | h1
    · rw [h0]
      rfl
    · rw [h1]
      rfl
  simp only [readingOfBits, Nat.pow_eq] at h
  by_cases h1 : b / 2 ^ 52 % 2 ^ 11 = 2047
  · rw [if_pos h1] at h
    split at h <;> cases h
  rw [if_neg h1] at h
  by_cases h2 : b / 2 ^ 52 % 2 ^ 11 = 0
  · rw [if_pos h2] at h
    cases h
    refine ⟨⟨by omega, le_rfl, .inl rfl⟩, by norm_num, ?_⟩
    rw [hsign, canonicalBits]
    omega
  · rw [if_neg h2] at h
    cases h
    refine ⟨⟨by omega, by omega, .inr (Nat.le_add_right _ _)⟩, by omega, ?_⟩
    rw [hsign, canonicalBits]
    omega

theorem canonical_of_reading (h : reading x = .finite s m e) :
    Canonical m e ∧ e ≤ 971 ∧ x.toBits.toNat = signBit s + canonicalBits m e :=
  readingOfBits_finite x.toBits.toNat_lt h

theorem reading_ofMagnitude (h : Canonical m e) (he : e ≤ 971) :
    reading (ofMagnitude s (canonicalBits m e)) = .finite s m e := by
  have hlt := h.bits_lt he
  obtain ⟨hm, hmin, hnormal⟩ := h
  rw [reading, toNat_toBits_ofMagnitude s hlt.le]
  -- The fields of the bits are those of the magnitude, below the sign.
  have hfields : (signBit s + canonicalBits m e) / 2 ^ 63 % 2 = (if s then 1 else 0) ∧
      (signBit s + canonicalBits m e) / 2 ^ 52 % 2 ^ 11 = canonicalBits m e / 2 ^ 52 ∧
      (signBit s + canonicalBits m e) % 2 ^ 52 = canonicalBits m e % 2 ^ 52 := by
    cases s with
    | false => rw [signBit_false]; simp only [Bool.false_eq_true, if_false]; omega
    | true => rw [signBit_true]; simp only [if_true]; omega
  obtain ⟨hsign, hexponent, hmantissa⟩ := hfields
  have hnegative : ((signBit s + canonicalBits m e) / 2 ^ 63 % 2 == 1) = s := by
    rw [hsign]
    cases s <;> rfl
  have hfinite : canonicalBits m e / 2 ^ 52 ≠ 2047 := by omega
  simp only [readingOfBits, Nat.pow_eq, hnegative, hexponent, hmantissa]
  rw [if_neg hfinite]
  unfold canonicalBits
  by_cases hsub : m < 2 ^ 52
  · obtain rfl : e = -1074 := hnormal.resolve_right (not_le.mpr hsub)
    rw [if_pos (by omega), show ((-1074 + 1074 : ℤ).toNat * 2 ^ 52 + m) % 2 ^ 52 = m by omega]
  · rw [if_neg (by omega), Reading.finite.injEq]
    exact ⟨rfl, by omega, by omega⟩

/-- The magnitude of a finite double. -/
theorem bitsOf_of_reading (h : reading x = .finite s m e) :
    x = ofMagnitude s (bitsOf (m * 2 ^ e)) := by
  obtain ⟨hcanonical, he, hbits⟩ := canonical_of_reading h
  rw [bitsOf_of_canonical hcanonical he]
  exact (ofMagnitude_toBits hbits).symm

theorem exactValue_eq (s : Bool) (m : ℕ) (e : ℤ) :
    Label.exactValue s m e = if s then -(m * 2 ^ e : ℚ) else m * 2 ^ e := by
  have hmagnitude : (if e < 0 then mkRat m (Nat.pow 2 (-e).toNat)
      else ((m * Nat.pow 2 e.toNat : ℕ) : ℚ)) = m * 2 ^ e := by
    by_cases he : e < 0
    · obtain ⟨k, rfl⟩ := Int.exists_eq_neg_ofNat he.le
      rw [if_pos he, Rat.mkRat_eq_div]
      simp [zpow_neg, div_eq_mul_inv]
    · obtain ⟨k, rfl⟩ := Int.eq_ofNat_of_zero_le (not_lt.mp he)
      rw [if_neg he]
      simp
  simp only [Label.exactValue, hmagnitude]

end CityTour.Double
