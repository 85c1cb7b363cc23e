import Mathlib.Order.Bounds.Defs
import PaeKernel.Address.Align

/-!
# Rounding is exact

For powers of two, `alignDown` gives the greatest multiple that is not above a word and `alignUp`
the least one that is not below it. `alignUp` adds the power first, and where that sum is not a word
it panics. So it does even for the last multiple that is a word, which needs no rounding
(`align_exact`).
-/

namespace PaeKernel

variable {x k : Nat}

theorem isGreatest_shiftRight_shiftLeft (x k : Nat) :
    IsGreatest {b | 1 <<< k ∣ b ∧ b ≤ x} (x >>> k <<< k) := by
  rw [Nat.one_shiftLeft, Nat.shiftLeft_eq, Nat.shiftRight_eq_div_pow]
  refine ⟨⟨Nat.dvd_mul_left .., Nat.div_mul_le_self ..⟩, ?_⟩
  rintro b ⟨hdvd, hle⟩
  calc b = b / 2 ^ k * 2 ^ k := (Nat.div_mul_cancel hdvd).symm
    _ ≤ x / 2 ^ k * 2 ^ k := Nat.mul_le_mul_right _ (Nat.div_le_div_right hle)

/-- The greatest multiple up to `x + a - 1` is the least one from `x` on. -/
theorem isLeast_of_isGreatest {a u : Nat} (ha : 0 < a)
    (h : IsGreatest {b | a ∣ b ∧ b ≤ x + a - 1} u) : IsLeast {b | a ∣ b ∧ x ≤ b} u := by
  obtain ⟨⟨hdvd, hle⟩, hmax⟩ := h
  refine ⟨⟨hdvd, ?_⟩, ?_⟩
  · -- otherwise the next multiple is within reach too
    refine Nat.le_of_not_lt fun hlt => ?_
    have hnext : u + a ≤ u := hmax ⟨Nat.dvd_add hdvd (Nat.dvd_refl a), by omega⟩
    omega
  · rintro b ⟨hb, hxb⟩
    refine Nat.le_of_not_lt fun hlt => ?_
    have hgap : a ≤ u - b := Nat.le_of_dvd (by omega) (Nat.dvd_sub hdvd hb)
    omega

/-- Rounding to a power of two gives the nearest multiples, and rounding up panics exactly where the
sum of the word and the power is not a word. -/
theorem align_exact (hx : x < wordLimit) (hk : k ≤ 63) :
    (∃ d, alignDown x (1 <<< k) = .ok d ∧ IsGreatest {b | 1 <<< k ∣ b ∧ b ≤ x} d)
      ∧ (x + 1 <<< k < wordLimit →
        ∃ u, alignUp x (1 <<< k) = .ok u ∧ IsLeast {b | 1 <<< k ∣ b ∧ x ≤ b} u)
      ∧ (wordLimit ≤ x + 1 <<< k → alignUp x (1 <<< k) = .error .addOverflow)
      ∧ (alignUp x (1 <<< k) = .ok x ↔ 1 <<< k ∣ x ∧ x + 1 <<< k < wordLimit) := by
  have hpos : 0 < 1 <<< k := by rw [Nat.one_shiftLeft]; exact Nat.two_pow_pos k
  have hup : x + 1 <<< k < wordLimit →
      ∃ u, alignUp x (1 <<< k) = .ok u ∧ IsLeast {b | 1 <<< k ∣ b ∧ x ≤ b} u := fun h =>
    ⟨_, alignUp_one_shiftLeft hk h,
      isLeast_of_isGreatest hpos (isGreatest_shiftRight_shiftLeft (x + 1 <<< k - 1) k)⟩
  refine ⟨⟨_, alignDown_one_shiftLeft hx hk, isGreatest_shiftRight_shiftLeft x k⟩, hup,
    alignUp_of_ge, ?_, ?_⟩
  · intro hself
    have hsum : x + 1 <<< k < wordLimit := by
      refine Nat.lt_of_not_le fun hge => ?_
      rw [alignUp_of_ge hge] at hself
      cases hself
    obtain ⟨u, hu, hleast⟩ := hup hsum
    obtain rfl : u = x := by rw [hu] at hself; exact Except.ok.inj hself
    exact ⟨hleast.1.1, hsum⟩
  · rintro ⟨hdvd, hsum⟩
    obtain ⟨u, hu, hleast⟩ := hup hsum
    rw [hu, Nat.le_antisymm (hleast.2 ⟨hdvd, Nat.le_refl x⟩) hleast.1.2]

theorem align_exact_sample :
    ((0x12345 < wordLimit ∧ 4 ≤ 63)
      ∧ alignUp 0x12345 (1 <<< 4) = .ok 0x12350 ∧ IsLeast {b | 1 <<< 4 ∣ b ∧ 0x12345 ≤ b} 0x12350)
      ∧ (0xfffffffffffff000 < wordLimit ∧ 12 ≤ 63)
      ∧ 1 <<< 12 ∣ 0xfffffffffffff000
      ∧ alignUp 0xfffffffffffff000 (1 <<< 12) = .error .addOverflow := by
  have hinside := align_exact (x := 0x12345) (k := 4) (by decide) (by decide)
  have hlast := align_exact (x := 0xfffffffffffff000) (k := 12) (by decide) (by decide)
  obtain ⟨u, hu, hleast⟩ := hinside.2.1 (by decide)
  have hup : alignUp 0x12345 (1 <<< 4) = .ok 0x12350 := by rfl
  obtain rfl : 0x12350 = u := Except.ok.inj (hup.symm.trans hu)
  exact ⟨⟨by decide, hup, hleast⟩, by decide, by decide, hlast.2.2.1 (by decide)⟩

end PaeKernel
