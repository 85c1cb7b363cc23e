import PaeKernel.Exec

/-!
# Rounding to a multiple of a power of two

`alignDown` and `alignUp` clear the low bits of a word. They are meant for powers of two, where
they are the nearest multiples below and above; `alignDown_pageSize` and `alignUp_pageSize` say so
for pages. Intermediate results that are not words panic.
-/

namespace PaeKernel

/-- The bytes in a page. -/
def pageSize : Nat := 4096

/-- The number of address bits inside a page. -/
def pageShift : Nat := 12

/-- Keeps the bits of `x` that are not in `mask`. -/
def clearBits (x mask : Nat) : Nat := x &&& (wordLimit - 1 - mask)

/-- Rounds `x` down to a multiple of the power of two `a`. -/
def alignDown (x a : Nat) : Except Panic Nat := do
  let mask ← subWord a 1
  return clearBits x mask

/-- Rounds `x` up to a multiple of the power of two `a`. -/
def alignUp (x a : Nat) : Except Panic Nat := do
  let reach ← addWord x a
  let last ← subWord reach 1
  let mask ← subWord a 1
  return clearBits last mask

/-- Whether `x` is a multiple of the power of two `a`. -/
def isAligned (x a : Nat) : Except Panic Bool := do
  let mask ← subWord a 1
  return x &&& mask == 0

theorem clearBits_low {x k : Nat} (hx : x < wordLimit) (hk : k ≤ 64) :
    clearBits x (1 <<< k - 1) = x >>> k <<< k := by
  have hpos : 0 < 2 ^ k := Nat.two_pow_pos k
  have hle : 2 ^ k ≤ 2 ^ 64 := Nat.pow_le_pow_right (by decide) hk
  have hlimit : wordLimit = 2 ^ 64 := rfl
  have hmask : wordLimit - 1 - (2 ^ k - 1) = 2 ^ k * (2 ^ (64 - k) - 1) := by
    have hsplit : 2 ^ k * 2 ^ (64 - k) = 2 ^ 64 := by rw [← Nat.pow_add]; congr 1; omega
    rw [Nat.mul_sub, hsplit, hlimit]; omega
  rw [Nat.one_shiftLeft, clearBits, hmask]
  apply Nat.eq_of_testBit_eq
  intro i
  rw [Nat.testBit_and, Nat.testBit_two_pow_mul, Nat.testBit_shiftLeft, Nat.testBit_shiftRight]
  by_cases hi : k ≤ i
  · have hki : k + (i - k) = i := by omega
    have hlow : x.testBit i = true → i - k < 64 - k := by
      intro hb
      by_cases h64 : i < 64
      · omega
      · have hz : x.testBit i = false :=
          Nat.testBit_lt_two_pow (Nat.lt_of_lt_of_le hx
            (hlimit ▸ Nat.pow_le_pow_right (by decide) (by omega)))
        simp [hz] at hb
    cases hb : x.testBit i <;> simp_all [Nat.testBit_two_pow_sub_one]
  · simp [hi]

theorem alignDown_one_shiftLeft {x k : Nat} (hx : x < wordLimit) (hk : k ≤ 63) :
    alignDown x (1 <<< k) = .ok (x >>> k <<< k) := by
  have hpos : 1 ≤ 1 <<< k := by rw [Nat.one_shiftLeft]; exact Nat.two_pow_pos k
  rw [alignDown, subWord_of_le hpos]
  exact congrArg Except.ok (clearBits_low hx (by omega))

theorem alignUp_one_shiftLeft {x k : Nat} (hk : k ≤ 63) (h : x + 1 <<< k < wordLimit) :
    alignUp x (1 <<< k) = .ok ((x + 1 <<< k - 1) >>> k <<< k) := by
  have hpos : 1 ≤ 1 <<< k := by rw [Nat.one_shiftLeft]; exact Nat.two_pow_pos k
  rw [alignUp, addWord_of_lt h]
  change (subWord (x + 1 <<< k) 1 >>= fun last => subWord (1 <<< k) 1 >>= fun mask =>
    Except.ok (clearBits last mask)) = _
  rw [subWord_of_le (by omega), subWord_of_le hpos]
  exact congrArg Except.ok (clearBits_low (by omega) (by omega))

theorem alignDown_pageSize {x : Nat} (hx : x < wordLimit) :
    alignDown x pageSize = .ok (x / 4096 * 4096) := by
  rw [show pageSize = 1 <<< 12 from rfl, alignDown_one_shiftLeft hx (by decide)]
  congr 1; omega

theorem alignUp_pageSize {x : Nat} (h : x + 4096 < wordLimit) :
    alignUp x pageSize = .ok ((x + 4095) / 4096 * 4096) := by
  rw [show pageSize = 1 <<< 12 from rfl, alignUp_one_shiftLeft (by decide) h]
  congr 1; omega

theorem alignUp_of_aligned {x : Nat} (hx : x % 4096 = 0) (h : x + 4096 < wordLimit) :
    alignUp x pageSize = .ok x := by
  rw [alignUp_pageSize h]
  congr 1
  omega

theorem alignDown_of_aligned {x : Nat} (hx : x % 4096 = 0) (h : x < wordLimit) :
    alignDown x pageSize = .ok x := by
  rw [alignDown_pageSize h]
  congr 1
  omega

theorem alignUp_of_ge {x a : Nat} (h : wordLimit ≤ x + a) : alignUp x a = .error .addOverflow := by
  rw [alignUp, addWord, if_neg (Nat.not_lt.2 h)]
  rfl

/-- Rounding up to pages gives the first multiple that is not below. -/
theorem pageUp_least (x : Nat) : x ≤ (x + 4095) / 4096 * 4096
    ∧ ∀ b, b % pageSize = 0 → x ≤ b → (x + 4095) / 4096 * 4096 ≤ b := by
  refine ⟨by omega, ?_⟩
  intro b hb hle
  simp only [pageSize] at hb
  omega

end PaeKernel
