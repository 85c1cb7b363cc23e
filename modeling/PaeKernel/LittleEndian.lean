/-!
# Numbers as bytes

Least significant byte first. `decode_encode` and `encode_decode` say that the two directions undo
each other.
-/

namespace PaeKernel.LittleEndian

/-- The number that bytes spell. -/
def decode : List UInt8 → Nat
  | [] => 0
  | b :: rest => b.toNat + 256 * decode rest

/-- The lowest `count` bytes of a number. -/
def encode : (count n : Nat) → List UInt8
  | 0, _ => []
  | count + 1, n => UInt8.ofNat n :: encode count (n / 256)

/-- The number in the first `count` bytes, if there are so many. -/
def read? (count : Nat) (bytes : List UInt8) : Option Nat :=
  if (bytes.take count).length = count then some (decode (bytes.take count)) else none

@[simp] theorem length_encode (count n : Nat) : (encode count n).length = count := by
  induction count generalizing n with
  | zero => rfl
  | succ count ih => simp [encode, ih]

theorem one_shiftLeft_mul_succ (count : Nat) :
    1 <<< (8 * (count + 1)) = 256 * (1 <<< (8 * count)) := by
  rw [Nat.shiftLeft_eq, Nat.shiftLeft_eq, Nat.mul_add, Nat.pow_add]; omega

theorem decode_encode {count n : Nat} (h : n < 1 <<< (8 * count)) : decode (encode count n) = n := by
  induction count generalizing n with
  | zero => rw [Nat.mul_zero, Nat.shiftLeft_zero] at h; rw [encode, decode]; omega
  | succ count ih =>
    rw [one_shiftLeft_mul_succ] at h
    rw [encode, decode, ih (by omega), UInt8.toNat_ofNat']
    omega

theorem decode_lt (bytes : List UInt8) : decode bytes < 1 <<< (8 * bytes.length) := by
  induction bytes with
  | nil => simp [decode]
  | cons b rest ih =>
    have := b.toNat_lt
    rw [decode, List.length_cons, one_shiftLeft_mul_succ]
    omega

theorem encode_decode (bytes : List UInt8) : encode bytes.length (decode bytes) = bytes := by
  induction bytes with
  | nil => rfl
  | cons b rest ih =>
    have hb := b.toNat_lt
    have hq : (b.toNat + 256 * decode rest) / 256 = decode rest := by omega
    rw [List.length_cons, decode, encode, hq, ih]
    refine congrArg (· :: rest) (UInt8.toNat_inj.1 ?_)
    rw [UInt8.toNat_ofNat']
    omega

theorem read?_append {count : Nat} {bytes : List UInt8} (h : bytes.length = count)
    (rest : List UInt8) : read? count (bytes ++ rest) = some (decode bytes) := by
  subst h; simp [read?]

theorem read?_eq_none_iff {count : Nat} {bytes : List UInt8} :
    read? count bytes = none ↔ bytes.length < count := by
  simp only [read?, List.length_take]
  by_cases h : min count bytes.length = count <;> simp [h] <;> omega

end PaeKernel.LittleEndian
