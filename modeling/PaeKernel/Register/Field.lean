import PaeKernel.Exec

/-!
# Bit fields

A field is a run of bits in a word. `get` reads it and `put` replaces it and leaves every other
bit alone; a value with more bits than the field panics.
-/

namespace PaeKernel

/-- A run of bits; a flag is a single bit read as a truth value. -/
structure Field where
  name : String
  low : Nat
  width : Nat := 1
  flag : Bool := true
  deriving Repr, DecidableEq

namespace Field

/-- A flag at one bit. -/
def bit (name : String) (low : Nat) : Field := { name, low }

/-- A number in several bits. -/
def number (name : String) (low width : Nat) : Field := { name, low, width, flag := false }

/-- The value of a field in a word. -/
def get (f : Field) (bits : Nat) : Nat := (bits >>> f.low) % (1 <<< f.width)

/-- Whether a flag is set. -/
def isSet (f : Field) (bits : Nat) : Bool := f.get bits != 0

/-- The word with the field at zero. -/
def clear (f : Field) (bits : Nat) : Nat := bits - f.get bits <<< f.low

/-- The word with the field at this value. -/
def put (f : Field) (value bits : Nat) : Except Panic Nat :=
  if value < 1 <<< f.width then .ok (f.clear bits + value <<< f.low)
  else .error (.fieldTooLarge (1 <<< f.width - 1))

/-- The word with the flag set or cleared. -/
def putFlag (f : Field) (value : Bool) (bits : Nat) : Nat :=
  f.clear bits + value.toNat <<< f.low

theorem clear_split (f : Field) (bits : Nat) :
    f.clear bits = bits >>> (f.low + f.width) <<< (f.low + f.width) + bits % (1 <<< f.low) := by
  have hlow := Nat.div_add_mod bits (2 ^ f.low)
  have hhigh := Nat.div_add_mod (bits / 2 ^ f.low) (2 ^ f.width)
  rw [Nat.div_div_eq_div_mul, ← Nat.pow_add] at hhigh
  simp only [clear, get, Nat.shiftRight_eq_div_pow, Nat.shiftLeft_eq, Nat.one_mul]
  have hbits : bits = bits / 2 ^ (f.low + f.width) * 2 ^ (f.low + f.width)
      + bits / 2 ^ f.low % 2 ^ f.width * 2 ^ f.low + bits % 2 ^ f.low := by
    rw [Nat.pow_add] at *
    grind
  omega

theorem put_of_lt {f : Field} {value : Nat} (h : value < 1 <<< f.width) (bits : Nat) :
    f.put value bits = .ok (f.clear bits + value <<< f.low) := by
  rw [put, if_pos h]

theorem get_put {f : Field} {value bits bits' : Nat} (h : f.put value bits = .ok bits') :
    f.get bits' = value := by
  unfold put at h
  split at h
  · rename_i hv
    cases h
    have hpos : 0 < 2 ^ f.low := Nat.two_pow_pos _
    have hmod : bits % 2 ^ f.low < 2 ^ f.low := Nat.mod_lt _ hpos
    rw [clear_split, get]
    simp only [Nat.shiftRight_eq_div_pow, Nat.shiftLeft_eq, Nat.one_mul, Nat.pow_add] at hv ⊢
    have hsum : bits / (2 ^ f.low * 2 ^ f.width) * (2 ^ f.low * 2 ^ f.width) + bits % 2 ^ f.low
        + value * 2 ^ f.low
        = bits % 2 ^ f.low + 2 ^ f.low * (value + 2 ^ f.width
          * (bits / (2 ^ f.low * 2 ^ f.width))) := by grind
    rw [hsum, Nat.add_mul_div_left _ _ hpos, Nat.div_eq_of_lt hmod, Nat.zero_add,
      Nat.add_mul_mod_self_left, Nat.mod_eq_of_lt hv]
  · cases h

theorem get_put_of_above {f g : Field} {value bits bits' : Nat} (h : f.put value bits = .ok bits')
    (hg : f.low + f.width ≤ g.low) : g.get bits' = g.get bits := by
  unfold put at h
  split at h
  · rename_i hv
    cases h
    have hpos : 0 < 2 ^ (f.low + f.width) := Nat.two_pow_pos _
    have hmod : bits % 2 ^ f.low < 2 ^ f.low := Nat.mod_lt _ (Nat.two_pow_pos _)
    have hlow : bits % 2 ^ f.low + value * 2 ^ f.low < 2 ^ (f.low + f.width) := by
      rw [Nat.one_shiftLeft] at hv
      have := Nat.mul_le_mul_left (2 ^ f.low) (Nat.succ_le_of_lt hv)
      rw [Nat.pow_add]
      grind
    have hshift : (f.clear bits + value <<< f.low) >>> (f.low + f.width)
        = bits >>> (f.low + f.width) := by
      have hsum : bits / 2 ^ (f.low + f.width) * 2 ^ (f.low + f.width) + bits % 2 ^ f.low
          + value * 2 ^ f.low
          = bits % 2 ^ f.low + value * 2 ^ f.low
            + 2 ^ (f.low + f.width) * (bits / 2 ^ (f.low + f.width)) := by grind
      rw [clear_split]
      simp only [Nat.shiftRight_eq_div_pow, Nat.shiftLeft_eq, Nat.one_mul]
      rw [hsum, Nat.add_mul_div_left _ _ hpos, Nat.div_eq_of_lt hlow, Nat.zero_add]
    obtain ⟨k, hk⟩ := Nat.exists_eq_add_of_le hg
    rw [get, get, hk, Nat.shiftRight_add, hshift, ← Nat.shiftRight_add]
  · cases h

theorem get_put_of_below {f g : Field} {value bits bits' : Nat} (h : f.put value bits = .ok bits')
    (hg : g.low + g.width ≤ f.low) : g.get bits' = g.get bits := by
  unfold put at h
  split at h
  · cases h
    obtain ⟨k, hk⟩ := Nat.exists_eq_add_of_le hg
    have hsum : f.clear bits + value <<< f.low
        = bits % 2 ^ f.low
          + 2 ^ f.low * (value + bits / 2 ^ (f.low + f.width) * 2 ^ f.width) := by
      rw [clear_split]
      simp only [Nat.shiftRight_eq_div_pow, Nat.shiftLeft_eq, Nat.one_mul, Nat.pow_add]
      grind
    have hread (n : Nat) : g.get n = n % 2 ^ (g.low + g.width) / 2 ^ g.low := by
      rw [get, Nat.shiftRight_eq_div_pow, Nat.one_shiftLeft, Nat.pow_add, Nat.mod_mul_right_div_self]
    rw [hsum, hread, hread, hk, Nat.pow_add, Nat.mul_assoc, Nat.add_mul_mod_self_left,
      Nat.mod_mul_right_mod]
  · cases h

end Field

/-- The fields of a register and the number of its bits. -/
structure RegisterLayout where
  width : Nat
  fields : List Field
  deriving Repr

/-- The field with a given name. -/
def RegisterLayout.field? (r : RegisterLayout) (name : String) : Option Field :=
  r.fields.find? (·.name == name)

end PaeKernel
