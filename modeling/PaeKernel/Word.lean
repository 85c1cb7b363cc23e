/-!
# Sizes of numbers

The limits are written out as numerals, and powers of two with a variable exponent as shifts.
-/

namespace PaeKernel

/-- Memory words and physical addresses, of 64 bits, are below this number. -/
def wordLimit : Nat := 0x10000000000000000

/-- Registers and virtual addresses, of 32 bits, are below this number. -/
def registerLimit : Nat := 0x100000000

theorem wordLimit_eq : wordLimit = 1 <<< 64 := rfl

theorem registerLimit_eq : registerLimit = 1 <<< 32 := rfl

end PaeKernel
