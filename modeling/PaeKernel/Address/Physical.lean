import PaeKernel.Address.Align
import PaeKernel.Numeral

/-!
# Physical addresses

A physical address is a 64-bit number. Adding to it panics where the sum is not an address.
-/

namespace PaeKernel

/-- An address of physical memory. -/
@[ext] structure PhysicalAddress where
  toNat : Nat
  isLt : toNat < wordLimit
  deriving DecidableEq

namespace PhysicalAddress

/-- The address with this number, cut to 64 bits. -/
def ofNat (n : Nat) : PhysicalAddress := ⟨n % wordLimit, Nat.mod_lt _ (by decide)⟩

/-- The lowest address. -/
def zero : PhysicalAddress := ofNat 0

instance : Inhabited PhysicalAddress := ⟨zero⟩

@[simp] theorem toNat_ofNat (n : Nat) : (ofNat n).toNat = n % wordLimit := rfl

/-- The first address of the page that holds this one. -/
def pageBase (a : PhysicalAddress) : PhysicalAddress :=
  ⟨a.toNat / 4096 * 4096, Nat.lt_of_le_of_lt (Nat.div_mul_le_self _ _) a.isLt⟩

/-- The address so many bytes further on. -/
def add (a : PhysicalAddress) (bytes : Nat) : Except Panic PhysicalAddress :=
  if h : a.toNat + bytes < wordLimit then .ok ⟨a.toNat + bytes, h⟩ else .error .addOverflow

/-- Whether the address is the first of a page. -/
def isPageAligned (a : PhysicalAddress) : Bool := a.toNat % pageSize == 0

/-- How an address is written in messages. -/
def display (a : PhysicalAddress) : String := "0x" ++ Numeral.upperDigits 8 a.toNat

/-- How an address is written for a developer. -/
def describe (a : PhysicalAddress) : String := s!"PA(0x{Numeral.upperDigits 12 a.toNat})"

theorem alignDown_toNat (a : PhysicalAddress) :
    alignDown a.toNat pageSize = .ok a.pageBase.toNat :=
  alignDown_pageSize a.isLt

theorem isAligned_pageSize (a : PhysicalAddress) :
    isAligned a.toNat pageSize = .ok a.isPageAligned := by
  have h : a.toNat &&& (4096 - 1) = a.toNat % 4096 :=
    Nat.and_two_pow_sub_one_eq_mod a.toNat 12
  exact congrArg (fun n => Except.ok (n == 0)) h

end PhysicalAddress

end PaeKernel
