import PaeKernel.Address.Physical

/-!
# Virtual addresses

A virtual address is a 32-bit number made of three table indices and an offset inside the page.
`ofIndices_indices` says that the indices and the offset lose nothing.
-/

namespace PaeKernel

/-- An address as a program sees it. -/
@[ext] structure VirtualAddress where
  toNat : Nat
  isLt : toNat < registerLimit
  deriving DecidableEq

namespace VirtualAddress

/-- The address with this number, cut to 32 bits. -/
def ofNat (n : Nat) : VirtualAddress := ⟨n % registerLimit, Nat.mod_lt _ (by decide)⟩

/-- The lowest address. -/
def zero : VirtualAddress := ofNat 0

instance : Inhabited VirtualAddress := ⟨zero⟩

@[simp] theorem toNat_ofNat (n : Nat) : (ofNat n).toNat = n % registerLimit := rfl

/-- Selects the entry of the root table. -/
def pdptIndex (a : VirtualAddress) : Fin 4 :=
  ⟨a.toNat >>> 30, by have := a.isLt; simp only [registerLimit] at this; omega⟩

/-- Selects the entry of the directory. -/
def pdIndex (a : VirtualAddress) : Fin 512 :=
  ⟨(a.toNat >>> 21) % 512, Nat.mod_lt _ (by decide)⟩

/-- Selects the entry of the last table. -/
def ptIndex (a : VirtualAddress) : Fin 512 :=
  ⟨(a.toNat >>> 12) % 512, Nat.mod_lt _ (by decide)⟩

/-- The place inside the page. -/
def pageOffset (a : VirtualAddress) : Nat := a.toNat % 4096

/-- The place inside a large page of two mebibytes. -/
def largePageOffset (a : VirtualAddress) : Nat := a.toNat % 0x200000

/-- The first address of the page that holds this one. -/
def pageBase (a : VirtualAddress) : VirtualAddress :=
  ⟨a.toNat / 4096 * 4096, Nat.lt_of_le_of_lt (Nat.div_mul_le_self _ _) a.isLt⟩

/-- The physical address with the same number. -/
def identity (a : VirtualAddress) : PhysicalAddress :=
  ⟨a.toNat, Nat.lt_trans a.isLt (by decide)⟩

/-- The first address of the page with these indices; indices beyond their tables panic. -/
def ofIndices (pdpt pd pt : Nat) : Except Panic VirtualAddress :=
  if pdpt < 4 ∧ pd < 512 ∧ pt < 512 then
    .ok (ofNat (pdpt <<< 30 + pd <<< 21 + pt <<< 12))
  else .error .addressIndicesTooLarge

/-- How an address is written in messages. -/
def display (a : VirtualAddress) : String := "0x" ++ Numeral.upperDigits 8 a.toNat

/-- How an address is written for a developer. -/
def describe (a : VirtualAddress) : String := s!"VA(0x{Numeral.upperDigits 8 a.toNat})"

theorem indices_spell (a : VirtualAddress) :
    a.toNat = a.pdptIndex.val <<< 30 + a.pdIndex.val <<< 21 + a.ptIndex.val <<< 12 + a.pageOffset := by
  simp only [pdptIndex, pdIndex, ptIndex, pageOffset]; omega

theorem ofIndices_indices (a : VirtualAddress) :
    ofIndices a.pdptIndex a.pdIndex a.ptIndex = .ok a.pageBase := by
  have h := a.indices_spell
  have hlt := a.isLt
  rw [ofIndices, if_pos ⟨a.pdptIndex.isLt, a.pdIndex.isLt, a.ptIndex.isLt⟩]
  refine congrArg Except.ok (VirtualAddress.ext ?_)
  simp only [toNat_ofNat, pageBase, pageOffset, registerLimit] at *
  omega

end VirtualAddress

end PaeKernel
