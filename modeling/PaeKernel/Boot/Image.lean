import PaeKernel.Address.Align

/-!
# Where things lie in physical memory

    0x1000   five pages of tables made before paging is on
    1 MiB    the kernel image, the heap, frames for tables made by page faults
    2 MiB    memory mapped on demand
-/

namespace PaeKernel

/-- Where the kernel image is loaded. -/
def loadAddress : Nat := 0x100000

/-- Memory below this address is mapped to itself from the start. -/
def identityLimit : Nat := 0x200000

/-- The pages below the identity limit. -/
def identityPages : Nat := identityLimit / pageSize

/-- A sample value for the first address after the kernel image, which the linker decides. -/
def imageEnd : Nat := 0x10E2A8

/-- The most frames set aside for tables made by page faults. -/
def tableFrames : Nat := 64

/-- The bytes of the kernel's stack. -/
def stackBytes : Nat := 16 * 1024

/-- The pages of the first tables. -/
def rootPage : Nat := 0x1000
def directoryPage : Nat := 0x2000
def tablePage : Nat := 0x3000
def sparePage1 : Nat := 0x4000
def sparePage2 : Nat := 0x5000

theorem identityPages_eq : identityPages = 512 := rfl

theorem sparePage2_below_load : sparePage2 + pageSize ≤ loadAddress := by decide

end PaeKernel
