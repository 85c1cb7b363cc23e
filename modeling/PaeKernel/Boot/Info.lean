import PaeKernel.Boot.MemoryMap
import PaeKernel.Memory
import PaeKernel.Register.Field

/-!
# What the loader hands over

The kernel marks its image with a header of three words that sum to zero. The loader answers with a
magic number and a record, whose flags say which of its other fields mean something.
-/

namespace PaeKernel

/-- The first word of the header. -/
def headerMagic : Nat := 0x1BADB002

/-- The number a loader leaves in a register. -/
def loaderMagic : Nat := 0x2BADB002

/-- The second word of the header. -/
def headerFlags : Nat := 0x3

/-- The third word of the header. -/
def headerChecksum : Nat := registerLimit - (headerMagic + headerFlags) % registerLimit

theorem header_sum : (headerMagic + headerFlags + headerChecksum) % registerLimit = 0 := rfl

/-- The flags of the loader's record. -/
def loaderFlagsLayout : RegisterLayout where
  width := 32
  fields := [
    .bit "memory" 0,
    .bit "boot_device" 1,
    .bit "cmdline" 2,
    .bit "modules" 3,
    .bit "aout_syms" 4,
    .bit "elf_sections" 5,
    .bit "memory_map" 6,
    .number "other" 7 25]

/-- The fields of the loader's record that the kernel uses. -/
structure LoaderInfo where
  flags : Nat
  memLower : Nat := 0
  memUpper : Nat := 0
  mapAddress : Nat
  mapLength : Nat
  deriving Repr, DecidableEq

namespace LoaderInfo

/-- Whether the record names a memory map. -/
def hasMap (info : LoaderInfo) : Bool := (Field.bit "memory_map" 6).isSet info.flags

/-- The memory map in bytes at an address; there is none at address zero. -/
def mapAt (m : Memory) (address length : Nat) : Except MemoryMapError MemoryMap :=
  if address = 0 ∨ length = 0 then .ok .empty
  else MemoryMap.ofBytes (m.readBytes address length)

/-- The memory map that the record names. -/
def memoryMap (info : LoaderInfo) (m : Memory) : Except MemoryMapError MemoryMap :=
  if info.hasMap then mapAt m info.mapAddress info.mapLength else .error .notProvided

end LoaderInfo

end PaeKernel
