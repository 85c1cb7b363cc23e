import PaeKernel.Address.Physical
import PaeKernel.Register.Field

/-!
# Table entries

An entry is a word with switches in its low bits and the number of a page frame in bits 12 to 51.
Directories and tables share one format; entries of the root table know fewer switches. Building an
entry for a frame beyond 52 bits panics.
-/

namespace PaeKernel

/-- Frame numbers, of 40 bits, are below this number. -/
def frameLimit : Nat := 0x10000000000

/-- The frame number in an entry of any level. -/
def frameField : Field := .number "phys_addr_bits_51_12" 12 40

/-! ### Masks of single switches -/

namespace EntryMask

def present : Nat := 0x1
def writable : Nat := 0x2
def user : Nat := 0x4
def writeThrough : Nat := 0x8
def cacheDisable : Nat := 0x10
def accessed : Nat := 0x20
def dirty : Nat := 0x40
def largePage : Nat := 0x80
def global : Nat := 0x100
def noExecute : Nat := 0x8000000000000000

/-- The bits of the frame number. -/
def address : Nat := 0x000FFFFFFFFFF000

/-- The switches that a root entry may have. -/
def rootAllowed : Nat := present + writeThrough + cacheDisable

end EntryMask

/-- An entry of a directory or of a table. -/
@[ext] structure PageEntry where
  bits : Nat
  deriving Repr, DecidableEq

namespace PageEntry

/-- The switches of an entry. -/
def layout : RegisterLayout where
  width := 64
  fields := [
    .bit "present" 0,
    .bit "writable" 1,
    .bit "user_access" 2,
    .bit "write_through" 3,
    .bit "cache_disabled" 4,
    .bit "accessed" 5,
    .bit "dirty" 6,
    .bit "large_page" 7,
    .bit "global_translation" 8,
    .number "os_available" 9 3,
    .bit "no_execute" 63]

/-- The entry that maps nothing. -/
def absent : PageEntry := ⟨0⟩

instance : Inhabited PageEntry := ⟨absent⟩

/-- Whether the entry maps something. -/
def present (e : PageEntry) : Bool := e.bits % 2 == 1

/-- Whether a directory entry maps a large page instead of naming a table. -/
def largePage (e : PageEntry) : Bool := (e.bits >>> 7) % 2 == 1

/-- The frame an entry names. -/
def frame (e : PageEntry) : PhysicalAddress :=
  ⟨e.bits / 4096 % frameLimit * 4096, by simp only [wordLimit, frameLimit]; omega⟩

/-- The entry with another frame. -/
def withFrame (e : PageEntry) (frame : PhysicalAddress) : Except Panic PageEntry :=
  return ⟨← frameField.put (frame.toNat / 4096) e.bits⟩

/-- The entry that maps a frame for the kernel, to read and to write. -/
def kernelWritable (frame : PhysicalAddress) : Except Panic PageEntry :=
  withFrame ⟨EntryMask.present + EntryMask.writable⟩ frame

theorem present_eq (e : PageEntry) : e.present = (Field.bit "present" 0).isSet e.bits := by
  simp only [present, Field.isSet, Field.get, Field.bit]
  rcases Nat.mod_two_eq_zero_or_one e.bits with h | h <;> simp [h]

theorem frame_toNat (e : PageEntry) : e.frame.toNat = frameField.get e.bits * 4096 := by
  simp only [frame, Field.get, frameField, Field.number, frameLimit, Nat.shiftRight_eq_div_pow,
    Nat.one_shiftLeft]

theorem kernelWritable_of_lt {f : PhysicalAddress} (h : f.toNat < frameLimit * 4096) :
    kernelWritable f = .ok ⟨f.toNat / 4096 * 4096 + 3⟩ := by
  have hf : f.toNat / 4096 < 1 <<< frameField.width := by
    simp only [frameField, Field.number, frameLimit, Nat.one_shiftLeft] at *; omega
  rw [kernelWritable, withFrame, Field.put_of_lt hf]
  refine congrArg Except.ok (PageEntry.ext ?_)
  simp only [Field.clear, Field.get, frameField, Field.number, EntryMask.present,
    EntryMask.writable, Nat.shiftRight_eq_div_pow, Nat.shiftLeft_eq]
  omega

theorem kernelWritable_of_le {f : PhysicalAddress} (h : frameLimit * 4096 ≤ f.toNat) :
    ∃ e, kernelWritable f = .error e := by
  have hput : ¬ f.toNat / 4096 < 1 <<< frameField.width := by
    simp only [frameField, Field.number, frameLimit, Nat.one_shiftLeft] at *
    omega
  exact ⟨_, by rw [kernelWritable, withFrame, Field.put, if_neg hput]; rfl⟩

end PageEntry

/-- An entry of the root table. -/
@[ext] structure RootEntry where
  bits : Nat
  deriving Repr, DecidableEq

namespace RootEntry

/-- The switches of a root entry. -/
def layout : RegisterLayout where
  width := 64
  fields := [
    .bit "present" 0,
    .bit "write_through" 3,
    .bit "cache_disabled" 4,
    .number "os_available" 9 3]

/-- The entry that names no directory. -/
def absent : RootEntry := ⟨0⟩

instance : Inhabited RootEntry := ⟨absent⟩

/-- Whether the entry names a directory. -/
def present (e : RootEntry) : Bool := e.bits % 2 == 1

/-- The directory an entry names. -/
def directory (e : RootEntry) : PhysicalAddress :=
  ⟨e.bits / 4096 % frameLimit * 4096, by simp only [wordLimit, frameLimit]; omega⟩

/-- The entry that names a directory. -/
def ofDirectory (directory : PhysicalAddress) : Except Panic RootEntry :=
  return ⟨← frameField.put (directory.toNat / 4096) EntryMask.present⟩

theorem directory_toNat (e : RootEntry) :
    e.directory.toNat = frameField.get e.bits * 4096 := by
  simp only [directory, Field.get, frameField, Field.number, frameLimit,
    Nat.shiftRight_eq_div_pow, Nat.one_shiftLeft]

theorem ofDirectory_of_lt {d : PhysicalAddress} (h : d.toNat < frameLimit * 4096) :
    ofDirectory d = .ok ⟨d.toNat / 4096 * 4096 + 1⟩ := by
  have hd : d.toNat / 4096 < 1 <<< frameField.width := by
    simp only [frameField, Field.number, frameLimit, Nat.one_shiftLeft] at *; omega
  rw [ofDirectory, Field.put_of_lt hd]
  refine congrArg Except.ok (RootEntry.ext ?_)
  simp only [Field.clear, Field.get, frameField, Field.number, EntryMask.present,
    Nat.shiftRight_eq_div_pow, Nat.shiftLeft_eq]
  omega

end RootEntry

end PaeKernel
