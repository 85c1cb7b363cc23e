import PaeKernel.Address.Physical
import PaeKernel.Address.Virtual
import PaeKernel.Register.Field

/-!
# Control registers

CR0 and CR4 hold switches, CR2 the address of the last page fault, and CR3 the place of the root
table, which is 32-byte aligned and below four gibibytes.
-/

namespace PaeKernel

/-- The switches of CR0. -/
def cr0Layout : RegisterLayout where
  width := 32
  fields := [
    .bit "pe_protection_enable" 0,
    .bit "mp_monitor_coprocessor" 1,
    .bit "em_emulation" 2,
    .bit "ts_task_switched" 3,
    .bit "et_extension_type" 4,
    .bit "ne_numeric_error" 5,
    .bit "wp_write_protect" 16,
    .bit "am_alignment_mask" 18,
    .bit "nw_not_write_through" 29,
    .bit "cd_cache_disable" 30,
    .bit "pg_paging" 31]

/-- The switches of CR4. -/
def cr4Layout : RegisterLayout where
  width := 32
  fields := [
    .bit "vme" 0,
    .bit "pvi" 1,
    .bit "tsd" 2,
    .bit "de" 3,
    .bit "pse" 4,
    .bit "pae" 5,
    .bit "mce" 6,
    .bit "pge" 7,
    .bit "pce" 8,
    .bit "osfxsr" 9,
    .bit "osxmmexcpt" 10,
    .bit "umip" 11,
    .bit "vmxe" 13,
    .bit "smxe" 14,
    .bit "fsgsbase" 16,
    .bit "pcide" 17,
    .bit "osxsave" 18,
    .bit "smep" 20,
    .bit "smap" 21,
    .bit "pke" 22]

/-- The address that the last page fault was about. -/
@[ext] structure Cr2 where
  faultAddress : VirtualAddress
  deriving DecidableEq

/-- The register that holds the place of the root table. -/
@[ext] structure Cr3 where
  bits : Nat
  deriving DecidableEq

namespace Cr3

/-- The two caching switches of CR3. -/
def layout : RegisterLayout where
  width := 32
  fields := [.bit "pwt" 3, .bit "pcd" 4]

/-- The place of the root table in units of 32 bytes. -/
def baseField : Field := .number "pdpt_base" 5 27

/-- The register for a root table, which must lie where the register can name it. -/
def ofRoot (root : PhysicalAddress) : Except Panic Cr3 :=
  if root.toNat % 32 ≠ 0 then .error .unalignedRoot
  else if registerLimit ≤ root.toNat then .error .distantRoot
  else .ok ⟨root.toNat⟩

/-- The place of the root table. -/
def root (r : Cr3) : PhysicalAddress := .ofNat (baseField.get r.bits * 32)

theorem root_ofRoot {a : PhysicalAddress} {r : Cr3} (h : ofRoot a = .ok r) : r.root = a := by
  unfold ofRoot at h
  split at h
  · cases h
  · split at h
    · cases h
    · cases h
      refine PhysicalAddress.ext ?_
      simp only [root, baseField, Field.get, Field.number, PhysicalAddress.toNat_ofNat, wordLimit,
        registerLimit, Nat.shiftRight_eq_div_pow, Nat.one_shiftLeft] at *
      omega

end Cr3

end PaeKernel
