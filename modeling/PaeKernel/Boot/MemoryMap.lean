import PaeKernel.Address.Align
import PaeKernel.LittleEndian
import PaeKernel.Numeral

/-!
# The memory map

The loader describes memory by a run of entries. An entry is a size, four bytes that do not count
themselves, and then at least twenty bytes: base, length and kind of a region; what is left of the
entry is padding. `MemoryMap.ofBytes` checks a whole run of bytes once, after which `regions` reads
every entry of it.
-/

namespace PaeKernel

/-- Why there is no usable memory map. -/
inductive MemoryMapError where
  | notProvided
  | truncated (offset : Nat)
  | entryTooSmall (offset size : Nat)
  | noHeapRegion (kernelEnd : Nat)
  deriving Repr, DecidableEq

/-- The text of a memory map error. -/
def MemoryMapError.message : MemoryMapError → String
  | .notProvided => "the bootloader did not provide a memory map"
  | .truncated offset =>
    s!"memory map entry at offset {offset} runs past the end of the map"
  | .entryTooSmall offset size =>
    s!"memory map entry at offset {offset} declares {size} bytes, need at least 20"
  | .noHeapRegion kernelEnd =>
    s!"no usable region contains the kernel end at {Numeral.hex kernelEnd}"

/-- What a region of memory is for. -/
inductive RegionKind where
  | usable
  | reserved
  | acpiReclaimable
  | acpiNvs
  | defective
  | other (number : Nat)
  deriving Repr, DecidableEq

namespace RegionKind

/-- The kind with a given number. -/
def ofNat : Nat → RegionKind
  | 1 => .usable
  | 2 => .reserved
  | 3 => .acpiReclaimable
  | 4 => .acpiNvs
  | 5 => .defective
  | n => .other n

/-- The number of a kind. -/
def toNat : RegionKind → Nat
  | .usable => 1
  | .reserved => 2
  | .acpiReclaimable => 3
  | .acpiNvs => 4
  | .defective => 5
  | .other n => n

theorem toNat_ofNat (n : Nat) : (ofNat n).toNat = n := by
  unfold ofNat; split <;> rfl

end RegionKind

/-- A run of physical memory of one kind. -/
@[ext] structure Region where
  base : Nat
  length : Nat
  kind : RegionKind
  deriving Repr, DecidableEq

namespace Region

/-- The address after the region, or the greatest address if there is none after it. -/
def stop (r : Region) : Nat := min (r.base + r.length) (wordLimit - 1)

/-- Whether an address lies in the region. -/
def contains (r : Region) (address : Nat) : Bool := r.base ≤ address && address < r.stop

/-- Whether the region is free memory. -/
def usable (r : Region) : Bool := r.kind == .usable

/-- A region as a line of text. -/
def display (r : Region) : String :=
  s!"0x{Numeral.upperDigits 8 r.base}  {Numeral.column 10 r.length}B Type {r.kind.toNat}"

end Region

/-- Addresses from `start` on and before `stop`. -/
@[ext] structure AddressRange where
  start : Nat
  stop : Nat
  deriving Repr, DecidableEq

namespace MemoryMap

/-- The bytes of an entry's size. -/
def sizeBytes : Nat := 4

/-- The bytes that every entry has after its size. -/
def entryBytes : Nat := 20

/-- Checks that bytes are a run of entries; `offset` counts the bytes before them. -/
def checkFrom (offset : Nat) (bytes : List UInt8) : Except MemoryMapError Unit :=
  if bytes.isEmpty then .ok ()
  else
    match LittleEndian.read? sizeBytes bytes with
    | none => .error (.truncated offset)
    | some size =>
      if size < entryBytes then .error (.entryTooSmall offset size)
      else if (bytes.take (sizeBytes + size)).length < sizeBytes + size then
        .error (.truncated offset)
      else checkFrom (offset + (sizeBytes + size)) (bytes.drop (sizeBytes + size))
termination_by bytes.length
decreasing_by simp only [sizeBytes, List.length_take, List.length_drop] at *; omega

/-- The region in the first entry and the size of that entry. -/
def firstRegion? (bytes : List UInt8) : Option (Nat × Region) := do
  let size ← LittleEndian.read? sizeBytes bytes
  let base ← LittleEndian.read? 8 (bytes.drop sizeBytes)
  let length ← LittleEndian.read? 8 (bytes.drop (sizeBytes + 8))
  let kind ← LittleEndian.read? 4 (bytes.drop (sizeBytes + 16))
  return (size, { base, length, kind := .ofNat kind })

theorem length_pos_of_firstRegion? {bytes : List UInt8} {p : Nat × Region}
    (h : firstRegion? bytes = some p) : 0 < bytes.length := by
  cases bytes with
  | nil => simp [firstRegion?, LittleEndian.read?, sizeBytes] at h
  | cons => simp

/-- The regions in the entries, up to the first that is cut off. -/
def regionsOf (bytes : List UInt8) : List Region :=
  match _h : firstRegion? bytes with
  | none => []
  | some (size, region) => region :: regionsOf (bytes.drop (sizeBytes + size))
termination_by bytes.length
decreasing_by
  have := length_pos_of_firstRegion? _h
  simp only [sizeBytes, List.length_drop]; omega

end MemoryMap

/-- Bytes that are a run of entries. -/
structure MemoryMap where
  bytes : List UInt8
  checked : MemoryMap.checkFrom 0 bytes = .ok ()

namespace MemoryMap

/-- The memory map in a run of bytes. -/
def ofBytes (bytes : List UInt8) : Except MemoryMapError MemoryMap :=
  match h : checkFrom 0 bytes with
  | .error err => .error err
  | .ok () => .ok ⟨bytes, h⟩

/-- The map without regions. -/
def empty : MemoryMap := ⟨[], by rw [checkFrom]; rfl⟩

/-- The regions of the map, in order. -/
def regions (map : MemoryMap) : List Region := regionsOf map.bytes

/-- The bytes of free memory, or the greatest word if there are more. -/
def usableBytes (map : MemoryMap) : Nat :=
  (map.regions.filter Region.usable).foldl (fun n r => min (n + r.length) (wordLimit - 1)) 0

/-- The map as lines of text. -/
def display (map : MemoryMap) : String :=
  String.join (map.regions.map fun r => r.display ++ "\n")

/-- The whole pages at or after the kernel's end in the free region that holds it, below a limit. -/
def heapRegion (map : MemoryMap) (kernelEnd limit : Nat) :
    Except Panic (Except MemoryMapError AddressRange) :=
  match map.regions.find? fun r => r.usable && r.contains kernelEnd with
  | none => .ok (.error (.noHeapRegion kernelEnd))
  | some region => do
    let start ← alignUp kernelEnd pageSize
    let stop ← alignDown (min region.stop limit) pageSize
    return if stop ≤ start then .error (.noHeapRegion kernelEnd) else .ok ⟨start, stop⟩

end MemoryMap

/-- Cuts off whole pages at the end of a range: as many as wanted, but at most half of them. -/
def splitTableFrames (range : AddressRange) (frames : Nat) : AddressRange × AddressRange :=
  let pages := (range.stop - range.start) / pageSize
  let cut := range.stop - min frames (pages / 2) * pageSize
  (⟨range.start, cut⟩, ⟨cut, range.stop⟩)

end PaeKernel
