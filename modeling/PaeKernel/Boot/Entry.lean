import PaeKernel.Boot.MemoryMap

/-!
# Written memory map entries

The other direction of the memory map: an entry as a value and the bytes it is written as. The
reader finds in them what the entry says (`firstRegion?_encode`).
-/

namespace PaeKernel

/-- An entry of a memory map with whatever padding it has. -/
@[ext] structure MapEntry where
  base : Nat
  length : Nat
  kind : Nat
  padding : List UInt8 := []
  base_lt : base < wordLimit
  length_lt : length < wordLimit
  kind_lt : kind < registerLimit
  padding_lt : 20 + padding.length < registerLimit

namespace MapEntry

/-- The number of bytes after the size. -/
def size (e : MapEntry) : Nat := 20 + e.padding.length

/-- The bytes of an entry. -/
def encode (e : MapEntry) : List UInt8 :=
  LittleEndian.encode 4 e.size ++ (LittleEndian.encode 8 e.base ++ (LittleEndian.encode 8 e.length
    ++ (LittleEndian.encode 4 e.kind ++ e.padding)))

/-- The region an entry describes. -/
def region (e : MapEntry) : Region := ⟨e.base, e.length, .ofNat e.kind⟩

@[simp] theorem length_encode (e : MapEntry) : e.encode.length = 4 + e.size := by
  simp only [encode, size, List.length_append, LittleEndian.length_encode]; omega

theorem read?_encode {count n : Nat} (h : n < 1 <<< (8 * count)) (rest : List UInt8) :
    LittleEndian.read? count (LittleEndian.encode count n ++ rest) = some n := by
  rw [LittleEndian.read?_append (LittleEndian.length_encode count n), LittleEndian.decode_encode h]

theorem drop_encode (count n : Nat) (rest : List UInt8) (more : Nat) :
    (LittleEndian.encode count n ++ rest).drop (count + more) = rest.drop more := by
  rw [List.drop_append, LittleEndian.length_encode, Nat.add_sub_cancel_left,
    List.drop_of_length_le (by simp), List.nil_append]

theorem firstRegion?_encode (e : MapEntry) (rest : List UInt8) :
    MemoryMap.firstRegion? (e.encode ++ rest) = some (e.size, e.region) := by
  have hsize : e.size < 1 <<< (8 * 4) := e.padding_lt
  have hbase := e.base_lt
  have hlength := e.length_lt
  have hkind := e.kind_lt
  simp only [MemoryMap.firstRegion?, MemoryMap.sizeBytes, encode, List.append_assoc]
  rw [read?_encode hsize]
  have h0 := drop_encode 4 e.size (LittleEndian.encode 8 e.base ++ (LittleEndian.encode 8 e.length
    ++ (LittleEndian.encode 4 e.kind ++ (e.padding ++ rest))))
  rw [h0 0, h0 8, h0 16, List.drop_zero, read?_encode hbase]
  have h1 := drop_encode 8 e.base (LittleEndian.encode 8 e.length
    ++ (LittleEndian.encode 4 e.kind ++ (e.padding ++ rest)))
  rw [h1 0, h1 8, List.drop_zero, read?_encode hlength]
  have h2 := drop_encode 8 e.length (LittleEndian.encode 4 e.kind ++ (e.padding ++ rest))
  rw [h2 0, List.drop_zero, read?_encode hkind]
  rfl

end MapEntry

end PaeKernel
