import PaeKernel.LittleEndian
import PaeKernel.Word
import Std.Data.TreeMap

/-!
# Memory

A total store of 64-bit words with little-endian bytes in them. Every word has some value, so
memory of any prior contents is a value of this type. The reading functions are the view: each
writing function has one lemma that says what is read afterwards.
-/

namespace PaeKernel

/-- Words by number, with one value for all words never written. -/
structure Memory where
  words : Std.TreeMap Nat UInt64
  blank : UInt64

namespace Memory

/-- Memory in which every byte is the same. -/
def filled (byte : UInt8) : Memory where
  words := {}
  blank := UInt64.ofNat (byte.toNat * 0x0101010101010101)

/-- The word that holds the byte at `address`. -/
def read (m : Memory) (address : Nat) : Nat :=
  (m.words.getD (address / 8) m.blank).toNat

/-- Puts a value into the word that holds the byte at `address`. -/
def write (m : Memory) (address value : Nat) : Memory :=
  { m with words := m.words.insert (address / 8) (UInt64.ofNat value) }

theorem read_lt (m : Memory) (address : Nat) : m.read address < wordLimit :=
  UInt64.toNat_lt _

theorem read_write (m : Memory) (a b value : Nat) :
    (m.write a value).read b = if a / 8 = b / 8 then value % wordLimit else m.read b := by
  by_cases h : a / 8 = b / 8 <;>
    simp [read, write, Std.TreeMap.getD_insert, wordLimit, h]

theorem read_write_same (m : Memory) (a : Nat) {value : Nat} (h : value < wordLimit) :
    (m.write a value).read a = value := by
  rw [read_write, if_pos rfl, Nat.mod_eq_of_lt h]

theorem read_write_of_ne (m : Memory) {a b : Nat} (value : Nat) (h : a / 8 ≠ b / 8) :
    (m.write a value).read b = m.read b := by
  rw [read_write, if_neg h]

/-! ### Bytes -/

/-- The byte at `address`. -/
def readByte (m : Memory) (address : Nat) : UInt8 :=
  UInt8.ofNat (m.read address >>> (8 * (address % 8)))

/-- Puts one byte at `address`. -/
def writeByte (m : Memory) (address : Nat) (byte : UInt8) : Memory :=
  m.write address (m.read address - (m.readByte address).toNat <<< (8 * (address % 8))
    + byte.toNat <<< (8 * (address % 8)))

/-- The `count` bytes from `address` on. -/
def readBytes (m : Memory) (address count : Nat) : List UInt8 :=
  (List.range count).map fun i => m.readByte (address + i)

/-- Puts bytes one after another from `address` on. -/
def writeBytes (m : Memory) (address : Nat) : List UInt8 → Memory
  | [] => m
  | b :: rest => (m.writeByte address b).writeBytes (address + 1) rest

/-- Puts the same byte into `count` places from `address` on. -/
def fillBytes (m : Memory) (address count : Nat) (byte : UInt8) : Memory :=
  m.writeBytes address (List.replicate count byte)

/-- Copies `count` bytes, read before any is written. -/
def copyBytes (m : Memory) (source target count : Nat) : Memory :=
  m.writeBytes target (m.readBytes source count)

/-- The eight bytes at any address as one number. -/
def readUnaligned (m : Memory) (address : Nat) : Nat :=
  if address % 8 = 0 then m.read address else LittleEndian.decode (m.readBytes address 8)

/-- Puts a number into the eight bytes at any address. -/
def writeUnaligned (m : Memory) (address value : Nat) : Memory :=
  if address % 8 = 0 then m.write address value
  else m.writeBytes address (LittleEndian.encode 8 value)

/-- Replacing one byte of a number leaves the other bytes alone. -/
theorem byte_replace {w k j d : Nat} (hk : k < 8) (hj : j < 8) (hd : d < 256)
    (hw : w < wordLimit) :
    ((w - (w >>> (8 * k) % 256) <<< (8 * k) + d <<< (8 * k)) >>> (8 * j)) % 256
      = if k = j then d else w >>> (8 * j) % 256 := by
  simp only [wordLimit] at hw
  have hk' : k = 0 ∨ k = 1 ∨ k = 2 ∨ k = 3 ∨ k = 4 ∨ k = 5 ∨ k = 6 ∨ k = 7 := by omega
  have hj' : j = 0 ∨ j = 1 ∨ j = 2 ∨ j = 3 ∨ j = 4 ∨ j = 5 ∨ j = 6 ∨ j = 7 := by omega
  rcases hk' with rfl | rfl | rfl | rfl | rfl | rfl | rfl | rfl <;>
    rcases hj' with rfl | rfl | rfl | rfl | rfl | rfl | rfl | rfl <;>
    simp <;> omega

theorem byte_replace_lt {w k d : Nat} (hk : k < 8) (hd : d < 256) (hw : w < wordLimit) :
    w - (w >>> (8 * k) % 256) <<< (8 * k) + d <<< (8 * k) < wordLimit := by
  simp only [wordLimit] at *
  have hk' : k = 0 ∨ k = 1 ∨ k = 2 ∨ k = 3 ∨ k = 4 ∨ k = 5 ∨ k = 6 ∨ k = 7 := by omega
  rcases hk' with rfl | rfl | rfl | rfl | rfl | rfl | rfl | rfl <;> simp <;> omega

theorem readByte_writeByte (m : Memory) (a b : Nat) (byte : UInt8) :
    (m.writeByte a byte).readByte b = if a = b then byte else m.readByte b := by
  have hw := m.read_lt a
  have hd : byte.toNat < 256 := byte.toNat_lt
  have hka : a % 8 < 8 := Nat.mod_lt _ (by decide)
  have hkb : b % 8 < 8 := Nat.mod_lt _ (by decide)
  apply UInt8.toNat_inj.1
  simp only [readByte, writeByte, read_write, UInt8.toNat_ofNat']
  by_cases hword : a / 8 = b / 8
  · rw [if_pos hword, Nat.mod_eq_of_lt (byte_replace_lt hka hd hw), byte_replace hka hkb hd hw]
    by_cases h : a = b
    · subst h; rw [if_pos rfl, if_pos rfl]
    · rw [if_neg h, if_neg (by omega), UInt8.toNat_ofNat', read, read, hword]
  · rw [if_neg hword, if_neg (by intro h; exact hword (h ▸ rfl)), UInt8.toNat_ofNat']

theorem readByte_writeBytes (m : Memory) (a b : Nat) (bytes : List UInt8) :
    (m.writeBytes a bytes).readByte b
      = if a ≤ b then (bytes[b - a]?).getD (m.readByte b) else m.readByte b := by
  induction bytes generalizing m a with
  | nil => simp [writeBytes]
  | cons byte rest ih =>
    rw [writeBytes, ih, readByte_writeByte]
    by_cases h : a = b
    · subst h
      rw [if_neg (by omega), if_pos rfl, if_pos (Nat.le_refl _)]
      simp
    · by_cases hin : a ≤ b
      · have hs : b - a = (b - (a + 1)) + 1 := by omega
        rw [if_pos (by omega), if_neg h, if_pos hin, hs, List.getElem?_cons_succ]
      · rw [if_neg (by omega), if_neg h, if_neg hin]

@[simp] theorem length_readBytes (m : Memory) (address count : Nat) :
    (m.readBytes address count).length = count := by
  simp [readBytes]

theorem readBytes_congr {m m' : Memory} {a b count : Nat}
    (h : ∀ i < count, m'.readByte (b + i) = m.readByte (a + i)) :
    m'.readBytes b count = m.readBytes a count :=
  List.map_congr_left fun i hi => h i (List.mem_range.1 hi)

theorem readBytes_writeBytes (m : Memory) (address : Nat) (bytes : List UInt8) :
    (m.writeBytes address bytes).readBytes address bytes.length = bytes := by
  refine List.ext_getElem (length_readBytes _ _ _) fun i _ hi => ?_
  simp [readBytes, readByte_writeBytes, hi]

/-! ### Store sequences -/

/-- One word stored at one address. -/
structure Store where
  address : Nat
  value : Nat
  deriving Repr, DecidableEq

/-- Carries out stores in order. -/
def apply (m : Memory) (stores : List Store) : Memory :=
  stores.foldl (fun m s => m.write s.address s.value) m

@[simp] theorem apply_nil (m : Memory) : m.apply [] = m := rfl

@[simp] theorem apply_cons (m : Memory) (s : Store) (rest : List Store) :
    m.apply (s :: rest) = (m.write s.address s.value).apply rest := rfl

theorem apply_append (m : Memory) (first second : List Store) :
    m.apply (first ++ second) = (m.apply first).apply second := by
  simp [apply]

theorem read_apply_of_forall_ne {stores : List Store} {b : Nat}
    (h : ∀ s ∈ stores, s.address / 8 ≠ b / 8) (m : Memory) :
    (m.apply stores).read b = m.read b := by
  induction stores generalizing m with
  | nil => rfl
  | cons s rest ih =>
    rw [apply_cons, ih fun t ht => h t (List.mem_cons_of_mem _ ht),
      read_write_of_ne _ _ (h s List.mem_cons_self)]

end Memory

end PaeKernel
