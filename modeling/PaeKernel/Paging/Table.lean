import PaeKernel.Memory
import PaeKernel.Paging.Entry

/-!
# Tables in memory

A directory or a table is a page of 512 entries, a root table the first four entries of its page.
`place` is the address at which the page appears in memory. A number beyond the entries panics.
-/

namespace PaeKernel

/-- The entries of a root table. -/
def rootEntries : Nat := 4

/-- The entries of a directory or a table. -/
def tableEntries : Nat := 512

/-- The number of a root entry. -/
def rootIndex (n : Nat) : Except Panic (Fin 4) :=
  if h : n < 4 then .ok ⟨n, h⟩ else .error .pdptIndexTooLarge

/-- The number of an entry of a directory or a table. -/
def tableIndex (n : Nat) : Except Panic (Fin 512) :=
  if h : n < 512 then .ok ⟨n, h⟩ else .error .tableIndexTooLarge

namespace Table

/-- The address of an entry. -/
def entryAddress (place i : Nat) : Nat := place + 8 * i

/-- The entry of a directory or a table. -/
def entry (m : Memory) (place : Nat) (i : Fin 512) : PageEntry := ⟨m.read (entryAddress place i)⟩

/-- The entry of a root table. -/
def rootEntry (m : Memory) (place : Nat) (i : Fin 4) : RootEntry :=
  ⟨m.read (entryAddress place i)⟩

/-- The store that puts an entry into a directory or a table. -/
def entryStore (place : Nat) (i : Fin 512) (e : PageEntry) : Memory.Store :=
  ⟨entryAddress place i, e.bits⟩

/-- The store that puts an entry into a root table. -/
def rootStore (place : Nat) (i : Fin 4) (e : RootEntry) : Memory.Store :=
  ⟨entryAddress place i, e.bits⟩

/-- The stores that empty a page of entries. -/
def zeroStores (place : Nat) : List Memory.Store :=
  (List.range tableEntries).map fun i => ⟨entryAddress place i, 0⟩

/-- The entry with this number. -/
def get (m : Memory) (place i : Nat) : Except Panic PageEntry :=
  if h : i < 512 then .ok (entry m place ⟨i, h⟩) else .error (.indexOutOfBounds tableEntries i)

/-- The memory in which the entry with this number is replaced. -/
def set (m : Memory) (place i : Nat) (e : PageEntry) : Except Panic Memory :=
  if h : i < 512 then .ok (m.apply [entryStore place ⟨i, h⟩ e])
  else .error (.indexOutOfBounds tableEntries i)

/-- All entries in order. -/
def entries (m : Memory) (place : Nat) : List PageEntry :=
  (List.finRange 512).map (entry m place)

/-- How many entries map something. -/
def presentCount (m : Memory) (place : Nat) : Nat :=
  ((entries m place).filter PageEntry.present).length

/-- The entries that are not zero, with their numbers. -/
def nonzero (m : Memory) (place : Nat) : List (Nat × PageEntry) :=
  (List.finRange 512).filterMap fun i =>
    if (entry m place i).bits = 0 then none else some (i.val, entry m place i)

/-- The entries of a root table in order. -/
def roots (m : Memory) (place : Nat) : List RootEntry :=
  (List.finRange 4).map (rootEntry m place)

theorem entryAddress_div (place i : Nat) : entryAddress place i / 8 = place / 8 + i := by
  simp only [entryAddress]; omega

theorem mem_zeroStores {place : Nat} {s : Memory.Store} :
    s ∈ zeroStores place ↔ ∃ i, i < 512 ∧ s = ⟨entryAddress place i, 0⟩ := by
  simp only [zeroStores, tableEntries, List.mem_map, List.mem_range]
  exact ⟨fun ⟨i, hi, e⟩ => ⟨i, hi, e.symm⟩, fun ⟨i, hi, e⟩ => ⟨i, hi, e.symm⟩⟩

theorem read_apply_zeroStores (m : Memory) (place a : Nat) :
    (m.apply (zeroStores place)).read a
      = if place / 8 ≤ a / 8 ∧ a / 8 < place / 8 + 512 then 0 else m.read a := by
  simp only [zeroStores, tableEntries]
  generalize 512 = count
  induction count with
  | zero => rw [if_neg (by omega)]; rfl
  | succ n ih =>
    rw [List.range_succ, List.map_append, Memory.apply_append]
    simp only [List.map_cons, List.map_nil, Memory.apply_cons, Memory.apply_nil,
      Memory.read_write, ih, entryAddress_div, Nat.zero_mod]
    grind

end Table

end PaeKernel
