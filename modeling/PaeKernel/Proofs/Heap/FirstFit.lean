import Mathlib.Order.Bounds.Basic
import PaeKernel.Proofs.Heap.BlockLists
import PaeKernel.Proofs.Heap.Exactness

/-!
# Requests are served first fit

`Arena.firstFit` is the specification of the search: the first free block with room among all blocks,
in the order of the spaces and of the addresses in each. The nested searches of `malloc` come to the
same block (`findFree_eq`), so `malloc_first_fit` can say what a request does in terms of the lists of
blocks alone, on every heap that the audit accepts.
-/

namespace PaeKernel

/-- The units asked for are the least that leave room for the payload and for one unit of it. -/
theorem isLeast_units (size : Nat) :
    IsLeast {units | headerUnits + 1 ≤ units ∧ size ≤ (units - headerUnits) * unitSize}
      (max 1 ((size + 7) / 8) + headerUnits) := by
  simp only [headerUnits, unitSize]
  constructor
  · show _ ∧ _
    omega
  · rintro units ⟨hpayload, hroom⟩
    omega

/-- Every size that fits a word is served in blocks that a size word can hold. -/
theorem unitsFor_of_lt {size : Nat} (h : size < wordLimit) :
    unitsFor size = some (max 1 ((size + 7) / 8) + headerUnits) := by
  refine unitsFor_eq_some_iff.2 ⟨rfl, ?_⟩
  simp only [wordLimit, maxBlockUnits, usedBit, headerUnits] at *
  omega

namespace Arena

variable {a : Arena} {s : Space} {b : Block} {units size : Nat}

/-- All blocks with their spaces, in the order of the spaces and of the addresses in each. -/
def blocks (a : Arena) : List (Space × Block) :=
  a.heap.spaces.flatMap fun s => (s.blocks a.memory).map (s, ·)

/-- The first block that can serve a request for so many units. -/
def firstFit (a : Arena) (units : Nat) : Option (Space × Block) :=
  a.blocks.find? fun found => found.2.fits units

theorem mem_blocks : (s, b) ∈ a.blocks ↔ s ∈ a.heap.spaces ∧ b ∈ s.blocks a.memory := by
  simp [blocks]

/-- The search space by space finds the first block that fits. -/
theorem findFree_eq (a : Arena) (units : Nat) :
    a.findFree units = (a.firstFit units).map fun found => (found.1, found.2.index) := by
  rw [findFree, firstFit, blocks, List.find?_flatMap]
  induction a.heap.spaces with
  | nil => rfl
  | cons s rest ih =>
    rw [List.findSome?_cons, List.findSome?_cons, List.find?_map, ih]
    simp only [Space.findFree, Function.comp_def]
    cases (s.blocks a.memory).find? (Block.fits units) <;> rfl

/-- The block found is free and has the units asked for. -/
theorem units_of_firstFit (h : a.firstFit units = some (s, b)) :
    s ∈ a.heap.spaces ∧ b ∈ s.blocks a.memory ∧ b.used = false ∧ units ≤ b.units := by
  obtain ⟨hs, hb⟩ := mem_blocks.1 (List.mem_of_find?_eq_some h)
  have hfits := List.find?_some h
  simp only [Block.fits, Bool.and_eq_true, Bool.not_eq_true', decide_eq_true_eq] at hfits
  exact ⟨hs, hb, hfits⟩

/-- What the search finds is a block of a space. -/
theorem exists_block_of_findFree {index : Nat} (h : a.findFree units = some (s, index)) :
    ∃ b, s ∈ a.heap.spaces ∧ b ∈ s.blocks a.memory ∧ b.index = index ∧ b.used = false
      ∧ units ≤ b.units := by
  rw [findFree_eq] at h
  obtain ⟨⟨s, b⟩, hfit, heq⟩ := Option.map_eq_some_iff.1 h
  cases heq
  obtain ⟨hs, hb, hfree, hle⟩ := units_of_firstFit hfit
  exact ⟨b, hs, hb, rfl, hfree, hle⟩

/-- On a heap that the audit accepts a request gets the first block with room for it, in the order of
the spaces and, in each, of the addresses. That block is split, the units granted go from the free to
the used ones, and no other block changes. If no block has room, nothing but the log changes. -/
theorem malloc_first_fit (h : a.audit = .ok (.ok ())) (hap : Apart a.heap.spaces) (size : Nat) :
    ∃ units, IsLeast {u | headerUnits + 1 ≤ u ∧ size ≤ (u - headerUnits) * unitSize} units
      ∧ (size < wordLimit → unitsFor size = some units)
      ∧ (∀ s ∈ a.heap.spaces, (s.blocks a.memory).Pairwise fun b c => b.stop ≤ c.index)
      ∧ ((∀ s ∈ a.heap.spaces, ∀ b ∈ s.blocks a.memory, b.used = false → b.units < units) →
        ∃ log, malloc size a = (.ok none, { a with log }))
      ∧ ∀ s b, a.firstFit units = some (s, b) →
        ∃ a', malloc size a = (.ok (some (s.addrOf (b.index + headerUnits))), a')
          ∧ (∃ before after, s.blocks a.memory = before ++ b :: after
            ∧ s.blocks a'.memory = before ++ b.split units after)
          ∧ (∀ t ∈ a.heap.spaces, t ≠ s → t.blocks a'.memory = t.blocks a.memory)
          ∧ a'.heap.spaces = a.heap.spaces
          ∧ a'.heap.freeUnits + Cell.granted b.units units = a.heap.freeUnits
          ∧ a'.heap.usedUnits = a.heap.usedUnits + Cell.granted b.units units
          ∧ a'.heap.capacityUnits = a.heap.capacityUnits
          ∧ a'.audit = .ok (.ok ()) := by
  obtain ⟨cells, hsound⟩ := exists_sound_of_audit h
  refine ⟨_, isLeast_units size, unitsFor_of_lt, fun s _ => s.pairwise_blocks a.memory, ?_, ?_⟩
  · intro hnone
    cases hunits : unitsFor size with
    | none => exact ⟨a.log, by rw [malloc, hunits]; rfl⟩
    | some units =>
      obtain ⟨rfl, -⟩ := unitsFor_eq_some_iff.1 hunits
      refine malloc_unserved hunits ?_
      cases hfit : a.firstFit (max 1 ((size + 7) / 8) + 2) with
      | none => rw [findFree_eq, hfit]; rfl
      | some found =>
        obtain ⟨hs, hb, hfree, hle⟩ := units_of_firstFit hfit
        exact absurd (hnone _ hs _ hb hfree) (Nat.not_lt.2 hle)
  · intro s b hfit
    obtain ⟨hs, hb, hfree, hle⟩ := units_of_firstFit hfit
    obtain ⟨p, hspaces, rfl, rfl, rfl⟩ := hsound.spaces.exists_spot hs hb
    have hunits : unitsFor size = some (max 1 ((size + 7) / 8) + headerUnits) := by
      obtain ⟨-, -, hstop⟩ := Space.bounds_of_mem_blocksFrom hb
      have hinside := (Nat.le_add_left p.block.units p.block.index).trans hstop
      exact unitsFor_eq_some_iff.2 ⟨rfl, hle.trans (Space.units_le_of_le hinside)⟩
    have hfind : a.findFree (max 1 ((size + 7) / 8) + headerUnits)
        = some (p.space, p.block.index) := by rw [findFree_eq, hfit]; rfl
    obtain ⟨a', hrun, hserved⟩ := malloc_served hsound hap hspaces hunits hfind hfree hle
    obtain ⟨hfreed, hused, hcapacity⟩ := hserved.counters hsound
    exact ⟨a', hrun, hserved.blocks hsound, fun t ht hne => hap.blocks_eq hs ht hne hserved.touched,
      hserved.kept, hfreed, hused, hcapacity, audit_of_sound hserved.sound⟩

/-- Twenty-four bytes out of the first space, and a request that neither space has room for. -/
theorem malloc_first_fit_sample :
    (∃ a', malloc 24 sample = (.ok (some 0x1020), a')
      ∧ a'.heap.freeUnits + 5 = sample.heap.freeUnits ∧ a'.audit = .ok (.ok ()))
    ∧ ∃ log, malloc 200 sample = (.ok none, { sample with log }) := by
  have haudit : sample.audit = .ok (.ok ()) := audit_of_sound setUp_sample.sound.1
  constructor
  · obtain ⟨units, -, hunits, -, -, hserve⟩ := malloc_first_fit haudit setUp_sample.sound.2 24
    obtain rfl : 5 = units := Option.some.inj (hunits (by decide))
    have hfit : (sample.firstFit 5).map (fun found => (found.1.base, found.2))
        = some (0x1000, ⟨2, 12, false, none⟩) := by decide +kernel
    obtain ⟨⟨s, b⟩, hfound, heq⟩ := Option.map_eq_some_iff.1 hfit
    obtain ⟨hbase, rfl⟩ := Prod.mk.inj heq
    obtain ⟨a', hrun, -, -, -, hfree, -, -, haudit'⟩ := hserve s _ hfound
    have haddress : s.addrOf (2 + headerUnits) = 0x1020 := by rw [Space.addrOf, hbase]; rfl
    rw [haddress] at hrun
    exact ⟨a', hrun, hfree, haudit'⟩
  · obtain ⟨units, -, hunits, -, hnone, -⟩ := malloc_first_fit haudit setUp_sample.sound.2 200
    obtain rfl : 27 = units := Option.some.inj (hunits (by decide))
    exact hnone (by decide +kernel)

end Arena

end PaeKernel
