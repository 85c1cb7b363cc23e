import Mathlib.Data.Nat.Bitwise
import PaeKernel.Proofs.Paging.Refinement

/-!
# The tables are a tree at all times

`Paging.tree` reads off memory what is linked where. Whatever faults were handled since the first
tables were built, and however their handling ended, the words of the tables spell this tree and
nothing else: no frame is linked twice, and the frames kept for later tables are not linked at all
(`Paging.WellFormed`).
-/

namespace PaeKernel

/-- An entry has no bit but those of its frame and its switches. -/
theorem clearBits_entryBits {o : Option PhysicalAddress} (ho : ∀ f, o = some f → f.IsFrame)
    {switches : Nat} (hs : switches < 4096) :
    clearBits (entryBits switches o) (EntryMask.address + switches) = 0 := by
  cases o with
  | none => exact Nat.zero_and _
  | some f =>
    have hf := ho f rfl
    have haligned := hf.aligned
    have hlt := hf.2
    -- both sides in units of pages, with the switches below
    have hword : entryBits switches (some f) = 2 ^ 12 * (f.toNat / 4096) + switches := by
      show f.toNat + switches = _
      omega
    have hmask : EntryMask.address + switches = 2 ^ 12 * (2 ^ 40 - 1) + switches := rfl
    have hlimit : wordLimit - 1 - (EntryMask.address + switches)
        = 2 ^ 64 - (EntryMask.address + switches + 1) := by
      simp only [wordLimit]
      omega
    have hquotient : f.toNat / 4096 < 2 ^ 40 := by
      simp only [frameLimit] at hlt
      omega
    rw [clearBits, hlimit]
    apply Nat.eq_of_testBit_eq
    intro j
    rw [Nat.zero_testBit, Nat.testBit_and, Nat.testBit_two_pow_sub_succ (by
      simp only [EntryMask.address]; omega), hmask, hword, Nat.testBit_two_pow_mul_add _ hs,
      Nat.testBit_two_pow_mul_add _ hs]
    by_cases hj : j < 12
    · rw [if_pos hj, if_pos hj]
      cases switches.testBit j <;> simp
    · rw [if_neg hj, if_neg hj, Nat.testBit_two_pow_sub_one]
      by_cases hhigh : j - 12 < 40
      · simp [hhigh]
      · rw [Nat.testBit_lt_two_pow (Nat.lt_of_lt_of_le hquotient
          (Nat.pow_le_pow_right (by decide) (Nat.le_of_not_lt hhigh))), Bool.false_and]

namespace Paging

open TableTree

variable {β : Type} {s : Paging β} {t : TableTree}

/-! ### The tree in memory -/

/-- The entries of the root table. -/
def roots (s : Paging β) (i : Fin 4) : RootEntry :=
  Table.rootEntry s.memory (s.view.place s.pager.layout.root) i

/-- The directory that an entry of the root table names. -/
def directoryAt (s : Paging β) (i : Fin 4) : Option PhysicalAddress :=
  if (s.roots i).present then some (s.roots i).directory else none

/-- The frame that an entry of a directory or a table names. -/
def frameAt (s : Paging β) (table : PhysicalAddress) (i : Fin 512) : Option PhysicalAddress :=
  if (Table.entry s.memory (s.view.place table) i).present then
    some (Table.entry s.memory (s.view.place table) i).frame
  else none

/-- What is linked where, as memory has it. -/
def tree (s : Paging β) : TableTree where
  directory := s.directoryAt
  table ij := (s.directoryAt ij.1).bind (s.frameAt · ij.2)
  leaf ijk := ((s.directoryAt ijk.1).bind (s.frameAt · ijk.2.1)).bind (s.frameAt · ijk.2.2)

/-- The words of the tables are those of the tree they spell: entries that name a frame have the
switches of their level on, and all other entries are zero. Every directory and every table is
linked by one entry only, and it is neither the root table nor kept for later. -/
structure WellFormed (s : Paging β) : Prop where
  spells : s.tree.Spells s.pager.layout.root s.view.bitsAt
  root_clear : ∀ i : Fin 4, clearBits (s.view.bitsAt s.pager.layout.root i)
    (EntryMask.address + EntryMask.present) = 0
  clear : ∀ σ f, σ ≠ .root → s.tree.linked s.pager.layout.root σ = some f → ∀ n : Fin 512,
    clearBits (s.view.bitsAt f n)
      (EntryMask.address + (EntryMask.present + EntryMask.writable)) = 0
  ledger : Ledger (s.tree.linked s.pager.layout.root) s.pager.loose
  page : ∀ ijk f, s.tree.leaf ijk = some f → f.IsFrame

theorem Realizes.roots_eq (h : s.Realizes t) (i : Fin 4) :
    s.roots i = ⟨entryBits rootSwitches (t.directory i)⟩ :=
  h.spells.rootEntry_eq i

theorem Realizes.directoryAt_eq (h : s.Realizes t) (i : Fin 4) :
    s.directoryAt i = t.directory i := by
  have hframe := fun d => h.ledger.frame (.directory i) d
  simp only [linked] at hframe
  rw [directoryAt, h.roots_eq, rootEntry_present hframe]
  cases hd : t.directory i with
  | none => rfl
  | some d => rw [if_pos Option.isSome_some, rootEntry_directory (hframe d hd)]

theorem frameAt_of_bits {table : PhysicalAddress} {i : Fin 512} {o : Option PhysicalAddress}
    (hbits : s.view.bitsAt table i = entryBits kernelSwitches o)
    (ho : ∀ f, o = some f → f.IsFrame) : s.frameAt table i = o := by
  have hentry : Table.entry s.memory (s.view.place table) i = ⟨entryBits kernelSwitches o⟩ :=
    congrArg PageEntry.mk hbits
  rw [frameAt, hentry, pageEntry_present ho]
  cases o with
  | none => rfl
  | some f => rw [if_pos Option.isSome_some, pageEntry_frame (ho f rfl)]

/-- The tree that the tables are known to spell is the one that can be read off them. -/
theorem Realizes.tree_eq (h : s.Realizes t) : s.tree = t := by
  have htable : ∀ ij, (s.directoryAt ij.1).bind (s.frameAt · ij.2) = t.table ij := by
    rintro ⟨i, j⟩
    rw [h.directoryAt_eq]
    cases hd : t.directory i with
    | none => exact (h.closed.table i j hd).symm
    | some d => exact frameAt_of_bits (h.spells.directory i d hd j) (h.ledger.frame (.table (i, j)))
  have hleaf : ∀ ijk : Fin 4 × Fin 512 × Fin 512,
      ((s.directoryAt ijk.1).bind (s.frameAt · ijk.2.1)).bind (s.frameAt · ijk.2.2)
        = t.leaf ijk := by
    rintro ⟨i, j, k⟩
    rw [htable (i, j)]
    cases hf : t.table (i, j) with
    | none => exact (h.closed.leaf i j k hf).symm
    | some f => exact frameAt_of_bits (h.spells.table i j f hf k) (h.leaf (i, j, k))
  cases t
  rw [tree, TableTree.mk.injEq]
  exact ⟨funext h.directoryAt_eq, funext htable, funext hleaf⟩

theorem Realizes.wellFormed (h : s.Realizes t) : s.WellFormed := by
  obtain rfl := h.tree_eq
  refine ⟨h.spells, ?_, ?_, h.ledger, h.leaf⟩
  · intro i
    rw [h.spells.root i]
    exact clearBits_entryBits (h.ledger.frame (.directory i)) (by decide)
  · intro σ f hσ hf n
    cases σ with
    | root => exact absurd rfl hσ
    | directory i =>
      rw [h.spells.directory i f hf n]
      exact clearBits_entryBits (h.ledger.frame (.table (i, n))) (by decide)
    | table ij =>
      rw [h.spells.table ij.1 ij.2 f hf n]
      exact clearBits_entryBits (h.leaf (ij.1, ij.2, n)) (by decide)

/-! ### Calls of the fault handler -/

variable [Backing β] {Good : β → Prop}

/-- The state after the faults were handled one after another, also where the handling of one of
them ended in a panic. -/
def afterFaults (s : Paging β) (faults : List PageFault) : Paging β :=
  faults.foldl (fun s fault => (handleFault fault s).2) s

/-- However the handling of a fault ends, the tables spell a tree. -/
theorem handleFault_realizes (hb : Backing.Honors Good) (h : s.Realizes t)
    (hgood : Good s.pager.backing) (fault : PageFault) :
    ∃ t', (handleFault fault s).2.Realizes t' ∧ Good (handleFault fault s).2.pager.backing := by
  rcases h.handleFault_outcome hb hgood fault with
    ⟨s', hrun, -, -, hrealizes, hgood'⟩ | ⟨r, p', hrun, hresolve, hgood'⟩
  · rw [hrun]
    exact ⟨t, hrealizes, hgood'⟩
  · obtain ⟨t', _, _, hrealizes, -⟩ := h.resolve hresolve
    rw [hrun]
    exact ⟨t', hrealizes, hgood'⟩

theorem afterFaults_realizes (hb : Backing.Honors Good) (h : s.Realizes t)
    (hgood : Good s.pager.backing) (faults : List PageFault) :
    ∃ t', (s.afterFaults faults).Realizes t' := by
  induction faults generalizing s t with
  | nil => exact ⟨t, h⟩
  | cons fault rest ih =>
    obtain ⟨t', h', hgood'⟩ := handleFault_realizes hb h hgood fault
    exact ih h' hgood'

/-- The tables stay a tree whose entries hold nothing but its links, whatever faults are handled
and whatever memory held before. -/
theorem faults_keep_wellFormed (hb : Backing.Honors Good) {p : Pager β} (hp : p.Ready)
    (hgood : Good p.backing) (m : Memory) : ∃ s, initTables ⟨p, m⟩ = (.ok (), s)
    ∧ ∀ faults, (s.afterFaults faults).WellFormed := by
  obtain ⟨s, hinit, hrealizes, hbacking, -⟩ := initTables_realizes hp m
  refine ⟨s, hinit, ?_⟩
  intro faults
  obtain ⟨t', hrealizes'⟩ := afterFaults_realizes hb hrealizes (hbacking ▸ hgood) faults
  exact hrealizes'.wellFormed

theorem faults_keep_wellFormed_sample : ∃ s, initTables ⟨.sample, .filled 0xA5⟩ = (.ok (), s)
    ∧ (s.afterFaults sampleFaults).WellFormed := by
  obtain ⟨s, hinit, hfaults⟩ := faults_keep_wellFormed IdentityBacking.honors Pager.ready_sample
    trivial (.filled 0xA5)
  exact ⟨s, hinit, hfaults sampleFaults⟩

end Paging

end PaeKernel
