import Mathlib.Logic.Function.Basic
import PaeKernel.Paging.PageMap
import PaeKernel.Proofs.Paging.Contents

/-!
# The tree that tables in memory spell

`TableTree` says which directories, tables and pages are linked where. `TableTree.Spells` ties it to
the words in memory, and translation is then a look-up in the tree. New levels are filled while they
are not linked, so only one store of a change is a store into the tree: `Spells.link_leaf`,
`Spells.link_table` and `Spells.link_directory` are these stores.

`Ledger` keeps account of frames: no frame is linked twice, and none that is linked is also kept for
later tables.
-/

namespace PaeKernel

namespace VirtualAddress

variable {a b : VirtualAddress}

/-- The entries that lead to a page. -/
def indices (a : VirtualAddress) : Fin 4 × Fin 512 × Fin 512 := (a.pdptIndex, a.pdIndex, a.ptIndex)

theorem pageBase_pageBase (a : VirtualAddress) : a.pageBase.pageBase = a.pageBase := by
  rw [VirtualAddress.ext_iff]
  simp only [pageBase]
  omega

theorem indices_pageBase (a : VirtualAddress) : a.pageBase.indices = a.indices := by
  simp only [indices, Prod.mk.injEq, Fin.ext_iff, pdptIndex, pdIndex, ptIndex, pageBase]
  omega

theorem pdptIndex_pageBase (a : VirtualAddress) : a.pageBase.pdptIndex = a.pdptIndex :=
  congrArg Prod.fst a.indices_pageBase

theorem pdIndex_pageBase (a : VirtualAddress) : a.pageBase.pdIndex = a.pdIndex :=
  congrArg (·.2.1) a.indices_pageBase

theorem ptIndex_pageBase (a : VirtualAddress) : a.pageBase.ptIndex = a.ptIndex :=
  congrArg (·.2.2) a.indices_pageBase

theorem indices_eq_iff : a.indices = b.indices ↔ a.pageBase = b.pageBase := by
  have ha := a.indices_spell
  have hb := b.indices_spell
  simp only [indices, Prod.mk.injEq, Fin.ext_iff, VirtualAddress.ext_iff, pageBase, pdptIndex,
    pdIndex, ptIndex, pageOffset] at *
  omega

end VirtualAddress

/-- What is linked where: directories in the root table, tables in directories, pages in tables. -/
structure TableTree where
  directory : Fin 4 → Option PhysicalAddress
  table : Fin 4 × Fin 512 → Option PhysicalAddress
  leaf : Fin 4 × Fin 512 × Fin 512 → Option PhysicalAddress

namespace TableTree

/-- The tree with a directory linked. -/
def setDirectory (t : TableTree) (i : Fin 4) (d : PhysicalAddress) : TableTree :=
  { t with directory := Function.update t.directory i (some d) }

/-- The tree with a table linked. -/
def setTable (t : TableTree) (ij : Fin 4 × Fin 512) (f : PhysicalAddress) : TableTree :=
  { t with table := Function.update t.table ij (some f) }

/-- The tree with a page linked. -/
def setLeaf (t : TableTree) (ijk : Fin 4 × Fin 512 × Fin 512) (frame : PhysicalAddress) : TableTree :=
  { t with leaf := Function.update t.leaf ijk (some frame) }

theorem directory_setDirectory_self (t : TableTree) (i : Fin 4) (d : PhysicalAddress) :
    (t.setDirectory i d).directory i = some d := by
  simp [setDirectory]

theorem directory_setDirectory_of_ne {i i' : Fin 4} (h : i' ≠ i) (t : TableTree)
    (d : PhysicalAddress) : (t.setDirectory i d).directory i' = t.directory i' := by
  simp [setDirectory, h]

theorem table_setTable_self (t : TableTree) (ij : Fin 4 × Fin 512) (f : PhysicalAddress) :
    (t.setTable ij f).table ij = some f := by
  simp [setTable]

theorem table_setTable_of_ne {ij ij' : Fin 4 × Fin 512} (h : ij' ≠ ij) (t : TableTree)
    (f : PhysicalAddress) : (t.setTable ij f).table ij' = t.table ij' := by
  simp [setTable, h]

theorem leaf_setLeaf_self (t : TableTree) (ijk : Fin 4 × Fin 512 × Fin 512)
    (frame : PhysicalAddress) : (t.setLeaf ijk frame).leaf ijk = some frame := by
  simp [setLeaf]

theorem leaf_setLeaf_of_ne {ijk ijk' : Fin 4 × Fin 512 × Fin 512} (h : ijk' ≠ ijk) (t : TableTree)
    (frame : PhysicalAddress) : (t.setLeaf ijk frame).leaf ijk' = t.leaf ijk' := by
  simp [setLeaf, h]

/-- The frames of pages. -/
def pages (t : TableTree) : PageMap := fun a => t.leaf a.indices

/-- Nothing hangs below a missing level. -/
structure Closed (t : TableTree) : Prop where
  table : ∀ i j, t.directory i = none → t.table (i, j) = none
  leaf : ∀ i j k, t.table (i, j) = none → t.leaf (i, j, k) = none

/-- The words of the root table and of all linked frames are those of the tree. -/
structure Spells (t : TableTree) (root : PhysicalAddress) (bits : PhysicalAddress → Nat → Nat) :
    Prop where
  root : ∀ i : Fin 4, bits root i = entryBits rootSwitches (t.directory i)
  directory : ∀ i d, t.directory i = some d →
    ∀ j : Fin 512, bits d j = entryBits kernelSwitches (t.table (i, j))
  table : ∀ i j f, t.table (i, j) = some f →
    ∀ k : Fin 512, bits f k = entryBits kernelSwitches (t.leaf (i, j, k))

/-! ### Frames in use -/

/-- The places that hold a table of some level. -/
inductive Slot where
  | root
  | directory (i : Fin 4)
  | table (ij : Fin 4 × Fin 512)
  deriving DecidableEq

/-- The frame at a place. -/
def linked (t : TableTree) (root : PhysicalAddress) : Slot → Option PhysicalAddress
  | .root => some root
  | .directory i => t.directory i
  | .table ij => t.table ij

/-- Linked frames are apart from each other and from the loose ones, and so are these. -/
structure Ledger (linked : Slot → Option PhysicalAddress) (loose : List PhysicalAddress) : Prop where
  frame : ∀ σ f, linked σ = some f → f.IsFrame
  distinct : ∀ σ τ f, linked σ = some f → linked τ = some f → σ = τ
  loose_frame : ∀ f ∈ loose, f.IsFrame
  loose_nodup : loose.Nodup
  apart : ∀ σ f, linked σ = some f → f ∉ loose

namespace Ledger

variable {linked : Slot → Option PhysicalAddress} {loose : List PhysicalAddress} {σ τ : Slot}
  {f g : PhysicalAddress}

theorem eq_iff (h : Ledger linked loose) (hf : linked σ = some f) (hg : linked τ = some g) :
    f = g ↔ σ = τ := by
  constructor
  · rintro rfl
    exact h.distinct σ τ f hf hg
  · rintro rfl
    exact Option.some.inj (hf.symm.trans hg)

theorem ne_of_loose (h : Ledger linked loose) (σ : Slot) (hf : linked σ = some f)
    (hg : g ∈ loose) : f ≠ g := by
  rintro rfl
  exact h.apart σ f hf hg

theorem perm (h : Ledger linked loose) {loose' : List PhysicalAddress} (hperm : loose.Perm loose') :
    Ledger linked loose' where
  frame := h.frame
  distinct := h.distinct
  loose_frame f hf := h.loose_frame f (hperm.mem_iff.2 hf)
  loose_nodup := hperm.nodup_iff.1 h.loose_nodup
  apart σ f hf hmem := h.apart σ f hf (hperm.mem_iff.2 hmem)

/-- Loose frames may get lost. -/
theorem of_append {taken : List PhysicalAddress} (h : Ledger linked (taken ++ loose)) :
    Ledger linked loose where
  frame := h.frame
  distinct := h.distinct
  loose_frame f hf := h.loose_frame f (List.mem_append_right _ hf)
  loose_nodup := (List.nodup_append.1 h.loose_nodup).2.1
  apart σ f hf hmem := h.apart σ f hf (List.mem_append_right _ hmem)

/-- A loose frame is linked. -/
theorem link (h : Ledger linked (f :: loose)) (σ : Slot) :
    Ledger (Function.update linked σ (some f)) loose := by
  have hfresh : ∀ τ, linked τ ≠ some f := fun τ hτ => h.apart τ f hτ List.mem_cons_self
  obtain ⟨hnot, hnodup⟩ := List.nodup_cons.1 h.loose_nodup
  refine ⟨?_, ?_, ?_, hnodup, ?_⟩
  · intro τ g hg
    by_cases hτ : τ = σ
    · rw [hτ, Function.update_self] at hg
      exact Option.some.inj hg ▸ h.loose_frame f List.mem_cons_self
    · rw [Function.update_of_ne hτ] at hg
      exact h.frame τ g hg
  · intro τ τ' g hg hg'
    by_cases hτ : τ = σ <;> by_cases hτ' : τ' = σ
    · rw [hτ, hτ']
    · rw [hτ, Function.update_self] at hg
      rw [Function.update_of_ne hτ'] at hg'
      exact absurd (hg'.trans hg.symm) (hfresh τ')
    · rw [hτ', Function.update_self] at hg'
      rw [Function.update_of_ne hτ] at hg
      exact absurd (hg.trans hg'.symm) (hfresh τ)
    · rw [Function.update_of_ne hτ] at hg
      rw [Function.update_of_ne hτ'] at hg'
      exact h.distinct τ τ' g hg hg'
  · intro g hg
    exact h.loose_frame g (List.mem_cons_of_mem _ hg)
  · intro τ g hg
    by_cases hτ : τ = σ
    · rw [hτ, Function.update_self] at hg
      exact Option.some.inj hg ▸ hnot
    · rw [Function.update_of_ne hτ] at hg
      exact fun hmem => h.apart τ g hg (List.mem_cons_of_mem _ hmem)

end Ledger

section Links

variable {t : TableTree} {root d f frame : PhysicalAddress} {i : Fin 4} {j k : Fin 512}

theorem linked_setDirectory : (t.setDirectory i d).linked root
    = Function.update (t.linked root) (.directory i) (some d) := by
  funext σ
  cases σ with
  | root => rfl
  | directory i' =>
    by_cases h : i' = i
    · subst h
      simp [linked, setDirectory]
    · simp [linked, setDirectory, h]
  | table ij => rfl

theorem linked_setTable : (t.setTable (i, j) f).linked root
    = Function.update (t.linked root) (.table (i, j)) (some f) := by
  funext σ
  cases σ with
  | root => rfl
  | directory i' => rfl
  | table ij =>
    by_cases h : ij = (i, j)
    · subst h
      simp [linked, setTable]
    · simp [linked, setTable, h]

theorem linked_setLeaf : (t.setLeaf (i, j, k) frame).linked root = t.linked root := by
  funext σ
  cases σ <;> rfl

end Links

/-! ### Changes of memory and changes of the tree -/

section Spelling

variable {t : TableTree} {root d f frame : PhysicalAddress} {i : Fin 4} {j k : Fin 512}
  {bits bits' : PhysicalAddress → Nat → Nat} {loose : List PhysicalAddress}

/-- What is written elsewhere does not matter. -/
theorem Spells.of_agree (h : t.Spells root bits)
    (hsame : ∀ σ f, t.linked root σ = some f → ∀ n < 512, bits' f n = bits f n) :
    t.Spells root bits' where
  root i := (hsame .root root rfl i (by omega)).trans (h.root i)
  directory i d hd j := (hsame (.directory i) d hd j j.isLt).trans (h.directory i d hd j)
  table i j f hf k := (hsame (.table (i, j)) f hf k k.isLt).trans (h.table i j f hf k)

/-- A table that is not linked has no say in what is spelled. -/
theorem Spells.fill_leaf (h : t.Spells root bits) (hnone : t.table (i, j) = none) (k : Fin 512)
    (frame : PhysicalAddress) : (t.setLeaf (i, j, k) frame).Spells root bits where
  root := h.root
  directory := h.directory
  table i' j' f hf k' := by
    have hne : (i', j', k') ≠ (i, j, k) := by
      intro heq
      simp only [Prod.mk.injEq] at heq
      obtain ⟨rfl, rfl, rfl⟩ := heq
      exact Option.some_ne_none f (hf.symm.trans hnone)
    rw [leaf_setLeaf_of_ne hne]
    exact h.table i' j' f hf k'

/-- A table may be filled before the directory it belongs to is linked. -/
theorem Spells.fill_table (h : t.Spells root bits) (hnone : t.directory i = none) (j : Fin 512)
    (hfill : ∀ k : Fin 512, bits f k = entryBits kernelSwitches (t.leaf (i, j, k))) :
    (t.setTable (i, j) f).Spells root bits where
  root := h.root
  directory i' d hd j' := by
    have hne : (i', j') ≠ (i, j) := by
      intro heq
      simp only [Prod.mk.injEq] at heq
      obtain ⟨rfl, rfl⟩ := heq
      exact Option.some_ne_none d (hd.symm.trans hnone)
    rw [table_setTable_of_ne hne]
    exact h.directory i' d hd j'
  table i' j' g hg k := by
    by_cases heq : (i', j') = (i, j)
    · rw [heq, table_setTable_self] at hg
      obtain rfl := Option.some.inj hg
      simp only [Prod.mk.injEq] at heq
      obtain ⟨rfl, rfl⟩ := heq
      exact hfill k
    · rw [table_setTable_of_ne heq] at hg
      exact h.table i' j' g hg k

/-- The bits after one entry of frame `f` was stored. -/
def Stored (bits bits' : PhysicalAddress → Nat → Nat) (f : PhysicalAddress) (n value : Nat) : Prop :=
  ∀ g m, g.IsFrame → m < 512 → bits' g m = if f = g ∧ n = m then value else bits g m

theorem Stored.of_slot_ne {n value m : Nat} {g : PhysicalAddress}
    (hstored : Stored bits bits' f n value) (hl : Ledger (t.linked root) loose) (σ τ : Slot)
    (hf : t.linked root σ = some f) (hg : t.linked root τ = some g) (hne : σ ≠ τ) (hm : m < 512) :
    bits' g m = bits g m := by
  rw [hstored g m (hl.frame τ g hg) hm, if_neg]
  exact fun ⟨hfg, _⟩ => hne ((hl.eq_iff hf hg).1 hfg)

/-- The store that links a page. -/
theorem Spells.link_leaf (h : t.Spells root bits) (hl : Ledger (t.linked root) loose)
    (hf : t.table (i, j) = some f) (k : Fin 512) (frame : PhysicalAddress)
    (hstored : Stored bits bits' f k (entryBits kernelSwitches (some frame))) :
    (t.setLeaf (i, j, k) frame).Spells root bits' where
  root i' := by
    rw [hstored.of_slot_ne hl (.table (i, j)) .root hf rfl nofun (by omega)]
    exact h.root i'
  directory i' d hd j' := by
    rw [hstored.of_slot_ne hl (.table (i, j)) (.directory i') hf hd nofun j'.isLt]
    exact h.directory i' d hd j'
  table i' j' g hg k' := by
    by_cases heq : (i', j') = (i, j)
    · simp only [Prod.mk.injEq] at heq
      obtain ⟨rfl, rfl⟩ := heq
      obtain rfl := Option.some.inj (hf.symm.trans hg)
      rw [hstored f k' (hl.frame (.table (i', j')) f hf) k'.isLt]
      by_cases hk : k' = k
      · subst hk
        rw [if_pos ⟨rfl, rfl⟩, leaf_setLeaf_self]
      · rw [if_neg fun hand => hk (Fin.ext hand.2.symm), leaf_setLeaf_of_ne]
        · exact h.table i' j' f hf k'
        · simpa using hk
    · have hne : Slot.table (i, j) ≠ Slot.table (i', j') := fun hslot =>
        heq (Slot.table.inj hslot).symm
      rw [hstored.of_slot_ne hl (.table (i, j)) (.table (i', j')) hf hg hne k'.isLt,
        leaf_setLeaf_of_ne]
      · exact h.table i' j' g hg k'
      · simp only [ne_eq, Prod.mk.injEq, not_and] at heq ⊢
        exact fun hi hj => absurd hj (heq hi)

/-- The store that links a table that was filled before. -/
theorem Spells.link_table (h : t.Spells root bits) (hl : Ledger (t.linked root) loose)
    (hd : t.directory i = some d) (hf : f ∈ loose) (j : Fin 512)
    (hfill : ∀ k : Fin 512, bits f k = entryBits kernelSwitches (t.leaf (i, j, k)))
    (hstored : Stored bits bits' d j (entryBits kernelSwitches (some f))) :
    (t.setTable (i, j) f).Spells root bits' where
  root i' := by
    rw [hstored.of_slot_ne hl (.directory i) .root hd rfl nofun (by omega)]
    exact h.root i'
  directory i' d' hd' j' := by
    by_cases heq : i' = i
    · subst heq
      obtain rfl := Option.some.inj (hd.symm.trans hd')
      rw [hstored d j' (hl.frame (.directory i') d hd) j'.isLt]
      by_cases hj : j' = j
      · subst hj
        rw [if_pos ⟨rfl, rfl⟩, table_setTable_self]
      · rw [if_neg fun hand => hj (Fin.ext hand.2.symm), table_setTable_of_ne]
        · exact h.directory i' d hd j'
        · simpa using hj
    · have hne : Slot.directory i ≠ Slot.directory i' := fun hslot =>
        heq (Slot.directory.inj hslot).symm
      rw [hstored.of_slot_ne hl (.directory i) (.directory i') hd hd' hne j'.isLt,
        table_setTable_of_ne]
      · exact h.directory i' d' hd' j'
      · exact fun hpair => heq (Prod.mk.inj hpair).1
  table i' j' g hg k := by
    by_cases heq : (i', j') = (i, j)
    · rw [heq, table_setTable_self] at hg
      obtain rfl := Option.some.inj hg
      rw [hstored f k (hl.loose_frame f hf) k.isLt, if_neg]
      · simp only [Prod.mk.injEq] at heq
        obtain ⟨rfl, rfl⟩ := heq
        exact hfill k
      · exact fun hand => hl.ne_of_loose (.directory i) hd hf hand.1
    · rw [table_setTable_of_ne heq] at hg
      rw [hstored.of_slot_ne hl (.directory i) (.table (i', j')) hd hg nofun k.isLt]
      exact h.table i' j' g hg k

/-- The store that links a directory that was filled before. -/
theorem Spells.link_directory (h : t.Spells root bits) (hl : Ledger (t.linked root) loose)
    (hd : d ∈ loose) (i : Fin 4)
    (hfill : ∀ j : Fin 512, bits d j = entryBits kernelSwitches (t.table (i, j)))
    (hstored : Stored bits bits' root i (entryBits rootSwitches (some d))) :
    (t.setDirectory i d).Spells root bits' where
  root i' := by
    rw [hstored root i' (hl.frame .root root rfl) (by omega)]
    by_cases hi : i' = i
    · subst hi
      rw [if_pos ⟨rfl, rfl⟩, directory_setDirectory_self]
    · rw [if_neg fun hand => hi (Fin.ext hand.2.symm), directory_setDirectory_of_ne hi]
      exact h.root i'
  directory i' d' hd' j := by
    by_cases hi : i' = i
    · rw [hi, directory_setDirectory_self] at hd'
      obtain rfl := Option.some.inj hd'
      subst hi
      rw [hstored d j (hl.loose_frame d hd) j.isLt, if_neg]
      · exact hfill j
      · exact fun hand => hl.ne_of_loose .root rfl hd hand.1
    · rw [directory_setDirectory_of_ne hi] at hd'
      rw [hstored.of_slot_ne hl .root (.directory i') rfl hd' nofun j.isLt]
      exact h.directory i' d' hd' j
  table i' j' f hf k := by
    rw [hstored.of_slot_ne hl .root (.table (i', j')) rfl hf nofun k.isLt]
    exact h.table i' j' f hf k

end Spelling

/-! ### Reading the tree -/

section Reading

variable {t : TableTree} {root d f : PhysicalAddress} {v : PhysicalView} {i : Fin 4} {j : Fin 512}
  {loose : List PhysicalAddress}

theorem Spells.rootEntry_eq (h : t.Spells root v.bitsAt) (i : Fin 4) :
    Table.rootEntry v.memory (v.place root) i = ⟨entryBits rootSwitches (t.directory i)⟩ :=
  congrArg RootEntry.mk (h.root i)

theorem Spells.directoryEntry_eq (h : t.Spells root v.bitsAt) (hd : t.directory i = some d)
    (j : Fin 512) :
    Table.entry v.memory (v.place d) j = ⟨entryBits kernelSwitches (t.table (i, j))⟩ :=
  congrArg PageEntry.mk (h.directory i d hd j)

theorem Spells.tableEntry_eq (h : t.Spells root v.bitsAt) (hf : t.table (i, j) = some f)
    (k : Fin 512) :
    Table.entry v.memory (v.place f) k = ⟨entryBits kernelSwitches (t.leaf (i, j, k))⟩ :=
  congrArg PageEntry.mk (h.table i j f hf k)

/-- A walk over tables that spell a tree is a look-up in it. -/
theorem translate_of_spells (h : t.Spells root v.bitsAt) (hc : t.Closed)
    (hl : Ledger (t.linked root) loose) (hleaf : ∀ ijk f, t.leaf ijk = some f → f.IsFrame)
    (a : VirtualAddress) : v.translate root a = t.pages.translate a := by
  have hpages : t.pages a.pageBase = t.leaf (a.pdptIndex, a.pdIndex, a.ptIndex) :=
    congrArg t.leaf a.indices_pageBase
  have hdirectory := fun d => hl.frame (.directory a.pdptIndex) d
  have htable := fun f => hl.frame (.table (a.pdptIndex, a.pdIndex)) f
  simp only [linked] at hdirectory htable
  rw [PageMap.translate, hpages, PhysicalView.translate, PhysicalView.walk, h.rootEntry_eq,
    rootEntry_present hdirectory]
  cases hd : t.directory a.pdptIndex with
  | none =>
    rw [hc.leaf _ _ _ (hc.table _ a.pdIndex hd)]
    rfl
  | some d =>
    dsimp only
    rw [if_pos Option.isSome_some, rootEntry_directory (hdirectory d hd), h.directoryEntry_eq hd,
      pageEntry_present htable]
    cases hf : t.table (a.pdptIndex, a.pdIndex) with
    | none =>
      rw [hc.leaf _ _ _ hf]
      rfl
    | some f =>
      rw [if_pos Option.isSome_some, pageEntry_largePage (htable f hf), pageEntry_frame (htable f hf),
        h.tableEntry_eq hf, pageEntry_present fun g => hleaf _ g]
      cases hg : t.leaf (a.pdptIndex, a.pdIndex, a.ptIndex) with
      | none => rfl
      | some g =>
        rw [if_neg Bool.false_ne_true, if_pos Option.isSome_some, pageEntry_frame (hleaf _ g hg)]
        rfl

end Reading

end TableTree

end PaeKernel
