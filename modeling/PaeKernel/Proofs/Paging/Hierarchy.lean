import PaeKernel.Proofs.Paging.Drafts
import PaeKernel.Proofs.Paging.Tree

/-!
# Faults grow the tree

`Paging.Realizes` is the invariant of a pager at work: its tables spell a tree, and every frame is
linked once or loose, never both. A fault that maps a page adds that page to the tree and links the
levels above it that were missing; every other fault leaves the tree as it was.
-/

namespace PaeKernel

namespace PhysicalView

variable {v : PhysicalView} {d f g frame : PhysicalAddress} {page : VirtualAddress} {n : Nat}

theorem bitsAt_apply_leafStore (v : PhysicalView) (before : List Memory.Store) (hf : f.IsFrame)
    (hg : g.IsFrame) (hframe : frame.IsFrame) (hn : n < 512) :
    (v.apply (before ++ [v.leafStore f page frame])).bitsAt g n
      = if f = g ∧ page.ptIndex.val = n then entryBits kernelSwitches (some frame)
        else (v.apply before).bitsAt g n :=
  v.bitsAt_apply_append_entry before hf hg page.ptIndex.isLt hn
    (entryBits_lt (fun _ h => Option.some.inj h ▸ hframe) (by decide))

theorem bitsAt_apply_tableStore (v : PhysicalView) (before : List Memory.Store) (hf : f.IsFrame)
    (hg : g.IsFrame) (hframe : frame.IsFrame) (hn : n < 512) :
    (v.apply (before ++ [v.tableStore f page frame])).bitsAt g n
      = if f = g ∧ page.pdIndex.val = n then entryBits kernelSwitches (some frame)
        else (v.apply before).bitsAt g n :=
  v.bitsAt_apply_append_entry before hf hg page.pdIndex.isLt hn
    (entryBits_lt (fun _ h => Option.some.inj h ▸ hframe) (by decide))

theorem bitsAt_apply_directoryStore (v : PhysicalView) (before : List Memory.Store)
    (hf : f.IsFrame) (hg : g.IsFrame) (hframe : frame.IsFrame) (hn : n < 512) :
    (v.apply (before ++ [v.directoryStore f page frame])).bitsAt g n
      = if f = g ∧ page.pdptIndex.val = n then entryBits rootSwitches (some frame)
        else (v.apply before).bitsAt g n :=
  v.bitsAt_apply_append_entry before hf hg (by omega) hn
    (entryBits_lt (fun _ h => Option.some.inj h ▸ hframe) (by decide))

/-! Tables and directories filled while nothing links them -/

theorem into_tableStores (v : PhysicalView) (page : VirtualAddress) (frame : PhysicalAddress)
    {frames : List PhysicalAddress} (hf : f ∈ frames) :
    ∀ x ∈ v.tableStores f page frame, v.Into frames x := by
  intro x hx
  rcases List.mem_append.1 hx with hx | hx
  · exact v.into_zeroStores hf x hx
  · obtain rfl := List.mem_singleton.1 hx
    exact ⟨f, hf, page.ptIndex, page.ptIndex.isLt, rfl⟩

theorem into_directoryStores (v : PhysicalView) (page : VirtualAddress) (frame : PhysicalAddress)
    {frames : List PhysicalAddress} (hd : d ∈ frames) (hf : f ∈ frames) :
    ∀ x ∈ v.directoryStores d f page frame, v.Into frames x := by
  intro x hx
  rcases List.mem_append.1 hx with hx | hx
  · rcases List.mem_append.1 hx with hx | hx
    · exact v.into_zeroStores hd x hx
    · exact v.into_zeroStores hf x hx
  · rcases List.mem_cons.1 hx with rfl | hx
    · exact ⟨f, hf, page.ptIndex, page.ptIndex.isLt, rfl⟩
    · obtain rfl := List.mem_singleton.1 hx
      exact ⟨d, hd, page.pdIndex, page.pdIndex.isLt, rfl⟩

theorem bitsAt_tableStores (v : PhysicalView) (page : VirtualAddress) (hf : f.IsFrame)
    (hframe : frame.IsFrame) (hn : n < 512) :
    (v.apply (v.tableStores f page frame)).bitsAt f n
      = if page.ptIndex.val = n then entryBits kernelSwitches (some frame) else 0 := by
  rw [tableStores, bitsAt_apply_leafStore v _ hf hf hframe hn, bitsAt_apply_zero v hf hf hn,
    if_pos rfl]
  simp only [true_and]

theorem bitsAt_directoryStores (v : PhysicalView) (page : VirtualAddress) (hd : d.IsFrame)
    (hf : f.IsFrame) (hne : d ≠ f) (hframe : frame.IsFrame) (hn : n < 512) :
    (v.apply (v.directoryStores d f page frame)).bitsAt f n
        = (if page.ptIndex.val = n then entryBits kernelSwitches (some frame) else 0)
      ∧ (v.apply (v.directoryStores d f page frame)).bitsAt d n
        = if page.pdIndex.val = n then entryBits kernelSwitches (some f) else 0 := by
  have hsplit : v.directoryStores d f page frame
      = (Table.zeroStores (v.place d) ++ Table.zeroStores (v.place f)
        ++ [v.leafStore f page frame]) ++ [v.tableStore d page f] := by
    rw [directoryStores, List.append_cons]
  rw [hsplit, bitsAt_apply_tableStore v _ hd hf hf hn, bitsAt_apply_tableStore v _ hd hd hf hn,
    bitsAt_apply_leafStore v _ hf hf hframe hn, bitsAt_apply_leafStore v _ hf hd hframe hn,
    bitsAt_apply_append_zero v _ hf hf hn, bitsAt_apply_append_zero v _ hf hd hn,
    bitsAt_apply_zero v hd hd hn]
  simp [hne, Ne.symm hne]

end PhysicalView

namespace TableTree

/-- What the answer to a fault on a page says about the tree before and after it. -/
inductive Answers (t : TableTree) (page : VirtualAddress) :
    TableTree → Except FaultError Resolution → Prop
  | mapped (t' : TableTree) (frame : PhysicalAddress) (rootChanged : Bool)
    (free : t.leaf page.indices = none)
    (grown : t'.leaf = (t.setLeaf page.indices frame).leaf) :
    Answers t page t' (.ok (.mapped page frame rootChanged))
  | already (present : t.leaf page.indices ≠ none) : Answers t page t (.ok (.alreadyMapped page))
  | failed (err : FaultError) : Answers t page t (.error err)

/-- How mapping a page grows the tree: the frames taken for the levels that were missing, the tree
afterwards and the answer. -/
inductive Grows (t : TableTree) (page : VirtualAddress) :
    List PhysicalAddress → TableTree → Except FaultError Resolution → Prop
  | directory (d f frame : PhysicalAddress) (absent : t.directory page.pdptIndex = none) :
    Grows t page [d, f]
      (((t.setLeaf page.indices frame).setTable (page.pdptIndex, page.pdIndex) f).setDirectory
        page.pdptIndex d)
      (.ok (.mapped page frame true))
  | table (d f frame : PhysicalAddress) (above : t.directory page.pdptIndex = some d)
    (absent : t.table (page.pdptIndex, page.pdIndex) = none) :
    Grows t page [f] ((t.setLeaf page.indices frame).setTable (page.pdptIndex, page.pdIndex) f)
      (.ok (.mapped page frame false))
  | leaf (f frame : PhysicalAddress) (above : t.table (page.pdptIndex, page.pdIndex) = some f)
    (free : t.leaf page.indices = none) :
    Grows t page [] (t.setLeaf page.indices frame) (.ok (.mapped page frame false))
  | already (present : t.leaf page.indices ≠ none) :
    Grows t page [] t (.ok (.alreadyMapped page))
  | failed (err : FaultError) : Grows t page [] t (.error err)

theorem Grows.answers {t t' : TableTree} {page : VirtualAddress} {taken : List PhysicalAddress}
    {r : Except FaultError Resolution} (h : t.Grows page taken t' r) (hc : t.Closed) :
    t.Answers page t' r := by
  cases h with
  | directory d f frame absent =>
    exact .mapped _ frame true (hc.leaf _ _ page.ptIndex (hc.table _ page.pdIndex absent)) rfl
  | table d f frame above absent =>
    exact .mapped _ frame false (hc.leaf _ _ page.ptIndex absent) rfl
  | leaf f frame above free => exact .mapped _ frame false free rfl
  | already present => exact .already present
  | failed err => exact .failed err

variable {t : TableTree} {i : Fin 4} {j k : Fin 512} {d f frame : PhysicalAddress}

/-- A table not there before holds just the page it was made for. -/
theorem entryBits_setLeaf (h : t.Closed) (hnone : t.table (i, j) = none) (k k' : Fin 512) :
    entryBits kernelSwitches ((t.setLeaf (i, j, k) frame).leaf (i, j, k'))
      = if k.val = k' then entryBits kernelSwitches (some frame) else 0 := by
  by_cases hk : k' = k
  · rw [hk, if_pos rfl, leaf_setLeaf_self]
  · rw [if_neg fun heq => hk (Fin.ext heq.symm), leaf_setLeaf_of_ne (by simpa using hk),
      h.leaf i j k' hnone]
    rfl

/-- A directory not there before holds just the table it was made for. -/
theorem entryBits_setTable (h : t.Closed) (hnone : t.directory i = none) (j j' : Fin 512) :
    entryBits kernelSwitches ((t.setTable (i, j) f).table (i, j'))
      = if j.val = j' then entryBits kernelSwitches (some f) else 0 := by
  by_cases hj : j' = j
  · rw [hj, if_pos rfl, table_setTable_self]
  · rw [if_neg fun heq => hj (Fin.ext heq.symm), table_setTable_of_ne (by simpa using hj),
      h.table i j' hnone]
    rfl

theorem Closed.setLeaf (h : t.Closed) (hf : t.table (i, j) = some f) (k : Fin 512)
    (frame : PhysicalAddress) : (t.setLeaf (i, j, k) frame).Closed where
  table := h.table
  leaf i' j' k' hnone := by
    have hne : (i', j', k') ≠ (i, j, k) := by
      intro heq
      simp only [Prod.mk.injEq] at heq
      obtain ⟨rfl, rfl, -⟩ := heq
      exact Option.some_ne_none f (hf.symm.trans hnone)
    rw [leaf_setLeaf_of_ne hne]
    exact h.leaf i' j' k' hnone

theorem Closed.setTable (h : t.Closed) (hd : t.directory i = some d) (j : Fin 512)
    (f : PhysicalAddress) : (t.setTable (i, j) f).Closed where
  table i' j' hnone := by
    have hne : (i', j') ≠ (i, j) := by
      intro heq
      obtain ⟨rfl, -⟩ := Prod.mk.inj heq
      exact Option.some_ne_none d (hd.symm.trans hnone)
    rw [table_setTable_of_ne hne]
    exact h.table i' j' hnone
  leaf i' j' k hnone := by
    by_cases heq : (i', j') = (i, j)
    · rw [heq, table_setTable_self] at hnone
      exact absurd hnone (Option.some_ne_none f)
    · rw [table_setTable_of_ne heq] at hnone
      exact h.leaf i' j' k hnone

theorem Closed.setDirectory (h : t.Closed) (i : Fin 4) (d : PhysicalAddress) :
    (t.setDirectory i d).Closed where
  table i' j hnone := by
    by_cases heq : i' = i
    · rw [heq, directory_setDirectory_self] at hnone
      exact absurd hnone (Option.some_ne_none d)
    · rw [directory_setDirectory_of_ne heq] at hnone
      exact h.table i' j hnone
  leaf := h.leaf

end TableTree

namespace Paging

open TableTree

variable {β : Type} {s s' : Paging β} {t : TableTree}

/-- Stores that leave the window alone are seen through it. -/
theorem view_of_window {p : Pager β} (h : p.window = s.pager.window) (stores : List Memory.Store) :
    (Paging.mk p (s.memory.apply stores)).view = s.view.apply stores := by
  rw [view, h]
  rfl

/-- The tables of the pager spell the tree, and all its frames are accounted for. -/
structure Realizes (s : Paging β) (t : TableTree) : Prop where
  spells : t.Spells s.pager.layout.root s.view.bitsAt
  closed : t.Closed
  ledger : Ledger (t.linked s.pager.layout.root) s.pager.loose
  leaf : ∀ ijk f, t.leaf ijk = some f → f.IsFrame
  stop : s.pager.frames.stop < wordLimit

namespace Realizes

theorem fit (h : s.Realizes t) : s.pager.Fit := ⟨h.stop, h.ledger.loose_frame⟩

theorem translate_eq (h : s.Realizes t) (a : VirtualAddress) :
    s.translate a = t.pages.translate a :=
  translate_of_spells h.spells h.closed h.ledger h.leaf a

/-! ### Entries on the way to a page -/

section Entries

variable {page : VirtualAddress} {d f : PhysicalAddress}

theorem top_present (h : s.Realizes t) (page : VirtualAddress) :
    (s.view.top s.pager.layout.root page).present = (t.directory page.pdptIndex).isSome := by
  rw [PhysicalView.top, h.spells.rootEntry_eq]
  exact rootEntry_present fun d => h.ledger.frame (.directory page.pdptIndex) d

theorem top_directory (h : s.Realizes t) (hd : t.directory page.pdptIndex = some d) :
    (s.view.top s.pager.layout.root page).directory = d := by
  rw [PhysicalView.top, h.spells.rootEntry_eq, hd]
  exact rootEntry_directory (h.ledger.frame (.directory page.pdptIndex) d hd)

theorem middle_present (h : s.Realizes t) (hd : t.directory page.pdptIndex = some d) :
    (s.view.middle s.pager.layout.root page).present
      = (t.table (page.pdptIndex, page.pdIndex)).isSome := by
  rw [PhysicalView.middle, h.top_directory hd, h.spells.directoryEntry_eq hd]
  exact pageEntry_present fun f => h.ledger.frame (.table (page.pdptIndex, page.pdIndex)) f

theorem middle_frame (h : s.Realizes t) (hd : t.directory page.pdptIndex = some d)
    (hf : t.table (page.pdptIndex, page.pdIndex) = some f) :
    (s.view.middle s.pager.layout.root page).frame = f := by
  rw [PhysicalView.middle, h.top_directory hd, h.spells.directoryEntry_eq hd, hf]
  exact pageEntry_frame (h.ledger.frame (.table (page.pdptIndex, page.pdIndex)) f hf)

theorem bottom_present (h : s.Realizes t) (hd : t.directory page.pdptIndex = some d)
    (hf : t.table (page.pdptIndex, page.pdIndex) = some f) :
    (s.view.bottom s.pager.layout.root page).present = (t.leaf page.indices).isSome := by
  rw [PhysicalView.bottom, h.middle_frame hd hf, h.spells.tableEntry_eq hf]
  exact pageEntry_present (h.leaf page.indices)

theorem exists_directory (h : s.Realizes t)
    (habove : (s.view.top s.pager.layout.root page).present = true) :
    ∃ d, t.directory page.pdptIndex = some d := by
  rw [h.top_present] at habove
  exact Option.isSome_iff_exists.1 habove

theorem exists_table (h : s.Realizes t) (hd : t.directory page.pdptIndex = some d)
    (hpresent : (s.view.middle s.pager.layout.root page).present = true) :
    ∃ f, t.table (page.pdptIndex, page.pdIndex) = some f := by
  rw [h.middle_present hd] at hpresent
  exact Option.isSome_iff_exists.1 hpresent

theorem directory_eq_none (h : s.Realizes t)
    (habsent : (s.view.top s.pager.layout.root page).present = false) :
    t.directory page.pdptIndex = none := by
  rw [h.top_present] at habsent
  exact Option.isNone_iff_eq_none.1 (Option.isSome_eq_false_iff.1 habsent)

theorem table_eq_none (h : s.Realizes t) (hd : t.directory page.pdptIndex = some d)
    (habsent : (s.view.middle s.pager.layout.root page).present = false) :
    t.table (page.pdptIndex, page.pdIndex) = none := by
  rw [h.middle_present hd] at habsent
  exact Option.isNone_iff_eq_none.1 (Option.isSome_eq_false_iff.1 habsent)

end Entries

/-! ### Mapping a page -/

section Install

variable {page : VirtualAddress} {d f frame : PhysicalAddress} {p' : Pager β}
  {stores : List Memory.Store} {taken : List PhysicalAddress} {n : Nat} {t' : TableTree}

/-- The parts of the invariant after a draft was carried out. -/
theorem carried (h : s.Realizes t) (hmoved : s.pager.Moved p' taken n)
    (hspells : t'.Spells s.pager.layout.root (s.view.apply stores).bitsAt) (hclosed : t'.Closed)
    (hledger : Ledger (t'.linked s.pager.layout.root) p'.loose)
    (hleaf : ∀ ijk f, t'.leaf ijk = some f → f.IsFrame) :
    Realizes ⟨p', s.memory.apply stores⟩ t' := by
  refine ⟨?_, hclosed, ?_, hleaf, ?_⟩
  · rw [view_of_window hmoved.window, hmoved.layout]
    exact hspells
  · rw [hmoved.layout]
    exact hledger
  · rw [hmoved.stop]
    exact h.stop

theorem leaf_setLeaf (h : s.Realizes t) (hframe : frame.IsFrame)
    (ijk ijk' : Fin 4 × Fin 512 × Fin 512) (g : PhysicalAddress)
    (hg : (t.setLeaf ijk frame).leaf ijk' = some g) : g.IsFrame := by
  by_cases heq : ijk' = ijk
  · rw [heq, leaf_setLeaf_self] at hg
    exact Option.some.inj hg ▸ hframe
  · rw [leaf_setLeaf_of_ne heq] at hg
    exact h.leaf ijk' g hg

/-- Stores into loose frames leave what is spelled alone. -/
theorem spells_of_into (h : s.Realizes t) (hinto : ∀ x ∈ stores, s.view.Into s.pager.loose x) :
    t.Spells s.pager.layout.root (s.view.apply stores).bitsAt :=
  h.spells.of_agree fun σ f hf _ hn => s.view.bitsAt_apply_of_into hinto h.ledger.loose_frame
    (h.ledger.frame σ f hf) (h.ledger.apart σ f hf) hn

/-- Frames were at most lost, and stores went into loose frames only. -/
theorem stayed (h : s.Realizes t) (hmoved : s.pager.Moved p' taken n)
    (hinto : ∀ x ∈ stores, s.view.Into s.pager.loose x) :
    Realizes ⟨p', s.memory.apply stores⟩ t := by
  have hledger := h.ledger
  rw [hmoved.loose] at hledger
  exact h.carried hmoved (h.spells_of_into hinto) h.closed hledger.of_append h.leaf

/-- The state of the backing plays no part. -/
theorem of_backing (h : s.Realizes t) (b : β) :
    Realizes ⟨{ s.pager with backing := b }, s.memory⟩ t :=
  ⟨h.spells, h.closed, h.ledger, h.leaf, h.stop⟩

/-- Nothing but the pager's own records and the backing changed. -/
theorem unchanged (h : s.Realizes t) (b : β)
    (hmoved : { s.pager with backing := b }.Moved p' [] n) : Realizes ⟨p', s.memory⟩ t :=
  (h.of_backing b).stayed hmoved (List.forall_mem_nil _)

theorem link_leaf (h : s.Realizes t) (hf : t.table (page.pdptIndex, page.pdIndex) = some f)
    (hframe : frame.IsFrame) (hmoved : s.pager.Moved p' [] n) :
    Realizes ⟨p', s.memory.apply [s.view.leafStore f page frame]⟩
      (t.setLeaf page.indices frame) := by
  have hfFrame := h.ledger.frame (.table (page.pdptIndex, page.pdIndex)) f hf
  have hspells : (t.setLeaf page.indices frame).Spells s.pager.layout.root
      (s.view.apply [s.view.leafStore f page frame]).bitsAt := by
    refine h.spells.link_leaf h.ledger hf page.ptIndex frame ?_
    intro g m hg hm
    exact s.view.bitsAt_apply_leafStore [] hfFrame hg hframe hm
  refine h.carried hmoved hspells (h.closed.setLeaf hf page.ptIndex frame) ?_
    (h.leaf_setLeaf hframe page.indices)
  rw [VirtualAddress.indices, linked_setLeaf, ← hmoved.loose_eq]
  exact h.ledger

theorem link_table (h : s.Realizes t) (hd : t.directory page.pdptIndex = some d)
    (hnone : t.table (page.pdptIndex, page.pdIndex) = none) (hframe : frame.IsFrame)
    (hmoved : s.pager.Moved p' [f] n) :
    Realizes ⟨p', s.memory.apply (s.view.tableStores f page frame ++ [s.view.tableStore d page f])⟩
      ((t.setLeaf page.indices frame).setTable (page.pdptIndex, page.pdIndex) f) := by
  have hloose : s.pager.loose = f :: p'.loose := hmoved.loose
  have hmem : f ∈ s.pager.loose := by
    rw [hloose]
    exact List.mem_cons_self
  have hf := h.ledger.loose_frame f hmem
  have hdFrame := h.ledger.frame (.directory page.pdptIndex) d hd
  have hledger : Ledger ((t.setLeaf page.indices frame).linked s.pager.layout.root)
      s.pager.loose := by
    rw [VirtualAddress.indices, linked_setLeaf]
    exact h.ledger
  -- the table is filled while nothing links it
  have hfilled := (h.spells_of_into (s.view.into_tableStores page frame hmem)).fill_leaf hnone
    page.ptIndex frame
  have hspells : ((t.setLeaf page.indices frame).setTable (page.pdptIndex, page.pdIndex) f).Spells
      s.pager.layout.root (s.view.apply
        (s.view.tableStores f page frame ++ [s.view.tableStore d page f])).bitsAt := by
    refine hfilled.link_table hledger hd hmem page.pdIndex ?_ ?_
    · intro k
      rw [s.view.bitsAt_tableStores page hf hframe k.isLt, entryBits_setLeaf h.closed hnone]
    · intro g m hg hm
      exact s.view.bitsAt_apply_tableStore _ hdFrame hg hf hm
  refine h.carried hmoved hspells ?_ ?_ (h.leaf_setLeaf hframe page.indices)
  · have htable := h.closed.setTable hd page.pdIndex f
    exact htable.setLeaf (table_setTable_self t _ f) page.ptIndex frame
  · rw [hloose] at hledger
    rw [linked_setTable]
    exact hledger.link _

theorem link_directory (h : s.Realizes t) (hnone : t.directory page.pdptIndex = none)
    (hframe : frame.IsFrame) (hmoved : s.pager.Moved p' [d, f] n) :
    Realizes ⟨p', s.memory.apply (s.view.directoryStores d f page frame
        ++ [s.view.directoryStore s.pager.layout.root page d])⟩
      (((t.setLeaf page.indices frame).setTable (page.pdptIndex, page.pdIndex) f).setDirectory
        page.pdptIndex d) := by
  have hloose : s.pager.loose = d :: f :: p'.loose := hmoved.loose
  have hdMem : d ∈ s.pager.loose := by
    rw [hloose]
    exact List.mem_cons_self
  have hfMem : f ∈ s.pager.loose := by
    rw [hloose]
    exact List.mem_cons_of_mem _ List.mem_cons_self
  have hd := h.ledger.loose_frame d hdMem
  have hf := h.ledger.loose_frame f hfMem
  have hroot := h.ledger.frame .root s.pager.layout.root rfl
  have hne : d ≠ f := by
    have hnodup := h.ledger.loose_nodup
    rw [hloose] at hnodup
    rintro rfl
    exact (List.nodup_cons.1 hnodup).1 List.mem_cons_self
  have htable := h.closed.table _ page.pdIndex hnone
  have hledger : Ledger (((t.setLeaf page.indices frame).setTable
      (page.pdptIndex, page.pdIndex) f).linked s.pager.layout.root) (d :: p'.loose) := by
    have hperm := h.ledger.perm (hloose ▸ List.Perm.swap f d p'.loose)
    rw [linked_setTable, VirtualAddress.indices, linked_setLeaf]
    exact hperm.link _
  -- both levels are filled while nothing links the directory
  have hfilled : ((t.setLeaf page.indices frame).setTable
      (page.pdptIndex, page.pdIndex) f).Spells s.pager.layout.root
      (s.view.apply (s.view.directoryStores d f page frame)).bitsAt := by
    have hleaf := (h.spells_of_into (s.view.into_directoryStores page frame hdMem hfMem)).fill_leaf
      htable page.ptIndex frame
    refine hleaf.fill_table hnone page.pdIndex ?_
    intro k
    rw [(s.view.bitsAt_directoryStores page hd hf hne hframe k.isLt).1,
      entryBits_setLeaf h.closed htable]
  have hspells : (((t.setLeaf page.indices frame).setTable (page.pdptIndex, page.pdIndex)
      f).setDirectory page.pdptIndex d).Spells s.pager.layout.root
      (s.view.apply (s.view.directoryStores d f page frame
        ++ [s.view.directoryStore s.pager.layout.root page d])).bitsAt := by
    refine hfilled.link_directory hledger List.mem_cons_self page.pdptIndex ?_ ?_
    · intro j
      rw [(s.view.bitsAt_directoryStores page hd hf hne hframe j.isLt).2]
      exact (entryBits_setTable h.closed hnone page.pdIndex j).symm
    · intro g m hg hm
      exact s.view.bitsAt_apply_directoryStore _ hroot hg hd hm
  refine h.carried hmoved hspells ?_ ?_ (h.leaf_setLeaf hframe page.indices)
  · have hdirectory := h.closed.setDirectory page.pdptIndex d
    have htables := hdirectory.setTable (directory_setDirectory_self t _ d) page.pdIndex f
    exact htables.setLeaf (table_setTable_self _ _ f) page.ptIndex frame
  · rw [linked_setDirectory]
    exact hledger.link _

/-- Mapping a page grows the tree by just that page, or fails and leaves it alone. -/
theorem install (h : s.Realizes t) {r : Except FaultError Resolution} (hframe : frame.IsFrame)
    (hinstall : Draft.Install s.view s.pager page frame r p' stores) :
    ∃ t' taken n, Realizes ⟨p', s.memory.apply stores⟩ t' ∧ t.Grows page taken t' r
      ∧ s.pager.Moved p' taken n := by
  cases hinstall with
  | directory _ d f absent moved =>
    have hnone := h.directory_eq_none absent
    exact ⟨_, _, _, h.link_directory hnone hframe moved, .directory d f frame hnone, moved⟩
  | table _ f above absent moved =>
    obtain ⟨d, hd⟩ := h.exists_directory above
    have hnone := h.table_eq_none hd absent
    rw [h.top_directory hd]
    exact ⟨_, _, _, h.link_table hd hnone hframe moved, .table d f frame hd hnone, moved⟩
  | leaf _ above present absent moved =>
    obtain ⟨d, hd⟩ := h.exists_directory above
    obtain ⟨f, hf⟩ := h.exists_table hd present
    rw [h.bottom_present hd hf] at absent
    have hfree := Option.isNone_iff_eq_none.1 (Option.isSome_eq_false_iff.1 absent)
    rw [h.middle_frame hd hf]
    exact ⟨_, _, _, h.link_leaf hf hframe moved, .leaf f frame hf hfree, moved⟩
  | already _ above middle present moved =>
    obtain ⟨d, hd⟩ := h.exists_directory above
    obtain ⟨f, hf⟩ := h.exists_table hd middle
    rw [h.bottom_present hd hf] at present
    exact ⟨t, _, _, h.stayed moved (List.forall_mem_nil _),
      .already (Option.isSome_iff_ne_none.1 present), moved⟩
  | noDirectory _ _ absent short steady into moved =>
    exact ⟨t, _, _, h.stayed moved into, .failed _, moved⟩
  | noTable _ above absent short steady moved =>
    exact ⟨t, _, _, h.stayed moved (List.forall_mem_nil _), .failed _, moved⟩

end Install

end Realizes

/-! ### One fault -/

theorem handleFault_eq [Backing β] (fault : PageFault) {p' : Pager β} {stores : List Memory.Store}
    {r : Except Panic (Except FaultError Resolution)}
    (h : Draft.resolve s.memory fault { pager := s.pager } = (r, ⟨p', stores⟩)) :
    handleFault fault s = (r, ⟨p', s.memory.apply stores⟩) := by
  rw [handleFault, carryOut, h]

/-- Asking the backing for a frame changes nothing about the tables. -/
theorem Realizes.asked [Backing β] (h : s.Realizes t) {page : VirtualAddress}
    {o : Option PhysicalAddress} {q : Pager β} (hasked : s.pager.Asked page o q) :
    Realizes ⟨q, s.memory⟩ t ∧ (Paging.mk q s.memory).view = s.view := by
  refine ⟨h.unchanged q.backing hasked.moved, ?_⟩
  rw [view, hasked.moved.window]
  rfl

theorem Realizes.resolve [Backing β] (h : s.Realizes t) {fault : PageFault}
    {r : Except FaultError Resolution} {p' : Pager β} {stores : List Memory.Store}
    (hresolve : Draft.Resolve s.view s.pager fault r p' stores) :
    ∃ t' taken n, Realizes ⟨p', s.memory.apply stores⟩ t'
      ∧ t.Grows fault.address.pageBase taken t' r
      ∧ { s.pager with backing := p'.backing }.Moved p' taken n := by
  cases hresolve with
  | violation _ code moved =>
    have hmoved : { s.pager with backing := p'.backing }.Moved p' [] 0 := by
      rw [moved.backing]
      exact moved
    exact ⟨t, _, _, h.unchanged p'.backing hmoved, .failed _, hmoved⟩
  | unbacked _ code asked =>
    exact ⟨t, _, _, h.unchanged p'.backing asked.moved, .failed _, asked.moved⟩
  | backed q _ frame _ _ code isFrame asked install =>
    obtain ⟨hq, hview⟩ := h.asked asked
    obtain ⟨t', taken, n, hrealizes, hgrows, hmoved⟩ := hq.install isFrame (hview ▸ install)
    have hall := asked.moved.trans hmoved
    rw [← hmoved.backing] at hall
    exact ⟨t', _, _, hrealizes, hgrows, hall⟩

/-- A draft that the frame source cut short leaves the tree alone. -/
theorem Realizes.stopped (h : s.Realizes t) {page : VirtualAddress} {b : β} {p' : Pager β}
    {stores : List Memory.Store} (hstopped : Draft.Stopped s.view page
      { pager := { s.pager with backing := b } } ⟨p', stores⟩) :
    (∀ x ∈ stores, s.view.Into s.pager.loose x) ∧ Realizes ⟨p', s.memory.apply stores⟩ t := by
  obtain ⟨added, hadded, hinto⟩ := hstopped.into
  obtain ⟨taken, hmoved⟩ := hstopped.moved
  rw [List.nil_append] at hadded
  obtain rfl : stores = added := hadded
  exact ⟨hinto, (h.of_backing b).stayed hmoved hinto⟩

/-- What a fault comes to; a fault that the overflow of the frame source cut short has made stores
into frames that no table uses. -/
theorem Realizes.handleFault_outcome [Backing β] {Good : β → Prop} (hb : Backing.Honors Good)
    (h : s.Realizes t) (hgood : Good s.pager.backing) (fault : PageFault) :
    (∃ s', handleFault fault s = (.error .addOverflow, s') ∧ ¬ s.pager.frames.Steady
      ∧ (∀ x ∈ s.faultStores fault, s.view.Into s.pager.loose x)
      ∧ s'.Realizes t ∧ Good s'.pager.backing)
    ∨ ∃ r p', handleFault fault s = (.ok r, ⟨p', s.memory.apply (s.faultStores fault)⟩)
      ∧ Draft.Resolve s.view s.pager fault r p' (s.faultStores fault) ∧ Good p'.backing := by
  rcases Draft.resolve_cases hb h.fit hgood s.memory fault with
    ⟨⟨p', stores⟩, hrun, hstopped, hgood'⟩ | ⟨r, p', stores, hrun, hresolve, hgood'⟩
  · obtain ⟨hinto, hrealizes⟩ := h.stopped hstopped
    refine .inl ⟨_, handleFault_eq fault hrun, hstopped.unsteady, ?_, hrealizes, hgood'⟩
    rw [faultStores, hrun]
    exact hinto
  · have hstores : s.faultStores fault = stores := by rw [faultStores, hrun]
    rw [hstores]
    exact .inr ⟨r, p', handleFault_eq fault hrun, hresolve, hgood'⟩

/-- A fault is answered unless the source of frames overflows, and the tree grows as the answer
says. -/
theorem handleFault_cases [Backing β] {Good : β → Prop} (hb : Backing.Honors Good)
    (h : s.Realizes t) (hgood : Good s.pager.backing) (fault : PageFault) :
    (¬ s.pager.frames.Steady ∧ ∃ e, (handleFault fault s).1 = .error e)
    ∨ ∃ r s' t', handleFault fault s = (.ok r, s') ∧ s'.Realizes t'
      ∧ t.Answers fault.address.pageBase t' r ∧ Good s'.pager.backing
      ∧ (s.pager.frames.Steady → s'.pager.frames.Steady) := by
  rcases h.handleFault_outcome hb hgood fault with
    ⟨s', hrun, hunsteady, -⟩ | ⟨r, p', hrun, hresolve, hgood'⟩
  · refine .inl ⟨hunsteady, .addOverflow, ?_⟩
    rw [hrun]
  · obtain ⟨t', _, _, hrealizes, hgrows, -⟩ := h.resolve hresolve
    exact .inr ⟨r, _, t', hrun, hrealizes, hgrows.answers h.closed, hgood', hresolve.steady.2⟩

end Paging

end PaeKernel
