import PaeKernel.Proofs.Paging.Hierarchy

/-!
# The first tables

`initTables` empties five frames, fills the first table with the identity and links it. Three of
the frames make up the tree; the two spare ones may lie anywhere, since nothing but zeros is written
to them before the tree is filled.
-/

namespace PaeKernel

/-- A pager that may build its first tables: the frames of the tree and those for later tables are
apart from each other, and entries can name them. -/
structure Pager.Ready {β : Type} (p : Pager β) : Prop where
  stop : p.frames.stop < wordLimit
  root : p.layout.root.IsFrame
  directory : p.layout.directory.IsFrame
  table : p.layout.table.IsFrame
  loose : ∀ f ∈ p.loose, f.IsFrame
  nodup : (p.layout.root :: p.layout.directory :: p.layout.table :: p.loose).Nodup

namespace PhysicalView

variable {v : PhysicalView} {f g : PhysicalAddress} {n count place : Nat}

/-- The stores that empty the frames of a layout. -/
def clearStores (v : PhysicalView) (l : TableLayout) : List Memory.Store :=
  Table.zeroStores (v.place l.root) ++ Table.zeroStores (v.place l.directory)
    ++ Table.zeroStores (v.place l.table) ++ Table.zeroStores (v.place l.spare1)
    ++ Table.zeroStores (v.place l.spare2)

/-- The stores that map the first pages to themselves. -/
def identityStores (v : PhysicalView) (table : PhysicalAddress) (count : Nat) :
    List Memory.Store :=
  (List.range count).map fun i =>
    ⟨Table.entryAddress (v.place table) i, (Draft.identityEntry i).bits⟩

/-- The store that links the first table. -/
def firstTableStore (v : PhysicalView) (l : TableLayout) : Memory.Store :=
  ⟨Table.entryAddress (v.place l.directory) 0, entryBits kernelSwitches (some l.table)⟩

/-- The store that links the first directory. -/
def firstDirectoryStore (v : PhysicalView) (l : TableLayout) : Memory.Store :=
  ⟨Table.entryAddress (v.place l.root) 0, entryBits rootSwitches (some l.directory)⟩

/-- All stores that build the first tables. -/
def firstStores (v : PhysicalView) (l : TableLayout) : List Memory.Store :=
  v.clearStores l ++ v.identityStores l.table (min l.identityPages tableEntries)
    ++ [v.firstTableStore l] ++ [v.firstDirectoryStore l]

/-- What is zero stays zero when frames, aligned or not, are emptied. -/
theorem bitsAt_zero_of_zero {before : List Memory.Store} (h : (v.apply before).bitsAt f n = 0)
    (place : Nat) : (v.apply (before ++ Table.zeroStores place)).bitsAt f n = 0 := by
  rw [apply_append, bitsAt, memory_apply, place_apply, Table.read_apply_zeroStores]
  split
  · rfl
  · exact h

theorem bitsAt_clearStores (v : PhysicalView) (l : TableLayout) (hg : g.IsFrame) (hn : n < 512)
    (hroot : l.root.IsFrame) (hdirectory : l.directory.IsFrame) (htable : l.table.IsFrame)
    (hmem : g ∈ [l.root, l.directory, l.table]) : (v.apply (v.clearStores l)).bitsAt g n = 0 := by
  refine bitsAt_zero_of_zero (bitsAt_zero_of_zero ?_ _) _
  rw [bitsAt_apply_append_zero v _ htable hg hn, bitsAt_apply_append_zero v _ hdirectory hg hn,
    bitsAt_apply_zero v hroot hg hn]
  simp only [List.mem_cons, List.not_mem_nil, or_false] at hmem
  rcases hmem with rfl | rfl | rfl <;> simp

theorem bitsAt_identityStores (v : PhysicalView) (before : List Memory.Store) (hf : f.IsFrame)
    (hg : g.IsFrame) (hcount : count ≤ 512) (hn : n < 512) :
    (v.apply (before ++ v.identityStores f count)).bitsAt g n
      = if f = g ∧ n < count then n * 4096 + 3 else (v.apply before).bitsAt g n := by
  induction count with
  | zero => rw [if_neg (by omega), identityStores, List.range_zero, List.map_nil, List.append_nil]
  | succ k ih =>
    have hsplit : v.identityStores f (k + 1) = v.identityStores f k
        ++ [⟨Table.entryAddress (v.place f) k, k * 4096 + 3⟩] := by
      rw [identityStores, List.range_succ, List.map_append]
      rfl
    rw [hsplit, ← List.append_assoc, v.bitsAt_apply_append_entry _ hf hg (show k < 512 by omega) hn
      (show k * 4096 + 3 < wordLimit by simp only [wordLimit]; omega)]
    rw [ih (by omega)]
    by_cases hfg : f = g
    · by_cases hkn : k = n
      · rw [if_pos ⟨hfg, hkn⟩, if_pos ⟨hfg, by omega⟩, hkn]
      · rw [if_neg fun hand => hkn hand.2]
        by_cases hlt : n < k
        · rw [if_pos ⟨hfg, hlt⟩, if_pos ⟨hfg, by omega⟩]
        · rw [if_neg fun hand => hlt hand.2, if_neg fun hand => hlt (by omega)]
    · rw [if_neg fun hand => hfg hand.1, if_neg fun hand => hfg hand.1,
        if_neg fun hand => hfg hand.1]

/-- What the frames of the first tree hold in the end. -/
theorem bitsAt_firstStores (v : PhysicalView) {l : TableLayout} (hroot : l.root.IsFrame)
    (hdirectory : l.directory.IsFrame) (htable : l.table.IsFrame)
    (hmem : g ∈ [l.root, l.directory, l.table]) (hn : n < 512) :
    (v.apply (v.firstStores l)).bitsAt g n
      = if l.root = g ∧ 0 = n then entryBits rootSwitches (some l.directory)
        else if l.directory = g ∧ 0 = n then entryBits kernelSwitches (some l.table)
        else if l.table = g ∧ n < min l.identityPages tableEntries then n * 4096 + 3 else 0 := by
  have hg : g.IsFrame := by
    simp only [List.mem_cons, List.not_mem_nil, or_false] at hmem
    rcases hmem with rfl | rfl | rfl
    · exact hroot
    · exact hdirectory
    · exact htable
  have hdirectoryBits : entryBits rootSwitches (some l.directory) < wordLimit := entryBits_lt
    (fun f h => Option.some.inj h ▸ hdirectory) (by decide)
  have htableBits : entryBits kernelSwitches (some l.table) < wordLimit := entryBits_lt
    (fun f h => Option.some.inj h ▸ htable) (by decide)
  have hfilled := v.bitsAt_identityStores (v.clearStores l) htable hg
    (Nat.min_le_right l.identityPages tableEntries) hn
  rw [bitsAt_clearStores v l hg hn hroot hdirectory htable hmem] at hfilled
  have htop := v.bitsAt_apply_append_entry (v.clearStores l
    ++ v.identityStores l.table (min l.identityPages tableEntries) ++ [v.firstTableStore l]) hroot hg
    (show 0 < 512 by omega) hn hdirectoryBits
  have hmiddle := v.bitsAt_apply_append_entry (v.clearStores l
    ++ v.identityStores l.table (min l.identityPages tableEntries)) hdirectory hg
    (show 0 < 512 by omega) hn htableBits
  rw [← hfilled, ← hmiddle]
  exact htop

end PhysicalView

theorem Draft.buildTables_eq {β : Type} (p : Pager β) (hdirectory : p.layout.directory.IsFrame)
    (htable : p.layout.table.IsFrame) (m : Memory) : ∃ log, buildTables { pager := p }
      = (.ok (), ⟨{ p with log }, (PhysicalView.mk p.window m).firstStores p.layout⟩) := by
  refine ⟨p.log ++ [⟨.debug, target, s!"paging: identity mapped {min p.layout.identityPages
    tableEntries} pages, PDPT at {p.layout.root.display}"⟩], ?_⟩
  rw [buildTables, Exec.bind_of_ok (Exec.view_apply _ _), Exec.bind_of_ok (place_apply _ _),
    Exec.bind_of_ok (place_apply _ _), Exec.bind_of_ok (place_apply _ _),
    Exec.bind_of_ok (emit_apply _ _), Exec.bind_of_ok (emit_apply _ _),
    Exec.bind_of_ok (emit_apply _ _), Exec.bind_of_ok (place_apply _ _),
    Exec.bind_of_ok (emit_apply _ _), Exec.bind_of_ok (place_apply _ _),
    Exec.bind_of_ok (emit_apply _ _), Exec.bind_of_ok (emit_apply _ _),
    kernelWritable_eq htable, Exec.bind_of_ok (Exec.check_apply _ _),
    Exec.bind_of_ok (emit_apply _ _), ofDirectory_eq hdirectory,
    Exec.bind_of_ok (Exec.check_apply _ _), Exec.bind_of_ok (emit_apply _ _), record_apply]
  simp only [PhysicalView.firstStores, PhysicalView.clearStores, PhysicalView.identityStores,
    PhysicalView.firstTableStore, PhysicalView.firstDirectoryStore, PhysicalView.place,
    Table.entryStore, Table.rootStore, Fin.val_zero, List.nil_append]

/-! ### The first tree -/

namespace TableTree

variable {l : TableLayout} {loose : List PhysicalAddress}

/-- The tree without any entry. -/
def empty : TableTree := ⟨fun _ => none, fun _ => none, fun _ => none⟩

/-- The tree of the first tables. -/
def first (l : TableLayout) : TableTree where
  directory i := if i.val = 0 then some l.directory else none
  table ij := if ij.1.val = 0 ∧ ij.2.val = 0 then some l.table else none
  leaf ijk :=
    if ijk.1.val = 0 ∧ ijk.2.1.val = 0 ∧ ijk.2.2.val < min l.identityPages tableEntries then
      some (.ofNat (ijk.2.2.val * 4096))
    else none

theorem pages_first (l : TableLayout) : (first l).pages = PageMap.identity l.identityPages := by
  funext a
  have ha := a.indices_spell
  have hle : min l.identityPages tableEntries ≤ 512 := Nat.min_le_right _ _
  have hiff : (a.indices.1.val = 0 ∧ a.indices.2.1.val = 0
      ∧ a.indices.2.2.val < min l.identityPages tableEntries)
      ↔ a.toNat / 4096 < min l.identityPages tableEntries := by
    generalize min l.identityPages tableEntries = count at *
    simp only [VirtualAddress.indices, VirtualAddress.pdptIndex, VirtualAddress.pdIndex,
      VirtualAddress.ptIndex]
    omega
  simp only [pages, first, PageMap.identity]
  by_cases h : a.toNat / 4096 < min l.identityPages tableEntries
  · rw [if_pos h, if_pos (hiff.2 h)]
    refine congrArg some (PhysicalAddress.ext ?_)
    generalize min l.identityPages tableEntries = count at *
    simp only [VirtualAddress.indices, VirtualAddress.identity, VirtualAddress.pageBase,
      VirtualAddress.ptIndex, PhysicalAddress.toNat_ofNat, wordLimit]
    omega
  · rw [if_neg h, if_neg (mt hiff.1 h)]

theorem closed_first (l : TableLayout) : (first l).Closed where
  table i j hnone := by
    have hi : i.val ≠ 0 := by
      intro hi
      exact Option.some_ne_none _ ((if_pos hi).symm.trans hnone)
    exact if_neg fun h => hi h.1
  leaf i j k hnone := by
    have hij : ¬ (i.val = 0 ∧ j.val = 0) := by
      intro hij
      exact Option.some_ne_none _ ((if_pos hij).symm.trans hnone)
    exact if_neg fun h => hij ⟨h.1, h.2.1⟩

theorem isFrame_first {ijk : Fin 4 × Fin 512 × Fin 512} {f : PhysicalAddress}
    (h : (first l).leaf ijk = some f) : f.IsFrame := by
  have hlt := ijk.2.2.isLt
  simp only [first] at h
  split at h
  · cases h
    refine ⟨beq_iff_eq.2 ?_, ?_⟩
    · simp only [PhysicalAddress.toNat_ofNat, wordLimit, pageSize]
      omega
    · simp only [PhysicalAddress.toNat_ofNat, wordLimit, frameLimit]
      omega
  · cases h

theorem linked_first (l : TableLayout) : (first l).linked l.root
    = Function.update (Function.update (empty.linked l.root) (.directory 0) (some l.directory))
      (.table (0, 0)) (some l.table) := by
  funext σ
  cases σ with
  | root => rfl
  | directory i => simp [linked, first, empty, Function.update_apply]
  | table ij => simp [linked, first, empty, Function.update_apply, Prod.ext_iff]

theorem ledger_first (hroot : l.root.IsFrame) (hdirectory : l.directory.IsFrame)
    (htable : l.table.IsFrame) (hloose : ∀ f ∈ loose, f.IsFrame)
    (hnodup : (l.root :: l.directory :: l.table :: loose).Nodup) :
    Ledger ((first l).linked l.root) loose := by
  obtain ⟨hfresh, hrest⟩ := List.nodup_cons.1 hnodup
  have honly : ∀ σ f, empty.linked l.root σ = some f → σ = .root ∧ f = l.root := by
    intro σ f hf
    cases σ with
    | root => exact ⟨rfl, (Option.some.inj hf).symm⟩
    | directory i => cases hf
    | table ij => cases hf
  have hbase : Ledger (empty.linked l.root) (l.directory :: l.table :: loose) := by
    refine ⟨fun σ f hf => (honly σ f hf).2 ▸ hroot, fun σ τ f hf hg => ?_, fun f hf => ?_, hrest,
      fun σ f hf => (honly σ f hf).2 ▸ hfresh⟩
    · rw [(honly σ f hf).1, (honly τ f hg).1]
    · rcases List.mem_cons.1 hf with rfl | hf
      · exact hdirectory
      · rcases List.mem_cons.1 hf with rfl | hf
        · exact htable
        · exact hloose f hf
  rw [linked_first]
  exact (hbase.link (.directory 0)).link (.table (0, 0))

theorem spells_first (v : PhysicalView) (hroot : l.root.IsFrame) (hdirectory : l.directory.IsFrame)
    (htable : l.table.IsFrame) (hnodup : [l.root, l.directory, l.table].Nodup) :
    (first l).Spells l.root (v.apply (v.firstStores l)).bitsAt := by
  simp only [List.nodup_cons, List.mem_cons, List.not_mem_nil, or_false, not_or] at hnodup
  obtain ⟨⟨hne₁, hne₂⟩, hne₃, -⟩ := hnodup
  have hbits := fun {g : PhysicalAddress} {n : Nat} =>
    v.bitsAt_firstStores (g := g) (n := n) hroot hdirectory htable
  refine ⟨?_, ?_, ?_⟩
  · intro i
    simp only [first]
    rw [hbits (by simp) (by omega)]
    by_cases hi : i.val = 0
    · rw [if_pos ⟨rfl, hi.symm⟩, if_pos hi]
    · rw [if_neg fun h => hi h.2.symm, if_neg fun h => hne₁ h.1.symm,
        if_neg fun h => hne₂ h.1.symm, if_neg hi]
      rfl
  · intro i d hd j
    simp only [first] at hd ⊢
    split at hd
    · rename_i hi
      obtain rfl := Option.some.inj hd
      rw [hbits (by simp) j.isLt, if_neg fun h => hne₁ h.1]
      by_cases hj : j.val = 0
      · rw [if_pos ⟨rfl, hj.symm⟩, if_pos ⟨hi, hj⟩]
      · rw [if_neg fun h => hj h.2.symm, if_neg fun h => hne₃ h.1.symm, if_neg fun h => hj h.2]
        rfl
    · cases hd
  · intro i j f hf k
    simp only [first] at hf ⊢
    split at hf
    · rename_i hij
      obtain rfl := Option.some.inj hf
      rw [hbits (by simp) k.isLt, if_neg fun h => hne₂ h.1, if_neg fun h => hne₃ h.1]
      by_cases hk : k.val < min l.identityPages tableEntries
      · have hlt : k.val * 4096 < wordLimit := by
          simp only [wordLimit]
          omega
        rw [if_pos ⟨rfl, hk⟩, if_pos ⟨hij.1, hij.2, hk⟩, entryBits, PhysicalAddress.toNat_ofNat,
          Nat.mod_eq_of_lt hlt]
        rfl
      · rw [if_neg fun h => hk h.2, if_neg fun h => hk h.2.2]
        rfl
    · cases hf

end TableTree

/-- The first tables spell the first tree, whatever memory held before. -/
theorem Paging.initTables_realizes {β : Type} {p : Pager β} (h : p.Ready) (m : Memory) :
    ∃ s, initTables ⟨p, m⟩ = (.ok (), s) ∧ s.Realizes (TableTree.first p.layout)
      ∧ s.pager.backing = p.backing ∧ s.pager.frames = p.frames := by
  obtain ⟨log, hrun⟩ := Draft.buildTables_eq p h.directory h.table m
  have hnodup : [p.layout.root, p.layout.directory, p.layout.table].Nodup :=
    h.nodup.sublist (List.sublist_append_left [_, _, _] p.loose)
  have hspells := TableTree.spells_first ⟨p.window, m⟩ h.root h.directory h.table hnodup
  generalize (PhysicalView.mk p.window m).firstStores p.layout = stores at hrun hspells
  refine ⟨⟨{ p with log }, m.apply stores⟩, ?_, ⟨hspells, TableTree.closed_first _, ?_, ?_, h.stop⟩,
    rfl, rfl⟩
  · rw [initTables, carryOut, hrun]
  · exact TableTree.ledger_first h.root h.directory h.table h.loose h.nodup
  · exact fun _ _ => TableTree.isFrame_first

/-- Building the first tables changes nothing about the pager but its log. -/
theorem Paging.initTables_pager {β : Type} {p : Pager β} (h : p.Ready) {m : Memory} {s : Paging β}
    (hinit : initTables ⟨p, m⟩ = (.ok (), s)) : ∃ log, s.pager = { p with log } := by
  obtain ⟨log, hrun⟩ := Draft.buildTables_eq p h.directory h.table m
  rw [initTables, carryOut, hrun] at hinit
  exact ⟨log, congrArg pager (Prod.mk.inj hinit).2.symm⟩

end PaeKernel
