import PaeKernel.Paging.Pager
import PaeKernel.Proofs.Paging.Contents

/-!
# What drafts come to

A draft runs through several small computations; here each of them gets one lemma that says all it
can do, and `Draft.install_cases` and `Draft.resolve_cases` put them together. `Pager.loose` are the
frames that the next tables will be made of, in order, and `Pager.Moved` says which of them a draft
has used and how many pages it has mapped.

A page that lacks more tables than there are frames for (`PhysicalView.missing`) is not mapped. The
answer says so if the source can be asked for one frame more (`FrameSource.Steady`). Else the source
overflows, there is no answer, and `Draft.Stopped` says what was drafted up to there.
-/

namespace PaeKernel

namespace FrameSource

/-- The source can be asked for one frame more. -/
def Steady (s : FrameSource) : Prop := s.next + pageSize < wordLimit

/-- An exhausted source overflows if the next page would be the last of all. -/
theorem alloc_of_not_steady {s : FrameSource} (hp : s.pending = []) (hs : ¬ s.Steady) :
    alloc s = (.error .addOverflow, s) := by
  obtain ⟨reserved, next, stop⟩ := s
  obtain rfl : reserved = [] := (List.append_eq_nil_iff.1 hp).1
  have hover : addWord next pageSize = .error .addOverflow := if_neg hs
  rw [alloc, Exec.bind_of_ok (Exec.view_apply _ _)]
  dsimp only
  rw [Exec.bind_of_ok (Exec.view_apply _ _)]
  exact Exec.bind_of_error (by rw [Exec.check_apply, hover])

theorem alloc_cases {s : FrameSource} (hstop : s.stop < wordLimit)
    (hframe : ∀ f ∈ s.pending, f.IsFrame) :
    (∃ f s', alloc s = (.ok (some f), s') ∧ s.pending = f :: s'.pending ∧ s'.stop = s.stop
      ∧ (s'.Steady ↔ s.Steady))
    ∨ s.pending = [] ∧ s.Steady ∧ alloc s = (.ok none, s)
    ∨ s.pending = [] ∧ ¬ s.Steady ∧ alloc s = (.error .addOverflow, s) := by
  cases hp : s.pending with
  | nil =>
    by_cases hs : s.Steady
    · exact .inr (.inl ⟨rfl, hs, alloc_of_pending_nil hp hs⟩)
    · exact .inr (.inr ⟨rfl, hs, alloc_of_not_steady hp hs⟩)
  | cons f rest =>
    have hf := hframe f (hp ▸ List.mem_cons_self)
    obtain ⟨s', hrun, hrest, hstop', hnext⟩ := alloc_of_pending_cons hp hf.1 hstop
    refine .inl ⟨f, s', hrun, by rw [hrest], hstop', ?_⟩
    rcases hnext with hnext | ⟨rfl, hnext, hle⟩
    · rw [Steady, hnext, Steady]
    · -- the page at the start of the range was a frame, so the next one is far from the end
      have hlow := hf.2
      rw [PhysicalAddress.toNat_ofNat, Nat.mod_eq_of_lt (by omega)] at hlow
      simp only [Steady, hnext, pageSize, frameLimit, wordLimit] at *
      omega

end FrameSource

namespace Pager

variable {β : Type} {p p' p'' : Pager β} {taken more : List PhysicalAddress} {n k : Nat}

/-- The frames kept for new tables, in the order in which they are used. -/
def loose (p : Pager β) : List PhysicalAddress := p.spare.toList ++ p.frames.pending

/-- The pager can make entries for all frames it will use. -/
structure Fit (p : Pager β) : Prop where
  stop : p.frames.stop < wordLimit
  frame : ∀ f ∈ p.loose, f.IsFrame

/-- The pager after frames were used for tables and pages were mapped. -/
structure Moved (p p' : Pager β) (taken : List PhysicalAddress) (pages : Nat) : Prop where
  layout : p'.layout = p.layout
  window : p'.window = p.window
  backing : p'.backing = p.backing
  installed : p'.installed = p.installed + pages
  loose : p.loose = taken ++ p'.loose
  stop : p'.frames.stop = p.frames.stop
  steady : p'.frames.Steady ↔ p.frames.Steady

theorem Moved.refl (p : Pager β) : p.Moved p [] 0 :=
  ⟨rfl, rfl, rfl, rfl, rfl, rfl, .rfl⟩

theorem Moved.loose_eq (h : p.Moved p' [] n) : p.loose = p'.loose := h.loose

theorem Moved.logged (h : p.Moved p' taken n) (log : List Record) :
    p.Moved { p' with log } taken n :=
  ⟨h.layout, h.window, h.backing, h.installed, h.loose, h.stop, h.steady⟩

theorem Moved.trans (h : p.Moved p' taken n) (h' : p'.Moved p'' more k) :
    p.Moved p'' (taken ++ more) (n + k) where
  layout := h'.layout.trans h.layout
  window := h'.window.trans h.window
  backing := h'.backing.trans h.backing
  installed := by rw [h'.installed, h.installed, Nat.add_assoc]
  loose := by rw [h.loose, h'.loose, List.append_assoc]
  stop := h'.stop.trans h.stop
  steady := h'.steady.trans h.steady

theorem Moved.fit (h : p.Moved p' taken n) (hfit : p.Fit) : p'.Fit where
  stop := h.stop ▸ hfit.stop
  frame f hf := hfit.frame f (h.loose ▸ List.mem_append_right _ hf)

end Pager

namespace Draft

variable {β : Type} {m : Memory} {d : Draft β} {page : VirtualAddress}
  {frame directory table f : PhysicalAddress} {leaf : PageEntry}

/-! ### Frames for new tables -/

theorem record_apply (level : Level) (message : String) (d : Draft β) :
    record level message d
      = (.ok (), { d with pager := { d.pager with log := d.pager.log ++ [⟨level, target, message⟩] } }) :=
  rfl

theorem place_apply (f : PhysicalAddress) (d : Draft β) :
    place f d = (.ok (d.pager.window + f.toNat), d) := rfl

theorem emit_apply (stores : List Memory.Store) (d : Draft β) :
    emit stores d = (.ok (), { d with stores := d.stores ++ stores }) := rfl

theorem require_aligned (hf : f.IsFrame) (e : Panic) (d : Draft β) :
    Exec.require (f.isPageAligned = true) e d = (.ok (), d) := by
  rw [Exec.require_apply, if_pos hf.1]

theorem takeFrame_cases (hfit : d.pager.Fit) :
    (∃ f p', takeFrame d = (.ok (some f), { d with pager := p' }) ∧ d.pager.Moved p' [f] 0
      ∧ p'.spare = none)
    ∨ d.pager.loose = [] ∧ d.pager.frames.Steady ∧ takeFrame d = (.ok none, d)
    ∨ d.pager.loose = [] ∧ ¬ d.pager.frames.Steady ∧ takeFrame d = (.error .addOverflow, d) := by
  have hpending : ∀ f ∈ d.pager.frames.pending, f.IsFrame := fun f hf =>
    hfit.frame f (List.mem_append_right _ hf)
  rw [takeFrame, Exec.bind_of_ok (Exec.view_apply _ d)]
  cases hspare : d.pager.spare with
  | some f =>
    refine .inl ⟨f, { d.pager with spare := none }, rfl, ⟨rfl, rfl, rfl, rfl, ?_, rfl, .rfl⟩, rfl⟩
    rw [Pager.loose, hspare]
    rfl
  | none =>
    have hloose : d.pager.loose = d.pager.frames.pending := by
      rw [Pager.loose, hspare]
      rfl
    dsimp only
    rw [nextFrame, Exec.zoom, hloose]
    rcases FrameSource.alloc_cases hfit.stop hpending with
      ⟨f, frames, hrun, hcons, hstop, hsteady⟩ | ⟨hnil, hs, hrun⟩ | ⟨hnil, hs, hrun⟩
    · rw [hrun]
      refine .inl ⟨f, { d.pager with frames }, rfl, ⟨rfl, rfl, rfl, rfl, ?_, hstop, hsteady⟩, hspare⟩
      rw [hloose, hcons, Pager.loose, hspare]
      rfl
    · rw [hrun]
      exact .inr (.inl ⟨hnil, hs, rfl⟩)
    · rw [hrun]
      exact .inr (.inr ⟨hnil, hs, rfl⟩)

theorem newTable_cases (hfit : d.pager.Fit) (page : VirtualAddress) :
    (∃ f p', newTable page d
        = (.ok (some f), ⟨p', d.stores ++ Table.zeroStores (d.pager.window + f.toNat)⟩)
      ∧ d.pager.Moved p' [f] 0 ∧ p'.spare = none)
    ∨ d.pager.loose = [] ∧ d.pager.frames.Steady ∧ newTable page d = (.ok none, d)
    ∨ d.pager.loose = [] ∧ ¬ d.pager.frames.Steady
      ∧ newTable page d = (.error .addOverflow, d) := by
  rw [newTable]
  rcases takeFrame_cases hfit with
    ⟨f, p', hrun, hmoved, hspare⟩ | ⟨hnil, hs, hrun⟩ | ⟨hnil, hs, hrun⟩
  · have hf : f.IsFrame := hfit.frame f (hmoved.loose ▸ List.mem_cons_self)
    rw [Exec.bind_of_ok hrun]
    dsimp only
    rw [Exec.bind_of_ok (require_aligned hf _ _), Exec.bind_of_ok (place_apply _ _),
      Exec.bind_of_ok (emit_apply _ _), Exec.bind_of_ok (record_apply _ _ _)]
    refine .inl ⟨f, { p' with log := p'.log ++ [⟨.debug, target,
      s!"paging: new table at {f.display} for {page.display}"⟩] }, ?_, hmoved.logged _, hspare⟩
    rw [← hmoved.window]
    rfl
  · rw [Exec.bind_of_ok hrun]
    exact .inr (.inl ⟨hnil, hs, rfl⟩)
  · rw [Exec.bind_of_error hrun]
    exact .inr (.inr ⟨hnil, hs, rfl⟩)

end Draft

/-! ### Entries on the way to a page -/

namespace PhysicalView

/-- The root entry that leads to a page. -/
def top (v : PhysicalView) (root : PhysicalAddress) (page : VirtualAddress) : RootEntry :=
  Table.rootEntry v.memory (v.place root) page.pdptIndex

/-- The directory entry that leads to a page. -/
def middle (v : PhysicalView) (root : PhysicalAddress) (page : VirtualAddress) : PageEntry :=
  Table.entry v.memory (v.place (v.top root page).directory) page.pdIndex

/-- The table entry that leads to a page. -/
def bottom (v : PhysicalView) (root : PhysicalAddress) (page : VirtualAddress) : PageEntry :=
  Table.entry v.memory (v.place (v.middle root page).frame) page.ptIndex

/-- How many tables are missing on the way to a page. -/
def missing (v : PhysicalView) (root : PhysicalAddress) (page : VirtualAddress) : Nat :=
  if (v.top root page).present then if (v.middle root page).present then 0 else 1 else 2

section Missing

variable {v : PhysicalView} {root : PhysicalAddress} {page : VirtualAddress}

theorem missing_of_top (h : (v.top root page).present = false) : v.missing root page = 2 := by
  rw [missing, if_neg (h ▸ Bool.false_ne_true)]

theorem missing_of_middle (habove : (v.top root page).present = true)
    (h : (v.middle root page).present = false) : v.missing root page = 1 := by
  rw [missing, if_pos habove, if_neg (h ▸ Bool.false_ne_true)]

theorem missing_of_present (habove : (v.top root page).present = true)
    (h : (v.middle root page).present = true) : v.missing root page = 0 := by
  rw [missing, if_pos habove, if_pos h]

end Missing

/-- The store that puts a page into a table. -/
def leafStore (v : PhysicalView) (table : PhysicalAddress) (page : VirtualAddress)
    (frame : PhysicalAddress) : Memory.Store :=
  Table.entryStore (v.place table) page.ptIndex ⟨entryBits kernelSwitches (some frame)⟩

/-- The store that puts a table into a directory. -/
def tableStore (v : PhysicalView) (directory : PhysicalAddress) (page : VirtualAddress)
    (table : PhysicalAddress) : Memory.Store :=
  Table.entryStore (v.place directory) page.pdIndex ⟨entryBits kernelSwitches (some table)⟩

/-- The store that puts a directory into the root table. -/
def directoryStore (v : PhysicalView) (root : PhysicalAddress) (page : VirtualAddress)
    (directory : PhysicalAddress) : Memory.Store :=
  Table.rootStore (v.place root) page.pdptIndex ⟨entryBits rootSwitches (some directory)⟩

/-- The stores that make a table with one page in it. -/
def tableStores (v : PhysicalView) (f : PhysicalAddress) (page : VirtualAddress)
    (frame : PhysicalAddress) : List Memory.Store :=
  Table.zeroStores (v.place f) ++ [v.leafStore f page frame]

/-- The stores that make a directory with one table in it, and the table. -/
def directoryStores (v : PhysicalView) (d f : PhysicalAddress) (page : VirtualAddress)
    (frame : PhysicalAddress) : List Memory.Store :=
  Table.zeroStores (v.place d) ++ Table.zeroStores (v.place f)
    ++ [v.leafStore f page frame, v.tableStore d page f]

end PhysicalView

namespace Draft

variable {β : Type} {m : Memory} {d : Draft β} {page : VirtualAddress}
  {frame directory table : PhysicalAddress}

/-- All that mapping a page can come to: the answer, the pager afterwards and the stores made. -/
inductive Install (v : PhysicalView) (p : Pager β) (page : VirtualAddress)
    (frame : PhysicalAddress) :
    Except FaultError Resolution → Pager β → List Memory.Store → Prop
  | directory (p' : Pager β) (directory table : PhysicalAddress)
    (absent : (v.top p.layout.root page).present = false)
    (moved : p.Moved p' [directory, table] 1) :
    Install v p page frame (.ok (.mapped page frame true)) p'
      (v.directoryStores directory table page frame
        ++ [v.directoryStore p.layout.root page directory])
  | table (p' : Pager β) (table : PhysicalAddress)
    (above : (v.top p.layout.root page).present = true)
    (absent : (v.middle p.layout.root page).present = false)
    (moved : p.Moved p' [table] 1) :
    Install v p page frame (.ok (.mapped page frame false)) p'
      (v.tableStores table page frame
        ++ [v.tableStore (v.top p.layout.root page).directory page table])
  | leaf (p' : Pager β)
    (above : (v.top p.layout.root page).present = true)
    (present : (v.middle p.layout.root page).present = true)
    (absent : (v.bottom p.layout.root page).present = false)
    (moved : p.Moved p' [] 1) :
    Install v p page frame (.ok (.mapped page frame false)) p'
      [v.leafStore (v.middle p.layout.root page).frame page frame]
  | already (p' : Pager β)
    (above : (v.top p.layout.root page).present = true)
    (middle : (v.middle p.layout.root page).present = true)
    (present : (v.bottom p.layout.root page).present = true)
    (moved : p.Moved p' [] 0) :
    Install v p page frame (.ok (.alreadyMapped page)) p' []
  | noDirectory (p' : Pager β) (stores : List Memory.Store)
    (absent : (v.top p.layout.root page).present = false)
    (short : p.loose.length < 2)
    (steady : p.frames.Steady)
    (into : ∀ x ∈ stores, v.Into p.loose x)
    (moved : p.Moved p' [] 0) :
    Install v p page frame (.error (.outOfTables page)) p' stores
  | noTable (p' : Pager β)
    (above : (v.top p.layout.root page).present = true)
    (absent : (v.middle p.layout.root page).present = false)
    (short : p.loose = [])
    (steady : p.frames.Steady)
    (moved : p.Moved p' [] 0) :
    Install v p page frame (.error (.outOfTables page)) p' []

/-- A draft that the frame source cut short by its overflow: all it adds are stores into frames that
no table uses, and some of these frames may be gone. -/
structure Stopped (v : PhysicalView) (page : VirtualAddress) (d d' : Draft β) : Prop where
  unsteady : ¬ d.pager.frames.Steady
  short : d.pager.loose.length < v.missing d.pager.layout.root page
  into : ∃ stores, d'.stores = d.stores ++ stores ∧ ∀ x ∈ stores, v.Into d.pager.loose x
  moved : ∃ taken, d.pager.Moved d'.pager taken 0

theorem Stopped.refl {v : PhysicalView} (hs : ¬ d.pager.frames.Steady)
    (hshort : d.pager.loose.length < v.missing d.pager.layout.root page) : Stopped v page d d :=
  ⟨hs, hshort, ⟨[], (List.append_nil _).symm, List.forall_mem_nil _⟩, [], .refl _⟩

theorem Stopped.backing_eq {v : PhysicalView} {p : Pager β} {b : β} {d' : Draft β}
    (h : Stopped v page { pager := { p with backing := b } } d') : d'.pager.backing = b := by
  obtain ⟨_, hmoved⟩ := h.moved
  exact hmoved.backing

theorem linkTable_eq (htable : table.IsFrame) (directory frame : PhysicalAddress)
    (page : VirtualAddress) (d : Draft β) (v : PhysicalView) (hv : v.window = d.pager.window) :
    linkTable directory table page ⟨entryBits kernelSwitches (some frame)⟩ d = (.ok (), { d with
      stores := d.stores ++ [v.leafStore table page frame, v.tableStore directory page table] }) := by
  rw [linkTable, Exec.bind_of_ok (place_apply _ _), Exec.bind_of_ok (emit_apply _ _),
    kernelWritable_eq htable, Exec.bind_of_ok (Exec.check_apply _ _),
    Exec.bind_of_ok (place_apply _ _), emit_apply]
  simp only [PhysicalView.leafStore, PhysicalView.tableStore, PhysicalView.place, hv,
    List.append_assoc, List.cons_append, List.nil_append]

theorem mapped_eq (page : VirtualAddress) (frame : PhysicalAddress) (rootChanged : Bool)
    (d : Draft β) : ∃ p', mapped page frame rootChanged d
      = (.ok (.ok (.mapped page frame rootChanged)), { d with pager := p' })
      ∧ d.pager.Moved p' [] 1 :=
  ⟨{ d.pager with
      installed := d.pager.installed + 1
      log := d.pager.log ++ [⟨.debug, target,
        s!"paging: mapped {page.display} -> {frame.display}"⟩] },
    rfl, rfl, rfl, rfl, rfl, rfl, rfl, .rfl⟩

theorem installDirectory_cases (hfit : d.pager.Fit) {v : PhysicalView}
    (hv : v.window = d.pager.window) (page : VirtualAddress) (frame : PhysicalAddress)
    (habsent : (v.top d.pager.layout.root page).present = false) :
    (∃ d', installDirectory page frame ⟨entryBits kernelSwitches (some frame)⟩ d
        = (.error .addOverflow, d') ∧ Stopped v page d d')
    ∨ ∃ r p' stores, installDirectory page frame ⟨entryBits kernelSwitches (some frame)⟩ d
        = (.ok r, ⟨p', d.stores ++ stores⟩) ∧ Install v d.pager page frame r p' stores := by
  have hmissing := PhysicalView.missing_of_top habsent
  rw [installDirectory]
  rcases newTable_cases hfit page with
    ⟨dir, p₁, hrun₁, hmoved₁, -⟩ | ⟨hnil, hs, hrun₁⟩ | ⟨hnil, hs, hrun₁⟩
  · rw [Exec.bind_of_ok hrun₁]
    dsimp only
    have hfit₁ := hmoved₁.fit hfit
    have hdir : dir.IsFrame := hfit.frame dir (hmoved₁.loose ▸ List.mem_cons_self)
    rcases newTable_cases (d := ⟨p₁, d.stores ++ Table.zeroStores (d.pager.window + dir.toNat)⟩)
      hfit₁ page with ⟨tbl, p₂, hrun₂, hmoved₂, -⟩ | ⟨hnil, hs, hrun₂⟩ | ⟨hnil, hs, hrun₂⟩
    · have htbl : tbl.IsFrame := hfit₁.frame tbl (hmoved₂.loose ▸ List.mem_cons_self)
      have hmoved₁₂ := hmoved₁.trans hmoved₂
      obtain ⟨p₃, hrun₃, hmoved₃⟩ := mapped_eq page frame true (⟨p₂, d.stores
        ++ (v.directoryStores dir tbl page frame
          ++ [v.directoryStore d.pager.layout.root page dir])⟩ : Draft β)
      refine .inr ⟨_, p₃, _, ?_, .directory p₃ dir tbl habsent (hmoved₁₂.trans hmoved₃)⟩
      have hlink := linkTable_eq htbl dir frame page ⟨p₂, d.stores
        ++ Table.zeroStores (d.pager.window + dir.toNat)
        ++ Table.zeroStores (p₁.window + tbl.toNat)⟩ v (hv.trans hmoved₁₂.window.symm)
      rw [Exec.bind_of_ok hrun₂]
      dsimp only
      rw [Exec.bind_of_ok hlink, ofDirectory_eq hdir, Exec.bind_of_ok (Exec.check_apply _ _),
        Exec.bind_of_ok (Exec.view_apply _ _), Exec.bind_of_ok (place_apply _ _),
        Exec.bind_of_ok (emit_apply _ _), ← hrun₃]
      dsimp only
      rw [hmoved₁₂.layout, hmoved₁₂.window, hmoved₁.window, ← hv]
      simp only [PhysicalView.directoryStores, PhysicalView.directoryStore, PhysicalView.place,
        List.append_assoc]
    · have hpending : p₁.frames.pending = [] := (List.append_eq_nil_iff.1 hnil).2
      have hloose : d.pager.loose = [dir] := by rw [hmoved₁.loose, hnil, List.append_nil]
      rw [Exec.bind_of_ok hrun₂]
      refine .inr ⟨_, { p₁ with spare := some dir }, Table.zeroStores (v.place dir), ?_,
        .noDirectory _ _ habsent ?_ (hmoved₁.steady.1 hs) ?_ ?_⟩
      · rw [PhysicalView.place, hv]
        rfl
      · rw [hloose]
        exact Nat.one_lt_two
      · rw [hloose]
        exact v.into_zeroStores List.mem_cons_self
      · refine ⟨hmoved₁.layout, hmoved₁.window, hmoved₁.backing, hmoved₁.installed, ?_,
          hmoved₁.stop, hmoved₁.steady⟩
        rw [hloose, Pager.loose]
        dsimp only
        rw [hpending]
        rfl
    · have hloose : d.pager.loose = [dir] := by rw [hmoved₁.loose, hnil, List.append_nil]
      rw [Exec.bind_of_error hrun₂]
      refine .inl ⟨_, rfl, mt hmoved₁.steady.2 hs, ?_, ⟨Table.zeroStores (v.place dir), ?_, ?_⟩,
        [dir], ?_⟩
      · rw [hmissing, hloose]
        exact Nat.one_lt_two
      · rw [PhysicalView.place, hv]
      · exact v.into_zeroStores (hmoved₁.loose ▸ List.mem_cons_self)
      · exact hmoved₁
  · rw [Exec.bind_of_ok hrun₁]
    refine .inr ⟨_, d.pager, [], ?_,
      .noDirectory _ _ habsent ?_ hs (List.forall_mem_nil _) (.refl _)⟩
    · rw [List.append_nil]
      rfl
    · rw [hnil]
      exact Nat.zero_lt_two
  · rw [Exec.bind_of_error hrun₁]
    refine .inl ⟨d, rfl, .refl hs ?_⟩
    rw [hmissing, hnil]
    exact Nat.zero_lt_two

theorem installTable_cases (hfit : d.pager.Fit) {v : PhysicalView}
    (hv : v.window = d.pager.window) (page : VirtualAddress) (frame : PhysicalAddress)
    (habove : (v.top d.pager.layout.root page).present = true)
    (habsent : (v.middle d.pager.layout.root page).present = false) :
    (∃ d', installTable (v.top d.pager.layout.root page).directory page frame
        ⟨entryBits kernelSwitches (some frame)⟩ d = (.error .addOverflow, d')
      ∧ Stopped v page d d')
    ∨ ∃ r p' stores, installTable (v.top d.pager.layout.root page).directory page frame
        ⟨entryBits kernelSwitches (some frame)⟩ d = (.ok r, ⟨p', d.stores ++ stores⟩)
      ∧ Install v d.pager page frame r p' stores := by
  generalize hdir : (v.top d.pager.layout.root page).directory = dir
  rw [installTable]
  rcases newTable_cases hfit page with
    ⟨tbl, p₁, hrun, hmoved, -⟩ | ⟨hnil, hs, hrun⟩ | ⟨hnil, hs, hrun⟩
  · have htbl : tbl.IsFrame := hfit.frame tbl (hmoved.loose ▸ List.mem_cons_self)
    obtain ⟨p₂, hrun₂, hmoved₂⟩ := mapped_eq page frame false (⟨p₁, d.stores
      ++ (v.tableStores tbl page frame ++ [v.tableStore dir page tbl])⟩ : Draft β)
    have hinstall : Install v d.pager page frame _ p₂ _ :=
      .table p₂ tbl habove habsent (hmoved.trans hmoved₂)
    rw [hdir] at hinstall
    refine .inr ⟨_, p₂, _, ?_, hinstall⟩
    have hlink := linkTable_eq htbl dir frame page
      ⟨p₁, d.stores ++ Table.zeroStores (d.pager.window + tbl.toNat)⟩ v (hv.trans hmoved.window.symm)
    rw [Exec.bind_of_ok hrun]
    dsimp only
    rw [Exec.bind_of_ok hlink, ← hrun₂]
    dsimp only
    rw [← hv]
    simp only [PhysicalView.tableStores, PhysicalView.place, List.append_assoc, List.cons_append,
      List.nil_append]
  · rw [Exec.bind_of_ok hrun]
    refine .inr ⟨_, d.pager, [], ?_, .noTable _ habove habsent hnil hs (.refl _)⟩
    rw [List.append_nil]
    rfl
  · rw [Exec.bind_of_error hrun]
    refine .inl ⟨d, rfl, .refl hs ?_⟩
    rw [PhysicalView.missing_of_middle habove habsent, hnil]
    exact Nat.one_pos

theorem entry_bottom {v : PhysicalView} (hv : v = ⟨d.pager.window, m⟩) (page : VirtualAddress) :
    Table.entry m (d.pager.window + (v.middle d.pager.layout.root page).frame.toNat) page.ptIndex
      = v.bottom d.pager.layout.root page := by
  rw [hv]
  rfl

/-- A page whose entry is there is left as it is. -/
theorem installLeaf_present {v : PhysicalView} (hv : v = ⟨d.pager.window, m⟩)
    (page : VirtualAddress) (frame : PhysicalAddress) (leaf : PageEntry)
    (hbottom : (v.bottom d.pager.layout.root page).present = true) :
    ∃ log, installLeaf m (v.middle d.pager.layout.root page).frame page frame leaf d
      = (.ok (.ok (.alreadyMapped page)), { d with pager := { d.pager with log } }) := by
  rw [installLeaf, Exec.bind_of_ok (place_apply _ _), entry_bottom hv, if_pos hbottom,
    Exec.bind_of_ok (record_apply _ _ _)]
  exact ⟨_, rfl⟩

theorem installLeaf_cases {v : PhysicalView} (hv : v = ⟨d.pager.window, m⟩)
    (page : VirtualAddress) (frame : PhysicalAddress)
    (habove : (v.top d.pager.layout.root page).present = true)
    (hpresent : (v.middle d.pager.layout.root page).present = true) :
    ∃ r p' stores, installLeaf m (v.middle d.pager.layout.root page).frame page frame
        ⟨entryBits kernelSwitches (some frame)⟩ d = (.ok r, ⟨p', d.stores ++ stores⟩)
      ∧ Install v d.pager page frame r p' stores := by
  cases hbottom : (v.bottom d.pager.layout.root page).present with
  | true =>
    obtain ⟨log, hrun⟩ := installLeaf_present hv page frame
      ⟨entryBits kernelSwitches (some frame)⟩ hbottom
    refine ⟨_, { d.pager with log }, [], ?_,
      .already _ habove hpresent hbottom ((Pager.Moved.refl _).logged log)⟩
    rw [List.append_nil]
    exact hrun
  | false =>
    obtain ⟨p', hrun, hmoved⟩ := mapped_eq page frame false (⟨d.pager, d.stores
      ++ [v.leafStore (v.middle d.pager.layout.root page).frame page frame]⟩ : Draft β)
    refine ⟨_, p', _, ?_, .leaf p' habove hpresent hbottom hmoved⟩
    rw [installLeaf, Exec.bind_of_ok (place_apply _ _), entry_bottom hv, hbottom,
      if_neg Bool.false_ne_true, Exec.bind_of_ok (emit_apply _ _), ← hrun]
    rw [PhysicalView.leafStore, PhysicalView.place, hv]

/-- Mapping a page looks at the levels above it from the root on. -/
theorem install_eq {v : PhysicalView} (hv : v = ⟨d.pager.window, m⟩) (page : VirtualAddress)
    (hframe : frame.IsFrame) :
    install m page frame d
      = (if (v.top d.pager.layout.root page).present then
          if (v.middle d.pager.layout.root page).present then
            installLeaf m (v.middle d.pager.layout.root page).frame page frame
              ⟨entryBits kernelSwitches (some frame)⟩
          else
            installTable (v.top d.pager.layout.root page).directory page frame
              ⟨entryBits kernelSwitches (some frame)⟩
        else installDirectory page frame ⟨entryBits kernelSwitches (some frame)⟩) d := by
  have htop : Table.rootEntry m (d.pager.window + d.pager.layout.root.toNat) page.pdptIndex
      = v.top d.pager.layout.root page := by rw [hv]; rfl
  have hmiddle : Table.entry m (d.pager.window + (v.top d.pager.layout.root page).directory.toNat)
      page.pdIndex = v.middle d.pager.layout.root page := by rw [hv]; rfl
  rw [install, kernelWritable_eq hframe, Exec.bind_of_ok (Exec.check_apply _ _),
    Exec.bind_of_ok (Exec.view_apply _ _), Exec.bind_of_ok (place_apply _ _)]
  dsimp only
  rw [htop]
  cases (v.top d.pager.layout.root page).present with
  | false => rw [if_neg Bool.false_ne_true, if_neg Bool.false_ne_true]
  | true => rw [if_pos rfl, if_pos rfl, Exec.bind_of_ok (place_apply _ _), hmiddle]

theorem install_cases (hfit : d.pager.Fit) (m : Memory) (page : VirtualAddress)
    (hframe : frame.IsFrame) :
    (∃ d', install m page frame d = (.error .addOverflow, d')
      ∧ Stopped ⟨d.pager.window, m⟩ page d d')
    ∨ ∃ r p' stores, install m page frame d = (.ok r, ⟨p', d.stores ++ stores⟩)
      ∧ Install ⟨d.pager.window, m⟩ d.pager page frame r p' stores := by
  generalize hv : PhysicalView.mk d.pager.window m = v
  have hwindow : v.window = d.pager.window := by rw [← hv]
  rw [install_eq hv.symm page hframe]
  cases habove : (v.top d.pager.layout.root page).present with
  | false =>
    rw [if_neg Bool.false_ne_true]
    exact installDirectory_cases hfit hwindow page frame habove
  | true =>
    rw [if_pos rfl]
    cases hpresent : (v.middle d.pager.layout.root page).present with
    | false =>
      rw [if_neg Bool.false_ne_true]
      exact installTable_cases hfit hwindow page frame habove hpresent
    | true =>
      rw [if_pos rfl]
      exact .inr (installLeaf_cases hv.symm page frame habove hpresent)

theorem Install.exists_moved {v : PhysicalView} {p p' : Pager β}
    {r : Except FaultError Resolution} {stores : List Memory.Store}
    (h : Install v p page frame r p' stores) : ∃ taken pages, p.Moved p' taken pages := by
  cases h with
  | directory _ directory table _ moved => exact ⟨[directory, table], 1, moved⟩
  | table _ table _ _ moved => exact ⟨[table], 1, moved⟩
  | leaf _ _ _ _ moved => exact ⟨[], 1, moved⟩
  | already _ _ _ _ moved | noDirectory _ _ _ _ _ _ moved | noTable _ _ _ _ _ moved =>
    exact ⟨[], 0, moved⟩

end Draft

/-! ### Resolving a fault -/

/-- A backing always answers, and only with frames, as long as its state is good. -/
def Backing.Honors {β : Type} [Backing β] (Good : β → Prop) : Prop :=
  ∀ b page, Good b → ∃ o b', Backing.frameFor page b = (.ok o, b') ∧ Good b'
    ∧ ∀ f, o = some f → f.IsFrame

theorem IdentityBacking.honors : Backing.Honors fun _ : IdentityBacking => True := by
  intro b page _
  refine ⟨_, b, rfl, trivial, ?_⟩
  intro f hf
  obtain rfl := Option.some.inj hf
  have hlt := page.isLt
  refine ⟨beq_iff_eq.2 ?_, ?_⟩
  · simp only [VirtualAddress.identity, VirtualAddress.pageBase, pageSize]
    omega
  · simp only [VirtualAddress.identity, VirtualAddress.pageBase, frameLimit, registerLimit] at *
    omega

theorem ListBacking.honors : Backing.Honors fun b : ListBacking => ∀ f ∈ b.frames, f.IsFrame := by
  intro b page hgood
  obtain ⟨frames⟩ := b
  cases frames with
  | nil => exact ⟨none, ⟨[]⟩, rfl, hgood, nofun⟩
  | cons frame rest =>
    refine ⟨some frame, ⟨rest⟩, rfl, fun f hf => hgood f (List.mem_cons_of_mem _ hf), ?_⟩
    intro f hf
    exact Option.some.inj hf ▸ hgood frame List.mem_cons_self

/-- The pager `q` after the backing of `p` was asked for a frame. -/
structure Pager.Asked {β : Type} [Backing β] (p : Pager β) (page : VirtualAddress)
    (o : Option PhysicalAddress) (q : Pager β) : Prop where
  answer : Backing.frameFor page p.backing = (.ok o, q.backing)
  moved : { p with backing := q.backing }.Moved q [] 0

namespace Draft

variable {β : Type} [Backing β]

/-- All that a fault can come to: the answer, the pager afterwards and the stores made. -/
inductive Resolve (v : PhysicalView) (p : Pager β) (fault : PageFault) :
    Except FaultError Resolution → Pager β → List Memory.Store → Prop
  | violation (p' : Pager β) (code : fault.code.present = true) (moved : p.Moved p' [] 0) :
    Resolve v p fault (.error (.protectionViolation fault.address fault.code)) p' []
  | unbacked (p' : Pager β) (code : fault.code.present = false)
    (asked : p.Asked fault.address.pageBase none p') :
    Resolve v p fault (.error (.noBackingFrame fault.address.pageBase)) p' []
  | backed (q p' : Pager β) (frame : PhysicalAddress) (r : Except FaultError Resolution)
    (stores : List Memory.Store) (code : fault.code.present = false) (isFrame : frame.IsFrame)
    (asked : p.Asked fault.address.pageBase (some frame) q)
    (install : Install v q fault.address.pageBase frame r p' stores) : Resolve v p fault r p' stores

theorem Resolve.steady {v : PhysicalView} {p p' : Pager β} {fault : PageFault}
    {r : Except FaultError Resolution} {stores : List Memory.Store}
    (h : Resolve v p fault r p' stores) : p'.frames.Steady ↔ p.frames.Steady := by
  cases h with
  | violation _ _ moved => exact moved.steady
  | unbacked _ _ asked => exact asked.moved.steady
  | backed _ _ _ _ _ _ _ asked install =>
    obtain ⟨_, _, hmoved⟩ := install.exists_moved
    exact hmoved.steady.trans asked.moved.steady

/-- A fault on a page that is there is not resolved. -/
theorem resolve_violation {fault : PageFault} (hcode : fault.code.present = true) (m : Memory)
    (p : Pager β) : ∃ log, resolve m fault { pager := p }
      = (.ok (.error (.protectionViolation fault.address fault.code)),
        { pager := { p with log } }) := by
  rw [resolve, Exec.bind_of_ok (record_apply _ _ _), if_pos hcode]
  exact ⟨_, rfl⟩

/-- A fault on a page that is not there is up to the backing first. -/
theorem resolve_asked {p : Pager β} {fault : PageFault} {o : Option PhysicalAddress} {b : β}
    (hcode : fault.code.present = false)
    (hasked : Backing.frameFor fault.address.pageBase p.backing = (.ok o, b))
    (hframe : ∀ f, o = some f → f.IsFrame) (m : Memory) :
    ∃ log, resolve m fault { pager := p }
      = (match o with
        | none => return .error (.noBackingFrame fault.address.pageBase)
        | some frame => install m fault.address.pageBase frame : Exec (Draft β) _)
          { pager := { p with backing := b, log } } := by
  refine ⟨p.log ++ [⟨.warn, target, fault.display⟩], ?_⟩
  rw [resolve, Exec.bind_of_ok (record_apply _ _ _), if_neg (hcode ▸ Bool.false_ne_true)]
  generalize p.log ++ [⟨.warn, target, fault.display⟩] = log
  have hrun : backingFrame fault.address.pageBase { pager := { p with log } }
      = (.ok o, ({ pager := { p with log, backing := b } } : Draft β)) := by
    rw [backingFrame, Exec.zoom, hasked]
  rw [Exec.bind_of_ok hrun]
  cases o with
  | none => rfl
  | some frame =>
    dsimp only
    rw [Exec.bind_of_ok (require_aligned (hframe frame rfl) _ _)]

/-- A fault that the backing has a frame for comes down to mapping its page, unless the source
overflows over a table that is missing. -/
theorem resolve_backed {p : Pager β} {fault : PageFault} {frame : PhysicalAddress} {b : β}
    (hfit : p.Fit) (hcode : fault.code.present = false)
    (hasked : Backing.frameFor fault.address.pageBase p.backing = (.ok (some frame), b))
    (hframe : frame.IsFrame) (m : Memory) :
    (∃ d', resolve m fault { pager := p } = (.error .addOverflow, d')
      ∧ Stopped ⟨p.window, m⟩ fault.address.pageBase { pager := { p with backing := b } } d')
    ∨ ∃ q r p' stores, resolve m fault { pager := p } = (.ok r, ⟨p', stores⟩)
      ∧ p.Asked fault.address.pageBase (some frame) q
      ∧ Install ⟨p.window, m⟩ q fault.address.pageBase frame r p' stores := by
  obtain ⟨log, hrun⟩ := resolve_asked hcode hasked (fun f hf => Option.some.inj hf ▸ hframe) m
  have hlogged : { p with backing := b }.Moved { p with backing := b, log } [] 0 :=
    (Pager.Moved.refl _).logged log
  rcases install_cases (d := { pager := { p with backing := b, log } }) ⟨hfit.stop, hfit.frame⟩ m
    fault.address.pageBase hframe with
    ⟨d', hpanic, hunsteady, hshort, hinto, taken, hlost⟩ | ⟨r, p', stores, hinstall, heffect⟩
  · exact .inl ⟨d', hrun.trans hpanic, hunsteady, hshort, hinto, taken, hlogged.trans hlost⟩
  · exact .inr ⟨_, r, p', stores, hrun.trans hinstall, ⟨hasked, hlogged⟩, heffect⟩

theorem resolve_cases {Good : β → Prop} (hb : Backing.Honors Good) {p : Pager β} (hfit : p.Fit)
    (hgood : Good p.backing) (m : Memory) (fault : PageFault) :
    (∃ d', resolve m fault { pager := p } = (.error .addOverflow, d')
      ∧ Stopped ⟨p.window, m⟩ fault.address.pageBase
        { pager := { p with backing := d'.pager.backing } } d'
      ∧ Good d'.pager.backing)
    ∨ ∃ r p' stores, resolve m fault { pager := p } = (.ok r, ⟨p', stores⟩)
      ∧ Resolve ⟨p.window, m⟩ p fault r p' stores ∧ Good p'.backing := by
  cases hcode : fault.code.present with
  | true =>
    obtain ⟨log, hrun⟩ := resolve_violation hcode m p
    exact .inr ⟨_, _, [], hrun, .violation _ hcode ((Pager.Moved.refl p).logged log), hgood⟩
  | false =>
    obtain ⟨o, b', hasked, hgood', hframes⟩ := hb p.backing fault.address.pageBase hgood
    cases o with
    | none =>
      obtain ⟨log, hrun⟩ := resolve_asked hcode hasked hframes m
      exact .inr ⟨_, _, [], hrun,
        .unbacked _ hcode ⟨hasked, (Pager.Moved.refl _).logged log⟩, hgood'⟩
    | some frame =>
      have hframe := hframes frame rfl
      rcases resolve_backed hfit hcode hasked hframe m with
        ⟨d', hpanic, hstopped⟩ | ⟨q, r, p', stores, hrun, hq, hinstall⟩
      · obtain rfl := hstopped.backing_eq
        exact .inl ⟨d', hpanic, hstopped, hgood'⟩
      · obtain ⟨-, rfl⟩ := Prod.mk.inj (hasked.symm.trans hq.answer)
        obtain ⟨_, _, hp'⟩ := hinstall.exists_moved
        refine .inr ⟨r, p', stores, hrun, ?_, hp'.backing ▸ hgood'⟩
        exact .backed q p' frame r stores hcode hframe hq hinstall

end Draft

end PaeKernel
