import PaeKernel.Proofs.Boot.Placement
import PaeKernel.Proofs.Paging.Footprint
import PaeKernel.Proofs.Paging.Supply
import PaeKernel.Proofs.Paging.WellFormed

/-!
# Tables, heap and image stay out of each other's way

The pager that boot sets up works in five pages below the kernel image and in the table frames above
the heap (`BootMemory.TableByte`). `BootMemory.Tends` is the invariant of this pager at work: all its
frames lie there, and pages are mapped to themselves only, the low ones always. What follows from it
for every fault that may come next is `BootMemory.Confined`.
-/

namespace PaeKernel

namespace TableTree

variable {t t' : TableTree} {page : VirtualAddress} {r : Except FaultError Resolution}

/-- Pages are mapped to the frames of the same number only. -/
def IsIdentity (t : TableTree) : Prop := ∀ a f, t.pages a = some f → f = a.pageBase.identity

theorem IsIdentity.translate (h : t.IsIdentity) {a : VirtualAddress} {b : PhysicalAddress}
    (hb : t.pages.translate a = some b) : b = a.identity := by
  obtain ⟨f, hf, rfl⟩ := Option.map_eq_some_iff.1 hb
  have hlt := a.isLt
  rw [h a.pageBase f hf]
  refine PhysicalAddress.ext ?_
  simp only [PhysicalAddress.toNat_ofNat, VirtualAddress.identity, VirtualAddress.pageBase,
    VirtualAddress.pageOffset, registerLimit, wordLimit] at *
  omega

theorem Answers.isIdentity (h : t.Answers page.pageBase t' r)
    (hframe : ∀ frame b, r = .ok (.mapped page.pageBase frame b) → frame = page.pageBase.identity)
    (hid : t.IsIdentity) : t'.IsIdentity := by
  cases h with
  | mapped _ frame rootChanged free grown =>
    intro a f hf
    rw [pages, grown] at hf
    by_cases heq : a.indices = page.pageBase.indices
    · rw [heq, leaf_setLeaf_self] at hf
      have hpage : a.pageBase = page.pageBase := by
        rw [VirtualAddress.indices_pageBase] at heq
        exact VirtualAddress.indices_eq_iff.1 heq
      rw [hpage, ← hframe frame rootChanged rfl]
      exact (Option.some.inj hf).symm
    · rw [leaf_setLeaf_of_ne heq] at hf
      exact hid a f hf
  | already | failed => exact hid

theorem isIdentity_first (l : TableLayout) : (first l).IsIdentity := by
  intro a f hf
  rw [pages_first, PageMap.identity] at hf
  split at hf
  · exact (Option.some.inj hf).symm
  · cases hf

/-- No answer takes a page away. -/
theorem Answers.kept (h : t.Answers page t' r) {a : VirtualAddress} (ha : t.pages a ≠ none) :
    t'.pages a ≠ none := by
  cases h with
  | mapped _ frame rootChanged free grown =>
    rw [pages, grown]
    by_cases heq : a.indices = page.indices
    · rw [heq, leaf_setLeaf_self]
      exact Option.some_ne_none frame
    · rw [leaf_setLeaf_of_ne heq]
      exact ha
  | already | failed => exact ha

end TableTree

/-- With the identity as backing, a page that is mapped by a fault is mapped to itself. -/
theorem Draft.Resolve.frame_eq {v : PhysicalView} {p p' : Pager IdentityBacking} {fault : PageFault}
    {page : VirtualAddress} {frame : PhysicalAddress} {rootChanged : Bool}
    {stores : List Memory.Store}
    (h : Resolve v p fault (.ok (.mapped page frame rootChanged)) p' stores) :
    frame = fault.address.pageBase.identity := by
  rcases h.counted IdentityBacking.serves trivial with ⟨_, hmapped, -⟩ | ⟨halready, -⟩
  · cases hmapped
    rw [VirtualAddress.pageBase_pageBase]
  · cases halready

/-! ### The bytes of tables -/

namespace BootMemory

variable {map : MemoryMap} {kernelEnd : Nat} {boot : BootMemory} {f : PhysicalAddress} {x : Nat}

/-- A byte in the pages of the first tables and the spare ones or in the table frames. -/
def TableByte (boot : BootMemory) (x : Nat) : Prop :=
  (∃ f ∈ TableLayout.boot.frames, x ∈ AddressRange.ofFrame f) ∨ x ∈ boot.tables

/-- All eight bytes from an address on belong to tables. -/
def TableWord (boot : BootMemory) (x : Nat) : Prop := ∀ i < 8, boot.TableByte (x + i)

theorem TableWord.byte (h : boot.TableWord x) : boot.TableByte x := h 0 (by decide)

/-- A frame whose page belongs to tables. -/
def TableFrame (boot : BootMemory) (f : PhysicalAddress) : Prop :=
  ∀ x ∈ AddressRange.ofFrame f, boot.TableByte x

theorem TableFrame.word (h : boot.TableFrame f) {i : Nat} (hi : i < 512) :
    boot.TableWord (Table.entryAddress f.toNat i) := by
  intro k hk
  refine h _ ?_
  simp only [AddressRange.mem_iff, AddressRange.ofFrame, Table.entryAddress, pageSize]
  omega

theorem tableFrame_of_first (boot : BootMemory) (hf : f ∈ TableLayout.boot.frames) :
    boot.TableFrame f := fun _ hx => .inl ⟨f, hf, hx⟩

theorem tableFrame_of_source (h : map.Placed kernelEnd boot) (hf : f ∈ boot.source.pending) :
    boot.TableFrame f := by
  have haligned := h.aligned_tables
  rcases h.mem_source.1 hf with rfl | rfl | hrange
  · exact boot.tableFrame_of_first (by decide)
  · exact boot.tableFrame_of_first (by decide)
  · intro x hx
    simp only [AddressRange.mem_iff, AddressRange.ofFrame, pageSize] at hx
    exact .inr (AddressRange.mem_iff.2 (by omega))

/-- The first tables lie below the kernel image, and the table frames above the heap. -/
theorem TableByte.place (h : map.Placed kernelEnd boot) (hx : boot.TableByte x) :
    x < loadAddress ∨ boot.heap.stop ≤ x ∧ x < identityLimit := by
  have hbelow : ∀ f ∈ TableLayout.boot.frames, f.toNat + pageSize ≤ loadAddress := by decide
  rcases hx with ⟨f, hf, hx⟩ | hx
  · exact .inl (Nat.lt_of_lt_of_le hx.2 (hbelow f hf))
  · exact .inr ⟨h.adjacent ▸ hx.1, Nat.lt_of_lt_of_le hx.2 h.limit⟩

theorem TableByte.lt_limit (hx : boot.TableByte x) (h : map.Placed kernelEnd boot) :
    x < identityLimit := by
  rcases hx.place h with hlow | hhigh
  · exact Nat.lt_trans hlow (by decide)
  · exact hhigh.2

/-- Tables share no byte with the heap or the kernel image. -/
theorem TableByte.not_mem (h : map.Placed kernelEnd boot) (hload : loadAddress ≤ kernelEnd)
    (hx : boot.TableByte x) :
    x ∉ boot.heap ∧ x ∉ AddressRange.mk loadAddress kernelEnd := by
  have hfirst := h.first.1
  have hheap := h.heap_lt
  simp only [AddressRange.mem_iff]
  rcases hx.place h with hlow | hhigh <;> omega

/-! ### The pager at work -/

/-- The pager that boot sets up: its frames are those of tables, and it maps pages to themselves
only, the low ones always. -/
structure Tends (boot : BootMemory) (s : Paging IdentityBacking) (t : TableTree) : Prop where
  realizes : s.Realizes t
  layout : s.pager.layout = .boot
  window : s.pager.window = 0
  steady : s.pager.frames.Steady
  owned : ∀ f, s.pager.Owned t f → boot.TableFrame f
  isIdentity : t.IsIdentity
  low : ∀ a : VirtualAddress, a.toNat < identityLimit → t.pages a.pageBase ≠ none

variable {s : Paging IdentityBacking} {t : TableTree}

/-- Every fault has an answer. -/
theorem Tends.resolved (h : boot.Tends s t) (fault : PageFault) : ∃ r p',
    Paging.handleFault fault s = (.ok r, ⟨p', s.memory.apply (s.faultStores fault)⟩)
      ∧ Draft.Resolve s.view s.pager fault r p' (s.faultStores fault) := by
  rcases h.realizes.handleFault_outcome IdentityBacking.honors trivial fault with
    ⟨_, _, hunsteady, -⟩ | ⟨r, p', hrun, hresolve, -⟩
  -- only a source that may overflow leaves a fault without an answer
  · exact absurd h.steady hunsteady
  · exact ⟨r, p', hrun, hresolve⟩

theorem Tends.handleFault (h : boot.Tends s t) (fault : PageFault) :
    ∃ r s' t', Paging.handleFault fault s = (.ok r, s') ∧ boot.Tends s' t' := by
  obtain ⟨r, p', hrun, hresolve⟩ := h.resolved fault
  obtain ⟨t', taken, n, hrealizes, hgrows, hmoved⟩ := h.realizes.resolve hresolve
  have hanswers := hgrows.answers h.realizes.closed
  refine ⟨r, _, t', hrun, hrealizes, hmoved.layout.trans h.layout, hmoved.window.trans h.window,
    hmoved.steady.2 h.steady, ?_, ?_, ?_⟩
  · intro f hf
    exact h.owned f (hmoved.owned (fun _ => hgrows.linked_or) hf)
  · refine hanswers.isIdentity ?_ h.isIdentity
    rintro frame rootChanged rfl
    exact hresolve.frame_eq
  · intro a ha
    exact hanswers.kept (h.low a ha)

theorem Tends.afterFaults (h : boot.Tends s t) (faults : List PageFault) :
    ∃ t', boot.Tends (s.afterFaults faults) t' := by
  induction faults generalizing s t with
  | nil => exact ⟨t, h⟩
  | cons fault rest ih =>
    obtain ⟨r, s', t', hrun, h'⟩ := h.handleFault fault
    rw [Paging.afterFaults, List.foldl_cons, hrun]
    exact ih h'

/-- What can be said of a pager before any fault. Walks and faults read entries in the bytes of tables,
and other memory that agrees there gives the same translations and the same drafts, so they read
nothing else; faults write only there. These bytes and the heap are mapped to themselves, nothing is
mapped to anything else, and every fault has an answer. -/
structure Confined (boot : BootMemory) (s : Paging IdentityBacking) : Prop where
  reads : ∀ a, ∀ x ∈ s.view.path s.pager.layout.root a, boot.TableWord x
  translate_eq : ∀ m : Memory, (∀ x, boot.TableByte x → m.read x = s.memory.read x) →
    ∀ a, Paging.translate ⟨s.pager, m⟩ a = s.translate a
  resolve_eq : ∀ m : Memory, (∀ x, boot.TableByte x → m.read x = s.memory.read x) →
    ∀ fault, Draft.resolve m fault { pager := s.pager }
      = Draft.resolve s.memory fault { pager := s.pager }
  writes : ∀ fault, ∀ x ∈ s.faultStores fault, boot.TableWord x.address
  own : ∀ x, boot.TableByte x ∨ x ∈ boot.heap →
    ∃ a : VirtualAddress, a.toNat = x ∧ s.translate a = some a.identity
  identity : ∀ a b, s.translate a = some b → b = a.identity
  answered : ∀ fault, ∃ r s', Paging.handleFault fault s = (.ok r, s')

theorem Tends.tableWord (h : boot.Tends s t) (hx : s.OwnEntry t x) : boot.TableWord x := by
  obtain ⟨f, hf, i, hi, rfl⟩ := hx
  rw [PhysicalView.place, Paging.view, h.window, Nat.zero_add]
  exact (h.owned f hf).word hi

theorem Tends.translate_low (h : boot.Tends s t) {a : VirtualAddress} (ha : a.toNat < identityLimit) :
    s.translate a = some a.identity := by
  rw [h.realizes.translate_eq]
  cases htranslate : t.pages.translate a with
  | none => exact absurd (Option.map_eq_none_iff.1 htranslate) (h.low a ha)
  | some b => rw [h.isIdentity.translate htranslate]

theorem Tends.confined (h : boot.Tends s t) (hplaced : map.Placed kernelEnd boot) :
    boot.Confined s := by
  have hreads : ∀ a, ∀ x ∈ s.view.path s.pager.layout.root a, boot.TableWord x := fun a x hx =>
    h.tableWord (h.realizes.path_owned a x hx)
  refine ⟨hreads, ?_, ?_, ?_, ?_, ?_, ?_⟩
  -- memory that agrees on the bytes of tables agrees on the way to each page
  · intro m hm a
    have hagree : ∀ x ∈ s.view.path s.pager.layout.root a, m.read x = s.view.memory.read x :=
      fun x hx => hm x (hreads a x hx).byte
    exact s.translate_congr hagree
  · intro m hm fault
    have hagree : ∀ x ∈ s.view.path s.pager.layout.root fault.address.pageBase,
        m.read x = s.memory.read x := fun x hx => hm x (hreads _ x hx).byte
    exact Draft.resolve_congr hagree
  · intro fault x hx
    obtain ⟨r, p', -, hresolve⟩ := h.resolved fault
    exact h.tableWord (h.realizes.resolve_owned hresolve x hx)
  · intro x hx
    have hlow : x < identityLimit := hx.elim (·.lt_limit hplaced) (hplaced.heap_lt_limit ·)
    exact ⟨⟨x, Nat.lt_trans hlow (by decide)⟩, rfl, h.translate_low hlow⟩
  · intro a b hb
    rw [h.realizes.translate_eq] at hb
    exact h.isIdentity.translate hb
  · intro fault
    obtain ⟨r, p', hrun, -⟩ := h.resolved fault
    exact ⟨r, _, hrun⟩

/-! ### The start -/

/-- The pager over the frames that boot memory leaves. -/
def firstPager (boot : BootMemory) : Pager IdentityBacking where
  layout := .boot
  frames := boot.source
  backing := {}

theorem pager_eq (h : map.Placed kernelEnd boot) : boot.pager = .ok boot.firstPager := by
  rw [pager, h.bump_eq]
  rfl

theorem ready_firstPager (h : map.Placed kernelEnd boot) (hload : loadAddress ≤ kernelEnd) :
    boot.firstPager.Ready where
  stop := Nat.lt_of_le_of_lt h.tables_le.2 (by decide)
  root := show TableLayout.boot.root.IsFrame by decide
  directory := show TableLayout.boot.directory.IsFrame by decide
  table := show TableLayout.boot.table.IsFrame by decide
  loose _ hf := h.isFrame_of_mem hf
  nodup := by
    have hfirst : [TableLayout.boot.root, TableLayout.boot.directory, TableLayout.boot.table].Nodup := by
      decide
    refine List.nodup_append.2 ⟨hfirst, h.nodup_source hload, ?_⟩
    rintro g hg f hf rfl
    -- no page is apart from itself
    have hapart := (h.supplies hload).first g hf g hg
    simp only [AddressRange.Apart, AddressRange.ofFrame, pageSize] at hapart
    omega

/-- The first tables are in order, whatever memory held before. -/
theorem initTables_tends (h : map.Placed kernelEnd boot) (hload : loadAddress ≤ kernelEnd)
    (m : Memory) : ∃ s, Paging.initTables ⟨boot.firstPager, m⟩ = (.ok (), s)
      ∧ boot.Tends s (.first .boot)
      ∧ ∀ x ∈ (Draft.buildTables { pager := boot.firstPager }).2.stores, boot.TableWord x.address := by
  have hready := boot.ready_firstPager h hload
  obtain ⟨log, hbuild⟩ := Draft.buildTables_eq boot.firstPager hready.directory hready.table m
  obtain ⟨s, hinit, hrealizes, -⟩ := Paging.initTables_realizes hready m
  refine ⟨s, hinit, ?_, ?_⟩
  · rw [Paging.initTables, Paging.carryOut, hbuild] at hinit
    obtain rfl := (Prod.mk.inj hinit).2
    refine ⟨hrealizes, rfl, rfl, h.source_steady.2, ?_, TableTree.isIdentity_first _, ?_⟩
    · rintro f (hf | ⟨σ, hf⟩)
      · exact tableFrame_of_source h hf
      · exact boot.tableFrame_of_first (TableTree.mem_of_linked_first hf)
    · intro a ha
      have hpage : a.pageBase.toNat / 4096 < min TableLayout.boot.identityPages tableEntries := by
        simp only [VirtualAddress.pageBase, TableLayout.boot, identityPages, identityLimit, pageSize,
          tableEntries] at *
        omega
      rw [TableTree.pages_first, PageMap.identity, if_pos hpage]
      exact Option.some_ne_none _
  · intro x hx
    rw [hbuild] at hx
    obtain ⟨f, hf, i, hi, haddress⟩ := PhysicalView.into_firstStores _ _ x hx
    have hplace : PhysicalView.place ⟨boot.firstPager.window, m⟩ f = f.toNat := Nat.zero_add _
    rw [haddress, hplace]
    exact (boot.tableFrame_of_first hf).word hi

end BootMemory

/-- Neither the heap nor the fault handler can fault or meet the other: the pager that boot sets up
keeps to the bytes of tables, which are apart from the heap and the image, and in every state that
faults lead to these bytes and the heap are mapped to themselves and the next fault has an answer. -/
theorem bootMemory_confines {map : MemoryMap} {kernelEnd : Nat} {boot : BootMemory} {a : Arena}
    (hload : loadAddress ≤ kernelEnd) (hboot : (Arena.bootMemory map kernelEnd a).1 = .ok (.ok boot))
    (m : Memory) : ∃ p s, boot.pager = .ok p ∧ Paging.initTables ⟨p, m⟩ = (.ok (), s)
      ∧ (∀ x, boot.TableByte x → x ∉ boot.heap ∧ x ∉ AddressRange.mk loadAddress kernelEnd)
      ∧ (∀ x ∈ (Draft.buildTables { pager := p }).2.stores, boot.TableWord x.address)
      ∧ ∀ faults, boot.Confined (s.afterFaults faults) := by
  have hplaced := MemoryMap.placed_of_bootMemory hboot
  obtain ⟨s, hinit, htends, hstores⟩ := BootMemory.initTables_tends hplaced hload m
  refine ⟨_, s, BootMemory.pager_eq hplaced, hinit, fun x hx => hx.not_mem hplaced hload, hstores, ?_⟩
  intro faults
  obtain ⟨t, htends'⟩ := htends.afterFaults faults
  exact htends'.confined hplaced

theorem bootMemory_confines_sample : ∃ boot p s,
    (Arena.bootMemory .sample imageEnd ⟨.empty, .filled 0, []⟩).1 = .ok (.ok boot)
      ∧ boot.pager = .ok p ∧ Paging.initTables ⟨p, .filled 0xA5⟩ = (.ok (), s)
      ∧ boot.Confined (s.afterFaults Paging.sampleFaults) := by
  have hboot := (Arena.bootMemory_fst .sample imageEnd ⟨.empty, .filled 0, []⟩).trans
    MemoryMap.place_sample
  obtain ⟨p, s, hpager, hinit, -, -, hconfined⟩ := bootMemory_confines
    (show loadAddress ≤ imageEnd by decide) hboot (.filled 0xA5)
  exact ⟨_, p, s, hboot, hpager, hinit, hconfined Paging.sampleFaults⟩

end PaeKernel
