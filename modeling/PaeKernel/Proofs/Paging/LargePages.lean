import PaeKernel.Proofs.Paging.Spending

/-!
# Faults over tables of any contents

Here the entries may hold any bits, among them entries that map large pages.
`PhysicalView.linkedAt` reads off which frames are linked as tables, and the ledger over it is all
that is assumed. A translation looks whether an entry maps a large page, mapping a page does not: it
takes the large page for a table, and the word it finds there for the entry of the page
(`Paging.Misread`). Apart from that the two agree (`Paging.handleFault_agrees`).
-/

namespace PaeKernel

open TableTree

namespace PhysicalView

variable {v : PhysicalView} {root d f frame : PhysicalAddress} {page a : VirtualAddress}
  {loose : List PhysicalAddress}

/-- The frames linked as tables, read off entries of any bits. -/
def linkedAt (v : PhysicalView) (root : PhysicalAddress) : Slot → Option PhysicalAddress
  | .root => some root
  | .directory i =>
    let top := Table.rootEntry v.memory (v.place root) i
    if top.present then some top.directory else none
  | .table (i, j) =>
    let top := Table.rootEntry v.memory (v.place root) i
    let middle := Table.entry v.memory (v.place top.directory) j
    if top.present ∧ middle.present ∧ middle.largePage = false then some middle.frame else none

/-- The entries on the way to a page lead over a directory and a table to this frame. -/
structure Leads (v : PhysicalView) (root : PhysicalAddress) (page : VirtualAddress)
    (frame : PhysicalAddress) : Prop where
  top : (v.top root page).present = true
  middle : (v.middle root page).present = true
  small : (v.middle root page).largePage = false
  bottom : v.bottom root page = ⟨entryBits kernelSwitches (some frame)⟩

theorem linkedAt_directory (htop : (v.top root page).present = true) :
    v.linkedAt root (.directory page.pdptIndex) = some (v.top root page).directory :=
  if_pos htop

theorem linkedAt_table (htop : (v.top root page).present = true)
    (hmiddle : (v.middle root page).present = true)
    (hsmall : (v.middle root page).largePage = false) :
    v.linkedAt root (.table (page.pdptIndex, page.pdIndex)) = some (v.middle root page).frame :=
  if_pos ⟨htop, hmiddle, hsmall⟩

/-- A walk in terms of the entries on its way. -/
theorem translate_eq (v : PhysicalView) (root : PhysicalAddress) (a : VirtualAddress) :
    v.translate root a =
      if (v.top root a).present then
        if (v.middle root a).present then
          if (v.middle root a).largePage then
            some (.ofNat ((v.middle root a).frame.toNat + a.largePageOffset))
          else if (v.bottom root a).present then
            some (.ofNat ((v.bottom root a).frame.toNat + a.pageOffset))
          else none
        else none
      else none := rfl

theorem Leads.translate_eq (h : v.Leads root a frame) (hframe : frame.IsFrame) :
    v.translate root a = some (.ofNat (frame.toNat + a.pageOffset)) := by
  have hpresent : (v.bottom root a).present = true := by
    rw [h.bottom, pageEntry_present fun _ hf => Option.some.inj hf ▸ hframe]
    rfl
  rw [PhysicalView.translate_eq, if_pos h.top, if_pos h.middle, h.small,
    if_neg Bool.false_ne_true, if_pos hpresent, h.bottom, pageEntry_frame hframe]

/-! ### The way to a page after its stores -/

theorem leads_of_top (htop : (v.top root page).present = true)
    (hd : (v.top root page).directory = d) (hf : f.IsFrame)
    (hmiddle : v.bitsAt d page.pdIndex = entryBits kernelSwitches (some f))
    (hbottom : v.bitsAt f page.ptIndex = entryBits kernelSwitches (some frame)) :
    v.Leads root page frame := by
  have hentry : v.middle root page = ⟨entryBits kernelSwitches (some f)⟩ := by
    rw [middle, hd]
    exact congrArg PageEntry.mk hmiddle
  refine ⟨htop, ?_, ?_, ?_⟩
  · rw [hentry, pageEntry_present fun _ h => Option.some.inj h ▸ hf]
    rfl
  · rw [hentry, pageEntry_largePage hf]
  · rw [bottom, hentry, pageEntry_frame hf]
    exact congrArg PageEntry.mk hbottom

/-- A page is put into a table that was there. -/
theorem leads_leafStore (h : Ledger (v.linkedAt root) loose)
    (htop : (v.top root page).present = true) (hmiddle : (v.middle root page).present = true)
    (hsmall : (v.middle root page).largePage = false) (hframe : frame.IsFrame) :
    (v.apply [v.leafStore (v.middle root page).frame page frame]).Leads root page frame := by
  have hdirectory := linkedAt_directory htop
  have htable := linkedAt_table htop hmiddle hsmall
  have hf := h.frame _ _ htable
  have hbits : ∀ {g : PhysicalAddress}, g.IsFrame → ∀ {n : Nat}, n < 512 →
      (v.apply [v.leafStore (v.middle root page).frame page frame]).bitsAt g n
        = if (v.middle root page).frame = g ∧ page.ptIndex.val = n then
            entryBits kernelSwitches (some frame) else v.bitsAt g n := fun hg _ hn =>
    v.bitsAt_apply_leafStore [] hf hg hframe hn
  generalize v.apply [v.leafStore (v.middle root page).frame page frame] = v' at hbits
  -- neither the root table nor the directory is the table stored into
  have hsame : ∀ σ g, v.linkedAt root σ = some g → σ ≠ .table (page.pdptIndex, page.pdIndex) →
      ∀ n < 512, v'.bitsAt g n = v.bitsAt g n := by
    intro σ g hg hne n hn
    rw [hbits (h.frame σ g hg) hn, if_neg]
    rintro ⟨rfl, -⟩
    exact hne (h.distinct _ _ _ hg htable)
  have htop' : v'.top root page = v.top root page :=
    congrArg RootEntry.mk (hsame .root root rfl (by simp) _ (by omega))
  have hmiddle' : v'.middle root page = v.middle root page := by
    rw [middle, htop', middle]
    exact congrArg PageEntry.mk (hsame _ _ hdirectory (by simp) _ page.pdIndex.isLt)
  refine ⟨htop' ▸ htop, hmiddle' ▸ hmiddle, hmiddle' ▸ hsmall, ?_⟩
  rw [bottom, hmiddle']
  exact congrArg PageEntry.mk ((hbits hf page.ptIndex.isLt).trans (if_pos ⟨rfl, rfl⟩))

/-- A page is put into a new table. -/
theorem leads_tableStores (h : Ledger (v.linkedAt root) loose)
    (htop : (v.top root page).present = true) (hf : f ∈ loose) (hframe : frame.IsFrame) :
    (v.apply (v.tableStores f page frame
      ++ [v.tableStore (v.top root page).directory page f])).Leads root page frame := by
  have hdirectory := linkedAt_directory htop
  have hd := h.frame _ _ hdirectory
  have hroot := h.frame .root root rfl
  have hfFrame := h.loose_frame f hf
  have hbits : ∀ {g : PhysicalAddress}, g.IsFrame → ∀ {n : Nat}, n < 512 →
      (v.apply (v.tableStores f page frame
        ++ [v.tableStore (v.top root page).directory page f])).bitsAt g n
        = if (v.top root page).directory = g ∧ page.pdIndex.val = n then
            entryBits kernelSwitches (some f)
          else (v.apply (v.tableStores f page frame)).bitsAt g n := fun hg _ hn =>
    v.bitsAt_apply_tableStore _ hd hg hfFrame hn
  have hfilled := v.bitsAt_tableStores page hfFrame hframe page.ptIndex.isLt
  have htop' : (v.apply (v.tableStores f page frame
      ++ [v.tableStore (v.top root page).directory page f])).top root page = v.top root page := by
    refine congrArg RootEntry.mk ((hbits hroot (by omega)).trans ?_)
    have hne : (v.top root page).directory ≠ root := fun heq =>
      nomatch h.distinct _ .root _ hdirectory (congrArg some heq.symm)
    rw [if_neg fun hand => hne hand.1]
    refine bitsAt_apply_of_into (v.into_tableStores page frame (List.mem_singleton_self f)) ?_ hroot ?_
      (by omega)
    · exact fun g hg => List.mem_singleton.1 hg ▸ hfFrame
    · exact fun hmem => h.ne_of_loose .root rfl hf (List.mem_singleton.1 hmem)
  refine leads_of_top ?_ (congrArg RootEntry.directory htop') hfFrame ?_ ?_
  · rw [htop']
    exact htop
  · exact (hbits hd page.pdIndex.isLt).trans (if_pos ⟨rfl, rfl⟩)
  · rw [hbits hfFrame page.ptIndex.isLt,
      if_neg fun hand => h.ne_of_loose _ hdirectory hf hand.1, hfilled, if_pos rfl]

/-- A page is put into a new table in a new directory. -/
theorem leads_directoryStores (h : Ledger (v.linkedAt root) loose) (hd : d ∈ loose)
    (hf : f ∈ loose) (hne : d ≠ f) (hframe : frame.IsFrame) :
    (v.apply (v.directoryStores d f page frame
      ++ [v.directoryStore root page d])).Leads root page frame := by
  have hroot := h.frame .root root rfl
  have hdFrame := h.loose_frame d hd
  have hfFrame := h.loose_frame f hf
  have hbits : ∀ {g : PhysicalAddress}, g.IsFrame → ∀ {n : Nat}, n < 512 →
      (v.apply (v.directoryStores d f page frame
        ++ [v.directoryStore root page d])).bitsAt g n
        = if root = g ∧ page.pdptIndex.val = n then entryBits rootSwitches (some d)
          else (v.apply (v.directoryStores d f page frame)).bitsAt g n := fun hg _ hn =>
    v.bitsAt_apply_directoryStore _ hroot hg hdFrame hn
  have htop' : (v.apply (v.directoryStores d f page frame
      ++ [v.directoryStore root page d])).top root page
        = ⟨entryBits rootSwitches (some d)⟩ :=
    congrArg RootEntry.mk ((hbits hroot (by omega)).trans (if_pos ⟨rfl, rfl⟩))
  have hdirectory : (RootEntry.mk (entryBits rootSwitches (some d))).directory = d :=
    rootEntry_directory hdFrame
  refine leads_of_top ?_ ((congrArg RootEntry.directory htop').trans hdirectory) hfFrame ?_ ?_
  · rw [htop', rootEntry_present fun _ h => Option.some.inj h ▸ hdFrame]
    rfl
  · rw [hbits hdFrame page.pdIndex.isLt, if_neg fun hand => h.ne_of_loose .root rfl hd hand.1,
      (v.bitsAt_directoryStores page hdFrame hfFrame hne hframe page.pdIndex.isLt).2, if_pos rfl]
  · rw [hbits hfFrame page.ptIndex.isLt, if_neg fun hand => h.ne_of_loose .root rfl hf hand.1,
      (v.bitsAt_directoryStores page hdFrame hfFrame hne hframe page.ptIndex.isLt).1, if_pos rfl]

/-! ### Addresses in one page -/

theorem top_pageBase (v : PhysicalView) (root : PhysicalAddress) (a : VirtualAddress) :
    v.top root a.pageBase = v.top root a := by
  rw [top, a.pdptIndex_pageBase, top]

theorem middle_pageBase (v : PhysicalView) (root : PhysicalAddress) (a : VirtualAddress) :
    v.middle root a.pageBase = v.middle root a := by
  rw [middle, v.top_pageBase, a.pdIndex_pageBase, middle]

theorem bottom_pageBase (v : PhysicalView) (root : PhysicalAddress) (a : VirtualAddress) :
    v.bottom root a.pageBase = v.bottom root a := by
  rw [bottom, v.middle_pageBase, a.ptIndex_pageBase, bottom]

theorem Leads.of_pageBase (h : v.Leads root a.pageBase frame) : v.Leads root a frame where
  top := v.top_pageBase root a ▸ h.top
  middle := v.middle_pageBase root a ▸ h.middle
  small := v.middle_pageBase root a ▸ h.small
  bottom := (v.bottom_pageBase root a).symm.trans h.bottom

/-- A walk that ends nowhere ends at an entry that is not present, and not at a large page. -/
theorem translate_eq_none_iff : v.translate root a = none ↔
    ((v.top root a).present = true → (v.middle root a).present = true →
      (v.middle root a).largePage = false ∧ (v.bottom root a).present = false) := by
  rw [PhysicalView.translate_eq]
  cases (v.top root a).present <;> cases (v.middle root a).present <;>
    cases (v.middle root a).largePage <;> cases (v.bottom root a).present <;> simp

theorem translate_eq_none_pageBase (h : v.translate root a = none) :
    v.translate root a.pageBase = none := by
  rw [translate_eq_none_iff] at h ⊢
  rwa [v.top_pageBase, v.middle_pageBase, v.bottom_pageBase]

end PhysicalView

namespace Draft

variable {β : Type} {v : PhysicalView} {p p' : Pager β} {page : VirtualAddress}
  {frame : PhysicalAddress} {r : Resolution} {stores : List Memory.Store}

/-- A page that a walk does not find is mapped, and the walk finds it then. -/
theorem Install.leads (h : Install v p page frame (.ok r) p' stores)
    (hledger : Ledger (v.linkedAt p.layout.root) p.loose) (hframe : frame.IsFrame)
    (hmissed : v.translate p.layout.root page = none) :
    (∃ rootChanged, r = .mapped page frame rootChanged)
      ∧ (v.apply stores).Leads p.layout.root page frame := by
  rw [PhysicalView.translate_eq_none_iff] at hmissed
  cases h with
  | directory _ d f absent moved =>
    have hloose : p.loose = d :: f :: p'.loose := moved.loose
    have hnodup := hledger.loose_nodup
    rw [hloose] at hnodup
    have hne : d ≠ f := fun heq => (List.nodup_cons.1 hnodup).1 (heq ▸ List.mem_cons_self)
    refine ⟨⟨true, rfl⟩, PhysicalView.leads_directoryStores hledger ?_ ?_ hne hframe⟩
    · rw [hloose]
      exact List.mem_cons_self
    · rw [hloose]
      exact List.mem_cons_of_mem _ List.mem_cons_self
  | table _ f above absent moved =>
    have hf : f ∈ p.loose := moved.loose ▸ List.mem_cons_self
    exact ⟨⟨false, rfl⟩, PhysicalView.leads_tableStores hledger above hf hframe⟩
  | leaf _ above present absent moved =>
    have hsmall := (hmissed above present).1
    exact ⟨⟨false, rfl⟩, PhysicalView.leads_leafStore hledger above present hsmall hframe⟩
  | already _ above middle present moved =>
    cases present.symm.trans (hmissed above middle).2

/-- A page is put into whatever the directory entry names if the word there does not look present. -/
theorem install_absent {d : Draft β} {m : Memory} (hv : v = ⟨d.pager.window, m⟩)
    (hframe : frame.IsFrame) (htop : (v.top d.pager.layout.root page).present = true)
    (hmiddle : (v.middle d.pager.layout.root page).present = true)
    (hbottom : (v.bottom d.pager.layout.root page).present = false) :
    ∃ p', install m page frame d = (.ok (.ok (.mapped page frame false)),
      ⟨p', d.stores ++ [v.leafStore (v.middle d.pager.layout.root page).frame page frame]⟩) := by
  obtain ⟨r, p', stores, hrun, heffect⟩ := installLeaf_cases hv page frame htop hmiddle
  rw [install_eq hv page hframe, if_pos htop, if_pos hmiddle, hrun]
  cases heffect with
  | leaf _ above present absent moved => exact ⟨p', rfl⟩
  | directory _ d f absent moved => cases absent.symm.trans htop
  | table _ f above absent moved => cases absent.symm.trans hmiddle
  | already _ above middle present moved => cases present.symm.trans hbottom
  | noDirectory _ _ absent short steady into moved => cases absent.symm.trans htop
  | noTable _ above absent short steady moved => cases absent.symm.trans hmiddle

end Draft

namespace Paging

variable {β : Type} {s : Paging β} {a : VirtualAddress}

/-- Tables that spell a tree link just the frames of the tree. -/
theorem Realizes.linkedAt_eq {t : TableTree} (h : s.Realizes t) :
    s.view.linkedAt s.pager.layout.root = t.linked s.pager.layout.root := by
  have hdirectory : ∀ i d, t.directory i = some d → d.IsFrame := fun i =>
    h.ledger.frame (.directory i)
  have htable : ∀ ij f, t.table ij = some f → f.IsFrame := fun ij => h.ledger.frame (.table ij)
  funext σ
  cases σ with
  | root => rfl
  | directory i =>
    rw [PhysicalView.linkedAt, h.spells.rootEntry_eq, rootEntry_present (hdirectory i), linked]
    cases hd : t.directory i with
    | none => rfl
    | some d => exact congrArg some (rootEntry_directory (hdirectory i d hd))
  | table ij =>
    obtain ⟨i, j⟩ := ij
    rw [PhysicalView.linkedAt, h.spells.rootEntry_eq, rootEntry_present (hdirectory i), linked]
    cases hd : t.directory i with
    | none => exact (h.closed.table i j hd).symm
    | some d =>
      rw [rootEntry_directory (hdirectory i d hd), h.spells.directoryEntry_eq hd,
        pageEntry_present (htable (i, j))]
      cases hf : t.table (i, j) with
      | none => rfl
      | some f =>
        have hf := htable (i, j) f hf
        rw [if_pos ⟨rfl, rfl, pageEntry_largePage hf⟩, pageEntry_frame hf]

/-- The address lies in a large page, and the word in it that a fault takes for the entry of the
page does not look present. -/
structure Misread (s : Paging β) (a : VirtualAddress) : Prop where
  large : (s.view.middle s.pager.layout.root a).largePage = true
  absent : (s.view.bottom s.pager.layout.root a).present = false

/-- A walk that ends at a frame comes by two entries, and at a third one unless the page is large. -/
theorem present_of_translate (h : s.translate a ≠ none) :
    (s.view.top s.pager.layout.root a).present = true
      ∧ (s.view.middle s.pager.layout.root a).present = true
      ∧ (¬ s.Misread a → (s.view.bottom s.pager.layout.root a).present = true) := by
  rw [translate, ne_eq, PhysicalView.translate_eq_none_iff] at h
  obtain ⟨htop, h⟩ := Classical.not_imp.1 h
  obtain ⟨hmiddle, hlast⟩ := Classical.not_imp.1 h
  refine ⟨htop, hmiddle, fun hread => ?_⟩
  by_contra habsent
  rw [Bool.not_eq_true] at habsent
  have hsmall : (s.view.middle s.pager.layout.root a).largePage = false :=
    Bool.eq_false_iff.2 fun hlarge => hread ⟨hlarge, habsent⟩
  exact hlast ⟨hsmall, habsent⟩

/-- Tables that spell a tree meet what is asked of tables of any contents. -/
theorem Realizes.ledger_linkedAt {t : TableTree} (h : s.Realizes t) :
    Ledger (s.view.linkedAt s.pager.layout.root) s.pager.loose := by
  rw [h.linkedAt_eq]
  exact h.ledger

/-- They map no large pages, so nothing in them is misread. -/
theorem Realizes.not_misread {t : TableTree} (h : s.Realizes t) (hfound : s.translate a ≠ none) :
    ¬ s.Misread a := by
  obtain ⟨htop, hmiddle, -⟩ := present_of_translate hfound
  obtain ⟨d, hd⟩ := h.exists_directory htop
  obtain ⟨f, hf⟩ := h.exists_table hd hmiddle
  intro hmisread
  have hlarge := hmisread.large
  rw [PhysicalView.middle, h.top_directory hd, h.spells.directoryEntry_eq hd, hf,
    pageEntry_largePage (h.ledger.frame (.table (a.pdptIndex, a.pdIndex)) f hf)] at hlarge
  exact Bool.false_ne_true hlarge

variable [Backing β] {fault : PageFault} {frame : PhysicalAddress} {b : β}

/-- What a fault does once the backing has given a frame. -/
theorem handleFault_asked (hcode : fault.code.present = false)
    (hasked : Backing.frameFor fault.address.pageBase s.pager.backing = (.ok (some frame), b))
    (hframe : frame.IsFrame) : ∃ log, ∀ r d,
      Draft.install s.memory fault.address.pageBase frame
        { pager := { s.pager with backing := b, log } } = (r, d) →
      handleFault fault s = (r, ⟨d.pager, s.memory.apply d.stores⟩) := by
  obtain ⟨log, hrun⟩ := Draft.resolve_asked hcode hasked
    (fun _ h => Option.some.inj h ▸ hframe) s.memory
  exact ⟨log, fun r d h => handleFault_eq fault (hrun.trans h)⟩

/-- Translations and faults agree over tables of any contents, apart from large pages. A fault on an
address that stands for something is answered with the page being mapped already, and memory stays
as it is, unless the large page it lies in is misread: then its page is mapped by a store into the
large page. A fault on an address that stands for nothing is never answered so; if it is answered,
the page is mapped and the address stands for its place in the frame afterwards. -/
theorem handleFault_agrees
    (hledger : Ledger (s.view.linkedAt s.pager.layout.root) s.pager.loose)
    (hstop : s.pager.frames.stop < wordLimit) (hcode : fault.code.present = false)
    (hasked : Backing.frameFor fault.address.pageBase s.pager.backing = (.ok (some frame), b))
    (hframe : frame.IsFrame) :
    (s.translate fault.address ≠ none →
      (¬ s.Misread fault.address → ∃ s',
        handleFault fault s = (.ok (.ok (.alreadyMapped fault.address.pageBase)), s')
          ∧ s'.memory = s.memory)
      ∧ (s.Misread fault.address → ∃ s',
        handleFault fault s = (.ok (.ok (.mapped fault.address.pageBase frame false)), s')
          ∧ s'.memory = s.memory.apply [s.view.leafStore
            (s.view.middle s.pager.layout.root fault.address).frame fault.address.pageBase frame]))
    ∧ (s.translate fault.address = none → ∀ r s', handleFault fault s = (.ok (.ok r), s') →
      (∃ rootChanged, r = .mapped fault.address.pageBase frame rootChanged)
        ∧ s'.translate fault.address
          = some (.ofNat (frame.toNat + fault.address.pageOffset))) := by
  obtain ⟨log, hinstall⟩ := handleFault_asked hcode hasked hframe
  constructor
  · intro hfound
    obtain ⟨htop, hmiddle, hread⟩ := present_of_translate hfound
    rw [← PhysicalView.top_pageBase] at htop
    rw [← PhysicalView.middle_pageBase] at hmiddle
    rw [← PhysicalView.bottom_pageBase] at hread
    constructor
    · intro hplain
      obtain ⟨_, hrun⟩ := Draft.resolve_present hcode hasked
        (fun _ h => Option.some.inj h ▸ hframe) rfl htop hmiddle (hread hplain)
      exact ⟨_, handleFault_eq fault hrun, rfl⟩
    · intro hmisread
      have hbottom := hmisread.absent
      rw [← PhysicalView.bottom_pageBase] at hbottom
      obtain ⟨p', hmapped⟩ := Draft.install_absent
        (d := { pager := { s.pager with backing := b, log } }) rfl hframe htop hmiddle hbottom
      rw [← PhysicalView.middle_pageBase]
      exact ⟨_, hinstall _ _ hmapped, rfl⟩
  · intro hmissed r s' hrun
    have hfit : Pager.Fit { s.pager with backing := b, log } := ⟨hstop, hledger.loose_frame⟩
    rcases Draft.install_cases (d := { pager := { s.pager with backing := b, log } }) hfit s.memory
      fault.address.pageBase hframe with ⟨d', hpanic, -⟩ | ⟨o, p', stores, hmapped, heffect⟩
    · cases (hinstall _ _ hpanic).symm.trans hrun
    · cases (hinstall _ _ hmapped).symm.trans hrun
      obtain ⟨hanswer, hleads⟩ := heffect.leads hledger hframe
        (PhysicalView.translate_eq_none_pageBase hmissed)
      obtain ⟨_, _, hmoved⟩ := heffect.exists_moved
      refine ⟨hanswer, ?_⟩
      rw [translate, view_of_window hmoved.window, hmoved.layout]
      exact hleads.of_pageBase.translate_eq hframe

/-- Tables with one directory, in which one entry maps a large page of zeros. -/
def largePaged : Paging IdentityBacking where
  pager := .sample
  memory := (Memory.filled 0).apply [⟨0x1000, 0x2001⟩, ⟨0x2008, 0x200083⟩]

theorem linkedAt_largePaged {σ : Slot} {f : PhysicalAddress}
    (h : largePaged.view.linkedAt largePaged.pager.layout.root σ = some f) :
    σ = .root ∧ f = .ofNat 0x1000 ∨ σ = .directory 0 ∧ f = .ofNat 0x2000 := by
  have hdirectory : ∀ i : Fin 4, largePaged.view.linkedAt largePaged.pager.layout.root (.directory i)
      = if i = 0 then some (.ofNat 0x2000) else none := by decide +kernel
  have htable : ∀ i : Fin 4, ∀ j : Fin 512,
      largePaged.view.linkedAt largePaged.pager.layout.root (.table (i, j)) = none := by
    decide +kernel
  cases σ with
  | root => exact .inl ⟨rfl, (Option.some.inj h).symm⟩
  | directory i =>
    rw [hdirectory] at h
    split at h
    · rename_i hi
      exact .inr ⟨congrArg Slot.directory hi, (Option.some.inj h).symm⟩
    · cases h
  | table ij =>
    rw [htable ij.1 ij.2] at h
    cases h

theorem ledger_largePaged : Ledger (largePaged.view.linkedAt largePaged.pager.layout.root)
    largePaged.pager.loose where
  frame σ f h := by
    rcases linkedAt_largePaged h with ⟨-, rfl⟩ | ⟨-, rfl⟩ <;> decide
  distinct σ τ f h h' := by
    rcases linkedAt_largePaged h with ⟨rfl, rfl⟩ | ⟨rfl, rfl⟩ <;>
      rcases linkedAt_largePaged h' with ⟨rfl, heq⟩ | ⟨rfl, heq⟩
    · rfl
    · exact absurd heq (by decide)
    · exact absurd heq (by decide)
    · rfl
  loose_frame := by decide
  loose_nodup := by decide
  apart σ f h := by
    rcases linkedAt_largePaged h with ⟨-, rfl⟩ | ⟨-, rfl⟩ <;> decide

/-- A fault in the large page stores into it; one behind it is mapped by a new table. After whatever
faults, one on a page of low memory stores nothing. -/
theorem handleFault_agrees_sample :
    largePaged.translate (.ofNat 0x200123) = some (.ofNat 0x200123)
    ∧ (∃ s', handleFault ⟨.ofNat 0x200123, ⟨0⟩⟩ largePaged
        = (.ok (.ok (.mapped (.ofNat 0x200000) (.ofNat 0x200000) false)), s')
      ∧ s'.memory = largePaged.memory.apply [⟨0x200000, 0x200003⟩])
    ∧ (∀ r s', handleFault ⟨.ofNat 0x400123, ⟨0⟩⟩ largePaged = (.ok (.ok r), s') →
      s'.translate (.ofNat 0x400123) = some (.ofNat 0x400123))
    ∧ ∃ s, initTables ⟨.sample, .filled 0xA5⟩ = (.ok (), s)
      ∧ ∀ faults answers s', handleFaults faults s = (.ok answers, s') →
        ∃ s'', handleFault ⟨.ofNat 0x1234, ⟨0⟩⟩ s'
          = (.ok (.ok (.alreadyMapped (.ofNat 0x1000))), s'') ∧ s''.memory = s'.memory := by
  have hstop : largePaged.pager.frames.stop < wordLimit := by decide
  have hfound : largePaged.translate (.ofNat 0x200123) = some (.ofNat 0x200123) := by
    decide +kernel
  have hmissed : largePaged.translate (.ofNat 0x400123) = none := by decide +kernel
  have hmisread : largePaged.Misread (.ofNat 0x200123) := ⟨by decide +kernel, by decide +kernel⟩
  have hcode : (PageFault.mk (.ofNat 0x200123) ⟨0⟩).code.present = false := rfl
  have hcode' : (PageFault.mk (.ofNat 0x400123) ⟨0⟩).code.present = false := rfl
  have hcode'' : (PageFault.mk (.ofNat 0x1234) ⟨0⟩).code.present = false := rfl
  refine ⟨hfound, ?_, ?_, ?_⟩
  · obtain ⟨hread, -⟩ := handleFault_agrees ledger_largePaged hstop hcode rfl (by decide)
    exact (hread (by rw [hfound]; exact Option.some_ne_none _)).2 hmisread
  · intro r s' hrun
    obtain ⟨-, hmapped⟩ := handleFault_agrees ledger_largePaged hstop hcode' rfl (by decide)
    exact (hmapped hmissed r s' hrun).2
  · obtain ⟨s, hinit, hrefines, -⟩ := @initTables_refines _ (fun _ : IdentityBacking => True) _
      Pager.ready_sample trivial (.filled 0xA5)
    refine ⟨s, hinit, fun faults answers s' hrun => ?_⟩
    obtain ⟨hfollows, -, t, hrealizes, -⟩ := hrefines.follows IdentityBacking.honors hrun
    have hlow : s.translate (.ofNat 0x1234) = some (.ofNat 0x1234) := by
      rw [hrefines.translate_eq]
      decide
    have hkept : s'.translate (.ofNat 0x1234) ≠ none := by
      rw [hfollows.kept _ _ hlow]
      exact Option.some_ne_none _
    obtain ⟨hread, -⟩ := handleFault_agrees hrealizes.ledger_linkedAt hrealizes.stop hcode'' rfl
      (by decide)
    exact (hread hkept).1 (hrealizes.not_misread hkept)

end Paging

end PaeKernel
