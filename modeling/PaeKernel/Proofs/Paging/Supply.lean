import PaeKernel.Proofs.Paging.Levels

/-!
# Faults with frames enough

A fault needs a frame for every level that is missing above its page. If that many are left the page
is mapped (`Paging.Realizes.handleFault_supplied`), and a fault that succeeds has used just that many
(`Paging.Settled.handleFault_spent`). No overflow of the frame source comes in here: a source that
has a frame left hands it out.
-/

namespace PaeKernel

/-- Every page gets its frame, as often as it is asked for and whatever was asked before. -/
def Backing.Serves {β : Type} [Backing β] (Good : β → Prop)
    (frame : VirtualAddress → PhysicalAddress) : Prop :=
  ∀ b page, Good b → ∃ b', Backing.frameFor page b = (.ok (some (frame page)), b') ∧ Good b'
    ∧ (frame page).IsFrame

theorem Backing.Serves.honors {β : Type} [Backing β] {Good : β → Prop}
    {frame : VirtualAddress → PhysicalAddress} (h : Serves Good frame) : Honors Good := by
  intro b page hgood
  obtain ⟨b', hasked, hgood', hframe⟩ := h b page hgood
  exact ⟨_, b', hasked, hgood', fun f hf => Option.some.inj hf ▸ hframe⟩

theorem IdentityBacking.serves :
    Backing.Serves (fun _ : IdentityBacking => True) fun page => page.pageBase.identity := by
  intro b page hgood
  obtain ⟨o, b', hasked, -, hframe⟩ := IdentityBacking.honors b page hgood
  obtain ⟨⟨⟩, rfl⟩ := Prod.mk.inj hasked
  exact ⟨b, rfl, trivial, hframe _ rfl⟩

namespace Draft

variable {β : Type} {m : Memory} {d : Draft β} {page : VirtualAddress} {frame : PhysicalAddress}

/-! ### Mapping a page -/

theorem newTable_supplied (hfit : d.pager.Fit) (hroom : d.pager.loose ≠ []) (page : VirtualAddress) :
    ∃ f p', newTable page d
        = (.ok (some f), ⟨p', d.stores ++ Table.zeroStores (d.pager.window + f.toNat)⟩)
      ∧ d.pager.Moved p' [f] 0 ∧ p'.spare = none := by
  rcases newTable_cases hfit page with htaken | ⟨hnil, -⟩ | ⟨hnil, -⟩
  · exact htaken
  · exact absurd hnil hroom
  · exact absurd hnil hroom

theorem installLeaf_supplied (m : Memory) (table : PhysicalAddress) (page : VirtualAddress)
    (frame : PhysicalAddress) (leaf : PageEntry) (d : Draft β) :
    ∃ r d', installLeaf m table page frame leaf d = (.ok (.ok r), d')
      ∧ d'.pager.spare = d.pager.spare := by
  rw [installLeaf, Exec.bind_of_ok (place_apply _ _)]
  split <;> exact ⟨_, _, rfl, rfl⟩

theorem installTable_supplied (hfit : d.pager.Fit) (hroom : d.pager.loose ≠ [])
    (directory : PhysicalAddress) (page : VirtualAddress) (frame : PhysicalAddress) :
    ∃ r d', installTable directory page frame ⟨entryBits kernelSwitches (some frame)⟩ d
        = (.ok (.ok r), d') ∧ d'.pager.spare = none := by
  obtain ⟨f, p', hrun, hmoved, hspare⟩ := newTable_supplied hfit hroom page
  have hf : f.IsFrame := hfit.frame f (hmoved.loose ▸ List.mem_cons_self)
  rw [installTable, Exec.bind_of_ok hrun]
  dsimp only
  rw [Exec.bind_of_ok (linkTable_eq hf directory frame page _ ⟨p'.window, .filled 0⟩ rfl)]
  exact ⟨_, _, rfl, hspare⟩

theorem installDirectory_supplied (hfit : d.pager.Fit) (hroom : 2 ≤ d.pager.loose.length)
    (page : VirtualAddress) (frame : PhysicalAddress) :
    ∃ r d', installDirectory page frame ⟨entryBits kernelSwitches (some frame)⟩ d
        = (.ok (.ok r), d') ∧ d'.pager.spare = none := by
  obtain ⟨dir, p₁, hrun₁, hmoved₁, -⟩ :=
    newTable_supplied hfit (List.ne_nil_of_length_pos (Nat.zero_lt_of_lt hroom)) page
  have hdir : dir.IsFrame := hfit.frame dir (hmoved₁.loose ▸ List.mem_cons_self)
  rw [hmoved₁.loose] at hroom
  obtain ⟨f, p₂, hrun₂, hmoved₂, hspare⟩ := newTable_supplied
    (d := ⟨p₁, d.stores ++ Table.zeroStores (d.pager.window + dir.toNat)⟩) (hmoved₁.fit hfit)
    (List.ne_nil_of_length_pos (Nat.lt_of_succ_lt_succ hroom)) page
  have hf : f.IsFrame := (hmoved₁.fit hfit).frame f (hmoved₂.loose ▸ List.mem_cons_self)
  rw [installDirectory, Exec.bind_of_ok hrun₁]
  dsimp only
  rw [Exec.bind_of_ok hrun₂]
  dsimp only
  rw [Exec.bind_of_ok (linkTable_eq hf dir frame page _ ⟨p₂.window, .filled 0⟩ rfl),
    ofDirectory_eq hdir, Exec.bind_of_ok (Exec.check_apply _ _)]
  exact ⟨_, _, rfl, hspare⟩

/-- Mapping a page comes to an answer and keeps no frame back if there are frames for the levels that
are missing. -/
theorem install_supplied (hfit : d.pager.Fit) (hspare : d.pager.spare = none) {v : PhysicalView}
    (hv : v = ⟨d.pager.window, m⟩) (page : VirtualAddress) (hframe : frame.IsFrame)
    (hdirectory : (v.top d.pager.layout.root page).present = false → 2 ≤ d.pager.loose.length)
    (htable : (v.top d.pager.layout.root page).present = true →
      (v.middle d.pager.layout.root page).present = false → d.pager.loose ≠ []) :
    ∃ r d', install m page frame d = (.ok (.ok r), d') ∧ d'.pager.spare = none := by
  rw [install_eq hv page hframe]
  cases habove : (v.top d.pager.layout.root page).present with
  | false =>
    rw [if_neg Bool.false_ne_true]
    exact installDirectory_supplied hfit (hdirectory habove) page frame
  | true =>
    rw [if_pos rfl]
    cases hpresent : (v.middle d.pager.layout.root page).present with
    | false =>
      rw [if_neg Bool.false_ne_true]
      exact installTable_supplied hfit (htable habove hpresent) _ page frame
    | true =>
      rw [if_pos rfl]
      obtain ⟨r, d', hrun, hsame⟩ := installLeaf_supplied m
        (v.middle d.pager.layout.root page).frame page frame _ d
      exact ⟨r, d', hrun, hsame.trans hspare⟩

/-! ### Resolving a fault -/

variable [Backing β] {Good : β → Prop} {served : VirtualAddress → PhysicalAddress}
  {v : PhysicalView} {p p' : Pager β} {fault : PageFault} {stores : List Memory.Store}

/-- A fault that succeeds maps its page to the frame the backing has for it, or maps nothing. -/
theorem Resolve.counted {r : Resolution} (hb : Backing.Serves Good served) (hgood : Good p.backing)
    (h : Resolve v p fault (.ok r) p' stores) :
    (∃ rootChanged, r = .mapped fault.address.pageBase (served fault.address.pageBase) rootChanged
      ∧ p'.installed = p.installed + 1)
    ∨ r = .alreadyMapped fault.address.pageBase ∧ p'.installed = p.installed := by
  cases h with
  | backed q _ frame _ _ code isFrame asked install =>
    obtain ⟨b', hserved, -, -⟩ := hb p.backing fault.address.pageBase hgood
    obtain rfl : served fault.address.pageBase = frame :=
      Option.some.inj (Except.ok.inj (congrArg Prod.fst (hserved.symm.trans asked.answer)))
    have hinstalled : q.installed = p.installed := asked.moved.installed
    cases install with
    | directory _ _ _ _ moved | table _ _ _ _ moved | leaf _ _ _ _ moved =>
      exact .inl ⟨_, rfl, hinstalled ▸ moved.installed⟩
    | already _ _ _ _ moved => exact .inr ⟨rfl, hinstalled ▸ moved.installed⟩

end Draft

namespace Paging

open TableTree

variable {β : Type} [Backing β] {Good : β → Prop} {served : VirtualAddress → PhysicalAddress}
  {s s' : Paging β} {t : TableTree} {fault : PageFault}

/-- A fault succeeds if there are frames for the levels that are missing. -/
theorem Realizes.handleFault_supplied (hb : Backing.Serves Good served) (h : s.Realizes t)
    (hgood : Good s.pager.backing) (hspare : s.pager.spare = none)
    (hcode : fault.code.present = false)
    (hroom : t.framesFor [fault.address.pageBase] ≤ s.pager.loose.length) :
    ∃ r s', handleFault fault s = (.ok (.ok r), s') ∧ s'.pager.spare = none := by
  obtain ⟨b', hserved, -, hframe⟩ := hb s.pager.backing fault.address.pageBase hgood
  obtain ⟨log, hasked⟩ := Draft.resolve_asked hcode hserved (fun f hf => Option.some.inj hf ▸ hframe)
    s.memory
  have hfit : Pager.Fit { s.pager with backing := b', log } := ⟨h.stop, h.ledger.loose_frame⟩
  generalize fault.address.pageBase = page at *
  rw [framesFor_singleton] at hroom
  have hdirectory : (s.view.top s.pager.layout.root page).present = false →
      2 ≤ s.pager.loose.length := by
    intro habsent
    have hnone := h.directory_eq_none habsent
    rwa [if_pos hnone, if_pos (h.closed.table _ _ hnone)] at hroom
  have htable : (s.view.top s.pager.layout.root page).present = true →
      (s.view.middle s.pager.layout.root page).present = false → s.pager.loose ≠ [] := by
    intro habove habsent hnil
    obtain ⟨d, hd⟩ := h.exists_directory habove
    rw [if_pos (h.table_eq_none hd habsent), hnil, List.length_nil] at hroom
    omega
  obtain ⟨r, ⟨p', stores⟩, hrun, hspare'⟩ := Draft.install_supplied
    (d := { pager := { s.pager with backing := b', log } }) hfit hspare rfl page hframe hdirectory
    htable
  exact ⟨r, _, handleFault_eq fault (hasked.trans hrun), hspare'⟩

/-- A pager that has served every fault so far: its tables spell the tree, the tree has the pages of
the map, and no frame is kept back. -/
structure Settled (Good : β → Prop) (s : Paging β) (t : TableTree) (map : PageMap) : Prop where
  realizes : s.Realizes t
  agrees : t.Agrees map
  good : Good s.pager.backing
  spare : s.pager.spare = none

/-- What mapping these pages took. -/
structure Spent (s : Paging β) (t : TableTree) (map : PageMap) (pages : List VirtualAddress)
    (s' : Paging β) (t' : TableTree) : Prop where
  levels : t.Extends pages t'
  frames : s'.pager.frames.remaining + t.framesFor pages = s.pager.frames.remaining
  installed : s'.pager.installed = s.pager.installed + map.unmapped pages

omit [Backing β] in
theorem Settled.length_loose {map : PageMap} (h : s.Settled Good t map) :
    s.pager.loose.length = s.pager.frames.remaining := by
  rw [Pager.loose, h.spare, ← FrameSource.length_pending]
  rfl

/-- A fault that succeeds maps its page and takes the frames it needs. -/
theorem Settled.handleFault_spent (hb : Backing.Serves Good served) {map : PageMap}
    (h : s.Settled Good t map) (hcode : fault.code.present = false) {r : Resolution}
    (hrun : handleFault fault s = (.ok (.ok r), s')) :
    ∃ t', s'.Settled Good t' (map.filled served [fault.address.pageBase])
      ∧ s.Spent t map [fault.address.pageBase] s' t' := by
  rcases h.realizes.handleFault_outcome hb.honors h.good fault with
    ⟨_, hpanic, -⟩ | ⟨answer, p', hanswer, hresolve, hgood⟩
  · cases hrun.symm.trans hpanic
  obtain ⟨hr, rfl⟩ := Prod.mk.inj (hrun.symm.trans hanswer)
  obtain rfl := Except.ok.inj hr
  obtain ⟨t', taken, n, hrealizes, hgrows, hmoved⟩ := h.realizes.resolve hresolve
  have hcounted := hresolve.counted hb h.good
  have hclosed := h.realizes.closed
  have htaken := hgrows.length_taken hclosed
  have hloose : s.pager.loose.length = taken.length + p'.loose.length := by
    rw [← List.length_append]
    exact congrArg List.length hmoved.loose
  -- the frames taken were there, so the fault kept none back
  obtain ⟨_, _, hrun', hspare⟩ := h.realizes.handleFault_supplied hb h.good h.spare hcode (by omega)
  obtain ⟨-, rfl⟩ := Prod.mk.inj (hrun.symm.trans hrun')
  obtain ⟨haccepts, hagrees⟩ := (hgrows.answers hclosed).agrees h.agrees hrealizes.leaf
  have hsettled : Settled Good ⟨p', s.memory.apply (s.faultStores fault)⟩ t'
      (map.filled served [fault.address.pageBase]) := by
    rw [← haccepts.after_eq_filled (hcounted.imp (fun ⟨rootChanged, hr, _⟩ => ⟨rootChanged, hr⟩)
      And.left)]
    exact ⟨hrealizes, hagrees, hgood, hspare⟩
  refine ⟨t', hsettled, hgrows.extends hclosed, ?_, ?_⟩
  · have hbefore := h.length_loose
    have hafter : p'.loose.length = p'.frames.remaining := hsettled.length_loose
    show p'.frames.remaining + _ = _
    omega
  · rcases hcounted with ⟨_, rfl, hcount⟩ | ⟨rfl, hcount⟩
    · rw [PageMap.unmapped_singleton, if_pos haccepts.2.1]
      exact hcount
    · rw [PageMap.unmapped_singleton, if_neg haccepts.2]
      exact hcount

end Paging

end PaeKernel
