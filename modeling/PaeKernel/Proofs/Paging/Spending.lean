import Mathlib.Data.List.Forall2
import Mathlib.Data.List.ReduceOption
import PaeKernel.Proofs.Paging.Refinement

/-!
# What faults take from the backing

A fault asks the backing for a frame before it looks at the tables. The frame comes to nothing if the
page turns out to be mapped already or the tables for it cannot be made (`loses`). Over a run the
frames taken are therefore those of the mapped pages just as long as no such answer is given
(`faults_spend`).
-/

namespace PaeKernel

/-! ### The frames behind answers -/

/-- The frame that an answer reports as mapped. -/
def mappedFrame? : Except FaultError Resolution → Option PhysicalAddress
  | .ok (.mapped _ frame _) => some frame
  | .ok (.alreadyMapped _) => none
  | .error _ => none

/-- Whether a fault took a frame from the backing and mapped nothing to it. -/
def loses : Except FaultError Resolution → Bool
  | .ok (.mapped _ _ _) => false
  | .ok (.alreadyMapped _) => true
  | .error (.outOfTables _) => true
  | .error (.noBackingFrame _) => false
  | .error (.protectionViolation _ _) => false

/-- What an answer costs the backing. -/
inductive Costs : Except FaultError Resolution → Option PhysicalAddress → Prop
  | mapped (page : VirtualAddress) (frame : PhysicalAddress) (rootChanged : Bool) :
    Costs (.ok (.mapped page frame rootChanged)) (some frame)
  | already (page : VirtualAddress) (lost : PhysicalAddress) :
    Costs (.ok (.alreadyMapped page)) (some lost)
  | outOfTables (page : VirtualAddress) (lost : PhysicalAddress) :
    Costs (.error (.outOfTables page)) (some lost)
  | unbacked (page : VirtualAddress) : Costs (.error (.noBackingFrame page)) none
  | violation (address : VirtualAddress) (code : FaultCode) :
    Costs (.error (.protectionViolation address code)) none

section Costs

variable {answers : List (Except FaultError Resolution)} {drawn : List (Option PhysicalAddress)}

/-- Frames are mapped in the order in which they are taken. -/
theorem Costs.sublist (h : List.Forall₂ Costs answers drawn) :
    (answers.filterMap mappedFrame?).Sublist drawn.reduceOption := by
  induction h with
  | nil => exact List.Sublist.refl _
  | cons hcosts _ ih =>
    cases hcosts with
    | mapped page frame rootChanged => exact ih.cons_cons frame
    | already page lost | outOfTables page lost => exact ih.cons lost
    | unbacked | violation => exact ih

theorem Costs.length_eq (h : List.Forall₂ Costs answers drawn) :
    drawn.reduceOption.length
      = (answers.filterMap mappedFrame?).length + answers.countP loses := by
  induction h with
  | nil => rfl
  | cons hcosts _ ih =>
    cases hcosts <;>
      simp only [List.filterMap_cons, List.countP_cons, List.length_cons, mappedFrame?, loses,
        List.reduceOption_cons_of_some, List.reduceOption_cons_of_none, if_true,
        Bool.false_eq_true, if_false, ih] <;>
      omega

/-- The frames taken are those of the mapped pages just as long as none is lost. -/
theorem Costs.eq_iff (h : List.Forall₂ Costs answers drawn) :
    drawn.reduceOption = answers.filterMap mappedFrame?
      ↔ ∀ answer ∈ answers, loses answer = false := by
  have hcount : answers.countP loses = 0 ↔ ∀ answer ∈ answers, loses answer = false := by
    simp only [List.countP_eq_zero, Bool.not_eq_true]
  have hlength := Costs.length_eq h
  rw [← hcount]
  constructor
  · intro heq
    rw [heq] at hlength
    omega
  · intro hnone
    exact ((Costs.sublist h).eq_of_length (by omega)).symm

end Costs

/-- What a fault takes from the backing: nothing if the page was there, or else what the backing has
for the page. -/
def drawFrame {β : Type} [Backing β] (fault : PageFault) : Exec β (Option PhysicalAddress) :=
  if fault.code.present then return none else Backing.frameFor fault.address.pageBase

/-- What faults take from the backing one after another. -/
def drawFrames {β : Type} [Backing β] : List PageFault → Exec β (List (Option PhysicalAddress))
  | [] => return []
  | fault :: rest => do
    let frame ← drawFrame fault
    return frame :: (← drawFrames rest)

/-- The answer to a fault on a page that is mapped already, by what the backing has for it. -/
def repeated (page : VirtualAddress) : Option PhysicalAddress → Except FaultError Resolution
  | some _ => .ok (.alreadyMapped page)
  | none => .error (.noBackingFrame page)

/-! ### One draft -/

namespace Draft

variable {β : Type} {v : PhysicalView} {p p' : Pager β} {r : Except FaultError Resolution}
  {stores : List Memory.Store}

theorem Install.costs {page : VirtualAddress} {frame : PhysicalAddress}
    (h : Install v p page frame r p' stores) : Costs r (some frame) := by
  cases h with
  | directory | table | leaf => exact .mapped page frame _
  | already => exact .already page frame
  | noDirectory | noTable => exact .outOfTables page frame

variable [Backing β] {fault : PageFault}

theorem Resolve.costs (h : Resolve v p fault r p' stores) :
    ∃ o, drawFrame fault p.backing = (.ok o, p'.backing) ∧ Costs r o := by
  cases h with
  | violation _ code moved =>
    refine ⟨none, ?_, .violation fault.address fault.code⟩
    rw [drawFrame, if_pos code, moved.backing]
    rfl
  | unbacked _ code asked =>
    refine ⟨none, ?_, .unbacked fault.address.pageBase⟩
    rw [drawFrame, if_neg (code ▸ Bool.false_ne_true), asked.answer]
  | backed q _ frame _ _ code _ asked install =>
    obtain ⟨_, _, hmoved⟩ := install.exists_moved
    refine ⟨some frame, ?_, install.costs⟩
    rw [drawFrame, if_neg (code ▸ Bool.false_ne_true), asked.answer, hmoved.backing]

/-- A draft for a page that is mapped already asks the backing and does nothing else. -/
theorem resolve_present {m : Memory} {o : Option PhysicalAddress} {b : β}
    (hcode : fault.code.present = false)
    (hasked : Backing.frameFor fault.address.pageBase p.backing = (.ok o, b))
    (hframe : ∀ f, o = some f → f.IsFrame) (hv : v = ⟨p.window, m⟩)
    (htop : (v.top p.layout.root fault.address.pageBase).present = true)
    (hmiddle : (v.middle p.layout.root fault.address.pageBase).present = true)
    (hbottom : (v.bottom p.layout.root fault.address.pageBase).present = true) :
    ∃ log, resolve m fault { pager := p }
      = (.ok (repeated fault.address.pageBase o), { pager := { p with backing := b, log } }) := by
  obtain ⟨log, hrun⟩ := resolve_asked hcode hasked hframe m
  rw [hrun]
  cases o with
  | none => exact ⟨log, rfl⟩
  | some frame =>
    dsimp only
    rw [install_eq hv _ (hframe frame rfl), if_pos htop, if_pos hmiddle]
    exact installLeaf_present (d := { pager := { p with backing := b, log } }) hv _ frame _ hbottom

end Draft

/-! ### Runs -/

namespace Paging

open TableTree

variable {β : Type} {s s' : Paging β} {t : TableTree} {map : PageMap}

/-- All levels down to a mapped page are there. -/
theorem Realizes.present_of_mapped {page : VirtualAddress} (h : s.Realizes t)
    (hmapped : t.leaf page.indices ≠ none) :
    (s.view.top s.pager.layout.root page).present = true
      ∧ (s.view.middle s.pager.layout.root page).present = true
      ∧ (s.view.bottom s.pager.layout.root page).present = true := by
  have htable := mt (h.closed.leaf page.pdptIndex page.pdIndex page.ptIndex) hmapped
  have hdirectory := mt (h.closed.table page.pdptIndex page.pdIndex) htable
  obtain ⟨f, hf⟩ := Option.ne_none_iff_exists'.1 htable
  obtain ⟨d, hd⟩ := Option.ne_none_iff_exists'.1 hdirectory
  rw [h.top_present, h.middle_present hd, h.bottom_present hd hf]
  simp only [Option.isSome_iff_ne_none]
  exact ⟨hdirectory, htable, hmapped⟩

variable [Backing β] {Good : β → Prop}

/-- What faults and their answers say about the backing before and after them. -/
structure Spends (s : Paging β) (faults : List PageFault)
    (answers : List (Except FaultError Resolution)) (s' : Paging β)
    (drawn : List (Option PhysicalAddress)) : Prop where
  backing : drawFrames faults s.pager.backing = (.ok drawn, s'.pager.backing)
  costs : List.Forall₂ Costs answers drawn
  sublist : (answers.filterMap mappedFrame?).Sublist drawn.reduceOption
  lossless_iff : drawn.reduceOption = answers.filterMap mappedFrame?
    ↔ ∀ answer ∈ answers, loses answer = false

theorem Refines.exists_costs (hb : Backing.Honors Good) (h : s.Refines Good map)
    {faults : List PageFault} {answers : List (Except FaultError Resolution)}
    (hrun : handleFaults faults s = (.ok answers, s')) :
    ∃ drawn, drawFrames faults s.pager.backing = (.ok drawn, s'.pager.backing)
      ∧ List.Forall₂ Costs answers drawn := by
  induction faults generalizing s map answers with
  | nil =>
    cases hrun
    exact ⟨[], rfl, .nil⟩
  | cons fault rest ih =>
    obtain ⟨answer, s₁, hfirst, hrun⟩ := Exec.bind_eq_ok_iff.1 hrun
    obtain ⟨more, s₂, hrest, hrun⟩ := Exec.bind_eq_ok_iff.1 hrun
    cases hrun
    -- the same fault twice: what it leaves to go on with, and what it took from the backing
    obtain ⟨hgood, t, hrealizes, _⟩ := id h
    rcases handleFault_refines hb h fault with
      ⟨_, e, hpanic⟩ | ⟨_, _, hsame, _, hrefines, _⟩
    · rw [hfirst] at hpanic
      cases hpanic
    cases hfirst.symm.trans hsame
    rcases hrealizes.handleFault_outcome hb hgood fault with
      ⟨_, hpanic, _⟩ | ⟨_, _, hanswer, hresolve, _⟩
    · cases hfirst.symm.trans hpanic
    cases hfirst.symm.trans hanswer
    obtain ⟨o, hdraw, hcosts⟩ := hresolve.costs
    obtain ⟨drawn, hdraws, hall⟩ := ih hrefines hrest
    refine ⟨o :: drawn, ?_, .cons hcosts hall⟩
    rw [drawFrames, Exec.bind_of_ok hdraw, Exec.bind_of_ok hdraws]
    rfl

theorem Refines.exists_spends (hb : Backing.Honors Good) (h : s.Refines Good map)
    {faults : List PageFault} {answers : List (Except FaultError Resolution)}
    (hrun : handleFaults faults s = (.ok answers, s')) :
    ∃ drawn, s.Spends faults answers s' drawn := by
  obtain ⟨drawn, hdraws, hcosts⟩ := h.exists_costs hb hrun
  exact ⟨drawn, hdraws, hcosts, Costs.sublist hcosts, Costs.eq_iff hcosts⟩

/-- A fault on a page that is mapped already changes nothing but the backing and the log. -/
theorem Refines.handleFault_repeated (hb : Backing.Honors Good) (h : s.Refines Good map)
    {fault : PageFault} (hcode : fault.code.present = false)
    (hmapped : s.translate fault.address ≠ none) :
    ∃ o b log, Backing.frameFor fault.address.pageBase s.pager.backing = (.ok o, b)
      ∧ handleFault fault s = (.ok (repeated fault.address.pageBase o),
        ⟨{ s.pager with backing := b, log }, s.memory⟩) := by
  obtain ⟨hgood, t, hrealizes, _⟩ := h
  obtain ⟨o, b, hasked, _, hframe⟩ := hb s.pager.backing fault.address.pageBase hgood
  have hleaf : t.leaf fault.address.pageBase.indices ≠ none := by
    intro hnone
    rw [hrealizes.translate_eq, PageMap.translate, TableTree.pages, hnone] at hmapped
    exact hmapped rfl
  obtain ⟨htop, hmiddle, hbottom⟩ := hrealizes.present_of_mapped hleaf
  obtain ⟨log, hrun⟩ := Draft.resolve_present hcode hasked hframe rfl htop hmiddle hbottom
  exact ⟨o, b, log, hasked, handleFault_eq fault hrun⟩

/-- Over every run the backing is asked once for each fault on a page that is not there. It loses a
frame to each page that is found mapped already and to each page that no tables can be made for, and
to no other. A fault on a mapped page changes only the backing and the log, and if the backing has
nothing left it is not even seen that the page is mapped. -/
theorem faults_spend (hb : Backing.Honors Good) {p : Pager β} (hp : p.Ready)
    (hgood : Good p.backing) (m : Memory) : ∃ s, initTables ⟨p, m⟩ = (.ok (), s)
    ∧ ∀ faults answers s', handleFaults faults s = (.ok answers, s') →
      (∃ drawn, s.Spends faults answers s' drawn)
      ∧ ∀ fault, fault.code.present = false → s'.translate fault.address ≠ none →
        ∃ o b log, Backing.frameFor fault.address.pageBase s'.pager.backing = (.ok o, b)
          ∧ handleFault fault s' = (.ok (repeated fault.address.pageBase o),
            ⟨{ s'.pager with backing := b, log }, s'.memory⟩) := by
  obtain ⟨s, hinit, hrefines, -⟩ := initTables_refines hp hgood m
  refine ⟨s, hinit, ?_⟩
  intro faults answers s' hrun
  refine ⟨hrefines.exists_spends hb hrun, ?_⟩
  intro fault hcode hmapped
  exact (hrefines.follows hb hrun).2.handleFault_repeated hb hcode hmapped

end Paging

/-- The pager the kernel starts with, and two frames behind the pages to come. -/
def Pager.frugal : Pager ListBacking where
  layout := .boot
  frames := Pager.sample.frames
  backing := ⟨[.ofNat 0x200000, .ofNat 0x201000]⟩

theorem Pager.ready_frugal : Pager.frugal.Ready :=
  have h := Pager.ready_sample
  ⟨h.stop, h.root, h.directory, h.table, h.loose, h.nodup⟩

namespace Paging

/-- The page at 0x1000 is mapped from the start, and a fault on it loses the first frame. -/
theorem faults_spend_sample : ∃ s s', initTables ⟨.frugal, .filled 0xA5⟩ = (.ok (), s)
    ∧ handleFaults [⟨.ofNat 0x1234, ⟨0⟩⟩] s = (.ok [.ok (.alreadyMapped (.ofNat 0x1000))], s')
    ∧ s'.memory = s.memory ∧ s'.pager.backing = ⟨[.ofNat 0x201000]⟩
    ∧ s.Spends [⟨.ofNat 0x1234, ⟨0⟩⟩] [.ok (.alreadyMapped (.ofNat 0x1000))] s'
      [some (.ofNat 0x200000)] := by
  have hgood : ∀ f ∈ Pager.frugal.backing.frames, f.IsFrame := by decide
  obtain ⟨s, hinit, hfaults⟩ := faults_spend ListBacking.honors Pager.ready_frugal hgood
    (.filled 0xA5)
  obtain ⟨_, hinit', hrealizes, hbacking, -⟩ := initTables_realizes Pager.ready_frugal (.filled 0xA5)
  cases hinit.symm.trans hinit'
  have hmapped : s.translate (.ofNat 0x1234) ≠ none := by
    rw [hrealizes.translate_eq]
    decide
  obtain ⟨o, b, log, hasked, hrun⟩ := (hfaults [] [] s rfl).2 ⟨.ofNat 0x1234, ⟨0⟩⟩ rfl hmapped
  rw [hbacking] at hasked
  cases hasked
  generalize hs' : Paging.mk _ s.memory = s' at hrun
  have hruns : handleFaults [⟨.ofNat 0x1234, ⟨0⟩⟩] s
      = (.ok [.ok (.alreadyMapped (.ofNat 0x1000))], s') := by
    rw [handleFaults, Exec.bind_of_ok hrun]
    rfl
  obtain ⟨⟨drawn, hspends⟩, -⟩ := hfaults _ _ _ hruns
  have hdrawn := hspends.backing
  rw [hbacking] at hdrawn
  obtain rfl : [some (.ofNat 0x200000)] = drawn := Except.ok.inj (congrArg Prod.fst hdrawn)
  exact ⟨s, s', hinit, hruns, hs' ▸ rfl, hs' ▸ rfl, hspends⟩

end Paging

end PaeKernel
