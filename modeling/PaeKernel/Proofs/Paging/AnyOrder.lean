import PaeKernel.Proofs.Paging.Supply

/-!
# The order of faults

Which frame becomes which table depends on the order of the faults, but what they map and how many
frames they take does not. `faults_in_any_order` gives the exact number of frames that a list of
faults takes; with that many left, every order of the faults succeeds and comes to the same map and
the same counters.
-/

namespace PaeKernel

/-- A pager that has mapped no page and keeps no frame back. -/
structure Pager.Fresh {β : Type} (p : Pager β) : Prop extends p.Ready where
  spare : p.spare = none
  installed : p.installed = 0

/-- The frames that faults take once the first tables are built: one for each directory they need but
the first, and one for each table but the first. -/
def framesTaken (faults : List PageFault) : Nat :=
  ((faults.map (·.address.pdptIndex)).toFinset.filter fun i => ¬ i.val = 0).card
    + ((faults.map fun fault => (fault.address.pdptIndex, fault.address.pdIndex)).toFinset.filter
      fun ij => ¬ (ij.1.val = 0 ∧ ij.2.val = 0)).card

/-- How many pages faults are about, apart from the first pages, which are mapped to themselves. -/
def pagesMapped (identityPages : Nat) (faults : List PageFault) : Nat :=
  ((faults.map (·.address.pageBase)).toFinset.filter fun page =>
    ¬ page.toNat / 4096 < min identityPages tableEntries).card

theorem framesTaken_eq (l : TableLayout) (faults : List PageFault) :
    framesTaken faults = (TableTree.first l).framesFor (faults.map (·.address.pageBase)) := by
  simp only [framesTaken, TableTree.framesFor, vacant, List.map_map, Function.comp_def,
    VirtualAddress.pdptIndex_pageBase, VirtualAddress.pdIndex_pageBase, TableTree.first,
    ite_eq_right_iff, reduceCtorEq, imp_false]

theorem pagesMapped_eq (identityPages : Nat) (faults : List PageFault) :
    pagesMapped identityPages faults
      = (PageMap.identity identityPages).unmapped (faults.map (·.address.pageBase)) := by
  simp only [pagesMapped, PageMap.unmapped, vacant, PageMap.identity, ite_eq_right_iff,
    reduceCtorEq, imp_false]

namespace Paging

open TableTree

variable {β : Type} {Good : β → Prop} {served : VirtualAddress → PhysicalAddress}
  {s s' : Paging β} {t t' : TableTree} {map : PageMap} {faults : List PageFault}

/-! ### Runs -/

theorem Spent.refl (s : Paging β) (t : TableTree) (map : PageMap) : s.Spent t map [] s t :=
  ⟨.refl t, rfl, rfl⟩

theorem Spent.append {s₁ : Paging β} {t₁ : TableTree} {first second : List VirtualAddress}
    (h : s.Spent t map first s₁ t₁) (h' : s₁.Spent t₁ (map.filled served first) second s' t') :
    s.Spent t map (first ++ second) s' t' where
  levels := h.levels.append h'.levels
  frames := by
    rw [t.framesFor_append h.levels, ← h.frames, ← h'.frames]
    omega
  installed := by
    rw [h'.installed, h.installed, map.unmapped_append served, Nat.add_assoc]

variable [Backing β]

/-- Faults that all succeed map their pages and take the frames these need. -/
theorem Settled.handleFaults_spent (hb : Backing.Serves Good served) (h : s.Settled Good t map)
    (hcodes : ∀ fault ∈ faults, fault.code.present = false)
    {answers : List (Except FaultError Resolution)}
    (hrun : handleFaults faults s = (.ok answers, s'))
    (hall : ∀ answer ∈ answers, ∃ r, answer = .ok r) :
    ∃ t', s'.Settled Good t' (map.filled served (faults.map (·.address.pageBase)))
      ∧ s.Spent t map (faults.map (·.address.pageBase)) s' t' := by
  induction faults generalizing s t map answers with
  | nil =>
    cases hrun
    refine ⟨t, ?_, .refl _ t map⟩
    rwa [List.map_nil, PageMap.filled_nil]
  | cons fault rest ih =>
    obtain ⟨hcode, hcodes⟩ := List.forall_mem_cons.1 hcodes
    obtain ⟨answer, s₁, hfirst, hrun⟩ := Exec.bind_eq_ok_iff.1 hrun
    obtain ⟨more, s₂, hrest, hrun⟩ := Exec.bind_eq_ok_iff.1 hrun
    cases hrun
    obtain ⟨⟨r, rfl⟩, hmore⟩ := List.forall_mem_cons.1 hall
    obtain ⟨t₁, hsettled₁, hspent₁⟩ := h.handleFault_spent hb hcode hfirst
    obtain ⟨t₂, hsettled₂, hspent₂⟩ := ih hsettled₁ hcodes hrest hmore
    rw [← PageMap.filled_append] at hsettled₂
    exact ⟨t₂, hsettled₂, hspent₁.append hspent₂⟩

/-- Faults succeed if there are frames for all levels they need. -/
theorem Settled.handleFaults_supplied (hb : Backing.Serves Good served) (h : s.Settled Good t map)
    (hcodes : ∀ fault ∈ faults, fault.code.present = false)
    (hroom : t.framesFor (faults.map (·.address.pageBase)) ≤ s.pager.frames.remaining) :
    ∃ answers s', handleFaults faults s = (.ok answers, s')
      ∧ ∀ answer ∈ answers, ∃ r, answer = .ok r := by
  induction faults generalizing s t map with
  | nil => exact ⟨[], s, rfl, List.forall_mem_nil _⟩
  | cons fault rest ih =>
    obtain ⟨hcode, hcodes⟩ := List.forall_mem_cons.1 hcodes
    rw [List.map_cons, ← List.singleton_append] at hroom
    have hown : t.framesFor [fault.address.pageBase] ≤ s.pager.loose.length := by
      rw [h.length_loose]
      exact (t.framesFor_le_append _ _).trans hroom
    obtain ⟨r, s₁, hfirst, -⟩ := h.realizes.handleFault_supplied hb h.good h.spare hcode hown
    obtain ⟨t₁, hsettled, hspent⟩ := h.handleFault_spent hb hcode hfirst
    rw [t.framesFor_append hspent.levels, ← hspent.frames] at hroom
    obtain ⟨answers, s₂, hrest, hall⟩ := ih hsettled hcodes (by omega)
    refine ⟨.ok r :: answers, s₂, ?_, List.forall_mem_cons.2 ⟨⟨r, rfl⟩, hall⟩⟩
    rw [handleFaults, Exec.bind_of_ok hfirst, Exec.bind_of_ok hrest]
    rfl

omit [Backing β] in
theorem initTables_settled {p : Pager β} (hp : p.Fresh) (hgood : Good p.backing) (m : Memory) :
    ∃ s, initTables ⟨p, m⟩ = (.ok (), s)
      ∧ s.Settled Good (TableTree.first p.layout) (.identity p.layout.identityPages)
      ∧ s.pager.frames = p.frames ∧ s.pager.installed = 0 := by
  obtain ⟨s, hinit, hrealizes, hbacking, hframes⟩ := initTables_realizes hp.toReady m
  obtain ⟨log, hpager⟩ := initTables_pager hp.toReady hinit
  refine ⟨s, hinit, ⟨hrealizes, ?_, hbacking ▸ hgood, ?_⟩, hframes, ?_⟩
  · intro a
    rw [pages_first]
  · rw [hpager]
    exact hp.spare
  · rw [hpager]
    exact hp.installed

/-- Faults on pages that are not there all succeed just if there is a frame for every directory and
every table they need, each counted once. Then they succeed in every order, and whatever the order,
the same pages get the same frames and the counters come out the same. -/
theorem faults_in_any_order (hb : Backing.Serves Good served) {p : Pager β} (hp : p.Fresh)
    (hgood : Good p.backing) (m : Memory) : ∃ s, initTables ⟨p, m⟩ = (.ok (), s)
    ∧ ∀ faults : List PageFault, (∀ fault ∈ faults, fault.code.present = false) →
      ((∃ answers s', handleFaults faults s = (.ok answers, s')
          ∧ ∀ answer ∈ answers, ∃ r, answer = .ok r)
        ↔ framesTaken faults ≤ p.frames.remaining)
      ∧ (framesTaken faults ≤ p.frames.remaining → ∀ order, order.Perm faults →
        ∃ answers s', handleFaults order s = (.ok answers, s')
          ∧ (∀ answer ∈ answers, ∃ r, answer = .ok r)
          ∧ (∀ a, s'.translate a = ((PageMap.identity p.layout.identityPages).filled served
            (faults.map (·.address.pageBase))).translate a)
          ∧ s'.pager.installed = pagesMapped p.layout.identityPages faults
          ∧ s'.pager.frames.remaining + framesTaken faults = p.frames.remaining) := by
  obtain ⟨s, hinit, hsettled, hframes, hinstalled⟩ := initTables_settled hp hgood m
  refine ⟨s, hinit, ?_⟩
  intro faults hcodes
  rw [framesTaken_eq p.layout, pagesMapped_eq, ← hframes]
  refine ⟨⟨?_, hsettled.handleFaults_supplied hb hcodes⟩, ?_⟩
  · rintro ⟨answers, s', hrun, hall⟩
    obtain ⟨t', -, hspent⟩ := hsettled.handleFaults_spent hb hcodes hrun hall
    exact Nat.le.intro ((Nat.add_comm _ _).trans hspent.frames)
  · intro hroom order hperm
    have hpages : (order.map (·.address.pageBase)).Perm (faults.map (·.address.pageBase)) :=
      hperm.map _
    have hcodes' : ∀ fault ∈ order, fault.code.present = false := fun fault hfault =>
      hcodes fault (hperm.mem_iff.1 hfault)
    rw [← framesFor_perm _ hpages] at hroom ⊢
    obtain ⟨answers, s', hrun, hall⟩ := hsettled.handleFaults_supplied hb hcodes' hroom
    obtain ⟨t', hsettled', hspent⟩ := hsettled.handleFaults_spent hb hcodes' hrun hall
    refine ⟨answers, s', hrun, hall, ?_, ?_, hspent.frames⟩
    · intro a
      rw [hsettled'.realizes.translate_eq, hsettled'.agrees.translate_eq, PageMap.filled_perm hpages]
    · rw [hspent.installed, hinstalled, Nat.zero_add]
      exact vacant_perm _ hpages

/-- A page in the last gigabyte and one in the first, in both orders: three frames are enough. -/
theorem faults_in_any_order_sample : ∃ s, initTables ⟨.sample, .filled 0xA5⟩ = (.ok (), s)
    ∧ ∃ answers₁ s₁ answers₂ s₂,
      handleFaults [⟨.ofNat 0xC0000123, ⟨0⟩⟩, ⟨.ofNat 0x400000, ⟨2⟩⟩] s = (.ok answers₁, s₁)
      ∧ handleFaults [⟨.ofNat 0x400000, ⟨2⟩⟩, ⟨.ofNat 0xC0000123, ⟨0⟩⟩] s = (.ok answers₂, s₂)
      ∧ (∀ a, s₁.translate a = s₂.translate a)
      ∧ s₁.pager.installed = 2 ∧ s₂.pager.frames.remaining = 0 := by
  obtain ⟨s, hinit, hfaults⟩ := faults_in_any_order IdentityBacking.serves
    (p := .sample) ⟨Pager.ready_sample, rfl, rfl⟩ trivial (.filled 0xA5)
  obtain ⟨-, horders⟩ := hfaults [⟨.ofNat 0xC0000123, ⟨0⟩⟩, ⟨.ofNat 0x400000, ⟨2⟩⟩] (by decide)
  have htaken : framesTaken [⟨.ofNat 0xC0000123, ⟨0⟩⟩, ⟨.ofNat 0x400000, ⟨2⟩⟩] = 3 := by decide
  have hroom : framesTaken [⟨.ofNat 0xC0000123, ⟨0⟩⟩, ⟨.ofNat 0x400000, ⟨2⟩⟩]
      ≤ Pager.sample.frames.remaining := by decide
  obtain ⟨answers₁, s₁, hrun₁, -, htranslate₁, hinstalled, -⟩ := horders hroom _ (.refl _)
  obtain ⟨answers₂, s₂, hrun₂, -, htranslate₂, -, hremaining⟩ := horders hroom _ (.swap _ _ _)
  refine ⟨s, hinit, answers₁, s₁, answers₂, s₂, hrun₁, hrun₂, ?_, ?_, ?_⟩
  · intro a
    rw [htranslate₁, htranslate₂]
  · rw [hinstalled]
    decide
  · have hthree : Pager.sample.frames.remaining = 3 := rfl
    omega

end Paging

end PaeKernel
