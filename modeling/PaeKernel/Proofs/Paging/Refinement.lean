import PaeKernel.Proofs.Paging.Init

/-!
# Tables refine a page map

The tables in memory stand for a map from pages to frames (`Paging.Refines`). The first tables stand
for the identity on the first pages, and a fault changes the map as its answer says. Hence a fault
that maps a page found it free, and whatever was translated once is translated in the same way ever
after.
-/

namespace PaeKernel

/-! ### Answers seen from the map -/

namespace PageMap

variable {map : PageMap} {page p : VirtualAddress} {f : PhysicalAddress}
  {answer : Except FaultError Resolution}

/-- The answer to a fault on a page tells the truth about the map before it. -/
def Accepts (map : PageMap) (page : VirtualAddress) : Except FaultError Resolution → Prop
  | .ok (.mapped p frame _) => p = page ∧ map page = none ∧ frame.IsFrame
  | .ok (.alreadyMapped p) => p = page ∧ map page ≠ none
  | .error _ => True

/-- The answers tell the truth, each about the map that the answers before it left. -/
def AcceptsAll : PageMap → List PageFault → List (Except FaultError Resolution) → Prop
  | _, [], [] => True
  | map, fault :: faults, answer :: answers =>
    map.Accepts fault.address.pageBase answer ∧ (map.after answer).AcceptsAll faults answers
  | _, _, _ => False

theorem Accepts.after_of_ne (h : map.Accepts page answer) (hne : p ≠ page) :
    map.after answer p = map p := by
  match answer, h with
  | .ok (.mapped q frame rootChanged), ⟨hq, _⟩ =>
    rw [after, insert, hq, if_neg hne]
  | .ok (.alreadyMapped q), _ => rfl
  | .error err, _ => rfl

theorem Accepts.after_of_some (h : map.Accepts page answer) (hp : map p = some f) :
    map.after answer p = some f := by
  by_cases hne : p = page
  · subst hne
    match answer, h with
    | .ok (.mapped q frame rootChanged), ⟨_, hnone, _⟩ =>
      exact absurd (hp.symm.trans hnone) (Option.some_ne_none f)
    | .ok (.alreadyMapped q), _ => exact hp
    | .error err, _ => exact hp
  · rw [h.after_of_ne hne]
    exact hp

theorem AcceptsAll.afterAll_of_some {faults : List PageFault}
    {answers : List (Except FaultError Resolution)} (h : map.AcceptsAll faults answers)
    (hp : map p = some f) : map.afterAll answers p = some f := by
  induction answers generalizing map faults with
  | nil => exact hp
  | cons answer answers ih =>
    cases faults with
    | nil => exact h.elim
    | cons fault faults => exact ih h.2 (h.1.after_of_some hp)

theorem AcceptsAll.afterAll_of_ne {faults : List PageFault}
    {answers : List (Except FaultError Resolution)} (h : map.AcceptsAll faults answers)
    (hp : ∀ fault ∈ faults, p ≠ fault.address.pageBase) : map.afterAll answers p = map p := by
  induction answers generalizing map faults with
  | nil => rfl
  | cons answer answers ih =>
    cases faults with
    | nil => exact h.elim
    | cons fault faults =>
      have hrest := ih h.2 fun fault hfault => hp fault (List.mem_cons_of_mem _ hfault)
      exact hrest.trans (h.1.after_of_ne (hp fault List.mem_cons_self))

theorem translate_of_kept {map' : PageMap} {a : VirtualAddress} {b : PhysicalAddress}
    (hkept : ∀ f, map a.pageBase = some f → map' a.pageBase = some f)
    (h : map.translate a = some b) : map'.translate a = some b := by
  obtain ⟨f, hf, hb⟩ := Option.map_eq_some_iff.1 h
  rw [translate, hkept f hf]
  exact congrArg some hb

end PageMap

namespace TableTree

variable {t t' : TableTree} {map : PageMap}

/-- The map and the tree have the same pages. -/
def Agrees (t : TableTree) (map : PageMap) : Prop :=
  ∀ a : VirtualAddress, map a.pageBase = t.pages a.pageBase

theorem Agrees.translate_eq (h : t.Agrees map) (a : VirtualAddress) :
    t.pages.translate a = map.translate a := by
  rw [PageMap.translate, PageMap.translate, h a]

theorem Agrees.setLeaf (h : t.Agrees map) (page : VirtualAddress) (frame : PhysicalAddress)
    (hleaf : t'.leaf = (t.setLeaf page.pageBase.indices frame).leaf) :
    t'.Agrees (map.insert page.pageBase frame) := by
  intro a
  show (if a.pageBase = page.pageBase then some frame else map a.pageBase) = t'.leaf a.pageBase.indices
  rw [hleaf]
  by_cases ha : a.pageBase = page.pageBase
  · rw [if_pos ha, ha, leaf_setLeaf_self]
  · have hne : a.pageBase.indices ≠ page.pageBase.indices := by
      rw [a.indices_pageBase, page.indices_pageBase]
      exact mt VirtualAddress.indices_eq_iff.1 ha
    rw [if_neg ha, leaf_setLeaf_of_ne hne]
    exact h a

/-- The map follows the tree through a fault. -/
theorem Answers.agrees {page : VirtualAddress} {answer : Except FaultError Resolution}
    (h : t.Answers page.pageBase t' answer) (hagrees : t.Agrees map)
    (hframe : ∀ ijk f, t'.leaf ijk = some f → f.IsFrame) :
    map.Accepts page.pageBase answer ∧ t'.Agrees (map.after answer) := by
  cases h with
  | mapped _ frame rootChanged free grown =>
    have hself : t'.leaf page.pageBase.indices = some frame := by
      rw [grown, leaf_setLeaf_self]
    exact ⟨⟨rfl, (hagrees page).trans free, hframe _ frame hself⟩,
      hagrees.setLeaf page frame grown⟩
  | already present =>
    refine ⟨⟨rfl, ?_⟩, hagrees⟩
    rw [hagrees page]
    exact present
  | failed err => exact ⟨trivial, hagrees⟩

end TableTree

namespace Paging

variable {β : Type} [Backing β] {Good : β → Prop} {s : Paging β} {map : PageMap}

/-- The tables stand for the map, and the backing is good for more faults. -/
def Refines (Good : β → Prop) (s : Paging β) (map : PageMap) : Prop :=
  Good s.pager.backing ∧ ∃ t, s.Realizes t ∧ t.Agrees map

omit [Backing β] in
theorem Refines.translate_eq (h : s.Refines Good map) (a : VirtualAddress) :
    s.translate a = map.translate a := by
  obtain ⟨_, t, hrealizes, hagrees⟩ := h
  rw [hrealizes.translate_eq, hagrees.translate_eq]

theorem handleFault_refines (hb : Backing.Honors Good) (h : s.Refines Good map)
    (fault : PageFault) :
    (¬ s.pager.frames.Steady ∧ ∃ e, (handleFault fault s).1 = .error e)
    ∨ ∃ answer s', handleFault fault s = (.ok answer, s')
      ∧ map.Accepts fault.address.pageBase answer ∧ s'.Refines Good (map.after answer)
      ∧ (s.pager.frames.Steady → s'.pager.frames.Steady) := by
  obtain ⟨hgood, t, hrealizes, hagrees⟩ := h
  rcases handleFault_cases hb hrealizes hgood fault with
    hpanic | ⟨answer, s', t', hrun, hrealizes', hanswers, hgood', hsteady⟩
  · exact .inl hpanic
  · obtain ⟨haccepts, hagrees'⟩ := hanswers.agrees hagrees hrealizes'.leaf
    exact .inr ⟨answer, s', hrun, haccepts, ⟨hgood', t', hrealizes', hagrees'⟩, hsteady⟩

theorem handleFaults_refines (hb : Backing.Honors Good) (h : s.Refines Good map)
    (faults : List PageFault) :
    (¬ s.pager.frames.Steady ∧ ∃ e, (handleFaults faults s).1 = .error e)
    ∨ ∃ answers s', handleFaults faults s = (.ok answers, s')
      ∧ map.AcceptsAll faults answers ∧ s'.Refines Good (map.afterAll answers) := by
  induction faults generalizing s map with
  | nil => exact .inr ⟨[], s, rfl, trivial, h⟩
  | cons fault rest ih =>
    rw [handleFaults]
    rcases handleFault_refines hb h fault with
      ⟨hs, e, hpanic⟩ | ⟨answer, s', hrun, haccepts, hrefines, hsteady⟩
    · have hrun : handleFault fault s = (.error e, (handleFault fault s).2) := Prod.ext hpanic rfl
      rw [Exec.bind_of_error hrun]
      exact .inl ⟨hs, e, rfl⟩
    · rw [Exec.bind_of_ok hrun]
      rcases ih hrefines with ⟨hs, e, hpanic⟩ | ⟨answers, last, hrest, hall, hlast⟩
      · have hrun' : handleFaults rest s' = (.error e, (handleFaults rest s').2) :=
          Prod.ext hpanic rfl
        rw [Exec.bind_of_error hrun']
        exact .inl ⟨mt hsteady hs, e, rfl⟩
      · rw [Exec.bind_of_ok hrest]
        exact .inr ⟨answer :: answers, last, rfl, ⟨haccepts, hall⟩, hlast⟩

/-- What faults and their answers say about the tables before and after them. -/
structure Follows (s : Paging β) (map : PageMap) (faults : List PageFault)
    (answers : List (Except FaultError Resolution)) (s' : Paging β) : Prop where
  accepted : map.AcceptsAll faults answers
  translate_eq : ∀ a, s'.translate a = (map.afterAll answers).translate a
  kept : ∀ a b, s.translate a = some b → s'.translate a = some b
  others : ∀ a : VirtualAddress, (∀ fault ∈ faults, a.pageBase ≠ fault.address.pageBase) →
    s'.translate a = s.translate a

theorem Refines.follows (hb : Backing.Honors Good) (h : s.Refines Good map)
    {faults : List PageFault} {answers : List (Except FaultError Resolution)} {s' : Paging β}
    (hrun : handleFaults faults s = (.ok answers, s')) :
    s.Follows map faults answers s' ∧ s'.Refines Good (map.afterAll answers) := by
  rcases handleFaults_refines hb h faults with
    ⟨_, e, hpanic⟩ | ⟨_, _, hrun', haccepted, hrefines⟩
  · rw [hrun] at hpanic
    cases hpanic
  · rw [hrun] at hrun'
    cases hrun'
    refine ⟨⟨haccepted, hrefines.translate_eq, ?_, ?_⟩, hrefines⟩
    · intro a b hab
      rw [h.translate_eq] at hab
      rw [hrefines.translate_eq]
      exact PageMap.translate_of_kept (fun _ => haccepted.afterAll_of_some) hab
    · intro a ha
      rw [h.translate_eq, hrefines.translate_eq, PageMap.translate, PageMap.translate,
        haccepted.afterAll_of_ne ha]

omit [Backing β] in
theorem initTables_refines {p : Pager β} (hp : p.Ready) (hgood : Good p.backing) (m : Memory) :
    ∃ s, initTables ⟨p, m⟩ = (.ok (), s)
      ∧ s.Refines Good (.identity p.layout.identityPages) ∧ s.pager.frames = p.frames := by
  obtain ⟨s, hrun, hrealizes, hbacking, hframes⟩ := initTables_realizes hp m
  refine ⟨s, hrun, ⟨hbacking ▸ hgood, _, hrealizes, ?_⟩, hframes⟩
  intro a
  rw [TableTree.pages_first]

end Paging

/-- The pager the kernel starts with, with three frames for new tables. -/
def Pager.sample : Pager IdentityBacking where
  layout := .boot
  frames := .pool [.ofNat 0x100000, .ofNat 0x101000, .ofNat 0x102000]
  backing := {}

theorem Pager.ready_sample : Pager.sample.Ready where
  stop := by decide
  root := ⟨rfl, by decide⟩
  directory := ⟨rfl, by decide⟩
  table := ⟨rfl, by decide⟩
  loose := by decide
  nodup := by decide

namespace Paging

variable {β : Type} [Backing β] {Good : β → Prop}

/-- The first tables map low memory to itself, and from every state that faults lead to, the tables
follow the answers to all further faults. An answer is only missing when the source of frames
overflows. -/
theorem faults_refine_map (hb : Backing.Honors Good) {p : Pager β} (hp : p.Ready)
    (hgood : Good p.backing) (m : Memory) : ∃ s, initTables ⟨p, m⟩ = (.ok (), s)
    ∧ (∀ a, s.translate a = (PageMap.identity p.layout.identityPages).translate a)
    ∧ ∀ faults, (p.frames.Steady → ∃ answers s', handleFaults faults s = (.ok answers, s'))
      ∧ ∀ answers s', handleFaults faults s = (.ok answers, s') →
        s.Follows (.identity p.layout.identityPages) faults answers s'
        ∧ ∀ more answers' s'', handleFaults more s' = (.ok answers', s'') →
          s'.Follows ((PageMap.identity p.layout.identityPages).afterAll answers) more answers' s'' := by
  obtain ⟨s, hinit, hrefines, hframes⟩ := initTables_refines hp hgood m
  refine ⟨s, hinit, hrefines.translate_eq, ?_⟩
  intro faults
  refine ⟨?_, ?_⟩
  · intro hsteady
    rcases handleFaults_refines hb hrefines faults with ⟨hs, _⟩ | ⟨answers, s', hrun, _⟩
    · exact absurd (hframes ▸ hsteady) hs
    · exact ⟨answers, s', hrun⟩
  · intro answers s' hrun
    obtain ⟨hfollows, hrefines'⟩ := hrefines.follows hb hrun
    exact ⟨hfollows, fun more answers' s'' hmore => (hrefines'.follows hb hmore).1⟩

/-- A page touched twice and a write to a page that must not be written. -/
def sampleFaults : List PageFault :=
  [⟨.ofNat 0xC0000123, ⟨2⟩⟩, ⟨.ofNat 0xC0000FFF, ⟨0⟩⟩, ⟨.ofNat 0x1000, ⟨3⟩⟩]

theorem faults_refine_map_sample : ∃ s, initTables ⟨.sample, .filled 0xA5⟩ = (.ok (), s)
    ∧ ∃ answers s', handleFaults sampleFaults s = (.ok answers, s')
      ∧ s.Follows (.identity Pager.sample.layout.identityPages) sampleFaults answers s' := by
  obtain ⟨s, hinit, _, hfaults⟩ := faults_refine_map IdentityBacking.honors Pager.ready_sample
    trivial (.filled 0xA5)
  obtain ⟨hanswers, hfollows⟩ := hfaults sampleFaults
  obtain ⟨answers, s', hrun⟩ := hanswers (show 0 + pageSize < wordLimit by decide)
  exact ⟨s, hinit, answers, s', hrun, (hfollows answers s' hrun).1⟩

end Paging

end PaeKernel
