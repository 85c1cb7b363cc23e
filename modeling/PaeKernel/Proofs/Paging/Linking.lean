import PaeKernel.Proofs.Paging.Exhaustion

/-!
# A change of the tables shows at one store

A walk may come between any two stores of a fault (`Paging.translateAfter`). All stores but the last
one of a fault go into frames that no table uses yet, so such a walk finds what it would have found
before the fault (`Realizes.translate_take`). `Paging.AtOnce` says this of a fault, and
`faults_link_at_once` of all faults from all states that faults lead to.
-/

namespace PaeKernel

namespace Draft

variable {β : Type} {v : PhysicalView} {p p' : Pager β} {page : VirtualAddress}
  {frame : PhysicalAddress} {r : Except FaultError Resolution} {stores : List Memory.Store}

/-- Before its last store a page is only mapped in frames that no table uses. -/
theorem Install.into_dropLast (h : Install v p page frame r p' stores) :
    ∀ x ∈ stores.dropLast, v.Into p.loose x := by
  cases h with
  | directory _ d f absent moved =>
    rw [List.dropLast_concat]
    have hd : d ∈ p.loose := moved.loose ▸ List.mem_cons_self
    have hf : f ∈ p.loose := moved.loose ▸ List.mem_cons_of_mem _ List.mem_cons_self
    exact v.into_directoryStores page frame hd hf
  | table _ f above absent moved =>
    rw [List.dropLast_concat]
    have hf : f ∈ p.loose := moved.loose ▸ List.mem_cons_self
    exact v.into_tableStores page frame hf
  | leaf | already | noTable => exact List.forall_mem_nil _
  | noDirectory _ _ absent short steady into moved =>
    intro x hx
    exact into x (List.dropLast_subset _ hx)

variable [Backing β] {fault : PageFault}

theorem Resolve.into_dropLast (h : Resolve v p fault r p' stores) :
    ∀ x ∈ stores.dropLast, v.Into p.loose x := by
  cases h with
  | violation | unbacked => exact List.forall_mem_nil _
  | backed q _ frame _ _ code isFrame asked install =>
    have hloose : p.loose = q.loose := asked.moved.loose_eq
    rw [hloose]
    exact install.into_dropLast

/-- A fault never moves the tables or the window they are seen through. -/
theorem Resolve.root_window_eq (h : Resolve v p fault r p' stores) :
    p'.layout = p.layout ∧ p'.window = p.window := by
  cases h with
  | violation _ _ moved => exact ⟨moved.layout, moved.window⟩
  | unbacked _ _ asked => exact ⟨asked.moved.layout, asked.moved.window⟩
  | backed _ _ _ _ _ _ _ asked install =>
    obtain ⟨_, _, hmoved⟩ := install.exists_moved
    exact ⟨hmoved.layout.trans asked.moved.layout, hmoved.window.trans asked.moved.window⟩

theorem Resolve.ne_nil_of_mapped {f : PhysicalAddress} {rootChanged : Bool}
    (h : Resolve v p fault (.ok (.mapped page f rootChanged)) p' stores) : stores ≠ [] := by
  cases h with
  | backed _ _ _ _ _ _ _ _ install =>
    cases install with
    | directory | table => exact List.concat_ne_nil _ _
    | leaf => exact List.cons_ne_nil _ _

end Draft

namespace Paging

open TableTree

variable {β : Type} {s s' : Paging β} {t : TableTree} {stores : List Memory.Store} {n : Nat}

/-- The physical address that a walk finds when only these stores of a fault have been made. -/
def translateAfter (s : Paging β) (stores : List Memory.Store) (a : VirtualAddress) :
    Option PhysicalAddress :=
  (s.view.apply stores).translate s.pager.layout.root a

theorem Realizes.translate_into (h : s.Realizes t)
    (hinto : ∀ x ∈ stores, s.view.Into s.pager.loose x) (a : VirtualAddress) :
    s.translateAfter stores a = s.translate a := by
  rw [h.translate_eq]
  exact translate_of_spells (h.spells_of_into hinto) h.closed h.ledger h.leaf a

/-- Only the last store counts if all others go into frames that no table uses. -/
theorem Realizes.translate_take (h : s.Realizes t)
    (hinto : ∀ x ∈ stores.dropLast, s.view.Into s.pager.loose x) (hn : n < stores.length)
    (a : VirtualAddress) : s.translateAfter (stores.take n) a = s.translate a := by
  refine h.translate_into ?_ a
  intro x hx
  -- a front that is not all of the stores lacks the last one
  have hfront : stores.take n = stores.dropLast.take n := by
    rw [List.dropLast_eq_take, List.take_take, Nat.min_eq_left (by omega)]
  rw [hfront] at hx
  exact hinto x (List.mem_of_mem_take hx)

variable [Backing β] {Good : β → Prop} {fault : PageFault}

/-- A fault changes what walks find at its last store or not at all. If the frame source overflows,
the fault never gets to a store that walks could see. -/
structure AtOnce (s : Paging β) (fault : PageFault) : Prop where
  before : ∀ n < (s.faultStores fault).length, ∀ a,
    s.translateAfter ((s.faultStores fault).take n) a = s.translate a
  after : ∀ r s', handleFault fault s = (.ok r, s') → ∀ a,
    s.translateAfter (s.faultStores fault) a = s'.translate a
  mapped : ∀ page frame rootChanged s',
    handleFault fault s = (.ok (.ok (.mapped page frame rootChanged)), s') →
    (∀ a, a.pageBase = page → s.translate a = none)
    ∧ ∃ filling link, s.faultStores fault = filling ++ [link] ∧ ∀ a,
      s.translateAfter filling a = s.translate a
      ∧ s.translateAfter (filling ++ [link]) a = s'.translate a
      ∧ s'.translate a
        = if a.pageBase = page then some (.ofNat (frame.toNat + a.pageOffset)) else s.translate a
  stopped : ∀ e s', handleFault fault s = (.error e, s') → ∀ a,
    s.translateAfter (s.faultStores fault) a = s.translate a

omit [Backing β] in
theorem translateAfter_all (s : Paging β) {p' : Pager β} (stores : List Memory.Store)
    (hlayout : p'.layout = s.pager.layout) (hwindow : p'.window = s.pager.window)
    (a : VirtualAddress) :
    s.translateAfter stores a = (Paging.mk p' (s.memory.apply stores)).translate a := by
  rw [translate, view, hlayout, hwindow]
  rfl

omit [Backing β] in
/-- What walks find after a fault that mapped a page. -/
theorem Realizes.translate_mapped (h : s.Realizes t) {page : VirtualAddress}
    {frame : PhysicalAddress} {rootChanged : Bool} {t' : TableTree} (h' : s'.Realizes t')
    (hanswers : t.Answers fault.address.pageBase t' (.ok (.mapped page frame rootChanged)))
    (a : VirtualAddress) :
    (a.pageBase = page → s.translate a = none) ∧ s'.translate a
      = if a.pageBase = page then some (.ofNat (frame.toNat + a.pageOffset))
        else s.translate a := by
  have hsame : t.Agrees t.pages := fun _ => rfl
  obtain ⟨⟨hpage, hfree, -⟩, hagrees⟩ := hanswers.agrees hsame h'.leaf
  rw [h.translate_eq, h'.translate_eq, hagrees.translate_eq]
  constructor
  · rintro rfl
    rw [PageMap.translate, hpage, hfree]
    rfl
  · by_cases ha : a.pageBase = page
    · rw [if_pos ha, ← ha]
      exact PageMap.translate_insert_same t.pages a frame
    · rw [if_neg ha]
      exact PageMap.translate_insert_of_ne frame ha

theorem Realizes.atOnce (hb : Backing.Honors Good) (h : s.Realizes t)
    (hgood : Good s.pager.backing) (fault : PageFault) : s.AtOnce fault := by
  rcases h.handleFault_outcome hb hgood fault with
    ⟨s₁, hrun, -, hinto, -⟩ | ⟨r, p', hrun, hresolve, -⟩
  · refine ⟨?_, ?_, ?_, ?_⟩
    · intro n hn
      exact h.translate_take (fun x hx => hinto x (List.dropLast_subset _ hx)) hn
    · intro r s' hok
      cases hrun.symm.trans hok
    · intro page frame rootChanged s' hok
      cases hrun.symm.trans hok
    · intro e s' _
      exact h.translate_into hinto
  · obtain ⟨t', _, _, h', hgrows, -⟩ := h.resolve hresolve
    have hanswers := hgrows.answers h.closed
    obtain ⟨hlayout, hwindow⟩ := hresolve.root_window_eq
    have hall := s.translateAfter_all (s.faultStores fault) hlayout hwindow
    refine ⟨?_, ?_, ?_, ?_⟩
    · intro n hn
      exact h.translate_take hresolve.into_dropLast hn
    · intro r s' hok
      cases hrun.symm.trans hok
      exact hall
    · intro page frame rootChanged s' hok
      cases hrun.symm.trans hok
      have hne := hresolve.ne_nil_of_mapped
      refine ⟨fun a => (h.translate_mapped h' hanswers a).1,
        (s.faultStores fault).dropLast, (s.faultStores fault).getLast hne,
        (List.dropLast_concat_getLast hne).symm, ?_⟩
      intro a
      refine ⟨h.translate_into hresolve.into_dropLast a, ?_, (h.translate_mapped h' hanswers a).2⟩
      rw [List.dropLast_concat_getLast]
      exact hall a
    · intro e s' hpanic
      cases hrun.symm.trans hpanic

/-- From every state that faults lead to, a walk between the stores of a fault finds what it would
have found before the fault, until the last store makes the whole change. -/
theorem faults_link_at_once (hb : Backing.Honors Good) {p : Pager β} (hp : p.Ready)
    (hgood : Good p.backing) (m : Memory) : ∃ s, initTables ⟨p, m⟩ = (.ok (), s)
    ∧ ∀ faults answers s', handleFaults faults s = (.ok answers, s') →
      ∀ fault, s'.AtOnce fault := by
  obtain ⟨s, hinit, hrefines, -⟩ := initTables_refines hp hgood m
  refine ⟨s, hinit, ?_⟩
  intro faults answers s' hrun fault
  obtain ⟨hgood', t, hrealizes, -⟩ := (hrefines.follows hb hrun).2
  exact hrealizes.atOnce hb hgood' fault

/-- A page is touched, and the tables are watched while another one is mapped that needs the two
frames left: all changes at the store that links the new directory. -/
theorem faults_link_at_once_sample : ∃ s, initTables ⟨.sample, .filled 0xA5⟩ = (.ok (), s)
    ∧ ∃ answer s', handleFaults [⟨.ofNat 0x400123, ⟨2⟩⟩] s = (.ok [answer], s')
      ∧ ∃ rootChanged s'', handleFault ⟨.ofNat 0x40000000, ⟨0⟩⟩ s'
          = (.ok (.ok (.mapped (.ofNat 0x40000000) (.ofNat 0x40000000) rootChanged)), s'')
        ∧ s'.translate (.ofNat 0x40000123) = none
        ∧ s''.translate (.ofNat 0x40000123) = some (.ofNat 0x40000123)
        ∧ ∃ filling link, s'.faultStores ⟨.ofNat 0x40000000, ⟨0⟩⟩ = filling ++ [link]
          ∧ ∀ a, s'.translateAfter filling a = s'.translate a
            ∧ s'.translateAfter (filling ++ [link]) a = s''.translate a := by
  obtain ⟨s, hinit, hatOnce⟩ := faults_link_at_once IdentityBacking.honors Pager.ready_sample
    trivial (.filled 0xA5)
  obtain ⟨_, hinit', hrealizes, -⟩ := initTables_realizes Pager.ready_sample (.filled 0xA5)
  cases hinit.symm.trans hinit'
  obtain ⟨log, hpager⟩ := initTables_pager Pager.ready_sample hinit
  have havailable : s.pager.available = 3 := by
    rw [hpager]
    show Pager.sample.available = 3
    decide
  have hneed : s.need (.ofNat 0x400000) = 1 := by
    rw [hrealizes.need_eq]
    decide
  -- the first page takes one of the three frames
  have hmissed : s.Missed ⟨.ofNat 0x400123, ⟨2⟩⟩ (.ofNat 0x400000) := by
    refine ⟨rfl, ?_, rfl, by decide⟩
    rw [hrealizes.translate_eq]
    decide
  obtain ⟨s', hanswer, havailable', -⟩ := hrealizes.maps hmissed
    (show s.need (.ofNat 0x400000) ≤ _ by omega)
  have hleft : s'.pager.available = 2 := by
    have hspent : s'.pager.available + s.need (.ofNat 0x400000) = s.pager.available := havailable'
    omega
  have hruns : ∀ answer, handleFault ⟨.ofNat 0x400123, ⟨2⟩⟩ s = (.ok answer, s') →
      handleFaults [⟨.ofNat 0x400123, ⟨2⟩⟩] s = (.ok [answer], s') := by
    intro answer hrun
    rw [handleFaults, Exec.bind_of_ok hrun]
    rfl
  have hfree : s'.translate (.ofNat 0x40000000) = none := by
    obtain ⟨-, _, _, -, hchange⟩ := (hatOnce [] [] s rfl _).mapped _ _ _ _ hanswer
    rw [(hchange _).2.2, if_neg (by decide), hrealizes.translate_eq]
    decide
  -- and the second one has frames enough, whatever it needs
  obtain ⟨t', hrealizes'⟩ : ∃ t', s'.Realizes t' := by
    obtain ⟨t', _, _, hrealizes', -⟩ := hrealizes.handleFault_linked ⟨.ofNat 0x400123, ⟨2⟩⟩
    rw [hanswer] at hrealizes'
    exact ⟨t', hrealizes'⟩
  have hmissed' : s'.Missed ⟨.ofNat 0x40000000, ⟨0⟩⟩ (.ofNat 0x40000000) :=
    ⟨rfl, hfree, rfl, by decide⟩
  have hroom : s'.need (.ofNat 0x40000000) ≤ s'.pager.available := by
    rw [hleft]
    exact s'.need_le_two _
  obtain ⟨s'', hanswer', -⟩ := hrealizes'.maps hmissed' hroom
  obtain ⟨hunmapped, filling, link, hstores, hchange⟩ :=
    (hatOnce _ _ _ (hruns _ hanswer) ⟨.ofNat 0x40000000, ⟨0⟩⟩).mapped _ _ _ _ hanswer'
  refine ⟨s, hinit, _, s', hruns _ hanswer, _, s'', hanswer', hunmapped _ (by decide), ?_, filling,
    link, hstores, fun a => ⟨(hchange a).1, (hchange a).2.1⟩⟩
  rw [(hchange _).2.2, if_pos (by decide)]
  decide

end Paging

end PaeKernel
