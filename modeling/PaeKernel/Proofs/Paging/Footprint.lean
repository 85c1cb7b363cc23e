import PaeKernel.Proofs.Paging.Init

/-!
# What a pager reads and writes

A walk reads at most three entries, and so does a fault before it maps a page: the entries on the
way to the page (`PhysicalView.path`). Both come to the same in all memory that agrees there
(`PhysicalView.translate_congr`, `Draft.resolve_congr`). These entries lie in linked frames, and
every store goes into a frame that is linked or kept for later tables (`Paging.Owned`). Faults give
a pager no frames beyond those it has.
-/

namespace PaeKernel

theorem Exec.bind_congr {σ α β : Type} {x : Exec σ α} {f g : α → Exec σ β} {s : σ}
    (h : ∀ a s', x s = (.ok a, s') → f a s' = g a s') : (x >>= f) s = (x >>= g) s := by
  rw [bind_apply, bind_apply]
  rcases hx : x s with ⟨r, s'⟩
  cases r with
  | ok a => exact h a s' hx
  | error e => rfl

/-! ### The way to a page -/

namespace PhysicalView

variable {v : PhysicalView} {root : PhysicalAddress} {page : VirtualAddress} {m : Memory}

/-- The addresses of the entries on the way to a page, as far as it leads. -/
def path (v : PhysicalView) (root : PhysicalAddress) (page : VirtualAddress) : List Nat :=
  Table.entryAddress (v.place root) page.pdptIndex ::
    if (v.top root page).present then
      Table.entryAddress (v.place (v.top root page).directory) page.pdIndex ::
        if (v.middle root page).present then
          [Table.entryAddress (v.place (v.middle root page).frame) page.ptIndex]
        else []
    else []

/-- Other memory has the same entries on the way to a page. -/
structure SameWay (v : PhysicalView) (m : Memory) (root : PhysicalAddress) (page : VirtualAddress) :
    Prop where
  top : Table.rootEntry m (v.place root) page.pdptIndex = v.top root page
  middle : (v.top root page).present = true →
    Table.entry m (v.place (v.top root page).directory) page.pdIndex = v.middle root page
  bottom : (v.top root page).present = true → (v.middle root page).present = true →
    Table.entry m (v.place (v.middle root page).frame) page.ptIndex = v.bottom root page

theorem sameWay_of_path (h : ∀ x ∈ v.path root page, m.read x = v.memory.read x) :
    v.SameWay m root page := by
  refine ⟨congrArg RootEntry.mk (h _ List.mem_cons_self), ?_, ?_⟩
  · intro habove
    refine congrArg PageEntry.mk (h _ ?_)
    rw [path, if_pos habove]
    exact List.mem_cons_of_mem _ List.mem_cons_self
  · intro habove hpresent
    refine congrArg PageEntry.mk (h _ ?_)
    rw [path, if_pos habove, if_pos hpresent]
    exact List.mem_cons_of_mem _ (List.mem_cons_of_mem _ List.mem_cons_self)

/-- A walk reads nothing but the entries on its way. -/
theorem translate_congr {a : VirtualAddress}
    (h : ∀ x ∈ v.path root a, m.read x = v.memory.read x) :
    (PhysicalView.mk v.window m).translate root a = v.translate root a := by
  have hway := sameWay_of_path h
  show walk _ (Table.rootEntry m (v.place root) a.pdptIndex) a = v.walk (v.top root a) a
  rw [hway.top, walk, walk]
  split
  · rename_i habove
    have hmiddle : Table.entry v.memory (v.place _) a.pdIndex = v.middle root a := rfl
    have hmiddle' : Table.entry m (PhysicalView.place ⟨v.window, m⟩ _) a.pdIndex
        = v.middle root a := hway.middle habove
    dsimp only
    rw [hmiddle, hmiddle']
    split
    · rename_i hpresent
      have hbottom : Table.entry m (PhysicalView.place ⟨v.window, m⟩ _) a.ptIndex
          = Table.entry v.memory (v.place _) a.ptIndex := hway.bottom habove hpresent
      rw [hbottom]
    · rfl
  · rfl

end PhysicalView

theorem Paging.translate_congr {β : Type} {m : Memory} {a : VirtualAddress} (s : Paging β)
    (h : ∀ x ∈ s.view.path s.pager.layout.root a, m.read x = s.memory.read x) :
    translate ⟨s.pager, m⟩ a = s.translate a := by
  have hcongr : (PhysicalView.mk s.view.window m).translate s.pager.layout.root a
      = s.view.translate s.pager.layout.root a := PhysicalView.translate_congr h
  exact hcongr

namespace Draft

variable {β : Type} {m m' : Memory} {page : VirtualAddress}

theorem installLeaf_congr {d : Draft β} {table frame : PhysicalAddress} {leaf : PageEntry}
    (h : Table.entry m' (d.pager.window + table.toNat) page.ptIndex
      = Table.entry m (d.pager.window + table.toNat) page.ptIndex) :
    installLeaf m' table page frame leaf d = installLeaf m table page frame leaf d := by
  rw [installLeaf, installLeaf, Exec.bind_of_ok (place_apply _ _), Exec.bind_of_ok (place_apply _ _),
    h]

/-- Mapping a page reads nothing but the entries on the way to it. -/
theorem install_congr {d : Draft β}
    (h : ∀ x ∈ (PhysicalView.mk d.pager.window m).path d.pager.layout.root page,
      m'.read x = m.read x) (frame : PhysicalAddress) :
    install m' page frame d = install m page frame d := by
  have hway := PhysicalView.sameWay_of_path h
  rw [install, install]
  refine Exec.bind_congr fun leaf d' hleaf => ?_
  obtain rfl : d = d' := (Prod.mk.inj hleaf).2
  rw [Exec.bind_of_ok (Exec.view_apply _ _), Exec.bind_of_ok (Exec.view_apply _ _),
    Exec.bind_of_ok (place_apply _ _), Exec.bind_of_ok (place_apply _ _)]
  dsimp only
  have htop : Table.rootEntry m (d.pager.window + d.pager.layout.root.toNat) page.pdptIndex
      = (PhysicalView.mk d.pager.window m).top d.pager.layout.root page := rfl
  have htop' : Table.rootEntry m' (d.pager.window + d.pager.layout.root.toNat) page.pdptIndex
      = (PhysicalView.mk d.pager.window m).top d.pager.layout.root page := hway.top
  rw [htop, htop']
  -- each entry decides which one is read next, so the levels agree from the top down
  split
  · rename_i habove
    have hmiddle : Table.entry m' (d.pager.window + _) page.pdIndex
        = Table.entry m (d.pager.window + _) page.pdIndex := hway.middle habove
    rw [Exec.bind_of_ok (place_apply _ _), Exec.bind_of_ok (place_apply _ _), hmiddle]
    split
    · rename_i hpresent
      exact installLeaf_congr (hway.bottom habove hpresent)
    · rfl
  · rfl

variable [Backing β] {p : Pager β} {fault : PageFault}

/-- A fault reads nothing but the entries on the way to its page. -/
theorem resolve_congr
    (h : ∀ x ∈ (PhysicalView.mk p.window m).path p.layout.root fault.address.pageBase,
      m'.read x = m.read x) :
    resolve m' fault { pager := p } = resolve m fault { pager := p } := by
  rw [resolve, resolve, Exec.bind_of_ok (record_apply _ _ _), Exec.bind_of_ok (record_apply _ _ _)]
  split
  · rfl
  · refine Exec.bind_congr fun o d hasked => ?_
    cases o with
    | none => rfl
    | some frame =>
      dsimp only
      refine Exec.bind_congr fun _ d' hrequire => ?_
      rw [Exec.require_apply] at hrequire
      obtain rfl : d = d' := (Prod.mk.inj hrequire).2
      obtain rfl := (Prod.mk.inj hasked).2
      exact install_congr h frame

end Draft

/-! ### The frames of a pager -/

namespace TableTree

/-- A growing tree links only frames that it has or takes. -/
theorem Grows.linked_or {t t' : TableTree} {page : VirtualAddress} {taken : List PhysicalAddress}
    {r : Except FaultError Resolution} {root f : PhysicalAddress} {σ : Slot}
    (h : t.Grows page taken t' r) (hf : t'.linked root σ = some f) :
    f ∈ taken ∨ t.linked root σ = some f := by
  have hupdate : ∀ (links : Slot → Option PhysicalAddress) τ g,
      Function.update links τ (some g) σ = some f → f = g ∨ links σ = some f := by
    intro links τ g hup
    by_cases hσ : σ = τ
    · rw [hσ, Function.update_self] at hup
      exact .inl (Option.some.inj hup).symm
    · rw [Function.update_of_ne hσ] at hup
      exact .inr hup
  cases h with
  | directory d g frame absent =>
    rw [linked_setDirectory, linked_setTable, VirtualAddress.indices, linked_setLeaf] at hf
    rcases hupdate _ _ _ hf with rfl | hf
    · exact .inl List.mem_cons_self
    · rcases hupdate _ _ _ hf with rfl | hf
      · exact .inl (List.mem_cons_of_mem _ List.mem_cons_self)
      · exact .inr hf
  | table d g frame above absent =>
    rw [linked_setTable, VirtualAddress.indices, linked_setLeaf] at hf
    exact (hupdate _ _ _ hf).imp (fun hfg => List.mem_singleton.2 hfg) id
  | leaf g frame above free =>
    rw [VirtualAddress.indices, linked_setLeaf] at hf
    exact .inr hf
  | already | failed => exact .inr hf

end TableTree

namespace Pager

/-- A frame that is linked or kept for later tables. -/
def Owned {β : Type} (p : Pager β) (t : TableTree) (f : PhysicalAddress) : Prop :=
  f ∈ p.loose ∨ ∃ σ, t.linked p.layout.root σ = some f

/-- A pager comes by no frames that it did not have. -/
theorem Moved.owned {β : Type} {p p' : Pager β} {t t' : TableTree} {taken : List PhysicalAddress}
    {n : Nat} {f : PhysicalAddress} (h : p.Moved p' taken n)
    (hlinked : ∀ σ, t'.linked p.layout.root σ = some f →
      f ∈ taken ∨ t.linked p.layout.root σ = some f)
    (hf : p'.Owned t' f) : p.Owned t f := by
  have hloose : ∀ g, g ∈ taken ∨ g ∈ p'.loose → g ∈ p.loose := by
    intro g hg
    rw [h.loose]
    exact List.mem_append.2 hg
  rcases hf with hf | ⟨σ, hf⟩
  · exact .inl (hloose f (.inr hf))
  · rw [h.layout] at hf
    exact (hlinked σ hf).imp (fun htaken => hloose f (.inl htaken)) (⟨σ, ·⟩)

end Pager

namespace Paging

variable {β : Type} {s : Paging β} {t t' : TableTree} {page : VirtualAddress}
  {r : Except FaultError Resolution} {p' : Pager β} {stores : List Memory.Store}

/-- The address of an entry in a frame of the pager. -/
def OwnEntry (s : Paging β) (t : TableTree) (address : Nat) : Prop :=
  ∃ f, s.pager.Owned t f ∧ ∃ i < 512, address = Table.entryAddress (s.view.place f) i

theorem ownEntry_of_into {x : Memory.Store} (h : s.view.Into s.pager.loose x) :
    s.OwnEntry t x.address := by
  obtain ⟨f, hf, i, hi, haddress⟩ := h
  exact ⟨f, .inl hf, i, hi, haddress⟩

namespace Realizes

theorem ownEntry_root (s : Paging β) (t : TableTree) (i : Fin 4) :
    s.OwnEntry t (Table.entryAddress (s.view.place s.pager.layout.root) i) :=
  ⟨_, .inr ⟨.root, rfl⟩, i, by omega, rfl⟩

theorem ownEntry_directory (h : s.Realizes t)
    (habove : (s.view.top s.pager.layout.root page).present = true) (j : Fin 512) :
    s.OwnEntry t (Table.entryAddress
      (s.view.place (s.view.top s.pager.layout.root page).directory) j) := by
  obtain ⟨d, hd⟩ := h.exists_directory habove
  rw [h.top_directory hd]
  exact ⟨d, .inr ⟨.directory page.pdptIndex, hd⟩, j, j.isLt, rfl⟩

theorem ownEntry_table (h : s.Realizes t)
    (habove : (s.view.top s.pager.layout.root page).present = true)
    (hpresent : (s.view.middle s.pager.layout.root page).present = true) (k : Fin 512) :
    s.OwnEntry t (Table.entryAddress
      (s.view.place (s.view.middle s.pager.layout.root page).frame) k) := by
  obtain ⟨d, hd⟩ := h.exists_directory habove
  obtain ⟨f, hf⟩ := h.exists_table hd hpresent
  rw [h.middle_frame hd hf]
  exact ⟨f, .inr ⟨.table (page.pdptIndex, page.pdIndex), hf⟩, k, k.isLt, rfl⟩

/-- The entries on the way to a page lie in linked frames. -/
theorem path_owned (h : s.Realizes t) (page : VirtualAddress) :
    ∀ x ∈ s.view.path s.pager.layout.root page, s.OwnEntry t x := by
  intro x hx
  rw [PhysicalView.path] at hx
  rcases List.mem_cons.1 hx with rfl | hx
  · exact ownEntry_root s t page.pdptIndex
  · split at hx
    · rename_i habove
      rcases List.mem_cons.1 hx with rfl | hx
      · exact h.ownEntry_directory habove page.pdIndex
      · split at hx
        · rename_i hpresent
          obtain rfl := List.mem_singleton.1 hx
          exact h.ownEntry_table habove hpresent page.ptIndex
        · cases hx
    · cases hx

theorem install_owned (h : s.Realizes t) {frame : PhysicalAddress}
    (hinstall : Draft.Install s.view s.pager page frame r p' stores) :
    ∀ x ∈ stores, s.OwnEntry t x.address := by
  intro x hx
  cases hinstall with
  | directory _ d f absent moved =>
    rcases List.mem_append.1 hx with hx | hx
    · have hd : d ∈ s.pager.loose := moved.loose ▸ List.mem_cons_self
      have hf : f ∈ s.pager.loose := moved.loose ▸ List.mem_cons_of_mem _ List.mem_cons_self
      exact ownEntry_of_into (s.view.into_directoryStores page frame hd hf x hx)
    · obtain rfl := List.mem_singleton.1 hx
      exact ownEntry_root s t page.pdptIndex
  | table _ f above absent moved =>
    rcases List.mem_append.1 hx with hx | hx
    · have hf : f ∈ s.pager.loose := moved.loose ▸ List.mem_cons_self
      exact ownEntry_of_into (s.view.into_tableStores page frame hf x hx)
    · obtain rfl := List.mem_singleton.1 hx
      exact h.ownEntry_directory above page.pdIndex
  | leaf _ above present absent moved =>
    obtain rfl := List.mem_singleton.1 hx
    exact h.ownEntry_table above present page.ptIndex
  | noDirectory _ _ absent short steady into moved => exact ownEntry_of_into (into x hx)
  | already | noTable => cases hx

variable [Backing β] {fault : PageFault}

/-- What a fault stores goes into frames of the pager. -/
theorem resolve_owned (h : s.Realizes t)
    (hresolve : Draft.Resolve s.view s.pager fault r p' stores) :
    ∀ x ∈ stores, s.OwnEntry t x.address := by
  cases hresolve with
  | violation | unbacked => exact List.forall_mem_nil _
  | backed q _ frame _ _ code isFrame asked install =>
    obtain ⟨hq, hview⟩ := h.asked asked
    intro x hx
    obtain ⟨f, hf, i, hi, haddress⟩ := hq.install_owned (hview ▸ install) x hx
    rw [hview] at haddress
    exact ⟨f, asked.moved.owned (fun _ => .inr) hf, i, hi, haddress⟩

end Realizes

end Paging

/-! ### The first tables -/

/-- The five frames of a layout. -/
def TableLayout.frames (l : TableLayout) : List PhysicalAddress :=
  [l.root, l.directory, l.table, l.spare1, l.spare2]

theorem TableTree.mem_of_linked_first {l : TableLayout} {σ : Slot} {f : PhysicalAddress}
    (hf : (TableTree.first l).linked l.root σ = some f) : f ∈ l.frames := by
  simp only [TableLayout.frames, List.mem_cons]
  cases σ with
  | root => exact .inl (Option.some.inj hf).symm
  | directory i => exact .inr (.inl (Option.some.inj (Option.ite_none_right_eq_some.1 hf).2).symm)
  | table ij => exact .inr (.inr (.inl (Option.some.inj (Option.ite_none_right_eq_some.1 hf).2).symm))

namespace PhysicalView

theorem clearStores_eq (v : PhysicalView) (l : TableLayout) :
    v.clearStores l = l.frames.flatMap fun f => Table.zeroStores (v.place f) := by
  simp only [clearStores, TableLayout.frames, List.flatMap_cons, List.flatMap_nil, List.append_nil,
    List.append_assoc]

/-- The first tables are built in the frames of their layout. -/
theorem into_firstStores (v : PhysicalView) (l : TableLayout) :
    ∀ x ∈ v.firstStores l, v.Into l.frames x := by
  intro x hx
  simp only [firstStores, clearStores_eq, List.mem_append, List.mem_singleton, or_assoc] at hx
  rcases hx with hx | hx | rfl | rfl
  · obtain ⟨f, hf, hx⟩ := List.mem_flatMap.1 hx
    exact v.into_zeroStores hf x hx
  · obtain ⟨i, hi, rfl⟩ := List.mem_map.1 hx
    have hcount := Nat.min_le_right l.identityPages tableEntries
    exact ⟨l.table, by simp [TableLayout.frames], i,
      Nat.lt_of_lt_of_le (List.mem_range.1 hi) hcount, rfl⟩
  · exact ⟨l.directory, by simp [TableLayout.frames], 0, by decide, rfl⟩
  · exact ⟨l.root, by simp [TableLayout.frames], 0, by decide, rfl⟩

end PhysicalView

end PaeKernel
