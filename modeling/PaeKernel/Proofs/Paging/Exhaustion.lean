import PaeKernel.Proofs.Paging.FrameOrder
import PaeKernel.Proofs.Paging.Stock
import PaeKernel.Proofs.Paging.WellFormed

/-!
# Running out of frames for tables

A page needs up to two tables (`Paging.need`), and whether a fault maps it is decided by the frames
left for them (`Pager.available`). A fault may fail only after it took the first of two frames. That
frame is emptied and becomes the spare one, so nothing that is linked changes and no frame is lost.
Only a source that cannot be asked for one frame more (`FrameSource.Steady`) overflows then, and the
fault has no answer. `Paging.Rations` says so of one state, and `Paging.faults_ration_frames` of every
state that faults lead to. Nothing is asked of the backing: a fault that panics over it has stored
nothing (`Draft.resolve_misled`).
-/

namespace PaeKernel

/-! ### One draft -/

namespace Draft

variable {β : Type} {v : PhysicalView} {p p' : Pager β} {page : VirtualAddress}
  {frame : PhysicalAddress} {r : Except FaultError Resolution} {stores : List Memory.Store}

/-- With frames for the tables that are missing a free page is mapped, and these frames are used. -/
theorem Install.of_missing_le (h : Install v p page frame r p' stores)
    (hfree : (v.top p.layout.root page).present = true →
      (v.middle p.layout.root page).present = true → (v.bottom p.layout.root page).present = false)
    (hroom : v.missing p.layout.root page ≤ p.loose.length) :
    r = .ok (.mapped page frame (v.missing p.layout.root page == 2))
      ∧ ∃ taken, p.Moved p' taken 1 ∧ taken.length = v.missing p.layout.root page := by
  cases h with
  | directory _ directory table absent moved =>
    rw [PhysicalView.missing_of_top absent]
    exact ⟨rfl, _, moved, rfl⟩
  | table _ table above absent moved =>
    rw [PhysicalView.missing_of_middle above absent]
    exact ⟨rfl, _, moved, rfl⟩
  | leaf _ above present absent moved =>
    rw [PhysicalView.missing_of_present above present]
    exact ⟨rfl, _, moved, rfl⟩
  | already _ above middle present moved =>
    exact absurd ((hfree above middle).symm.trans present) Bool.false_ne_true
  | noDirectory _ _ absent short steady into moved =>
    rw [PhysicalView.missing_of_top absent] at hroom
    exact absurd short (Nat.not_lt.2 hroom)
  | noTable _ above absent short steady moved =>
    rw [PhysicalView.missing_of_middle above absent, short] at hroom
    cases hroom

/-- With fewer frames than tables that are missing no page is mapped; the source has been asked for
one frame too many. -/
theorem Install.of_lt_missing (h : Install v p page frame r p' stores)
    (hshort : p.loose.length < v.missing p.layout.root page) :
    r = .error (.outOfTables page) ∧ p.frames.Steady := by
  cases h with
  | directory _ directory table absent moved =>
    rw [PhysicalView.missing_of_top absent, moved.loose] at hshort
    simp only [List.length_append, List.length_cons, List.length_nil] at hshort
    omega
  | table _ table above absent moved =>
    rw [PhysicalView.missing_of_middle above absent, moved.loose] at hshort
    simp only [List.length_append, List.length_cons, List.length_nil] at hshort
    omega
  | leaf _ above present absent moved =>
    rw [PhysicalView.missing_of_present above present] at hshort
    cases hshort
  | already _ above middle present moved =>
    rw [PhysicalView.missing_of_present above middle] at hshort
    cases hshort
  | noDirectory _ _ absent short steady into moved => exact ⟨rfl, steady⟩
  | noTable _ above absent short steady moved => exact ⟨rfl, steady⟩

variable [Backing β] {fault : PageFault}

/-- An error moves no frame, and what was stored went into frames that no table uses. -/
theorem Resolve.of_error {err : FaultError} (h : Resolve v p fault (.error err) p' stores) :
    { p with backing := p'.backing }.Moved p' [] 0 ∧ ∀ x ∈ stores, v.Into p.loose x := by
  cases h with
  | violation _ code moved =>
    rw [moved.backing]
    exact ⟨moved, List.forall_mem_nil _⟩
  | unbacked _ code asked => exact ⟨asked.moved, List.forall_mem_nil _⟩
  | backed q _ frame _ _ code isFrame asked install =>
    have hloose : p.loose = q.loose := asked.moved.loose_eq
    cases install with
    | noDirectory _ _ absent short steady into moved =>
      rw [moved.backing, hloose]
      exact ⟨asked.moved.trans moved, into⟩
    | noTable _ above absent short steady moved =>
      rw [moved.backing]
      exact ⟨asked.moved.trans moved, List.forall_mem_nil _⟩

/-- A fault panics before anything is stored if the backing panics or has a frame that no entry can
name. -/
theorem resolve_misled {answer : Except Panic (Option PhysicalAddress)} {b : β}
    (hcode : fault.code.present = false)
    (hasked : Backing.frameFor fault.address.pageBase p.backing = (answer, b))
    (hbad : ∀ o, answer = .ok o → ∃ f, o = some f ∧ ¬ f.IsFrame) (m : Memory) :
    ∃ e log, resolve m fault { pager := p }
      = (.error e, { pager := { p with backing := b, log } }) := by
  rw [resolve, Exec.bind_of_ok (record_apply _ _ _), if_neg (hcode ▸ Bool.false_ne_true)]
  generalize p.log ++ [⟨.warn, target, fault.display⟩] = log
  have hrun : backingFrame fault.address.pageBase { pager := { p with log } }
      = (answer, ({ pager := { p with log, backing := b } } : Draft β)) := by
    rw [backingFrame, Exec.zoom, hasked]
  cases answer with
  | error e => exact ⟨e, log, Exec.bind_of_error hrun⟩
  | ok o =>
    obtain ⟨f, rfl, hf⟩ := hbad o rfl
    rw [Exec.bind_of_ok hrun]
    dsimp only
    by_cases haligned : f.isPageAligned = true
    · obtain ⟨e, hfar⟩ := PageEntry.kernelWritable_of_le
        (Nat.le_of_not_lt fun hlt => hf ⟨haligned, hlt⟩)
      refine ⟨e, log, ?_⟩
      rw [Exec.require_bind_of_pos haligned, install, hfar]
      exact Exec.bind_of_error (Exec.check_apply _ _)
    · exact ⟨.unalignedFrame, log, Exec.require_bind_of_neg haligned _ _ _⟩

/-- A fault is answered, or it panics over what the backing does before anything is stored, or its
page lacks tables and the source overflows. -/
theorem resolve_outcome (hfit : p.Fit) (m : Memory) (fault : PageFault) :
    (∃ e p', resolve m fault { pager := p } = (.error e, ⟨p', []⟩)
      ∧ { p with backing := p'.backing }.Moved p' [] 0)
    ∨ (∃ d', resolve m fault { pager := p } = (.error .addOverflow, d')
      ∧ Stopped ⟨p.window, m⟩ fault.address.pageBase
        { pager := { p with backing := d'.pager.backing } } d')
    ∨ ∃ r p' stores, resolve m fault { pager := p } = (.ok r, ⟨p', stores⟩)
      ∧ Resolve ⟨p.window, m⟩ p fault r p' stores := by
  cases hcode : fault.code.present with
  | true =>
    obtain ⟨log, hrun⟩ := resolve_violation hcode m p
    exact .inr (.inr ⟨_, _, [], hrun, .violation _ hcode ((Pager.Moved.refl p).logged log)⟩)
  | false =>
    rcases hasked : Backing.frameFor fault.address.pageBase p.backing with ⟨answer, b⟩
    match answer, hasked with
    | .error e, hasked =>
      obtain ⟨_, log, hrun⟩ := resolve_misled hcode hasked nofun m
      exact .inl ⟨_, _, hrun, (Pager.Moved.refl _).logged log⟩
    | .ok none, hasked =>
      obtain ⟨log, hrun⟩ := resolve_asked hcode hasked nofun m
      exact .inr (.inr ⟨_, _, [], hrun,
        .unbacked _ hcode ⟨hasked, (Pager.Moved.refl _).logged log⟩⟩)
    | .ok (some frame), hasked =>
      by_cases hframe : frame.IsFrame
      · rcases resolve_backed hfit hcode hasked hframe m with
          ⟨d', hrun, hstopped⟩ | ⟨q, r, p', stores, hrun, hq, hinstall⟩
        · obtain rfl := hstopped.backing_eq
          exact .inr (.inl ⟨d', hrun, hstopped⟩)
        · exact .inr (.inr ⟨r, p', stores, hrun,
            .backed q p' frame r stores hcode hframe hq hinstall⟩)
      · obtain ⟨_, log, hrun⟩ := resolve_misled hcode hasked
          (fun o ho => ⟨frame, (Except.ok.inj ho).symm, hframe⟩) m
        exact .inl ⟨_, _, hrun, (Pager.Moved.refl _).logged log⟩

end Draft

/-! ### One fault -/

namespace TableTree

/-- A growing tree links all the frames it takes. -/
theorem Grows.exists_linked {t t' : TableTree} {page : VirtualAddress}
    {taken : List PhysicalAddress} {r : Except FaultError Resolution} {f : PhysicalAddress}
    (h : t.Grows page taken t' r) (hf : f ∈ taken) (root : PhysicalAddress) :
    ∃ σ, t'.linked root σ = some f := by
  cases h with
  | directory d g frame absent =>
    rcases List.mem_cons.1 hf with rfl | hf
    · exact ⟨.directory page.pdptIndex, directory_setDirectory_self _ _ _⟩
    · obtain rfl := List.mem_singleton.1 hf
      exact ⟨.table (page.pdptIndex, page.pdIndex), table_setTable_self _ _ _⟩
  | table d g frame above absent =>
    obtain rfl := List.mem_singleton.1 hf
    exact ⟨.table (page.pdptIndex, page.pdIndex), table_setTable_self _ _ _⟩
  | leaf | already | failed => cases hf

end TableTree

namespace Paging

open TableTree

variable {β : Type} {s s' : Paging β} {t : TableTree}

/-- How many tables a page still needs: a directory and a table, just a table, or none. -/
def need (s : Paging β) (page : VirtualAddress) : Nat :=
  s.view.missing s.pager.layout.root page

theorem need_le_two (s : Paging β) (page : VirtualAddress) : s.need page ≤ 2 := by
  rw [need, PhysicalView.missing]
  split
  · split <;> omega
  · exact Nat.le_refl 2

theorem Realizes.need_eq (h : s.Realizes t) (page : VirtualAddress) :
    s.need page = if t.directory page.pdptIndex = none then 2
      else if t.table (page.pdptIndex, page.pdIndex) = none then 1 else 0 := by
  cases hd : t.directory page.pdptIndex with
  | none => exact PhysicalView.missing_of_top (by rw [h.top_present, hd]; rfl)
  | some d =>
    have habove : (s.view.top s.pager.layout.root page).present = true := by
      rw [h.top_present, hd]
      rfl
    rw [if_neg (Option.some_ne_none d)]
    cases hf : t.table (page.pdptIndex, page.pdIndex) with
    | none => exact PhysicalView.missing_of_middle habove (by rw [h.middle_present hd, hf]; rfl)
    | some f => exact PhysicalView.missing_of_present habove (by rw [h.middle_present hd, hf]; rfl)

/-- The entry of a page that is not translated is free. -/
theorem Realizes.bottom_free (h : s.Realizes t) {a : VirtualAddress} (hnone : s.translate a = none)
    (habove : (s.view.top s.pager.layout.root a.pageBase).present = true)
    (hpresent : (s.view.middle s.pager.layout.root a.pageBase).present = true) :
    (s.view.bottom s.pager.layout.root a.pageBase).present = false := by
  obtain ⟨d, hd⟩ := h.exists_directory habove
  obtain ⟨f, hf⟩ := h.exists_table hd hpresent
  have hleaf : t.leaf a.pageBase.indices = none := by
    rw [h.translate_eq, PageMap.translate, Option.map_eq_none_iff] at hnone
    exact hnone
  rw [h.bottom_present hd hf, hleaf]
  rfl

/-- What a fault that ends in an error leaves as it was: all words of linked tables and so what is
translated, the count of mapped pages, the frames for later tables and what pages need of them. -/
structure Unharmed (s s' : Paging β) : Prop where
  words : ∀ σ f, s.tree.linked s.pager.layout.root σ = some f →
    ∀ n < 512, s'.view.bitsAt f n = s.view.bitsAt f n
  translate : ∀ a, s'.translate a = s.translate a
  installed : s'.pager.installed = s.pager.installed
  loose : s'.pager.loose = s.pager.loose
  available : s'.pager.available = s.pager.available
  need : ∀ page, s'.need page = s.need page

variable [Backing β] {fault : PageFault} {frame : PhysicalAddress}

/-- A fault on a page that is not translated and that the backing has a frame for. -/
structure Missed (s : Paging β) (fault : PageFault) (frame : PhysicalAddress) : Prop where
  code : fault.code.present = false
  unmapped : s.translate fault.address = none
  backed : (Backing.frameFor fault.address.pageBase s.pager.backing).1 = .ok (some frame)
  isFrame : frame.IsFrame

/-- A fault maps its page to the frame and spends just what the page needs. -/
structure Maps (s : Paging β) (fault : PageFault) (frame : PhysicalAddress) (s' : Paging β) :
    Prop where
  answer : handleFault fault s = (.ok (.ok (.mapped fault.address.pageBase frame
    (s.need fault.address.pageBase == 2))), s')
  available : s'.pager.available + s.need fault.address.pageBase = s.pager.available
  installed : s'.pager.installed = s.pager.installed + 1

/-- A missed fault comes down to mapping its page, unless the source overflows over a table that is
missing. -/
theorem Realizes.install_of_missed (h : s.Realizes t) (hmissed : s.Missed fault frame) :
    ((handleFault fault s).1 = .error .addOverflow ∧ ¬ s.pager.frames.Steady
      ∧ s.pager.available < s.need fault.address.pageBase)
    ∨ ∃ q r p' stores, handleFault fault s = (.ok r, ⟨p', s.memory.apply stores⟩)
      ∧ s.pager.Asked fault.address.pageBase (some frame) q
      ∧ Draft.Install s.view q fault.address.pageBase frame r p' stores
      ∧ q.loose.length = s.pager.available
      ∧ s.view.missing q.layout.root fault.address.pageBase = s.need fault.address.pageBase := by
  have hasked : Backing.frameFor fault.address.pageBase s.pager.backing = (.ok (some frame), _) :=
    Prod.ext hmissed.backed rfl
  rcases Draft.resolve_backed h.fit hmissed.code hasked hmissed.isFrame s.memory with
    ⟨d', hpanic, hstopped⟩ | ⟨q, r, p', stores, hrun, hasked, hinstall⟩
  · refine .inl ⟨?_, hstopped.unsteady, ?_⟩
    · rw [handleFault_eq fault hpanic]
    · rw [← Pager.length_loose]
      exact hstopped.short
  · refine .inr ⟨q, r, p', stores, handleFault_eq fault hrun, hasked, hinstall, ?_, ?_⟩
    · rw [← Pager.length_loose, ← hasked.moved.loose_eq]
      rfl
    · rw [hasked.moved.layout]
      rfl

/-- With frames enough a missed fault is mapped, and no source overflows. -/
theorem Realizes.maps (h : s.Realizes t) (hmissed : s.Missed fault frame)
    (hroom : s.need fault.address.pageBase ≤ s.pager.available) : ∃ s', s.Maps fault frame s' := by
  rcases h.install_of_missed hmissed with
    ⟨-, -, hshort⟩ | ⟨q, r, p', stores, hrun, hasked, hinstall, havailable, hneed⟩
  · exact absurd hroom (Nat.not_le.2 hshort)
  have hfree := h.bottom_free hmissed.unmapped
  have hlayout : q.layout = s.pager.layout := hasked.moved.layout
  rw [← havailable, ← hneed] at hroom
  rw [← hlayout] at hfree
  obtain ⟨rfl, taken, hmoved, htaken⟩ := hinstall.of_missing_le hfree hroom
  rw [hneed] at hrun htaken
  refine ⟨_, hrun, ?_, ?_⟩
  · have hspent := hmoved.available_eq
    rwa [htaken, ← q.length_loose, havailable] at hspent
  · exact hmoved.installed.trans (congrArg (· + 1) hasked.moved.installed)

/-- Without, it is out of tables if the source can be asked for one frame more, and else it
overflows. -/
theorem Realizes.short_answer (h : s.Realizes t) (hmissed : s.Missed fault frame)
    (hshort : s.pager.available < s.need fault.address.pageBase) :
    (s.pager.frames.Steady →
      (handleFault fault s).1 = .ok (.error (.outOfTables fault.address.pageBase)))
    ∧ (¬ s.pager.frames.Steady → (handleFault fault s).1 = .error .addOverflow) := by
  rcases h.install_of_missed hmissed with
    ⟨hpanic, hunsteady, -⟩ | ⟨q, r, p', stores, hrun, hasked, hinstall, havailable, hneed⟩
  · exact ⟨fun hsteady => absurd hsteady hunsteady, fun _ => hpanic⟩
  · rw [← havailable, ← hneed] at hshort
    obtain ⟨rfl, hsteady⟩ := hinstall.of_lt_missing hshort
    rw [hrun]
    exact ⟨fun _ => rfl, fun hunsteady => absurd (hasked.moved.steady.1 hsteady) hunsteady⟩

/-- However a fault ends, the tables spell a tree. The frames used are linked in it, unless the
source overflowed. -/
theorem Realizes.handleFault_linked (h : s.Realizes t) (fault : PageFault) :
    ∃ t' taken n, (handleFault fault s).2.Realizes t'
      ∧ { s.pager with backing := (handleFault fault s).2.pager.backing }.Moved
        (handleFault fault s).2.pager taken n
      ∧ ((s.pager.frames.Steady ∨ ∃ r, (handleFault fault s).1 = .ok r) →
        ∀ f ∈ taken, ∃ σ, t'.linked s.pager.layout.root σ = some f) := by
  rcases Draft.resolve_outcome h.fit s.memory fault with
    ⟨e, p', hrun, hmoved⟩ | ⟨⟨p', stores⟩, hrun, hstopped⟩ | ⟨r, p', stores, hrun, hresolve⟩
  · rw [handleFault_eq fault hrun]
    exact ⟨t, [], 0, h.unchanged p'.backing hmoved, hmoved, fun _ => List.forall_mem_nil _⟩
  · obtain ⟨taken, hmoved⟩ := hstopped.moved
    rw [handleFault_eq fault hrun]
    refine ⟨t, taken, 0, (h.stopped hstopped).2, hmoved, ?_⟩
    rintro (hsteady | ⟨r, hr⟩)
    · exact absurd hsteady hstopped.unsteady
    · cases hr
  · obtain ⟨t', taken, n, hrealizes, hgrows, hmoved⟩ := h.resolve hresolve
    rw [handleFault_eq fault hrun]
    exact ⟨t', taken, n, hrealizes, hmoved, fun _ f hf => hgrows.exists_linked hf _⟩

/-- A spare frame that a fault does not link stays the spare one. -/
theorem Realizes.spare_or_linked (h : s.Realizes t) (fault : PageFault)
    (hends : s.pager.frames.Steady ∨ ∃ r, (handleFault fault s).1 = .ok r) {f : PhysicalAddress}
    (hf : s.pager.spare = some f) : (handleFault fault s).2.pager.spare = some f
      ∨ ∃ σ, (handleFault fault s).2.tree.linked s.pager.layout.root σ = some f := by
  obtain ⟨t', taken, n, hrealizes, hmoved, hlinked⟩ := h.handleFault_linked fault
  rw [hrealizes.tree_eq]
  have hstock : (handleFault fault s).2.pager.frames.remaining ≤ s.pager.frames.remaining :=
    Draft.resolve_dwindles s.memory fault { pager := s.pager }
  exact (hmoved.spare_or_taken hstock hf).imp_right (hlinked hends f)

theorem Realizes.unharmed (h : s.Realizes t) {err : FaultError}
    (hrun : handleFault fault s = (.ok (.error err), s')) : s.Unharmed s' := by
  rcases Draft.resolve_outcome h.fit s.memory fault with
    ⟨e, p', hpanic, -⟩ | ⟨d', hpanic, -⟩ | ⟨r, p', stores, hanswer, hresolve⟩
  · cases hrun.symm.trans (handleFault_eq fault hpanic)
  · cases hrun.symm.trans (handleFault_eq fault hpanic)
  obtain ⟨hr, rfl⟩ := Prod.mk.inj (hrun.symm.trans (handleFault_eq fault hanswer))
  obtain rfl := Except.ok.inj hr
  obtain ⟨hmoved, hinto⟩ := hresolve.of_error
  have hrealizes := (h.of_backing p'.backing).stayed hmoved hinto
  have hloose : s.pager.loose = p'.loose := hmoved.loose_eq
  refine ⟨?_, ?_, hmoved.installed, hloose.symm, ?_, ?_⟩
  · intro σ f hf n hn
    rw [h.tree_eq] at hf
    rw [view_of_window hmoved.window]
    exact s.view.bitsAt_apply_of_into hinto h.ledger.loose_frame (h.ledger.frame σ f hf)
      (h.ledger.apart σ f hf) hn
  · intro a
    rw [h.translate_eq, hrealizes.translate_eq]
  · show p'.available = s.pager.available
    rw [← Pager.length_loose, ← Pager.length_loose, hloose]
  · intro page
    rw [h.need_eq, hrealizes.need_eq]

/-! ### Runs -/

/-- How a pager goes about its last frames. A missed fault is mapped if the frames left are enough
for its page. Else it is out of tables, or it overflows if the source cannot be asked for one frame
more. Every fault that ends in an error leaves things as they were, so that a later fault is mapped
for which there were frames enough before. A spare frame stays the spare one until it is linked. -/
structure Rations (s : Paging β) : Prop where
  maps : ∀ fault frame, s.Missed fault frame →
    s.need fault.address.pageBase ≤ s.pager.available → ∃ s', s.Maps fault frame s'
  short : ∀ fault frame, s.Missed fault frame →
    s.pager.available < s.need fault.address.pageBase →
      (s.pager.frames.Steady →
        (handleFault fault s).1 = .ok (.error (.outOfTables fault.address.pageBase)))
      ∧ (¬ s.pager.frames.Steady → (handleFault fault s).1 = .error .addOverflow)
  noBackingFrame : ∀ fault, fault.code.present = false →
    (Backing.frameFor fault.address.pageBase s.pager.backing).1 = .ok none →
    (handleFault fault s).1 = .ok (.error (.noBackingFrame fault.address.pageBase))
  violation : ∀ fault, fault.code.present = true →
    (handleFault fault s).1 = .ok (.error (.protectionViolation fault.address fault.code))
  unharmed : ∀ fault err s', handleFault fault s = (.ok (.error err), s') → s.Unharmed s'
  later : ∀ fault err s', handleFault fault s = (.ok (.error err), s') →
    ∀ next frame, s'.Missed next frame → s.need next.address.pageBase ≤ s.pager.available →
      ∃ s'', s'.Maps next frame s''
  spare : ∀ fault, (s.pager.frames.Steady ∨ ∃ r, (handleFault fault s).1 = .ok r) →
    ∀ f, s.pager.spare = some f → (handleFault fault s).2.pager.spare = some f
      ∨ ∃ σ, (handleFault fault s).2.tree.linked s.pager.layout.root σ = some f

theorem Realizes.rations (h : s.Realizes t) : s.Rations := by
  refine ⟨fun _ _ => h.maps, fun _ _ => h.short_answer, ?_, ?_, fun _ _ _ => h.unharmed, ?_,
    fun fault hends _ => h.spare_or_linked fault hends⟩
  · intro fault hcode hasked
    obtain ⟨log, hrun⟩ := Draft.resolve_asked hcode (Prod.ext hasked rfl) nofun s.memory
    rw [handleFault_eq fault hrun]
  · intro fault hcode
    obtain ⟨log, hrun⟩ := Draft.resolve_violation hcode s.memory s.pager
    rw [handleFault_eq fault hrun]
  · intro fault err s' hrun next frame hmissed hroom
    have hunharmed := h.unharmed hrun
    obtain ⟨t', -, -, hrealizes', -⟩ := h.handleFault_linked fault
    rw [hrun] at hrealizes'
    rw [← hunharmed.need, ← hunharmed.available] at hroom
    exact hrealizes'.maps hmissed hroom

/-- Whatever faults come to, the tables spell a tree, and the source can be asked for one frame more
as it could before. -/
theorem Realizes.afterFaults (h : s.Realizes t) (faults : List PageFault) :
    ∃ t', (s.afterFaults faults).Realizes t'
      ∧ ((s.afterFaults faults).pager.frames.Steady ↔ s.pager.frames.Steady) := by
  induction faults generalizing s t with
  | nil => exact ⟨t, h, .rfl⟩
  | cons fault rest ih =>
    obtain ⟨t₁, taken, n, hrealizes, hmoved, -⟩ := h.handleFault_linked fault
    obtain ⟨t', hrealizes', hsteady⟩ := ih hrealizes
    exact ⟨t', hrealizes', hsteady.trans hmoved.steady⟩

/-- Running out of frames for tables is exact and atomic in every state that faults lead to,
whatever the backing has for the pages and whatever memory held before, except that a source that
cannot be asked for one frame more overflows then. Which sources made from a range can be asked says
`FrameSource.steady_iff_of_bump`. -/
theorem faults_ration_frames {p : Pager β} (hp : p.Ready) (m : Memory) :
    ∃ s, initTables ⟨p, m⟩ = (.ok (), s) ∧ ∀ faults, (s.afterFaults faults).Rations
      ∧ ((s.afterFaults faults).pager.frames.Steady ↔ p.frames.Steady) := by
  obtain ⟨s, hinit, hrealizes, -, hframes⟩ := initTables_realizes hp m
  refine ⟨s, hinit, fun faults => ?_⟩
  obtain ⟨t', hrealizes', hsteady⟩ := hrealizes.afterFaults faults
  exact ⟨hrealizes'.rations, hframes ▸ hsteady⟩

end Paging

/-- The pager the kernel starts with, and a single page for new tables. -/
def Pager.scarce : Pager IdentityBacking where
  layout := .boot
  frames := ⟨[], 0x200000, 0x201000⟩
  backing := {}

theorem Pager.ready_scarce : Pager.scarce.Ready where
  stop := by decide
  root := ⟨rfl, by decide⟩
  directory := ⟨rfl, by decide⟩
  table := ⟨rfl, by decide⟩
  loose := by decide
  nodup := by decide

/-- The pager the kernel starts with, and for new tables an empty range that starts just before the
last page of all. -/
def Pager.reversed : Pager IdentityBacking where
  layout := .boot
  frames := ⟨[], 0xFFFFFFFFFFFFF000, 0xFFFFFFFFFFFFF000⟩
  backing := {}

theorem Pager.ready_reversed : Pager.reversed.Ready where
  stop := by decide
  root := ⟨rfl, by decide⟩
  directory := ⟨rfl, by decide⟩
  table := ⟨rfl, by decide⟩
  loose := by decide
  nodup := by decide

theorem Pager.bump_scarce : FrameSource.bump [] 0x1FF001 0x201FFF = .ok Pager.scarce.frames := rfl

theorem Pager.bump_reversed :
    FrameSource.bump [] 0xFFFFFFFFFFFFE001 0 = .ok Pager.reversed.frames := rfl

namespace Paging

/-- A page that needs a directory and a table is not mapped, and the frame that was there for one of
them makes the table of another page. Over the reversed range the search for a frame overflows. -/
theorem faults_ration_frames_sample : (∃ s s' s'',
    initTables ⟨.scarce, .filled 0xA5⟩ = (.ok (), s)
    ∧ handleFault ⟨.ofNat 0x80000000, ⟨0⟩⟩ s
      = (.ok (.error (.outOfTables (.ofNat 0x80000000))), s')
    ∧ s'.Maps ⟨.ofNat 0x400123, ⟨2⟩⟩ (.ofNat 0x400000) s'')
    ∧ ∃ s, initTables ⟨.reversed, .filled 0xA5⟩ = (.ok (), s)
      ∧ (handleFault ⟨.ofNat 0x80000000, ⟨0⟩⟩ s).1 = .error .addOverflow := by
  constructor
  · obtain ⟨s, hinit, hfaults⟩ := faults_ration_frames Pager.ready_scarce (.filled 0xA5)
    obtain ⟨hrations, hsteady⟩ : s.Rations ∧ _ := hfaults []
    obtain ⟨_, hinit', hrealizes, -⟩ := initTables_realizes Pager.ready_scarce (.filled 0xA5)
    cases hinit.symm.trans hinit'
    obtain ⟨log, hpager⟩ := initTables_pager Pager.ready_scarce hinit
    have havailable : s.pager.available = 1 := by
      rw [hpager]
      show Pager.scarce.available = 1
      decide
    have hshort : s.pager.available < s.need (.ofNat 0x80000000) := by
      rw [havailable, hrealizes.need_eq]
      decide
    have hroom : s.need (.ofNat 0x400000) ≤ s.pager.available := by
      rw [havailable, hrealizes.need_eq]
      decide
    have hmissed : s.Missed ⟨.ofNat 0x80000000, ⟨0⟩⟩ (.ofNat 0x80000000) := by
      refine ⟨rfl, ?_, rfl, by decide⟩
      rw [hrealizes.translate_eq]
      decide
    have hanswer := (hrations.short _ _ hmissed hshort).1 (hsteady.2
      ((FrameSource.steady_iff_of_bump (by decide) Pager.bump_scarce).2 (by decide)))
    generalize hs' : (handleFault ⟨.ofNat 0x80000000, ⟨0⟩⟩ s).2 = s'
    have hrun : handleFault ⟨.ofNat 0x80000000, ⟨0⟩⟩ s
        = (.ok (.error (.outOfTables (.ofNat 0x80000000))), s') := Prod.ext hanswer hs'
    have hmissed' : s'.Missed ⟨.ofNat 0x400123, ⟨2⟩⟩ (.ofNat 0x400000) := by
      refine ⟨rfl, ?_, rfl, by decide⟩
      rw [(hrations.unharmed _ _ _ hrun).translate, hrealizes.translate_eq]
      decide
    obtain ⟨s'', hmaps⟩ := hrations.later _ _ _ hrun _ _ hmissed' hroom
    exact ⟨s, s', s'', hinit, hrun, hmaps⟩
  · obtain ⟨s, hinit, hfaults⟩ := faults_ration_frames Pager.ready_reversed (.filled 0xA5)
    obtain ⟨hrations, hsteady⟩ : s.Rations ∧ _ := hfaults []
    obtain ⟨_, hinit', hrealizes, -⟩ := initTables_realizes Pager.ready_reversed (.filled 0xA5)
    cases hinit.symm.trans hinit'
    obtain ⟨log, hpager⟩ := initTables_pager Pager.ready_reversed hinit
    have hshort : s.pager.available < s.need (.ofNat 0x80000000) := by
      rw [hrealizes.need_eq, hpager]
      show Pager.reversed.available < _
      decide
    have hmissed : s.Missed ⟨.ofNat 0x80000000, ⟨0⟩⟩ (.ofNat 0x80000000) := by
      refine ⟨rfl, ?_, rfl, by decide⟩
      rw [hrealizes.translate_eq]
      decide
    have hunsteady : ¬ s.pager.frames.Steady := fun hs => absurd
      ((FrameSource.steady_iff_of_bump (by decide) Pager.bump_reversed).1 (hsteady.1 hs))
      (by decide)
    exact ⟨s, hinit, (hrations.short _ _ hmissed hshort).2 hunsteady⟩

end Paging

end PaeKernel
