import PaeKernel.Proofs.Paging.WellFormed

/-!
# A processor that keeps the root table

The processor walks from its own copy of the four root entries. It reads them when the tables have
been built and again after each fault whose resolution asks for it (`Cached`). That is enough: the
copy never differs from the root table, and no resolution asks for a reload in vain
(`reloads_keep_fresh`).
-/

namespace PaeKernel

theorem entryBits_inj {switches : Nat} (hs : 0 < switches) {o o' : Option PhysicalAddress} :
    entryBits switches o = entryBits switches o' ↔ o = o' := by
  constructor
  · intro h
    cases o <;> cases o' <;> simp only [entryBits] at h
    · rfl
    · omega
    · omega
    · exact congrArg some (PhysicalAddress.ext (Nat.add_right_cancel h))
  · rintro rfl
    rfl

/-- Whether a call of the fault handler ended with a resolution that asks for a reload. -/
def asksReload : Except Panic (Except FaultError Resolution) → Bool
  | .ok (.ok resolution) => resolution.requiresReload
  | .ok (.error _) => false
  | .error _ => false

namespace TableTree

variable {t t' : TableTree} {page : VirtualAddress} {taken : List PhysicalAddress}
  {r : Except FaultError Resolution}

/-- A reload is asked for just when a directory was linked. -/
theorem Grows.reload_iff (h : t.Grows page taken t' r) :
    asksReload (.ok r) = true ↔ ∃ i, t'.directory i ≠ t.directory i := by
  have hkept : (∃ i, t.directory i ≠ t.directory i) → false = true := fun ⟨_, hne⟩ => (hne rfl).elim
  cases h with
  | directory d f frame absent =>
    refine ⟨fun _ => ⟨page.pdptIndex, ?_⟩, fun _ => rfl⟩
    rw [directory_setDirectory_self, absent]
    exact Option.some_ne_none d
  | table | leaf | already | failed => exact ⟨nofun, hkept⟩

end TableTree

namespace Paging

open TableTree

variable {β : Type} {s s' : Paging β} {t t' : TableTree}

theorem Realizes.roots_ne_iff (h : s.Realizes t) (h' : s'.Realizes t') (i : Fin 4) :
    s'.roots i ≠ s.roots i ↔ t'.directory i ≠ t.directory i := by
  rw [h.roots_eq, h'.roots_eq, ne_eq, ne_eq, RootEntry.mk.injEq, entryBits_inj (by decide)]

/-- A call asks for a reload just when it changed an entry of the root table. -/
theorem reload_iff [Backing β] {Good : β → Prop} (hb : Backing.Honors Good) (h : s.Realizes t)
    (hgood : Good s.pager.backing) (fault : PageFault) :
    asksReload (handleFault fault s).1 = true
      ↔ ∃ i, (handleFault fault s).2.roots i ≠ s.roots i := by
  rcases h.handleFault_outcome hb hgood fault with
    ⟨s', hrun, -, -, hrealizes, -⟩ | ⟨r, p', hrun, hresolve, -⟩
  · rw [hrun]
    simp only [h.roots_ne_iff hrealizes]
    exact ⟨nofun, fun ⟨_, hne⟩ => (hne rfl).elim⟩
  · obtain ⟨t', _, _, hrealizes, hgrows, -⟩ := h.resolve hresolve
    rw [hrun]
    simp only [h.roots_ne_iff hrealizes]
    exact hgrows.reload_iff

end Paging

/-- Tables and a processor's own copy of the root table. -/
structure Cached (β : Type) where
  paging : Paging β
  roots : Fin 4 → RootEntry

namespace Cached

variable {β : Type}

/-- A processor that has just read the root table. -/
def load (s : Paging β) : Cached β := ⟨s, s.roots⟩

/-- The physical address that the processor finds. -/
def translate (c : Cached β) (a : VirtualAddress) : Option PhysicalAddress :=
  c.paging.view.walk (c.roots a.pdptIndex) a

variable [Backing β]

/-- A fault is handled, and the root table is read again if the resolution asks for it. -/
def step (c : Cached β) (fault : PageFault) : Cached β :=
  if asksReload (Paging.handleFault fault c.paging).1 then
    load (Paging.handleFault fault c.paging).2
  else ⟨(Paging.handleFault fault c.paging).2, c.roots⟩

/-- Faults are handled one after another. -/
def run (c : Cached β) (faults : List PageFault) : Cached β := faults.foldl step c

/-- The copy is the root table, the processor finds what the tables in memory say, and the next
fault asks for a reload just if it changes an entry of the root table. -/
structure Fresh (c : Cached β) : Prop where
  roots_eq : c.roots = c.paging.roots
  translate_eq : ∀ a, c.translate a = c.paging.translate a
  reload_iff : ∀ fault, asksReload (Paging.handleFault fault c.paging).1 = true
    ↔ ∃ i, (Paging.handleFault fault c.paging).2.roots i ≠ c.paging.roots i

variable {c : Cached β} {t : TableTree} {Good : β → Prop}

theorem paging_step (c : Cached β) (fault : PageFault) :
    (c.step fault).paging = (Paging.handleFault fault c.paging).2 := by
  rw [step]
  split <;> rfl

/-- A copy that is not read again is still that of the root table. -/
theorem roots_step (hb : Backing.Honors Good) (h : c.paging.Realizes t)
    (hgood : Good c.paging.pager.backing) (hroots : c.roots = c.paging.roots)
    (fault : PageFault) : (c.step fault).roots = (c.step fault).paging.roots := by
  have hiff := Paging.reload_iff hb h hgood fault
  rw [paging_step, step]
  split
  · rfl
  · rename_i hasks
    show c.roots = _
    rw [hroots]
    funext i
    by_contra hne
    exact hasks (hiff.2 ⟨i, Ne.symm hne⟩)

theorem fresh_of_roots (hb : Backing.Honors Good) (h : c.paging.Realizes t)
    (hgood : Good c.paging.pager.backing) (hroots : c.roots = c.paging.roots) : c.Fresh := by
  refine ⟨hroots, ?_, Paging.reload_iff hb h hgood⟩
  intro a
  rw [translate, hroots]
  rfl

theorem run_fresh (hb : Backing.Honors Good) (h : c.paging.Realizes t)
    (hgood : Good c.paging.pager.backing) (hroots : c.roots = c.paging.roots)
    (faults : List PageFault) : (c.run faults).Fresh := by
  induction faults generalizing c t with
  | nil => exact fresh_of_roots hb h hgood hroots
  | cons fault rest ih =>
    obtain ⟨t', h', hgood'⟩ := Paging.handleFault_realizes hb h hgood fault
    rw [← c.paging_step] at h' hgood'
    exact ih h' hgood' (roots_step hb h hgood hroots fault)

/-- A processor that reads the root table again only when a resolution asks for it always finds what
the tables say. -/
theorem reloads_keep_fresh (hb : Backing.Honors Good) {p : Pager β} (hp : p.Ready)
    (hgood : Good p.backing) (m : Memory) : ∃ s, Paging.initTables ⟨p, m⟩ = (.ok (), s)
    ∧ ∀ faults, ((load s).run faults).Fresh := by
  obtain ⟨s, hinit, hrealizes, hbacking, -⟩ := Paging.initTables_realizes hp m
  exact ⟨s, hinit, run_fresh (c := load s) hb hrealizes (hbacking ▸ hgood) rfl⟩

theorem reloads_keep_fresh_sample :
    ∃ s, Paging.initTables ⟨.sample, .filled 0xA5⟩ = (.ok (), s)
      ∧ ((load s).run Paging.sampleFaults).Fresh := by
  obtain ⟨s, hinit, hfaults⟩ := reloads_keep_fresh IdentityBacking.honors Pager.ready_sample
    trivial (.filled 0xA5)
  exact ⟨s, hinit, hfaults Paging.sampleFaults⟩

end Cached

end PaeKernel
