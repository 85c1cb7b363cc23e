import PaeKernel.Proofs.Paging.Drafts

/-!
# What is left for new tables

A pager makes tables of its spare frame and of those its source has left; `Pager.available` is how
many that are. The source only ever gives frames away, whatever a draft comes to
(`Draft.resolve_dwindles`). A spare frame that is not used is therefore still the spare one
afterwards (`Pager.Moved.spare_or_taken`): it does not go back to the source, and no other frame
takes its place.
-/

namespace PaeKernel

/-! ### Measures that do not grow -/

namespace Exec

variable {σ α β : Type} {μ : σ → Nat} {x : Exec σ α} {f : α → Exec σ β}

/-- A computation after which the measure is at most what it was before, also if it panics. -/
def Dwindles (μ : σ → Nat) (x : Exec σ α) : Prop := ∀ s, μ (x s).2 ≤ μ s

namespace Dwindles

theorem of_same (h : ∀ s, μ (x s).2 = μ s) : x.Dwindles μ := fun s => Nat.le_of_eq (h s)

theorem require (c : Prop) [Decidable c] (e : Panic) : (Exec.require c e).Dwindles μ :=
  of_same fun s => by rw [require_apply]

theorem bind (hx : x.Dwindles μ) (hf : ∀ a, (f a).Dwindles μ) : (x >>= f).Dwindles μ := by
  intro s
  have hfirst := hx s
  rw [bind_apply]
  rcases hrun : x s with ⟨r, s'⟩
  rw [hrun] at hfirst
  cases r with
  | ok a => exact Nat.le_trans (hf a s') hfirst
  | error e => exact hfirst

/-- The first of two computations leaves the measure as it is. -/
theorem same_bind (hx : ∀ s, μ (x s).2 = μ s) (hf : ∀ a, (f a).Dwindles μ) :
    (x >>= f).Dwindles μ :=
  (of_same hx).bind hf

theorem ite {c : Prop} [Decidable c] {y : Exec σ α} (hx : x.Dwindles μ) (hy : y.Dwindles μ) :
    (if c then x else y).Dwindles μ := by
  split
  · exact hx
  · exact hy

end Dwindles

end Exec

/-! ### The frames left in the source -/

namespace FrameSource

theorem alloc_dwindles : alloc.Dwindles remaining := by
  rintro ⟨reserved, next, stop⟩
  rw [alloc, Exec.bind_of_ok (Exec.view_apply _ _)]
  cases reserved with
  | cons frame rest =>
    dsimp only
    by_cases haligned : frame.isPageAligned = true
    · rw [Exec.require_bind_of_pos haligned]
      simp only [Exec.bind_apply, Exec.update_apply, Exec.pure_apply, remaining, List.length_cons]
      omega
    · refine Nat.le_of_eq ?_
      rw [Exec.require_bind_of_neg haligned]
  | nil =>
    dsimp only
    rw [Exec.bind_of_ok (Exec.view_apply _ _)]
    by_cases hnext : next + pageSize < wordLimit
    · rw [addWord_of_lt hnext, Exec.bind_of_ok (Exec.check_apply _ _),
        Exec.bind_of_ok (Exec.view_apply _ _)]
      split
      · exact Nat.le_refl _
      · simp only [Exec.bind_apply, Exec.update_apply, Exec.pure_apply, remaining]
        exact Nat.add_le_add_left (Nat.div_le_div_right (by omega)) _
    · refine Nat.le_of_eq ?_
      rw [addWord, if_neg hnext, Exec.bind_of_error (Exec.check_apply _ _)]

end FrameSource

namespace Draft

variable {β : Type}

/-- How many frames the source has left. -/
def stock (d : Draft β) : Nat := d.pager.frames.remaining

theorem takeFrame_dwindles : (takeFrame : Exec (Draft β) _).Dwindles stock := by
  rw [takeFrame]
  refine .same_bind (fun _ => rfl) ?_
  rintro (_ | frame)
  · intro d
    exact FrameSource.alloc_dwindles d.pager.frames
  · exact .of_same fun _ => rfl

theorem newTable_dwindles (page : VirtualAddress) :
    (newTable page : Exec (Draft β) _).Dwindles stock := by
  rw [newTable]
  refine takeFrame_dwindles.bind ?_
  rintro (_ | frame)
  · exact .of_same fun _ => rfl
  · exact .bind (.require _ _) fun _ => .of_same fun _ => rfl

theorem linkTable_dwindles (directory table : PhysicalAddress) (page : VirtualAddress)
    (leaf : PageEntry) : (linkTable directory table page leaf : Exec (Draft β) _).Dwindles stock := by
  rw [linkTable]
  refine .same_bind (fun _ => rfl) fun _ => ?_
  refine .same_bind (fun _ => rfl) fun _ => ?_
  refine .same_bind (fun _ => rfl) fun _ => ?_
  exact .of_same fun _ => rfl

theorem installDirectory_dwindles (page : VirtualAddress) (frame : PhysicalAddress)
    (leaf : PageEntry) : (installDirectory page frame leaf : Exec (Draft β) _).Dwindles stock := by
  rw [installDirectory]
  refine (newTable_dwindles page).bind ?_
  rintro (_ | directory)
  · exact .of_same fun _ => rfl
  · refine (newTable_dwindles page).bind ?_
    rintro (_ | table)
    · exact .of_same fun _ => rfl
    · refine (linkTable_dwindles directory table page leaf).bind fun _ => ?_
      refine .same_bind (fun _ => rfl) fun _ => ?_
      exact .of_same fun _ => rfl

theorem installTable_dwindles (directory : PhysicalAddress) (page : VirtualAddress)
    (frame : PhysicalAddress) (leaf : PageEntry) :
    (installTable directory page frame leaf : Exec (Draft β) _).Dwindles stock := by
  rw [installTable]
  refine (newTable_dwindles page).bind ?_
  rintro (_ | table)
  · exact .of_same fun _ => rfl
  · refine (linkTable_dwindles directory table page leaf).bind fun _ => ?_
    exact .of_same fun _ => rfl

theorem installLeaf_dwindles (m : Memory) (table : PhysicalAddress) (page : VirtualAddress)
    (frame : PhysicalAddress) (leaf : PageEntry) :
    (installLeaf m table page frame leaf : Exec (Draft β) _).Dwindles stock := by
  rw [installLeaf]
  refine .same_bind (fun _ => rfl) fun _ => ?_
  exact .ite (.of_same fun _ => rfl) (.of_same fun _ => rfl)

theorem install_dwindles (m : Memory) (page : VirtualAddress) (frame : PhysicalAddress) :
    (install m page frame : Exec (Draft β) _).Dwindles stock := by
  rw [install]
  refine .same_bind (fun _ => rfl) fun leaf => ?_
  refine .same_bind (fun _ => rfl) fun _ => ?_
  refine .same_bind (fun _ => rfl) fun _ => ?_
  refine .ite ?_ (installDirectory_dwindles page frame leaf)
  refine .same_bind (fun _ => rfl) fun _ => ?_
  exact .ite (installLeaf_dwindles m _ page frame leaf)
    (installTable_dwindles _ page frame leaf)

/-- Whatever a fault comes to, the source has no more frames left than before. -/
theorem resolve_dwindles [Backing β] (m : Memory) (fault : PageFault) :
    (resolve m fault : Exec (Draft β) _).Dwindles stock := by
  rw [resolve]
  refine .same_bind (fun _ => rfl) fun _ => ?_
  refine .ite (.of_same fun _ => rfl) ?_
  refine .same_bind (fun _ => rfl) ?_
  rintro (_ | frame)
  · exact .of_same fun _ => rfl
  · exact .bind (.require _ _) fun _ => install_dwindles m _ frame

end Draft

/-! ### The spare frame -/

namespace Pager

variable {β : Type} {p p' : Pager β} {taken : List PhysicalAddress} {n : Nat} {f : PhysicalAddress}

/-- How many tables can still be made. -/
def available (p : Pager β) : Nat := p.frames.remaining + if p.spare.isSome then 1 else 0

theorem length_loose (p : Pager β) : p.loose.length = p.available := by
  rw [loose, List.length_append, FrameSource.length_pending, available, Nat.add_comm]
  cases p.spare <;> rfl

theorem Moved.available_eq (h : p.Moved p' taken n) :
    p'.available + taken.length = p.available := by
  rw [← length_loose, ← length_loose, h.loose, List.length_append, Nat.add_comm]

/-- A spare frame that is not used stays the spare one. -/
theorem Moved.spare_or_taken (h : p.Moved p' taken n)
    (hstock : p'.frames.remaining ≤ p.frames.remaining) (hf : p.spare = some f) :
    p'.spare = some f ∨ f ∈ taken := by
  have hloose : f :: p.frames.pending = taken ++ p'.loose := by
    rw [← h.loose, Pager.loose, hf]
    rfl
  cases taken with
  | cons g rest =>
    obtain ⟨rfl, -⟩ := List.cons.inj hloose
    exact .inr List.mem_cons_self
  | nil =>
    cases hspare : p'.spare with
    | some g =>
      rw [List.nil_append, Pager.loose, hspare] at hloose
      obtain ⟨rfl, -⟩ := List.cons.inj hloose
      exact .inl rfl
    | none =>
      -- all frames left would be in the source, which then had got one back
      have hlength := h.available_eq
      simp only [available, hspare, hf, Option.isSome_some, Option.isSome_none, if_true,
        Bool.false_eq_true, if_false, List.length_nil] at hlength
      omega

end Pager

end PaeKernel
