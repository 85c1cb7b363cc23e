import PaeKernel.Paging.Walk

/-!
# What table frames hold

Tables are read frame by frame and word by word (`PhysicalView.bitsAt`). Frames are pages, so a
store into one of them is never seen in another, wherever physical memory appears. An entry either
is zero or names a frame with fixed switches (`entryBits`), and reading it gives the frame back.
-/

namespace PaeKernel

/-- The address of a frame that an entry can name. -/
def PhysicalAddress.IsFrame (f : PhysicalAddress) : Prop :=
  f.isPageAligned = true ∧ f.toNat < frameLimit * 4096

instance (f : PhysicalAddress) : Decidable f.IsFrame :=
  inferInstanceAs (Decidable (_ ∧ _))

theorem PhysicalAddress.IsFrame.aligned {f : PhysicalAddress} (h : f.IsFrame) :
    f.toNat % 4096 = 0 :=
  beq_iff_eq.1 h.1

/-- The word of an entry that names a frame with these switches on, or of one that names none. -/
def entryBits (switches : Nat) : Option PhysicalAddress → Nat
  | none => 0
  | some f => f.toNat + switches

/-- The switches of an entry that names a directory. -/
def rootSwitches : Nat := EntryMask.present

/-- The switches of an entry that names a table or a page. -/
def kernelSwitches : Nat := EntryMask.present + EntryMask.writable

/-! ### Reading entries back -/

section Entries

variable {f : PhysicalAddress} {o : Option PhysicalAddress}

theorem kernelWritable_eq (h : f.IsFrame) :
    PageEntry.kernelWritable f = .ok ⟨entryBits kernelSwitches (some f)⟩ := by
  have haligned := h.aligned
  rw [PageEntry.kernelWritable_of_lt h.2]
  refine congrArg (fun n => Except.ok (PageEntry.mk n)) ?_
  show f.toNat / 4096 * 4096 + 3 = f.toNat + 3
  omega

theorem ofDirectory_eq (h : f.IsFrame) :
    RootEntry.ofDirectory f = .ok ⟨entryBits rootSwitches (some f)⟩ := by
  have haligned := h.aligned
  rw [RootEntry.ofDirectory_of_lt h.2]
  refine congrArg (fun n => Except.ok (RootEntry.mk n)) ?_
  show f.toNat / 4096 * 4096 + 1 = f.toNat + 1
  omega

theorem entryBits_lt (h : ∀ f, o = some f → f.IsFrame) {switches : Nat} (hs : switches < 4096) :
    entryBits switches o < wordLimit := by
  cases o with
  | none => exact Nat.zero_lt_succ _
  | some f =>
    have hlt := (h f rfl).2
    simp only [entryBits, frameLimit, wordLimit] at *
    omega

theorem rootEntry_present (h : ∀ f, o = some f → f.IsFrame) :
    (RootEntry.mk (entryBits rootSwitches o)).present = o.isSome := by
  cases o with
  | none => rfl
  | some f =>
    have haligned := (h f rfl).aligned
    refine beq_iff_eq.2 ?_
    show (f.toNat + 1) % 2 = 1
    omega

theorem rootEntry_directory (h : f.IsFrame) :
    (RootEntry.mk (entryBits rootSwitches (some f))).directory = f := by
  have haligned := h.aligned
  have hlt := h.2
  refine PhysicalAddress.ext ?_
  show (f.toNat + 1) / 4096 % frameLimit * 4096 = f.toNat
  simp only [frameLimit] at *
  omega

theorem pageEntry_present (h : ∀ f, o = some f → f.IsFrame) :
    (PageEntry.mk (entryBits kernelSwitches o)).present = o.isSome := by
  cases o with
  | none => rfl
  | some f =>
    have haligned := (h f rfl).aligned
    refine beq_iff_eq.2 ?_
    show (f.toNat + 3) % 2 = 1
    omega

theorem pageEntry_frame (h : f.IsFrame) :
    (PageEntry.mk (entryBits kernelSwitches (some f))).frame = f := by
  have haligned := h.aligned
  have hlt := h.2
  refine PhysicalAddress.ext ?_
  show (f.toNat + 3) / 4096 % frameLimit * 4096 = f.toNat
  simp only [frameLimit] at *
  omega

theorem pageEntry_largePage (h : f.IsFrame) :
    (PageEntry.mk (entryBits kernelSwitches (some f))).largePage = false := by
  have haligned := h.aligned
  refine beq_eq_false_iff_ne.2 ?_
  show (f.toNat + 3) >>> 7 % 2 ≠ 1
  rw [Nat.shiftRight_eq_div_pow]
  omega

end Entries

/-! ### Stores seen frame by frame -/

namespace PhysicalView

variable {v : PhysicalView} {f g : PhysicalAddress} {i j : Nat}

/-- The word of the entry with this number in a frame. -/
def bitsAt (v : PhysicalView) (f : PhysicalAddress) (i : Nat) : Nat :=
  v.memory.read (Table.entryAddress (v.place f) i)

/-- The view after stores. -/
def apply (v : PhysicalView) (stores : List Memory.Store) : PhysicalView :=
  { v with memory := v.memory.apply stores }

theorem apply_append (v : PhysicalView) (first second : List Memory.Store) :
    v.apply (first ++ second) = (v.apply first).apply second := by
  rw [apply, Memory.apply_append]
  rfl

theorem memory_apply (v : PhysicalView) (stores : List Memory.Store) :
    (v.apply stores).memory = v.memory.apply stores := rfl

theorem place_apply (v : PhysicalView) (stores : List Memory.Store) (f : PhysicalAddress) :
    (v.apply stores).place f = v.place f := rfl

/-- Words of frames are the same word only if frames and numbers agree. -/
theorem entryAddress_div_eq_iff (v : PhysicalView) (hf : f.IsFrame) (hg : g.IsFrame)
    (hi : i < 512) (hj : j < 512) :
    Table.entryAddress (v.place f) i / 8 = Table.entryAddress (v.place g) j / 8
      ↔ f = g ∧ i = j := by
  have hf' := hf.aligned
  have hg' := hg.aligned
  rw [PhysicalAddress.ext_iff]
  simp only [Table.entryAddress, place]
  omega

theorem bitsAt_apply_entry (v : PhysicalView) (hf : f.IsFrame) (hg : g.IsFrame) (hi : i < 512)
    (hj : j < 512) {value : Nat} (hvalue : value < wordLimit) :
    (v.apply [⟨Table.entryAddress (v.place f) i, value⟩]).bitsAt g j
      = if f = g ∧ i = j then value else v.bitsAt g j := by
  show (v.memory.write (Table.entryAddress (v.place f) i) value).read
    (Table.entryAddress (v.place g) j) = _
  rw [Memory.read_write, Nat.mod_eq_of_lt hvalue]
  by_cases h : f = g ∧ i = j
  · rw [if_pos h, if_pos ((v.entryAddress_div_eq_iff hf hg hi hj).2 h)]
  · rw [if_neg h, if_neg (mt (v.entryAddress_div_eq_iff hf hg hi hj).1 h)]
    rfl

theorem bitsAt_apply_append_entry (v : PhysicalView) (before : List Memory.Store) (hf : f.IsFrame)
    (hg : g.IsFrame) (hi : i < 512) (hj : j < 512) {value : Nat} (hvalue : value < wordLimit) :
    (v.apply (before ++ [⟨Table.entryAddress (v.place f) i, value⟩])).bitsAt g j
      = if f = g ∧ i = j then value else (v.apply before).bitsAt g j := by
  rw [apply_append]
  exact bitsAt_apply_entry (v.apply before) hf hg hi hj hvalue

theorem bitsAt_apply_zero (v : PhysicalView) (hf : f.IsFrame) (hg : g.IsFrame) (hj : j < 512) :
    (v.apply (Table.zeroStores (v.place f))).bitsAt g j = if f = g then 0 else v.bitsAt g j := by
  have hf' := hf.aligned
  have hg' := hg.aligned
  rw [bitsAt, place_apply, memory_apply, Table.read_apply_zeroStores, Table.entryAddress_div]
  by_cases h : f = g
  · subst h
    rw [if_pos rfl, if_pos (by omega)]
  · have hfar : ¬ (v.place f / 8 ≤ v.place g / 8 + j ∧ v.place g / 8 + j < v.place f / 8 + 512) := by
      rw [PhysicalAddress.ext_iff] at h
      simp only [place]
      omega
    rw [if_neg h, if_neg hfar]
    rfl

theorem bitsAt_apply_append_zero (v : PhysicalView) (before : List Memory.Store) (hf : f.IsFrame)
    (hg : g.IsFrame) (hj : j < 512) :
    (v.apply (before ++ Table.zeroStores (v.place f))).bitsAt g j
      = if f = g then 0 else (v.apply before).bitsAt g j := by
  rw [apply_append, ← v.place_apply before f, bitsAt_apply_zero _ hf hg hj]

/-- The store is one into these frames. -/
def Into (v : PhysicalView) (frames : List PhysicalAddress) (x : Memory.Store) : Prop :=
  ∃ f ∈ frames, ∃ i < 512, x.address = Table.entryAddress (v.place f) i

theorem into_zeroStores {frames : List PhysicalAddress} (hf : f ∈ frames) :
    ∀ x ∈ Table.zeroStores (v.place f), v.Into frames x := by
  intro x hx
  obtain ⟨i, hi, rfl⟩ := Table.mem_zeroStores.1 hx
  exact ⟨f, hf, i, hi, rfl⟩

theorem bitsAt_apply_of_into {frames : List PhysicalAddress} {stores : List Memory.Store}
    (hinto : ∀ x ∈ stores, v.Into frames x) (hframes : ∀ f ∈ frames, f.IsFrame) (hg : g.IsFrame)
    (hnot : g ∉ frames) (hj : j < 512) : (v.apply stores).bitsAt g j = v.bitsAt g j := by
  refine Memory.read_apply_of_forall_ne ?_ v.memory
  intro x hx
  obtain ⟨f, hf, i, hi, haddress⟩ := hinto x hx
  rw [haddress]
  intro heq
  have hfg := ((v.entryAddress_div_eq_iff (hframes f hf) hg hi hj).1 heq).1
  exact hnot (hfg ▸ hf)

end PhysicalView

end PaeKernel
