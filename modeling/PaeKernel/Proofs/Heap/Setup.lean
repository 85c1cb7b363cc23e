import PaeKernel.Heap.Setup
import PaeKernel.Proofs.Heap.Operations

/-!
# A heap just set up

`Arena.SetUp` holds of the arenas that a successful `init` or `initFromRanges` ends in, over memory
of any contents. Such an arena is sound: each of its spaces is one free cell, and no two of them
share a word.
-/

namespace PaeKernel

theorem exists_of_map_eq_ok {ε α β : Type} {x : Except ε α} {f : α → β} {b : β}
    (h : x.map f = .ok b) : ∃ a, x = .ok a ∧ f a = b := by
  cases x with
  | error e => cases h
  | ok a => exact ⟨a, rfl, Except.ok.inj h⟩

theorem checkLength_eq_ok_iff {base len : Nat} : checkLength base len = .ok ()
    ↔ minSpaceUnits ≤ len ∧ len - minSpaceUnits ≤ maxBlockUnits := by
  unfold checkLength
  by_cases hshort : len < minSpaceUnits
  · rw [if_pos hshort]
    exact iff_of_false nofun fun h => Nat.not_lt.2 h.1 hshort
  · rw [if_neg hshort]
    by_cases hlong : maxBlockUnits < len - minSpaceUnits
    · rw [if_pos hlong]
      exact iff_of_false nofun fun h => Nat.not_lt.2 h.2 hlong
    · rw [if_neg hlong]
      exact iff_of_true rfl ⟨Nat.le_of_not_lt hshort, Nat.le_of_not_lt hlong⟩

namespace Space

variable {s : Space} {m : Memory}

theorem word_write (s : Space) (m : Memory) (i j value : Nat) :
    s.word (m.write (s.addrOf i) value) j = if i = j then value % wordLimit else s.word m j := by
  by_cases h : i = j
  · subst h
    rw [if_pos rfl, word, Memory.read_write, if_pos rfl]
  · rw [if_neg h, word_store_of_ne s m value h]

theorem format_eq {nextSpace : Nat} (hnext : nextSpace < wordLimit) (m : Memory) : ∃ m',
    s.format nextSpace m = (.ok s.blockUnits, m') ∧ s.Sound m' nextSpace [⟨s.blockUnits, false⟩]
      ∧ s.ChangesOnly (fun _ => True) m m' := by
  have hsen := s.sentinel_add
  have hlong := s.long
  have hlen := s.len_lt
  have hbase := s.bounded
  simp only [minSpaceUnits, spaceHeaderUnits, headerUnits] at hlong
  have hfirst : firstBlock = 2 := rfl
  have hunits : s.blockUnits = s.sentinel - 2 := rfl
  have hmax : s.blockUnits ≤ maxBlockUnits := s.units_le_of_le (by omega)
  have hword : s.blockUnits < wordLimit := by simp only [wordLimit]; omega
  have hown : s.len < wordLimit := by simp only [wordLimit]; omega
  rw [format, Exec.bind_of_ok (store_of_lt (by omega) _ m),
    Exec.bind_of_ok (store_of_lt (by omega) _ _), Exec.bind_of_ok (setPrev_of_lt (by omega) _ _),
    BlockSize.ofFree_of_le hmax, Exec.bind_of_ok (Exec.check_apply _ _),
    Exec.bind_of_ok (setSize_of_lt (by omega) _ _), Exec.bind_of_ok (store_of_lt (by omega) _ _),
    Exec.bind_of_ok (store_of_lt (by omega) _ _)]
  refine ⟨_, rfl, ⟨?_, ?_, ⟨?_, ?_⟩, (chain_iff_headers none).2 ⟨headers_singleton.2
    ⟨?_, ?_, ?_⟩, ?_⟩, trivial⟩, ?_⟩
  · simp only [word_write, hfirst]
    rw [if_neg (by omega), if_neg (by omega), if_neg (by omega), if_neg (by omega), if_pos trivial,
      Nat.mod_eq_of_lt hown]
  · simp only [word_write, hfirst]
    rw [if_neg (by omega), if_neg (by omega), if_neg (by omega), if_neg (by omega),
      if_neg (by omega), if_pos trivial, Nat.mod_eq_of_lt hnext]
  · simp only [word_write]
    rw [if_neg (by omega), if_pos trivial, Nat.zero_mod]
  · simp only [word_write]
    rw [if_pos trivial, Nat.zero_mod]
  · simp only [headerUnits]; omega
  · simp only [word_write, hfirst]
    rw [if_neg (by omega), if_neg (by omega), if_neg (by omega), if_pos trivial]
    rfl
  · rw [Cell.word_free]
    simp only [word_write, hfirst]
    rw [if_neg (by omega), if_neg (by omega), if_pos trivial, Nat.mod_eq_of_lt hword]
  · simp only [Cell.total_cons, Cell.total_nil]; omega
  · exact (((((changesOnly_write (by omega) trivial _ _).trans
      (changesOnly_write (by omega) trivial _ _)).trans
      (changesOnly_write (by omega) trivial _ _)).trans
      (changesOnly_write (by omega) trivial _ _)).trans
      (changesOnly_write (by omega) trivial _ _)).trans (changesOnly_write (by omega) trivial _ _)

end Space

namespace Arena

variable {a : Arena} {m : Memory} {log : List Record} {spaces : List Space} {extents : List Extent}
  {starts stops : List UInt64}

/-! ### From runs of words to spaces -/

theorem toExtent_of_spaceOf {e : Extent} {s : Space} (h : spaceOf e = .ok s) : s.toExtent = e := by
  unfold spaceOf at h
  split at h
  · cases h
  · split at h
    · cases h
      rfl
    · cases h

theorem toExtent_of_stage {room : Nat} {few : spaces.length ≤ room}
    (h : stage room extents = .ok ⟨spaces, few⟩) : spaces.map Space.toExtent = extents := by
  induction extents generalizing room spaces with
  | nil =>
    cases room <;> (cases h; rfl)
  | cons e rest ih =>
    cases room with
    | zero =>
      simp only [stage] at h
      split at h <;> cases h
    | succ room =>
      simp only [stage] at h
      split at h
      · cases h
      · rename_i s hs
        split at h
        · cases h
        · rename_i l few' hl
          cases h
          rw [List.map_cons, toExtent_of_spaceOf hs, ih hl]

theorem beforeZero_single {n : Nat} (hpos : 0 < n) (hlt : n < wordLimit) :
    beforeZero [UInt64.ofNat n, 0] = [.ofNat n] := by
  have hne : UInt64.ofNat n ≠ 0 := by
    intro h
    have hn : (UInt64.ofNat n).toNat = n := UInt64.toNat_ofNat_of_lt hlt
    rw [h] at hn
    exact Nat.ne_of_lt hpos hn
  simp [beforeZero, hne]

/-- The range of a space is taken as the run of words it is. -/
theorem extentsOfLists_space (s : Space) (hpos : 0 < s.base) :
    extentsOfLists [.ofNat s.base, 0] [.ofNat s.endAddr, 0] = .ok [s.toExtent] := by
  have hlong := s.long
  have hbounded := s.bounded
  have haligned := s.aligned
  simp only [minSpaceUnits, spaceHeaderUnits, headerUnits, unitSize] at hlong hbounded haligned
  have hend : s.endAddr = s.base + s.len * 8 := rfl
  have hbase : s.base < wordLimit := Nat.lt_of_le_of_lt (Nat.le_add_right _ _) hbounded
  have hstop : s.endAddr < wordLimit := by
    rw [hend, Nat.mul_comm]
    exact hbounded
  have hs : (UInt64.ofNat s.base).toNat = s.base := UInt64.toNat_ofNat_of_lt hbase
  have hp : (UInt64.ofNat s.endAddr).toNat = s.endAddr := UInt64.toNat_ofNat_of_lt hstop
  have hlen : (s.endAddr - s.base) / unitSize = s.len := by
    simp only [unitSize]
    omega
  have hrange : s.base < s.endAddr ∧ s.base % unitSize = 0 ∧ s.endAddr % unitSize = 0 := by
    simp only [unitSize]
    omega
  rw [extentsOfLists, beforeZero_single hpos hbase, beforeZero_single (by omega) hstop]
  simp [extentsOfRanges, hs, hp, hlen, hrange, maxSpaces]
  rfl

theorem stage_space (s : Space) :
    ∃ few, stage maxSpaces [s.toExtent] = .ok ⟨[s], few⟩ := by
  have hlong := s.long
  have hlen := s.len_lt
  have hcheck : checkLength s.base s.len = .ok () :=
    checkLength_eq_ok_iff.2 ⟨hlong, by simp only [maxBlockUnits, usedBit]; omega⟩
  have hspace : spaceOf s.toExtent = .ok s := by
    rw [spaceOf, hcheck]
    dsimp only
    rw [dif_pos hlong]
  refine ⟨Nat.le_add_left 1 7, ?_⟩
  simp only [maxSpaces, stage, hspace]

/-! ### Formatting -/

/-- The cells of spaces just formatted. -/
def whole (spaces : List Space) : List (List Cell) := spaces.map fun s => [⟨s.blockUnits, false⟩]

theorem freeUnits_whole (spaces : List Space) : Cell.freeUnits (whole spaces).flatten
    = spaces.foldr (fun s units => s.blockUnits + units) 0 := by
  induction spaces with
  | nil => rfl
  | cons s rest ih => simpa [whole, Cell.freeUnits] using ih

theorem usedUnits_whole (spaces : List Space) : Cell.usedUnits (whole spaces).flatten = 0 := by
  induction spaces with
  | nil => rfl
  | cons s rest ih => simpa [whole, Cell.usedUnits] using ih

/-- Spaces just formatted hold one free block each. -/
theorem SpacesSound.blocks_whole {m : Memory} {spaces : List Space} {s : Space}
    (h : SpacesSound m spaces (whole spaces)) (hs : s ∈ spaces) :
    s.blocks m = [⟨firstBlock, s.blockUnits, false, none⟩] := by
  induction spaces with
  | nil => cases hs
  | cons t rest ih =>
    rcases List.mem_cons.1 hs with rfl | hs
    · exact Space.blocks_of_sound h.1
    · exact ih h.2 hs

theorem formatFrom_eq (hap : Apart spaces) (number : Nat) (a : Arena) : ∃ m log,
    formatFrom number spaces a = (.ok (spaces.foldr (fun s units => s.blockUnits + units) 0),
        { a with memory := m, log := log })
      ∧ SpacesSound m spaces (whole spaces)
      ∧ ∀ b, (∀ s ∈ spaces, ∀ j, j < s.len → b / 8 ≠ s.addrOf j / 8) → m.read b = a.memory.read b := by
  induction spaces generalizing number a with
  | nil => exact ⟨a.memory, a.log, rfl, trivial, fun _ _ => rfl⟩
  | cons s rest ih =>
    obtain ⟨hfar, hrest⟩ := List.pairwise_cons.1 hap
    have hnext : (rest.head?.map (·.base)).getD 0 < wordLimit := by
      cases rest with
      | nil => decide
      | cons t rest => exact Nat.lt_of_le_of_lt (Nat.le_add_right _ _) t.bounded
    obtain ⟨m₁, hrun₁, hsound, hchange⟩ := s.format_eq hnext a.memory
    obtain ⟨m₂, log, hrun₂, hspaces, hkeep⟩ := ih hrest (number + 1)
      { a with memory := m₁, log := a.log ++ [⟨.debug, heapTarget,
        s!"heap: space {number} at {Numeral.hex s.base}..{Numeral.hex s.endAddr}, {s.blockUnits} units"⟩] }
    refine ⟨m₂, log, ?_, ⟨?_, hspaces⟩, fun b hb => ?_⟩
    · rw [formatFrom, Exec.bind_of_ok (onMemory_of_ok hrun₁), Exec.bind_of_ok (record_apply _ _ _ _),
        Exec.bind_of_ok hrun₂]
      rfl
    · refine hsound.of_agree fun j hj => hkeep _ fun t ht i hi => ?_
      exact Space.addrOf_div_ne_of_apart (hfar _ (List.mem_map_of_mem ht)) hj hi
    · rw [hkeep b fun t ht => hb t (List.mem_cons_of_mem _ ht)]
      exact hchange b fun j _ hj => hb s List.mem_cons_self j hj

/-! ### Setting up -/

/-- The arenas in which a heap was just set up, over runs of words that share none. -/
inductive SetUp : Arena → Prop
  | init (m : Memory) (log : List Record) (extents : List Extent) (a : Arena)
    (apart : extents.Pairwise Extent.Apart)
    (run : Arena.init extents ⟨.empty, m, log⟩ = (.ok (.ok ()), a)) : SetUp a
  | initFromRanges (m : Memory) (log : List Record) (starts stops : List UInt64) (a : Arena)
    (run : Arena.initFromRanges starts stops ⟨.empty, m, log⟩ = (.ok (.ok ()), a)) : SetUp a

/-- Runs of words that make spaces are formatted, and their units are counted as free. -/
theorem init_staged {few : spaces.length ≤ maxSpaces} (hnew : a.heap.initialized = false)
    (hap : Apart spaces) (hstage : stage maxSpaces extents = .ok ⟨spaces, few⟩) (hne : spaces ≠ []) :
    ∃ m log, init extents a = (.ok (.ok ()), ⟨⟨spaces,
        a.heap.freeUnits + spaces.foldr (fun s units => s.blockUnits + units) 0,
        a.heap.usedUnits,
        a.heap.capacityUnits + spaces.foldr (fun s units => s.blockUnits + units) 0, few⟩, m, log⟩)
      ∧ SpacesSound m spaces (whole spaces) := by
  cases spaces with
  | nil => exact absurd rfl hne
  | cons s rest =>
    obtain ⟨m, log, hrun, hspaces, -⟩ := formatFrom_eq hap 0 a
    rw [init, Exec.bind_of_ok (Exec.view_apply _ a), if_neg (hnew ▸ Bool.false_ne_true), hstage]
    dsimp only
    rw [Exec.bind_of_ok hrun, Exec.bind_of_ok (Exec.update_apply _ _),
      Exec.bind_of_ok (Exec.view_apply _ _), Exec.bind_of_ok (record_apply _ _ _ _)]
    exact ⟨m, _, rfl, hspaces⟩

/-- Runs of words that make spaces are set up, whatever memory holds. -/
theorem init_of_stage {few : spaces.length ≤ maxSpaces} (hap : extents.Pairwise Extent.Apart)
    (hstage : stage maxSpaces extents = .ok ⟨spaces, few⟩) (hne : spaces ≠ []) (m : Memory)
    (log : List Record) : ∃ a, init extents ⟨.empty, m, log⟩ = (.ok (.ok ()), a)
      ∧ a.heap.spaces = spaces ∧ a.Sound (whole spaces) ∧ Apart spaces := by
  have hapart : Apart spaces := by
    rw [Apart, toExtent_of_stage hstage]
    exact hap
  obtain ⟨m', log', hrun, hspaces⟩ := init_staged (a := ⟨.empty, m, log⟩) rfl hapart hstage hne
  refine ⟨_, hrun, rfl, ⟨hspaces, ?_, ?_, ?_⟩, hapart⟩
  · rw [freeUnits_whole]
    exact Nat.zero_add _
  · rw [usedUnits_whole]
    rfl
  · exact Nat.zero_add _

theorem sound_of_init (hap : extents.Pairwise Extent.Apart)
    (h : init extents ⟨.empty, m, log⟩ = (.ok (.ok ()), a)) :
    a.Sound (whole a.heap.spaces) ∧ Apart a.heap.spaces := by
  cases hstage : stage maxSpaces extents with
  | error err =>
    rw [init, Exec.bind_of_ok (Exec.view_apply _ _),
      if_neg (show ¬ Heap.empty.initialized = true by decide), hstage] at h
    cases h
  | ok staged =>
    obtain ⟨spaces, few⟩ := staged
    cases spaces with
    | nil =>
      rw [init, Exec.bind_of_ok (Exec.view_apply _ _),
        if_neg (show ¬ Heap.empty.initialized = true by decide), hstage] at h
      cases h
    | cons s rest =>
      obtain ⟨a', hrun, hspaces, hsound⟩ := init_of_stage hap hstage (List.cons_ne_nil s rest) m log
      obtain rfl := (Prod.mk.inj (hrun.symm.trans h)).2
      rw [hspaces]
      exact hsound

/-- Ranges that pass the check lie apart from each other and from all earlier ones. -/
theorem apart_of_extentsOfRanges {earlier ranges : List (UInt64 × UInt64)}
    (h : extentsOfRanges earlier ranges = .ok extents) : extents.Pairwise Extent.Apart
      ∧ ∀ e ∈ extents, ∀ r ∈ earlier,
        e.base + e.len * unitSize ≤ r.1.toNat ∨ r.2.toNat ≤ e.base := by
  induction ranges generalizing earlier extents with
  | nil =>
    cases h
    exact ⟨List.Pairwise.nil, fun _ he => nomatch he⟩
  | cons range rest ih =>
    obtain ⟨start, stop⟩ := range
    rw [extentsOfRanges] at h
    split at h
    · rename_i hrange
      split at h
      · cases h
      · rename_i hclear
        obtain ⟨others, hothers, rfl⟩ := exists_of_map_eq_ok h
        obtain ⟨hpair, hfar⟩ := ih hothers
        have hlen : start.toNat + (stop.toNat - start.toNat) / unitSize * unitSize = stop.toNat := by
          have hend := Nat.div_mul_cancel (Nat.dvd_sub (Nat.dvd_of_mod_eq_zero hrange.2.2)
            (Nat.dvd_of_mod_eq_zero hrange.2.1))
          rw [hend]
          omega
        refine ⟨List.pairwise_cons.2 ⟨fun e he => ?_, hpair⟩, fun e he r hr => ?_⟩
        · rcases hfar e he (start, stop) (by simp) with hbelow | habove
          · exact .inr hbelow
          · exact .inl (by simpa only [hlen] using habove)
        · rcases List.mem_cons.1 he with rfl | he
          · simp only [hlen]
            have hr' : ¬ overlap (start, stop) r = true := fun ho =>
              hclear (List.any_eq_true.2 ⟨r, hr, ho⟩)
            simp only [overlap, Bool.and_eq_true, decide_eq_true_eq, UInt64.lt_iff_toNat_lt] at hr'
            omega
          · exact hfar e he r (List.mem_append_left _ hr)
    · cases h

theorem apart_of_extentsOfLists (h : extentsOfLists starts stops = .ok extents) :
    extents.Pairwise Extent.Apart := by
  dsimp only [extentsOfLists] at h
  split at h
  · cases h
  · split at h
    · cases h
    · exact (apart_of_extentsOfRanges h).1

theorem sound_of_initFromRanges (h : initFromRanges starts stops ⟨.empty, m, log⟩ = (.ok (.ok ()), a)) :
    a.Sound (whole a.heap.spaces) ∧ Apart a.heap.spaces := by
  rw [initFromRanges, Exec.bind_of_ok (Exec.view_apply _ _),
    if_neg (show ¬ Heap.empty.initialized = true by decide)] at h
  cases hlists : extentsOfLists starts stops with
  | error err =>
    rw [hlists] at h
    cases h
  | ok extents =>
    rw [hlists] at h
    exact sound_of_init (apart_of_extentsOfLists hlists) h

theorem SetUp.sound (h : SetUp a) : a.Sound (whole a.heap.spaces) ∧ Apart a.heap.spaces := by
  cases h with
  | init _ _ _ _ apart run => exact sound_of_init apart run
  | initFromRanges _ _ _ _ _ run => exact sound_of_initFromRanges run

/-- A heap of two small spaces in memory that holds no zero byte. -/
def sample : Arena := (init
  [⟨0x1000, 16, by decide, by decide⟩, ⟨0x2000, 9, by decide, by decide⟩]
  ⟨.empty, .filled 0xA5, []⟩).2

theorem setUp_sample : SetUp sample :=
  .init _ _ _ _ (by simp [Extent.Apart, unitSize]) (Prod.ext rfl rfl)

end Arena

end PaeKernel
