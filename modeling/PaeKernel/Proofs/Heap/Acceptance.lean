import PaeKernel.Proofs.Heap.ReleaseOrder

/-!
# Which ranges are accepted

`ValidRanges` says of two lists of addresses what a heap needs, without the order in which it is
checked. Each checking pass is judged by itself (`Arena.Judged`): it passes on what it was given just
if its own condition holds and refuses otherwise. `Arena.initFromRanges_exact` joins the passes; as
nothing is written before the last of them, a refusal leaves the arena as it was.
-/

namespace PaeKernel

/-- The range is not empty and starts and ends at a unit. -/
def WholeRange (r : UInt64 × UInt64) : Prop :=
  r.1.toNat < r.2.toNat ∧ r.1.toNat % unitSize = 0 ∧ r.2.toNat % unitSize = 0

/-- The ranges share no address. -/
def RangesApart (r s : UInt64 × UInt64) : Prop :=
  r.2.toNat ≤ s.1.toNat ∨ s.2.toNat ≤ r.1.toNat

instance (r : UInt64 × UInt64) : Decidable (WholeRange r) := inferInstanceAs (Decidable (_ ∧ _))

instance (r s : UInt64 × UInt64) : Decidable (RangesApart r s) :=
  inferInstanceAs (Decidable (_ ∨ _))

/-- The words in a range. -/
def rangeUnits (r : UInt64 × UInt64) : Nat := (r.2.toNat - r.1.toNat) / unitSize

/-- A heap can be made of the ranges between these starts and stops. -/
structure ValidRanges (starts stops : List UInt64) : Prop where
  paired : starts.length = stops.length
  nonempty : 1 ≤ starts.length
  few : starts.length ≤ maxSpaces
  whole : ∀ r ∈ starts.zip stops, WholeRange r
  apart : (starts.zip stops).Pairwise RangesApart
  long : ∀ r ∈ starts.zip stops, minSpaceUnits ≤ rangeUnits r

-- by `List.all`, as a search through all pairs of words would decide the bounded statements too
instance (starts stops : List UInt64) : Decidable (ValidRanges starts stops) :=
  decidable_of_iff (starts.length = stops.length ∧ 1 ≤ starts.length ∧ starts.length ≤ maxSpaces
      ∧ (starts.zip stops).all (fun r => decide (WholeRange r)) = true
      ∧ (starts.zip stops).Pairwise RangesApart
      ∧ (starts.zip stops).all (fun r => decide (minSpaceUnits ≤ rangeUnits r)) = true) <| by
    simp only [List.all_eq_true, decide_eq_true_eq]
    exact ⟨fun ⟨h₁, h₂, h₃, h₄, h₅, h₆⟩ => ⟨h₁, h₂, h₃, h₄, h₅, h₆⟩,
      fun ⟨h₁, h₂, h₃, h₄, h₅, h₆⟩ => ⟨h₁, h₂, h₃, h₄, h₅, h₆⟩⟩

/-- Why ranges are refused. -/
inductive Refusal : HeapError → Prop
  | alreadyInitialized : Refusal .alreadyInitialized
  | noSpaces : Refusal .noSpaces
  | tooManySpaces : Refusal (.tooManySpaces maxSpaces)
  | invalidRange (start stop : Nat) : Refusal (.invalidRange start stop)

namespace Arena

variable {a a' : Arena} {α β : Type} {extents : List Extent} {starts stops : List UInt64}
  {Holds Holds' : Prop} {Post : α → Prop} {Post' : β → Prop}

/-! ### The passes -/

/-- The answer of a check: what it passes on if the condition holds, and a refusal if it does not. -/
inductive Judged (Holds : Prop) (Post : α → Prop) : Except HeapError α → Prop
  | passed (v : α) (holds : Holds) (post : Post v) : Judged Holds Post (.ok v)
  | refused (err : HeapError) (refusal : Refusal err) (fails : ¬ Holds) : Judged Holds Post (.error err)

theorem judged_spaceOf (e : Extent) :
    Judged (minSpaceUnits ≤ e.len) (fun s => s.toExtent = e) (spaceOf e) := by
  rw [spaceOf, checkLength]
  by_cases hlong : minSpaceUnits ≤ e.len
  · have hbounded := e.bounded
    -- no run of words is too long for the size word of its block
    have hfit : ¬ maxBlockUnits < e.len - minSpaceUnits := by
      simp only [maxBlockUnits, usedBit, unitSize, wordLimit] at *
      omega
    rw [if_neg (Nat.not_lt.2 hlong), if_neg hfit]
    dsimp only
    rw [dif_pos hlong]
    exact .passed _ hlong rfl
  · rw [if_pos (Nat.lt_of_not_le hlong)]
    exact .refused _ (.invalidRange _ _) hlong

theorem judged_stage (room : Nat) (extents : List Extent) :
    Judged ((∀ e ∈ extents, minSpaceUnits ≤ e.len) ∧ extents.length ≤ room)
      (fun staged => staged.1.map Space.toExtent = extents) (stage room extents) := by
  induction extents generalizing room with
  | nil => cases room <;> exact .passed _ ⟨nofun, Nat.zero_le _⟩ rfl
  | cons e rest ih =>
    have hspace := judged_spaceOf e
    cases room with
    | zero =>
      simp only [stage]
      generalize spaceOf e = made at hspace
      cases hspace with
      | passed s hlong => exact .refused _ .tooManySpaces fun h => Nat.not_succ_le_zero _ h.2
      | refused err hrefusal hshort =>
        exact .refused err hrefusal fun h => hshort (h.1 e List.mem_cons_self)
    | succ room =>
      simp only [stage]
      have hrest := ih room
      generalize spaceOf e = made at hspace
      generalize stage room rest = staged at hrest
      cases hspace with
      | refused err hrefusal hshort =>
        exact .refused err hrefusal fun h => hshort (h.1 e List.mem_cons_self)
      | passed s hlong hs =>
        cases hrest with
        | refused err hrefusal hfails =>
          refine .refused err hrefusal fun h => hfails ?_
          exact ⟨fun f hf => h.1 f (List.mem_cons_of_mem _ hf), Nat.le_of_succ_le_succ h.2⟩
        | passed l hl hpost =>
          refine .passed _ ⟨List.forall_mem_cons.2 ⟨hlong, hl.1⟩, Nat.succ_le_succ hl.2⟩ ?_
          rw [List.map_cons, hs, hpost]

theorem overlap_eq_true_iff {r s : UInt64 × UInt64} : overlap r s = true ↔ ¬ RangesApart r s := by
  simp only [overlap, RangesApart, Bool.and_eq_true, decide_eq_true_eq, UInt64.lt_iff_toNat_lt]
  omega

/-- The ranges are whole and lie apart from each other and from all earlier ones. -/
structure Separate (earlier ranges : List (UInt64 × UInt64)) : Prop where
  whole : ∀ r ∈ ranges, WholeRange r
  apart : ranges.Pairwise RangesApart
  clear : ∀ r ∈ ranges, ∀ s ∈ earlier, RangesApart r s

theorem separate_cons {earlier rest : List (UInt64 × UInt64)} {r : UInt64 × UInt64} :
    Separate earlier (r :: rest)
      ↔ (WholeRange r ∧ ∀ s ∈ earlier, RangesApart r s) ∧ Separate (earlier ++ [r]) rest := by
  constructor
  · rintro ⟨hwhole, hapart, hclear⟩
    obtain ⟨hown, hothers⟩ := List.forall_mem_cons.1 hwhole
    obtain ⟨hfar, hpair⟩ := List.pairwise_cons.1 hapart
    obtain ⟨hclearOwn, hclearRest⟩ := List.forall_mem_cons.1 hclear
    refine ⟨⟨hown, hclearOwn⟩, hothers, hpair, ?_⟩
    intro t ht s hs
    rcases List.mem_append.1 hs with hs | hs
    · exact hclearRest t ht s hs
    · obtain rfl := List.mem_singleton.1 hs
      exact (hfar t ht).symm
  · rintro ⟨⟨hown, hclearOwn⟩, hothers, hpair, hclear⟩
    refine ⟨List.forall_mem_cons.2 ⟨hown, hothers⟩, List.pairwise_cons.2 ⟨?_, hpair⟩,
      List.forall_mem_cons.2 ⟨hclearOwn, ?_⟩⟩
    · intro t ht
      exact (hclear t ht r (by simp)).symm
    · intro t ht s hs
      exact hclear t ht s (List.mem_append_left _ hs)

/-- Ranges that pass become runs of words with the same starts and lengths. -/
theorem judged_extentsOfRanges (earlier ranges : List (UInt64 × UInt64)) :
    Judged (Separate earlier ranges)
      (fun extents => extents.map (fun e => (e.base, e.len))
        = ranges.map fun r => (r.1.toNat, rangeUnits r))
      (extentsOfRanges earlier ranges) := by
  induction ranges generalizing earlier with
  | nil => exact .passed [] ⟨nofun, .nil, nofun⟩ rfl
  | cons range rest ih =>
    obtain ⟨start, stop⟩ := range
    rw [extentsOfRanges]
    split
    · rename_i hwhole
      split
      · rename_i hmeets
        obtain ⟨s, hs, hoverlap⟩ := List.any_eq_true.1 hmeets
        refine .refused _ (.invalidRange _ _) fun h => ?_
        exact overlap_eq_true_iff.1 hoverlap ((separate_cons.1 h).1.2 s hs)
      · rename_i hfree
        have hclear : ∀ s ∈ earlier, RangesApart (start, stop) s := fun s hs =>
          Decidable.not_not.1 fun hmeets =>
            hfree (List.any_eq_true.2 ⟨s, hs, overlap_eq_true_iff.2 hmeets⟩)
        have hrest := ih (earlier ++ [(start, stop)])
        generalize extentsOfRanges (earlier ++ [(start, stop)]) rest = made at hrest
        cases hrest with
        | refused err hrefusal hfails =>
          exact .refused err hrefusal fun h => hfails (separate_cons.1 h).2
        | passed extents hseparate hpost =>
          refine .passed _ (separate_cons.2 ⟨⟨hwhole, hclear⟩, hseparate⟩) ?_
          rw [List.map_cons, hpost]
          rfl
    · rename_i hbroken
      exact .refused _ (.invalidRange _ _) fun h => hbroken (h.whole _ List.mem_cons_self)

theorem judged_extentsOfLists (starts stops : List UInt64) :
    Judged ((beforeZero starts).length = (beforeZero stops).length
        ∧ (beforeZero starts).length ≤ maxSpaces
        ∧ Separate [] ((beforeZero starts).zip (beforeZero stops)))
      (fun extents => extents.map (fun e => (e.base, e.len))
        = ((beforeZero starts).zip (beforeZero stops)).map fun r => (r.1.toNat, rangeUnits r))
      (extentsOfLists starts stops) := by
  rw [extentsOfLists]
  split
  · rename_i hpaired
    exact .refused _ (.invalidRange _ _) fun h => hpaired h.1
  · rename_i hpaired
    split
    · rename_i hmany
      exact .refused _ .tooManySpaces fun h => Nat.not_le.2 hmany h.2.1
    · rename_i hfew
      have hranges := judged_extentsOfRanges [] ((beforeZero starts).zip (beforeZero stops))
      generalize extentsOfRanges [] _ = made at hranges
      cases hranges with
      | refused err hrefusal hfails => exact .refused err hrefusal fun h => hfails h.2.2
      | passed extents hseparate hpost =>
        exact .passed extents ⟨Decidable.not_not.1 hpaired, Nat.not_lt.1 hfew, hseparate⟩ hpost

/-! ### Setting up -/

theorem init_initialized (h : a.heap.initialized = true) (extents : List Extent) :
    init extents a = (.ok (.error .alreadyInitialized), a) := by
  rw [init, Exec.bind_of_ok (Exec.view_apply _ a), if_pos h]
  rfl

theorem initFromRanges_initialized (h : a.heap.initialized = true) (starts stops : List UInt64) :
    initFromRanges starts stops a = (.ok (.error .alreadyInitialized), a) := by
  rw [initFromRanges, Exec.bind_of_ok (Exec.view_apply _ a), if_pos h]
  rfl

/-- All that an attempt to set up a heap can come to: the spaces wanted are set up if the condition
holds, and the arena is as it was if it does not. -/
inductive Attempt (a : Arena) (Holds : Prop) (bounds : List (Nat × Nat)) :
    Except Panic (Except HeapError Unit) × Arena → Prop
  | done (a' : Arena) (holds : Holds) (spaces : a'.heap.spaces.map (fun s => (s.base, s.len)) = bounds) :
    Attempt a Holds bounds (.ok (.ok ()), a')
  | refused (err : HeapError) (refusal : Refusal err) (fails : ¬ Holds) :
    Attempt a Holds bounds (.ok (.error err), a)

theorem attempt_init (hnew : a.heap.initialized = false) (hap : extents.Pairwise Extent.Apart) :
    Attempt a (1 ≤ extents.length ∧ extents.length ≤ maxSpaces
        ∧ ∀ e ∈ extents, minSpaceUnits ≤ e.len)
      (extents.map fun e => (e.base, e.len)) (init extents a) := by
  have hjudged := judged_stage maxSpaces extents
  generalize hstage : stage maxSpaces extents = staged at hjudged
  cases hjudged with
  | refused err hrefusal hfails =>
    rw [init, Exec.bind_of_ok (Exec.view_apply _ a), if_neg (hnew ▸ Bool.false_ne_true), hstage]
    exact .refused err hrefusal fun h => hfails ⟨h.2.2, h.2.1⟩
  | passed staged hholds hpost =>
    obtain ⟨spaces, few⟩ := staged
    obtain rfl : spaces.map Space.toExtent = extents := hpost
    cases spaces with
    | nil =>
      rw [init, Exec.bind_of_ok (Exec.view_apply _ a), if_neg (hnew ▸ Bool.false_ne_true), hstage]
      exact .refused _ .noSpaces fun h => Nat.not_succ_le_zero _ h.1
    | cons s rest =>
      obtain ⟨m, log, hrun, -⟩ := init_staged hnew hap hstage (List.cons_ne_nil s rest)
      rw [hrun]
      refine .done _ ⟨?_, hholds.2, hholds.1⟩ ?_
      · exact Nat.succ_le_succ (Nat.zero_le _)
      · rw [List.map_map]
        rfl

theorem attempt_initFromRanges (hnew : a.heap.initialized = false) (starts stops : List UInt64) :
    Attempt a (ValidRanges (beforeZero starts) (beforeZero stops))
      (((beforeZero starts).zip (beforeZero stops)).map fun r => (r.1.toNat, rangeUnits r))
      (initFromRanges starts stops a) := by
  have hjudged := judged_extentsOfLists starts stops
  rw [initFromRanges, Exec.bind_of_ok (Exec.view_apply _ a), if_neg (hnew ▸ Bool.false_ne_true)]
  generalize hlists : extentsOfLists starts stops = made at hjudged
  cases hjudged with
  | refused err hrefusal hfails =>
    exact .refused err hrefusal fun h => hfails ⟨h.paired, h.few, h.whole, h.apart,
      fun _ _ => List.forall_mem_nil _⟩
  | passed extents hholds hpost =>
    obtain ⟨hpaired, hfew, hseparate⟩ := hholds
    have hcount : extents.length = (beforeZero starts).length := by
      have hlength := congrArg List.length hpost
      rw [List.length_map, List.length_map, List.length_zip, ← hpaired, Nat.min_self] at hlength
      exact hlength
    have hlens : extents.map Extent.len
        = ((beforeZero starts).zip (beforeZero stops)).map rangeUnits := by
      have hsnd := congrArg (List.map Prod.snd) hpost
      rwa [List.map_map, List.map_map] at hsnd
    have hlong : (∀ e ∈ extents, minSpaceUnits ≤ e.len)
        ↔ ∀ r ∈ (beforeZero starts).zip (beforeZero stops), minSpaceUnits ≤ rangeUnits r := by
      rw [← List.forall_mem_map (P := (minSpaceUnits ≤ ·)), hlens, List.forall_mem_map]
    have hattempt := attempt_init hnew (apart_of_extentsOfLists hlists)
    rw [hcount, hlong, hpost] at hattempt
    dsimp only
    generalize init extents a = out at hattempt
    cases hattempt with
    | refused err hrefusal hfails =>
      exact .refused err hrefusal fun h => hfails ⟨h.nonempty, h.few, h.long⟩
    | done a' hholds hspaces =>
      exact .done a' ⟨hpaired, hholds.1, hfew, hseparate.whole, hseparate.apart, hholds.2.2⟩ hspaces

/-- The heap was just set up from these ranges: space by space they are one free block. -/
structure Formatted (a : Arena) (ranges : List (UInt64 × UInt64)) : Prop where
  spaces : a.heap.spaces.map (fun s => (s.base, s.endAddr))
    = ranges.map fun r => (r.1.toNat, r.2.toNat)
  blocks : ∀ s ∈ a.heap.spaces, s.blocks a.memory = [⟨firstBlock, s.len - 4, false, none⟩]
  audit : a.audit = .ok (.ok ())
  free : a.heap.freeUnits = a.heap.capacityUnits
  unused : a.heap.usedUnits = 0

theorem stop_eq_of_wholeRange {r : UInt64 × UInt64} (h : WholeRange r) :
    r.1.toNat + rangeUnits r * unitSize = r.2.toNat := by
  obtain ⟨hlt, hstart, hstop⟩ := h
  simp only [rangeUnits, unitSize] at *
  omega

theorem SetUp.formatted (h : a.SetUp) {ranges : List (UInt64 × UInt64)}
    (hwhole : ∀ r ∈ ranges, WholeRange r)
    (hspaces : a.heap.spaces.map (fun s => (s.base, s.len))
      = ranges.map fun r => (r.1.toNat, rangeUnits r)) : a.Formatted ranges := by
  obtain ⟨hsound, -⟩ := h.sound
  have hused := hsound.used.trans (usedUnits_whole _)
  refine ⟨?_, ?_, audit_of_sound hsound, ?_, hused⟩
  · have hbounds := congrArg (List.map fun b : Nat × Nat => (b.1, b.1 + b.2 * unitSize)) hspaces
    rw [List.map_map, List.map_map] at hbounds
    refine hbounds.trans (List.map_congr_left fun r hr => ?_)
    simp only [Function.comp_apply, stop_eq_of_wholeRange (hwhole r hr)]
  · intro s hs
    have hunits : s.blockUnits = s.len - 4 := Nat.sub_sub _ 2 2
    rw [SpacesSound.blocks_whole hsound.spaces hs, hunits]
  · rw [← hsound.balance, hused, Nat.add_zero]

/-- A heap once set up refuses to be set up again, whatever was asked of it since. -/
theorem SetUp.initialized (h : a.SetUp) (hne : a.heap.spaces ≠ []) (calls : List HeapCall) :
    ∃ r, (HeapRun.start a).run calls = .ok r ∧ r.arena.heap.initialized = true := by
  obtain ⟨hsound, hap⟩ := h.sound
  obtain ⟨r, hrun, hspaces, -⟩ := HeapRun.run_sound (r := .start a) hsound hap calls
  refine ⟨r, hrun, ?_⟩
  rw [Heap.initialized, hspaces]
  cases hs : a.heap.spaces with
  | nil => exact absurd hs hne
  | cons => simp [HeapRun.start, hs]

/-- A heap is set up from two lists of addresses just if it was not set up before and the lists, each
cut at its first zero, name valid ranges. Its spaces are then the ranges in order, one free block
each, and it is never set up again. In all other cases the request is refused and the arena stays as
it was, so that it may be tried again. -/
theorem initFromRanges_exact (a : Arena) (starts stops : List UInt64) :
    ((initFromRanges starts stops a).1 = .ok (.ok ())
      ↔ a.heap.initialized = false ∧ ValidRanges (beforeZero starts) (beforeZero stops))
    ∧ (∀ a', a.heap = .empty → initFromRanges starts stops a = (.ok (.ok ()), a') →
      a'.Formatted ((beforeZero starts).zip (beforeZero stops))
      ∧ ∀ calls, ∃ r, (HeapRun.start a').run calls = .ok r
        ∧ (∀ extents, init extents r.arena = (.ok (.error .alreadyInitialized), r.arena))
        ∧ ∀ starts stops,
          initFromRanges starts stops r.arena = (.ok (.error .alreadyInitialized), r.arena))
    ∧ ((initFromRanges starts stops a).1 ≠ .ok (.ok ()) →
      ∃ err, Refusal err ∧ initFromRanges starts stops a = (.ok (.error err), a)) := by
  cases hnew : a.heap.initialized with
  | true =>
    rw [initFromRanges_initialized hnew]
    refine ⟨⟨nofun, nofun⟩, ?_, fun _ => ⟨_, .alreadyInitialized, rfl⟩⟩
    exact nofun
  | false =>
    have hattempt := attempt_initFromRanges hnew starts stops
    generalize hrun : initFromRanges starts stops a = out at hattempt
    cases hattempt with
    | refused err hrefusal hfails =>
      refine ⟨⟨nofun, fun h => absurd h.2 hfails⟩, nofun, fun _ => ⟨err, hrefusal, rfl⟩⟩
    | done a' hvalid hspaces =>
      refine ⟨⟨fun _ => ⟨rfl, hvalid⟩, fun _ => rfl⟩, ?_, fun h => absurd rfl h⟩
      intro b hempty hb
      obtain rfl : a' = b := (Prod.mk.inj hb).2
      have hsetUp : a'.SetUp := by
        obtain ⟨heap, m, log⟩ := a
        obtain rfl : heap = .empty := hempty
        exact .initFromRanges m log starts stops a' hrun
      have hne : a'.heap.spaces ≠ [] := by
        intro hnone
        have hlength := congrArg List.length hspaces
        rw [hnone, List.length_map, List.length_map, List.length_zip, ← hvalid.paired,
          Nat.min_self, List.length_nil] at hlength
        exact Nat.ne_of_lt hvalid.nonempty hlength
      refine ⟨hsetUp.formatted hvalid.whole hspaces, ?_⟩
      intro calls
      obtain ⟨r, hrun', hinitialized⟩ := hsetUp.initialized hne calls
      exact ⟨r, hrun', init_initialized hinitialized, initFromRanges_initialized hinitialized⟩

/-- Two ranges, one of them cut off behind a zero, and two ranges that overlap. -/
theorem initFromRanges_exact_sample :
    (∃ a, initFromRanges [0x1000, 0x2000, 0, 0x3000] [0x1080, 0x2048] ⟨.empty, .filled 0xA5, []⟩
        = (.ok (.ok ()), a)
      ∧ a.Formatted [(0x1000, 0x1080), (0x2000, 0x2048)])
    ∧ ∃ err, Refusal err ∧ initFromRanges [0x1000, 0x1040] [0x1080, 0x10C0]
        ⟨.empty, .filled 0xA5, []⟩ = (.ok (.error err), ⟨.empty, .filled 0xA5, []⟩) := by
  constructor
  · obtain ⟨hiff, hdone, -⟩ := initFromRanges_exact ⟨.empty, .filled 0xA5, []⟩
      [0x1000, 0x2000, 0, 0x3000] [0x1080, 0x2048]
    have hok := hiff.2 ⟨rfl, by decide⟩
    exact ⟨_, Prod.ext hok rfl, (hdone _ rfl (Prod.ext hok rfl)).1⟩
  · obtain ⟨hiff, -, hrefused⟩ := initFromRanges_exact ⟨.empty, .filled 0xA5, []⟩
      [0x1000, 0x1040] [0x1080, 0x10C0]
    refine hrefused fun hok => ?_
    exact absurd (hiff.1 hok).2 (by decide)

end Arena

end PaeKernel
