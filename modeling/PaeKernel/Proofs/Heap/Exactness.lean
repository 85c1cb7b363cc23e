import PaeKernel.Proofs.Heap.Audit
import PaeKernel.Proofs.Heap.Setup
import PaeKernel.Proofs.Heap.Walk

/-!
# The audit is exact

On sound heaps the audit finds nothing wrong (`Arena.audit_of_sound`). Here is the other half: over
memory of any contents and with any counters the audit ends with an answer, and a heap that it
accepts is sound (`Arena.audit_cases`). The blocks it counts lie one after another in the block area
even when their headers are garbage, so its sums stay below the word limit.
-/

namespace PaeKernel

namespace Tally

variable {t : Tally}

/-- The units counted as free and as used are those of the spaces counted. -/
def Balanced (t : Tally) : Prop := t.free + t.used = t.capacity

theorem Balanced.room (h : t.Balanced) {cells : List Cell} {units : Nat}
    (htotal : Cell.total cells ≤ units) (hlimit : t.capacity + units < wordLimit) :
    t.Room cells := by
  have hsum := Cell.free_add_used cells
  simp only [Balanced] at h
  simp only [Room]
  omega

theorem Balanced.addCells (h : t.Balanced) (cells : List Cell) :
    Balanced { t.addCells cells with capacity := t.capacity + Cell.total cells } := by
  have hsum := Cell.free_add_used cells
  simp only [Balanced, Tally.addCells] at *
  omega

end Tally

namespace Space

variable {s : Space} {m m' : Memory} {number index nextBase : Nat} {before : Option Block}
  {t : Tally}

/-- A block that names the block before it has that link in its header. -/
theorem word_of_namesPrev (h : s.namesPrev m before (s.blockAt m index) = true) :
    s.word m index = s.linkTo (before.map Block.index) := by
  cases before with
  | none => exact beq_iff_eq.1 h
  | some p =>
    have hprev : s.prevAt m index = some p.index := beq_iff_eq.1 h
    rw [prevAt] at hprev
    split at hprev
    · cases hprev
    · exact (addrOf_indexOf hprev).1.symm

theorem word_blockAt (s : Space) (m : Memory) (index : Nat) :
    s.word m (index + 1) = (s.blockAt m index).cell.word :=
  (Cell.word_sizeAt (m.read_lt _)).symm

/-- The audit ends at a block, or goes on behind it with the block counted. -/
theorem auditBlocks_step (number : Nat) (rest : List Block)
    (hroom : t.Room [(s.blockAt m index).cell]) :
    (∃ err, s.auditBlocks m number index before (s.blockAt m index :: rest) t = throw err)
    ∨ s.auditBlocks m number index before (s.blockAt m index :: rest) t
        = s.auditBlocks m number (index + (s.sizeAt m index).units) (some (s.blockAt m index)) rest
          (t.addCells [(s.blockAt m index).cell])
      ∧ s.word m index = s.linkTo (before.map Block.index)
      ∧ ∀ p ∈ before, p.used = true ∨ (s.blockAt m index).used = true := by
  have hindex : ¬ (s.blockAt m index).index ≠ index := not_not_intro rfl
  rw [auditBlocks, if_neg hindex]
  cases hnames : s.namesPrev m before (s.blockAt m index) with
  | false => exact .inl ⟨_, if_pos rfl⟩
  | true =>
    rw [if_neg Bool.noConfusion]
    by_cases hpair : before.any (fun p => !p.used) = true ∧ (s.blockAt m index).used = false
    · exact .inl ⟨_, if_pos hpair⟩
    · have hcount : t.addBlock (s.blockAt m index) = .ok (t.addCells [(s.blockAt m index).cell]) :=
        Tally.addBlock_eq hroom _ _
      rw [if_neg hpair, hcount, Verdict.bind_check_ok]
      refine .inr ⟨rfl, word_of_namesPrev hnames, ?_⟩
      rintro p rfl
      cases hp : p.used with
      | true => exact .inl rfl
      | false =>
        rw [Option.any_some, hp, Bool.not_false, eq_self, true_and, Bool.not_eq_false] at hpair
        exact .inr hpair

/-- The audit of the blocks found in memory of any contents ends. If it finds nothing wrong, their
headers are those of a run of cells with no two free ones next to each other. -/
theorem auditBlocks_cases (s : Space) (m : Memory) (number index : Nat) (before : Option Block)
    (hroom : t.Room (s.cellsFrom m index)) :
    (∃ err, s.auditBlocks m number index before (s.blocksFrom m index) t = throw err)
    ∨ s.auditBlocks m number index before (s.blocksFrom m index) t
        = pure (index + Cell.total (s.cellsFrom m index), t.addCells (s.cellsFrom m index))
      ∧ s.Headers m index (before.map Block.index) (s.cellsFrom m index)
      ∧ Cell.Apart ((before.map Block.cell).toList ++ s.cellsFrom m index) := by
  unfold cellsFrom at *
  induction index using blocksFrom.induct s m generalizing before t with
  | case1 index hspace hfits ih =>
    rw [blocksFrom_cons hspace hfits, List.map_cons] at *
    obtain ⟨hown, hmore⟩ := Tally.Room.of_append [(s.blockAt m index).cell] _ hroom
    rcases auditBlocks_step number _ hown with hstop | ⟨hgo, hlink, hpair⟩
    · exact .inl hstop
    · rw [hgo]
      rcases ih (some (s.blockAt m index)) hmore with hstop | ⟨hrest, hheaders, hapart⟩
      · exact .inl hstop
      · refine .inr ⟨?_, ⟨hfits.1, hlink, word_blockAt s m index, hheaders⟩, ?_⟩
        · rw [hrest, ← Tally.addCells_append, Cell.total_cons, ← Nat.add_assoc]
          rfl
        · cases before with
          | none => exact hapart
          | some p => exact ⟨hpair p rfl, hapart⟩
  | case2 index hspace hfits =>
    rw [blocksFrom_of_unfit hfits]
    refine .inr ⟨rfl, trivial, ?_⟩
    cases before <;> trivial
  | case3 index hspace =>
    rw [blocksFrom_of_no_room hspace]
    refine .inr ⟨rfl, trivial, ?_⟩
    cases before <;> trivial

/-- The audit of a space ends, whatever its words are, and accepts only sound spaces. -/
theorem audit_cases (s : Space) (m : Memory) (number nextBase : Nat) (hbalanced : t.Balanced)
    (hlimit : t.capacity + s.blockUnits < wordLimit) :
    (∃ err, s.audit m number nextBase t = throw err)
    ∨ ∃ cells, s.Sound m nextBase cells ∧ t.Room cells := by
  have hsen := s.sentinel_add
  have hlong := s.long
  have hfirst : firstBlock ≤ s.sentinel := by
    simp only [minSpaceUnits, spaceHeaderUnits, headerUnits, firstBlock] at *
    omega
  have htotal := total_cellsFrom_le (m := m) hfirst
  have hroom : t.Room (s.cellsFrom m firstBlock) := by
    refine hbalanced.room ?_ hlimit
    simp only [blockUnits]
    omega
  rw [audit]
  by_cases hlength : s.word m 1 = s.len
  · rw [if_neg (not_not_intro hlength)]
    by_cases hnext : s.word m 0 = nextBase
    · rw [if_neg (not_not_intro hnext)]
      by_cases hclosing : s.word m s.sentinel ≠ 0 ∨ (s.sizeAt m s.sentinel).isSentinel = false
      · exact .inl ⟨_, if_pos hclosing⟩
      · rw [if_neg hclosing]
        rcases auditBlocks_cases s m number firstBlock none hroom with
          ⟨err, hstop⟩ | ⟨hall, hheaders, hapart⟩
        · refine .inl ⟨err, ?_⟩
          rw [blocks, hstop]
          rfl
        · rw [blocks, hall, Verdict.bind_pure]
          by_cases hreached : firstBlock + Cell.total (s.cellsFrom m firstBlock) = s.sentinel
          · simp only [sizeAt, BlockSize.isSentinel, beq_eq_false_iff_ne, not_or, not_not] at hclosing
            exact .inr ⟨_, ⟨hlength, hnext, hclosing, (chain_iff_headers none).2 ⟨hheaders, hreached⟩,
              hapart⟩, hroom⟩
          · exact .inl ⟨_, if_pos hreached⟩
    · exact .inl ⟨_, if_pos hnext⟩
  · exact .inl ⟨_, if_pos hlength⟩

/-! ### Words outside the space have no say -/

theorem auditBlocks_congr (hsame : ∀ j < s.len, s.word m' j = s.word m j) {blocks : List Block}
    (hblocks : ∀ b ∈ blocks, b.index < s.len) (index : Nat) (before : Option Block) (t : Tally) :
    s.auditBlocks m' number index before blocks t = s.auditBlocks m number index before blocks t := by
  induction blocks generalizing index before t with
  | nil => rfl
  | cons b rest ih =>
    obtain ⟨hb, hrest⟩ := List.forall_mem_cons.1 hblocks
    have hnames : s.namesPrev m' before b = s.namesPrev m before b := by
      cases before with
      | none => rw [namesPrev, hsame _ hb, namesPrev]
      | some p => rfl
    simp only [auditBlocks, hnames, ih hrest]

theorem audit_congr (hsame : ∀ j < s.len, s.word m' j = s.word m j) (number nextBase : Nat)
    (t : Tally) : s.audit m' number nextBase t = s.audit m number nextBase t := by
  have hsen := s.sentinel_add
  have hblocks : ∀ b ∈ s.blocks m, b.index < s.len := by
    intro b hb
    obtain ⟨-, htwo, hstop⟩ := bounds_of_mem_blocksFrom hb
    simp only [headerUnits, Block.stop] at *
    omega
  rw [audit, audit, hsame 0 (by omega), hsame 1 (by omega), hsame s.sentinel (by omega),
    sizeAt_congr hsame (by omega), blocks_congr hsame, auditBlocks_congr hsame hblocks]

end Space

namespace Arena

variable {a : Arena} {m : Memory} {spaces : List Space} {t : Tally}

/-- The audit of the spaces ends, whatever their words are, and accepts only sound ones. -/
theorem auditSpaces_cases (m : Memory) (number : Nat) (spaces : List Space)
    (hbalanced : t.Balanced)
    (hlimit : t.capacity + spaces.foldr (fun s units => s.blockUnits + units) 0 < wordLimit) :
    (∃ err, auditSpaces m number spaces t = throw err)
    ∨ ∃ cells, SpacesSound m spaces cells := by
  induction spaces generalizing number t with
  | nil => exact .inr ⟨[], trivial⟩
  | cons s rest ih =>
    rw [List.foldr_cons, ← Nat.add_assoc] at hlimit
    rcases Space.audit_cases s m number ((rest.head?.map (·.base)).getD 0) hbalanced (by omega) with
      ⟨err, hstop⟩ | ⟨own, hsound, hroom⟩
    · refine .inl ⟨err, ?_⟩
      rw [auditSpaces, hstop]
      rfl
    · have hown : s.audit m number ((rest.head?.map (·.base)).getD 0) t = _ :=
        Space.audit_of_sound hsound hroom (by omega)
      have hcounted := hbalanced.addCells own
      rw [hsound.total_eq] at hcounted
      rw [auditSpaces, hown, Verdict.bind_pure]
      rcases ih (number + 1) hcounted hlimit with hstop | ⟨more, hmore⟩
      · exact .inl hstop
      · exact .inr ⟨own :: more, hsound, hmore⟩

/-- The audit of a heap ends, whatever its words and counters are, and accepts only sound heaps. -/
theorem audit_cases (a : Arena) :
    (∃ err, a.audit = .ok (.error err)) ∨ ∃ cells, a.Sound cells := by
  have hlimit := foldr_blockUnits_lt a.heap
  rw [audit, auditVerdict]
  rcases auditSpaces_cases (t := {}) a.memory 0 a.heap.spaces rfl (by rwa [Nat.zero_add]) with
    ⟨err, hstop⟩ | ⟨cells, hsound⟩
  · refine .inl ⟨err, ?_⟩
    rw [hstop]
    rfl
  · have htotal := hsound.total_eq
    have hsum := Cell.free_add_used cells.flatten
    have hroom : ({} : Tally).Room cells.flatten := by
      simp only [Tally.Room]
      omega
    rw [auditSpaces_of_sound 0 hsound hroom (by rwa [Nat.zero_add]), Verdict.bind_pure]
    by_cases hcounters : (Cell.freeUnits cells.flatten, Cell.usedUnits cells.flatten,
        a.heap.spaces.foldr (fun s units => s.blockUnits + units) 0)
          = (a.heap.freeUnits, a.heap.usedUnits, a.heap.capacityUnits)
    · obtain ⟨hfree, hused, hcapacity⟩ := by simpa only [Prod.mk.injEq] using hcounters
      exact .inr ⟨cells, hsound, hfree.symm, hused.symm, hcapacity.symm⟩
    · refine .inl ⟨.corrupt a.heap.spaces.length 0 "counters", ?_⟩
      simp only [Tally.addCells, Nat.zero_add]
      rw [if_pos hcounters]
      rfl

/-- A heap that the audit accepts is sound. -/
theorem exists_sound_of_audit (h : a.audit = .ok (.ok ())) : ∃ cells, a.Sound cells := by
  rcases audit_cases a with ⟨err, hstop⟩ | hsound
  · rw [h] at hstop
    cases hstop
  · exact hsound

theorem auditSpaces_congr {m' : Memory}
    (hsame : ∀ s ∈ spaces, ∀ j < s.len, s.word m' j = s.word m j) (number : Nat) (t : Tally) :
    auditSpaces m' number spaces t = auditSpaces m number spaces t := by
  induction spaces generalizing number t with
  | nil => rfl
  | cons s rest ih =>
    obtain ⟨hs, hrest⟩ := List.forall_mem_cons.1 hsame
    simp only [auditSpaces, Space.audit_congr hs, ih hrest]

/-- The audit is exact on memory of any contents and counters of any value: it always answers, and it
finds nothing wrong just if the words of the spaces spell cells that fill them and the counters are
the sums over these cells. It reads no unit outside the spaces: the walk it goes by never stops at
one, and no word outside has a say in its answer. -/
theorem audit_exact (a : Arena) : (∃ r, a.audit = .ok r ∧ (r = .ok () ↔ ∃ cells, a.Sound cells))
    ∧ (∀ s ∈ a.heap.spaces, s.walk firstBlock a.memory = (.ok (s.blocks a.memory), a.memory))
    ∧ ∀ m, (∀ s ∈ a.heap.spaces, ∀ j < s.len, s.word m j = s.word a.memory j) →
      audit { a with memory := m } = a.audit := by
  refine ⟨?_, fun s _ => s.walk_eq a.memory firstBlock, ?_⟩
  · rcases audit_cases a with ⟨err, hstop⟩ | ⟨cells, hsound⟩
    · refine ⟨.error err, hstop, nofun, ?_⟩
      rintro ⟨cells, hsound⟩
      exact Except.ok.inj (hstop.symm.trans (audit_of_sound hsound))
    · exact ⟨.ok (), audit_of_sound hsound, fun _ => ⟨cells, hsound⟩, fun _ => rfl⟩
  · intro m hsame
    rw [audit, audit, auditVerdict, auditVerdict, auditSpaces_congr hsame]

/-- The first block of a small heap, with another size in its header. -/
theorem audit_exact_sample : (∃ cells, sample.Sound cells)
    ∧ ¬ ∃ cells, Sound { sample with memory := sample.memory.write 0x1018 5 } cells := by
  obtain ⟨⟨r, hr, hiff⟩, -⟩ := audit_exact sample
  obtain ⟨⟨r', hr', hiff'⟩, -⟩ := audit_exact { sample with memory := sample.memory.write 0x1018 5 }
  have haccepted : sample.audit = .ok (.ok ()) := by decide +kernel
  have hrefused : audit { sample with memory := sample.memory.write 0x1018 5 }
      = .ok (.error (.corrupt 0 7 "partition")) := by decide +kernel
  obtain rfl := Except.ok.inj (hr.symm.trans haccepted)
  obtain rfl := Except.ok.inj (hr'.symm.trans hrefused)
  exact ⟨hiff.1 rfl, fun hsound => nomatch hiff'.2 hsound⟩

end Arena

end PaeKernel
