import PaeKernel.Proofs.Heap.Operations

/-!
# The audit accepts sound heaps

On a sound heap the audit walks over the cells of every space, finds each header as it should be
and counts what the counters say. Its own sums stay below the word limit because the units of all
spaces together do.
-/

namespace PaeKernel

theorem Verdict.bind_check_ok {α β : Type} (x : α) (f : α → Verdict β) :
    (Verdict.check (.ok x) >>= f) = f x := rfl

theorem Verdict.bind_pure {α β : Type} (x : α) (f : α → Verdict β) :
    ((pure x : Verdict α) >>= f) = f x := rfl

namespace Tally

/-- The tally with the units of more cells. -/
def addCells (t : Tally) (cells : List Cell) : Tally :=
  { t with free := t.free + Cell.freeUnits cells, used := t.used + Cell.usedUnits cells }

theorem addCells_append (t : Tally) (pre post : List Cell) :
    t.addCells (pre ++ post) = (t.addCells pre).addCells post := by
  simp [addCells, Cell.freeUnits_append, Cell.usedUnits_append, Nat.add_assoc]

/-- No counter overflows when these cells are added. -/
def Room (t : Tally) (cells : List Cell) : Prop :=
  t.free + Cell.freeUnits cells < wordLimit ∧ t.used + Cell.usedUnits cells < wordLimit

theorem Room.of_append {t : Tally} (pre post : List Cell) (h : t.Room (pre ++ post)) :
    t.Room pre ∧ (t.addCells pre).Room post := by
  simp only [Room, addCells, Cell.freeUnits_append, Cell.usedUnits_append] at *
  omega

theorem addBlock_eq {t : Tally} {c : Cell} (h : t.Room [c]) (index : Nat) (prev : Option Nat) :
    t.addBlock ⟨index, c.units, c.used, prev⟩ = .ok (t.addCells [c]) := by
  obtain ⟨units, used⟩ := c
  obtain ⟨hfree, hused⟩ := h
  cases used with
  | true =>
    simp only [Cell.usedUnits, if_true, Nat.add_zero] at hused
    rw [addBlock, if_pos rfl, addWord_of_lt hused]
    rfl
  | false =>
    simp only [Cell.freeUnits, Bool.false_eq_true, if_false, Nat.add_zero] at hfree
    rw [addBlock, if_neg Bool.false_ne_true, addWord_of_lt hfree]
    rfl

end Tally

namespace Space

variable {s : Space} {m : Memory} {number index nextBase : Nat} {prev : Option Nat}
  {cells : List Cell} {t : Tally}

theorem namesPrev_of_headers {c : Cell} (h : s.Headers m index prev (c :: cells))
    {before : Option Block} (hbefore : before.map Block.index = prev) :
    s.namesPrev m before ⟨index, c.units, c.used, prev⟩ = true := by
  subst hbefore
  cases before with
  | none => exact beq_iff_eq.2 h.2.1
  | some p => exact beq_self_eq_true _

theorem auditBlocks_layOut (number : Nat) (before : Option Block) (h : s.Headers m index prev cells)
    (hbefore : before.map Block.index = prev)
    (hapart : Cell.Apart ((before.map fun p => ⟨p.units, p.used⟩).toList ++ cells))
    (hroom : t.Room cells) : s.auditBlocks m number index before (Cell.layOut index prev cells) t
      = pure (index + Cell.total cells, t.addCells cells) := by
  induction cells generalizing index prev before t with
  | nil => rfl
  | cons c rest ih =>
    have hroom' := Tally.Room.of_append [c] rest hroom
    have hsplit : ¬ (before.any (fun p => !p.used) = true ∧ c.used = false)
        ∧ Cell.Apart (c :: rest) := by
      cases before with
      | none => exact ⟨fun hbad => Bool.false_ne_true hbad.1, hapart⟩
      | some p =>
        obtain ⟨hpair, htail⟩ := hapart
        refine ⟨fun ⟨hp, hc⟩ => ?_, htail⟩
        rcases hpair with hpair | hpair <;> simp_all
    rw [Cell.layOut, auditBlocks, if_neg (not_not_intro rfl),
      if_neg (by rw [namesPrev_of_headers h hbefore]; exact Bool.noConfusion),
      if_neg hsplit.1, Tally.addBlock_eq hroom'.1, Verdict.bind_check_ok]
    have hrest := ih (some ⟨index, c.units, c.used, prev⟩) h.2.2.2 rfl hsplit.2 hroom'.2
    rw [Block.stop, hrest, Cell.total_cons, ← Tally.addCells_append, Nat.add_assoc]
    rfl

theorem audit_of_sound (h : s.Sound m nextBase cells) (hroom : t.Room cells)
    (hcapacity : t.capacity + s.blockUnits < wordLimit) : s.audit m number nextBase t
      = pure { t.addCells cells with capacity := t.capacity + s.blockUnits } := by
  have hblocks := auditBlocks_layOut number none h.headers rfl h.apart hroom
  have hclosing : ¬ (s.word m s.sentinel ≠ 0 ∨ (s.sizeAt m s.sentinel).isSentinel = false) := by
    simp [sizeAt, BlockSize.isSentinel, h.closing.1, h.closing.2]
  rw [audit, if_neg (not_not_intro h.length), if_neg (not_not_intro h.next), if_neg hclosing,
    blocks_of_sound h, hblocks, Verdict.bind_pure]
  dsimp only
  rw [if_neg (not_not_intro h.full), Tally.addSpace, Tally.addCells, addWord_of_lt hcapacity]
  rfl

end Space

namespace Arena

variable {a : Arena} {m : Memory} {number : Nat} {spaces : List Space} {cells : List (List Cell)}
  {t : Tally}

theorem auditSpaces_of_sound (number : Nat) (h : SpacesSound m spaces cells)
    (hroom : t.Room cells.flatten)
    (hcapacity : t.capacity + spaces.foldr (fun s units => s.blockUnits + units) 0 < wordLimit) :
    auditSpaces m number spaces t = pure { t.addCells cells.flatten with
      capacity := t.capacity + spaces.foldr (fun s units => s.blockUnits + units) 0 } := by
  induction spaces generalizing number cells t with
  | nil =>
    cases cells with
    | nil => rfl
    | cons c more => exact h.elim
  | cons s rest ih =>
    cases cells with
    | nil => exact h.elim
    | cons c more =>
      obtain ⟨hown, hrest⟩ := Tally.Room.of_append c more.flatten hroom
      rw [List.foldr_cons, ← Nat.add_assoc] at hcapacity
      rw [auditSpaces, Space.audit_of_sound h.1 hown (by omega), Verdict.bind_pure,
        ih (t := { t.addCells c with capacity := t.capacity + s.blockUnits }) (number + 1) h.2 hrest
          hcapacity]
      simp [Tally.addCells, Cell.freeUnits_append, Cell.usedUnits_append, Nat.add_assoc]

theorem audit_of_sound (h : a.Sound cells) : a.audit = .ok (.ok ()) := by
  have hbalance := h.balance
  have hlimit := h.capacity_lt
  have hroom : ({} : Tally).Room cells.flatten := by
    simp only [Tally.Room, ← h.free, ← h.used]
    omega
  have hspaces := auditSpaces_of_sound 0 h.spaces hroom (by
    rw [← h.capacity, Nat.zero_add]
    exact hlimit)
  have hcounters : ¬ (a.heap.freeUnits, a.heap.usedUnits, a.heap.capacityUnits)
      ≠ (a.heap.freeUnits, a.heap.usedUnits, a.heap.capacityUnits) := not_not_intro rfl
  rw [audit, auditVerdict, hspaces, Verdict.bind_pure]
  simp only [Tally.addCells, Nat.zero_add, ← h.free, ← h.used, ← h.capacity]
  rw [if_neg hcounters, addWord_of_lt (by omega), Verdict.bind_check_ok,
    if_neg (not_not_intro hbalance)]
  rfl

end Arena

end PaeKernel
