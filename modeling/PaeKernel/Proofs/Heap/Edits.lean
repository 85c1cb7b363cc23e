import PaeKernel.Proofs.Heap.Cells

/-!
# What a request and a release do to cells

`Cell.carve` serves a request out of a free cell, `Cell.merge` frees a cell and joins it with its
free neighbours. Both keep the units of all cells together, and no free cell comes to lie next to
another one.
-/

namespace PaeKernel

namespace Cell

/-- The units a request gets out of a free cell. -/
def granted (found units : Nat) : Nat := if found - units < headerUnits then found else units

/-- What becomes of a free cell out of which a request is served. -/
def carve (found units : Nat) : List Cell :=
  if found - units < headerUnits then [⟨found, true⟩]
  else [⟨units, true⟩, ⟨found - units, false⟩]

/-- The cells before a released one that stay, and its units with those of a free predecessor. -/
def joinBack (pre : List Cell) (units : Nat) : List Cell × Nat :=
  match pre.getLast? with
  | some ⟨more, false⟩ => (pre.dropLast, more + units)
  | _ => (pre, units)

/-- The units of a free cell with those of a free successor, and the cells after that stay. -/
def joinNext (units : Nat) : List Cell → Nat × List Cell
  | ⟨more, false⟩ :: rest => (units + more, rest)
  | post => (units, post)

/-- The cells after one of them was released. -/
def merge (pre : List Cell) (units : Nat) (post : List Cell) : List Cell :=
  (joinBack pre units).1 ++ ⟨(joinNext (joinBack pre units).2 post).1, false⟩
    :: (joinNext (joinBack pre units).2 post).2

theorem joinBack_append_free (pre : List Cell) (more units : Nat) :
    joinBack (pre ++ [⟨more, false⟩]) units = (pre, more + units) := by
  simp [joinBack]

theorem joinBack_append_used (pre : List Cell) (more units : Nat) :
    joinBack (pre ++ [⟨more, true⟩]) units = (pre ++ [⟨more, true⟩], units) := by
  simp [joinBack]

theorem total_joinBack (pre : List Cell) (units : Nat) :
    total (joinBack pre units).1 + (joinBack pre units).2 = total pre + units := by
  rcases List.eq_nil_or_concat' pre with rfl | ⟨pre, ⟨more, used⟩, rfl⟩
  · rfl
  · cases used with
    | true => rw [joinBack_append_used]
    | false => simp only [joinBack_append_free, total_append, total_cons, total_nil]; omega

theorem total_joinNext (units : Nat) (post : List Cell) :
    (joinNext units post).1 + total (joinNext units post).2 = units + total post := by
  rcases post with _ | ⟨⟨more, _ | _⟩, rest⟩
  · rfl
  · simp only [joinNext, total_cons]; omega
  · rfl

theorem total_carve {found units : Nat} (h : units ≤ found) : total (carve found units) = found := by
  unfold carve
  split
  · rfl
  · simp only [total_cons, total_nil]; omega

theorem total_merge (pre : List Cell) (units : Nat) (post : List Cell) :
    total (merge pre units post) = total pre + units + total post := by
  have hback := total_joinBack pre units
  have hnext := total_joinNext (joinBack pre units).2 post
  simp only [merge, total_append, total_cons]
  omega

theorem headerUnit_joinBack (pre : List Cell) (c : Cell) (post : List Cell) (units : Nat) :
    HeaderUnit (pre ++ c :: post) (firstBlock + total (joinBack pre units).1 + 1) := by
  rcases List.eq_nil_or_concat' pre with rfl | ⟨pre, ⟨more, used⟩, rfl⟩
  · exact ⟨[], c, post, rfl, .inr rfl⟩
  · cases used with
    | true =>
      rw [joinBack_append_used]
      exact ⟨pre ++ [⟨more, true⟩], c, post, rfl, .inr rfl⟩
    | false =>
      rw [joinBack_append_free]
      exact ⟨pre, ⟨more, false⟩, c :: post, by simp, .inr rfl⟩

theorem headerUnit_joinNext {pre post : List Cell} {c : Cell} {start units : Nat}
    (hsum : start + units = total pre + c.units) (h : (joinNext units post).2 ≠ []) :
    HeaderUnit (pre ++ c :: post) (firstBlock + start + (joinNext units post).1) := by
  rcases post with _ | ⟨⟨more, _ | _⟩, rest⟩
  · exact absurd rfl h
  · obtain ⟨d, rest, rfl⟩ := List.exists_cons_of_ne_nil h
    refine ⟨pre ++ [c, ⟨more, false⟩], d, rest, by simp, .inl ?_⟩
    simp only [joinNext, total_append, total_cons, total_nil]; omega
  · refine ⟨pre ++ [c], ⟨more, true⟩, rest, by simp, .inl ?_⟩
    simp only [joinNext, total_append, total_cons, total_nil]; omega

/-! ### Units and cells in use -/

theorem granted_le {found units : Nat} (h : units ≤ found) : granted found units ≤ found := by
  unfold granted
  split
  · exact Nat.le_refl _
  · exact h

theorem le_granted {found units : Nat} (h : units ≤ found) : units ≤ granted found units := by
  unfold granted
  split
  · exact h
  · exact Nat.le_refl _

theorem freeUnits_carve (found units : Nat) :
    freeUnits (carve found units) = found - granted found units := by
  unfold carve granted
  split <;> simp [freeUnits]

theorem usedUnits_carve (found units : Nat) :
    usedUnits (carve found units) = granted found units := by
  unfold carve granted
  split <;> simp [usedUnits]

theorem inUse_carve (index found units : Nat) :
    inUse index (carve found units) = [(index, granted found units)] := by
  unfold carve granted
  split <;> simp [inUse]

theorem freeUnits_joinBack (pre : List Cell) (units : Nat) :
    freeUnits (joinBack pre units).1 + (joinBack pre units).2 = freeUnits pre + units := by
  rcases List.eq_nil_or_concat' pre with rfl | ⟨pre, ⟨more, used⟩, rfl⟩
  · rfl
  · cases used with
    | true => rw [joinBack_append_used]
    | false => simp [joinBack_append_free, freeUnits_append, freeUnits, Nat.add_assoc]

theorem freeUnits_joinNext (units : Nat) (post : List Cell) :
    (joinNext units post).1 + freeUnits (joinNext units post).2 = units + freeUnits post := by
  rcases post with _ | ⟨⟨more, _ | _⟩, rest⟩
  · rfl
  · simp [joinNext, freeUnits, Nat.add_assoc]
  · rfl

theorem inUse_joinBack (index : Nat) (pre : List Cell) (units : Nat) :
    inUse index (joinBack pre units).1 = inUse index pre := by
  rcases List.eq_nil_or_concat' pre with rfl | ⟨pre, ⟨more, used⟩, rfl⟩
  · rfl
  · cases used with
    | true => rw [joinBack_append_used]
    | false => simp [joinBack_append_free, inUse_append, inUse]

theorem inUse_joinNext (index units : Nat) (post : List Cell) :
    inUse (index + (joinNext units post).1) (joinNext units post).2 = inUse (index + units) post := by
  rcases post with _ | ⟨⟨more, _ | _⟩, rest⟩
  · rfl
  · simp [joinNext, inUse, Nat.add_assoc]
  · rfl

theorem freeUnits_merge (pre : List Cell) (units : Nat) (post : List Cell) :
    freeUnits (merge pre units post) = freeUnits pre + units + freeUnits post := by
  have hback := freeUnits_joinBack pre units
  have hnext := freeUnits_joinNext (joinBack pre units).2 post
  rw [merge, freeUnits_append, freeUnits, if_neg Bool.false_ne_true]
  dsimp only
  omega

theorem usedUnits_merge (pre : List Cell) (units : Nat) (post : List Cell) :
    usedUnits (merge pre units post) = usedUnits pre + usedUnits post := by
  have hmerge := free_add_used (merge pre units post)
  have hpre := free_add_used pre
  have hpost := free_add_used post
  rw [freeUnits_merge, total_merge] at hmerge
  omega

theorem inUse_merge (index : Nat) (pre : List Cell) (units : Nat) (post : List Cell) :
    inUse index (merge pre units post) = inUse index pre ++ inUse (index + total pre + units) post := by
  have hsum := total_joinBack pre units
  rw [merge, inUse_append, inUse, if_neg Bool.false_ne_true, List.nil_append, inUse_joinBack,
    inUse_joinNext, Nat.add_assoc, hsum, Nat.add_assoc]

/-! ### Free cells stay apart -/

theorem apart_carve {pre post : List Cell} {c : Cell} (h : Apart (pre ++ c :: post))
    (hfree : c.used = false) (units : Nat) : Apart (pre ++ (carve c.units units ++ post)) := by
  rw [apart_iff_isChain] at *
  obtain ⟨hpre, hrest, -⟩ := List.isChain_append.1 h
  have hhead : ∀ d ∈ post.head?, d.used = true := fun d hd => by
    simpa [hfree] using (List.isChain_cons.1 hrest).1 d hd
  have hpost := (List.isChain_cons.1 hrest).2
  refine List.isChain_append.2 ⟨hpre, ?_, ?_⟩
  · unfold carve
    split
    · exact List.isChain_cons.2 ⟨fun _ _ => .inl rfl, hpost⟩
    · refine List.isChain_cons_cons.2 ⟨.inl rfl, List.isChain_cons.2 ⟨?_, hpost⟩⟩
      intro d hd
      exact .inr (hhead d hd)
  · intro a _ b hb
    refine .inr ?_
    unfold carve at hb
    split at hb <;> (obtain rfl := Option.some.inj hb; rfl)

theorem isChain_joinBack {pre : List Cell} (units : Nat)
    (h : pre.IsChain fun a b => a.used = true ∨ b.used = true) :
    (joinBack pre units).1.IsChain (fun a b => a.used = true ∨ b.used = true)
      ∧ ∀ p ∈ (joinBack pre units).1.getLast?, p.used = true := by
  rcases List.eq_nil_or_concat' pre with rfl | ⟨pre, ⟨more, used⟩, rfl⟩
  · exact ⟨h, fun _ hp => nomatch hp⟩
  · cases used with
    | true =>
      rw [joinBack_append_used]
      exact ⟨h, by simp⟩
    | false =>
      rw [joinBack_append_free]
      obtain ⟨hpre, -, hseam⟩ := List.isChain_append.1 h
      exact ⟨hpre, fun p hp => by simpa using hseam p hp ⟨more, false⟩ rfl⟩

theorem isChain_joinNext {post : List Cell} (units : Nat)
    (h : post.IsChain fun a b => a.used = true ∨ b.used = true) :
    (joinNext units post).2.IsChain (fun a b => a.used = true ∨ b.used = true)
      ∧ ∀ p ∈ (joinNext units post).2.head?, p.used = true := by
  rcases post with _ | ⟨⟨more, _ | _⟩, rest⟩
  · exact ⟨h, fun _ hp => nomatch hp⟩
  · obtain ⟨hseam, hrest⟩ := List.isChain_cons.1 h
    exact ⟨hrest, fun p hp => by simpa using hseam p hp⟩
  · exact ⟨h, fun p hp => by obtain rfl := Option.some.inj hp; rfl⟩

theorem apart_merge {pre post : List Cell} {c : Cell} (h : Apart (pre ++ c :: post)) (units : Nat) :
    Apart (merge pre units post) := by
  rw [apart_iff_isChain] at *
  obtain ⟨hpre, hrest, -⟩ := List.isChain_append.1 h
  obtain ⟨hback, hlast⟩ := isChain_joinBack units hpre
  obtain ⟨hnext, hhead⟩ := isChain_joinNext (joinBack pre units).2 (List.isChain_cons.1 hrest).2
  exact List.isChain_append.2 ⟨hback, List.isChain_cons.2 ⟨fun d hd => .inr (hhead d hd), hnext⟩,
    fun a ha _ _ => .inl (hlast a ha)⟩

end Cell

end PaeKernel
