import PaeKernel.Proofs.Heap.Edits

/-!
# Taking and releasing a block

`take` and `release` change the words of a space as `Cell.carve` and `Cell.merge` change its cells,
and touch no words but headers. Both leave the block after the changed one with a stale link until
their last store: `Space.Loose` is a space in that state, and every store of a release leads from
one loose space to the next.
-/

namespace PaeKernel

namespace Space

variable {s : Space} {m m' : Memory} {index units : Nat} {prev : Option Nat} {c : Cell}
  {pre post cells : List Cell}

/-! ### Checked access inside a space -/

theorem size_of_lt (h : index + 1 < s.len) (m : Memory) :
    s.size index m = (.ok (s.sizeAt m index), m) := by
  simp [size, Exec.bind_apply, load_of_lt h, sizeAt]

theorem setSize_of_lt (h : index + 1 < s.len) (size : BlockSize) (m : Memory) :
    s.setSize index size m = (.ok (), m.write (s.addrOf (index + 1)) size.raw) :=
  store_of_lt h _ m

theorem setPrev_of_lt (h : index < s.len) (prev : Option Nat) (m : Memory) :
    s.setPrev index prev m = (.ok (), m.write (s.addrOf index) (s.linkTo prev)) :=
  store_of_lt h _ m

theorem prev_of_lt (h : index < s.len) (m : Memory) :
    s.prev index m = (.ok (s.prevAt m index), m) := by
  simp [prev, Exec.bind_apply, load_of_lt h, prevAt]

theorem next_of_lt (h : index + 1 < s.len) (m : Memory) :
    s.next index m = (.ok (if index + (s.sizeAt m index).units < s.sentinel then
      some (index + (s.sizeAt m index).units) else none), m) := by
  simp [next, Exec.bind_apply, size_of_lt h]

theorem payload_of_lt (h : index + headerUnits < s.len) (m : Memory) :
    s.payload index m = (.ok (s.addrOf (index + headerUnits)), m) := by
  simp [payload, Exec.bind_apply, Exec.require_apply, h]

theorem units_le_of_le (h : units ≤ s.sentinel) : units ≤ maxBlockUnits := by
  have := s.len_lt
  have := s.sentinel_add
  simp only [maxBlockUnits, usedBit]; omega

theorem cellWord_lt (h : c.units ≤ s.sentinel) : c.word < wordLimit := by
  have := units_le_of_le h
  have : c.used.toNat ≤ 1 := c.used.toNat_le
  have : c.used.toNat * usedBit ≤ 1 * usedBit := Nat.mul_le_mul_right _ this
  simp only [Cell.word, maxBlockUnits, usedBit, wordLimit] at *; omega

theorem linkTo_lt (h : ∀ p ∈ prev, p < s.len) : s.linkTo prev < wordLimit := by
  have hb := s.bounded
  cases prev with
  | none => simp [linkTo, wordLimit]
  | some p =>
    have := h p rfl
    simp only [linkTo, Option.map_some, Option.getD_some, addrOf, unitSize, wordLimit] at *
    omega

theorem prevAt_of_link (h : s.word m index = s.linkTo prev)
    (hp : ∀ p ∈ prev, firstBlock ≤ p ∧ p < s.len) : s.prevAt m index = prev := by
  refine prevAt_of_word h ?_
  cases prev with
  | none => exact .inl ⟨rfl, rfl⟩
  | some p => exact .inr ⟨p, rfl, (hp p rfl).1, (hp p rfl).2, rfl⟩

/-- The words of a header that was just cut off a run. -/
theorem Headers.last (h : s.Headers m firstBlock none (pre ++ [c])) :
    headerUnits ≤ c.units
      ∧ s.word m (firstBlock + Cell.total pre) = s.linkTo (Cell.lastIndex firstBlock none pre)
      ∧ s.word m (firstBlock + Cell.total pre + 1) = c.word :=
  headers_singleton.1 (headers_append.1 h).2

theorem Headers.sizeAt_last (h : s.Headers m firstBlock none (pre ++ [c])) :
    s.sizeAt m (firstBlock + Cell.total pre) = ⟨c.word⟩ := by
  rw [sizeAt, h.last.2.2]

/-- A run whose last cell got another size word. -/
theorem Headers.resize (h : s.Headers m firstBlock none (pre ++ [c])) {d : Cell}
    (htwo : headerUnits ≤ d.units) (hfit : d.units ≤ s.sentinel) :
    s.Headers (m.write (s.addrOf (firstBlock + Cell.total pre + 1)) d.word) firstBlock none
      (pre ++ [d]) := by
  obtain ⟨hpre, -⟩ := headers_append.1 h
  refine headers_append.2 ⟨?_, headers_singleton.2 ⟨htwo, ?_, ?_⟩⟩
  · exact hpre.of_agree fun j _ hj => word_store_of_ne s m _ (by omega)
  · rw [word_store_of_ne s m _ (by omega)]
    exact h.last.2.1
  · exact word_store_same s m _ (cellWord_lt hfit)

/-! ### Loose spaces -/

/-- The space holds these cells, with a free one of so many units among them, but the cell after
the free one may still name another predecessor. -/
structure Loose (s : Space) (m : Memory) (pre : List Cell) (units : Nat) (post : List Cell) :
    Prop where
  front : s.Headers m firstBlock none (pre ++ [⟨units, false⟩])
  back : ∃ prev, s.Headers m (firstBlock + Cell.total pre + units) prev post
  full : firstBlock + Cell.total pre + units + Cell.total post = s.sentinel

theorem Loose.sizeAt_eq (h : s.Loose m pre units post) :
    s.sizeAt m (firstBlock + Cell.total pre) = ⟨units⟩ := by
  rw [h.front.sizeAt_last, Cell.word_free]

theorem Loose.units_sizeAt (h : s.Loose m pre units post) :
    (s.sizeAt m (firstBlock + Cell.total pre)).units = units := by
  have := h.full
  rw [h.sizeAt_eq, BlockSize.units_free (s.units_le_of_le (by omega))]

theorem Loose.header_lt (h : s.Loose m pre units post) :
    firstBlock + Cell.total pre + 1 < s.len := by
  have := h.full
  have := h.front.last.1
  have := s.sentinel_add
  simp only [headerUnits] at *; omega

/-- A new size word for the last cell of the front gives a loose space if the cells after that size
fill the space. -/
theorem loose_of_resize (hfront : s.Headers m firstBlock none (pre ++ [c]))
    (htwo : headerUnits ≤ units)
    (hback : ∃ prev, s.Headers m (firstBlock + Cell.total pre + units) prev post)
    (hfull : firstBlock + Cell.total pre + units + Cell.total post = s.sentinel) :
    s.Loose (m.write (s.addrOf (firstBlock + Cell.total pre + 1)) units) pre units post := by
  refine ⟨?_, ?_, hfull⟩
  · have hfit : units ≤ s.sentinel := by omega
    have hresized := hfront.resize (d := ⟨units, false⟩) htwo hfit
    rwa [Cell.word_free] at hresized
  · obtain ⟨prev, hback⟩ := hback
    simp only [headerUnits] at htwo
    exact ⟨prev, hback.of_agree fun j hj _ => word_store_of_ne s m _ (by omega)⟩

theorem Loose.relink_eq (h : s.Loose m pre units post) : ∃ m',
    s.relink (firstBlock + Cell.total pre) m = (.ok (), m')
      ∧ s.Headers m' firstBlock none (pre ++ ⟨units, false⟩ :: post)
      ∧ s.ChangesOnly (fun j => post ≠ [] ∧ j = firstBlock + Cell.total pre + units) m m' := by
  obtain ⟨prev, hback⟩ := h.back
  have hfull := h.full
  have hsen := s.sentinel_add
  have htwo := h.front.last.1
  simp only [headerUnits] at htwo
  have hsplit : pre ++ ⟨units, false⟩ :: post = (pre ++ [⟨units, false⟩]) ++ post := by simp
  have hlast := Cell.lastIndex_append_singleton firstBlock none pre ⟨units, false⟩
  have htotal : firstBlock + Cell.total (pre ++ [⟨units, false⟩])
      = firstBlock + Cell.total pre + units := by simp [Nat.add_assoc]
  rw [relink, Exec.bind_of_ok (next_of_lt h.header_lt m), h.units_sizeAt, hsplit]
  cases post with
  | nil =>
    simp only [Cell.total_nil] at hfull
    rw [if_neg (by omega)]
    exact ⟨m, Exec.pure_apply () m, headers_append.2 ⟨h.front, trivial⟩, .refl s _ m⟩
  | cons d rest =>
    have hd : headerUnits ≤ d.units := hback.1
    simp only [headerUnits, Cell.total_cons] at hd hfull
    rw [if_pos (by omega)]
    refine ⟨_, setPrev_of_lt (by omega) _ m, ?_, changesOnly_write (by omega) ⟨by simp, rfl⟩ m _⟩
    rw [headers_append, hlast, htotal]
    constructor
    · exact h.front.of_agree fun j _ hj => word_store_of_ne s m _ (by rw [htotal] at hj; omega)
    · refine hback.relink (fun _ => word_store_same s m _ (linkTo_lt ?_)) fun j hj _ =>
        word_store_of_ne s m _ (by omega)
      rintro p ⟨⟩
      omega

theorem Loose.mergeBack_eq (h : s.Loose m pre units post) : ∃ m',
    s.mergeBack (firstBlock + Cell.total pre) units m
        = (.ok (firstBlock + Cell.total (Cell.joinBack pre units).1), m')
      ∧ s.Loose m' (Cell.joinBack pre units).1 (Cell.joinBack pre units).2 post
      ∧ s.ChangesOnly (fun j => j = firstBlock + Cell.total (Cell.joinBack pre units).1 + 1) m m' := by
  have hlt := h.header_lt
  have hword := h.front.last.2.1
  rcases List.eq_nil_or_concat' pre with rfl | ⟨pre, ⟨more, used⟩, rfl⟩
  · have hprev : s.prevAt m (firstBlock + Cell.total []) = none :=
      prevAt_of_link hword (fun _ hp => nomatch hp)
    rw [mergeBack, Exec.bind_of_ok (prev_of_lt (by omega) m), hprev]
    exact ⟨m, rfl, h, .refl s _ m⟩
  · have hfull := h.full
    have hsen := s.sentinel_add
    have htwo := h.front.last.1
    have hmore : headerUnits ≤ more := h.front.long ⟨more, used⟩ (by simp)
    obtain ⟨hfront, -⟩ := headers_append.1 h.front
    simp only [headerUnits, Cell.total_append, Cell.total_cons, Cell.total_nil] at hfull hmore htwo hlt
    rw [Cell.lastIndex_append_singleton] at hword
    have hprev : s.prevAt m (firstBlock + Cell.total (pre ++ [⟨more, used⟩]))
        = some (firstBlock + Cell.total pre) := by
      refine prevAt_of_link hword ?_
      rintro p ⟨⟩
      omega
    rw [mergeBack, Exec.bind_of_ok (prev_of_lt (by simp; omega) m), hprev]
    simp only [Exec.bind_of_ok (size_of_lt (show firstBlock + Cell.total pre + 1 < s.len by omega) m),
      hfront.sizeAt_last]
    have hmax : more ≤ maxBlockUnits := s.units_le_of_le (by omega)
    cases used with
    | true =>
      rw [if_pos (Cell.used_word (c := ⟨more, true⟩) hmax), Cell.joinBack_append_used]
      exact ⟨m, rfl, h, .refl s _ m⟩
    | false =>
      have hsum : more + units ≤ maxBlockUnits := s.units_le_of_le (by omega)
      have hlow : firstBlock + Cell.total pre + 1 < s.len := by omega
      rw [Cell.used_word (c := ⟨more, false⟩) hmax, if_neg Bool.false_ne_true,
        Cell.units_word (c := ⟨more, false⟩) hmax, BlockSize.ofFree_of_le hsum,
        Cell.joinBack_append_free, Exec.bind_of_ok (Exec.check_apply _ m),
        Exec.bind_of_ok (setSize_of_lt hlow _ m)]
      have hfull' : firstBlock + Cell.total pre + (more + units) + Cell.total post = s.sentinel := by
        omega
      refine ⟨_, rfl, loose_of_resize hfront (by simp only [headerUnits]; omega) ?_ hfull',
        changesOnly_write_self hlow m _⟩
      obtain ⟨prev, hback⟩ := h.back
      simp only [Cell.total_append, Cell.total_cons, Cell.total_nil] at hback
      exact ⟨prev, by simpa [Nat.add_assoc] using hback⟩

theorem Loose.mergeNext_eq (h : s.Loose m pre units post) : ∃ m',
    s.mergeNext (firstBlock + Cell.total pre) m = (.ok (), m')
      ∧ s.Loose m' pre (Cell.joinNext units post).1 (Cell.joinNext units post).2
      ∧ s.ChangesOnly (fun j => j = firstBlock + Cell.total pre + 1) m m' := by
  obtain ⟨prev, hback⟩ := h.back
  have hlt := h.header_lt
  have hfull := h.full
  have hsen := s.sentinel_add
  have htwo := h.front.last.1
  simp only [headerUnits] at htwo
  rw [mergeNext, Exec.bind_of_ok (next_of_lt hlt m), h.units_sizeAt]
  rcases post with _ | ⟨⟨more, used⟩, rest⟩
  · simp only [Cell.total_nil] at hfull
    rw [if_neg (by omega)]
    exact ⟨m, Exec.pure_apply () m, h, .refl s _ m⟩
  · obtain ⟨hmore, -, hsize, hrest⟩ := hback
    simp only [headerUnits, Cell.total_cons] at hmore hfull hrest
    have hmax : more ≤ maxBlockUnits := s.units_le_of_le (by omega)
    have hsizeAt : s.sizeAt m (firstBlock + Cell.total pre + units)
        = ⟨(⟨more, used⟩ : Cell).word⟩ := by rw [sizeAt, hsize]
    rw [if_pos (by omega)]
    simp only [Exec.bind_of_ok (size_of_lt
      (show firstBlock + Cell.total pre + units + 1 < s.len by omega) m), hsizeAt]
    cases used with
    | true =>
      rw [if_pos (Cell.used_word (c := ⟨more, true⟩) hmax)]
      exact ⟨m, Exec.pure_apply () m, h, .refl s _ m⟩
    | false =>
      have hjoin : Cell.joinNext units (⟨more, false⟩ :: rest) = (units + more, rest) := rfl
      have hsum : units + more ≤ maxBlockUnits := s.units_le_of_le (by omega)
      rw [Cell.used_word (c := ⟨more, false⟩) hmax, if_neg Bool.false_ne_true,
        Exec.bind_of_ok (size_of_lt hlt m), h.units_sizeAt, hjoin,
        Cell.units_word (c := ⟨more, false⟩) hmax, BlockSize.ofFree_of_le hsum,
        Exec.bind_of_ok (Exec.check_apply _ m)]
      have hfull' : firstBlock + Cell.total pre + (units + more) + Cell.total rest = s.sentinel := by
        omega
      refine ⟨_, setSize_of_lt hlt _ m, loose_of_resize h.front (by simp only [headerUnits]; omega)
        ⟨some (firstBlock + Cell.total pre + units), ?_⟩ hfull', changesOnly_write_self hlt m _⟩
      rwa [← Nat.add_assoc]

/-- The three stores that cut a cell in two leave the space loose at the second part. -/
theorem loose_of_split (hfront : s.Headers m firstBlock none (pre ++ [c]))
    (htwo : headerUnits ≤ units) (hrest : headerUnits ≤ c.units - units)
    (hback : s.Headers m (firstBlock + Cell.total pre + c.units) prev post)
    (hfull : firstBlock + Cell.total pre + c.units + Cell.total post = s.sentinel) :
    s.Loose (((m.write (s.addrOf (firstBlock + Cell.total pre + 1)) (units + usedBit)).write
        (s.addrOf (firstBlock + Cell.total pre + units))
        (s.linkTo (some (firstBlock + Cell.total pre)))).write
        (s.addrOf (firstBlock + Cell.total pre + units + 1)) (c.units - units))
      (pre ++ [⟨units, true⟩]) (c.units - units) post := by
  have hsen := s.sentinel_add
  have hfit : units ≤ s.sentinel := by simp only [headerUnits] at hrest; omega
  have hresized := hfront.resize (d := ⟨units, true⟩) htwo hfit
  have hend : firstBlock + Cell.total (pre ++ [⟨units, true⟩])
      = firstBlock + Cell.total pre + units := by simp [Nat.add_assoc]
  have hwhole : firstBlock + Cell.total pre + units + (c.units - units)
      = firstBlock + Cell.total pre + c.units := by simp only [headerUnits] at hrest; omega
  have hword : c.units - units < wordLimit := by
    have := s.bounded
    simp only [unitSize, wordLimit] at *; omega
  rw [Cell.word_used] at hresized
  simp only [headerUnits] at htwo hrest
  refine ⟨headers_append.2 ⟨?_, headers_singleton.2 ⟨hrest, ?_, ?_⟩⟩, ⟨prev, ?_⟩, ?_⟩
  · refine hresized.of_agree ?_
    intro j _ hj
    rw [hend] at hj
    rw [word_store_of_ne s _ _ (by omega), word_store_of_ne s _ _ (by omega)]
  · rw [hend, Cell.lastIndex_append_singleton, word_store_of_ne s _ _ (by omega)]
    refine word_store_same s _ _ (linkTo_lt ?_)
    rintro p ⟨⟩
    omega
  · rw [hend, Cell.word_free]
    exact word_store_same s _ _ hword
  · rw [hend, hwhole]
    refine hback.of_agree ?_
    intro j hj _
    rw [word_store_of_ne s _ _ (by omega), word_store_of_ne s _ _ (by omega),
      word_store_of_ne s _ _ (by omega)]
  · rw [hend]
    omega

/-! ### The two steps -/

theorem take_eq (hfree : c.used = false) (htwo : headerUnits ≤ units) (hfit : units ≤ c.units)
    (h : s.Headers m firstBlock none (pre ++ c :: post))
    (hfull : firstBlock + Cell.total (pre ++ c :: post) = s.sentinel) : ∃ m',
    s.take (firstBlock + Cell.total pre) units m = (.ok (Cell.granted c.units units), m')
      ∧ s.Headers m' firstBlock none (pre ++ (Cell.carve c.units units ++ post))
      ∧ s.ChangesOnly (Cell.HeaderUnit (pre ++ (Cell.carve c.units units ++ post))) m m' := by
  have hsen := s.sentinel_add
  rw [List.append_cons, headers_append] at h
  obtain ⟨hfront, hback⟩ := h
  rw [Cell.lastIndex_append_singleton] at hback
  simp only [Cell.total_append, Cell.total_cons, Cell.total_nil, Nat.add_zero,
    ← Nat.add_assoc] at hfull hback
  have hcell := hfront.last.1
  have hinside : c.units ≤ s.sentinel := by omega
  have hmax : c.units ≤ maxBlockUnits := s.units_le_of_le hinside
  have hlt : firstBlock + Cell.total pre + 1 < s.len := by simp only [headerUnits] at hcell; omega
  have hfound : (⟨c.word⟩ : BlockSize).used = false ∧ units ≤ (⟨c.word⟩ : BlockSize).units := by
    rw [Cell.used_word hmax, Cell.units_word hmax]
    exact ⟨hfree, hfit⟩
  rw [take, Exec.bind_of_ok (size_of_lt hlt m), hfront.sizeAt_last,
    Exec.require_bind_of_pos hfound, Cell.units_word hmax, Cell.granted, Cell.carve]
  by_cases hrest : c.units - units < headerUnits
  · rw [if_pos hrest, if_pos hrest, if_pos hrest, BlockSize.ofUsed_of_le hmax,
      Exec.bind_of_ok (Exec.check_apply _ m), Exec.bind_of_ok (setSize_of_lt hlt _ m)]
    refine ⟨_, rfl, ?_, changesOnly_write hlt ⟨pre, ⟨c.units, true⟩, post, rfl, .inr rfl⟩ m _⟩
    have hresized := hfront.resize (d := ⟨c.units, true⟩) hcell hinside
    rw [Cell.word_used] at hresized
    rw [← List.append_assoc]
    refine headers_append.2 ⟨hresized, ?_⟩
    rw [Cell.lastIndex_append_singleton]
    simp only [Cell.total_append, Cell.total_cons, Cell.total_nil, Nat.add_zero, ← Nat.add_assoc]
    exact hback.of_agree fun j hj _ =>
      word_store_of_ne s m _ (by simp only [headerUnits] at hcell; omega)
  · rw [if_neg hrest, if_neg hrest, if_neg hrest]
    have hsplit := loose_of_split hfront htwo (by omega) hback (by omega)
    simp only [headerUnits] at hrest htwo
    rw [BlockSize.ofUsed_of_le (by omega), Exec.bind_of_ok (Exec.check_apply _ m),
      Exec.bind_of_ok (setSize_of_lt hlt _ m), Exec.bind_of_ok (setPrev_of_lt (by omega) _ _),
      BlockSize.ofFree_of_le (by omega), Exec.bind_of_ok (Exec.check_apply _ _),
      Exec.bind_of_ok (setSize_of_lt (by omega) _ _)]
    obtain ⟨m', hrun, hheaders, hchange⟩ := hsplit.relink_eq
    have hend : firstBlock + Cell.total (pre ++ [⟨units, true⟩])
        = firstBlock + Cell.total pre + units := by simp [Nat.add_assoc]
    rw [hend] at hrun hchange
    rw [Exec.bind_of_ok hrun]
    rw [List.append_assoc] at hheaders
    refine ⟨m', rfl, hheaders, ?_⟩
    have hhead : Cell.HeaderUnit (pre ++ ([⟨units, true⟩, ⟨c.units - units, false⟩] ++ post))
        (firstBlock + Cell.total pre + 1) := ⟨pre, _, _, rfl, .inr rfl⟩
    have htail : ∀ j, j = firstBlock + Cell.total pre + units
        ∨ j = firstBlock + Cell.total pre + units + 1 → Cell.HeaderUnit
          (pre ++ ([⟨units, true⟩, ⟨c.units - units, false⟩] ++ post)) j := fun j hj =>
      ⟨pre ++ [⟨units, true⟩], ⟨c.units - units, false⟩, post, by simp, by rwa [hend]⟩
    refine (((changesOnly_write hlt hhead m _).trans
      (changesOnly_write (by omega) (htail _ (.inl rfl)) _ _)).trans
      (changesOnly_write (by omega) (htail _ (.inr rfl)) _ _)).trans (hchange.mono ?_)
    rintro j ⟨hpost, rfl⟩
    obtain ⟨d, rest, rfl⟩ := List.exists_cons_of_ne_nil hpost
    refine ⟨pre ++ [⟨units, true⟩, ⟨c.units - units, false⟩], d, rest, by simp, .inl ?_⟩
    simp [Nat.add_assoc]

theorem release_eq (hused : c.used = true) (h : s.Headers m firstBlock none (pre ++ c :: post))
    (hfull : firstBlock + Cell.total (pre ++ c :: post) = s.sentinel) : ∃ start m',
    s.release (firstBlock + Cell.total pre) m = (.ok (c.units, start), m')
      ∧ start + 1 < s.len
      ∧ s.Headers m' firstBlock none (Cell.merge pre c.units post)
      ∧ s.ChangesOnly (Cell.HeaderUnit (pre ++ c :: post)) m m' := by
  have hsen := s.sentinel_add
  rw [List.append_cons, headers_append] at h
  obtain ⟨hfront, hback⟩ := h
  rw [Cell.lastIndex_append_singleton] at hback
  simp only [Cell.total_append, Cell.total_cons, Cell.total_nil, Nat.add_zero,
    ← Nat.add_assoc] at hfull hback
  have hcell := hfront.last.1
  have hmax : c.units ≤ maxBlockUnits := s.units_le_of_le (by omega)
  have hlt : firstBlock + Cell.total pre + 1 < s.len := by simp only [headerUnits] at hcell; omega
  have hfound : (⟨c.word⟩ : BlockSize).used = true := by rw [Cell.used_word hmax, hused]
  have hfreed := loose_of_resize hfront hcell ⟨_, hback⟩ hfull
  obtain ⟨m₁, hrun₁, hloose₁, hchange₁⟩ := hfreed.mergeBack_eq
  obtain ⟨m₂, hrun₂, hloose₂, hchange₂⟩ := hloose₁.mergeNext_eq
  obtain ⟨m₃, hrun₃, hheaders, hchange₃⟩ := hloose₂.relink_eq
  rw [release, Exec.bind_of_ok (size_of_lt hlt m), hfront.sizeAt_last,
    Exec.require_bind_of_pos hfound, Cell.units_word hmax,
    BlockSize.ofFree_of_le hmax, Exec.bind_of_ok (Exec.check_apply _ m),
    Exec.bind_of_ok (setSize_of_lt hlt _ m), Exec.bind_of_ok hrun₁, Exec.bind_of_ok hrun₂,
    Exec.bind_of_ok hrun₃]
  refine ⟨_, m₃, rfl, hloose₂.header_lt, hheaders, ?_⟩
  have hhead : Cell.HeaderUnit (pre ++ c :: post) (firstBlock + Cell.total pre + 1) :=
    ⟨pre, c, post, rfl, .inr rfl⟩
  have hstart := Cell.headerUnit_joinBack pre c post c.units
  refine (((changesOnly_write hlt hhead m _).trans (hchange₁.mono ?_)).trans
    (hchange₂.mono ?_)).trans (hchange₃.mono ?_)
  · rintro j rfl
    exact hstart
  · rintro j rfl
    exact hstart
  · rintro j ⟨hpost, rfl⟩
    exact Cell.headerUnit_joinNext (Cell.total_joinBack pre c.units) hpost

end Space

end PaeKernel
