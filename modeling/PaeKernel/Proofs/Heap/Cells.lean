import Mathlib.Data.List.Chain
import PaeKernel.Heap.Sound

/-!
# Runs of cells

`Space.Chain` follows a space to its end. What `take` and `release` change is local to a few cells,
so the chain is taken apart here: `Space.Headers` says what the words of a run of cells are,
wherever the run lies, and `Space.headers_append` cuts a run in two. `Space.ChangesOnly` bounds what
a change of memory touches, in units of one space.
-/

namespace PaeKernel

namespace Cell

variable {pre post rest cells : List Cell} {c : Cell}

/-- The units of cells. -/
def total : List Cell → Nat
  | [] => 0
  | c :: rest => c.units + total rest

/-- The index of the last of these cells; `prev` if there are none. -/
def lastIndex : (index : Nat) → (prev : Option Nat) → List Cell → Option Nat
  | _, prev, [] => prev
  | index, _, c :: rest => lastIndex (index + c.units) (some index) rest

/-- The indices and the units of the cells in use. -/
def inUse : (index : Nat) → List Cell → List (Nat × Nat)
  | _, [] => []
  | index, c :: rest => (if c.used then [(index, c.units)] else []) ++ inUse (index + c.units) rest

/-- Every cell has room for its own header. -/
def Long (cells : List Cell) : Prop := ∀ c ∈ cells, headerUnits ≤ c.units

theorem word_free (units : Nat) : (⟨units, false⟩ : Cell).word = units := by
  simp [word]

theorem word_used (units : Nat) : (⟨units, true⟩ : Cell).word = units + usedBit := by
  simp [word]

@[simp] theorem total_nil : total [] = 0 := rfl

@[simp] theorem total_cons (c : Cell) (rest : List Cell) : total (c :: rest) = c.units + total rest :=
  rfl

@[simp] theorem total_append (pre post : List Cell) : total (pre ++ post) = total pre + total post := by
  induction pre with
  | nil => simp
  | cons c pre ih => simp [ih, Nat.add_assoc]

theorem total_flatten_cons (cells : List Cell) (more : List (List Cell)) :
    total (cells :: more).flatten = total cells + total more.flatten := by
  rw [List.flatten_cons, total_append]

theorem freeUnits_append (pre post : List Cell) :
    freeUnits (pre ++ post) = freeUnits pre + freeUnits post := by
  induction pre with
  | nil => simp [freeUnits]
  | cons c pre ih => simp [freeUnits, ih, Nat.add_assoc]

theorem usedUnits_append (pre post : List Cell) :
    usedUnits (pre ++ post) = usedUnits pre + usedUnits post := by
  induction pre with
  | nil => simp [usedUnits]
  | cons c pre ih => simp [usedUnits, ih, Nat.add_assoc]

theorem free_add_used (cells : List Cell) : freeUnits cells + usedUnits cells = total cells := by
  induction cells with
  | nil => rfl
  | cons c rest ih =>
    rw [total_cons, ← ih, freeUnits, usedUnits]
    by_cases h : c.used = true <;> simp only [h] <;> simp <;> omega

theorem lastIndex_append_singleton (index : Nat) (prev : Option Nat) (pre : List Cell) (c : Cell) :
    lastIndex index prev (pre ++ [c]) = some (index + total pre) := by
  induction pre generalizing index prev with
  | nil => simp [lastIndex]
  | cons d pre ih => simp [lastIndex, ih, Nat.add_assoc]

theorem inUse_append (index : Nat) (pre post : List Cell) :
    inUse index (pre ++ post) = inUse index pre ++ inUse (index + total pre) post := by
  induction pre generalizing index with
  | nil => simp [inUse]
  | cons c pre ih => simp [inUse, ih, Nat.add_assoc]

theorem apart_iff_isChain :
    Apart cells ↔ cells.IsChain fun a b => a.used = true ∨ b.used = true := by
  induction cells with
  | nil => simp [Apart]
  | cons a rest ih =>
    cases rest with
    | nil => simp [Apart]
    | cons b rest => rw [List.isChain_cons_cons, ← ih]; rfl

/-! ### Where the cells lie -/

/-- The blocks of a run of cells, each with the cells before and after it. -/
theorem mem_layOut {index : Nat} {prev : Option Nat} {b : Block} :
    b ∈ layOut index prev cells ↔ ∃ pre c post, cells = pre ++ c :: post ∧
      b = ⟨index + total pre, c.units, c.used, lastIndex index prev pre⟩ := by
  induction cells generalizing index prev with
  | nil => simp [layOut]
  | cons d rest ih =>
    rw [layOut, List.mem_cons, ih]
    constructor
    · rintro (rfl | ⟨pre, c, post, rfl, rfl⟩)
      · exact ⟨[], d, rest, rfl, rfl⟩
      · exact ⟨d :: pre, c, post, rfl, by simp [lastIndex, Nat.add_assoc]⟩
    · rintro ⟨pre, c, post, h, rfl⟩
      cases pre with
      | nil =>
        obtain ⟨rfl, rfl⟩ := List.cons.inj h
        exact .inl rfl
      | cons e pre =>
        obtain ⟨rfl, rfl⟩ := List.cons.inj h
        exact .inr ⟨pre, c, post, rfl, by simp [lastIndex, Nat.add_assoc]⟩

/-- Two cells of one run are the same cell, or one ends where the other starts or before. -/
theorem split_cases {pre' post' : List Cell} {c' : Cell} (h : pre ++ c :: post = pre' ++ c' :: post') :
    (pre = pre' ∧ c = c' ∧ post = post') ∨ total pre + c.units ≤ total pre'
      ∨ total pre' + c'.units ≤ total pre := by
  rcases List.append_eq_append_iff.1 h with ⟨mid, rfl, hmid⟩ | ⟨mid, rfl, hmid⟩
  · cases mid with
    | nil =>
      obtain ⟨rfl, rfl⟩ := List.cons.inj hmid
      exact .inl ⟨by simp, rfl, rfl⟩
    | cons d mid =>
      obtain ⟨rfl, -⟩ := List.cons.inj hmid
      exact .inr (.inl (by simp only [total_append, total_cons]; omega))
  · cases mid with
    | nil =>
      obtain ⟨rfl, rfl⟩ := List.cons.inj hmid
      exact .inl ⟨by simp, rfl, rfl⟩
    | cons d mid =>
      obtain ⟨rfl, -⟩ := List.cons.inj hmid
      exact .inr (.inr (by simp only [total_append, total_cons]; omega))

/-- The unit is one of the two header units of a cell; the cells start at the first block. -/
def HeaderUnit (cells : List Cell) (j : Nat) : Prop :=
  ∃ pre c post, cells = pre ++ c :: post ∧ (j = firstBlock + total pre ∨ j = firstBlock + total pre + 1)

theorem HeaderUnit.bounds {j : Nat} (hlong : Long cells) (h : HeaderUnit cells j) :
    firstBlock ≤ j ∧ j < firstBlock + total cells := by
  obtain ⟨pre, c, post, rfl, h⟩ := h
  have hc : headerUnits ≤ c.units := hlong c (by simp)
  simp only [headerUnits, total_append, total_cons] at *
  omega

/-- No header lies in the payload of a cell. -/
theorem not_headerUnit_of_payload (hlong : Long (pre ++ c :: post)) {j : Nat}
    (hlow : firstBlock + total pre + headerUnits ≤ j) (hhigh : j < firstBlock + total pre + c.units) :
    ¬ HeaderUnit (pre ++ c :: post) j := by
  rintro ⟨pre', c', post', h, hj⟩
  have hc' : headerUnits ≤ c'.units := hlong c' (by rw [h]; simp)
  simp only [headerUnits] at *
  rcases split_cases h with ⟨rfl, rfl, rfl⟩ | hle | hle <;> omega

end Cell

namespace Space

variable {s t : Space} {m m' : Memory} {index : Nat} {prev : Option Nat} {cells pre post : List Cell}

/-- The word that names a predecessor. -/
def linkTo (s : Space) (prev : Option Nat) : Nat := (prev.map s.addrOf).getD 0

/-- The words from a unit on are the headers of these cells, of which the first comes after
`prev`. -/
def Headers (s : Space) (m : Memory) : (index : Nat) → (prev : Option Nat) → List Cell → Prop
  | _, _, [] => True
  | index, prev, c :: rest =>
    headerUnits ≤ c.units ∧ s.word m index = s.linkTo prev ∧ s.word m (index + 1) = c.word
      ∧ Headers s m (index + c.units) (some index) rest

theorem headers_singleton {c : Cell} : s.Headers m index prev [c] ↔
    headerUnits ≤ c.units ∧ s.word m index = s.linkTo prev ∧ s.word m (index + 1) = c.word := by
  simp [Headers]

theorem headers_append : s.Headers m index prev (pre ++ post) ↔ s.Headers m index prev pre
    ∧ s.Headers m (index + Cell.total pre) (Cell.lastIndex index prev pre) post := by
  induction pre generalizing index prev with
  | nil => simp [Headers, Cell.lastIndex]
  | cons c pre ih => simp [Headers, ih, Cell.lastIndex, Nat.add_assoc, and_assoc]

/-- A chain is the headers of cells that fill the space. -/
theorem chain_iff_headers (prev : Option Nat) : s.Chain m index (s.linkTo prev) cells
    ↔ s.Headers m index prev cells ∧ index + Cell.total cells = s.sentinel := by
  induction cells generalizing index prev with
  | nil => simp [Chain, Headers]
  | cons c rest ih =>
    have hlink : s.addrOf index = s.linkTo (some index) := rfl
    simp only [Chain, Headers, hlink, ih, Cell.total_cons]
    constructor
    · rintro ⟨hlong, -, hword, hsize, hrest, hend⟩
      exact ⟨⟨hlong, hword, hsize, hrest⟩, by omega⟩
    · rintro ⟨⟨hlong, hword, hsize, hrest⟩, hend⟩
      exact ⟨hlong, by omega, hword, hsize, hrest, by omega⟩

theorem Headers.long (h : s.Headers m index prev cells) : Cell.Long cells := by
  induction cells generalizing index prev with
  | nil => exact fun _ hc => nomatch hc
  | cons c rest ih =>
    intro d hd
    rcases List.mem_cons.1 hd with rfl | hd
    · exact h.1
    · exact ih h.2.2.2 d hd

/-- Headers survive in memory that has the same words in them. -/
theorem Headers.transport (h : s.Headers m index prev cells)
    (hw : ∀ b ∈ Cell.layOut index prev cells, s.word m' b.index = s.word m b.index
      ∧ s.word m' (b.index + 1) = s.word m (b.index + 1)) : s.Headers m' index prev cells := by
  induction cells generalizing index prev with
  | nil => trivial
  | cons c rest ih =>
    obtain ⟨hlong, hword, hsize, hrest⟩ := h
    obtain ⟨h0, h1⟩ := hw _ List.mem_cons_self
    exact ⟨hlong, h0.trans hword, h1.trans hsize,
      ih hrest fun b hb => hw b (List.mem_cons_of_mem _ hb)⟩

theorem Headers.of_agree (h : s.Headers m index prev cells)
    (hw : ∀ j, index ≤ j → j < index + Cell.total cells → s.word m' j = s.word m j) :
    s.Headers m' index prev cells := by
  have hlong := h.long
  refine h.transport ?_
  intro b hb
  obtain ⟨pre, c, post, rfl, rfl⟩ := Cell.mem_layOut.1 hb
  have hc : headerUnits ≤ c.units := hlong c (by simp)
  simp only [headerUnits] at hc
  simp only [Cell.total_append, Cell.total_cons] at hw
  exact ⟨hw (index + Cell.total pre) (by omega) (by omega),
    hw (index + Cell.total pre + 1) (by omega) (by omega)⟩

/-- A run keeps its headers under another predecessor once its first word names it. -/
theorem Headers.relink (h : s.Headers m index prev cells) {prev' : Option Nat}
    (hlink : cells ≠ [] → s.word m' index = s.linkTo prev')
    (hw : ∀ j, index < j → j < index + Cell.total cells → s.word m' j = s.word m j) :
    s.Headers m' index prev' cells := by
  cases cells with
  | nil => trivial
  | cons c rest =>
    obtain ⟨hlong, -, hsize, hrest⟩ := h
    simp only [headerUnits] at hlong
    simp only [Cell.total_cons] at hw
    refine ⟨hlong, hlink (by simp), (hw _ (by omega) (by omega)).trans hsize, ?_⟩
    exact hrest.of_agree fun j hl hr => hw j (by omega) (by omega)

/-! ### What a change of memory touches -/

/-- Two memories differ at most in units of the space for which `P` holds. -/
def ChangesOnly (s : Space) (P : Nat → Prop) (m m' : Memory) : Prop :=
  ∀ a, (∀ j, P j → j < s.len → a / 8 ≠ s.addrOf j / 8) → m'.read a = m.read a

theorem ChangesOnly.refl (s : Space) (P : Nat → Prop) (m : Memory) : s.ChangesOnly P m m :=
  fun _ _ => rfl

theorem ChangesOnly.trans {P : Nat → Prop} {m'' : Memory} (h : s.ChangesOnly P m m')
    (h' : s.ChangesOnly P m' m'') : s.ChangesOnly P m m'' :=
  fun a ha => (h' a ha).trans (h a ha)

theorem ChangesOnly.mono {P Q : Nat → Prop} (h : s.ChangesOnly P m m') (hPQ : ∀ j, P j → Q j) :
    s.ChangesOnly Q m m' :=
  fun a ha => h a fun j hj => ha j (hPQ j hj)

theorem changesOnly_write {P : Nat → Prop} {j : Nat} (hj : j < s.len) (hP : P j) (m : Memory)
    (value : Nat) : s.ChangesOnly P m (m.write (s.addrOf j) value) :=
  fun _ ha => m.read_write_of_ne value (Ne.symm (ha j hP hj))

theorem changesOnly_write_self {j : Nat} (hj : j < s.len) (m : Memory) (value : Nat) :
    s.ChangesOnly (fun k => k = j) m (m.write (s.addrOf j) value) :=
  changesOnly_write (P := fun k => k = j) hj rfl m value

theorem ChangesOnly.word_eq {P : Nat → Prop} (h : s.ChangesOnly P m m') {j : Nat} (hj : ¬ P j) :
    s.word m' j = s.word m j := by
  refine h _ ?_
  intro k hk _
  have hne : j ≠ k := fun e => hj (e ▸ hk)
  rw [addrOf_div, addrOf_div]; omega

end Space

end PaeKernel
