import PaeKernel.Proofs.Heap.Checked

/-!
# Requests on a heap with damaged headers

Nothing is assumed here about the words of the spaces, so headers may hold anything, as after a
client wrote past its payload. A block that the walk finds still lies in the block area, so a
request stores headers there and nowhere else (`Traced.take_of_free`), and what it hands out lies
there too. `Arena.malloc_contained` says so for whole requests; the one panic left is that of the
free counter, which a damaged heap may have left smaller than a block it still calls free.
-/

namespace PaeKernel

namespace Space

variable {s : Space} {m : Memory} {b : Block} {index units size : Nat}

/-- Blocks that lie one after another without gaps from an index on. -/
def Adjoin : (index : Nat) → List Block → Prop
  | _, [] => True
  | index, b :: rest => b.index = index ∧ Adjoin b.stop rest

/-- The address of a unit behind the header of the space and before its closing zeros. -/
def InArea (s : Space) (address : Nat) : Prop :=
  ∃ index, firstBlock ≤ index ∧ index < s.sentinel ∧ address = s.addrOf index

/-- So many units of a free block of the walk lie in the block area, and their payload holds `size`
bytes. -/
structure Grants (s : Space) (m : Memory) (size : Nat) (b : Block) (granted : Nat) : Prop where
  block : b ∈ s.blocks m
  free : b.used = false
  within : granted ≤ b.units
  low : firstBlock ≤ b.index
  high : b.index + granted ≤ s.sentinel
  payload : headerUnits < granted
  room : size ≤ (granted - headerUnits) * unitSize

/-- The stores that cut a block in two: the size word of the part in use and the header of the
part left over. -/
def cutStores (s : Space) (b : Block) (units : Nat) : List Memory.Store :=
  [⟨s.addrOf (b.index + 1), units + usedBit⟩, ⟨s.addrOf (b.index + units), s.addrOf b.index⟩,
    ⟨s.addrOf (b.index + units + 1), b.units - units⟩]

/-- The stores with which a free block is taken. The last one, if there is one, is the link of the
block behind. -/
def takeStores (s : Space) (b : Block) (units : Nat) : List Memory.Store :=
  if b.units - units < headerUnits then [⟨s.addrOf (b.index + 1), b.units + usedBit⟩]
  else s.cutStores b units
    ++ if b.stop < s.sentinel then [⟨s.addrOf b.stop, s.addrOf (b.index + units)⟩] else []

theorem adjoin_blocksFrom (s : Space) (m : Memory) (index : Nat) :
    Adjoin index (s.blocksFrom m index) := by
  fun_induction blocksFrom s m index with
  | case1 index hroom hfits ih => exact ⟨rfl, ih⟩
  | case2 index hroom hfits => trivial
  | case3 index hroom => trivial

/-- Blocks are found in strictly increasing order. -/
theorem pairwise_index (s : Space) (m : Memory) :
    (s.blocks m).Pairwise fun b c => b.index < c.index := by
  refine (s.pairwise_blocks m).imp_of_mem fun {b c} hb _ hle => ?_
  obtain ⟨-, hheader, -⟩ := bounds_of_mem_blocksFrom hb
  simp only [headerUnits, Block.stop] at *
  omega

/-- The part left over has the units that the other part leaves. -/
theorem sizeAt_cutStores (h : b.units ≤ maxBlockUnits) (m : Memory) :
    (s.sizeAt (m.apply (s.cutStores b units)) (b.index + units)).units = b.units - units := by
  have hleft : b.units - units ≤ maxBlockUnits := (Nat.sub_le _ _).trans h
  have hword : b.units - units < wordLimit := by
    simp only [maxBlockUnits, usedBit, wordLimit] at *
    omega
  rw [sizeAt, cutStores, Memory.apply_cons, Memory.apply_cons, Memory.apply_cons,
    Memory.apply_nil, word_store_same s _ _ hword, BlockSize.units_free hleft]

theorem inArea_takeStores (hb : b ∈ s.blocks m) (htwo : headerUnits ≤ units)
    (hfit : units ≤ b.units) : ∀ w ∈ s.takeStores b units, s.InArea w.address := by
  obtain ⟨hlow, hheader, hstop⟩ := bounds_of_mem_blocksFrom hb
  simp only [headerUnits, Block.stop] at *
  have harea : ∀ i, b.index < i → i < s.sentinel → s.InArea (s.addrOf i) :=
    fun i hbelow habove => ⟨i, hlow.trans (Nat.le_of_lt hbelow), habove, rfl⟩
  intro w hw
  rw [takeStores] at hw
  split at hw
  · obtain rfl := List.mem_singleton.1 hw
    exact harea _ (by omega) (by omega)
  · rename_i hrest
    simp only [headerUnits] at hrest
    rcases List.mem_append.1 hw with hw | hw
    · simp only [cutStores, List.mem_cons, List.not_mem_nil, or_false] at hw
      obtain rfl | rfl | rfl := hw
      · exact harea _ (by omega) (by omega)
      · exact harea _ (by omega) (by omega)
      · exact harea _ (by omega) (by omega)
    · split at hw
      · obtain rfl := List.mem_singleton.1 hw
        exact harea _ (by simp only [Block.stop]; omega) (by assumption)
      · cases hw

theorem grants_of_free (hb : b ∈ s.blocks m) (hfree : b.used = false)
    (hunits : unitsFor size = some units) (hfit : units ≤ b.units) :
    s.Grants m size b (Cell.granted b.units units) := by
  obtain ⟨hlow, -, hstop⟩ := bounds_of_mem_blocksFrom hb
  obtain ⟨rfl, -⟩ := unitsFor_eq_some_iff.1 hunits
  obtain ⟨hpayload, hroom⟩ := (isLeast_units size).1
  have hle := Cell.le_granted hfit
  have hwithin := Cell.granted_le hfit
  refine ⟨hb, hfree, hwithin, hlow, (Nat.add_le_add_left hwithin _).trans hstop,
    hpayload.trans hle, hroom.trans ?_⟩
  exact Nat.mul_le_mul_right _ (Nat.sub_le_sub_right hle _)

end Space

/-! ### The stores of a request -/

namespace Traced

variable {s : Space} {b : Block} {index units before : Nat} {t : Traced Memory}

theorem quiet_eq {σ α : Type} {x : Exec σ α} {t : Traced σ} {r : Except Panic α} {state : σ}
    (h : x t.state = (r, state)) : quiet x t = (r, { t with state }) := by
  rw [quiet, Exec.zoom, h]

/-- The state and the record after more stores. -/
def put (t : Traced Memory) (stores : List Memory.Store) : Traced Memory :=
  ⟨t.state.apply stores, t.stores ++ stores⟩

theorem put_put (t : Traced Memory) (first second : List Memory.Store) :
    (t.put first).put second = t.put (first ++ second) := by
  simp [put, Memory.apply_append]

theorem store_of_lt (h : index < s.len) (value : Nat) (t : Traced Memory) :
    store s index value t = (.ok (), t.put [⟨s.addrOf index, value⟩]) := by
  rw [store, Exec.bind_of_ok (quiet_eq (Space.store_of_lt h value t.state))]
  rfl

theorem setSize_of_lt (h : index + 1 < s.len) (size : BlockSize) (t : Traced Memory) :
    setSize s index size t = (.ok (), t.put [⟨s.addrOf (index + 1), size.raw⟩]) := by
  rw [setSize, Space.Checked.addWord_index (Nat.lt_of_succ_lt h) (by decide),
    Exec.bind_of_ok (Exec.check_apply _ t), store_of_lt h]

theorem setPrev_of_lt (h : index < s.len) (hbefore : before < s.len) (t : Traced Memory) :
    setPrev s index before t = (.ok (), t.put [⟨s.addrOf index, s.addrOf before⟩]) := by
  rw [setPrev, Space.Checked.addrOf_eq hbefore, Exec.bind_of_ok (Exec.check_apply _ t),
    store_of_lt h]

theorem size_of_lt (h : index + 1 < s.len) (t : Traced Memory) :
    quiet (Space.Checked.size s index) t = (.ok (s.sizeAt t.state index), t) := by
  rw [Space.Checked.size_eq (Nat.lt_of_succ_lt h), quiet_eq (Space.size_of_lt h t.state)]

theorem relink_of_lt (h : index + 1 < s.len) (hunits : (s.sizeAt t.state index).units = units) :
    relink s index t = (.ok (), t.put (if index + units < s.sentinel then
      [⟨s.addrOf (index + units), s.addrOf index⟩] else [])) := by
  have hindex := Nat.lt_of_succ_lt h
  have hsen := s.sentinel_add
  have hnext : quiet (Space.Checked.next s index) t
      = (.ok (if index + units < s.sentinel then some (index + units) else none), t) := by
    rw [Space.Checked.next_eq hindex, quiet_eq (Space.next_of_lt h t.state), hunits]
  rw [relink, Exec.bind_of_ok hnext]
  split
  · exact setPrev_of_lt (by omega) hindex t
  · rw [put, List.append_nil]
    rfl

/-- Taking a free block of the walk succeeds and makes these stores. -/
theorem take_of_free (hb : b ∈ s.blocks t.state) (hfree : b.used = false)
    (hfit : units ≤ b.units) : take s b.index units t
      = (.ok (Cell.granted b.units units), t.put (s.takeStores b units)) := by
  obtain ⟨-, hheader, hstop⟩ := Space.bounds_of_mem_blocksFrom hb
  have hsen := s.sentinel_add
  have hblock := Space.eq_blockAt_of_mem hb
  have hsize : (s.sizeAt t.state b.index).units = b.units := (congrArg Block.units hblock).symm
  have hused : (s.sizeAt t.state b.index).used = b.used := (congrArg Block.used hblock).symm
  simp only [headerUnits, Block.stop] at hheader hstop
  have hlt : b.index + 1 < s.len := by omega
  have hmax : b.units ≤ maxBlockUnits :=
    Space.units_le_of_le ((Nat.le_add_left _ _).trans hstop)
  rw [take, Exec.bind_of_ok (size_of_lt hlt t), hsize, hused,
    Exec.require_bind_of_pos ⟨hfree, hfit⟩, subWord_of_le hfit,
    Exec.bind_of_ok (Exec.check_apply _ t), Cell.granted, Space.takeStores]
  by_cases hrest : b.units - units < headerUnits
  · rw [if_pos hrest, if_pos hrest, if_pos hrest, BlockSize.ofUsed_of_le hmax,
      Exec.bind_of_ok (Exec.check_apply _ t), Exec.bind_of_ok (setSize_of_lt hlt _ t)]
    rfl
  · rw [if_neg hrest, if_neg hrest, if_neg hrest]
    simp only [headerUnits] at hrest
    have hindex := Nat.lt_of_succ_lt hlt
    have hpart : units ≤ maxBlockUnits := hfit.trans hmax
    have hleft : b.units - units ≤ maxBlockUnits := (Nat.sub_le _ _).trans hmax
    have htail : b.index + units + 1 < s.len := by omega
    rw [Space.Checked.addWord_index hindex hpart, Exec.bind_of_ok (Exec.check_apply _ t),
      BlockSize.ofUsed_of_le hpart, Exec.bind_of_ok (Exec.check_apply _ t),
      Exec.bind_of_ok (setSize_of_lt hlt _ t),
      Exec.bind_of_ok (setPrev_of_lt (Nat.lt_of_succ_lt htail) hindex _),
      BlockSize.ofFree_of_le hleft, Exec.bind_of_ok (Exec.check_apply _ _),
      Exec.bind_of_ok (setSize_of_lt htail _ _), put_put, put_put]
    -- The size word just stored tells `relink` that the part left over ends where the block did.
    have hunits : (s.sizeAt (t.put (s.cutStores b units)).state (b.index + units)).units
        = b.units - units := Space.sizeAt_cutStores hmax t.state
    show (relink s (b.index + units) >>= fun _ => pure units) (t.put (s.cutStores b units)) = _
    rw [Exec.bind_of_ok (relink_of_lt htail hunits), put_put]
    have hend : b.index + units + (b.units - units) = b.stop := by
      simp only [Block.stop]; omega
    rw [hend]
    rfl

end Traced

/-! ### Requests -/

namespace Arena

variable {a : Arena} {s : Space} {b : Block} {size units granted : Nat}

/-- How a request for `size` bytes can end on a heap of any contents, with the stores it makes. It
is refused if no free block has room; else a part of a free block is handed out, or the free
counter turns out to be smaller than that part. -/
inductive Contained (a : Arena) (size : Nat) :
    Except Panic (Option Nat) → Arena → List Memory.Store → Prop
  | refused (full : ∀ units, unitsFor size = some units → a.findFree units = none)
      (log : List Record) : Contained a size (.ok none) { a with log } []
  | served {s : Space} {b : Block} {granted : Nat} {stores : List Memory.Store}
      (space : s ∈ a.heap.spaces) (grants : s.Grants a.memory size b granted)
      (inside : ∀ w ∈ stores, s.InArea w.address) (count : granted ≤ a.heap.freeUnits)
      (log : List Record) :
      Contained a size (.ok (some (s.addrOf (b.index + headerUnits))))
        ⟨a.heap.recount (a.heap.freeUnits - granted) (a.heap.usedUnits + granted),
          a.memory.apply stores, log⟩ stores
  | short {s : Space} {b : Block} {granted : Nat} {stores : List Memory.Store}
      (space : s ∈ a.heap.spaces) (grants : s.Grants a.memory size b granted)
      (inside : ∀ w ∈ stores, s.InArea w.address) (count : a.heap.freeUnits < granted) :
      Contained a size (.error .subOverflow) { a with memory := a.memory.apply stores } stores

theorem countTaken_of_lt (h : a.heap.freeUnits < granted) :
    countTaken granted a = (.error .subOverflow, a) := by
  simp [countTaken, Exec.bind_apply, subWord, Nat.not_le.2 h]

/-- The search leaves the arena as it is. -/
theorem traced_findFree (a : Arena) (units : Nat) {α : Type}
    (f : Option (Space × Nat) → Exec (Traced Arena) α) :
    (Traced.quiet (Exec.view (·.heap.spaces)) >>= fun spaces =>
        Traced.quiet (onMemory (Space.Checked.findFreeIn units spaces)) >>= f) ⟨a, []⟩
      = f (a.findFree units) ⟨a, []⟩ := by
  have hspaces : Traced.quiet (Exec.view (·.heap.spaces)) (⟨a, []⟩ : Traced Arena)
      = (.ok a.heap.spaces, ⟨a, []⟩) := rfl
  rw [Exec.bind_of_ok hspaces, Exec.bind_of_ok (Traced.findFreeIn_apply units ⟨a, []⟩)]

theorem traced_refused (hfull : ∀ units, unitsFor size = some units → a.findFree units = none) :
    ∃ log, Traced.malloc size ⟨a, []⟩ = (.ok none, ⟨{ a with log }, []⟩) := by
  rw [Traced.malloc]
  cases hunits : unitsFor size with
  | none => exact ⟨a.log, rfl⟩
  | some units =>
    dsimp only
    rw [traced_findFree, hfull units hunits]
    exact ⟨_, rfl⟩

theorem traced_found (hunits : unitsFor size = some units)
    (hfind : a.findFree units = some (s, b.index)) (hs : s ∈ a.heap.spaces)
    (hb : b ∈ s.blocks a.memory) (hfree : b.used = false) (hfit : units ≤ b.units)
    (hcounters : a.heap.freeUnits + a.heap.usedUnits < wordLimit) :
    ∃ r a', Traced.malloc size ⟨a, []⟩ = (r, ⟨a', s.takeStores b units⟩)
      ∧ Contained a size r a' (s.takeStores b units) := by
  have hgrants := Space.grants_of_free hb hfree hunits hfit
  have htwo : headerUnits ≤ units := by
    rw [(unitsFor_eq_some_iff.1 hunits).1]
    exact Nat.le_add_left _ _
  have hinside := Space.inArea_takeStores hb htwo hfit
  have htake : Traced.onMemory (Traced.take s b.index units) ⟨a, []⟩
      = (.ok (Cell.granted b.units units),
        ⟨{ a with memory := a.memory.apply (s.takeStores b units) }, s.takeStores b units⟩) := by
    rw [Traced.onMemory, Exec.zoom, Traced.take_of_free hb hfree hfit]
    rfl
  rw [Traced.malloc, hunits]
  dsimp only
  rw [traced_findFree, hfind]
  dsimp only
  rw [Exec.bind_of_ok htake]
  by_cases hcount : Cell.granted b.units units ≤ a.heap.freeUnits
  · have hsen := s.sentinel_add
    have hhigh := hgrants.high
    have hpayload := hgrants.payload
    have hstart : b.index + headerUnits < s.len := by omega
    have hused : a.heap.usedUnits + Cell.granted b.units units < wordLimit := by omega
    rw [Exec.bind_of_ok (Traced.quiet_eq (countTaken_of_le hcount hused)),
      Exec.bind_of_ok (Traced.quiet_eq (Exec.view_apply _ _)),
      Exec.bind_of_ok (Traced.quiet_eq (Exec.view_apply _ _)),
      Exec.bind_of_ok (Traced.quiet_eq (record_apply _ _ _ _)),
      Space.Checked.payload_eq (by omega),
      Exec.bind_of_ok (Traced.quiet_eq (onMemory_of_ok (Space.payload_of_lt hstart _)))]
    exact ⟨_, _, rfl, .served hs hgrants hinside hcount _⟩
  · have hshort := Nat.not_le.1 hcount
    rw [Exec.bind_of_error (Traced.quiet_eq (countTaken_of_lt hshort))]
    exact ⟨_, _, rfl, .short hs hgrants hinside hshort⟩

/-- With any words in its spaces and any counters whose sum is a word, a heap keeps a request in
bounds. The walk of each space ends without a panic; its blocks adjoin each other from the first
block on, in the order of their addresses, and lie before the closing zeros. With every sum checked
the request does the same: it is refused, or it stores words and hands out units of one block area
only, or the subtraction from the free counter panics after such stores. -/
theorem malloc_contained (a : Arena) (size : Nat)
    (hcounters : a.heap.freeUnits + a.heap.usedUnits < wordLimit) :
    (∀ s ∈ a.heap.spaces,
      Space.Checked.Walks s a.memory (some firstBlock) (s.blocks a.memory)
        ∧ Space.Adjoin firstBlock (s.blocks a.memory)
        ∧ (s.blocks a.memory).Pairwise (fun b c => b.index < c.index)
        ∧ ∀ b ∈ s.blocks a.memory,
          firstBlock ≤ b.index ∧ headerUnits ≤ b.units ∧ b.stop ≤ s.sentinel)
    ∧ ∃ r a' stores, Traced.malloc size ⟨a, []⟩ = (r, ⟨a', stores⟩)
      ∧ malloc size a = (r, a') ∧ Contained a size r a' stores := by
  constructor
  · intro s _
    exact ⟨Space.Checked.walks_blocksFrom s.firstBlock_lt, s.adjoin_blocksFrom a.memory firstBlock,
      s.pairwise_index a.memory, fun b hb => Space.bounds_of_mem_blocksFrom hb⟩
  · have hcontained : ∃ r a' stores, Traced.malloc size ⟨a, []⟩ = (r, ⟨a', stores⟩)
        ∧ Contained a size r a' stores := by
      by_cases hfull : ∀ units, unitsFor size = some units → a.findFree units = none
      · obtain ⟨log, hrun⟩ := traced_refused hfull
        exact ⟨_, _, _, hrun, .refused hfull log⟩
      · obtain ⟨units, hmissed⟩ := Classical.not_forall.1 hfull
        obtain ⟨hunits, hfound⟩ := Classical.not_imp.1 hmissed
        obtain ⟨⟨s, index⟩, hfind⟩ := Option.ne_none_iff_exists'.1 hfound
        obtain ⟨b, hs, hb, rfl, hfree, hfit⟩ := exists_block_of_findFree hfind
        obtain ⟨r, a', hrun, hcontained⟩ := traced_found hunits hfind hs hb hfree hfit hcounters
        exact ⟨r, a', _, hrun, hcontained⟩
    obtain ⟨r, a', stores, hrun, hcontained⟩ := hcontained
    obtain ⟨hresult, hstate⟩ := Traced.malloc_mirrors size ⟨a, []⟩
    rw [hrun] at hresult hstate
    exact ⟨r, a', stores, hrun, Prod.ext hresult.symm hstate.symm, hcontained⟩

/-- The heap of two small spaces after a client wrote over the headers: the walk of the first space
stops at garbage, that of the second one unit before the closing zeros. -/
def damaged (freeUnits : Nat) : Arena :=
  { sample with
    heap := sample.heap.recount freeUnits sample.heap.usedUnits
    memory := sample.memory.apply [⟨0x1018, usedBit + 5⟩, ⟨0x2010, 0x1018⟩, ⟨0x2018, 4⟩] }

/-- A damaged heap serves a request in the second space, or panics if its free counter is too
small. -/
theorem malloc_contained_sample :
    ((damaged 17).heap.spaces.map fun s => s.blocks (damaged 17).memory)
        = [[⟨2, 5, true, none⟩], [⟨2, 4, false, none⟩]]
    ∧ (∃ a' stores, malloc 8 (damaged 17) = (.ok (some 0x2020), a')
      ∧ Contained (damaged 17) 8 (.ok (some 0x2020)) a' stores)
    ∧ ∃ a' stores, malloc 8 (damaged 3) = (.error .subOverflow, a')
      ∧ Contained (damaged 3) 8 (.error .subOverflow) a' stores := by
  refine ⟨by decide +kernel, ?_, ?_⟩
  · obtain ⟨-, r, a', stores, -, hrun, hcontained⟩ :=
      malloc_contained (damaged 17) 8 (by decide +kernel)
    have hresult : (malloc 8 (damaged 17)).1 = .ok (some 0x2020) := by decide +kernel
    rw [hrun] at hresult
    obtain rfl : r = _ := hresult
    exact ⟨a', stores, hrun, hcontained⟩
  · obtain ⟨-, r, a', stores, -, hrun, hcontained⟩ :=
      malloc_contained (damaged 3) 8 (by decide +kernel)
    have hresult : (malloc 8 (damaged 3)).1 = .error .subOverflow := by decide +kernel
    rw [hrun] at hresult
    obtain rfl : r = _ := hresult
    exact ⟨a', stores, hrun, hcontained⟩

end Arena

end PaeKernel
