import PaeKernel.Proofs.Heap.FirstFit

/-!
# Requests with every sum checked and every store on record

The heap counts units and addresses in numbers without a limit, and a memory does not tell which
stores led to it. `Traced.malloc` is `Arena.malloc` with both put right: each sum, difference and
product of words panics if it is not a word, the walk over the blocks goes step by step, and each
store is put on record as it is made. On heaps of any contents the two do the same
(`Traced.malloc_mirrors`): the bounds that the walk itself checks keep every sum in the range of a
word, and `Space.Checked.Walks` says that its steps come to an end.
-/

namespace PaeKernel

/-- The product of two words, which must be a word. -/
def mulWord (a b : Nat) : Except Panic Nat :=
  if a * b < wordLimit then .ok (a * b) else .error .mulOverflow

theorem mulWord_of_lt {a b : Nat} (h : a * b < wordLimit) : mulWord a b = .ok (a * b) := by
  simp [mulWord, h]

namespace Space

theorem firstBlock_lt (s : Space) : firstBlock < s.len := by
  have hlong := s.long
  simp only [firstBlock, spaceHeaderUnits, minSpaceUnits, headerUnits] at *
  omega

/-! ### Reading -/

namespace Checked

/-- The index of the closing zeros. -/
def sentinel (s : Space) : Except Panic Nat := subWord s.len headerUnits

/-- The address of a unit. -/
def addrOf (s : Space) (index : Nat) : Except Panic Nat := do
  addWord s.base (← mulWord index unitSize)

/-- Reads the size word of a block. -/
def size (s : Space) (index : Nat) : Exec Memory BlockSize := do
  return ⟨← s.load (← Exec.check (addWord index 1))⟩

/-- Finds which block comes after this one. -/
def next (s : Space) (index : Nat) : Exec Memory (Option Nat) := do
  let size ← size s index
  let after ← Exec.check (addWord index size.units)
  let closing ← Exec.check (sentinel s)
  return if after < closing then some after else none

/-- The address of a block's payload. -/
def payload (s : Space) (index : Nat) : Exec Memory Nat := do
  let start ← Exec.check (addWord index headerUnits)
  Exec.require (start < s.len) (.unitOutside start s.len)
  Exec.check (addrOf s start)

/-- One step of the walk over the blocks: the block at a place and the place to go on from, or
nothing if the walk ends there. -/
def step (s : Space) : Option Nat → Exec Memory (Option (Block × Option Nat))
  | none => return none
  | some index => do
    let room ← Exec.check (addWord index headerUnits)
    let closing ← Exec.check (sentinel s)
    if closing < room then return none
    else
      let size ← size s index
      if size.units < headerUnits then return none
      else
        let stop ← Exec.check (addWord index size.units)
        if closing < stop then return none
        else
          let after ← next s index
          let prev ← s.prev index
          return some ({ index, units := size.units, used := size.used, prev }, after)

/-- The steps from a place on come to an end, none of them panics, and these are their blocks. -/
inductive Walks (s : Space) (m : Memory) : Option Nat → List Block → Prop
  | stop {place : Option Nat} (run : step s place m = (.ok none, m)) : Walks s m place []
  | block {place after : Option Nat} {b : Block} {rest : List Block}
      (run : step s place m = (.ok (some (b, after)), m)) (more : Walks s m after rest) :
      Walks s m place (b :: rest)

/-- The first free block of at least so many units, looked for in fewer than `steps` blocks. -/
def search (s : Space) (units : Nat) : (steps : Nat) → Option Nat → Exec Memory (Option Nat)
  | 0, _ => Exec.panic (.gaveUp "too many blocks")
  | steps + 1, place => do
    match ← step s place with
    | none => return none
    | some (b, after) =>
      if b.fits units then return some b.index else search s units steps after

/-- The first free block of at least so many units. -/
def findFree (s : Space) (units : Nat) : Exec Memory (Option Nat) :=
  search s units s.len (some firstBlock)

/-- The first of these spaces with a free block of at least so many units, and its index. -/
def findFreeIn (units : Nat) : List Space → Exec Memory (Option (Space × Nat))
  | [] => return none
  | s :: rest => do
    match ← findFree s units with
    | some index => return some (s, index)
    | none => findFreeIn units rest

variable {s : Space} {m : Memory} {index units steps : Nat} {place : Option Nat}
  {l : List Block}

theorem sentinel_eq (s : Space) : sentinel s = .ok s.sentinel :=
  subWord_of_le ((Nat.le_add_left 2 s.sentinel).trans_eq s.sentinel_add)

theorem addrOf_eq (h : index < s.len) : addrOf s index = .ok (s.addrOf index) := by
  have hb := s.bounded
  simp only [unitSize, wordLimit] at hb
  have hmul : mulWord index unitSize = .ok (index * unitSize) :=
    mulWord_of_lt (by simp only [unitSize, wordLimit]; omega)
  have hsum : addWord s.base (index * unitSize) = .ok (s.base + index * unitSize) :=
    addWord_of_lt (by simp only [unitSize, wordLimit]; omega)
  simp only [addrOf, hmul, bind, Except.bind, hsum, Space.addrOf]

/-- A size word holds so few units that an index in a space and all of them are a word. -/
theorem addWord_index (h : index < s.len) (hunits : units ≤ maxBlockUnits) :
    addWord index units = .ok (index + units) := by
  have hlen := s.len_lt
  refine addWord_of_lt ?_
  simp only [maxBlockUnits, usedBit, wordLimit] at *
  omega

theorem size_eq (h : index < s.len) : size s index = s.size index := by
  funext m
  rw [size, addWord_index h (by decide)]
  rfl

theorem next_eq (h : index < s.len) : next s index = s.next index := by
  funext m
  rw [next, Space.next, size_eq h, Exec.bind_apply, Exec.bind_apply]
  rcases s.size index m with ⟨e | found, m'⟩
  · rfl
  · dsimp only
    rw [addWord_index h found.units_le, sentinel_eq]
    rfl

theorem payload_eq (h : index < s.len) : payload s index = s.payload index := by
  funext m
  rw [payload, Space.payload, addWord_index h (by decide), Exec.bind_of_ok (Exec.check_apply _ m)]
  by_cases hin : index + headerUnits < s.len
  · rw [Exec.require_bind_of_pos hin, Exec.require_bind_of_pos hin, addrOf_eq hin]
    rfl
  · rw [Exec.require_bind_of_neg hin, Exec.require_bind_of_neg hin]

/-! ### The walk -/

/-- Where the walk goes on from after a block that ends at an index. -/
def placeAt (s : Space) (index : Nat) : Option Nat := if index < s.sentinel then some index else none

theorem step_of_fits (hroom : index + headerUnits ≤ s.sentinel)
    (hfits : headerUnits ≤ (s.sizeAt m index).units
      ∧ index + (s.sizeAt m index).units ≤ s.sentinel) :
    step s (some index) m = (.ok (some (s.blockAt m index,
      placeAt s (index + (s.sizeAt m index).units))), m) := by
  have hlt := header_lt_of_room hroom
  have hindex := Nat.lt_of_succ_lt hlt
  rw [step, addWord_index hindex (by decide), sentinel_eq, Exec.bind_of_ok (Exec.check_apply _ m),
    Exec.bind_of_ok (Exec.check_apply _ m), if_neg (Nat.not_lt.2 hroom), size_eq hindex,
    Exec.bind_of_ok (size_of_lt hlt m), if_neg (Nat.not_lt.2 hfits.1),
    addWord_index hindex (BlockSize.units_le _), Exec.bind_of_ok (Exec.check_apply _ m),
    if_neg (Nat.not_lt.2 hfits.2), next_eq hindex, Exec.bind_of_ok (next_of_lt hlt m),
    Exec.bind_of_ok (prev_of_lt hindex m)]
  rfl

/-- The walk ends at a header without room, and at one that does not fit the space. -/
theorem step_of_unfit (hindex : index < s.len)
    (hunfit : index + headerUnits ≤ s.sentinel → ¬ (headerUnits ≤ (s.sizeAt m index).units
      ∧ index + (s.sizeAt m index).units ≤ s.sentinel)) :
    step s (some index) m = (.ok none, m) := by
  rw [step, addWord_index hindex (by decide), sentinel_eq, Exec.bind_of_ok (Exec.check_apply _ m),
    Exec.bind_of_ok (Exec.check_apply _ m)]
  by_cases hroom : index + headerUnits ≤ s.sentinel
  · rw [if_neg (Nat.not_lt.2 hroom), size_eq hindex,
      Exec.bind_of_ok (size_of_lt (header_lt_of_room hroom) m)]
    by_cases htwo : headerUnits ≤ (s.sizeAt m index).units
    · have hpast : s.sentinel < index + (s.sizeAt m index).units :=
        Nat.not_le.1 fun hle => hunfit hroom ⟨htwo, hle⟩
      rw [if_neg (Nat.not_lt.2 htwo), addWord_index hindex (BlockSize.units_le _),
        Exec.bind_of_ok (Exec.check_apply _ m), if_pos hpast]
      rfl
    · rw [if_pos (Nat.not_le.1 htwo)]
      rfl
  · rw [if_pos (Nat.not_le.1 hroom)]
    rfl

/-- The steps from an index on end, whatever the headers hold, and find the blocks of the view. -/
theorem walks_blocksFrom (hindex : index < s.len) :
    Walks s m (some index) (s.blocksFrom m index) := by
  have hsen := s.sentinel_add
  fun_induction blocksFrom s m index with
  | case1 index hroom hfits ih =>
    refine .block (step_of_fits hroom hfits) ?_
    rw [placeAt]
    split
    · exact ih (by omega)
    · -- The block ends at the closing zeros, so its `next` says that none comes after it.
      rw [blocksFrom_of_no_room (by simp only [headerUnits]; omega)]
      exact .stop rfl
  | case2 index hroom hfits => exact .stop (step_of_unfit hindex fun _ => hfits)
  | case3 index hroom => exact .stop (step_of_unfit hindex fun h => absurd h hroom)

theorem length_blocksFrom_le (s : Space) (m : Memory) (index : Nat) :
    (s.blocksFrom m index).length ≤ s.sentinel - index := by
  fun_induction blocksFrom s m index with
  | case1 index hroom hfits ih =>
    simp only [headerUnits, List.length_cons] at *
    omega
  | case2 index hroom hfits => exact Nat.zero_le _
  | case3 index hroom => exact Nat.zero_le _

/-- Enough steps find the first free block with room on the walk. -/
theorem search_of_walks (h : Walks s m place l) (hsteps : l.length < steps) :
    search s units steps place m = (.ok ((l.find? (Block.fits units)).map Block.index), m) := by
  induction h generalizing steps with
  | stop run =>
    obtain ⟨steps, rfl⟩ := Nat.exists_eq_succ_of_ne_zero (Nat.ne_of_gt hsteps)
    rw [search, Exec.bind_of_ok run]
    rfl
  | @block place after b rest run more ih =>
    obtain ⟨steps, rfl⟩ := Nat.exists_eq_succ_of_ne_zero (Nat.ne_of_gt (Nat.zero_lt_of_lt hsteps))
    rw [search, Exec.bind_of_ok run, List.find?_cons]
    dsimp only
    cases b.fits units with
    | true => rfl
    | false => exact ih (Nat.lt_of_succ_lt_succ hsteps)

theorem findFree_eq (s : Space) (units : Nat) :
    findFree s units = Exec.view (s.findFree · units) := by
  funext m
  have hsen := s.sentinel_add
  have hlength : (s.blocks m).length ≤ s.sentinel - firstBlock := length_blocksFrom_le s m _
  exact search_of_walks (walks_blocksFrom s.firstBlock_lt) (by omega)

theorem findFreeIn_eq (units : Nat) (spaces : List Space) : findFreeIn units spaces
    = Exec.view fun m => spaces.findSome? fun s => (s.findFree m units).map (s, ·) := by
  funext m
  induction spaces with
  | nil => rfl
  | cons s rest ih =>
    rw [findFreeIn, findFree_eq, Exec.bind_of_ok (Exec.view_apply _ m), Exec.view_apply,
      List.findSome?_cons]
    cases s.findFree m units with
    | none => exact ih
    | some index => rfl

end Checked

end Space

/-! ### Stores on record -/

/-- A state with the stores made on the way to it, in order. -/
structure Traced (σ : Type) where
  state : σ
  stores : List Memory.Store

namespace Traced

variable {σ α β : Type}

/-- Runs a computation that stores nothing. -/
def quiet (x : Exec σ α) : Exec (Traced σ) α :=
  Exec.zoom Traced.state (fun t s => { t with state := s }) x

/-- Runs a computation on the memory of an arena. -/
def onMemory (x : Exec (Traced Memory) α) : Exec (Traced Arena) α :=
  Exec.zoom (fun t => ⟨t.state.memory, t.stores⟩)
    (fun t u => ⟨{ t.state with memory := u.state }, u.stores⟩) x

/-- Writes a unit of the space and puts the store on record. -/
def store (s : Space) (index value : Nat) : Exec (Traced Memory) Unit := do
  quiet (s.store index value)
  Exec.update fun t => { t with stores := t.stores ++ [⟨s.addrOf index, value⟩] }

/-- Writes the size word of a block. -/
def setSize (s : Space) (index : Nat) (size : BlockSize) : Exec (Traced Memory) Unit := do
  store s (← Exec.check (addWord index 1)) size.raw

/-- Writes which block comes before this one. -/
def setPrev (s : Space) (index before : Nat) : Exec (Traced Memory) Unit := do
  store s index (← Exec.check (Space.Checked.addrOf s before))

/-- Makes the block after this one, if there is one, name this one as its predecessor. -/
def relink (s : Space) (index : Nat) : Exec (Traced Memory) Unit := do
  match ← quiet (Space.Checked.next s index) with
  | none => pure ()
  | some after => setPrev s after index

/-- Marks a free block as used and splits off what it has beyond the request. -/
def take (s : Space) (index units : Nat) : Exec (Traced Memory) Nat := do
  let found ← quiet (Space.Checked.size s index)
  Exec.require (found.used = false ∧ units ≤ found.units) .unfitBlock
  let rest ← Exec.check (subWord found.units units)
  if rest < headerUnits then
    setSize s index (← Exec.check (BlockSize.ofUsed found.units))
    return found.units
  else
    let tail ← Exec.check (addWord index units)
    setSize s index (← Exec.check (BlockSize.ofUsed units))
    setPrev s tail index
    setSize s tail (← Exec.check (BlockSize.ofFree rest))
    relink s tail
    return units

/-- Hands out a payload of at least `size` bytes, or nothing if no free block is large enough. -/
def malloc (size : Nat) : Exec (Traced Arena) (Option Nat) := do
  match unitsFor size with
  | none => return none
  | some units =>
    let spaces ← quiet (Exec.view (·.heap.spaces))
    match ← quiet (Arena.onMemory (Space.Checked.findFreeIn units spaces)) with
    | none =>
      let free ← quiet (Exec.view (·.heap.freeUnits))
      quiet (Arena.record .debug Arena.heapTarget
        s!"heap: malloc({size}) failed, {free} units free")
      return none
    | some (s, index) =>
      let granted ← onMemory (take s index units)
      quiet (Arena.countTaken granted)
      let free ← quiet (Exec.view (·.heap.freeUnits))
      let used ← quiet (Exec.view (·.heap.usedUnits))
      quiet (Arena.record .debug Arena.heapTarget
        s!"heap: malloc({size}) -> {granted} units; Free = {free} Used = {used}")
      return some (← quiet (Arena.onMemory (Space.Checked.payload s index)))

/-! ### The same outcome in the same state -/

/-- From this state on the traced computation ends as the plain one does. -/
def Mirrors (x : Exec (Traced σ) α) (y : Exec σ α) (t : Traced σ) : Prop :=
  (x t).1 = (y t.state).1 ∧ (x t).2.state = (y t.state).2

namespace Mirrors

variable {x : Exec (Traced σ) α} {y : Exec σ α} {f : α → Exec (Traced σ) β} {g : α → Exec σ β}
  {t : Traced σ} {s : Space} {index units : Nat}

theorem pure (a : α) (t : Traced σ) : Mirrors (Pure.pure a) (Pure.pure a) t := ⟨rfl, rfl⟩

theorem quiet (x : Exec σ α) (t : Traced σ) : Mirrors (quiet x) x t := ⟨rfl, rfl⟩

theorem check (r : Except Panic α) (t : Traced σ) : Mirrors (Exec.check r) (Exec.check r) t :=
  ⟨rfl, rfl⟩

theorem bind (hx : Mirrors x y t)
    (hf : ∀ a t', y t.state = (.ok a, t'.state) → Mirrors (f a) (g a) t') :
    Mirrors (x >>= f) (y >>= g) t := by
  obtain ⟨hresult, hstate⟩ := hx
  rw [Mirrors, Exec.bind_apply, Exec.bind_apply]
  rcases hrun : x t with ⟨r, t'⟩
  rw [hrun] at hresult hstate
  have hy : y t.state = (r, t'.state) := Prod.ext hresult.symm hstate.symm
  rw [hy]
  cases r with
  | ok a => exact hf a t' hy
  | error e => exact ⟨rfl, rfl⟩

/-- A check that passes may be made on one side only. -/
theorem checked {r : Except Panic β} {b : β} {f : β → Exec (Traced σ) α} (hr : r = .ok b)
    (h : Mirrors (f b) y t) : Mirrors (Exec.check r >>= f) y t := by
  rw [Mirrors, hr, Exec.bind_of_ok (Exec.check_apply _ t)]
  exact h

theorem require {c : Prop} [Decidable c] {e : Panic} {f : Unit → Exec (Traced σ) β}
    {g : Unit → Exec σ β} (hf : c → ∀ t, Mirrors (f ()) (g ()) t) :
    Mirrors (Exec.require c e >>= f) (Exec.require c e >>= g) t := by
  by_cases h : c
  · rw [Mirrors, Exec.require_bind_of_pos h, Exec.require_bind_of_pos h]
    exact hf h t
  · rw [Mirrors, Exec.require_bind_of_neg h, Exec.require_bind_of_neg h]
    exact ⟨rfl, rfl⟩

theorem onMemory {x : Exec (Traced Memory) α} {y : Exec Memory α} {t : Traced Arena}
    (h : Mirrors x y ⟨t.state.memory, t.stores⟩) :
    Mirrors (onMemory x) (Arena.onMemory y) t :=
  ⟨h.1, congrArg (fun m => { t.state with memory := m }) h.2⟩

end Mirrors

variable {s : Space} {index units : Nat} {t : Traced Memory}

theorem store_mirrors (s : Space) (index value : Nat) (t : Traced Memory) :
    Mirrors (store s index value) (s.store index value) t := by
  rw [Mirrors, store, Exec.bind_apply, quiet, Exec.zoom]
  rcases s.store index value t.state with ⟨e | _, m⟩
  · exact ⟨rfl, rfl⟩
  · exact ⟨rfl, rfl⟩

theorem setSize_mirrors (h : index < s.len) (size : BlockSize) (t : Traced Memory) :
    Mirrors (setSize s index size) (s.setSize index size) t :=
  .checked (Space.Checked.addWord_index h (by decide)) (store_mirrors s _ _ t)

theorem setPrev_mirrors {before : Nat} (h : before < s.len) (index : Nat) (t : Traced Memory) :
    Mirrors (setPrev s index before) (s.setPrev index (some before)) t :=
  .checked (Space.Checked.addrOf_eq h) (store_mirrors s index _ t)

theorem relink_mirrors (h : index < s.len) (t : Traced Memory) :
    Mirrors (relink s index) (s.relink index) t := by
  rw [relink, Space.relink, Space.Checked.next_eq h]
  refine (Mirrors.quiet _ t).bind fun after t _ => ?_
  cases after with
  | none => exact .pure () t
  | some after => exact setPrev_mirrors h after t

theorem take_mirrors (hlt : index + 1 < s.len)
    (hfits : index + (s.sizeAt t.state index).units ≤ s.sentinel) :
    Mirrors (take s index units) (s.take index units) t := by
  have hindex := Nat.lt_of_succ_lt hlt
  have hsen := s.sentinel_add
  rw [take, Space.take, Space.Checked.size_eq hindex]
  refine (Mirrors.quiet _ t).bind fun found t' hfound => ?_
  rw [Space.size_of_lt hlt] at hfound
  obtain rfl : s.sizeAt t.state index = found := by injection hfound with h; injection h
  refine .require fun hunits t => ?_
  refine .checked (subWord_of_le hunits.2) ?_
  split
  · refine (Mirrors.check _ t).bind fun size t _ => ?_
    exact (setSize_mirrors hindex size t).bind fun _ t _ => .pure _ t
  · rename_i hrest
    simp only [headerUnits] at hrest
    have htail : index + units < s.len := by omega
    refine .checked (Space.Checked.addWord_index hindex (hunits.2.trans (BlockSize.units_le _))) ?_
    refine (Mirrors.check _ t).bind fun own t _ => ?_
    refine (setSize_mirrors hindex own t).bind fun _ t _ => ?_
    refine (setPrev_mirrors hindex _ t).bind fun _ t _ => ?_
    refine (Mirrors.check _ t).bind fun left t _ => ?_
    refine (setSize_mirrors htail left t).bind fun _ t _ => ?_
    exact (relink_mirrors htail t).bind fun _ t _ => .pure _ t

theorem findFreeIn_apply (units : Nat) (t : Traced Arena) :
    quiet (Arena.onMemory (Space.Checked.findFreeIn units t.state.heap.spaces)) t
      = (.ok (t.state.findFree units), t) := by
  rw [Space.Checked.findFreeIn_eq]
  rfl

/-- On a heap of any contents a request does the same with every sum checked. -/
theorem malloc_mirrors (size : Nat) (t : Traced Arena) :
    Mirrors (malloc size) (Arena.malloc size) t := by
  rw [malloc, Arena.malloc]
  cases unitsFor size with
  | none => exact .pure none t
  | some units =>
    have hspaces : quiet (Exec.view (·.heap.spaces)) t = (.ok t.state.heap.spaces, t) := rfl
    dsimp only
    rw [Mirrors, Exec.bind_of_ok hspaces, Exec.bind_of_ok (findFreeIn_apply units t),
      Exec.bind_of_ok (Exec.view_apply _ _)]
    cases hfind : t.state.findFree units with
    | none =>
      refine (Mirrors.quiet _ t).bind fun free t _ => ?_
      exact (Mirrors.quiet _ t).bind fun _ t _ => .pure none t
    | some found =>
      obtain ⟨s, index⟩ := found
      obtain ⟨b, -, hb, rfl, -, -⟩ := Arena.exists_block_of_findFree hfind
      obtain ⟨-, htwo, hstop⟩ := Space.bounds_of_mem_blocksFrom hb
      have hlt : b.index + 1 < s.len :=
        Space.header_lt_of_room ((Nat.add_le_add_left htwo _).trans hstop)
      have hindex := Nat.lt_of_succ_lt hlt
      rw [Space.eq_blockAt_of_mem hb] at hstop
      refine (Mirrors.onMemory (take_mirrors hlt hstop)).bind fun granted t _ => ?_
      refine (Mirrors.quiet _ t).bind fun _ t _ => ?_
      refine (Mirrors.quiet _ t).bind fun free t _ => ?_
      refine (Mirrors.quiet _ t).bind fun used t _ => ?_
      refine (Mirrors.quiet _ t).bind fun _ t _ => ?_
      rw [Space.Checked.payload_eq hindex]
      exact (Mirrors.quiet _ t).bind fun pointer t _ => .pure (some pointer) t

end Traced

end PaeKernel
