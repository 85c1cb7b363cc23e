import Mathlib.Data.Finset.Card
import PaeKernel.Proofs.Paging.Refinement

/-!
# The levels that pages need

A page needs a directory and a table above it, and pages next to each other share them. `vacant`
counts the places that are still to be filled, each once, and `vacant_append` says that what was
filled for some pages is no longer to be filled for others. From this come the frames that faults
on a list of pages take (`TableTree.framesFor`) and the pages they map (`PageMap.unmapped`).
-/

namespace PaeKernel

/-- How many of these places hold nothing; a place listed twice counts once. -/
def vacant {α : Type} [DecidableEq α] (held : α → Option PhysicalAddress) (places : List α) : Nat :=
  (places.toFinset.filter fun x => held x = none).card

section Vacant

variable {α : Type} [DecidableEq α] {held held' : α → Option PhysicalAddress} {first second : List α}

theorem vacant_singleton (held : α → Option PhysicalAddress) (x : α) :
    vacant held [x] = if held x = none then 1 else 0 := by
  rw [vacant, List.toFinset_cons, List.toFinset_nil, Finset.filter_insert, Finset.filter_empty]
  split <;> rfl

/-- What the first places were given is no longer to be given to the second ones. -/
theorem vacant_append (h : ∀ x, held' x = none ↔ held x = none ∧ x ∉ first) (second : List α) :
    vacant held (first ++ second) = vacant held first + vacant held' second := by
  have hsplit : (first ++ second).toFinset.filter (fun x => held x = none)
      = first.toFinset.filter (fun x => held x = none)
        ∪ second.toFinset.filter (fun x => held' x = none) := by
    ext x
    simp only [Finset.mem_filter, Finset.mem_union, List.mem_toFinset, List.mem_append, h]
    by_cases hx : x ∈ first <;> simp [hx]
  rw [vacant, hsplit, Finset.card_union_of_disjoint]
  · rfl
  · refine Finset.disjoint_left.2 ?_
    intro x hfirst hsecond
    simp only [Finset.mem_filter, List.mem_toFinset, h] at hfirst hsecond
    exact hsecond.2.2 hfirst.1

theorem update_eq_none_iff (held : α → Option PhysicalAddress) (k : α) (f : PhysicalAddress) (x : α) :
    Function.update held k (some f) x = none ↔ held x = none ∧ x ∉ [k] := by
  rw [List.mem_singleton]
  by_cases hx : x = k
  · simp [hx]
  · simp [hx]

omit [DecidableEq α] in
theorem eq_none_iff_of_held {k : α} (h : held k ≠ none) (x : α) :
    held x = none ↔ held x = none ∧ x ∉ [k] := by
  rw [List.mem_singleton]
  refine ⟨fun hnone => ⟨hnone, ?_⟩, And.left⟩
  rintro rfl
  exact h hnone

theorem vacant_perm (held : α → Option PhysicalAddress) (h : first.Perm second) :
    vacant held first = vacant held second := by
  rw [vacant, List.toFinset_eq_of_perm first second h, vacant]

theorem vacant_le_append (held : α → Option PhysicalAddress) (first second : List α) :
    vacant held first ≤ vacant held (first ++ second) := by
  refine Finset.card_le_card (Finset.filter_subset_filter _ ?_)
  intro x hx
  rw [List.toFinset_append]
  exact Finset.mem_union_left _ hx

end Vacant

namespace PageMap

variable {map : PageMap} {served : VirtualAddress → PhysicalAddress} {pages first : List VirtualAddress}

/-- The map in which pages that had no frame have the one that the backing has for them. -/
def filled (map : PageMap) (served : VirtualAddress → PhysicalAddress) (pages : List VirtualAddress) :
    PageMap :=
  fun page => (map page).or (if page ∈ pages then some (served page) else none)

theorem filled_eq_none_iff (page : VirtualAddress) :
    map.filled served pages page = none ↔ map page = none ∧ page ∉ pages := by
  simp [filled]

theorem filled_nil : map.filled served [] = map := by
  funext page
  simp [filled]

theorem filled_append (first second : List VirtualAddress) :
    map.filled served (first ++ second) = (map.filled served first).filled served second := by
  funext page
  simp only [filled, List.mem_append, Option.or_assoc]
  by_cases hfirst : page ∈ first <;> simp [hfirst]

theorem filled_perm (h : first.Perm pages) : map.filled served first = map.filled served pages := by
  funext page
  simp only [filled, h.mem_iff]

/-- How many of the pages have no frame; a page listed twice counts once. -/
def unmapped (map : PageMap) (pages : List VirtualAddress) : Nat :=
  vacant (fun page => map page) pages

theorem unmapped_singleton (map : PageMap) (page : VirtualAddress) :
    map.unmapped [page] = if map page = none then 1 else 0 :=
  vacant_singleton _ page

theorem unmapped_append (map : PageMap) (served : VirtualAddress → PhysicalAddress)
    (first second : List VirtualAddress) :
    map.unmapped (first ++ second)
      = map.unmapped first + (map.filled served first).unmapped second :=
  vacant_append filled_eq_none_iff second

/-- A fault that succeeds fills its page. -/
theorem Accepts.after_eq_filled {page : VirtualAddress} {r : Resolution}
    (h : map.Accepts page (.ok r))
    (hr : (∃ rootChanged, r = .mapped page (served page) rootChanged) ∨ r = .alreadyMapped page) :
    map.after (.ok r) = map.filled served [page] := by
  funext p
  simp only [filled, List.mem_singleton]
  rcases hr with ⟨rootChanged, rfl⟩ | rfl
  · obtain ⟨-, hnone, -⟩ := h
    by_cases hp : p = page
    · simp [after, insert, hp, hnone]
    · simp [after, insert, hp]
  · obtain ⟨-, hsome⟩ := h
    by_cases hp : p = page
    · obtain ⟨f, hf⟩ := Option.ne_none_iff_exists'.1 hsome
      simp [after, hp, hf]
    · simp [after, hp]

end PageMap

namespace TableTree

variable {t t' : TableTree} {page : VirtualAddress} {taken : List PhysicalAddress} {r : Resolution}
  {first second : List VirtualAddress}

/-- The frames that mapping these pages takes: one for each level missing above one of them. -/
def framesFor (t : TableTree) (pages : List VirtualAddress) : Nat :=
  vacant t.directory (pages.map (·.pdptIndex))
    + vacant t.table (pages.map fun page => (page.pdptIndex, page.pdIndex))

/-- The second tree has the levels of the first one and those above the pages. -/
structure Extends (t : TableTree) (pages : List VirtualAddress) (t' : TableTree) : Prop where
  directory : ∀ i, t'.directory i = none ↔ t.directory i = none ∧ i ∉ pages.map (·.pdptIndex)
  table : ∀ ij, t'.table ij = none
    ↔ t.table ij = none ∧ ij ∉ pages.map fun page => (page.pdptIndex, page.pdIndex)

theorem framesFor_singleton (t : TableTree) (page : VirtualAddress) :
    t.framesFor [page] = (if t.directory page.pdptIndex = none then 1 else 0)
      + if t.table (page.pdptIndex, page.pdIndex) = none then 1 else 0 := by
  rw [framesFor, List.map_singleton, List.map_singleton, vacant_singleton, vacant_singleton]

theorem framesFor_append (h : t.Extends first t') (second : List VirtualAddress) :
    t.framesFor (first ++ second) = t.framesFor first + t'.framesFor second := by
  rw [framesFor, List.map_append, List.map_append, vacant_append h.directory, vacant_append h.table,
    framesFor, framesFor]
  omega

theorem framesFor_le_append (t : TableTree) (first second : List VirtualAddress) :
    t.framesFor first ≤ t.framesFor (first ++ second) := by
  rw [framesFor, framesFor, List.map_append, List.map_append]
  exact Nat.add_le_add (vacant_le_append _ _ _) (vacant_le_append _ _ _)

theorem framesFor_perm (t : TableTree) (h : first.Perm second) :
    t.framesFor first = t.framesFor second := by
  rw [framesFor, vacant_perm _ (h.map _), vacant_perm _ (h.map _), framesFor]

theorem Extends.refl (t : TableTree) : t.Extends [] t :=
  ⟨fun i => by simp, fun ij => by simp⟩

theorem Extends.append {t'' : TableTree} (h : t.Extends first t') (h' : t'.Extends second t'') :
    t.Extends (first ++ second) t'' where
  directory i := by
    rw [h'.directory, h.directory, List.map_append, List.mem_append, not_or, and_assoc]
  table ij := by
    rw [h'.table, h.table, List.map_append, List.mem_append, not_or, and_assoc]

/-- A page with a table needs no frame, and mapping it adds no level. -/
theorem Closed.extends_self (h : t.Closed)
    (htable : t.table (page.pdptIndex, page.pdIndex) ≠ none) : t.Extends [page] t :=
  ⟨eq_none_iff_of_held (mt (h.table _ page.pdIndex) htable), eq_none_iff_of_held htable⟩

theorem Closed.framesFor_eq_zero (h : t.Closed)
    (htable : t.table (page.pdptIndex, page.pdIndex) ≠ none) : t.framesFor [page] = 0 := by
  have hdirectory : t.directory page.pdptIndex ≠ none := mt (h.table _ page.pdIndex) htable
  rw [framesFor_singleton, if_neg hdirectory, if_neg htable]

/-- A fault that succeeds takes the frames its page needs. -/
theorem Grows.length_taken (h : t.Grows page taken t' (.ok r)) (hc : t.Closed) :
    taken.length = t.framesFor [page] := by
  generalize hr : (Except.ok r : Except FaultError Resolution) = answer at h
  cases h with
  | directory d f frame absent =>
    rw [framesFor_singleton, if_pos absent, if_pos (hc.table _ _ absent)]
    rfl
  | table d f frame above absent =>
    rw [framesFor_singleton, if_neg (above ▸ Option.some_ne_none d), if_pos absent]
    rfl
  | leaf f frame above free =>
    exact (hc.framesFor_eq_zero (above ▸ Option.some_ne_none f)).symm
  | already present =>
    exact (hc.framesFor_eq_zero (mt (hc.leaf _ _ page.ptIndex) present)).symm
  | failed err => cases hr

/-- A fault that succeeds makes the levels above its page that were missing, and no others. -/
theorem Grows.extends (h : t.Grows page taken t' (.ok r)) (hc : t.Closed) : t.Extends [page] t' := by
  generalize hr : (Except.ok r : Except FaultError Resolution) = answer at h
  cases h with
  | directory d f frame absent =>
    exact ⟨update_eq_none_iff t.directory _ d, update_eq_none_iff t.table _ f⟩
  | table d f frame above absent =>
    exact ⟨eq_none_iff_of_held (above ▸ Option.some_ne_none d), update_eq_none_iff t.table _ f⟩
  | leaf f frame above free =>
    obtain ⟨hdirectory, htable⟩ := hc.extends_self (above ▸ Option.some_ne_none f)
    exact ⟨hdirectory, htable⟩
  | already present => exact hc.extends_self (mt (hc.leaf _ _ page.ptIndex) present)
  | failed err => cases hr

end TableTree

end PaeKernel
