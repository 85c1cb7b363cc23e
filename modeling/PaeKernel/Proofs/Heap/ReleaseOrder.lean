import PaeKernel.Proofs.Heap.Canonical
import PaeKernel.Proofs.Heap.Isolation

/-!
# The order of releases

A live pointer is always found again, so its release succeeds and takes just its payload off the
list (`HeapRun.Tracked.free_live`). After several releases the payloads left are those whose pointers
were not released, in whatever order that was done, and payloads determine blocks and counters.
`HeapRun.free_any_order` puts this together; once everything is released the heap is as it was when
it was set up.
-/

namespace PaeKernel

namespace Space

variable {s : Space} {m : Memory} {nextBase : Nat} {pre post : List Cell} {c : Cell}

/-- A block is found by the address of its payload. -/
theorem Sound.blockForPayload_eq (h : s.Sound m nextBase (pre ++ c :: post)) :
    s.blockForPayload m (s.addrOf (firstBlock + Cell.total pre + headerUnits))
      = some ⟨firstBlock + Cell.total pre, c.units, c.used, Cell.lastIndex firstBlock none pre⟩ := by
  have hlong := h.long
  have hmem : (⟨firstBlock + Cell.total pre, c.units, c.used,
      Cell.lastIndex firstBlock none pre⟩ : Block) ∈ s.blocks m := by
    rw [blocks_of_sound h]
    exact Cell.mem_layOut.2 ⟨pre, c, post, rfl, rfl⟩
  rw [blockForPayload, indexOf_addrOf s h.payload_lt, Option.bind_eq_bind, Option.bind_some,
    if_pos (Nat.le_add_left _ _), Nat.add_sub_cancel]
  cases hfind : (s.blocks m).find? (·.index == firstBlock + Cell.total pre) with
  | none => exact absurd (beq_self_eq_true _) (List.find?_eq_none.1 hfind _ hmem)
  | some b =>
    have hindex : b.index = firstBlock + Cell.total pre := by
      simpa only [beq_iff_eq] using List.find?_some hfind
    have hb := List.mem_of_find?_eq_some hfind
    rw [blocks_of_sound h] at hb
    obtain ⟨pre', c', post', hcells, rfl⟩ := Cell.mem_layOut.1 hb
    have hc : headerUnits ≤ c.units := hlong c (by simp)
    have hc' : headerUnits ≤ c'.units := hlong c' (by rw [hcells]; simp)
    simp only [headerUnits] at hc hc'
    dsimp only at hindex
    rcases Cell.split_cases hcells with ⟨rfl, rfl, -⟩ | hle | hle
    · rfl
    · omega
    · omega

end Space

namespace Arena

variable {a a' : Arena} {p : Spot} {q : Payload} {cells : List (List Cell)}

/-- Takes back payloads one after another. -/
def freeAll : List Nat → Exec Arena (List (Except HeapError Unit))
  | [] => return []
  | pointer :: rest => do
    let answer ← free pointer
    return answer :: (← freeAll rest)

theorem Sound.blockForPayload_address (h : a.Sound p.cells) (hap : Apart a.heap.spaces)
    (hspaces : p.spaces = a.heap.spaces) :
    a.blockForPayload p.address = some (p.space, p.block) := by
  have hmem : p.space ∈ a.heap.spaces := hspaces ▸ p.space_mem
  have hspot : p.space.Sound a.memory p.nextBase (p.pre ++ p.cell :: p.post) :=
    SpacesSound.spot (hspaces ▸ h.spaces)
  have hblock : p.space.blockForPayload a.memory p.address = some p.block :=
    hspot.blockForPayload_eq
  have hcontains : p.space.contains p.address = true := Space.contains_addrOf hspot.payload_lt
  rw [blockForPayload]
  cases hfind : a.heap.spaces.find? (·.contains p.address) with
  | none => exact absurd hcontains (List.find?_eq_none.1 hfind _ hmem)
  | some s =>
    have hfound : s.contains p.address = true := by
      simpa only using List.find?_some hfind
    obtain rfl := hap.eq_of_contains (List.mem_of_find?_eq_some hfind) hmem hfound hcontains
    rw [Option.bind_eq_bind, Option.bind_some, hblock]
    rfl

/-- A release takes away one payload. -/
theorem Released.mem_payloads_iff (h : a.Sound p.cells) (hreleased : Released a a' p)
    (hnodup : (a.payloads.map Payload.start).Nodup) :
    q ∈ a'.payloads ↔ q ∈ a.payloads ∧ q.start ≠ p.address := by
  have hperm := hreleased.payloads_perm h
  have hfresh : p.address ∉ a'.payloads.map Payload.start :=
    (List.nodup_cons.1 ((hperm.map Payload.start).nodup_iff.1 hnodup)).1
  rw [hperm.mem_iff, List.mem_cons]
  constructor
  · intro hq
    exact ⟨.inr hq, fun heq => hfresh (heq ▸ List.mem_map_of_mem hq)⟩
  · rintro ⟨rfl | hq, hne⟩
    · exact absurd rfl hne
    · exact hq

end Arena

namespace HeapRun

variable {r : HeapRun} {cells : List (List Cell)} {a : Arena} {pointer : Nat} {pointers : List Nat}

namespace Tracked

/-- A live pointer is the address of a cell in use. -/
theorem exists_spot (h : r.Tracked cells) (hlive : pointer ∈ r.live.map Allocation.pointer) :
    ∃ p : Spot, p.spaces = r.arena.heap.spaces ∧ p.cells = cells ∧ p.cell.used = true
      ∧ p.address = pointer := by
  obtain ⟨q, hq, rfl⟩ := List.mem_map.1 (h.matched.mem_iff.2 hlive)
  obtain ⟨p, hspaces, hcells, hused, rfl⟩ := h.sound.exists_spot_of_payload hq
  exact ⟨p, hspaces, hcells, hused, rfl⟩

/-- The release of a live pointer succeeds and takes away its payload only. -/
theorem free_live (h : r.Tracked cells) (hlive : pointer ∈ r.live.map Allocation.pointer) :
    ∃ a' cells', Arena.free pointer r.arena = (.ok (.ok ()), a')
      ∧ Tracked ⟨a', r.live.filter (·.pointer != pointer)⟩ cells'
      ∧ a'.heap.spaces = r.arena.heap.spaces
      ∧ ∀ q, q ∈ a'.payloads ↔ q ∈ r.arena.payloads ∧ q.start ≠ pointer := by
  obtain ⟨p, hspaces, rfl, hused, rfl⟩ := h.exists_spot hlive
  have hfind := h.sound.blockForPayload_address h.apart hspaces
  obtain ⟨a', hrun, hreleased⟩ := Arena.free_released h.sound h.apart hspaces hfind hused
  obtain ⟨cells', htracked⟩ := h.released rfl hreleased
  have hnodup := h.matched.nodup_iff.2 h.nodup
  exact ⟨a', cells', hrun, htracked, hreleased.kept,
    fun q => hreleased.mem_payloads_iff h.sound hnodup⟩

/-- The releases of live pointers succeed and take away their payloads only. -/
theorem freeAll_live (h : r.Tracked cells) (hnodup : pointers.Nodup)
    (hlive : ∀ pointer ∈ pointers, pointer ∈ r.live.map Allocation.pointer) :
    ∃ a' cells', Arena.freeAll pointers r.arena = (.ok (pointers.map fun _ => .ok ()), a')
      ∧ a'.Sound cells' ∧ a'.heap.spaces = r.arena.heap.spaces
      ∧ ∀ q, q ∈ a'.payloads ↔ q ∈ r.arena.payloads ∧ q.start ∉ pointers := by
  induction pointers generalizing r cells with
  | nil => exact ⟨r.arena, cells, rfl, h.sound, rfl, by simp⟩
  | cons pointer rest ih =>
    obtain ⟨hfresh, hrest⟩ := List.nodup_cons.1 hnodup
    obtain ⟨a₁, cells₁, hfree, htracked, hspaces₁, hpayloads₁⟩ :=
      h.free_live (hlive pointer List.mem_cons_self)
    -- the first release leaves the other pointers live, as none of them is released twice
    have hlive₁ : ∀ other ∈ rest,
        other ∈ (r.live.filter (·.pointer != pointer)).map Allocation.pointer := by
      intro other hother
      obtain ⟨x, hx, rfl⟩ := List.mem_map.1 (hlive other (List.mem_cons_of_mem _ hother))
      refine List.mem_map_of_mem (List.mem_filter.2 ⟨hx, bne_iff_ne.2 ?_⟩)
      exact fun heq => hfresh (heq ▸ hother)
    obtain ⟨a₂, cells₂, hrun, hsound, hspaces₂, hpayloads₂⟩ := ih htracked hrest hlive₁
    refine ⟨a₂, cells₂, ?_, hsound, hspaces₂.trans hspaces₁, ?_⟩
    · rw [Arena.freeAll, Exec.bind_of_ok hfree, Exec.bind_of_ok hrun]
      rfl
    · intro q
      rw [hpayloads₂, hpayloads₁, List.mem_cons, not_or, and_assoc]

end Tracked

/-- Live pointers may be released in any order: all releases succeed, and the blocks and counters
afterwards are the same. Once all pointers are released, every space is one free block again and the
counters are those of the heap just set up. -/
theorem free_any_order (h : a.SetUp) (calls : List HeapCall) : ∃ r, (start a).run calls = .ok r
    ∧ (∀ first second : List Nat, first.Nodup → first.Perm second →
      (∀ pointer ∈ first, pointer ∈ r.live.map Allocation.pointer) →
      ∃ a₁ a₂, Arena.freeAll first r.arena = (.ok (first.map fun _ => .ok ()), a₁)
        ∧ Arena.freeAll second r.arena = (.ok (second.map fun _ => .ok ()), a₂)
        ∧ a₁.Alike a₂)
    ∧ ∀ all : List Nat, all.Perm (r.live.map Allocation.pointer) →
      ∃ a', Arena.freeAll all r.arena = (.ok (all.map fun _ => .ok ()), a') ∧ a'.Alike a
        ∧ ∀ s ∈ a'.heap.spaces, s.blocks a'.memory = [⟨firstBlock, s.blockUnits, false, none⟩] := by
  have hstart := tracked_of_setUp h
  obtain ⟨r, hrun, cells, htracked⟩ := run_tracked hstart calls
  obtain ⟨_, hrun', hspaces, -⟩ := run_sound hstart.sound hstart.apart calls
  obtain rfl := Except.ok.inj (hrun.symm.trans hrun')
  refine ⟨r, hrun, ?_, ?_⟩
  · intro first second hnodup hperm hlive
    obtain ⟨a₁, cells₁, hrun₁, hsound₁, hspaces₁, hpayloads₁⟩ := htracked.freeAll_live hnodup hlive
    obtain ⟨a₂, cells₂, hrun₂, hsound₂, hspaces₂, hpayloads₂⟩ :=
      htracked.freeAll_live (hperm.nodup_iff.1 hnodup) fun pointer hmem =>
        hlive pointer (hperm.mem_iff.2 hmem)
    refine ⟨a₁, a₂, hrun₁, hrun₂, hsound₁.alike hsound₂ ?_ (hspaces₁.trans hspaces₂.symm) ?_⟩
    · rw [hspaces₁]
      exact htracked.apart
    · intro q
      rw [hpayloads₁, hpayloads₂, hperm.mem_iff]
  · intro all hperm
    obtain ⟨a', cells', hrun', hsound', hspaces', hpayloads'⟩ :=
      htracked.freeAll_live (hperm.nodup_iff.2 htracked.nodup) fun pointer hmem =>
        hperm.mem_iff.1 hmem
    have hnone : ∀ q, q ∉ a'.payloads := by
      intro q hq
      obtain ⟨hq, hkept⟩ := (hpayloads' q).1 hq
      exact hkept (hperm.mem_iff.2 (htracked.matched.mem_iff.1 (List.mem_map_of_mem hq)))
    have hnone₀ : ∀ q, q ∉ a.payloads := by
      intro q hq
      cases hstart.matched.mem_iff.1 (List.mem_map_of_mem hq)
    have hkept := hspaces'.trans hspaces
    have hap : Arena.Apart a'.heap.spaces := by
      rw [hkept]
      exact hstart.apart
    have halike : a'.Alike a := by
      refine hsound'.alike hstart.sound hap hkept ?_
      exact fun q => iff_of_false (hnone q) (hnone₀ q)
    refine ⟨a', hrun', halike, ?_⟩
    intro s hs
    rw [halike.blocks s hs]
    exact Arena.SpacesSound.blocks_whole hstart.sound.spaces (hkept ▸ hs)

/-- Three payloads next to each other, of which the outer two are released in both orders, or all
three from the middle outwards. -/
theorem free_any_order_sample : ∃ r,
    (start Arena.sample).run [.malloc 5, .malloc 1, .malloc 8] = .ok r
      ∧ (∃ a₁ a₂, Arena.freeAll [0x1020, 0x1050] r.arena = (.ok [.ok (), .ok ()], a₁)
        ∧ Arena.freeAll [0x1050, 0x1020] r.arena = (.ok [.ok (), .ok ()], a₂) ∧ a₁.Alike a₂)
      ∧ ∃ a', Arena.freeAll [0x1038, 0x1050, 0x1020] r.arena
          = (.ok [.ok (), .ok (), .ok ()], a')
        ∧ a'.Alike Arena.sample := by
  obtain ⟨r, hrun, hpair, hall⟩ := free_any_order Arena.setUp_sample [.malloc 5, .malloc 1, .malloc 8]
  have hlive : r.live.map Allocation.pointer = [0x1050, 0x1038, 0x1020] := by
    have hrun' : ((start Arena.sample).run [.malloc 5, .malloc 1, .malloc 8]).map
        (fun r => r.live.map Allocation.pointer) = .ok [0x1050, 0x1038, 0x1020] := by
      decide +kernel
    rw [hrun] at hrun'
    exact Except.ok.inj hrun'
  rw [hlive] at hpair hall
  obtain ⟨a', hfreed, halike, -⟩ := hall [0x1038, 0x1050, 0x1020] (by decide)
  exact ⟨r, hrun, hpair [0x1020, 0x1050] [0x1050, 0x1020] (by decide) (by decide) (by decide),
    a', hfreed, halike⟩

end HeapRun

end PaeKernel
