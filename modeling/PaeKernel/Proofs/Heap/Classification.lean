import PaeKernel.Proofs.Heap.BlockLists
import PaeKernel.Proofs.Heap.Exactness
import PaeKernel.Proofs.Heap.ReleaseOrder

/-!
# What a release makes of an address

On a heap that the audit accepts, `free` finds a block just if the address is that of the block's
payload (`Sound.blockForPayload_eq_some_iff`): words in payloads or left over from merged blocks may
look like headers, but the walk does not come by them. The state of the block decides the rest.
-/

namespace PaeKernel.Arena

variable {a : Arena} {cells : List (List Cell)} {s : Space} {b : Block} {address : Nat}

/-- The address is that of the payload of some block, one in use or one that is free. -/
def PayloadAt (a : Arena) (used : Bool) (address : Nat) : Prop :=
  ∃ s ∈ a.heap.spaces, ∃ b ∈ s.blocks a.memory, b.used = used
    ∧ s.addrOf (b.index + headerUnits) = address

theorem Sound.blockForPayload_eq_some_iff (h : a.Sound cells) (hap : Apart a.heap.spaces) :
    a.blockForPayload address = some (s, b) ↔ s ∈ a.heap.spaces ∧ b ∈ s.blocks a.memory
      ∧ s.addrOf (b.index + headerUnits) = address := by
  constructor
  · intro hfind
    obtain ⟨p, hspaces, rfl, rfl, rfl, rfl⟩ := h.blockForPayload_spot hfind
    refine ⟨hspaces ▸ p.space_mem, ?_, rfl⟩
    rw [SpacesSound.blocks_spot (hspaces ▸ h.spaces)]
    exact List.mem_append_right _ List.mem_cons_self
  · rintro ⟨hs, hb, rfl⟩
    obtain ⟨p, hspaces, rfl, rfl, rfl⟩ := h.spaces.exists_spot hs hb
    exact h.blockForPayload_address hap hspaces

theorem Sound.payloadAt_iff (h : a.Sound cells) (hap : Apart a.heap.spaces) {used : Bool} :
    a.PayloadAt used address ↔ ∃ s b, a.blockForPayload address = some (s, b) ∧ b.used = used := by
  simp only [h.blockForPayload_eq_some_iff hap]
  constructor
  · rintro ⟨s, hs, b, hb, hused, haddress⟩
    exact ⟨s, b, ⟨hs, hb, haddress⟩, hused⟩
  · rintro ⟨s, b, ⟨hs, hb, haddress⟩, hused⟩
    exact ⟨s, hs, b, hb, hused, haddress⟩

/-- On a heap that the audit accepts a release succeeds just for the payload of a block in use; the
payload of a free block is freed twice, and any other address is foreign. A refused address changes
nothing. A release that succeeds merges the block with those of its neighbours that are free, and
its own units go from the used to the free ones. -/
theorem free_classifies (h : a.audit = .ok (.ok ())) (hap : Apart a.heap.spaces) (address : Nat) :
    ((free address a).1 = .ok (.ok ()) ↔ a.PayloadAt true address)
    ∧ ((free address a).1 = .ok (.error (.doubleFree address)) ↔ a.PayloadAt false address)
    ∧ ((free address a).1 = .ok (.error (.foreignPointer address))
      ↔ ∀ used, ¬ a.PayloadAt used address)
    ∧ ((free address a).1 ≠ .ok (.ok ()) → (free address a).2 = a)
    ∧ ∀ a', free address a = (.ok (.ok ()), a') → ∃ s ∈ a.heap.spaces, ∃ before b after,
      s.blocks a.memory = before ++ b :: after ∧ b.used = true
      ∧ s.addrOf (b.index + headerUnits) = address
      ∧ s.blocks a'.memory = Block.merge before b after
      ∧ (∀ t ∈ a.heap.spaces, t ≠ s → t.blocks a'.memory = t.blocks a.memory)
      ∧ a'.heap.spaces = a.heap.spaces
      ∧ a'.heap.freeUnits = a.heap.freeUnits + b.units
      ∧ a'.heap.usedUnits + b.units = a.heap.usedUnits
      ∧ a'.heap.capacityUnits = a.heap.capacityUnits
      ∧ a'.audit = .ok (.ok ()) := by
  obtain ⟨cells, hsound⟩ := exists_sound_of_audit h
  simp only [hsound.payloadAt_iff hap]
  cases hfind : a.blockForPayload address with
  | none =>
    rw [free_foreign hfind]
    simp
  | some found =>
    obtain ⟨s, b⟩ := found
    cases hused : b.used with
    | false =>
      rw [free_double hfind hused]
      simp [hused]
    | true =>
      obtain ⟨p, hspaces, rfl, rfl, rfl, rfl⟩ := hsound.blockForPayload_spot hfind
      obtain ⟨a', hrun, hreleased⟩ := free_released hsound hap hspaces hfind hused
      obtain ⟨hfreed, hless, hcapacity⟩ := hreleased.counters hsound
      obtain ⟨before, after, hold, hnew⟩ := hreleased.blocks hsound
      have hs : p.space ∈ a.heap.spaces := hspaces ▸ p.space_mem
      rw [hrun]
      refine ⟨by simp [hused], by simp [hused], by simp, by simp, ?_⟩
      rintro _ ⟨⟩
      exact ⟨p.space, hs, before, p.block, after, hold, hused, rfl, hnew,
        fun t ht hne => hap.blocks_eq hs ht hne hreleased.touched, hreleased.kept, hfreed, hless,
        hcapacity, audit_of_sound hreleased.sound⟩

/-- A block in use, the free one after it and an address inside its payload. -/
theorem free_classifies_sample :
    (free 0x1020 (malloc 24 sample).2).1 = .ok (.ok ())
    ∧ (free 0x1048 (malloc 24 sample).2).1 = .ok (.error (.doubleFree 0x1048))
    ∧ (free 0x1028 (malloc 24 sample).2).1 = .ok (.error (.foreignPointer 0x1028))
    ∧ (free 0x1028 (malloc 24 sample).2).2 = (malloc 24 sample).2 := by
  have haudit : (malloc 24 sample).2.audit = .ok (.ok ()) := by decide +kernel
  have hkept : (malloc 24 sample).2.heap.spaces = sample.heap.spaces := by decide +kernel
  have hap : Apart (malloc 24 sample).2.heap.spaces := hkept ▸ setUp_sample.sound.2
  obtain ⟨hused, -⟩ := free_classifies haudit hap 0x1020
  obtain ⟨-, hfree, -⟩ := free_classifies haudit hap 0x1048
  obtain ⟨-, -, hnone, hkeep, -⟩ := free_classifies haudit hap 0x1028
  unfold PayloadAt at hused hfree hnone
  have hforeign := hnone.2 (by decide +kernel)
  refine ⟨hused.2 (by decide +kernel), hfree.2 (by decide +kernel), hforeign, hkeep ?_⟩
  rw [hforeign]
  exact nofun

end PaeKernel.Arena
