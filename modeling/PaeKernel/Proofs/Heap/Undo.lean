import PaeKernel.Proofs.Heap.Exactness
import PaeKernel.Proofs.Heap.ReleaseOrder

/-!
# A release undoes a request

A request puts one payload on the list and a release takes it off again, whatever the client wrote
into it meanwhile. Payloads determine blocks and counters (`Arena.Sound.alike`), so the split of a
block and the merge that follows it cancel out, links and granted remainder included.
-/

namespace PaeKernel.Arena

variable {a a' : Arena} {m : Memory} {cells : List (List Cell)} {q : Payload} {size pointer : Nat}

/-- A request that is answered with a pointer puts the payload there on the list. -/
theorem malloc_payload (h : a.Sound cells) (hap : Apart a.heap.spaces)
    (hrun : malloc size a = (.ok (some pointer), a')) : ∃ q cells', q.start = pointer
      ∧ max size 1 ≤ q.bytes ∧ a'.Sound cells' ∧ a'.heap.spaces = a.heap.spaces
      ∧ a'.payloads.Perm (q :: a.payloads) := by
  rcases malloc_eq h hap size with ⟨log, hnone⟩ | ⟨units, p, b, hunits, rfl, hsome, hserved⟩
  · rw [hrun] at hnone
    cases hnone
  · rw [hrun] at hsome
    obtain ⟨hpointer, rfl⟩ := Prod.mk.inj hsome
    obtain rfl := Option.some.inj (Except.ok.inj hpointer)
    exact ⟨_, _, rfl, hserved.le_bytes hunits, hserved.sound, hserved.kept, hserved.payloads_perm h⟩

/-- A payload on the list can be taken back, and only it leaves the list. -/
theorem free_payload (h : a.Sound cells) (hap : Apart a.heap.spaces) (hq : q ∈ a.payloads) :
    ∃ a' cells', free q.start a = (.ok (.ok ()), a') ∧ a'.Sound cells'
      ∧ a'.heap.spaces = a.heap.spaces ∧ a.payloads.Perm (q :: a'.payloads) := by
  obtain ⟨p, hspaces, rfl, hused, rfl⟩ := h.exists_spot_of_payload hq
  have hfind := h.blockForPayload_address hap hspaces
  obtain ⟨a', hrun, hreleased⟩ := free_released h hap hspaces hfind hused
  exact ⟨a', _, hrun, hreleased.sound, hreleased.kept, hreleased.payloads_perm h⟩

/-- Releasing what a request was just answered with brings back the blocks of every space and all
counters. The client may meanwhile have written anything into the payload it got. -/
theorem free_undoes_malloc (haudit : a.audit = .ok (.ok ())) (hap : Apart a.heap.spaces)
    (hrun : malloc size a = (.ok (some pointer), a')) :
    ∃ q ∈ a'.payloads, q.start = pointer ∧ max size 1 ≤ q.bytes
      ∧ ∀ m, a'.memory.SameOutside m q →
        ∃ b, free pointer { a' with memory := m } = (.ok (.ok ()), b) ∧ b.Alike a
          ∧ b.audit = .ok (.ok ()) := by
  obtain ⟨cells, hsound⟩ := exists_sound_of_audit haudit
  obtain ⟨q, cells₁, rfl, hbytes, hsound₁, hspaces₁, hserved⟩ := malloc_payload hsound hap hrun
  have hap₁ : Apart a'.heap.spaces := hspaces₁ ▸ hap
  have hq : q ∈ a'.payloads := hserved.mem_iff.2 List.mem_cons_self
  refine ⟨q, hq, rfl, hbytes, ?_⟩
  intro m hsame
  have hwritten := hsound₁.payloads_client hap₁ hq hsame
  obtain ⟨b, cells₂, hfree, hsound₂, hspaces₂, hreleased⟩ :=
    free_payload (hsound₁.client hap₁ hq hsame) hap₁ (hwritten ▸ hq)
  refine ⟨b, hfree, ?_, audit_of_sound hsound₂⟩
  -- what is left of the list is the list before the request
  have hleft : b.payloads.Perm a.payloads :=
    List.Perm.cons_inv (hreleased.symm.trans (hwritten ▸ hserved))
  refine hsound₂.alike hsound ?_ (hspaces₂.trans hspaces₁) fun q => hleft.mem_iff
  exact hspaces₂ ▸ hap₁

/-- Twenty-four bytes, all of which the client writes before it gives them back. -/
theorem free_undoes_malloc_sample : ∃ a', malloc 24 sample = (.ok (some 0x1020), a')
    ∧ ∃ b, free 0x1020 { a' with memory := a'.memory.fillBytes 0x1020 24 0xFF } = (.ok (.ok ()), b)
      ∧ b.Alike sample := by
  have haudit : sample.audit = .ok (.ok ()) := audit_of_sound setUp_sample.sound.1
  have hrun : (malloc 24 sample).1 = .ok (some 0x1020) := by decide +kernel
  obtain ⟨q, -, hstart, hbytes, hfree⟩ := free_undoes_malloc haudit setUp_sample.sound.2
    (Prod.ext hrun rfl : malloc 24 sample = (.ok (some 0x1020), (malloc 24 sample).2))
  have hlow : q.start ≤ 0x1020 := Nat.le_of_eq hstart
  have hhigh : 0x1020 + (List.replicate 24 (0xFF : UInt8)).length ≤ q.start + q.bytes := by
    rw [List.length_replicate]
    omega
  obtain ⟨b, hb, halike, -⟩ := hfree _ (Memory.sameOutside_writeBytes hlow hhigh)
  exact ⟨_, Prod.ext hrun rfl, b, hb, halike⟩

end PaeKernel.Arena
