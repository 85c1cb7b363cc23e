import PaeKernel.Heap.Allocator
import PaeKernel.Proofs.Heap.ReleaseOrder

/-!
# Requests with a layout

The allocator asks the heap, writes into the payload it got and may take an older payload back.
`HeapRun.Answer` says all that such a request can come to: it is refused and only the log changes,
or there is one more live allocation, and the payloads of the others are as they were. For a
reallocation the three steps are followed one by one (`HeapRun.Tracked.answer_realloc`): the copy
reaches the new payload only, which lies apart from the old one and from all others.
-/

namespace PaeKernel

theorem Layout.align_dvd_unitSize (l : Layout) (h : l.align ≤ unitSize) : l.align ∣ unitSize := by
  have hpowers : ∀ n ≤ 8, n ≠ 0 ∧ n &&& (n - 1) = 0 → n ∣ 8 := by decide
  exact hpowers l.align h l.power

namespace Arena

variable {a a' : Arena} {cells : List (List Cell)} {q : Payload} {address size align : Nat}

theorem allocAligned_of_lt (h : unitSize < align) (size : Nat) (a : Arena) :
    ∃ log, allocAligned size align a = (.ok none, { a with log }) := by
  rw [allocAligned, if_pos h, Exec.bind_of_ok (record_apply _ _ _ a)]
  exact ⟨_, rfl⟩

theorem allocAligned_of_le (h : align ≤ unitSize) : allocAligned size align = malloc size := by
  rw [allocAligned, if_neg (Nat.not_lt.2 h)]

/-- Every request with an alignment larger than a unit is refused, and only the log changes. -/
theorem refused_of_lt {layout : Layout} (h : unitSize < layout.align) (a : Arena) :
    (∃ log, alloc layout a = (.ok none, { a with log }))
    ∧ (∃ log, allocZeroed layout a = (.ok none, { a with log }))
    ∧ ∀ pointer newSize, ∃ log, realloc pointer layout newSize a = (.ok none, { a with log }) := by
  obtain ⟨log, hrun⟩ := allocAligned_of_lt h layout.size a
  refine ⟨⟨log, hrun⟩, ⟨log, ?_⟩, ?_⟩
  · rw [allocZeroed, alloc, Exec.bind_of_ok hrun]
    rfl
  · intro pointer newSize
    obtain ⟨log, hrun⟩ := allocAligned_of_lt h newSize a
    refine ⟨log, ?_⟩
    rw [realloc, Exec.bind_of_ok hrun]
    rfl

theorem dealloc_of_free (hpos : 0 < address) (hrun : free address a = (.ok (.ok ()), a')) :
    dealloc address a = (.ok (), a') := by
  rw [dealloc, if_neg (Nat.ne_of_gt hpos), Exec.bind_of_ok hrun]
  rfl

/-- An address outside all spaces lies in no payload. -/
theorem Sound.not_holds_of_outside (h : a.Sound cells) (hq : q ∈ a.payloads)
    (hout : ∀ s ∈ a.heap.spaces, s.contains address = false) : ¬ q.Holds address := by
  intro hholds
  obtain ⟨s, hs, hq⟩ := List.mem_flatMap.1 hq
  obtain ⟨_, _, hsound⟩ := h.spaces.exists_sound hs
  obtain ⟨hlow, hhigh, -⟩ := hsound.payload_bounds hq
  have hsen := s.sentinel_add
  have hin : s.contains address = true := by
    rw [Space.contains, Bool.and_eq_true, decide_eq_true_eq, decide_eq_true_eq, Space.endAddr]
    simp only [Space.addrOf, unitSize, Payload.Holds] at *
    omega
  rw [hout s hs] at hin
  exact Bool.false_ne_true hin

end Arena

namespace HeapRun

variable {r r' r'' : HeapRun} {cells : List (List Cell)} {x : Allocation} {o q : Payload}
  {m : Memory} {size align pointer : Nat} {left : List Allocation}

/-! ### What is kept over several steps -/

theorem Keeps.trans (h : r.Keeps r') (h' : r'.Keeps r'')
    (hspaces : r'.arena.heap.spaces = r.arena.heap.spaces)
    (hlive : ∀ x ∈ r.live, x ∈ r''.live → x ∈ r'.live) : r.Keeps r'' where
  payload := by
    intro x hx hx'' q hq hstart
    have hx' := hlive x hx hx''
    obtain ⟨hq', hbytes⟩ := h.payload x hx hx' q hq hstart
    obtain ⟨hq'', hbytes'⟩ := h'.payload x hx' hx'' q hq' hstart
    exact ⟨hq'', fun address hholds => (hbytes' address hholds).trans (hbytes address hholds)⟩
  outside := by
    intro address hout
    exact (h'.outside address (hspaces ▸ hout)).trans (h.outside address hout)

namespace Tracked

theorem apart_of_ne (h : r.Tracked cells) (ho : o ∈ r.arena.payloads) (hq : q ∈ r.arena.payloads)
    (hne : o ≠ q) : o.Apart q := by
  have : Std.Symm Payload.Apart := ⟨fun _ _ hxy => hxy.symm⟩
  exact h.pairwise_payloads.forall ho hq hne

/-- What a client writes into a payload that was not live at the start is kept from the payloads that
were. -/
theorem keeps_client (h : r'.Tracked cells) (hkeeps : r.Keeps r')
    (hspaces : r'.arena.heap.spaces = r.arena.heap.spaces) (hq : q ∈ r'.arena.payloads)
    (hnew : ∀ x ∈ r.live, x.pointer ≠ q.start) (hsame : r'.arena.memory.SameOutside m q) :
    r.Keeps ⟨{ r'.arena with memory := m }, r'.live⟩ where
  payload := by
    intro x hx hx' o ho hstart
    obtain ⟨ho', hbytes⟩ := hkeeps.payload x hx hx' o ho hstart
    have hne : o ≠ q := by
      rintro rfl
      exact hnew x hx hstart.symm
    refine ⟨?_, ?_⟩
    · rw [h.sound.payloads_client h.apart hq hsame]
      exact ho'
    · intro address hholds
      exact (hsame.readByte_eq (h.apart_of_ne ho' hq hne) hholds).trans (hbytes address hholds)
  outside := by
    intro address hout
    have hfree : ¬ q.Holds address := h.sound.not_holds_of_outside hq (hspaces ▸ hout)
    exact (hsame address hfree).trans (hkeeps.outside address hout)

theorem pointer_pos (h : r.Tracked cells) (hx : x ∈ r.live) : 0 < x.pointer := by
  obtain ⟨s, -, q, -, hstart, -, -, hlow, -⟩ := h.isolated.placed x hx
  simp only [Space.addrOf, firstBlock, spaceHeaderUnits, unitSize] at hlow
  omega

/-- A payload with room for the bytes asked for, at a live pointer. -/
theorem payload_of_live (h : r.Tracked cells) (hx : x ∈ r.live) :
    ∃ q ∈ r.arena.payloads, q.start = x.pointer ∧ max x.size 1 ≤ q.bytes := by
  obtain ⟨q, hq, hstart⟩ := h.exists_payload hx
  exact ⟨q, hq, hstart, h.room x hx q hq hstart⟩

/-- The release of a live pointer by a client of the allocator. -/
theorem dealloc_live (h : r.Tracked cells) (hx : x ∈ r.live) : ∃ a cells',
    Arena.dealloc x.pointer r.arena = (.ok (), a)
      ∧ Tracked ⟨a, r.live.filter (·.pointer != x.pointer)⟩ cells'
      ∧ r.Keeps ⟨a, r.live.filter (·.pointer != x.pointer)⟩
      ∧ a.heap.spaces = r.arena.heap.spaces := by
  obtain ⟨a, cells', hfree, htracked, hspaces, -⟩ := h.free_live (List.mem_map_of_mem hx)
  obtain ⟨r', hstep, heffect⟩ := step_effect h.sound h.apart (.free x.pointer)
  rw [step, hfree] at hstep
  obtain rfl := Except.ok.inj hstep
  refine ⟨a, cells', Arena.dealloc_of_free (h.pointer_pos hx) hfree, htracked,
    heffect.keeps h ?_, hspaces⟩
  intro address byte hcall
  cases hcall

end Tracked

/-! ### Requests -/

/-- All that a request for so many bytes can come to: it is refused, or the allocations `left` and one
more are live afterwards, and memory has the `Contents` promised for the pointer. -/
inductive Answer (r : HeapRun) (size align : Nat) (left : List Allocation)
    (Contents : Nat → Memory → Prop) : Except Panic (Option Nat) × Arena → Prop
  | refused (log : List Record) : Answer r size align left Contents (.ok none, { r.arena with log })
  | granted (pointer : Nat) (a : Arena) (cells : List (List Cell)) (supported : align ≤ unitSize)
    (tracked : Tracked ⟨a, ⟨pointer, size⟩ :: left⟩ cells)
    (keeps : r.Keeps ⟨a, ⟨pointer, size⟩ :: left⟩)
    (spaces : a.heap.spaces = r.arena.heap.spaces) (contents : Contents pointer a.memory) :
    Answer r size align left Contents (.ok (some pointer), a)

namespace Tracked

/-- A pointer just granted was not live before. -/
theorem pointer_ne (h : r.Tracked cells) (hlive : r.live = ⟨pointer, size⟩ :: left) :
    ∀ y ∈ left, y.pointer ≠ pointer := by
  have hnodup := h.nodup
  rw [hlive, List.map_cons, List.nodup_cons] at hnodup
  intro y hy heq
  exact hnodup.1 (List.mem_map.2 ⟨y, hy, heq⟩)

theorem answer_alloc (h : r.Tracked cells) (size align : Nat) :
    r.Answer size align r.live (fun _ _ => True) (Arena.allocAligned size align r.arena) := by
  rcases Nat.lt_or_ge unitSize align with hlt | hle
  · obtain ⟨log, hrun⟩ := Arena.allocAligned_of_lt hlt size r.arena
    rw [hrun]
    exact .refused log
  · rw [Arena.allocAligned_of_le hle]
    rcases Arena.malloc_eq h.sound h.apart size with
      ⟨log, hrun⟩ | ⟨units, p, a, hunits, hcells, hrun, hserved⟩
    · rw [hrun]
      exact .refused log
    · obtain ⟨cells', htracked⟩ := h.served hunits hcells hserved
      rw [hrun]
      exact .granted _ a cells' hle htracked (h.keeps_served hcells hserved _) hserved.kept trivial

theorem answer_allocZeroed (h : r.Tracked cells) (layout : Layout) :
    r.Answer layout.size layout.align r.live
      (fun pointer m => m.readBytes pointer layout.size = List.replicate layout.size 0)
      (Arena.allocZeroed layout r.arena) := by
  have hanswer := h.answer_alloc layout.size layout.align
  rw [Arena.allocZeroed, Arena.alloc]
  generalize hrun : Arena.allocAligned layout.size layout.align r.arena = out at hanswer
  cases hanswer with
  | refused log =>
    rw [Exec.bind_of_ok hrun]
    exact .refused log
  | granted pointer a cells₁ hsupported htracked hkeeps hspaces =>
    rw [Exec.bind_of_ok hrun]
    dsimp only
    rw [Exec.bind_of_ok (Exec.update_apply _ a)]
    obtain ⟨q, hq, hstart, hbytes⟩ := htracked.payload_of_live List.mem_cons_self
    dsimp only at hstart hbytes
    have hsame : a.memory.SameOutside (a.memory.fillBytes pointer layout.size 0) q := by
      refine Memory.sameOutside_writeBytes (Nat.le_of_eq hstart) ?_
      rw [List.length_replicate]
      omega
    have hnew : ∀ y ∈ r.live, y.pointer ≠ q.start := by
      rw [hstart]
      exact htracked.pointer_ne rfl
    refine .granted pointer _ cells₁ hsupported (htracked.client hq hsame)
      (htracked.keeps_client hkeeps hspaces hq hnew hsame) hspaces ?_
    have hzero := a.memory.readBytes_writeBytes pointer (List.replicate layout.size 0)
    rwa [List.length_replicate] at hzero

/-- The new payload begins with the bytes of the old one, which is no longer live. -/
theorem answer_realloc (h : r.Tracked cells) (hx : x ∈ r.live) (layout : Layout)
    (hsize : layout.size = x.size) (newSize : Nat) :
    r.Answer newSize layout.align (r.live.filter (·.pointer != x.pointer))
      (fun fresh m => fresh ≠ x.pointer ∧ m.readBytes fresh (min x.size newSize)
        = r.arena.memory.readBytes x.pointer (min x.size newSize))
      (Arena.realloc x.pointer layout newSize r.arena) := by
  have hanswer := h.answer_alloc newSize layout.align
  rw [Arena.realloc, hsize]
  generalize hrun : Arena.allocAligned newSize layout.align r.arena = out at hanswer
  cases hanswer with
  | refused log =>
    rw [Exec.bind_of_ok hrun]
    exact .refused log
  | granted fresh a cells₁ hsupported htracked hkeeps hspaces =>
    rw [Exec.bind_of_ok hrun]
    dsimp only
    rw [Exec.bind_of_ok (Exec.update_apply _ a)]
    obtain ⟨q, hq, hstart, hbytes⟩ := htracked.payload_of_live List.mem_cons_self
    obtain ⟨old, hold, hstartOld, hbytesOld⟩ := h.payload_of_live hx
    dsimp only at hstart hbytes
    have hnew : ∀ y ∈ r.live, y.pointer ≠ fresh := htracked.pointer_ne rfl
    -- the copy
    have hsame : a.memory.SameOutside
        (a.memory.copyBytes x.pointer fresh (min x.size newSize)) q := by
      refine Memory.sameOutside_writeBytes (Nat.le_of_eq hstart) ?_
      rw [Memory.length_readBytes]
      omega
    have htracked₁ := htracked.client hq hsame
    have hkeeps₁ := htracked.keeps_client hkeeps hspaces hq (hstart ▸ hnew) hsame
    have hq₁ := htracked.sound.payloads_client htracked.apart hq hsame ▸ hq
    -- the release of the old payload
    obtain ⟨a₂, cells₂, hdealloc, htracked₂, hkeeps₂, hspaces₂⟩ :=
      htracked₁.dealloc_live (List.mem_cons_of_mem _ hx)
    have hfresh : fresh ≠ x.pointer := (hnew x hx).symm
    have hlive : (⟨fresh, newSize⟩ :: r.live).filter (·.pointer != x.pointer)
        = ⟨fresh, newSize⟩ :: r.live.filter (·.pointer != x.pointer) :=
      List.filter_cons_of_pos (bne_iff_ne.2 hfresh)
    dsimp only at htracked₂ hkeeps₂
    rw [hlive] at htracked₂ hkeeps₂
    rw [Exec.bind_of_ok hdealloc]
    refine .granted fresh a₂ cells₂ hsupported htracked₂ (hkeeps₁.trans hkeeps₂ hspaces ?_)
      (hspaces₂.trans hspaces) ⟨hfresh, ?_⟩
    · exact fun y hy _ => List.mem_cons_of_mem _ hy
    · calc a₂.memory.readBytes fresh (min x.size newSize)
          = (a.memory.copyBytes x.pointer fresh (min x.size newSize)).readBytes fresh
              (min x.size newSize) := by
            refine Memory.readBytes_congr fun i hi => ?_
            refine (hkeeps₂.payload _ List.mem_cons_self List.mem_cons_self q hq₁ hstart).2 _ ?_
            simp only [Payload.Holds]
            omega
        _ = a.memory.readBytes x.pointer (min x.size newSize) := by
            have hcopied := a.memory.readBytes_writeBytes fresh
              (a.memory.readBytes x.pointer (min x.size newSize))
            rwa [Memory.length_readBytes] at hcopied
        _ = r.arena.memory.readBytes x.pointer (min x.size newSize) := by
            refine Memory.readBytes_congr fun i hi => ?_
            refine (hkeeps.payload x hx (List.mem_cons_of_mem _ hx) old hold hstartOld).2 _ ?_
            simp only [Payload.Holds]
            omega

end Tracked

end HeapRun

end PaeKernel
