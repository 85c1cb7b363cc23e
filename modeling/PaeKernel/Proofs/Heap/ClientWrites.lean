import PaeKernel.Proofs.Heap.Payloads

/-!
# What clients write

A client writes bytes of its own payload, and all that is known of memory afterwards is that the
other bytes are as they were (`Memory.SameOutside`). The heap keeps its books in words that no
payload shares a byte with, so its cells, its blocks and its payloads stay.
-/

namespace PaeKernel

namespace Memory

variable {m m' : Memory} {p q : Payload} {address : Nat}

/-- A word is spelled by its eight bytes. -/
theorem encode_read (m : Memory) (address : Nat) :
    LittleEndian.encode 8 (m.read address) = m.readBytes (address / 8 * 8) 8 := by
  have hbyte : ∀ k ∈ List.range 8,
      m.readByte (address / 8 * 8 + k) = UInt8.ofNat (m.read address >>> (8 * k)) := by
    intro k hk
    have hlt := List.mem_range.1 hk
    have hword : (address / 8 * 8 + k) / 8 = address / 8 := by omega
    have hplace : (address / 8 * 8 + k) % 8 = k := by omega
    simp only [readByte, read, hword, hplace]
  rw [readBytes, List.map_congr_left hbyte]
  simp [LittleEndian.encode, List.range_succ, Nat.shiftRight_eq_div_pow, Nat.div_div_eq_div_mul]

theorem read_eq_of_readByte (h : ∀ b, b / 8 = address / 8 → m'.readByte b = m.readByte b) :
    m'.read address = m.read address := by
  have hbytes : m'.readBytes (address / 8 * 8) 8 = m.readBytes (address / 8 * 8) 8 := by
    refine List.map_congr_left fun k hk => h _ ?_
    have hlt := List.mem_range.1 hk
    omega
  have hword (n : Memory) : LittleEndian.decode (LittleEndian.encode 8 (n.read address))
      = n.read address := LittleEndian.decode_encode (n.read_lt address)
  rw [← hword m', encode_read, hbytes, ← encode_read, hword m]

/-- The second memory differs from the first in bytes of the payload at most. -/
def SameOutside (m m' : Memory) (q : Payload) : Prop :=
  ∀ address, ¬ q.Holds address → m'.readByte address = m.readByte address

theorem SameOutside.read_eq (h : m.SameOutside m' q) (hne : ∀ b, q.Holds b → b / 8 ≠ address / 8) :
    m'.read address = m.read address :=
  read_eq_of_readByte fun b hb => h b fun hholds => hne b hholds hb

theorem SameOutside.readByte_eq (h : m.SameOutside m' q) (hap : p.Apart q) (hp : p.Holds address) :
    m'.readByte address = m.readByte address := by
  refine h address ?_
  simp only [Payload.Apart, Payload.Holds] at *
  omega

theorem sameOutside_writeBytes {bytes : List UInt8} (hlow : q.start ≤ address)
    (hhigh : address + bytes.length ≤ q.start + q.bytes) :
    m.SameOutside (m.writeBytes address bytes) q := by
  intro b hout
  rw [readByte_writeBytes]
  split
  · rw [List.getElem?_eq_none, Option.getD_none]
    simp only [Payload.Holds] at hout
    omega
  · rfl

theorem sameOutside_writeByte (h : q.Holds address) (byte : UInt8) :
    m.SameOutside (m.writeByte address byte) q := by
  have hbytes : m.SameOutside (m.writeBytes address [byte]) q := sameOutside_writeBytes h.1 h.2
  exact hbytes

end Memory

namespace Arena

variable {a : Arena} {m : Memory} {cells : List (List Cell)} {q : Payload}

/-- What a client writes into its payload leaves the heap sound. -/
theorem Sound.client (h : a.Sound cells) (hap : Apart a.heap.spaces) (hq : q ∈ a.payloads)
    (hsame : a.memory.SameOutside m q) : { a with memory := m }.Sound cells := by
  refine ⟨?_, h.free, h.used, h.capacity⟩
  refine h.spaces.of_forall fun t ht nextBase own hown => hown.of_bookkeeping ?_
  intro j hj hlt
  exact hsame.read_eq fun b hholds => h.div_ne_of_holds hap hq ht hj hlt hholds

theorem Sound.payloads_client (h : a.Sound cells) (hap : Apart a.heap.spaces) (hq : q ∈ a.payloads)
    (hsame : a.memory.SameOutside m q) : payloads { a with memory := m } = a.payloads := by
  have hsound := h.client hap hq hsame
  rw [payloads, hsound.spaces.payloads_eq, payloads, h.spaces.payloads_eq]

end Arena

end PaeKernel
