import PaeKernel.Boot.Entry

/-!
# The memory map is a run of written entries

Bytes make a memory map exactly if they are entries written one after another, and the regions of
the map are those of the entries. Bytes that are no such run still start with a longest one: they
are refused at its end, for what follows there (`refusal`). The check and the reader of regions walk
over the bytes each on their own; both are followed by induction on the entries.
-/

namespace PaeKernel

open LittleEndian (decode decode_lt encode_decode read? read?_append read?_eq_none_iff)

theorem LittleEndian.decode_lt_of_length {count : Nat} {bytes : List UInt8}
    (h : bytes.length = count) : decode bytes < 1 <<< (8 * count) :=
  h ▸ decode_lt bytes

theorem LittleEndian.encode_decode_of_length {count : Nat} {bytes : List UInt8}
    (h : bytes.length = count) : encode count (decode bytes) = bytes :=
  h ▸ encode_decode bytes

namespace MapEntry

variable {bytes rest : List UInt8} {entries : List MapEntry} {size : Nat}

/-- The bytes of entries written one after another. -/
def encodeAll (entries : List MapEntry) : List UInt8 := entries.flatMap encode

@[simp] theorem encodeAll_nil : encodeAll [] = [] := rfl

@[simp] theorem encodeAll_cons (e : MapEntry) (entries : List MapEntry) :
    encodeAll (e :: entries) = e.encode ++ encodeAll entries :=
  List.flatMap_cons

@[simp] theorem encodeAll_append (first second : List MapEntry) :
    encodeAll (first ++ second) = encodeAll first ++ encodeAll second :=
  List.flatMap_append

/-! ### Whole entries at the start of bytes -/

theorem exists_split {count : Nat} (h : count ≤ bytes.length) :
    ∃ first rest, bytes = first ++ rest ∧ first.length = count :=
  ⟨bytes.take count, bytes.drop count, (List.take_append_drop count bytes).symm,
    by rw [List.length_take]; omega⟩

/-- Bytes that declare a size of at least 20 and are long enough for it start with a whole entry. -/
theorem exists_encode (hsize : read? 4 bytes = some size) (hmin : 20 ≤ size)
    (hlen : 4 + size ≤ bytes.length) : ∃ (e : MapEntry) (tail : _), bytes = e.encode ++ tail := by
  obtain ⟨word, b₁, rfl, hword⟩ := exists_split (show 4 ≤ bytes.length by omega)
  rw [read?_append hword] at hsize
  obtain rfl := Option.some.inj hsize
  have hlimit : decode word < registerLimit := LittleEndian.decode_lt_of_length hword
  rw [List.length_append] at hlen
  obtain ⟨base, b₂, rfl, hbase⟩ := exists_split (show 8 ≤ b₁.length by omega)
  rw [List.length_append] at hlen
  obtain ⟨length, b₃, rfl, hlength⟩ := exists_split (show 8 ≤ b₂.length by omega)
  rw [List.length_append] at hlen
  obtain ⟨kind, b₄, rfl, hkind⟩ := exists_split (show 4 ≤ b₃.length by omega)
  rw [List.length_append] at hlen
  obtain ⟨padding, tail, rfl, hpadding⟩ :=
    exists_split (show decode word - 20 ≤ b₄.length by omega)
  have hsum : 20 + padding.length = decode word := by omega
  refine ⟨⟨decode base, decode length, decode kind, padding,
    LittleEndian.decode_lt_of_length hbase, LittleEndian.decode_lt_of_length hlength,
    LittleEndian.decode_lt_of_length hkind, hsum ▸ hlimit⟩, tail, ?_⟩
  simp only [encode, MapEntry.size, hsum, List.append_assoc,
    LittleEndian.encode_decode_of_length hword, LittleEndian.encode_decode_of_length hbase,
    LittleEndian.encode_decode_of_length hlength, LittleEndian.encode_decode_of_length hkind]

/-- An entry says itself where it ends. -/
theorem encode_append_inj {e e' : MapEntry} {rest' : List UInt8}
    (h : e.encode ++ rest = e'.encode ++ rest') : e.encode = e'.encode ∧ rest = rest' := by
  have hfirst := e.firstRegion?_encode rest
  rw [h, e'.firstRegion?_encode rest'] at hfirst
  have hsize : e'.size = e.size := (Prod.mk.inj (Option.some.inj hfirst)).1
  exact List.append_inj h (by rw [length_encode, length_encode, hsize])

/-- There are bytes left, and they start with no whole entry. -/
def Cut (rest : List UInt8) : Prop := rest ≠ [] ∧ ∀ (e : MapEntry) tail, rest ≠ e.encode ++ tail

/-- The entries are all whole ones that the bytes start with, and `rest` is what comes then. -/
structure Longest (bytes : List UInt8) (entries : List MapEntry) (rest : List UInt8) : Prop where
  split : bytes = encodeAll entries ++ rest
  longest : ∀ entries' rest', bytes = encodeAll entries' ++ rest' →
    (encodeAll entries').length ≤ (encodeAll entries).length

theorem Cut.longest (h : Cut rest) (entries : List MapEntry) :
    Longest (encodeAll entries ++ rest) entries rest := by
  refine ⟨rfl, ?_⟩
  induction entries with
  | nil =>
    intro entries' rest' heq
    cases entries' with
    | nil => exact Nat.le_refl _
    | cons e' more =>
      rw [encodeAll_cons, List.append_assoc] at heq
      exact absurd heq (h.2 e' _)
  | cons e entries ih =>
    intro entries' rest' heq
    cases entries' with
    | nil => exact Nat.zero_le _
    | cons e' more =>
      rw [encodeAll_cons, encodeAll_cons, List.append_assoc, List.append_assoc] at heq
      obtain ⟨hsame, hrest⟩ := encode_append_inj heq
      have hle := ih more rest' hrest
      rw [encodeAll_cons, encodeAll_cons, List.length_append, List.length_append, hsame]
      omega

end MapEntry

namespace MemoryMap

open MapEntry (encodeAll encodeAll_nil encodeAll_cons encodeAll_append Cut Longest exists_encode)

variable {bytes rest : List UInt8} {entries : List MapEntry} {size : Nat}

/-! ### The check -/

/-- Why bytes that start with no whole entry are refused; `offset` counts the bytes before them. -/
def refusal (offset : Nat) (rest : List UInt8) : MemoryMapError :=
  if 4 ≤ rest.length ∧ decode (rest.take 4) < 20 then .entryTooSmall offset (decode (rest.take 4))
  else .truncated offset

theorem checkFrom_encode (offset : Nat) (e : MapEntry) (rest : List UInt8) :
    checkFrom offset (e.encode ++ rest) = checkFrom (offset + (4 + e.size)) rest := by
  have hlen : (e.encode ++ rest).length = 4 + e.size + rest.length := by
    rw [List.length_append, MapEntry.length_encode]
  have hne : (e.encode ++ rest).isEmpty = false := by
    rw [List.isEmpty_eq_false_iff, ← List.length_pos_iff]
    omega
  have hsize : e.size < 1 <<< (8 * 4) := e.padding_lt
  have hread : read? sizeBytes (e.encode ++ rest) = some e.size := by
    rw [MapEntry.encode, List.append_assoc]
    exact MapEntry.read?_encode hsize _
  have hdrop : (e.encode ++ rest).drop (sizeBytes + e.size) = rest := by
    rw [sizeBytes, ← MapEntry.length_encode, List.drop_left]
  rw [checkFrom, hne, if_neg Bool.false_ne_true, hread]
  dsimp only
  rw [if_neg (by simp only [entryBytes, MapEntry.size]; omega),
    if_neg (by rw [List.length_take, hlen, sizeBytes]; omega), hdrop, sizeBytes]

theorem checkFrom_encodeAll (offset : Nat) (entries : List MapEntry) (rest : List UInt8) :
    checkFrom offset (encodeAll entries ++ rest)
      = checkFrom (offset + (encodeAll entries).length) rest := by
  induction entries generalizing offset with
  | nil => rfl
  | cons e entries ih =>
    rw [encodeAll_cons, List.append_assoc, checkFrom_encode, ih, List.length_append,
      MapEntry.length_encode, Nat.add_assoc]

theorem checkFrom_cut (h : Cut rest) (offset : Nat) :
    checkFrom offset rest = .error (refusal offset rest) := by
  rw [checkFrom, List.isEmpty_eq_false_iff.2 h.1, if_neg Bool.false_ne_true]
  cases hread : read? sizeBytes rest with
  | none =>
    have hshort : rest.length < 4 := read?_eq_none_iff.1 hread
    rw [refusal, if_neg (by omega)]
  | some size =>
    have hfour : 4 ≤ rest.length := by
      have hne := mt read?_eq_none_iff.2 (hread ▸ Option.some_ne_none size)
      exact Nat.le_of_not_lt hne
    have hword : decode (rest.take 4) = size := by
      rw [read?, sizeBytes, if_pos (by rw [List.length_take]; omega)] at hread
      exact Option.some.inj hread
    dsimp only
    by_cases hsmall : size < entryBytes
    · rw [refusal, hword, if_pos hsmall, if_pos ⟨hfour, hsmall⟩]
    · have hlen : rest.length < 4 + size := by
        refine Nat.lt_of_not_le fun hlong => ?_
        obtain ⟨e, tail, hwhole⟩ := exists_encode hread (Nat.le_of_not_lt hsmall) hlong
        exact h.2 e tail hwhole
      rw [refusal, hword, if_neg hsmall, if_pos (by rw [List.length_take, sizeBytes]; omega),
        if_neg fun hand => hsmall hand.2]

/-- All bytes are a run of entries and then none, or bytes that start with no whole entry. -/
theorem exists_entries (bytes : List UInt8) :
    ∃ entries rest, bytes = encodeAll entries ++ rest ∧ (rest = [] ∨ Cut rest) := by
  induction hn : bytes.length using Nat.strongRecOn generalizing bytes with
  | ind n ih =>
    by_cases hempty : bytes = []
    · exact ⟨[], bytes, rfl, .inl hempty⟩
    · by_cases hcut : ∃ (e : MapEntry) (tail : _), bytes = e.encode ++ tail
      · obtain ⟨e, tail, rfl⟩ := hcut
        rw [List.length_append, MapEntry.length_encode] at hn
        obtain ⟨entries, rest, rfl, hrest⟩ := ih tail.length (by omega) tail rfl
        exact ⟨e :: entries, rest, by rw [encodeAll_cons, List.append_assoc], hrest⟩
      · exact ⟨[], bytes, rfl, .inr ⟨hempty, fun e tail heq => hcut ⟨e, tail, heq⟩⟩⟩

/-! ### The regions -/

theorem regionsOf_encode (e : MapEntry) (rest : List UInt8) :
    regionsOf (e.encode ++ rest) = e.region :: regionsOf rest := by
  rw [regionsOf]
  split
  · rename_i hnone
    rw [e.firstRegion?_encode rest] at hnone
    cases hnone
  · rename_i size region hsome
    rw [e.firstRegion?_encode rest] at hsome
    cases hsome
    rw [sizeBytes, ← MapEntry.length_encode, List.drop_left]

theorem regionsOf_encodeAll (entries : List MapEntry) :
    regionsOf (encodeAll entries) = entries.map MapEntry.region := by
  induction entries with
  | nil =>
    rw [encodeAll_nil, regionsOf]
    rfl
  | cons e entries ih => rw [encodeAll_cons, regionsOf_encode, ih, List.map_cons]

/-- Where the reader of regions stands on its way: it reads each entry at its place, all of it
inside the bytes, and finds nothing more at their end. -/
structure Walked (bytes : List UInt8) (entries : List MapEntry) : Prop where
  entry : ∀ before e after, entries = before ++ e :: after →
    firstRegion? (bytes.drop (encodeAll before).length) = some (e.size, e.region)
      ∧ (encodeAll before).length + (4 + e.size) + (encodeAll after).length = bytes.length
  stop : firstRegion? (bytes.drop bytes.length) = none

theorem walked_encodeAll (entries : List MapEntry) : Walked (encodeAll entries) entries where
  entry := by
    rintro before e after rfl
    rw [encodeAll_append, encodeAll_cons, List.drop_left, e.firstRegion?_encode,
      List.length_append, List.length_append, MapEntry.length_encode]
    exact ⟨rfl, Nat.add_assoc _ _ _⟩
  stop := by
    rw [List.drop_length]
    rfl

/-! ### Whole memory maps -/

theorem ofBytes_of_ok (h : checkFrom 0 bytes = .ok ()) :
    ∃ map, ofBytes bytes = .ok map ∧ map.bytes = bytes := by
  refine ⟨⟨bytes, h⟩, ?_, rfl⟩
  unfold ofBytes
  split
  · rename_i err herr
    rw [h] at herr
    cases herr
  · rfl

theorem ofBytes_of_error {err : MemoryMapError} (h : checkFrom 0 bytes = .error err) :
    ofBytes bytes = .error err := by
  unfold ofBytes
  split
  · rename_i err' herr
    rw [h] at herr
    exact congrArg Except.error (Except.error.inj herr).symm
  · rename_i hok
    rw [h] at hok
    cases hok

/-- Bytes are a memory map exactly if they are written entries one after another. The map then has
the regions of these entries in order, and other bytes are refused where the longest run of whole
entries that they start with ends. -/
theorem ofBytes_grammar (bytes : List UInt8) :
    ((∃ map, ofBytes bytes = .ok map) ↔ ∃ entries, bytes = encodeAll entries)
    ∧ (∀ map entries, ofBytes bytes = .ok map → bytes = encodeAll entries →
      map.regions = entries.map MapEntry.region ∧ Walked bytes entries)
    ∧ ((¬ ∃ entries, bytes = encodeAll entries) → ∃ entries rest, Longest bytes entries rest
      ∧ ofBytes bytes = .error (refusal (encodeAll entries).length rest)) := by
  have haccepted : ∀ entries, bytes = encodeAll entries →
      ∃ map, ofBytes bytes = .ok map ∧ map.bytes = bytes := by
    rintro entries rfl
    have hcheck := checkFrom_encodeAll 0 entries []
    have hnil : checkFrom (0 + (encodeAll entries).length) [] = .ok () := by rw [checkFrom]; rfl
    rw [List.append_nil, hnil] at hcheck
    exact ofBytes_of_ok hcheck
  have hrefused : ∀ entries rest, bytes = encodeAll entries ++ rest → Cut rest →
      ofBytes bytes = .error (refusal (encodeAll entries).length rest) := by
    rintro entries rest rfl hcut
    have hcheck := checkFrom_encodeAll 0 entries rest
    rw [checkFrom_cut hcut, Nat.zero_add] at hcheck
    exact ofBytes_of_error hcheck
  obtain ⟨entries, rest, hsplit, hrest⟩ := exists_entries bytes
  refine ⟨⟨?_, ?_⟩, ?_, ?_⟩
  · rintro ⟨map, hmap⟩
    rcases hrest with rfl | hcut
    · exact ⟨entries, by rw [hsplit, List.append_nil]⟩
    · rw [hrefused entries rest hsplit hcut] at hmap
      cases hmap
  · rintro ⟨entries, hentries⟩
    obtain ⟨map, hmap, -⟩ := haccepted entries hentries
    exact ⟨map, hmap⟩
  · intro map entries hmap hentries
    obtain ⟨map', hmap', hbytes⟩ := haccepted entries hentries
    rw [hmap] at hmap'
    cases hmap'
    rw [regions, hbytes, hentries]
    exact ⟨regionsOf_encodeAll entries, walked_encodeAll entries⟩
  · intro hno
    rcases hrest with rfl | hcut
    · exact absurd ⟨entries, by rw [hsplit, List.append_nil]⟩ hno
    · exact ⟨entries, rest, hsplit ▸ hcut.longest entries, hrefused entries rest hsplit hcut⟩

/-- The memory map that entries are written as. -/
def ofEntries (entries : List MapEntry) : MemoryMap where
  bytes := encodeAll entries
  checked := by
    have hcheck := checkFrom_encodeAll 0 entries []
    rw [List.append_nil] at hcheck
    rw [hcheck, checkFrom]
    rfl

theorem regions_ofEntries (entries : List MapEntry) :
    (ofEntries entries).regions = entries.map MapEntry.region :=
  regionsOf_encodeAll entries

end MemoryMap

end PaeKernel
