import Mathlib.Algebra.Order.Ring.Int

set_option autoImplicit false

/-! # The frame parser

`parser` finds the frames of an elementary stream and gives each to a writer. A frame that has not
arrived in full is kept in `frame_buffer_`, and completed there by the calls that follow. How a
frame is recognised is left to the classes that derive from `parser`.

A length `n` of the interface is an `unsigned int`, and `int remained = len` is its value as an
`int`. The other counters stay below the sizes of the buffers. An access outside the buffers, a copy
of a negative number of bytes included, is `none`.
-/

namespace DirectMedia

/-- The pure virtual functions of `parser`, given the bytes they may read. -/
structure Framing where
  getFrameOffset : List UInt8 → Int
  getFrameSize : List UInt8 → Int

/-- `parser`. -/
structure Parser where
  frameBuffer : List UInt8
  frameBufferSize : Int
  frameBufferFilled : Int := 0
  frameBufferRequired : Int := 0
  allocated : (frameBuffer.length : Int) = frameBufferSize

/-- An `unsigned int` as an `int`. -/
def asInt (n : Nat) : Int := if n < 2 ^ 31 then n else n - 2 ^ 32

theorem asInt_of_lt {n : Nat} (h : n < 2 ^ 31) : asInt n = n := if_pos h

theorem asInt_neg {n : Nat} (h : 2 ^ 31 ≤ n) (hn : n < 2 ^ 32) : asInt n < 0 := by
  unfold asInt
  rw [if_neg (by omega)]
  omega

namespace Parser

/-- What a call of `parse` returns, the parser after it, and what it gave to the writer, with what
the writer returned. -/
structure Parsed where
  result : Int
  parser : Parser
  written : Option (List UInt8 × Int) := none

/-- `clear`. -/
def clear (p : Parser) : Parser := { p with frameBufferFilled := 0, frameBufferRequired := 0 }

/-- `memcpy(frame_buffer_ + filled, src, n)`. -/
def memcpy (p : Parser) (filled : Int) (src : List UInt8) (n : Int) : Option Parser :=
  if h : 0 ≤ filled ∧ 0 ≤ n ∧ filled + n ≤ p.frameBufferSize ∧ n ≤ src.length then
    some
      { p with
        frameBuffer := p.frameBuffer.take filled.toNat ++ src.take n.toNat
          ++ p.frameBuffer.drop (filled + n).toNat
        allocated := by
          have := p.allocated
          simp only [List.length_append, List.length_take, List.length_drop]
          omega }
  else none

/-- `parse` with no frame in `frame_buffer_`. -/
def parseAligned (framing : Framing) (writer : List UInt8 → Int) (data : List UInt8) (p : Parser) :
    Option Parsed :=
  let offset := framing.getFrameOffset data
  if offset < 0 then some { result := asInt data.length, parser := p }
  else if data.length < offset then none
  else
    let pos := data.drop offset.toNat
    -- `int remained = len`: a chunk of `2 ^ 31` bytes or more is negative here
    let remained := asInt data.length - offset
    let size := framing.getFrameSize pos
    if size < 0 then some { result := asInt data.length, parser := p }
    else if size ≤ remained then
      let frame := pos.take size.toNat
      let written := writer frame
      -- a writer that refuses the frame gets it again with the next call
      if written < 0 then some { result := -1, parser := p, written := some (frame, written) }
      else if written = 0 then
        some { result := asInt data.length, parser := p, written := some (frame, written) }
      else some { result := offset + written, parser := p, written := some (frame, written) }
    -- a frame too large to be kept is skipped with the rest of the chunk
    else if size > p.frameBufferSize then some { result := asInt data.length, parser := p }
    else
      (p.memcpy 0 pos remained).map fun p =>
        { result := offset + remained
          parser := { p with
            frameBufferFilled := remained
            frameBufferRequired := size - remained } }

/-- `copy_to_frame_buffer`, with `remained` bytes of data. -/
def copyToFrameBuffer (p : Parser) (remained : Int) : Int :=
  if remained < p.frameBufferRequired then remained else p.frameBufferRequired

/-- `parse` with a part of a frame in `frame_buffer_`. -/
def parseMerged (writer : List UInt8 → Int) (data : List UInt8) (p : Parser) : Option Parsed := do
  let copy := p.copyToFrameBuffer (asInt data.length)
  let p ← p.memcpy p.frameBufferFilled data copy
  if copy < p.frameBufferRequired then
    some
      { result := copy
        parser := { p with
          frameBufferRequired := p.frameBufferRequired - copy
          frameBufferFilled := p.frameBufferFilled + copy } }
  else
    let frame := p.frameBuffer.take (p.frameBufferFilled + copy).toNat
    let written := writer frame
    if written < 0 then some { result := -1, parser := p, written := some (frame, written) }
    else if written = 0 then
      some { result := asInt data.length, parser := p.clear, written := some (frame, written) }
    else some { result := copy, parser := p.clear, written := some (frame, written) }

/-- `parse`. -/
def parse (framing : Framing) (writer : List UInt8 → Int) (data : List UInt8) (p : Parser) :
    Option Parsed :=
  if data.length = 0 then
    -- the end of the stream goes to the writer past what is kept
    some { result := writer data, parser := p, written := some (data, writer data) }
  else if p.frameBufferFilled = 0 then p.parseAligned framing writer data
  else p.parseMerged writer data

/-! ## What the parser keeps -/

/-- The parser keeps the bytes `part` of a frame and waits for `m` more. -/
structure Keeps (p : Parser) (part : List UInt8) (m : Nat) : Prop where
  filled : p.frameBufferFilled = part.length
  required : p.frameBufferRequired = m
  fits : (part.length + m : Int) ≤ p.frameBufferSize
  bytes : p.frameBuffer.take part.length = part

theorem frameBufferSize_nonneg (p : Parser) : 0 ≤ p.frameBufferSize := by
  have := p.allocated
  omega

theorem keeps_nil_iff {p : Parser} :
    p.Keeps [] 0 ↔ p.frameBufferFilled = 0 ∧ p.frameBufferRequired = 0 := by
  constructor
  · exact fun h => ⟨h.filled, h.required⟩
  · rintro ⟨hfilled, hrequired⟩
    exact ⟨hfilled, hrequired, by simpa using p.frameBufferSize_nonneg, rfl⟩

theorem keeps_clear (p : Parser) : p.clear.Keeps [] 0 := keeps_nil_iff.mpr ⟨rfl, rfl⟩

theorem memcpy_of_neg (p : Parser) (filled : Int) (src : List UInt8) {n : Int} (h : n < 0) :
    p.memcpy filled src n = none := by
  unfold memcpy
  rw [dif_neg]
  omega

/-- A copy behind what is in the buffer, inside both buffers. -/
theorem memcpy_behind {p : Parser} {part : List UInt8} (src : List UInt8) {n : Nat}
    (hpart : p.frameBuffer.take part.length = part)
    (hfits : (part.length + n : Int) ≤ p.frameBufferSize) (hn : n ≤ src.length) :
    ∃ q, p.memcpy part.length src n = some q ∧
      q.frameBuffer.take (part.length + n) = part ++ src.take n ∧
      q.frameBufferSize = p.frameBufferSize ∧ q.frameBufferFilled = p.frameBufferFilled ∧
      q.frameBufferRequired = p.frameBufferRequired := by
  have hcopy : (0 : Int) ≤ part.length ∧ (0 : Int) ≤ n ∧
      (part.length : Int) + n ≤ p.frameBufferSize ∧ (n : Int) ≤ src.length := by omega
  unfold memcpy
  rw [dif_pos hcopy]
  refine ⟨_, rfl, ?_, rfl, rfl, rfl⟩
  simp only [Int.toNat_natCast]
  rw [hpart, List.take_left' (by simp [hn])]

theorem memcpy_size {p q : Parser} {filled n : Int} {src : List UInt8}
    (h : p.memcpy filled src n = some q) : q.frameBufferSize = p.frameBufferSize := by
  unfold memcpy at h
  split at h
  · cases h
    rfl
  · cases h

theorem parseAligned_size {framing : Framing} {writer : List UInt8 → Int} {data : List UInt8}
    {p : Parser} {r : Parsed} (h : p.parseAligned framing writer data = some r) :
    r.parser.frameBufferSize = p.frameBufferSize := by
  unfold parseAligned at h
  extract_lets offset pos remained size frame written at h
  split_ifs at h
  · exact Option.some.inj h ▸ rfl
  · exact Option.some.inj h ▸ rfl
  · exact Option.some.inj h ▸ rfl
  · exact Option.some.inj h ▸ rfl
  · exact Option.some.inj h ▸ rfl
  · exact Option.some.inj h ▸ rfl
  · obtain ⟨q, hq, rfl⟩ := Option.map_eq_some_iff.mp h
    have hsize := memcpy_size hq
    exact hsize

theorem parseMerged_size {writer : List UInt8 → Int} {data : List UInt8} {p : Parser} {r : Parsed}
    (h : p.parseMerged writer data = some r) : r.parser.frameBufferSize = p.frameBufferSize := by
  obtain ⟨q, hq, h⟩ := Option.bind_eq_some_iff.mp h
  have hsize := memcpy_size hq
  extract_lets frame written at h
  split_ifs at h
  · exact Option.some.inj h ▸ hsize
  · exact Option.some.inj h ▸ hsize
  · exact Option.some.inj h ▸ hsize
  · exact Option.some.inj h ▸ hsize

/-- No call changes the size of the buffer. -/
theorem parse_size {framing : Framing} {writer : List UInt8 → Int} {data : List UInt8} {p : Parser}
    {r : Parsed} (h : p.parse framing writer data = some r) :
    r.parser.frameBufferSize = p.frameBufferSize := by
  unfold parse at h
  split_ifs at h
  · cases h
    rfl
  · exact parseAligned_size h
  · exact parseMerged_size h

/-! ## The calls

What `parse` does with data that it may be given, by what the parser keeps. -/

section Calls

variable (framing : Framing) (writer : List UInt8 → Int) {data part : List UInt8} {p : Parser}
  {m n : Nat}

theorem parse_aligned (h : p.Keeps [] 0) (hdata : data ≠ []) :
    p.parse framing writer data = p.parseAligned framing writer data := by
  have hlength : data.length ≠ 0 := fun h => hdata (List.length_eq_zero_iff.mp h)
  unfold parse
  rw [if_neg hlength, if_pos (keeps_nil_iff.mp h).1]

theorem parse_merged (h : p.Keeps part m) (hpart : part ≠ []) (hdata : data ≠ []) :
    p.parse framing writer data = p.parseMerged writer data := by
  have hlength : data.length ≠ 0 := fun h => hdata (List.length_eq_zero_iff.mp h)
  have hfilled : p.frameBufferFilled ≠ 0 := by
    have := List.length_pos_iff.mpr hpart
    rw [h.filled]
    omega
  unfold parse
  rw [if_neg hlength, if_neg hfilled]

/-- A frame that is there in full. -/
theorem parse_aligned_whole (h : p.Keeps [] 0) (hdata : data ≠ []) (hshort : data.length < 2 ^ 31)
    (hoffset : framing.getFrameOffset data = 0) (hsize : framing.getFrameSize data = n)
    (hn : n ≤ data.length) :
    p.parse framing writer data =
      let frame := data.take n
      some
        { result :=
            if writer frame < 0 then -1
            else if writer frame = 0 then data.length
            else writer frame
          parser := p
          written := some (frame, writer frame) } := by
  rw [parse_aligned framing writer h hdata]
  unfold parseAligned
  simp only [hoffset, hsize, asInt_of_lt hshort, Int.toNat_zero, List.drop_zero, Int.toNat_natCast]
  rw [if_neg (by omega), if_neg (by omega), if_neg (by omega), if_pos (by omega)]
  split_ifs
  · rfl
  · rfl
  · rw [Int.zero_add]

/-- A frame that is not there in full. -/
theorem parse_aligned_kept (h : p.Keeps [] 0) (hdata : data ≠ []) (hshort : data.length < 2 ^ 31)
    (hoffset : framing.getFrameOffset data = 0) (hsize : framing.getFrameSize data = n)
    (hn : data.length < n) (hfits : n ≤ p.frameBufferSize) :
    ∃ q, p.parse framing writer data = some { result := data.length, parser := q } ∧
      q.Keeps data (n - data.length) := by
  obtain ⟨q, hq, hbytes, hqsize, -, -⟩ := memcpy_behind data h.bytes
    (by simp only [List.length_nil]; omega) (Nat.le_refl data.length)
  rw [parse_aligned framing writer h hdata]
  unfold parseAligned
  simp only [hoffset, hsize, asInt_of_lt hshort, Int.toNat_zero, List.drop_zero, Int.sub_zero]
  rw [if_neg (by omega), if_neg (by omega), if_neg (by omega), if_neg (by omega), if_neg (by omega)]
  have hcopy : p.memcpy 0 data data.length = some q := hq
  rw [hcopy, Option.map_some, Int.zero_add]
  refine ⟨_, rfl, ?_, ?_, ?_, ?_⟩
  · rfl
  · simp only
    omega
  · simp only [hqsize]
    omega
  · simpa using hbytes

theorem copyToFrameBuffer_lt (h : p.Keeps part m) (hn : n < m) : p.copyToFrameBuffer n = n := by
  unfold copyToFrameBuffer
  rw [if_pos]
  rw [h.required]
  omega

theorem copyToFrameBuffer_ge (h : p.Keeps part m) (hn : m ≤ n) : p.copyToFrameBuffer n = m := by
  unfold copyToFrameBuffer
  rw [if_neg, h.required]
  rw [h.required]
  omega

/-- More of the frame, but not all that is missing. -/
theorem parse_merged_grown (h : p.Keeps part m) (hpart : part ≠ []) (hdata : data ≠ [])
    (hshort : data.length < 2 ^ 31) (hm : data.length < m) :
    ∃ q, p.parse framing writer data = some { result := data.length, parser := q } ∧
      q.Keeps (part ++ data) (m - data.length) := by
  have hfits := h.fits
  obtain ⟨q, hq, hbytes, hqsize, hfilled, hrequired⟩ :=
    memcpy_behind data h.bytes (by omega) (Nat.le_refl data.length)
  rw [parse_merged framing writer h hpart hdata]
  unfold parseMerged
  simp only [asInt_of_lt hshort, copyToFrameBuffer_lt h hm, h.filled]
  rw [hq, Option.bind_eq_bind, Option.bind_some, hrequired, h.required, if_pos (by omega)]
  refine ⟨_, rfl, ?_, ?_, ?_, ?_⟩
  · simp only [hfilled, h.filled, List.length_append]
    omega
  · simp only
    omega
  · simp only [hqsize, List.length_append]
    omega
  · simpa using hbytes

/-- All that is missing of the frame. -/
theorem parse_merged_whole (h : p.Keeps part m) (hpart : part ≠ []) (hdata : data ≠ [])
    (hshort : data.length < 2 ^ 31) (hm : m ≤ data.length) :
    ∃ q : Parser, q.Keeps part m ∧
      p.parse framing writer data =
        let frame := part ++ data.take m
        some
          { result :=
              if writer frame < 0 then -1 else if writer frame = 0 then data.length else m
            parser := if writer frame < 0 then q else q.clear
            written := some (frame, writer frame) } := by
  obtain ⟨q, hq, hbytes, hqsize, hfilled, hrequired⟩ := memcpy_behind data h.bytes h.fits hm
  have hframe : q.frameBuffer.take ((part.length : Int) + m).toNat = part ++ data.take m := by
    rw [← hbytes]
    rfl
  have hkept : q.frameBuffer.take part.length = part := by
    have := congrArg (List.take part.length) hbytes
    rwa [List.take_take, Nat.min_eq_left (Nat.le_add_right _ _), List.take_left] at this
  refine ⟨q, ⟨hfilled.trans h.filled, hrequired.trans h.required, hqsize ▸ h.fits, hkept⟩, ?_⟩
  rw [parse_merged framing writer h hpart hdata]
  unfold parseMerged
  simp only [asInt_of_lt hshort, copyToFrameBuffer_ge h hm, h.filled]
  rw [hq, Option.bind_eq_bind, Option.bind_some, hrequired, h.required, if_neg (by omega), hfilled,
    h.filled, hframe]
  split_ifs
  · rfl
  · rfl
  · rfl

/-! From `2 ^ 31` bytes on, `remained` is negative, and a frame that is there in full looks as if it
were not. -/

theorem parse_aligned_long (h : p.Keeps [] 0) (hlong : 2 ^ 31 ≤ data.length)
    (hlength : data.length < 2 ^ 32) (hoffset : framing.getFrameOffset data = 0)
    (hsize : framing.getFrameSize data = n) (hfits : n ≤ p.frameBufferSize) :
    p.parse framing writer data = none := by
  have hneg := asInt_neg hlong hlength
  have hdata : data ≠ [] := by
    rintro rfl
    simp at hlong
  rw [parse_aligned framing writer h hdata]
  unfold parseAligned
  simp only [hoffset, hsize, Int.toNat_zero, List.drop_zero, Int.sub_zero]
  rw [if_neg (by omega), if_neg (by omega), if_neg (by omega), if_neg (by omega), if_neg (by omega),
    memcpy_of_neg p 0 data hneg, Option.map_none]

theorem parse_merged_long (h : p.Keeps part m) (hpart : part ≠ []) (hlong : 2 ^ 31 ≤ data.length)
    (hlength : data.length < 2 ^ 32) : p.parse framing writer data = none := by
  have hneg := asInt_neg hlong hlength
  have hdata : data ≠ [] := by
    rintro rfl
    simp at hlong
  have hcopy : p.copyToFrameBuffer (asInt data.length) < 0 := by
    unfold copyToFrameBuffer
    rw [if_pos]
    · exact hneg
    · rw [h.required]
      omega
  rw [parse_merged framing writer h hpart hdata]
  unfold parseMerged
  simp only
  rw [memcpy_of_neg _ _ _ hcopy, Option.bind_eq_bind, Option.bind_none]

end Calls

end Parser

end DirectMedia
