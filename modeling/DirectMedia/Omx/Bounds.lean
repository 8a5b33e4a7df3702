import DirectMedia.Omx.FreeBuffers
import Mathlib.Algebra.Order.Ring.Int

set_option autoImplicit false

/-! # The bounds of a write into a buffer

`Port` counts lengths in natural numbers. Here the two writers count them as the code does:
`data_len` is an `int32_t`, `nAllocLen` and `nFilledLen` are `OMX_U32`, and `memcpy` takes a
`size_t` of `w` bits. `writeToFreeBuffer` compares the length with `nAllocLen` first;
`writeToConfigBuffer` does not, so it stays inside the buffer exactly for data that fits
(`write_inBounds_iff`).
-/

namespace DirectMedia

/-- A `uint32_t` handed over as an `int32_t`. -/
def int32 (n : Nat) : Int := Int.bmod n (2 ^ 32)

/-- An integer converted to an unsigned type of `w` bits. -/
def toUnsigned (w : Nat) (x : Int) : Nat := (x % 2 ^ w).toNat

theorem int32_of_lt {n : Nat} (h : n < 2 ^ 31) : int32 n = n := by
  unfold int32
  rw [Int.bmod_def]
  omega

theorem int32_eq_iff (n : Nat) : int32 n = n ↔ n < 2 ^ 31 := by
  refine ⟨fun h => ?_, int32_of_lt⟩
  unfold int32 at h
  rw [Int.bmod_def] at h
  split at h <;> omega

theorem toUnsigned_int32 {n : Nat} (h : n < 2 ^ 32) : toUnsigned 32 (int32 n) = n := by
  unfold toUnsigned int32
  rw [Int.bmod_def]
  split <;> omega

theorem toUnsigned_of_lt {w n : Nat} (hw : 32 ≤ w) (h : n < 2 ^ 32) : toUnsigned w n = n := by
  have hpow : (2 : Nat) ^ 32 ≤ 2 ^ w := Nat.pow_le_pow_right (by decide) hw
  have hlt : (n : Int) < 2 ^ w := by exact_mod_cast lt_of_lt_of_le h hpow
  rw [toUnsigned, Int.emod_eq_of_lt (by omega) hlt, Int.toNat_natCast]

/-! ## The writers -/

/-- What a writer does to the buffer it has found: the bytes `memcpy` copies to the start of
`pBuffer`, `nFilledLen`, and `data_len` when it calls `emptyBuffer`. -/
structure BufferWrite where
  copied : Nat
  filledLen : Nat
  dataLen : Int
  deriving DecidableEq, Repr

/-- `writeToFreeBuffer`, on a buffer with `nAllocLen` bytes. -/
def BufferWrite.toFreeBuffer (w allocLen : Nat) (dataLen : Int) : BufferWrite :=
  if allocLen ≥ toUnsigned 32 dataLen then
    { copied := toUnsigned w dataLen, filledLen := toUnsigned 32 dataLen, dataLen := dataLen }
  else
    { copied := allocLen, filledLen := allocLen, dataLen := int32 allocLen }

/-- `writeToConfigBuffer`: the size of the buffer only goes into the `memset` before. -/
def BufferWrite.toConfigBuffer (w _allocLen : Nat) (dataLen : Int) : BufferWrite :=
  { copied := toUnsigned w (toUnsigned 32 dataLen)
    filledLen := toUnsigned 32 dataLen
    dataLen := dataLen }

namespace Port

/-- A call of a writer: its result, and the buffer found with what was done to it. -/
def write (port : Port) (writer : Nat → Int → BufferWrite) (dataLen ret : Int) :
    Int × Option (Buffer × BufferWrite) :=
  match port.getFreeBuffer with
  | none => (-1, none)
  | some b =>
      let done := writer b.allocLen dataLen
      (if ret = 0 then done.dataLen else 0, some (b, done))

/-- No more than the buffer holds is copied or said to be filled, and the result of an accepted
submission is what was filled. -/
def InBounds (ret : Int) (r : Int × Option (Buffer × BufferWrite)) : Prop :=
  ∀ b done, r.2 = some (b, done) →
    done.copied ≤ b.allocLen ∧ done.filledLen ≤ b.allocLen ∧ (ret = 0 → r.1 = done.filledLen)

/-- A call is as good as the writer is on the buffer that is found. -/
theorem write_inBounds_iff_found (port : Port) (writer : Nat → Int → BufferWrite) (dataLen : Int) :
    (∀ ret, InBounds ret (port.write writer dataLen ret)) ↔
      ∀ b, port.getFreeBuffer = some b →
        (writer b.allocLen dataLen).copied ≤ b.allocLen ∧
          (writer b.allocLen dataLen).filledLen ≤ b.allocLen ∧
          (writer b.allocLen dataLen).dataLen = (writer b.allocLen dataLen).filledLen := by
  unfold InBounds write
  cases hfound : port.getFreeBuffer with
  | none => simp
  | some b =>
      constructor
      · rintro h _ ⟨⟩
        have := h 0 b _ rfl
        simpa using this
      · rintro h ret _ _ ⟨⟩
        obtain ⟨hcopied, hfilled, hlen⟩ := h b rfl
        exact ⟨hcopied, hfilled, fun hret => by simpa [hret] using hlen⟩

/-- **Bounds of the writes.** `writeToFreeBuffer` stays in bounds and returns what it has submitted
unless data and buffer both are of `2 ^ 31` bytes or more; `writeToConfigBuffer` does so only for
data that fits the buffer found. -/
theorem write_inBounds_iff (w : Nat) (hw : 32 ≤ w) (port : Port) (len : Nat) (hlen : len < 2 ^ 32) :
    ((∀ ret, InBounds ret (port.write (BufferWrite.toFreeBuffer w) (int32 len) ret)) ↔
        ∀ b, port.getFreeBuffer = some b → min len b.allocLen < 2 ^ 31) ∧
      ((∀ ret, InBounds ret (port.write (BufferWrite.toConfigBuffer w) (int32 len) ret)) ↔
        ∀ b, port.getFreeBuffer = some b → len ≤ b.allocLen ∧ len < 2 ^ 31) := by
  rw [write_inBounds_iff_found, write_inBounds_iff_found]
  have hunsigned := toUnsigned_int32 hlen
  constructor
  · refine forall₂_congr fun b _ => ?_
    rw [BufferWrite.toFreeBuffer, hunsigned]
    by_cases hfits : len ≤ b.allocLen
    · -- the test compares the unsigned length, `memcpy` gets the signed one
      rw [if_pos hfits, min_eq_left hfits, ← int32_eq_iff]
      dsimp only
      refine ⟨fun h => h.2.2, fun h => ⟨?_, hfits, h⟩⟩
      rw [h, toUnsigned_of_lt hw hlen]
      exact hfits
    · rw [if_neg hfits, min_eq_right (by omega), ← int32_eq_iff]
      dsimp only
      exact ⟨fun h => h.2.2, fun h => ⟨le_refl _, le_refl _, h⟩⟩
  · refine forall₂_congr fun b _ => ?_
    simp only [BufferWrite.toConfigBuffer, hunsigned, toUnsigned_of_lt hw hlen]
    rw [int32_eq_iff]
    exact ⟨fun h => h.2, fun h => ⟨h.1, h⟩⟩

/-- A port with a buffer of 16 bytes, behind one the component holds. -/
def portOfSixteen : Port := [{ allocLen := 8, status := .ownedByComponent }, { allocLen := 16 }]

theorem write_inBounds_iff_twelve :
    ((∀ ret, InBounds ret (portOfSixteen.write (BufferWrite.toFreeBuffer 64) (int32 12) ret)) ↔
        ∀ b, portOfSixteen.getFreeBuffer = some b → min 12 b.allocLen < 2 ^ 31) ∧
      ((∀ ret, InBounds ret (portOfSixteen.write (BufferWrite.toConfigBuffer 64) (int32 12) ret)) ↔
        ∀ b, portOfSixteen.getFreeBuffer = some b → 12 ≤ b.allocLen ∧ 12 < 2 ^ 31) :=
  write_inBounds_iff 64 (by decide) portOfSixteen 12 (by decide)

/-- Extradata of 20 bytes for that buffer: `memcpy` writes four bytes past its end. -/
theorem write_inBounds_fails :
    portOfSixteen.write (BufferWrite.toConfigBuffer 64) (int32 20) 0 =
        (20, some ({ allocLen := 16 }, ⟨20, 20, 20⟩)) ∧
      ¬ InBounds 0 (portOfSixteen.write (BufferWrite.toConfigBuffer 64) (int32 20) 0) :=
  ⟨by decide, fun h => absurd (h { allocLen := 16 } ⟨20, 20, 20⟩ (by decide)).1 (by decide)⟩

/-! ## What the port shows of it

For lengths below `2 ^ 31` the operations on `Port` return these results, and leave as many bytes in
the buffer as are copied. -/

/-- What `fill` leaves in a buffer is what `writeToFreeBuffer` does to it. -/
theorem toFreeBuffer_eq_fill {w : Nat} (hw : 32 ≤ w) (b : Buffer) {data : List UInt8}
    (hlen : data.length < 2 ^ 31) (pts : Int) (flags : BitVec 32) :
    BufferWrite.toFreeBuffer w b.allocLen (int32 data.length) =
      ⟨(fill b data pts flags).bytes.length, (fill b data pts flags).filledLen,
        (fill b data pts flags).filledLen⟩ := by
  rw [BufferWrite.toFreeBuffer, toUnsigned_int32 (by omega), int32_of_lt hlen,
    toUnsigned_of_lt hw (by omega), fill]
  by_cases hfits : b.allocLen ≥ data.length
  · rw [if_pos hfits, if_pos hfits]
  · rw [if_neg hfits, if_neg hfits, int32_of_lt (by omega), List.length_take,
      min_eq_left (by omega)]

/-- The port's `writeToFreeBuffer` is the writer's. -/
theorem writeToFreeBuffer_write {w : Nat} (hw : 32 ≤ w) (port : Port) {data : List UInt8}
    (hlen : data.length < 2 ^ 31) (pts : Int) (flags : BitVec 32) (ret : Int) :
    (port.writeToFreeBuffer data pts flags ret).1 =
        (port.write (BufferWrite.toFreeBuffer w) (int32 data.length) ret).1 ∧
      ∀ b', (port.writeToFreeBuffer data pts flags ret).2.2 = some b' → ∃ b,
        (port.write (BufferWrite.toFreeBuffer w) (int32 data.length) ret).2 =
          some (b, ⟨b'.bytes.length, b'.filledLen, b'.filledLen⟩) := by
  cases hfound : port.getFreeBuffer with
  | none => simp [writeToFreeBuffer_full hfound, write, hfound]
  | some b =>
      obtain ⟨hres, hsub⟩ := writeToFreeBuffer_fill hfound data pts flags ret
      simp only [write, hfound, toFreeBuffer_eq_fill hw b hlen pts flags]
      refine ⟨hres, fun b' hb' => ⟨b, ?_⟩⟩
      rw [hsub] at hb'
      split at hb'
      · cases hb'; rfl
      · cases hb'

/-- The port's `writeToConfigBuffer` is the writer's, too. -/
theorem writeToConfigBuffer_write {w : Nat} (hw : 32 ≤ w) {port : Port} {i : Nat} {b : Buffer}
    (hi : port.getFreeBufferIndex = some i) (hb : port[i]? = some b) {data : List UInt8}
    (hlen : data.length < 2 ^ 31) (ret : Int) :
    ∃ b', (port.writeToConfigBuffer data ret).2[i]? = some b' ∧
      port.write (BufferWrite.toConfigBuffer w) (int32 data.length) ret =
        ((port.writeToConfigBuffer data ret).1,
          some (b, ⟨b'.bytes.length, b'.filledLen, b'.filledLen⟩)) := by
  have hfound : port.getFreeBuffer = some b := Option.bind_eq_some_iff.mpr ⟨i, hi, hb⟩
  obtain ⟨hlt, _⟩ := List.getElem?_eq_some_iff.mp hb
  have hlen32 : data.length < 2 ^ 32 := by omega
  simp only [write, hfound, BufferWrite.toConfigBuffer, int32_of_lt hlen,
    toUnsigned_of_lt (le_refl 32) hlen32, toUnsigned_of_lt hw hlen32, writeToConfigBuffer, hi, hb,
    emptyBuffer]
  by_cases hret : ret = 0
  · simp [hret, hlt]
  · simp [hret, hlt]

end Port

end DirectMedia
