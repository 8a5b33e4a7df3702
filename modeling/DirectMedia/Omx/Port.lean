import Mathlib.Data.List.Basic

set_option autoImplicit false

/-! # The buffers of a port

What `OmxClient` keeps for one port in `port_buffers_`: the buffer headers, each owned by the
client or by the component. The operations that hold `buffer_lock_` are functions on the list of
buffers; whether OMX accepts a submission is a parameter.
-/

namespace DirectMedia

/-- `OmxClient::BUFFER_STATUS`. -/
inductive BufferStatus where
  | ownedByClient
  | ownedByComponent
  deriving DecidableEq, Repr

/-- `OMX_BUFFERHEADERTYPE` with its `BufferInfo`: the allocated length, what was last written into
the buffer, and the owner. -/
structure Buffer where
  allocLen : Nat
  status : BufferStatus := .ownedByClient
  filledLen : Nat := 0
  flags : BitVec 32 := 0
  timeStamp : Int := 0
  bytes : List UInt8 := []
  deriving DecidableEq, Repr

def bufferFlagEos : BitVec 32 := 0x1
def bufferFlagStartTime : BitVec 32 := 0x2
def bufferFlagDecodeOnly : BitVec 32 := 0x4
def bufferFlagEndOfFrame : BitVec 32 := 0x10
def bufferFlagCodecConfig : BitVec 32 := 0x80

/-- `port_buffers_.at(port_index)`. -/
abbrev Port := List Buffer

namespace Port

/-- `getFreeBufferIndex`; `-1` is `none`. -/
def getFreeBufferIndex (port : Port) : Option Nat :=
  port.findIdx? fun b => b.status = .ownedByClient

/-- `getFreeBufferCount`. -/
def getFreeBufferCount (port : Port) : Nat := port.countP fun b => b.status = .ownedByClient

/-- `getUsedBufferCount`. -/
def getUsedBufferCount (port : Port) : Nat := port.countP fun b => b.status = .ownedByComponent

/-- `emptyBuffer` on a free buffer whose header has been written: it goes to the component if OMX
accepts it (`ret` is `OMX_ErrorNone`). -/
def emptyBuffer (port : Port) (index : Nat) (ret : Int) : Port :=
  if ret = 0 then port.modify index fun b => { b with status := .ownedByComponent } else port

/-- The header `writeToFreeBuffer` writes into a buffer: data that does not fit is cut off, and
the buffer then does not end a frame. -/
def fill (b : Buffer) (data : List UInt8) (pts : Int) (flags : BitVec 32) : Buffer :=
  if b.allocLen ≥ data.length then
    { b with filledLen := data.length, flags := flags, bytes := data, timeStamp := pts }
  else
    { b with
      filledLen := b.allocLen
      flags := flags &&& ~~~bufferFlagEndOfFrame
      bytes := data.take b.allocLen
      timeStamp := pts }

/-- `writeToFreeBuffer`: the result, the port afterwards, and the buffer submitted. -/
def writeToFreeBuffer (port : Port) (data : List UInt8) (pts : Int) (flags : BitVec 32)
    (ret : Int) : Int × Port × Option Buffer :=
  match port.getFreeBufferIndex with
  | none => (-1, port, none)
  | some i =>
      match port[i]? with
      | none => (-1, port, none)
      | some b =>
          let b := fill b data pts flags
          -- a buffer that OMX refuses stays free, with the header written
          let port := emptyBuffer (port.set i b) i ret
          if ret = 0 then (b.filledLen, port, some b) else (0, port, none)

/-- `writeToConfigBuffer`: `memcpy` copies all of `data`, whatever the size of the buffer. -/
def writeToConfigBuffer (port : Port) (data : List UInt8) (ret : Int) : Int × Port :=
  match port.getFreeBufferIndex with
  | none => (-1, port)
  | some i =>
      match port[i]? with
      | none => (-1, port)
      | some b =>
          let b := { b with
            filledLen := data.length
            flags := bufferFlagCodecConfig ||| bufferFlagEndOfFrame
            bytes := data }
          let port := emptyBuffer (port.set i b) i ret
          if ret = 0 then (data.length, port) else (0, port)

/-- `emptyBufferDone`: a buffer the component held is free again. -/
def emptyBufferDone (port : Port) (index : Nat) : Port :=
  port.modify index fun b =>
    if b.status = .ownedByClient then b else { b with status := .ownedByClient }

theorem exists_free {port : Port} (h : 0 < port.getFreeBufferCount) :
    ∃ i b, port.getFreeBufferIndex = some i ∧ port[i]? = some b := by
  obtain ⟨b, hb, hfree⟩ := List.countP_pos_iff.mp h
  have hsome : (port.findIdx? fun b => b.status = .ownedByClient).isSome := by
    rw [List.findIdx?_isSome, List.any_eq_true]
    exact ⟨b, hb, hfree⟩
  obtain ⟨i, hi⟩ := Option.isSome_iff_exists.mp hsome
  obtain ⟨hlt, _⟩ := List.findIdx?_eq_some_iff_getElem.mp hi
  exact ⟨i, port[i], hi, List.getElem?_eq_getElem hlt⟩

/-- With a free buffer, an accepted submission brings a buffer and no error. -/
theorem writeToFreeBuffer_accepted {port : Port} (h : 0 < port.getFreeBufferCount)
    (data : List UInt8) (pts : Int) (flags : BitVec 32) :
    0 ≤ (port.writeToFreeBuffer data pts flags 0).1 ∧
      ∃ b, (port.writeToFreeBuffer data pts flags 0).2.2 = some b := by
  obtain ⟨i, b, hi, hb⟩ := exists_free h
  simp only [writeToFreeBuffer, hi, hb, if_true]
  exact ⟨by omega, _, rfl⟩

/-- Nothing is submitted where no buffer is free or OMX refuses it. -/
theorem writeToFreeBuffer_none_iff (port : Port) (data : List UInt8) (pts : Int)
    (flags : BitVec 32) (ret : Int) : (port.writeToFreeBuffer data pts flags ret).2.2 = none ↔
      port.getFreeBufferCount = 0 ∨ ret ≠ 0 := by
  by_cases hret : ret = 0
  · subst hret
    rw [or_iff_left (by simp)]
    constructor
    · intro hnone
      by_contra hfree
      obtain ⟨-, b, hb⟩ := writeToFreeBuffer_accepted (Nat.pos_of_ne_zero hfree) data pts flags
      rw [hb] at hnone
      cases hnone
    · intro hfull
      have hindex : port.getFreeBufferIndex = none := by
        rw [getFreeBufferIndex, List.findIdx?_eq_none_iff]
        simpa [getFreeBufferCount] using hfull
      simp only [writeToFreeBuffer, hindex]
  · refine iff_of_true ?_ (.inr hret)
    unfold writeToFreeBuffer
    split
    case h_1 => rfl
    case h_2 =>
        split
        case h_1 => rfl
        case h_2 => rw [if_neg hret]

/-- A returned buffer takes no free buffer away. -/
theorem getFreeBufferCount_emptyBufferDone (port : Port) (index : Nat) :
    port.getFreeBufferCount ≤ (port.emptyBufferDone index).getFreeBufferCount := by
  unfold getFreeBufferCount emptyBufferDone
  induction port generalizing index with
  | nil => simp
  | cons b port ih =>
      cases index with
      | zero =>
          simp only [List.modify_zero_cons, List.countP_cons]
          split <;> simp_all
      | succ index =>
          simp only [List.modify_succ_cons, List.countP_cons]
          have := ih index
          omega

end Port

end DirectMedia
