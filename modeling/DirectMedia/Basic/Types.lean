import Mathlib.Logic.Function.Basic

set_option autoImplicit false

/-! # Public types and result codes

The enumerations and result codes of `include/ndl-directmedia2` that the player shares between
its parts: the stream type that indexes the per-stream arrays, the player status and the values
an operation returns.
-/

namespace DirectMedia

/-- `NDL_ESP_STREAM_T`, the index of the per-stream arrays of the player. -/
inductive StreamType where
  | audioEs
  | videoEs
  deriving DecidableEq, Repr

/-- The index of the other stream. -/
def StreamType.other : StreamType → StreamType
  | .audioEs => .videoEs
  | .videoEs => .audioEs

@[simp] theorem StreamType.other_ne (i : StreamType) : i.other ≠ i := by
  cases i <;> decide

@[simp] theorem StreamType.other_other (i : StreamType) : i.other.other = i := by
  cases i <;> rfl

theorem StreamType.eq_or_eq_other (i j : StreamType) : j = i ∨ j = i.other := by
  cases i <;> cases j <;> decide

/-- `NDL_ESP_PTS_UNITS`. -/
inductive PtsUnits where
  | ticks
  | microsecs
  deriving DecidableEq, Repr

/-- `NDL_ESP_STATUS`. -/
inductive Status where
  | idle
  | loaded
  | playing
  | paused
  | unloaded
  | flushing
  | stepping
  | eos
  deriving DecidableEq, Repr

/-! ## Result codes of `media-common.h` -/

def resultSuccess : Int := 0
def resultFail : Int := -1
def resultFeedFull : Int := -1
def resultFeedInvalidInput : Int := -1002
def resultFeedInvalidState : Int := -1003
def resultVideoUnsupported : Int := -2000
def resultVideoCodecError : Int := -2001
def resultVideoRenderError : Int := -2002
def resultVideoTunnelError : Int := -2003
def resultVideoBufferError : Int := -2004
def resultVideoStateError : Int := -2005
def resultAudioUnsupported : Int := -2100
def resultAudioCodecError : Int := -2101
def resultAudioRenderError : Int := -2102
def resultAudioBufferError : Int := -2104
def resultAudioStateError : Int := -2105
def resultClockError : Int := -2200
def resultClockStateError : Int := -2205
def resultSetStateError : Int := -2300

end DirectMedia
