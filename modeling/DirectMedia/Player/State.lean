import DirectMedia.Lib.Prog
import DirectMedia.Message.Looper
import DirectMedia.Omx.Port
import DirectMedia.Pts.Adjust
import Mathlib.Logic.Function.Basic

set_option autoImplicit false

/-! # The player

The members of `Esplayer` that its operations read, the status table and the calls the operations
make on components, clock and resource manager. What such a call returns is outside the player:
every operation takes an `Env` that answers each of its calls.

A component is `none` while its pointer is null. Every call through a pointer is a `use` event that
says whether the pointer was set, so a null dereference is visible in the trace.
-/

namespace DirectMedia

/-! ## Metadata -/

/-- `NDL_ESP_VIDEO_CODEC`. -/
inductive VideoCodec where
  | none
  | h262
  | h264
  | h265
  | mpeg
  | mvc
  | svc
  | vp8
  | vp9
  | rm
  | avs
  | mjpeg
  deriving DecidableEq, Repr

/-- `NDL_ESP_AUDIO_CODEC`. -/
inductive AudioCodec where
  | none
  | mp2
  | mp3
  | ac3
  | eac3
  | aac
  | heaac
  | pcm44100
  | pcm48000
  deriving DecidableEq, Repr

/-- `NDL_ESP_META_DATA`. -/
structure MetaData where
  videoCodec : VideoCodec := .none
  audioCodec : AudioCodec := .none
  framerate : Nat := 0
  width : Nat := 0
  height : Nat := 0
  extradata : List UInt8 := []
  channels : Nat := 0
  samplerate : Nat := 0
  blockalign : Nat := 0
  bitrate : Nat := 0
  bitspersample : Nat := 0
  deriving DecidableEq, Repr

/-- The `AVCodecID` values that `load` chooses between. -/
inductive AvCodecId where
  | none
  | mp2
  | mp3
  | ac3
  | eac3
  | aac
  | aacLatm
  | pcmS16le
  deriving DecidableEq, Repr

/-- The `switch` of `load`. -/
def AudioCodec.codecId : AudioCodec → AvCodecId
  | .mp2 => .mp2
  | .mp3 => .mp3
  | .ac3 => .ac3
  | .eac3 => .eac3
  | .aac => .aac
  | .heaac => .aacLatm
  | .pcm44100 | .pcm48000 => .pcmS16le
  | .none => .none

/-! ## Components -/

/-- The members that hold a component or the clock. -/
inductive ComponentName where
  | clock
  | videoCodec
  | videoRenderer
  | videoScheduler
  | audioCodec
  | audioRenderer
  deriving DecidableEq, Repr

/-- `OMX_STATETYPE`. -/
inductive OmxState where
  | invalid
  | loaded
  | idle
  | executing
  | pause
  | waitForResources
  deriving DecidableEq, Repr

/-- A `Component`, or the one inside `OmxClock`: its OMX state, the configured size and number of
its input buffers, and the buffers of its input port. -/
structure Component where
  state : OmxState := .loaded
  inputBufferCount : Nat := 0
  inputBufferSize : Nat := 0
  input : Port := []
  deriving DecidableEq, Repr

/-- The port of a component, or of the clock, that a call is about. -/
inductive PortIndex where
  | input
  | output
  /-- `PORT_CLOCK_AUDIO`, 80 -/
  | clockAudio
  /-- `PORT_CLOCK_VIDEO`, 81 -/
  | clockVideo
  deriving DecidableEq, Repr

/-- The parameters and configurations that are set or read. -/
inductive OmxIndex where
  | configRequestCallback
  | paramBrcmVideoDecodeErrorConcealment
  | paramAudioPcm
  | configBrcmClockReferenceSource
  | configBrcmAudioDestination
  | paramPortDefinition
  | configDisplayRegion
  deriving DecidableEq, Repr

/-- The calls an operation makes on something outside the player: on the resource manager, the
software decoder, a component under construction or a component. An operation makes no call
twice. -/
inductive Call where
  | acquireResources
  | releaseResource
  | openAudio
  | create (c : ComponentName)
  | setState (c : ComponentName) (state : OmxState)
  | setVideoFormat
  | setAudioCodecFormat
  /-- with the input buffer size of the component `size` -/
  | configureInputBuffers (c size : ComponentName)
  | configureOutputBuffers (c : ComponentName)
  | allocateInputBuffer (c : ComponentName)
  | waitForPortEnable (c : ComponentName) (port : PortIndex)
  | enablePort (c : ComponentName) (port : PortIndex)
  | freeBuffer (c : ComponentName)
  /-- `clock_->connectComponent`, with the component `c` -/
  | connectComponent (c : ComponentName)
  | setupTunnel (c : ComponentName)
  | setParam (c : ComponentName) (index : OmxIndex)
  | getParam (c : ComponentName) (index : OmxIndex)
  | setConfig (c : ComponentName) (index : OmxIndex)
  | writeToConfigBuffer (c : ComponentName) (data : List UInt8)
  | flush (c : ComponentName)
  | setPlaybackRate (rate : Int)
  | setWaitingForStartTime (portMask : Nat)
  | setStopped
  | stepFrame
  deriving DecidableEq, Repr

/-- The pointer a call is made through. -/
def Call.target : Call → Option ComponentName
  | .acquireResources | .releaseResource | .openAudio | .create _ => none
  | .setVideoFormat => some .videoCodec
  | .setAudioCodecFormat => some .audioCodec
  | .connectComponent _ | .setPlaybackRate _ | .setWaitingForStartTime _ | .setStopped
  | .stepFrame => some .clock
  | .setState c _ | .configureInputBuffers c _ | .configureOutputBuffers c
  | .allocateInputBuffer c | .waitForPortEnable c _ | .enablePort c _ | .freeBuffer c
  | .setupTunnel c | .setParam c _ | .getParam c _ | .setConfig c _ | .writeToConfigBuffer c _
  | .flush c => some c

/-- What the calls of an operation return. -/
abbrev Env := Call → Int

/-! ## Frames and synchronisation -/

/-- `NDL_ESP_STREAM_BUFFER`; `data_len` is the length of `data`. -/
structure StreamBuffer where
  data : List UInt8 := []
  offset : Nat := 0
  streamType : StreamType
  timestamp : Int := 0
  flags : BitVec 32 := 0
  deriving DecidableEq, Repr

/-- An entry of `stream_buff_queue_`, named by the number of its push. -/
structure Frame extends StreamBuffer where
  id : Nat
  deriving DecidableEq, Repr

/-- `Esplayer::syncState`. -/
inductive SyncState where
  | allowVideo
  | holdVideo
  | skipVideo
  deriving DecidableEq, Repr

/-! ## The player -/

/-- `Esplayer`. The arrays and the audio/video pairs of members are functions of the stream. -/
structure Esplayer where
  status : Status := .idle
  loaded : Bool := false
  component : ComponentName → Option Component := fun _ => none
  swDecoder : Option AvCodecId := none
  resources : Bool := false
  md : MetaData := {}
  enableAudio : Bool := false
  enableVideo : Bool := false
  ptsUnits : PtsUnits := .ticks
  pts : PtsState := .init
  lastPts : StreamType → Int := fun _ => 0
  eos : StreamType → Bool := fun _ => false
  syncState : SyncState := .allowVideo
  isFirstPortSettingChange : Bool := true
  trickMode : Bool := false
  targetPlaybackRate : Int := 1000
  scale : Option Int := none
  frames : StreamType → List Frame := fun _ => []
  pushed : Nat := 0
  renderer : StreamType → Looper := fun _ => .init 0
  messages : StreamType → Looper := fun _ => .init 0
  callback : Bool := true

/-- What an operation shows. -/
inductive Event where
  /-- an entry check has passed -/
  | admitted
  /-- the value of `loaded_` read at an entry check -/
  | loadedRead (loaded : Bool)
  /-- a call through a component pointer, set or null -/
  | use (c : ComponentName) (held : Bool)
  /-- a call of `State::transit` -/
  | transit (old new : Status)
  /-- the frame `getBufQueue` returned -/
  | got (i : StreamType) (f : Frame)
  /-- the frame `popBufQueue` removed, if any -/
  | popped (i : StreamType) (f : Option Frame)
  | pushed (i : StreamType) (f : Frame)
  | cleared (i : StreamType)
  /-- the message for a pushed frame was appended -/
  | appended (i : StreamType)
  /-- the PTS of a frame went through `adjustPtsToMicrosecond` -/
  | adjusted (i : StreamType) (f : Frame)
  /-- a frame went through `setOmxFlags` -/
  | synced (i : StreamType) (f : Frame)
  /-- `writeToFreeBuffer` with data of the frame: its result, and the buffer if OMX accepted it -/
  | written (i : StreamType) (f : Frame) (result : Int) (b : Option Buffer)
  /-- the value `Feed_VideoData` or `Feed_AudioData` returned -/
  | fed (i : StreamType) (feedLen : Int)
  /-- a message that notifies of a crossed threshold was posted -/
  | notifyVideo (high : Bool)
  /-- a message that notifies of changed port settings of the video decoder was appended -/
  | notifyPortChanged
  deriving DecidableEq, Repr

/-- A call through a component pointer. -/
def Event.isUse : Event → Bool
  | .use _ _ => true
  | _ => false

/-- A program of the player. -/
abbrev Op (α : Type) := Prog Esplayer Event α

open Prog

/-! ## Status -/

/-- `Esplayer::State::canTransit`: the table, row by row. -/
def Status.canTransit : Status → Status → Bool
  | .idle, .idle | .idle, .loaded | .idle, .flushing => true
  | .loaded, .playing | .loaded, .paused | .loaded, .unloaded | .loaded, .flushing => true
  | .playing, .playing | .playing, .paused | .playing, .unloaded | .playing, .flushing => true
  | .paused, .playing | .paused, .paused | .paused, .unloaded | .paused, .flushing
  | .paused, .stepping => true
  | .unloaded, .unloaded | .unloaded, .flushing => true
  | .flushing, .playing | .flushing, .paused | .flushing, .unloaded | .flushing, .flushing => true
  | .stepping, .playing | .stepping, .paused | .stepping, .unloaded => true
  | .eos, .unloaded | .eos, .flushing => true
  | _, _ => false

/-- `Esplayer::State::transit`. The subscriber hears of it if the status changes. -/
def transit (status : Status) : Op Unit :=
  emit (fun s => .transit s.status status) fun s => { s with status := status }

/-- The entry check of an operation: may it move to `status`? -/
def canTransit (status : Status) : Op Bool :=
  act (fun s => (if s.status.canTransit status then some .admitted else none, s))
    fun s => ret (s.status.canTransit status)

/-- Read `loaded_`. -/
def readLoaded : Op Bool := act (fun s => (some (.loadedRead s.loaded), s)) fun s => ret s.loaded

@[simp] theorem run_transit (status : Status) (s : Esplayer) :
    (transit status).run s = ((), { s with status := status }) := (rfl)

@[simp] theorem run_canTransit (status : Status) (s : Esplayer) :
    (canTransit status).run s = (s.status.canTransit status, s) := (rfl)

@[simp] theorem run_readLoaded (s : Esplayer) : readLoaded.run s = (s.loaded, s) := (rfl)

@[simp] theorem trace_transit (status : Status) (s : Esplayer) :
    (transit status).trace s = [.transit s.status status] := (rfl)

@[simp] theorem trace_canTransit (status : Status) (s : Esplayer) :
    (canTransit status).trace s = if s.status.canTransit status then [.admitted] else [] := by
  simp only [canTransit, trace]
  split <;> rfl

@[simp] theorem trace_readLoaded (s : Esplayer) : readLoaded.trace s = [.loadedRead s.loaded] :=
  (rfl)

/-! ## Calls -/

/-- Change the component behind the pointer `c`, if there is one. -/
def Esplayer.onComponent (s : Esplayer) (c : ComponentName) (f : Component → Component) :
    Esplayer :=
  { s with component := Function.update s.component c ((s.component c).map f) }

/-- A component as `Component::create` leaves it. -/
def ComponentName.created : ComponentName → Component
  | .videoCodec => { inputBufferCount := 60, inputBufferSize := 81920 }
  | .audioCodec => { inputBufferCount := 16, inputBufferSize := 65536 }
  | .audioRenderer => { inputBufferCount := 16, inputBufferSize := 4096 }
  | .clock | .videoRenderer | .videoScheduler => {}

/-- `OmxClock::setPlaybackRate`: the scale sent for a rate. -/
def clockScale (rate : Int) : Int := (0x10000 * rate).tdiv 1000

/-- `configureInputBuffers` stores the new size whether or not the port takes it. -/
def Esplayer.configured (s : Esplayer) (c size : ComponentName) : Esplayer :=
  match s.component size with
  | some other => s.onComponent c fun comp => { comp with inputBufferSize := other.inputBufferSize }
  | none => s

/-- What a call that returns zero does to the player. -/
def Call.effect (call : Call) (s : Esplayer) : Esplayer :=
  match call with
  | .acquireResources => { s with resources := true }
  | .releaseResource => { s with resources := false }
  | .create c => { s with component := Function.update s.component c (some c.created) }
  | .setState c state => s.onComponent c fun comp => { comp with state := state }
  | .configureInputBuffers c size => s.configured c size
  | .allocateInputBuffer c => s.onComponent c fun comp =>
      { comp with
        input := List.replicate comp.inputBufferCount { allocLen := comp.inputBufferSize } }
  | .freeBuffer c => s.onComponent c fun comp => { comp with input := [] }
  | .writeToConfigBuffer c data => s.onComponent c fun comp =>
      { comp with input := (comp.input.writeToConfigBuffer data 0).2 }
  | .setPlaybackRate rate => { s with scale := some (clockScale rate) }
  | _ => s

/-- What a call that fails does to the player. -/
def Call.failure (call : Call) (s : Esplayer) : Esplayer :=
  match call with
  | .configureInputBuffers c size => s.configured c size
  | _ => s

/-- The call creates a component. -/
def Call.creates : Call → Bool
  | .create _ => true
  | _ => false

/-- An action of a program of the player: what it shows, and the player after it. -/
abbrev Action := Esplayer → Option Event × Esplayer

/-- The action of a call. -/
def performAction (env : Env) (call : Call) : Action := fun s =>
  (call.target.map fun c => .use c (s.component c).isSome,
    if env call = 0 then call.effect s else call.failure s)

/-- Make a call. -/
def perform (env : Env) (call : Call) : Op Int :=
  act (performAction env call) fun _ => ret (env call)

/-- `c && c->…`. -/
def performIfHeld (env : Env) (c : ComponentName) (call : Call) : Op Int := do
  let held ← read fun s => (s.component c).isSome
  if held then perform env call else return 0

@[simp] theorem run_perform (env : Env) (call : Call) (s : Esplayer) :
    (perform env call).run s =
      (env call, if env call = 0 then call.effect s else call.failure s) := (rfl)

@[simp] theorem trace_perform (env : Env) (call : Call) (s : Esplayer) :
    (perform env call).trace s =
      (call.target.map fun c => Event.use c (s.component c).isSome).toList := by
  simp [perform, performAction, trace]

@[simp] theorem run_performIfHeld (env : Env) (c : ComponentName) (call : Call) (s : Esplayer) :
    (performIfHeld env c call).run s =
      if (s.component c).isSome then
        (env call, if env call = 0 then call.effect s else call.failure s)
      else (0, s) := by
  simp [performIfHeld]

/-! ## The macros of `debug.h` -/

/-- `BREAK_IF_NONZERO` inside a `do { … } while(0)` whose value is `result`. -/
def breakIfNonzero {α : Type} (cond : Op Int) (result : α) (rest : Op α) : Op α := do
  let ret ← cond
  if ret ≠ 0 then return result else rest

/-- `RETURN_IF_NONZERO` and `LOG_AND_RETURN_IF_NONZERO`. -/
def returnIfNonzero (cond : Op Int) (rest : Op Int) : Op Int :=
  breakIfNonzero cond resultFail rest

/-- `LOG_IF_NONZERO`. -/
def logIfNonzero (cond : Op Int) : Op Unit := do
  let _ ← cond
  return ()

@[simp] theorem run_breakIfNonzero {α : Type} (cond : Op Int) (result : α) (rest : Op α)
    (s : Esplayer) :
    (breakIfNonzero cond result rest).run s =
      if (cond.run s).1 ≠ 0 then (result, (cond.run s).2) else rest.run (cond.run s).2 := by
  simp [breakIfNonzero]

@[simp] theorem run_returnIfNonzero (cond : Op Int) (rest : Op Int) (s : Esplayer) :
    (returnIfNonzero cond rest).run s =
      if (cond.run s).1 ≠ 0 then (resultFail, (cond.run s).2) else rest.run (cond.run s).2 :=
  run_breakIfNonzero cond resultFail rest s

@[simp] theorem run_logIfNonzero (cond : Op Int) (s : Esplayer) :
    (logIfNonzero cond).run s = ((), (cond.run s).2) := by
  simp [logIfNonzero]

end DirectMedia
