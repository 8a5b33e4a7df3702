import DirectMedia.Player.Operations

set_option autoImplicit false

/-! # Feeding frames

`feedData`, which queues a frame and a message for it, and the two handlers of these messages,
`Feed_VideoData` and `Feed_AudioData`, which take the frame at the head of the queue to the codec.
One action is one section under `frame_queue_mutex_`, `message_queue_lock_` or `buffer_lock_`, one
call of `adjustPtsToMicrosecond`, or the part of `setOmxFlags` that works on `sync_state_` and the
last PTS values.

The handlers read the frame through a raw pointer and remove it by position: a program keeps the
frame that `getBufQueue` returned, and `popBufQueue` removes whatever is at the head by then.
-/

namespace DirectMedia

open Prog

/-- The codec of a stream. -/
def StreamType.codec : StreamType → ComponentName
  | .audioEs => .audioCodec
  | .videoEs => .videoCodec

/-- What an attempt to feed a frame meets outside the player: what `DecodeAudio` returns and leaves
in its output buffer, and what OMX answers to the submission of the data from an offset on. -/
structure FeedEnv where
  decode : Int × List UInt8 := (0, [])
  accept : Nat → Int := fun _ => 0

/-! ## The frame queues -/

def pushAction (buf : StreamBuffer) : Action := fun s =>
  (some (.pushed buf.streamType ⟨buf, s.pushed⟩),
    { s with
      frames := Function.update s.frames buf.streamType
        (s.frames buf.streamType ++ [⟨buf, s.pushed⟩])
      pushed := s.pushed + 1 })

def popAction (i : StreamType) : Action := fun s =>
  (some (.popped i (s.frames i).head?),
    { s with frames := Function.update s.frames i (s.frames i).tail })

def getAction (i : StreamType) : Action := fun s => ((s.frames i).head?.map (.got i), s)

/-- `Esplayer::pushBufQueue`. -/
def pushBufQueue (buf : StreamBuffer) : Op Unit := act (pushAction buf) fun _ => ret ()

/-- `Esplayer::popBufQueue`. -/
def popBufQueue (i : StreamType) : Op Unit := act (popAction i) fun _ => ret ()

/-- `Esplayer::getBufQueue`. -/
def getBufQueue (i : StreamType) : Op (Option Frame) :=
  act (getAction i) fun s => ret (s.frames i).head?

/-! ## The codec -/

def useAction (c : ComponentName) : Action := fun s => (some (.use c (s.component c).isSome), s)

/-- A number read through the pointer `c`. -/
def query (c : ComponentName) (g : Component → Nat) : Op Nat :=
  act (useAction c) fun s => ret ((s.component c).elim 0 g)

/-- `c->getFreeBufferCount(c->getInputPortIndex())`. -/
def getFreeBufferCount (c : ComponentName) : Op Nat := query c (·.input.getFreeBufferCount)

/-- `c->getUsedBufferCount(c->getInputPortIndex())`. -/
def getUsedBufferCount (c : ComponentName) : Op Nat := query c (·.input.getUsedBufferCount)

/-- `c->getInputBufferSize()`. -/
def getInputBufferSize (c : ComponentName) : Op Nat := query c (·.inputBufferSize)

/-- The buffers of the input port behind the pointer `c`. -/
def Esplayer.input (s : Esplayer) (c : ComponentName) : Port := (s.component c).elim [] (·.input)

theorem Esplayer.free_eq (s : Esplayer) (c : ComponentName) :
    (s.component c).elim 0 (·.input.getFreeBufferCount) = (s.input c).getFreeBufferCount := by
  unfold input
  cases s.component c <;> rfl

theorem input_onComponent_ne {c d : ComponentName} (h : d ≠ c) (s : Esplayer)
    (g : Component → Component) : (s.onComponent c g).input d = s.input d := by
  simp [Esplayer.input, Esplayer.onComponent, Function.update_of_ne h]

def writeAction (c : ComponentName) (f : Frame) (data : List UInt8) (pts : Int)
    (flags : BitVec 32) (accept : Int) : Action := fun s =>
  let r := (s.input c).writeToFreeBuffer data pts flags accept
  (some (.written f.streamType f r.1 r.2.2),
    s.onComponent c fun comp => { comp with input := r.2.1 })

/-- `c->writeToFreeBuffer(c->getInputPortIndex(), …)` with data of the frame `f`. -/
def writeToFreeBuffer (c : ComponentName) (f : Frame) (data : List UInt8) (pts : Int)
    (flags : BitVec 32) (accept : Int) : Op Int := do
  let _ ← query c fun _ => 0
  act (writeAction c f data pts flags accept) fun s =>
    ret ((s.input c).writeToFreeBuffer data pts flags accept).1

/-! ## Time stamps and flags -/

/-- `data_len` as an `int`. -/
def StreamBuffer.dataLen (b : StreamBuffer) : Int := Int.bmod b.data.length (2 ^ 32)

theorem StreamBuffer.dataLen_eq {b : StreamBuffer} (h : b.data.length < 2 ^ 31) :
    b.dataLen = b.data.length := by
  unfold dataLen
  rw [Int.bmod_def]
  omega

theorem StreamBuffer.length_pos {b : StreamBuffer} (h : 0 < b.dataLen) : 0 < b.data.length := by
  by_contra hzero
  rw [dataLen_eq (by omega)] at h
  omega

theorem StreamBuffer.data_eq_nil {b : StreamBuffer} (h : b.data.length < 2 ^ 32)
    (hzero : b.dataLen = 0) : b.data = [] := by
  unfold dataLen at hzero
  rw [Int.bmod_def] at hzero
  have hlen : b.data.length = 0 := by omega
  exact List.eq_nil_of_length_eq_zero hlen

def adjustAction (f : Frame) : Action := fun s =>
  (some (.adjusted f.streamType f),
    { s with pts := (adjustPtsToMicrosecond s.ptsUnits f.streamType f.timestamp s.pts).2 })

/-- `adjustPtsToMicrosecond` on the PTS of a frame. -/
def adjustFrame (f : Frame) : Op Int :=
  act (adjustAction f) fun s =>
    ret (adjustPtsToMicrosecond s.ptsUnits f.streamType f.timestamp s.pts).1

def flagEndOfStream : BitVec 32 := 0x1

/-- `translateToOmxFlags`. -/
def translateToOmxFlags (flags : BitVec 32) : BitVec 32 :=
  if flags &&& flagEndOfStream ≠ 0 then bufferFlagEos else 0

/-- `VIDEO_IN_BUFFER_COUNT_HIGH`. -/
def videoInBufferCountHigh : Nat := 30

/-- `VIDEO_IN_BUFFER_MKSEC_SKIP`, `VIDEO_IN_BUFFER_MKSEC_LOW` and `VIDEO_IN_BUFFER_MKSEC_HIGH`. -/
def videoInBufferMksecSkip : Int := -100000
def videoInBufferMksecLow : Int := 250000
def videoInBufferMksecHigh : Int := 1000000

/-- `av_delta` of `setOmxFlags`. -/
def avDelta (lastPts : StreamType → Int) : Int :=
  if lastPts .videoEs ≠ 0 ∧ lastPts .audioEs ≠ 0 then lastPts .videoEs - lastPts .audioEs else 0

/-- `buffer_flags`, `sync_state_` and `sync_state_new` at the end of a branch of `setOmxFlags`. -/
structure SyncDecision where
  flags : BitVec 32
  syncState : SyncState
  syncStateNew : SyncState
  deriving DecidableEq, Repr

/-- The branch of `setOmxFlags` for video. -/
def syncVideo (used : Nat) (lastPts : StreamType → Int) (d : SyncDecision) : SyncDecision :=
  let avDelta := avDelta lastPts
  let d :=
    -- the first two branches write `sync_state_` itself and leave `sync_state_new`
    if lastPts .videoEs = 0 then
      { d with syncState := .allowVideo, flags := d.flags ||| bufferFlagStartTime }
    else if avDelta < videoInBufferMksecSkip then
      { d with syncState := .skipVideo, flags := d.flags ||| bufferFlagDecodeOnly }
    else if d.syncState ≠ .holdVideo ∧ avDelta > videoInBufferMksecHigh then
      { d with syncStateNew := .holdVideo }
    else if d.syncState = .skipVideo ∧ avDelta < videoInBufferMksecLow then
      { d with syncStateNew := .allowVideo }
    else d
  -- the buffers are counted after any of the branches
  if d.syncState = .allowVideo ∧ used > videoInBufferCountHigh then
    { d with syncStateNew := .holdVideo }
  else d

/-- The branch of `setOmxFlags` for audio. -/
def syncAudio (used : Nat) (lastPts : StreamType → Int) (d : SyncDecision) : SyncDecision :=
  let avDelta := avDelta lastPts
  let d :=
    if lastPts .audioEs = 0 then { d with flags := d.flags ||| bufferFlagStartTime } else d
  if d.syncState ≠ .allowVideo ∧
      (avDelta < videoInBufferMksecLow ∧ avDelta > videoInBufferMksecSkip) ∧
      used ≤ videoInBufferCountHigh then
    { d with syncStateNew := .allowVideo }
  else d

/-- The end of `setOmxFlags`: the state committed, and the notification posted: `true` for
`NDL_ESP_HIGH_THRESHOLD_CROSSED_VIDEO`, `false` for `NDL_ESP_LOW_THRESHOLD_CROSSED_VIDEO`. -/
def SyncDecision.commit (d : SyncDecision) : SyncState × Option Bool :=
  if d.syncState ≠ .holdVideo ∧ d.syncStateNew = .holdVideo then (.holdVideo, some true)
  else if d.syncState = .holdVideo ∧ d.syncStateNew = .allowVideo then (.allowVideo, some false)
  -- a decision to leave `SKIP_VIDEO` for `ALLOW_VIDEO` is dropped
  else (d.syncState, none)

/-- What `setOmxFlags` decides for a stream, with `used` buffers of the video codec in use. -/
def Esplayer.sync (s : Esplayer) (i : StreamType) (used : Nat) (flags : BitVec 32) :
    SyncDecision :=
  match i with
  | .videoEs => syncVideo used s.lastPts ⟨flags, s.syncState, s.syncState⟩
  | .audioEs => syncAudio used s.lastPts ⟨flags, s.syncState, s.syncState⟩

def syncAction (f : Frame) (pts : Int) (flags : BitVec 32) (used : Nat) : Action := fun s =>
  (some (.synced f.streamType f),
    { s with
      syncState := (s.sync f.streamType used flags).commit.1
      lastPts := Function.update s.lastPts f.streamType pts })

/-- A message posted without delay. -/
def Looper.postNow (l : Looper) : Looper := (l.step (.post l.now)).getD l

def notifyAction (high : Bool) : Action := fun s =>
  (some (.notifyVideo high), s.onMessages .videoEs .postNow)

/-- `Esplayer::setOmxFlags`. The number of audio buffers is only logged. -/
def setOmxFlags (f : Frame) (pts : Int) (flags : BitVec 32) : Op (BitVec 32) := do
  let used ← getUsedBufferCount .videoCodec
  let _ ← getUsedBufferCount .audioCodec
  let (flags, notify) ← act (syncAction f pts flags used) fun s =>
    ret ((s.sync f.streamType used flags).flags, (s.sync f.streamType used flags).commit.2)
  match notify with
  | some high =>
      act (notifyAction high) fun _ => ret ()
      return flags
  | none => return flags

/-! ## The handlers -/

/-- The guard is the only statement of an `if` without braces: it is released at once. -/
def lockUnlessPlaying : Op Unit := do
  let status ← read (·.status)
  onlyIf (status ≠ .playing) do
    lock
    unlock

/-- The `do … while` of `Feed_VideoData`, with the values of its variables before an iteration.
With an input buffer size of 0 the loop of the source has no end, and there is no result once the
fuel is used up; with any other size one unit for every byte is more than enough. -/
def writeChunks (env : FeedEnv) (f : Frame) (pts : Int) (flags : BitVec 32) :
    Nat → Int → Nat → Int → Op (Option Int)
  | 0, _, _, _ => return none
  | fuel + 1, remaining, offset, writtenLen => do
      let size ← getInputBufferSize .videoCodec
      let remaining := remaining - size
      if remaining ≤ 0 then
        -- `data_len` is what is left, which may be less than the size of a buffer
        let n ← writeToFreeBuffer .videoCodec f (f.data.drop offset) pts
          (flags ||| bufferFlagEndOfFrame) (env.accept offset)
        return some (writtenLen + n)
      else
        let size ← getInputBufferSize .videoCodec
        let n ← writeToFreeBuffer .videoCodec f ((f.data.drop offset).take size) pts flags
          (env.accept offset)
        writeChunks env f pts flags fuel remaining (offset + size) (writtenLen + n)

/-- The submissions of `Feed_VideoData`. A length that is negative as an `int` writes nothing. -/
def writeVideo (env : FeedEnv) (f : Frame) (pts : Int) (flags : BitVec 32) :
    Op (Option Int) :=
  if f.dataLen > 0 then writeChunks env f pts flags f.data.length f.dataLen 0 0
  else if f.dataLen = 0 then do
    let n ← writeToFreeBuffer .videoCodec f [] pts (flags ||| bufferFlagEndOfFrame) (env.accept 0)
    return some n
  else return some 0

/-- The flags `Feed_VideoData` starts from. -/
def videoFlags (f : Frame) (pts : Int) : Op (BitVec 32) :=
  if 0 < f.data.length then setOmxFlags f pts (translateToOmxFlags f.flags)
  else return translateToOmxFlags f.flags

/-- `Feed_VideoData` with the frame `f`, once there is a free buffer. -/
def feedVideoFrame (env : FeedEnv) (f : Frame) : Op Int := do
  let pts ← adjustFrame f
  let flags ← videoFlags f pts
  let written ← writeVideo env f pts flags
  match written with
  | some writtenLen =>
      -- whatever the sum of the results is
      popBufQueue .videoEs
      return writtenLen
  -- the loop did not end, and nothing after it is reached
  | none => return 0

/-- `Esplayer::Feed_VideoData`. -/
def feedVideoData (env : FeedEnv) : Op Int := do
  lockUnlessPlaying
  let held ← read fun s => (s.component .videoCodec).isSome
  if held then
    let buff ← getBufQueue .videoEs
    match buff with
    | some f =>
        let _ ← getUsedBufferCount .videoCodec
        let free ← getFreeBufferCount .videoCodec
        if free = 0 then return resultFeedFull else feedVideoFrame env f
    | none => return 0
  else
    clearBufQueue .videoEs
    return 0

/-- What `Feed_AudioData` has to write: the decoder's output, unless there is no decoder or the
stream is PCM already. -/
def decodeAudio (env : FeedEnv) (decoder : Option AvCodecId) (f : Frame) : Int × List UInt8 :=
  match decoder with
  | none | some .pcmS16le => (0, f.data)
  | some _ => env.decode

/-- The submission and the end of `Feed_AudioData`. -/
def writeAudio (env : FeedEnv) (f : Frame) (pts : Int) (flags : BitVec 32) (ret : Int)
    (data : List UInt8) : Op Int := do
  let writtenLen ← writeToFreeBuffer .audioCodec f data pts flags (env.accept 0)
  popBufQueue .audioEs
  let decoder ← read (·.swDecoder)
  -- the number of bytes decoded takes the place of the number submitted
  return if writtenLen ≥ 0 ∧ ret > 0 ∧ decoder.isSome then ret else writtenLen

/-- The PTS `Feed_AudioData` works with: 0 without video. -/
def audioPts (f : Frame) : Op Int := do
  let enable ← read (·.enableVideo)
  if enable then adjustFrame f else return 0

/-- `Feed_AudioData` with the frame `f`. -/
def feedAudioFrame (env : FeedEnv) (f : Frame) : Op Int := do
  let pts ← audioPts f
  if f.dataLen > 0 then
    let flags ← setOmxFlags f pts (translateToOmxFlags f.flags ||| bufferFlagEndOfFrame)
    let decoder ← read (·.swDecoder)
    writeAudio env f pts flags (decodeAudio env decoder f).1 (decodeAudio env decoder f).2
  else
    writeAudio env f pts (translateToOmxFlags f.flags ||| bufferFlagEndOfFrame) 0 f.data

/-- `Esplayer::Feed_AudioData`. Unlike `Feed_VideoData` it looks for a free buffer before it looks
for a frame. -/
def feedAudioData (env : FeedEnv) : Op Int := do
  lockUnlessPlaying
  let held ← read fun s => (s.component .audioCodec).isSome
  if held then
    let free ← getFreeBufferCount .audioCodec
    if free = 0 then return resultFeedFull
    else
      let buff ← getBufQueue .audioEs
      match buff with
      | some f => feedAudioFrame env f
      | none => return 0
  else
    clearBufQueue .audioEs
    return 0

/-- The handler of a stream. -/
def feedStream (env : FeedEnv) : StreamType → Op Int
  | .videoEs => feedVideoData env
  | .audioEs => feedAudioData env

/-- The handler of a message that `feedData` appends. -/
def feedMessage (env : FeedEnv) (i : StreamType) : Op Int := do
  let feedLen ← feedStream env i
  emit (fun _ => .fed i feedLen) fun s => s
  return if feedLen ≥ 0 then resultSuccess else resultFail

/-! ## feedData -/

/-- `MessageLooper::append` of a message without delay. -/
def Looper.appendNow (l : Looper) : Looper := (l.step (.append l.now)).getD l

theorem Looper.appendNow_eq (l : Looper) : l.appendNow =
    { l with queue := l.queue ++ [some ⟨l.calls, l.now⟩], calls := l.calls + 1 } := rfl

def appendAction (i : StreamType) : Action := fun s =>
  (some (.appended i), s.onRenderer i .appendNow)

/-- `feedData` past its checks. -/
def feedAdmitted (b : StreamBuffer) : Op Int := do
  lockUnlessPlaying
  pushBufQueue b
  act (appendAction b.streamType) fun _ => ret ()
  return b.dataLen

/-- `Esplayer::feedData`; `none` is a null pointer, which the first log line of the source has
dereferenced before the check is made. -/
def feedData (buff : Option StreamBuffer) : Op Int :=
  match buff with
  | none => return resultFeedInvalidInput
  | some b =>
      if b.data.length < b.offset then return resultFeedInvalidInput
      else do
        let loaded ← readLoaded
        let idle ← read fun s => decide (s.status = .idle)
        let unloaded ← read fun s => decide (s.status = .unloaded)
        let flushing ← read fun s => decide (s.status = .flushing)
        if ¬ loaded ∨ idle ∨ unloaded ∨ flushing then return resultFeedInvalidState
        else feedAdmitted b

end DirectMedia
