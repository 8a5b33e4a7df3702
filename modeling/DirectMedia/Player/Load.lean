import DirectMedia.Player.Components

set_option autoImplicit false

/-! # Load

`load` with its exits. Three things are done before the components are built: `loaded_` is set, the
resources are acquired and the audio codec in the caller's metadata is replaced by that of the
decoded stream; nothing is undone when a later call fails.

A `do { … } while(0)` is a program that ends with the value of `result`, so the parts of the loop
that come one after the other take what follows them as the argument `rest`.
-/

namespace DirectMedia

open Prog

/-! ## Building the components -/

/-- `result = …; BREAK_IF_NONZERO(…);`, several times. -/
def breakSteps (env : Env) : List (Int × Call) → Op Int → Op Int
  | [], rest => rest
  | (result, call) :: steps, rest =>
      breakIfNonzero (perform env call) result (breakSteps env steps rest)

/-- `Esplayer::loadClockComponent`. -/
def loadClockComponent (env : Env) : Op Int :=
  breakSteps env [(resultClockError, .create .clock)] <| return resultSuccess

/-- `Esplayer::loadVideoComponents`. -/
def loadVideoComponents (env : Env) : Op Int :=
  breakSteps env
    [(resultVideoCodecError, .create .videoCodec),
      (resultVideoRenderError, .create .videoRenderer),
      (resultVideoRenderError, .create .videoScheduler)] <|
    return resultSuccess

/-- `Esplayer::loadAudioComponents`. -/
def loadAudioComponents (env : Env) : Op Int :=
  breakSteps env
    [(resultAudioCodecError, .create .audioCodec),
      (resultAudioRenderError, .create .audioRenderer)] <|
    return resultSuccess

/-- The steps of `load` on the video components after their creation. -/
def videoSteps : List (Int × Call) :=
  [(resultVideoCodecError, .setVideoFormat),
    (resultVideoCodecError, .configureInputBuffers .videoCodec .videoCodec),
    (resultVideoStateError, .setState .videoCodec .idle),
    (resultVideoBufferError, .allocateInputBuffer .videoCodec),
    (resultVideoBufferError, .waitForPortEnable .videoCodec .input),
    (resultVideoTunnelError, .connectComponent .videoScheduler),
    (resultVideoTunnelError, .setState .videoScheduler .idle),
    (resultVideoTunnelError, .setupTunnel .videoCodec),
    (resultVideoTunnelError, .setupTunnel .videoScheduler)]

/-- The part of `load` for the video, followed by `rest`. -/
def loadVideo (env : Env) (rest : Op Int) : Op Int :=
  breakIfNonzero (loadVideoComponents env) resultVideoUnsupported <|
    breakSteps env videoSteps do
      logIfNonzero (perform env (.setState .videoRenderer .idle))
      logIfNonzero (perform env (.setParam .videoCodec .configRequestCallback))
      logIfNonzero (perform env (.setParam .videoCodec .paramBrcmVideoDecodeErrorConcealment))
      rest

/-- The steps of `load` on the audio components up to the clock. -/
def audioSteps : List (Int × Call) :=
  [(resultAudioStateError, .setState .audioCodec .idle),
    (resultAudioBufferError, .allocateInputBuffer .audioCodec),
    (resultAudioBufferError, .waitForPortEnable .audioCodec .input),
    (resultAudioStateError, .setState .audioCodec .executing),
    (resultClockStateError, .setState .clock .executing),
    (resultClockError, .connectComponent .audioRenderer)]

/-- The steps of `load` on a tunnel that was set up. The first one leaves `result` as it was. -/
def tunnelSteps : List (Int × Call) :=
  [(resultClockError, .waitForPortEnable .audioRenderer .input),
    (resultAudioStateError, .setState .audioRenderer .idle),
    (resultAudioStateError, .waitForPortEnable .audioCodec .output)]

/-- The last steps of `load` on the audio components. -/
def rendererSteps : List (Int × Call) :=
  [(resultAudioStateError, .setState .audioRenderer .executing),
    (resultAudioStateError, .setConfig .audioRenderer .configBrcmClockReferenceSource),
    (resultAudioStateError, .setConfig .audioRenderer .configBrcmAudioDestination)]

/-- The part of `load` that connects the audio components. -/
def loadAudioTunnel (env : Env) (rest : Op Int) : Op Int := do
  let ret ← perform env (.setupTunnel .audioCodec)
  if ret = 0 then breakSteps env tunnelSteps (breakSteps env rendererSteps rest)
  else breakSteps env rendererSteps rest

/-- The part of `load` for the audio, followed by `rest`. -/
def loadAudio (env : Env) (rest : Op Int) : Op Int :=
  breakIfNonzero (loadAudioComponents env) resultAudioUnsupported <|
    breakIfNonzero (performIfHeld env .audioCodec .setAudioCodecFormat) resultAudioCodecError <|
    breakIfNonzero
      (performIfHeld env .audioCodec (.configureInputBuffers .audioCodec .audioRenderer))
      resultAudioCodecError <|
    breakIfNonzero (performIfHeld env .audioCodec (.configureOutputBuffers .audioCodec))
      resultAudioCodecError <|
    breakSteps env audioSteps <|
    returnIfNonzero (perform env (.getParam .audioCodec .paramAudioPcm)) do
      logIfNonzero (perform env (.setParam .audioRenderer .paramAudioPcm))
      loadAudioTunnel env rest

/-- The wait mask that `load` gives to the clock; `80` is `PORT_CLOCK_AUDIO`. -/
def startMask (s : Esplayer) : Nat :=
  if (s.enableVideo && s.enableAudio && (s.trickMode || s.targetPlaybackRate != 1000)) = true then
    80
  else portMask s

/-- The end of the loop of `load`, with the value of `result` so far. -/
def loadStart (env : Env) (result : Int) : Op Int := do
  let held ← read fun s => (s.component .clock).isSome
  let mask ← read startMask
  breakIfNonzero (if held then perform env (.setWaitingForStartTime mask) else return 0) result do
    transit .loaded
    return resultSuccess

/-- The loop of `load` after its video part, with the value of `result` so far. -/
def loadFromAudio (env : Env) (result : Int) : Op Int := do
  let audio ← read (·.enableAudio)
  if audio then loadAudio env (loadStart env resultAudioStateError) else loadStart env result

/-- The `do { … } while(0)` of `load`. -/
def loadBody (env : Env) : Op Int :=
  breakIfNonzero (loadClockComponent env) resultClockError <|
    breakIfNonzero (perform env (.setState .clock .idle)) resultClockStateError do
      let video ← read (·.enableVideo)
      if video then loadVideo env (loadFromAudio env resultVideoTunnelError)
      else loadFromAudio env resultClockStateError

/-! ## The entry of load -/

/-- The members of `meta_` that `load` copies when there is video. -/
def MetaData.copyVideo (md metaData : MetaData) : MetaData :=
  { md with
    width := metaData.width
    height := metaData.height
    framerate := metaData.framerate
    extradata := metaData.extradata }

/-- The members of `meta_` that `load` sets when there is audio: always two channels of 16 bits. -/
def MetaData.copyAudio (md metaData : MetaData) : MetaData :=
  { md with
    channels := 2
    samplerate := metaData.samplerate
    blockalign := metaData.blockalign
    bitrate := metaData.bitrate
    bitspersample := 16 }

/-- The caller's metadata as `load` leaves it: the stream is PCM from here on. -/
def MetaData.decoded (metaData : MetaData) : MetaData := { metaData with audioCodec := .pcm44100 }

/-- `load` with the software decoder in place. -/
def loadDecoded (env : Env) (metaData : MetaData) : Op (Int × MetaData) := do
  write fun s =>
    { s with md := { s.md with videoCodec := metaData.videoCodec, audioCodec := .pcm44100 } }
  write fun s => { s with eos := fun _ => false, trickMode := false }
  let result ← loadBody env
  return (result, metaData.decoded)

/-- The software decoder, for an audio codec that needs one; `rest` follows. -/
def loadDecoder (env : Env) (metaData : MetaData) (rest : Op (Int × MetaData)) :
    Op (Int × MetaData) :=
  if metaData.audioCodec.codecId = .none then return (resultFail, metaData)
  else if metaData.audioCodec.codecId = .pcmS16le then rest
  else do
    -- the decoder stays in place if it cannot be opened
    write fun s => { s with swDecoder := some metaData.audioCodec.codecId }
    breakIfNonzero (perform env .openAudio) (resultFail, metaData) rest

/-- `load` with the resources acquired. -/
def loadAcquired (env : Env) (metaData : MetaData) : Op (Int × MetaData) := do
  write fun s =>
    { s with
      enableAudio := decide (metaData.audioCodec ≠ .none)
      enableVideo := decide (metaData.videoCodec ≠ .none) }
  onlyIf (metaData.videoCodec ≠ .none) <| write fun s => { s with md := s.md.copyVideo metaData }
  if metaData.audioCodec ≠ .none then do
    write fun s => { s with md := s.md.copyAudio metaData }
    loadDecoder env metaData (loadDecoded env metaData)
  else loadDecoded env metaData

/-- `load` after its entry checks. -/
def loadAdmitted (env : Env) (metaData : MetaData) : Op (Int × MetaData) := do
  -- no exit from here on takes this back
  write fun s => { s with loaded := true }
  breakIfNonzero (perform env .acquireResources) (resultFail, metaData) (loadAcquired env metaData)

/-- `Esplayer::load`, with the caller's metadata as it is after the call. -/
def load (env : Env) (metaData : MetaData) : Op (Int × MetaData) := do
  let loaded ← readLoaded
  if loaded then return (resultSuccess, metaData)
  else
    let can ← canTransit .loaded
    if can then loadAdmitted env metaData else return (resultFail, metaData)

/-- `Esplayer::loadEx`. -/
def loadEx (env : Env) (metaData : MetaData) (units : PtsUnits) : Op (Int × MetaData) := do
  write fun s => { s with ptsUnits := units }
  load env metaData

end DirectMedia
