import DirectMedia.Player.State

set_option autoImplicit false

/-! # Playback control

The operations of `Esplayer` that control playback and the functions they share. The order of the
calls, the exits through the macros of `debug.h` and the sections under `unload_mutex_` are those
of the source. Left out are log lines and the notifications to the resource manager, which change
nothing here.
-/

namespace DirectMedia

open Prog

/-! ## Functions on all components -/

/-- `c && c->setState(state)` for each of the components, leaving at the first failure. -/
def changeStates (env : Env) (state : OmxState) : List ComponentName → Op Int
  | [] => return resultSuccess
  | c :: cs =>
      returnIfNonzero (performIfHeld env c (.setState c state)) (changeStates env state cs)

/-- The components `changeComponentsState` moves, in order. The video renderer does not support
the pause state. -/
def stateOrder (state : OmxState) : List ComponentName :=
  if state ≠ .pause then
    [.videoCodec, .videoRenderer, .audioCodec, .audioRenderer, .videoScheduler, .clock]
  else
    [.videoCodec, .audioCodec, .audioRenderer, .videoScheduler, .clock]

/-- `Esplayer::changeComponentsState`. -/
def changeComponentsState (env : Env) (state : OmxState) : Op Int :=
  changeStates env state (stateOrder state)

/-- `Esplayer::setComponentsFlush`: failures are only logged. -/
def setComponentsFlush (env : Env) : Op Int := do
  logIfNonzero (performIfHeld env .videoCodec (.flush .videoCodec))
  logIfNonzero (performIfHeld env .videoScheduler (.flush .videoScheduler))
  logIfNonzero (performIfHeld env .videoRenderer (.flush .videoRenderer))
  logIfNonzero (performIfHeld env .audioCodec (.flush .audioCodec))
  logIfNonzero (performIfHeld env .audioRenderer (.flush .audioRenderer))
  return resultSuccess

/-! ## Loopers and frame queues -/

/-- `MessageLooper::setRunningState`. -/
def Looper.setRunningState (run : Bool) (l : Looper) : Looper := { l with running := run }

/-- `MessageLooper::clearAll`. -/
def Looper.clearAll (l : Looper) : Looper := { l with queue := [], calls := l.calls + 1 }

/-- Change the renderer looper of a stream. -/
def Esplayer.onRenderer (s : Esplayer) (i : StreamType) (f : Looper → Looper) : Esplayer :=
  { s with renderer := Function.update s.renderer i (f (s.renderer i)) }

/-- Change the message looper of a stream. -/
def Esplayer.onMessages (s : Esplayer) (i : StreamType) (f : Looper → Looper) : Esplayer :=
  { s with messages := Function.update s.messages i (f (s.messages i)) }

/-- `setRunningState(run)` on the four loopers. -/
def setRunningStates (run : Bool) : Op Unit := do
  write fun s => s.onRenderer .videoEs (.setRunningState run)
  write fun s => s.onRenderer .audioEs (.setRunningState run)
  write fun s => s.onMessages .videoEs (.setRunningState run)
  write fun s => s.onMessages .audioEs (.setRunningState run)

/-- `Esplayer::clearFrameQueues`. -/
def clearFrameQueues : Op Unit := do
  write fun s => s.onRenderer .videoEs .clearAll
  write fun s => s.onRenderer .audioEs .clearAll

/-- `Esplayer::clearBufQueue`. -/
def clearBufQueue (i : StreamType) : Op Unit :=
  emit (fun _ => .cleared i) fun s => { s with frames := Function.update s.frames i [] }

/-! ## Play, pause, step, rate -/

/-- `sendVideoDecoderConfig`, with the extradata of `meta_`. -/
def sendVideoDecoderConfig (env : Env) : Op Unit := do
  let data ← read fun s => s.md.extradata
  logIfNonzero (perform env (.writeToConfigBuffer .videoCodec data))

/-- `sendAudioDecoderConfig`: the wave header, 40 bytes. -/
def sendAudioDecoderConfig (env : Env) : Op Unit :=
  logIfNonzero (perform env (.writeToConfigBuffer .audioCodec (List.replicate 40 0)))

/-- The branch of `play` that starts from `NDL_ESP_STATUS_LOADED`. -/
def playLoaded (env : Env) : Op Int := do
  let rate ← read (·.targetPlaybackRate)
  breakIfNonzero (perform env (.setPlaybackRate rate)) resultClockError do
    logIfNonzero (performIfHeld env .videoCodec (.setState .videoCodec .executing))
    let extrasize ← read fun s => s.md.extradata.length
    onlyIf (extrasize ≠ 0) (sendVideoDecoderConfig env)
    -- from here on the pointers are not looked at first
    logIfNonzero (perform env (.setState .videoScheduler .executing))
    logIfNonzero (perform env (.setState .audioCodec .executing))
    sendAudioDecoderConfig env
    return resultSuccess

/-- The branch of `play` that starts from `NDL_ESP_STATUS_PAUSED`. -/
def playPaused (env : Env) : Op Int := do
  let rate ← read (·.targetPlaybackRate)
  breakIfNonzero (perform env (.setPlaybackRate rate)) resultClockError <|
    breakIfNonzero (changeComponentsState env .executing) resultSetStateError <|
      return resultSuccess

/-- The `do { … } while(0)` of `play`. -/
def playBody (env : Env) : Op Int := do
  let status ← read (·.status)
  if status = .loaded then playLoaded env
  else
    let status ← read (·.status)
    if status = .paused then playPaused env else return resultSuccess

/-- `play` after its entry check. -/
def playAdmitted (env : Env) : Op Int := do
  write fun s => { s with syncState := .allowVideo }
  let status ← read (·.status)
  onlyIf (status ≠ .paused) <|
    write fun s => { s with lastPts := Function.update s.lastPts .audioEs 0 }
  let result ← playBody env
  -- also after a failure
  transit .playing
  setRunningStates true
  return result

/-- `Esplayer::play`. -/
def play (env : Env) : Op Int := do
  let can ← canTransit .playing
  if can then playAdmitted env else return resultFail

/-- The section of `pause` under `unload_mutex_`. -/
def pauseSection (env : Env) : Op Int :=
  breakIfNonzero (perform env (.setPlaybackRate 0)) resultClockError <|
    breakIfNonzero (changeComponentsState env .pause) resultSetStateError do
      transit .paused
      return resultSuccess

/-- `pause` once it has seen `loaded_` set. -/
def pauseLoaded (env : Env) : Op Int := do
  -- outside the section, and before anything can fail
  setRunningStates false
  withLock (pauseSection env)

/-- `Esplayer::pause`. -/
def pause (env : Env) : Op Int := do
  let can ← canTransit .paused
  if can then
    let status ← read (·.status)
    if status = .loaded then return resultSuccess
    else
      let status ← read (·.status)
      if status = .paused then return resultSuccess
      else
        let loaded ← readLoaded
        if loaded then pauseLoaded env else return resultFail
  else return resultFail

/-- `Esplayer::stepFrame`. -/
def stepFrame (env : Env) : Op Int := do
  let can ← canTransit .stepping
  if can then
    let saveState ← read (·.status)
    transit .stepping
    let result ← perform env .stepFrame
    transit saveState
    return result
  else return resultFail

/-- `Esplayer::setPlaybackRate`. -/
def setPlaybackRate (env : Env) (rate : Int) : Op Int :=
  if rate < 0 ∨ rate > 2000 then return resultFail
  else do
    write fun s => { s with targetPlaybackRate := rate }
    let held ← read fun s => (s.component .clock).isSome
    let status ← read (·.status)
    onlyIf (held ∧ (status = .playing ∨ status = .loaded)) <|
      logIfNonzero (perform env (.setPlaybackRate rate))
    return resultSuccess

/-! ## Flush -/

/-- How a `do { … } while(0)` ends: by `break` or at its end, with the value of `result`, or by a
`return` out of the function. -/
inductive Exit where
  | broke (result : Int)
  | returned (value : Int)
  deriving DecidableEq, Repr

/-- The port mask of `setWaitingForStartTime`. -/
def portMask (s : Esplayer) : Nat :=
  (if s.enableAudio then 1 else 0) ||| (if s.enableVideo then 2 else 0)

/-- The part of the loop in `flush` after the components have been paused. -/
def flushRestart (env : Env) (saveState : Status) : Op Exit :=
  breakIfNonzero (setComponentsFlush env) (.returned resultFail) do
    let held ← read fun s => (s.component .clock).isSome
    let mask ← read portMask
    breakIfNonzero (if held then perform env (.setWaitingForStartTime mask) else return 0)
        (.broke resultClockError) do
      -- `pts_drop_count_` keeps its values
      write fun s => { s with pts := s.pts.flush }
      breakIfNonzero
          (if saveState = .playing then changeComponentsState env .executing else return 0)
          (.broke resultSetStateError) <|
        return .broke resultSuccess

/-- The `do { … } while(0)` of `flush`. -/
def flushBody (env : Env) (saveState : Status) : Op Exit :=
  breakIfNonzero (performIfHeld env .clock .setStopped) (.broke resultFail) do
    clearFrameQueues
    clearBufQueue .audioEs
    clearBufQueue .videoEs
    -- this failure leaves the function, not the loop
    breakIfNonzero
        (if saveState ≠ .paused then changeComponentsState env .pause else return 0)
        (.returned resultFail) <|
      flushRestart env saveState

/-- What `flush` resets before it looks at the status. -/
def flushReset : Op Unit := do
  write fun s => { s with trickMode := false }
  write fun s => { s with lastPts := fun _ => 0 }
  let audio ← read fun s => (s.component .audioRenderer).isSome
  onlyIf audio <| write fun s => { s with eos := Function.update s.eos .audioEs false }
  let video ← read fun s => (s.component .videoRenderer).isSome
  onlyIf video <| write fun s => { s with eos := Function.update s.eos .videoEs false }

/-- How `flush` goes on after its loop. -/
def flushEnd (saveState : Status) : Exit → Op Int
  | .returned value => return value
  | .broke result => do
      transit saveState
      return result

/-- The section of `flush` under `unload_mutex_`. -/
def flushSection (env : Env) : Op Int := do
  flushReset
  let saveState ← read (·.status)
  transit .flushing
  let exit ← flushBody env saveState
  flushEnd saveState exit

/-- `Esplayer::flush`. -/
def flush (env : Env) : Op Int := do
  let can ← canTransit .flushing
  if can then
    let loaded ← readLoaded
    if loaded then withLock (flushSection env) else return resultSuccess
  else return resultFail

/-! ## Unload -/

/-- `destroy()` on a component that is held, and the reset of its pointer. -/
def destroyComponent (c : ComponentName) : Op Unit := do
  let held ← read fun s => (s.component c).isSome
  onlyIf held <|
    emit (fun s => .use c (s.component c).isSome) fun s =>
      { s with component := Function.update s.component c none }

/-- The calls of `unload` before the components are destroyed. -/
def unloadCalls : List (ComponentName × Call) :=
  [(.videoRenderer, .enablePort .videoRenderer .input),
    (.videoScheduler, .enablePort .videoScheduler .output),
    (.videoScheduler, .enablePort .videoScheduler .input),
    (.videoCodec, .enablePort .videoCodec .output),
    (.videoCodec, .freeBuffer .videoCodec),
    (.videoCodec, .enablePort .videoCodec .input),
    (.audioCodec, .enablePort .audioCodec .output),
    (.audioCodec, .freeBuffer .audioCodec),
    (.audioCodec, .waitForPortEnable .audioCodec .input),
    (.videoRenderer, .setState .videoRenderer .idle),
    (.videoRenderer, .setState .videoRenderer .loaded),
    (.clock, .enablePort .clock .clockVideo),
    (.clock, .enablePort .clock .clockAudio)]

/-- The order in which `unload` destroys the components. -/
def destroyOrder : List ComponentName :=
  [.videoCodec, .videoRenderer, .videoScheduler, .audioCodec, .audioRenderer, .clock]

/-- `unload` under `unload_mutex_`, once it has found `loaded_` set. -/
def unloadAll (env : Env) : Op Int := do
  clearFrameQueues
  write fun s => { s with callback := false }
  unloadCalls.forM fun c => logIfNonzero (performIfHeld env c.1 c.2)
  destroyOrder.forM destroyComponent
  transit .unloaded
  logIfNonzero (perform env .releaseResource)
  return resultSuccess

/-- The section of `unload` under `unload_mutex_`. -/
def unloadSection (env : Env) : Op Int := do
  let loaded ← exchange (·.loaded) fun s => { s with loaded := false }
  if loaded then unloadAll env else return resultSuccess

/-- `Esplayer::unload`. -/
def unload (env : Env) : Op Int := do
  let can ← canTransit .unloaded
  if can then withLock (unloadSection env) else return resultFail

end DirectMedia
