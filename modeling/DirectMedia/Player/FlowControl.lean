import DirectMedia.Feed.Actions
import DirectMedia.Player.Api

set_option autoImplicit false

/-! # Flow control of the video

The client is told to stop feeding video with `NDL_ESP_HIGH_THRESHOLD_CROSSED_VIDEO` and to go on
with `NDL_ESP_LOW_THRESHOLD_CROSSED_VIDEO`, which is posted only on the way out of `HOLD_VIDEO`.
Changed port settings let it go on as well.

`setOmxFlags` and the callback for the port settings tell the client whenever they leave
`HOLD_VIDEO`; `play` leaves it and tells nobody. So the client is never left waiting exactly in the
runs in which no `play` finds `HOLD_VIDEO` (`notStranded_iff`).
-/

namespace DirectMedia

open Prog

/-! ## The callback for changed port settings -/

/-- `onVideoCodecCallback` for `OMX_CLIENT_EVT_PORT_SETTING_CHANGED`, after the parameters of the
output port have been read. -/
def changePortSetting (env : Env) : Op Int := do
  let _ ← perform env (.setConfig .videoRenderer .configDisplayRegion)
  logIfNonzero (perform env (.setupTunnel .videoCodec))
  let first ← read (·.isFirstPortSettingChange)
  onlyIf first do
    logIfNonzero (performIfHeld env .videoRenderer (.setState .videoRenderer .executing))
    write fun s => { s with isFirstPortSettingChange := false }
  let syncState ← read (·.syncState)
  onlyIf (syncState ≠ .allowVideo) <| write fun s => { s with syncState := .allowVideo }
  emit (fun _ => .notifyPortChanged) fun s => s.onMessages .videoEs .appendNow
  return 0

/-- `onVideoCodecCallback` for `OMX_CLIENT_EVT_PORT_SETTING_CHANGED`. -/
def onPortSettingChanged (env : Env) : Op Int := do
  logIfNonzero (performIfHeld env .videoCodec (.enablePort .videoCodec .output))
  logIfNonzero (performIfHeld env .videoScheduler (.enablePort .videoScheduler .input))
  -- this failure leaves the case of the `switch`: the client hears nothing
  breakIfNonzero (perform env (.getParam .videoCodec .paramPortDefinition)) 0 <|
    changePortSetting env

/-! ## Runs -/

/-- The labels of the steps: a call of the interface, an attempt to feed the frame at the head of a
queue, and the events of the codecs. -/
inductive FlowAct where
  | call (a : ApiCall) (env : Env)
  | feedData (buff : Option StreamBuffer)
  | attempt (i : StreamType) (env : FeedEnv)
  | emptyBufferDone (i : StreamType) (index : Nat)
  | portSettingChanged (env : Env)

/-- A buffer comes back from the codec of a stream. -/
def returnBuffer (i : StreamType) (index : Nat) : Op Int := do
  write fun s => s.onComponent i.codec fun comp =>
    { comp with input := comp.input.emptyBufferDone index }
  return 0

/-- The program of a step. -/
def FlowAct.prog : FlowAct → Op Int
  | .call a env => a.prog env
  | .feedData buff => DirectMedia.feedData buff
  | .attempt i env => feedMessage env i
  | .emptyBufferDone i index => returnBuffer i index
  | .portSettingChanged env => onPortSettingChanged env

/-- One step. -/
def Session.flow (s : Session) (a : FlowAct) : Option Session :=
  some
    { player := (a.prog.run s.player).2
      history := s.history ++ a.prog.trace s.player }

/-- What tells the client to stop or to go on. -/
inductive VideoNotice where
  | high
  | low
  | portChanged
  deriving DecidableEq, Repr

def Event.notice : Event → Option VideoNotice
  | .notifyVideo true => some .high
  | .notifyVideo false => some .low
  | .notifyPortChanged => some .portChanged
  | _ => none

/-- The last notice posted. -/
def lastNotice (history : List Event) : Option VideoNotice :=
  (history.filterMap Event.notice).getLast?

/-- If the client was last told to stop, the player is holding the video, so that it can still tell
the client to go on. -/
def Session.NotStranded (s : Session) : Prop :=
  lastNotice s.history = some .high → s.player.syncState = .holdVideo

/-- The step leaves no client waiting. -/
def LeavesNotStranded (s : Session) (a : FlowAct) : Prop :=
  ∀ t, s.flow a = some t → t.NotStranded

/-- The step is not a `play` past its entry check that finds the video held. -/
def PlayUnheld (s : Session) (a : FlowAct) : Prop :=
  ¬ ((∃ env, a = .call .play env) ∧ s.player.status.canTransit .playing = true ∧
    s.player.syncState = .holdVideo)

/-! ## The last notice and the state -/

/-- The last notice is the one to stop exactly if the player is holding the video. -/
def Balanced (history : List Event) (s : Esplayer) : Prop :=
  lastNotice history = some .high ↔ s.syncState = .holdVideo

/-- The action leaves `sync_state_` alone and posts no notice. -/
def Discreet : Action → Prop := fun f =>
  ∀ s, (f s).2.syncState = s.syncState ∧ ∀ e ∈ (f s).1, e.notice = none

theorem lastNotice_append (d : List Event) (es : List Event) :
    lastNotice (d ++ es) = (lastNotice es).or (lastNotice d) := by
  simp [lastNotice, List.filterMap_append, List.getLast?_append]

theorem lastNotice_discreet {es : List Event} (h : ∀ e ∈ es, e.notice = none) :
    lastNotice es = none := by
  have hnil : es.filterMap Event.notice = [] := List.filterMap_eq_nil_iff.mpr h
  rw [lastNotice, hnil]
  rfl

theorem discreet_run {α : Type} {p : Op α} (h : p.Does Discreet) (s : Esplayer) :
    (p.run s).2.syncState = s.syncState ∧ lastNotice (p.trace s) = none := by
  have hkeep : p.Keeps Esplayer.syncState := h.mono fun f hf s => (hf s).1
  have hnone := Does.events (R := fun e => e.notice = none) (h.mono fun f hf s => (hf s).2) s
  exact ⟨hkeep.run s, lastNotice_discreet hnone⟩

theorem discreet_carries {α : Type} {p : Op α} (h : p.Does Discreet) : p.Carries Balanced := by
  intro d s hs
  obtain ⟨hstate, hnotice⟩ := discreet_run h s
  rw [Balanced, lastNotice_append, hnotice, hstate]
  exact hs

/-- An action that shows nothing and leaves `sync_state_` alone. -/
theorem discreet_hidden {g : Esplayer → Esplayer} (hg : ∀ s, (g s).syncState = s.syncState) :
    Discreet fun s => (none, g s) :=
  fun s => ⟨hg s, fun _ he => by cases he⟩

/-- An action that shows one event, no notice, and leaves `sync_state_` alone. -/
theorem discreet_shown {e : Esplayer → Event} {g : Esplayer → Esplayer}
    (he : ∀ s, (e s).notice = none) (hg : ∀ s, (g s).syncState = s.syncState) :
    Discreet fun s => (some (e s), g s) :=
  fun s => ⟨hg s, fun _ h => by obtain rfl := Option.mem_some.mp h; exact he s⟩

theorem discreet_performAction (env : Env) (call : Call) : Discreet (performAction env call) := by
  have huntouched : Untouched Esplayer.syncState :=
    ⟨fun _ _ => rfl, fun _ _ => rfl, fun _ _ => rfl⟩
  refine fun s => ⟨(huntouched.perform env call).1 s, fun e he => ?_⟩
  obtain ⟨c, -, rfl⟩ := Option.map_eq_some_iff.mp he
  rfl

theorem ofCalls_discreet : OfCalls Discreet where
  read := discreet_hidden fun _ => rfl
  call env call _ := discreet_performAction env call
  admitted status s := by
    refine ⟨rfl, fun e he => ?_⟩
    dsimp only at he
    split at he
    · obtain rfl := Option.mem_some.mp he
      rfl
    · cases he
  loadedRead := discreet_shown (fun _ => rfl) fun _ => rfl
  lastPts _ := discreet_hidden fun _ => rfl

theorem discreet_read {α : Type} (g : Esplayer → α) : (read g : Op α).Does Discreet :=
  does_read g ofCalls_discreet.read

theorem discreet_perform (env : Env) (call : Call) : (perform env call).Does Discreet :=
  ⟨discreet_performAction env call, fun _ => trivial⟩

theorem ofTransport_discreet : OfTransport Discreet where
  toOfCalls := ofCalls_discreet
  rate env _ := discreet_performAction env _
  runRenderer _ _ := discreet_hidden fun _ => rfl
  runMessages _ _ := discreet_hidden fun _ => rfl
  targetPlaybackRate _ := discreet_hidden fun _ => rfl

theorem ofFlush_discreet : OfFlush Discreet where
  toOfCalls := ofCalls_discreet
  cleared _ := discreet_shown (fun _ => rfl) fun _ => rfl
  clearRenderer _ := discreet_hidden fun _ => rfl
  pts _ := discreet_hidden fun _ => rfl
  eos _ := discreet_hidden fun _ => rfl
  trickMode _ := discreet_hidden fun _ => rfl

theorem discreet_transit (status : Status) :
    Discreet fun s => (some (.transit s.status status), { s with status := status }) :=
  discreet_shown (fun _ => rfl) fun _ => rfl

theorem ofLoad_discreet : OfLoad Discreet where
  read := ofCalls_discreet.read
  call env call _ := discreet_performAction env call
  transit := discreet_transit .loaded
  enable _ _ := discreet_hidden fun _ => rfl
  md _ := discreet_hidden fun _ => rfl
  swDecoder _ := discreet_hidden fun _ => rfl
  eos := discreet_hidden fun _ => rfl

/-! ## The calls of the interface -/

theorem load_discreet (env : Env) (metaData : MetaData) : (load env metaData).Does Discreet := by
  refine Does.bind ⟨ofCalls_discreet.loadedRead, fun _ => trivial⟩ fun _ =>
    Does.ite (fun _ => does_pure _) fun _ => ?_
  refine Does.bind ⟨ofCalls_discreet.admitted _, fun _ => trivial⟩ fun _ =>
    Does.ite (fun _ => ?_) fun _ => does_pure _
  refine Does.bind (does_exchange _ _ (discreet_hidden fun _ => rfl)) fun _ => ?_
  exact ofLoad_discreet.acquire env metaData

theorem loadCall_discreet (env : Env) (metaData : MetaData) (units : Option PtsUnits) :
    (loadCall env metaData units).Does Discreet := by
  cases units with
  | none => exact load_discreet env metaData
  | some units =>
      exact Does.bind (does_exchange _ _ (discreet_hidden fun _ => rfl)) fun _ =>
        load_discreet env metaData

theorem unload_discreet (env : Env) : (unload env).Does Discreet := by
  have hhidden : ∀ {α : Type} (g : Esplayer → α) (f : Esplayer → Esplayer),
      (∀ s, (f s).syncState = s.syncState) → (exchange g f : Op α).Does Discreet :=
    fun g f hf => does_exchange g f (discreet_hidden hf)
  have hdestroy : ∀ c, (destroyComponent c).Does Discreet := fun c =>
    Does.bind (discreet_read _) fun _ => Does.onlyIf fun _ =>
      does_emit _ _ (discreet_shown (fun _ => rfl) fun _ => rfl)
  refine Does.bind ⟨ofCalls_discreet.admitted _, fun _ => trivial⟩ fun _ =>
    Does.ite (fun _ => Does.withLock ?_) fun _ => does_pure _
  refine Does.bind (hhidden _ _ fun _ => rfl) fun _ => Does.ite (fun _ => ?_) fun _ => does_pure _
  refine Does.bind ofFlush_discreet.clearFrameQueues fun _ => ?_
  refine Does.bind (hhidden _ _ fun _ => rfl) fun _ => ?_
  refine Does.bind (ofCalls_discreet.logCalls env (by decide)) fun _ => ?_
  refine Does.bind (does_forM fun c _ => hdestroy c) fun _ => ?_
  refine Does.bind (does_emit _ _ (discreet_transit _)) fun _ => ?_
  exact Does.bind (does_logIfNonzero (discreet_perform env _)) fun _ => does_pure _

/-- Every call but `play` is discreet. -/
theorem api_discreet (env : Env) {a : ApiCall} (ha : a ≠ .play) : (a.prog env).Does Discreet := by
  cases a with
  | play => exact absurd rfl ha
  | load metaData units =>
      exact Does.bind (loadCall_discreet env metaData units) fun _ => does_pure _
  | unload => exact unload_discreet env
  | pause => exact ofTransport_discreet.pause discreet_transit env
  | flush => exact ofFlush_discreet.flush discreet_transit env
  | stepFrame => exact ofCalls_discreet.stepFrame discreet_transit env
  | setPlaybackRate rate => exact ofTransport_discreet.setPlaybackRate env rate

/-- `play` past its entry check allows the video, and posts no notice. -/
theorem playAdmitted_allows (env : Env) (s : Esplayer) :
    ((playAdmitted env).run s).2.syncState = .allowVideo ∧
      lastNotice ((playAdmitted env).trace s) = none := by
  obtain ⟨rest, hrest, heq⟩ : ∃ rest : Op Int, rest.Does Discreet ∧
      playAdmitted env =
        (write fun s => { s with syncState := .allowVideo }) >>= fun _ => rest := by
    refine ⟨_, ?_, rfl⟩
    refine Does.bind (discreet_read _) fun _ => ?_
    refine Does.bind (Does.onlyIf fun _ => does_exchange _ _ (ofCalls_discreet.lastPts _))
      fun _ => ?_
    refine Does.bind (ofTransport_discreet.playBody env) fun _ => ?_
    refine Does.bind (does_emit _ _ (discreet_transit _)) fun _ => ?_
    exact Does.bind (ofTransport_discreet.setRunningStates true) fun _ => does_pure _
  rw [heq, run_bind, trace_bind, run_write, trace_write, List.nil_append]
  exact discreet_run hrest { s with syncState := .allowVideo }

theorem play_run (env : Env) (s : Esplayer) :
    ((play env).run s).2.syncState =
        (if s.status.canTransit .playing then .allowVideo else s.syncState) ∧
      lastNotice ((play env).trace s) = none := by
  have hadmitted := discreet_run (p := canTransit .playing)
    ⟨ofCalls_discreet.admitted _, fun _ => trivial⟩ s
  unfold play
  rw [run_bind, trace_bind, lastNotice_append, hadmitted.2, run_canTransit]
  by_cases hcan : s.status.canTransit .playing = true
  · rw [if_pos hcan, if_pos hcan]
    simpa using playAdmitted_allows env s
  · rw [if_neg hcan, if_neg hcan]
    exact ⟨rfl, rfl⟩

/-! ## Feeding -/

section Feeding

attribute [local irreducible] StreamBuffer.dataLen

/-- The branch for audio leaves `sync_state_` to the end of `setOmxFlags`. -/
theorem syncAudio_syncState (used : Nat) (lastPts : StreamType → Int) (d : SyncDecision) :
    (syncAudio used lastPts d).syncState = d.syncState := by
  unfold syncAudio
  dsimp only
  split_ifs <;> rfl

/-- The branch for video may write `sync_state_` at once, but then `sync_state_new` is still what
it was: a video that was held is held again. -/
theorem syncVideo_held (used : Nat) (lastPts : StreamType → Int) {d : SyncDecision}
    (hnew : d.syncStateNew = d.syncState) :
    (d.syncState = .holdVideo →
      (syncVideo used lastPts d).syncState = .holdVideo ∨
        (syncVideo used lastPts d).syncStateNew = .holdVideo) ∧
    ((syncVideo used lastPts d).syncState = .holdVideo → d.syncState = .holdVideo) := by
  unfold syncVideo
  dsimp only
  split_ifs <;> simp_all

theorem sync_held (s : Esplayer) (i : StreamType) (used : Nat) (flags : BitVec 32) :
    (s.syncState = .holdVideo →
      (s.sync i used flags).syncState = .holdVideo ∨
        (s.sync i used flags).syncStateNew = .holdVideo) ∧
    ((s.sync i used flags).syncState = .holdVideo → s.syncState = .holdVideo) := by
  cases i with
  | audioEs =>
      have hkeep : (s.sync .audioEs used flags).syncState = s.syncState :=
        syncAudio_syncState used s.lastPts ⟨flags, s.syncState, s.syncState⟩
      rw [hkeep]
      exact ⟨.inl, id⟩
  | videoEs =>
      exact syncVideo_held used s.lastPts (d := ⟨flags, s.syncState, s.syncState⟩) rfl

/-- The notice posted tells the state committed, and without a notice the video is held as it was
before. -/
theorem sync_commit (s : Esplayer) (i : StreamType) (used : Nat) (flags : BitVec 32) :
    (∀ high, (s.sync i used flags).commit.2 = some high →
      (high = true ↔ (s.sync i used flags).commit.1 = .holdVideo)) ∧
    ((s.sync i used flags).commit.2 = none →
      ((s.sync i used flags).commit.1 = .holdVideo ↔ s.syncState = .holdVideo)) := by
  obtain ⟨hheld, hback⟩ := sync_held s i used flags
  generalize s.sync i used flags = d at hheld hback
  unfold SyncDecision.commit
  split
  case isTrue =>
    refine ⟨fun high h => ?_, fun h => by cases h⟩
    obtain rfl := Option.some.inj h
    simp
  case isFalse hnot =>
    split
    case isTrue =>
      refine ⟨fun high h => ?_, fun h => by cases h⟩
      obtain rfl := Option.some.inj h
      simp
    case isFalse =>
      refine ⟨fun high h => (by cases h), fun _ => ⟨hback, fun h => ?_⟩⟩
      rcases hheld h with hstate | hnew
      · exact hstate
      · by_contra hstate
        exact hnot ⟨hstate, hnew⟩

theorem discreet_query (c : ComponentName) (g : Component → Nat) : (query c g).Does Discreet :=
  ⟨discreet_shown (fun _ => rfl) fun _ => rfl, fun _ => trivial⟩

/-- The section on `sync_state_` and the notice that follows it. -/
theorem setOmxFlags_carries (f : Frame) (pts : Int) (flags : BitVec 32) :
    (setOmxFlags f pts flags).Carries Balanced := by
  unfold setOmxFlags
  refine Carries.bind (discreet_carries (discreet_query _ _)) fun used => ?_
  refine Carries.bind (discreet_carries (discreet_query _ _)) fun _ => ?_
  intro d s hs
  obtain ⟨hsome, hnone⟩ := sync_commit s f.streamType used flags
  rw [run_bind, trace_bind]
  simp only [Prog.run, Prog.trace]
  generalize hr : (s.sync f.streamType used flags).commit.2 = r at hsome hnone
  cases r with
  | some high =>
      show lastNotice (d ++ [.synced f.streamType f, .notifyVideo high]) = some .high ↔
        (s.sync f.streamType used flags).commit.1 = .holdVideo
      rw [lastNotice_append, ← hsome high rfl]
      cases high with
      | true =>
          show some VideoNotice.high = some .high ↔ true = true
          simp
      | false =>
          show some VideoNotice.low = some .high ↔ false = true
          simp
  | none =>
      show lastNotice (d ++ [.synced f.streamType f]) = some .high ↔
        (s.sync f.streamType used flags).commit.1 = .holdVideo
      rw [lastNotice_append, hnone rfl]
      exact hs

theorem ofFeed_discreet (i : StreamType) : OfFeed i Discreet where
  read := ofCalls_discreet.read
  use := discreet_shown (fun _ => rfl) fun _ => rfl
  get s := by
    refine ⟨rfl, fun e he => ?_⟩
    obtain ⟨f, -, rfl⟩ := Option.map_eq_some_iff.mp he
    rfl
  pop := discreet_shown (fun _ => rfl) fun _ => rfl
  adjust _ := discreet_shown (fun _ => rfl) fun _ => rfl
  write _ _ _ _ _ := discreet_shown (fun _ => rfl) fun _ => rfl
  cleared := ofFlush_discreet.cleared i
  fed _ := discreet_shown (fun _ => rfl) fun _ => rfl

theorem feedVideoFrame_carries (env : FeedEnv) (f : Frame) :
    (feedVideoFrame env f).Carries Balanced := by
  have hfeed := ofFeed_discreet .videoEs
  have hflags : ∀ pts, (videoFlags f pts).Carries Balanced := fun pts =>
    Carries.ite (setOmxFlags_carries f pts _) (carries_pure _)
  refine Carries.bind (discreet_carries (hfeed.adjustFrame f)) fun pts => ?_
  refine Carries.bind (hflags pts) fun flags => ?_
  refine Carries.bind (discreet_carries (hfeed.writeVideo env f pts flags)) fun written => ?_
  cases written with
  | some writtenLen =>
      exact Carries.bind (discreet_carries hfeed.popBufQueue) fun _ => carries_pure _
  | none => exact carries_pure _

theorem feedAudioFrame_carries (env : FeedEnv) (f : Frame) :
    (feedAudioFrame env f).Carries Balanced := by
  have hfeed := ofFeed_discreet .audioEs
  have hwrite : ∀ pts flags ret data, (writeAudio env f pts flags ret data).Carries Balanced :=
    fun pts flags ret data => discreet_carries (hfeed.writeAudio env f pts flags ret data)
  refine Carries.bind (discreet_carries (hfeed.audioPts f)) fun pts => ?_
  refine Carries.ite ?_ (hwrite _ _ _ _)
  refine Carries.bind (setOmxFlags_carries f pts _) fun flags => ?_
  exact Carries.bind (discreet_carries (discreet_read _)) fun _ => hwrite _ _ _ _

theorem feedStream_carries (env : FeedEnv) (i : StreamType) :
    (feedStream env i).Carries Balanced := by
  have hfeed := ofFeed_discreet i
  have hlock := discreet_carries hfeed.lockUnlessPlaying
  have hheld : ∀ c : ComponentName,
      (read fun s : Esplayer => (s.component c).isSome).Carries Balanced :=
    fun c => discreet_carries (discreet_read _)
  have hquery : ∀ g, (query i.codec g).Carries Balanced :=
    fun g => discreet_carries (hfeed.query g)
  have hget := discreet_carries hfeed.getBufQueue
  have hclear : (clearBufQueue i >>= fun _ => pure 0 : Op Int).Carries Balanced :=
    discreet_carries (Does.bind (does_emit _ _ hfeed.cleared) fun _ => does_pure _)
  cases i with
  | audioEs =>
      refine Carries.bind hlock fun _ => Carries.bind (hheld _) fun _ => Carries.ite ?_ hclear
      refine Carries.bind (hquery _) fun free => Carries.ite (carries_pure _) ?_
      refine Carries.bind hget fun buff => ?_
      cases buff with
      | some f => exact feedAudioFrame_carries env f
      | none => exact carries_pure _
  | videoEs =>
      refine Carries.bind hlock fun _ => Carries.bind (hheld _) fun _ => Carries.ite ?_ hclear
      refine Carries.bind hget fun buff => ?_
      cases buff with
      | some f =>
          refine Carries.bind (hquery _) fun _ => Carries.bind (hquery _) fun free => ?_
          exact Carries.ite (carries_pure _) (feedVideoFrame_carries env f)
      | none => exact carries_pure _

theorem feedMessage_carries (env : FeedEnv) (i : StreamType) :
    (feedMessage env i).Carries Balanced := by
  refine Carries.bind (feedStream_carries env i) fun feedLen => discreet_carries ?_
  exact Does.bind (does_emit _ _ ((ofFeed_discreet i).fed feedLen)) fun _ => does_pure _

theorem feedData_discreet (buff : Option StreamBuffer) : (feedData buff).Does Discreet :=
  does_feedData ofCalls_discreet.read ofCalls_discreet.loadedRead fun _ _ =>
    ⟨discreet_shown (fun _ => rfl) fun _ => rfl, discreet_shown (fun _ => rfl) fun _ => rfl⟩

end Feeding

/-! ## The port settings -/

/-- Once the parameters have been read the video is allowed, and the client is told. -/
theorem changePortSetting_carries (env : Env) : (changePortSetting env).Carries Balanced := by
  have hexecute : ∀ first : Bool, (onlyIf first do
      logIfNonzero (performIfHeld env .videoRenderer (.setState .videoRenderer .executing))
      write fun s : Esplayer => { s with isFirstPortSettingChange := false }).Does Discreet :=
    fun first => Does.onlyIf fun _ =>
      Does.bind (does_logIfNonzero (ofCalls_discreet.performIfHeld env _ _ rfl)) fun _ =>
        does_exchange _ _ (discreet_hidden fun _ => rfl)
  refine Carries.bind (discreet_carries (discreet_perform env _)) fun _ => ?_
  refine Carries.bind (discreet_carries (does_logIfNonzero (discreet_perform env _))) fun _ => ?_
  refine Carries.bind (discreet_carries (discreet_read _)) fun first => ?_
  refine Carries.bind (discreet_carries (hexecute first)) fun _ => ?_
  intro d s _
  rw [run_bind, trace_bind, run_read, trace_read, run_bind, trace_bind, run_onlyIf, trace_onlyIf,
    List.nil_append]
  have hnotice : lastNotice (d ++ [.notifyPortChanged]) ≠ some .high := by
    rw [lastNotice_append]
    show some VideoNotice.portChanged ≠ some .high
    simp
  split
  case isTrue => exact iff_of_false hnotice (show SyncState.allowVideo ≠ .holdVideo by decide)
  case isFalse hstate =>
    have hallow : s.syncState = .allowVideo := not_not.mp hstate
    refine iff_of_false hnotice ?_
    show s.syncState ≠ .holdVideo
    rw [hallow]
    decide

theorem onPortSettingChanged_carries (env : Env) :
    (onPortSettingChanged env).Carries Balanced := by
  have hlog : ∀ c call, call.plain = true →
      (logIfNonzero (performIfHeld env c call)).Carries Balanced := fun c call hcall =>
    discreet_carries (does_logIfNonzero (ofCalls_discreet.performIfHeld env c call hcall))
  refine Carries.bind (hlog _ _ rfl) fun _ => Carries.bind (hlog _ _ rfl) fun _ => ?_
  refine Carries.bind (discreet_carries (discreet_perform env _)) fun ret => ?_
  exact Carries.ite (carries_pure _) (changePortSetting_carries env)

/-! ## Runs -/

theorem returnBuffer_discreet (i : StreamType) (index : Nat) :
    (returnBuffer i index).Does Discreet :=
  Does.bind (does_exchange _ _ (discreet_hidden fun _ => rfl)) fun _ =>
    does_pure _

/-- A step that is not a `play` of a player that holds the video keeps the balance. -/
theorem flow_balanced {s t : Session} {a : FlowAct} (ha : PlayUnheld s a)
    (hs : Balanced s.history s.player) (h : s.flow a = some t) : Balanced t.history t.player := by
  obtain rfl := Option.some.inj h
  cases a with
  | call a env =>
      by_cases hplay : a = .play
      · subst hplay
        obtain ⟨hstate, hnotice⟩ := play_run env s.player
        show lastNotice (s.history ++ (play env).trace s.player) = some .high ↔
          ((play env).run s.player).2.syncState = .holdVideo
        rw [lastNotice_append, hnotice, hstate]
        by_cases hcan : s.player.status.canTransit .playing = true
        · have hfree : s.player.syncState ≠ .holdVideo :=
            fun hheld => ha ⟨⟨env, rfl⟩, hcan, hheld⟩
          rw [if_pos hcan]
          exact iff_of_false (fun hlast => hfree (hs.mp hlast)) (by decide)
        · rw [if_neg hcan]
          exact hs
      · exact discreet_carries (api_discreet env hplay) _ _ hs
  | feedData buff => exact discreet_carries (feedData_discreet buff) _ _ hs
  | attempt i env => exact feedMessage_carries env i _ _ hs
  | emptyBufferDone i index => exact discreet_carries (returnBuffer_discreet i index) _ _ hs
  | portSettingChanged env => exact onPortSettingChanged_carries env _ _ hs

theorem leavesNotStranded_iff {s : Session} (hs : Balanced s.history s.player) (a : FlowAct) :
    LeavesNotStranded s a ↔ PlayUnheld s a := by
  constructor
  · rintro h ⟨⟨env, rfl⟩, hcan, hheld⟩
    have hlast := h _ rfl
    obtain ⟨hstate, hnotice⟩ := play_run env s.player
    have hfree : ((play env).run s.player).2.syncState = .holdVideo := by
      refine hlast ?_
      show lastNotice (s.history ++ (play env).trace s.player) = some .high
      rw [lastNotice_append, hnotice]
      exact hs.mpr hheld
    rw [hstate, if_pos hcan] at hfree
    cases hfree
  · intro h t ht
    exact (flow_balanced h hs ht).mp

/-- A frame of one byte is queued and fed. -/
def queueAndFeed (i : StreamType) (timestamp : Int) : List FlowAct :=
  [.feedData (some { data := [0], streamType := i, timestamp := timestamp }), .attempt i {}]

/-- A run in which the video gets two seconds ahead of the audio. -/
def videoAhead : List FlowAct :=
  [.call (.load { videoCodec := .h264, audioCodec := .pcm44100 } (some .microsecs)) fun _ => 0,
    .call .play fun _ => 0] ++
  queueAndFeed .audioEs 1 ++ queueAndFeed .videoEs 2000000 ++ queueAndFeed .videoEs 2000001

theorem videoAhead_held : ∃ t, Lts.exec Session.flow {} videoAhead = some t ∧
    t.player.status = .playing ∧ lastNotice t.history = some .high ∧
    t.player.syncState = .holdVideo :=
  ⟨_, rfl, rfl, rfl, rfl⟩

end DirectMedia
