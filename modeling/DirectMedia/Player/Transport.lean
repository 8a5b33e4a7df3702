import DirectMedia.Player.OmxStates
import DirectMedia.Player.Transitions

set_option autoImplicit false

/-! # Clock and loopers follow the status

`setPlaybackRate` records the rate and sends it to the clock while the player is loaded or plays;
`play` and `pause` send a scale of their own, and switch the loopers. Where every call succeeds the
clock runs at the recorded rate and the loopers run while the player plays, and the clock stands and
the loopers wait while it is paused.
-/

namespace DirectMedia

open Prog

/-- The four loopers are all running, or all waiting. -/
def Esplayer.AllRunning (s : Esplayer) (run : Bool) : Prop :=
  ∀ i, (s.renderer i).running = run ∧ (s.messages i).running = run

/-- The last scale sent, the recorded rate and the flags of the loopers. -/
def Esplayer.transport (s : Esplayer) :
    Option Int × Int × (StreamType → Bool) × (StreamType → Bool) :=
  (s.scale, s.targetPlaybackRate, fun i => (s.renderer i).running, fun i => (s.messages i).running)

/-- Clock and loopers are as the status wants them. -/
structure TransportFollows (s : Esplayer) : Prop where
  playing : s.status = .playing →
    s.scale = some (clockScale s.targetPlaybackRate) ∧ s.AllRunning true
  paused : s.status = .paused → s.scale = some 0 ∧ s.AllRunning false

theorem allRunning_of_transport {s t : Esplayer} (h : t.transport = s.transport) {run : Bool}
    (hs : s.AllRunning run) : t.AllRunning run := by
  simp only [Esplayer.transport, Prod.mk.injEq] at h
  intro i
  rw [congrFun h.2.2.1 i, congrFun h.2.2.2 i]
  exact hs i

theorem TransportFollows.congr {s t : Esplayer} (hs : TransportFollows s)
    (hstatus : t.status = s.status) (h : t.transport = s.transport) : TransportFollows t := by
  have hscale : t.scale = s.scale := congrArg Prod.fst h
  have hrate : t.targetPlaybackRate = s.targetPlaybackRate := congrArg (·.2.1) h
  constructor
  · intro hplaying
    obtain ⟨hsent, hrun⟩ := hs.playing (hstatus ▸ hplaying)
    exact ⟨by rw [hscale, hrate, hsent], allRunning_of_transport h hrun⟩
  · intro hpaused
    obtain ⟨hsent, hrun⟩ := hs.paused (hstatus ▸ hpaused)
    exact ⟨by rw [hscale, hsent], allRunning_of_transport h hrun⟩

/-! ## Programs that leave clock and loopers alone -/

theorem transport_onComponent (s : Esplayer) (c : ComponentName) (f : Component → Component) :
    (s.onComponent c f).transport = s.transport := rfl

theorem transport_configured (s : Esplayer) (c size : ComponentName) :
    (s.configured c size).transport = s.transport := by
  unfold Esplayer.configured
  split
  · exact transport_onComponent s c _
  · rfl

/-- Only `setPlaybackRate` sends a scale. -/
theorem transport_performAction (env : Env) {call : Call} (hcall : call.setsRate = false)
    (s : Esplayer) : (performAction env call s).2.transport = s.transport := by
  unfold performAction Call.effect Call.failure
  cases call
  case setPlaybackRate rate => cases hcall
  all_goals
    dsimp only
    split
    · first | rfl | exact transport_configured s _ _
    · first | rfl | exact transport_configured s _ _

theorem Call.setsRate_of_plain {call : Call} (h : call.plain = true) : call.setsRate = false := by
  cases call with
  | setPlaybackRate rate => cases h
  | _ => rfl

theorem ofFlush_transport : OfFlush fun f => ∀ s, (f s).2.transport = s.transport where
  read _ := rfl
  call env _ hcall s := transport_performAction env (Call.setsRate_of_plain hcall) s
  admitted _ _ := rfl
  loadedRead _ := rfl
  cleared _ _ := rfl
  clearRenderer i s := by
    simp only [Esplayer.transport, Esplayer.onRenderer, Prod.mk.injEq, true_and, and_true]
    funext j
    by_cases hj : j = i
    · subst hj
      simp [Looper.clearAll]
    · simp [Function.update_of_ne hj]
  pts _ _ := rfl
  lastPts _ _ := rfl
  eos _ _ := rfl
  trickMode _ _ := rfl

theorem flush_transport (env : Env) (s : Esplayer) :
    ((flush env).run s).2.transport = s.transport :=
  Keeps.run (ofFlush_transport.flush (fun _ _ => rfl) env) s

theorem stepFrame_transport (env : Env) (s : Esplayer) :
    ((stepFrame env).run s).2.transport = s.transport :=
  Keeps.run (ofFlush_transport.stepFrame (fun _ _ => rfl) env) s

theorem changeComponentsState_transport (env : Env) (state : OmxState) (s : Esplayer) :
    ((changeComponentsState env state).run s).2.transport = s.transport :=
  Keeps.run (ofFlush_transport.changeStates env state _) s

/-! ## Play, pause and the rate -/

theorem setRunningStates_allRunning (run : Bool) (s : Esplayer) :
    ((setRunningStates run).run s).2.AllRunning run := by
  intro i
  cases i with
  | audioEs => exact ⟨rfl, rfl⟩
  | videoEs => exact ⟨rfl, rfl⟩

section Operations

variable {env : Env} (henv : OmxSucceeds env)

include henv

theorem run_setRate (rate : Int) (s : Esplayer) :
    (perform env (.setPlaybackRate rate)).run s =
      (0, { s with scale := some (clockScale rate) }) := by
  rw [run_perform, if_pos (henv _ rfl), henv _ rfl]
  rfl

/-- After the rate has been sent, the program sends no other. -/
theorem transport_setRate {α : Type} {rest : Op α} (hrest : rest.Keeps Esplayer.transport)
    (rate : Int) (result : α) (s : Esplayer) :
    ((breakIfNonzero (perform env (.setPlaybackRate rate)) result rest).run s).2.transport =
      ({ s with scale := some (clockScale rate) } : Esplayer).transport := by
  rw [run_breakIfNonzero, run_setRate henv, if_neg (by simp)]
  exact hrest.run _

/-- From `NDL_ESP_STATUS_LOADED` and `NDL_ESP_STATUS_PAUSED` `play` sends the recorded rate. -/
theorem playBody_transport (s : Esplayer) :
    ((playBody env).run s).2.transport =
      if s.status = .loaded ∨ s.status = .paused then
        ({ s with scale := some (clockScale s.targetPlaybackRate) } : Esplayer).transport
      else s.transport := by
  have hcall : ∀ call : Call, call.setsRate = false →
      (logIfNonzero (perform env call)).Keeps Esplayer.transport := fun call hcall =>
    does_logIfNonzero ⟨transport_performAction env hcall, fun _ => trivial⟩
  have hcodec : (logIfNonzero (performIfHeld env .videoCodec
      (.setState .videoCodec .executing))).Keeps Esplayer.transport :=
    does_logIfNonzero (ofFlush_transport.performIfHeld env _ _ rfl)
  have hstates : (changeComponentsState env .executing).Keeps Esplayer.transport :=
    ofFlush_transport.changeStates env _ _
  simp only [playBody, run_bind, run_read, run_ite]
  by_cases hloaded : s.status = .loaded
  · rw [if_pos hloaded, if_pos (.inl hloaded), playLoaded, run_bind, run_read]
    refine transport_setRate henv ?_ _ _ s
    refine Keeps.bind hcodec fun _ => Keeps.bind (keeps_read _ _) fun _ => ?_
    refine Keeps.bind (Keeps.onlyIf (Keeps.bind (keeps_read _ _) fun _ => hcall _ rfl)) fun _ => ?_
    refine Keeps.bind (hcall _ rfl) fun _ => Keeps.bind (hcall _ rfl) fun _ => ?_
    exact Keeps.bind (hcall _ rfl) fun _ => keeps_pure _ _
  · rw [if_neg hloaded]
    by_cases hpaused : s.status = .paused
    · rw [if_pos hpaused, if_pos (.inr hpaused), playPaused, run_bind, run_read]
      exact transport_setRate henv (does_breakIfNonzero hstates (keeps_pure _ _)) _ _ s
    · rw [if_neg hpaused, if_neg (by simp [hloaded, hpaused])]
      rfl

theorem play_transport {s : Esplayer} (hcan : s.status.canTransit .playing = true) :
    ((play env).run s).2.scale =
        (if s.status = .loaded ∨ s.status = .paused then some (clockScale s.targetPlaybackRate)
          else s.scale) ∧
      ((play env).run s).2.targetPlaybackRate = s.targetPlaybackRate ∧
      ((play env).run s).2.AllRunning true := by
  simp only [play, run_bind, run_canTransit, hcan, if_true, playAdmitted, run_write, run_read,
    run_onlyIf, run_transit, run_pure]
  generalize hu : (if s.status ≠ .paused then _ else _ : Unit × Esplayer).2 = u
  have hstatus : u.status = s.status := by rw [← hu]; split <;> rfl
  have hscale : u.scale = s.scale := by rw [← hu]; split <;> rfl
  have hrate : u.targetPlaybackRate = s.targetPlaybackRate := by rw [← hu]; split <;> rfl
  have hbody := playBody_transport henv u
  rw [hstatus] at hbody
  generalize ((playBody env).run u).2 = t at hbody
  refine ⟨?_, ?_, setRunningStates_allRunning true _⟩
  · show t.scale = _
    rw [← hrate, ← hscale]
    by_cases hsend : s.status = .loaded ∨ s.status = .paused
    · rw [if_pos hsend] at hbody ⊢
      exact congrArg Prod.fst hbody
    · rw [if_neg hsend] at hbody ⊢
      exact congrArg Prod.fst hbody
  · show t.targetPlaybackRate = _
    rw [← hrate]
    split at hbody
    · exact congrArg (·.2.1) hbody
    · exact congrArg (·.2.1) hbody

/-- A playing player is paused, or `loaded_` is not set and nothing happens. -/
theorem pause_transport {s : Esplayer} (hs : s.status = .playing) :
    ((pause env).run s).2 = s ∨
      (((pause env).run s).2.status = .paused ∧ ((pause env).run s).2.scale = some 0 ∧
        ((pause env).run s).2.AllRunning false) := by
  have hcan : s.status.canTransit .paused = true := by rw [hs]; rfl
  simp only [pause, run_bind, run_canTransit, hcan, if_true, run_read]
  simp only [hs, reduceCtorEq, if_false, run_bind, run_read, run_readLoaded, run_ite, run_pure]
  by_cases hloaded : s.loaded = true
  · refine .inr ?_
    rw [if_pos hloaded]
    have hrun := setRunningStates_allRunning false s
    simp only [pauseLoaded, run_bind, run_withLock, pauseSection, run_breakIfNonzero,
      run_setRate henv, run_transit, run_pure]
    generalize ((setRunningStates false).run s).2 = t at hrun
    have haccept := (changeComponentsState_success_iff env .pause
      { t with scale := some (clockScale 0) }).mpr fun c _ _ => henv _ rfl
    have hkeep := changeComponentsState_transport env .pause { t with scale := some (clockScale 0) }
    rw [if_neg (by simp), if_neg (by simp [haccept])]
    refine ⟨rfl, congrArg Prod.fst hkeep, ?_⟩
    exact allRunning_of_transport (s := { t with scale := some (clockScale 0) }) hkeep hrun
  · refine .inl ?_
    rw [if_neg hloaded]

end Operations

/-! ## The invariant -/

/-- What holds between two calls. Once a load has completed there is a clock. -/
structure Transport (s : Esplayer) : Prop where
  status : s.status = .idle ∨ s.status = .loaded ∨ s.status = .playing ∨ s.status = .paused
  clock : s.status ≠ .idle → (s.component .clock).isSome
  follows : TransportFollows s

theorem transport_init : Transport {} :=
  ⟨.inl rfl, fun h => absurd rfl h, ⟨fun h => (by cases h), fun h => (by cases h)⟩⟩

/-- A call of the application whose component and clock calls all succeed. -/
structure TransportCall (a : ApiCall × Env) : Prop where
  omx : OmxSucceeds a.2
  notUnload : a.1 ≠ .unload

theorem Transport.congr {s t : Esplayer} (hs : Transport s) (hstatus : t.status = s.status)
    (hclock : (s.component .clock).isSome → (t.component .clock).isSome)
    (h : t.transport = s.transport) : Transport t where
  status := by rw [hstatus]; exact hs.status
  clock hne := hclock (hs.clock (hstatus ▸ hne))
  follows := hs.follows.congr hstatus h

/-! ## Each operation keeps it -/

/-- The player is idle or has a clock. -/
abbrev Clocked {α : Type} (p : Op α) : Prop :=
  p.Safe (fun s => s.status = .idle ∨ (s.component .clock).isSome) fun _ => True

theorem clocked_write {f : Esplayer → Esplayer} (hstatus : ∀ s, (f s).status = s.status)
    (hcomponent : ∀ s, (f s).component = s.component) : Clocked (write f) := by
  refine safe_write fun s hs => ?_
  rwa [hstatus, hcomponent]

theorem clocked_perform (env : Env) (call : Call) : Clocked (perform env call) := by
  refine fun s hs => ⟨fun _ _ => trivial, ?_⟩
  rcases hs with hs | hs
  · exact .inl (((untouched_status.perform env call).run s).trans hs)
  · exact .inr (perform_held env call hs)

section Load

variable {env : Env} (henv : OmxSucceeds env)

include henv

/-- The clock is the first component that `load` creates, and it stays. -/
theorem clocked_loadBody : Clocked (loadBody env) := by
  refine fun s _ => ⟨fun _ _ => trivial, .inr ?_⟩
  have hclock : ((loadClockComponent env).run s).1 = 0 ∧
      (((loadClockComponent env).run s).2.component .clock).isSome := by
    simp [loadClockComponent, breakSteps, henv (.create .clock) rfl, Call.effect, resultSuccess]
  rw [loadBody_eq, run_breakIfNonzero, if_neg (not_not.mpr hclock.1)]
  exact Does.run ((ofLoad_held .clock).loadAfterClock env) _ hclock.2

theorem clocked_loadAdmitted (metaData : MetaData) : Clocked (loadAdmitted env metaData) := by
  have hwrite : ∀ g : Esplayer → MetaData, Clocked (write fun s => { s with md := g s }) :=
    fun _ => clocked_write (fun _ => rfl) fun _ => rfl
  have hdecoded : Clocked (loadDecoded env metaData) :=
    Safe.bind (hwrite _) fun _ => Safe.bind (clocked_write (fun _ => rfl) fun _ => rfl) fun _ =>
      Safe.bind (clocked_loadBody henv) fun _ => safe_pure _
  have hdecoder : Clocked (loadDecoder env metaData (loadDecoded env metaData)) :=
    Safe.ite (safe_pure _) <| Safe.ite hdecoded <|
      Safe.bind (clocked_write (fun _ => rfl) fun _ => rfl) fun _ =>
        Safe.bind (clocked_perform env _) fun _ => Safe.ite (safe_pure _) hdecoded
  refine Safe.bind (clocked_write (fun _ => rfl) fun _ => rfl) fun _ => ?_
  refine Safe.bind (clocked_perform env _) fun _ => Safe.ite (safe_pure _) ?_
  refine Safe.bind (clocked_write (fun _ => rfl) fun _ => rfl) fun _ => ?_
  refine Safe.bind (Safe.onlyIf (hwrite _)) fun _ => ?_
  exact Safe.ite (Safe.bind (hwrite _) fun _ => hdecoder) hdecoded

theorem Transport.load {s : Esplayer} (hs : Transport s) (metaData : MetaData) :
    Transport ((load env metaData).run s).2 := by
  rcases load_cases env metaData s with ⟨-, h⟩ | ⟨-, -, h⟩ | ⟨-, hidle, h⟩
  · rwa [h]
  · rwa [h]
  · rw [h]
    have hstatus := (oneMove_loadAdmitted env metaData s (.inl hidle)).2
    have hclock := (clocked_loadAdmitted henv metaData s (.inl hidle)).2
    dsimp only at hstatus hclock
    refine ⟨?_, fun hne => hclock.resolve_left hne, fun hp => ?_, fun hp => ?_⟩
    · rcases hstatus with h | h
      · exact .inl h
      · exact .inr (.inl h)
    · rw [hp] at hstatus
      simp at hstatus
    · rw [hp] at hstatus
      simp at hstatus

end Load

section Steps

variable {env : Env} {s : Esplayer}

theorem Transport.play (henv : OmxSucceeds env) (hs : Transport s) :
    Transport ((play env).run s).2 := by
  have hclock := Does.run ((ofOperations_held .clock).play (fun _ _ hs => hs) env) s
  have hstatus := play_status env s
  by_cases hcan : s.status.canTransit .playing = true
  · have hidle : s.status ≠ .idle := fun h => by
      rw [h] at hcan
      cases hcan
    rw [if_pos hcan] at hstatus
    obtain ⟨hscale, hrate, hrun⟩ := play_transport henv hcan
    refine ⟨.inr (.inr (.inl hstatus)), fun _ => hclock (hs.clock hidle), fun _ => ⟨?_, hrun⟩,
      fun h => ?_⟩
    · rw [hscale, hrate]
      split
      case isTrue => rfl
      case isFalse hnot =>
          have hplaying : s.status = .playing := by
            rcases hs.status with h | h | h | h
            · exact absurd h hidle
            · exact absurd (.inl h) hnot
            · exact h
            · exact absurd (.inr h) hnot
          exact (hs.follows.playing hplaying).1
    · rw [hstatus] at h
      cases h
  · have hsame : ((DirectMedia.play env).run s).2 = s := by simp [DirectMedia.play, hcan]
    rwa [hsame]

theorem Transport.pause (henv : OmxSucceeds env) (hs : Transport s) :
    Transport ((pause env).run s).2 := by
  have hclock := Does.run ((ofOperations_held .clock).pause (fun _ _ hs => hs) env) s
  by_cases hplaying : s.status = .playing
  · rcases pause_transport henv hplaying with h | ⟨hstatus, hscale, hrun⟩
    · rwa [h]
    · refine ⟨.inr (.inr (.inr hstatus)), fun _ => hclock (hs.clock (by simp [hplaying])),
        fun h => ?_, fun _ => ⟨hscale, hrun⟩⟩
      rw [hstatus] at h
      cases h
  · -- an idle player cannot be paused; for a loaded or paused one there is nothing to do
    have hsame : ((DirectMedia.pause env).run s).2 = s := by
      simp only [DirectMedia.pause, run_bind, run_canTransit, run_ite, run_read]
      rcases hs.status with h | h | h | h
      · simp [h, Status.canTransit]
      · simp [h, Status.canTransit]
      · exact absurd h hplaying
      · simp [h, Status.canTransit]
    rwa [hsame]

theorem Transport.flush (henv : OmxSucceeds env) (hs : Transport s) :
    Transport ((flush env).run s).2 := by
  have hclock := Does.run ((ofOperations_held .clock).flush (fun _ _ hs => hs) env) s
  refine hs.congr ?_ hclock (flush_transport env s)
  by_cases hloaded : s.loaded = true
  · have hcan : s.status.canTransit .flushing = true := by
      rcases hs.status with h | h | h | h
      all_goals rw [h]; rfl
    exact (flush_status_iff env s hcan hloaded).mpr (.inr (.inr (.inr fun _ _ _ => henv _ rfl)))
  · rcases flush_status env s with h | ⟨h, -⟩
    · exact h
    · exact absurd h hloaded

theorem Transport.setPlaybackRate (henv : OmxSucceeds env) (hs : Transport s) (rate : Int) :
    Transport ((setPlaybackRate env rate).run s).2 := by
  unfold DirectMedia.setPlaybackRate
  rw [run_ite]
  split
  · exact hs
  simp only [run_bind, run_write, run_read, run_onlyIf, run_logIfNonzero, run_setRate henv,
    run_pure]
  -- the rate is sent exactly if the player is loaded or plays: then there is a clock
  rcases hs.status with h | h | h | h
  · rw [if_neg (by simp [h])]
    exact ⟨.inl h, hs.clock, fun hp => by simp [h] at hp, fun hp => by simp [h] at hp⟩
  · have hclock := hs.clock (by simp [h])
    rw [if_pos (by simp [h, hclock])]
    exact ⟨.inr (.inl h), hs.clock, fun hp => by simp [h] at hp, fun hp => by simp [h] at hp⟩
  · have hclock := hs.clock (by simp [h])
    rw [if_pos (by simp [h, hclock])]
    exact ⟨.inr (.inr (.inl h)), hs.clock, fun _ => ⟨rfl, (hs.follows.playing h).2⟩,
      fun hp => by simp [h] at hp⟩
  · rw [if_neg (by simp [h])]
    exact ⟨.inr (.inr (.inr h)), hs.clock, fun hp => by simp [h] at hp,
      fun _ => hs.follows.paused h⟩

end Steps

theorem Transport.step {s t : Session} {a : ApiCall × Env} (ha : TransportCall a)
    (hs : Transport s.player) (h : Session.step s a = some t) : Transport t.player := by
  obtain rfl := Option.some.inj h
  obtain ⟨call, env⟩ := a
  have henv : OmxSucceeds env := ha.omx
  cases call with
  | load metaData units =>
      have hunits : Transport (s.player.withUnits units) := by
        refine hs.congr (withUnits_status _) (fun h => by simpa using h) ?_
        cases units <;> rfl
      have hload := hunits.load henv metaData
      rw [← run_loadCall] at hload
      simpa [ApiCall.prog] using hload
  | unload => exact absurd rfl ha.notUnload
  | play => exact hs.play henv
  | pause => exact hs.pause henv
  | flush => exact hs.flush henv
  | stepFrame =>
      exact hs.congr (stepFrame_status env _)
        (Does.run ((ofOperations_held .clock).stepFrame (fun _ _ hs => hs) env) _)
        (stepFrame_transport env _)
  | setPlaybackRate rate => exact hs.setPlaybackRate henv rate

/-- **Clock and loopers follow the status.** In every run of the application's calls in which the
component and clock calls succeed, the last scale sent while playing is that of the recorded rate
and all loopers run; while paused it is zero and all loopers wait. -/
theorem transport_follows {calls : List (ApiCall × Env)} (hcalls : ∀ a ∈ calls, TransportCall a)
    {s : Session} (h : Lts.exec Session.step {} calls = some s) : TransportFollows s.player :=
  (Lts.exec_invariant (P := fun s : Session => Transport s.player) (Q := TransportCall)
    (fun _ _ _ ha hs hstep => hs.step ha hstep) hcalls transport_init h).follows

/-- The rate is doubled while the player is paused. -/
def doubledWhilePaused : List (ApiCall × Env) :=
  [(.load { videoCodec := .h264, audioCodec := .pcm44100 } none, fun _ => 0), (.play, fun _ => 0),
    (.pause, fun _ => 0), (.setPlaybackRate 2000, fun _ => 0), (.play, fun _ => 0)]

/-- The new rate is sent by the next `play`. -/
theorem transport_follows_doubled :
    ∃ s : Session, Lts.exec Session.step {} doubledWhilePaused = some s ∧
      s.player.status = .playing ∧ s.player.scale = some 131072 ∧ TransportFollows s.player := by
  refine ⟨_, rfl, rfl, rfl, ?_⟩
  have hcalls : ∀ a ∈ doubledWhilePaused, TransportCall a := by
    intro a ha
    simp only [doubledWhilePaused, List.mem_cons, List.not_mem_nil, or_false] at ha
    rcases ha with rfl | rfl | rfl | rfl | rfl
    all_goals exact ⟨fun _ _ => rfl, by simp⟩
  exact @transport_follows doubledWhilePaused hcalls _ rfl

end DirectMedia
