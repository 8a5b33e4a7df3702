import DirectMedia.Player.Api

set_option autoImplicit false

/-! # What a failed play or pause leaves behind

`play` writes the status and starts the loopers after its loop, whatever the loop has ended with;
`pause` stops them before it asks clock and components. So a failure leaves the player as it was
exactly if there is nothing to fail, or, for `pause`, if the loopers were stopped already
(`failure_unchanged_iff`).
-/

namespace DirectMedia

open Prog

/-- `running_` of the two loopers of a stream. -/
def Esplayer.running (s : Esplayer) (i : StreamType) : Bool × Bool :=
  ((s.renderer i).running, (s.messages i).running)

/-- Status and `running_` flags are as before. -/
def Unchanged (s t : Esplayer) : Prop := t.status = s.status ∧ t.running = s.running

/-- `play` ends in `NDL_ESP_STATUS_PLAYING`, or with an error that changes nothing. -/
def PlayAllOrNothing (env : Env) (s : Esplayer) : Prop :=
  (((play env).run s).1 = resultSuccess → ((play env).run s).2.status = .playing) ∧
    (((play env).run s).1 ≠ resultSuccess → Unchanged s ((play env).run s).2)

/-- An error of `pause` changes nothing. -/
def PauseAllOrNothing (env : Env) (s : Esplayer) : Prop :=
  ((pause env).run s).1 ≠ resultSuccess → Unchanged s ((pause env).run s).2

/-- The calls whose failure makes `play` fail are accepted. -/
def PlayAccepted (env : Env) (s : Esplayer) : Prop :=
  (s.status = .loaded ∨ s.status = .paused →
      env (.setPlaybackRate s.targetPlaybackRate) = 0) ∧
    (s.status = .paused → AllAccept env s .executing (stateOrder .executing))

/-- The calls of `pause` are accepted. -/
def PauseAccepted (env : Env) (s : Esplayer) : Prop :=
  env (.setPlaybackRate 0) = 0 ∧ AllAccept env s .pause (stateOrder .pause)

/-! ## The loopers -/

theorem untouched_running : Untouched Esplayer.running :=
  ⟨fun _ _ => rfl, fun _ _ => rfl, fun _ _ => rfl⟩

theorem ofCalls_running : OfCalls fun f => ∀ s, (f s).2.running = s.running where
  read _ := rfl
  call env call _ := (untouched_running.perform env call).1
  admitted _ _ := rfl
  loadedRead _ := rfl
  lastPts _ _ := rfl

theorem setRunningStates_running (run : Bool) (s : Esplayer) (i : StreamType) :
    ((setRunningStates run).run s).2.running i = (run, run) := by
  cases i <;> rfl

theorem keeps_component_setRunningStates (run : Bool) :
    (setRunningStates run).Keeps Esplayer.component := by
  refine Keeps.bind (keeps_write fun _ => rfl) fun _ => ?_
  refine Keeps.bind (keeps_write fun _ => rfl) fun _ => ?_
  refine Keeps.bind (keeps_write fun _ => rfl) fun _ => ?_
  exact keeps_write fun _ => rfl

/-! ## Play -/

theorem playLoaded_success_iff (env : Env) (s : Esplayer) :
    ((playLoaded env).run s).1 = resultSuccess ↔
      env (.setPlaybackRate s.targetPlaybackRate) = 0 := by
  simp only [playLoaded, run_bind, run_read, run_breakIfNonzero, run_perform]
  by_cases hrate : env (.setPlaybackRate s.targetPlaybackRate) = 0
  · simp [hrate]
  · simp [hrate, resultClockError, resultSuccess]

theorem playPaused_success_iff (env : Env) (s : Esplayer) :
    ((playPaused env).run s).1 = resultSuccess ↔
      env (.setPlaybackRate s.targetPlaybackRate) = 0 ∧
        AllAccept env s .executing (stateOrder .executing) := by
  simp only [playPaused, run_bind, run_read, run_breakIfNonzero, run_perform]
  by_cases hrate : env (.setPlaybackRate s.targetPlaybackRate) = 0
  · simp only [hrate, if_true, ne_eq, not_true, if_false, true_and]
    have haccept := changeComponentsState_success_iff env .executing
      ((Call.setPlaybackRate s.targetPlaybackRate).effect s)
    have hcomponent : ((Call.setPlaybackRate s.targetPlaybackRate).effect s).component =
        s.component := rfl
    rw [allAccept_of_component hcomponent] at haccept
    rw [← haccept]
    split
    case isTrue hfail => simp [hfail, resultSetStateError, resultSuccess]
    case isFalse hok => simpa [resultSuccess] using hok
  · simp [hrate, resultClockError, resultSuccess]

theorem playBody_success_iff (env : Env) (s : Esplayer) :
    ((playBody env).run s).1 = resultSuccess ↔ PlayAccepted env s := by
  simp only [playBody, run_bind, run_read, run_ite, PlayAccepted]
  by_cases hloaded : s.status = .loaded
  · simp [hloaded, playLoaded_success_iff]
  · by_cases hpaused : s.status = .paused
    · simp [hpaused, playPaused_success_iff]
    · simp [hloaded, hpaused]

/-- Past its entry check `play` returns what its loop ends with, and lets the loopers run. -/
theorem play_admitted (env : Env) (s : Esplayer) (hcan : s.status.canTransit .playing = true) :
    (((play env).run s).1 = resultSuccess ↔ PlayAccepted env s) ∧
      ∀ i, ((play env).run s).2.running i = (true, true) := by
  simp only [play, playAdmitted, run_bind, run_canTransit, hcan, if_true, run_write, run_read,
    run_pure]
  -- what comes before the loop writes no member that the loop branches on
  have hstart : Keeps (fun t => (t.status, t.component, t.targetPlaybackRate))
      (onlyIf (s.status ≠ .paused) <| write fun s : Esplayer =>
        { s with lastPts := Function.update s.lastPts .audioEs 0 } : Op Unit) :=
    Keeps.onlyIf (keeps_write fun _ => rfl)
  have hstart := hstart.run { s with syncState := .allowVideo }
  simp only [Prod.mk.injEq] at hstart
  generalize (Prog.run (onlyIf (s.status ≠ .paused) _) _).2 = t at *
  obtain ⟨hstatus, hcomponent, htarget⟩ := hstart
  refine ⟨?_, setRunningStates_running true _⟩
  rw [playBody_success_iff, PlayAccepted, PlayAccepted, hstatus, htarget,
    allAccept_of_component hcomponent, allAccept_of_component (t := { s with syncState := _ }) rfl]

/-- A loaded or paused player may play. -/
theorem playAccepted_of_not_canTransit {env : Env} {s : Esplayer}
    (h : ¬ s.status.canTransit .playing = true) : PlayAccepted env s := by
  constructor
  · rintro (hs | hs) <;> exact absurd (by rw [hs]; rfl) h
  · intro hs
    exact absurd (by rw [hs]; rfl) h

theorem playAllOrNothing_iff (env : Env) (s : Esplayer) :
    PlayAllOrNothing env s ↔ PlayAccepted env s := by
  by_cases hcan : s.status.canTransit .playing = true
  · obtain ⟨hresult, hrunning⟩ := play_admitted env s hcan
    have hstatus := play_status env s
    rw [if_pos hcan] at hstatus
    rw [PlayAllOrNothing, hresult, hstatus]
    refine ⟨fun h => ?_, fun h => ⟨fun _ => rfl, fun herr => absurd (hresult.mpr h) herr⟩⟩
    -- an error changes the status: it comes from a player that is loaded or paused
    by_contra herr
    have hsame := (h.2 (by rw [ne_eq, hresult]; exact herr)).1
    rw [hstatus] at hsame
    apply herr
    rw [PlayAccepted, ← hsame]
    simp
  · have hrun : (play env).run s = (resultFail, s) := by simp [play, hcan]
    rw [PlayAllOrNothing, hrun]
    have hfail : resultFail ≠ resultSuccess := by decide
    refine iff_of_true ⟨fun h => absurd h hfail, fun _ => ⟨rfl, rfl⟩⟩ ?_
    exact playAccepted_of_not_canTransit hcan

/-! ## Pause -/

/-- The section of `pause` moves the player only if all its calls are accepted. -/
theorem pauseSection_spec (env : Env) (s : Esplayer) :
    (((pauseSection env).run s).1 = resultSuccess ↔ PauseAccepted env s) ∧
      (((pauseSection env).run s).1 ≠ resultSuccess →
        Unchanged s ((pauseSection env).run s).2) := by
  have hstatus : ∀ t, ((changeComponentsState env .pause).run t).2.status = t.status :=
    Keeps.run (ofOperations_status.changeStates env .pause _)
  have hrunning : ∀ t, ((changeComponentsState env .pause).run t).2.running = t.running :=
    Keeps.run (ofCalls_running.changeStates env .pause _)
  simp only [pauseSection, run_breakIfNonzero, run_perform, PauseAccepted]
  by_cases hrate : env (.setPlaybackRate 0) = 0
  · have haccept := changeComponentsState_success_iff env .pause
      ((Call.setPlaybackRate 0).effect s)
    have hcomponent : ((Call.setPlaybackRate 0).effect s).component = s.component := rfl
    rw [allAccept_of_component hcomponent] at haccept
    simp only [hrate, if_true, ne_eq, not_true, if_false, true_and]
    rw [← haccept]
    split
    case isTrue hfail =>
      refine ⟨by simp [hfail, resultSetStateError, resultSuccess], fun _ => ⟨?_, ?_⟩⟩
      · rw [hstatus]; rfl
      · rw [hrunning]; rfl
    case isFalse hok =>
      simp [not_not.mp hok]
  · simp only [hrate, ne_eq, not_false_eq_true, if_true, if_false, false_and, iff_false]
    exact ⟨by decide, fun _ => ⟨rfl, rfl⟩⟩

/-- `pause` gets to its section from these statuses only, if the player is loaded. -/
def ReachesPause (s : Esplayer) : Prop :=
  (s.status = .playing ∨ s.status = .flushing ∨ s.status = .stepping) ∧ s.loaded = true

theorem pause_of_reaches {s : Esplayer} (env : Env) (h : ReachesPause s) :
    (pause env).run s = (pauseLoaded env).run s := by
  obtain ⟨hstatus, hloaded⟩ := h
  have hcan : s.status.canTransit .paused = true := by
    rcases hstatus with hs | hs | hs <;> rw [hs] <;> rfl
  have hnot : s.status ≠ .loaded ∧ s.status ≠ .paused := by
    rcases hstatus with hs | hs | hs <;> rw [hs] <;> decide
  simp [pause, hcan, hnot.1, hnot.2, hloaded]

theorem pause_of_not_reaches {s : Esplayer} (env : Env) (h : ¬ ReachesPause s) :
    ((pause env).run s).2 = s := by
  simp only [pause, run_bind, run_canTransit, run_ite, run_read, run_readLoaded, run_pure]
  split_ifs with hcan hloadedStatus hpaused hloaded
  · rfl
  · rfl
  · exfalso
    apply h
    refine ⟨?_, hloaded⟩
    revert hcan hloadedStatus hpaused
    cases s.status <;> simp [Status.canTransit]
  · rfl
  · rfl

theorem pauseAllOrNothing_iff (env : Env) (s : Esplayer) :
    PauseAllOrNothing env s ↔
      (ReachesPause s → PauseAccepted env s ∨ ∀ i, s.running i = (false, false)) := by
  by_cases hreach : ReachesPause s
  · have hset : ((setRunningStates false).run s).2.status = s.status :=
      Keeps.run (ofOperations_status.setRunningStates false) s
    have hcomponent := (keeps_component_setRunningStates false).run s
    have hrunning := setRunningStates_running false s
    rw [PauseAllOrNothing, pause_of_reaches env hreach]
    simp only [pauseLoaded, run_bind, run_withLock]
    generalize ((setRunningStates false).run s).2 = t at *
    obtain ⟨hresult, hfail⟩ := pauseSection_spec env t
    have haccepted : PauseAccepted env t ↔ PauseAccepted env s := by
      rw [PauseAccepted, PauseAccepted, allAccept_of_component hcomponent]
    rw [haccepted] at hresult
    refine ⟨fun h _ => ?_, fun h herr => ?_⟩
    · by_cases hok : PauseAccepted env s
      · exact .inl hok
      · refine .inr fun i => ?_
        have herr : ((pauseSection env).run t).1 ≠ resultSuccess := fun hs => hok (hresult.mp hs)
        rw [← (h herr).2, (hfail herr).2, hrunning]
    · have hstopped := (h hreach).resolve_left fun hok => herr (hresult.mpr hok)
      obtain ⟨hstatus, hsame⟩ := hfail herr
      refine ⟨hstatus.trans hset, hsame.trans (funext fun i => ?_)⟩
      rw [hrunning, hstopped]
  · refine iff_of_true (fun _ => ?_) fun h => absurd h hreach
    rw [pause_of_not_reaches env hreach]
    exact ⟨rfl, rfl⟩

/-- **Failed play and pause.** `play` is all or nothing exactly if clock and components accept what
it asks of them; `pause` also if there is nothing for it to stop. -/
theorem failure_unchanged_iff (env : Env) (s : Esplayer) :
    (PlayAllOrNothing env s ↔ PlayAccepted env s) ∧
      (PauseAllOrNothing env s ↔
        (ReachesPause s → PauseAccepted env s ∨ ∀ i, s.running i = (false, false))) :=
  ⟨playAllOrNothing_iff env s, pauseAllOrNothing_iff env s⟩

/-- The loopers of a player that plays. -/
def runningPlayer (status : Status) : Esplayer :=
  { playingPlayer with
    status := status
    renderer := fun _ => { Looper.init 0 with running := true }
    messages := fun _ => { Looper.init 0 with running := true } }

/-- The audio renderer refuses to pause and to execute. -/
def refusingRenderer (call : Call) : Int :=
  if call = .setState .audioRenderer .pause ∨ call = .setState .audioRenderer .executing then 1
  else 0

/-- Then `play` fails and the player plays; `pause` fails and the loopers stand still. -/
theorem failure_changes :
    ((play refusingRenderer).run (runningPlayer .paused)).1 = resultSetStateError ∧
      ((play refusingRenderer).run (runningPlayer .paused)).2.status = .playing ∧
      ((pause refusingRenderer).run (runningPlayer .playing)).1 = resultSetStateError ∧
      ((pause refusingRenderer).run (runningPlayer .playing)).2.running .videoEs =
        (false, false) ∧
      (runningPlayer .playing).running .videoEs = (true, true) :=
  ⟨by decide, by decide, by decide, by decide, rfl⟩

end DirectMedia
