import DirectMedia.Player.OmxStates

set_option autoImplicit false

/-! # Component states follow the status

With audio and video, and where every OMX call succeeds, the five components that can be paused are
all executing while the player plays and all paused while it is paused. `play` from
`NDL_ESP_STATUS_LOADED` moves only three of them and relies on `load` for the clock and the audio
renderer; `flush` pauses all of them and resumes them only if the player played. So the invariant
is lost exactly by a `play` of a loaded player that was flushed before (`states_follow_iff`).
-/

namespace DirectMedia

open Prog

/-- The components that can be paused. -/
def pausable : List ComponentName := stateOrder .pause

/-- The components are all in the state `state`. -/
def States.AllIn (st : States) (state : OmxState) : Prop := ∀ c ∈ pausable, st c = some state

/-- The states follow the status. -/
def StatesFollow (s : Esplayer) : Prop :=
  (s.status = .playing → s.states.AllIn .executing) ∧ (s.status = .paused → s.states.AllIn .pause)

/-- A player, and whether it has been flushed in `NDL_ESP_STATUS_LOADED`. -/
structure Playback where
  player : Esplayer := {}
  flushed : Bool := false

/-- One call, with the answers it gets. -/
def Playback.step (p : Playback) (a : ApiCall × Env) : Option Playback :=
  some
    { player := ((a.1.prog a.2).run p.player).2
      flushed := p.flushed || decide (a.1 = .flush ∧ p.player.status = .loaded) }

/-- A call other than `unload` whose OMX calls all succeed; a load is of audio and video. -/
structure Cooperative (a : ApiCall × Env) : Prop where
  omx : OmxSucceeds a.2
  notUnload : a.1 ≠ .unload
  both : ∀ metaData units, a.1 = .load metaData units →
    metaData.audioCodec ≠ .none ∧ metaData.videoCodec ≠ .none

/-- After the call the states follow the status. -/
def FollowsAfter (p : Playback) (a : ApiCall × Env) : Prop :=
  StatesFollow ((a.1.prog a.2).run p.player).2

/-- The call is not a `play` in `NDL_ESP_STATUS_LOADED` after a `flush` in that status. -/
def PlaySafe (p : Playback) (a : ApiCall × Env) : Prop :=
  ¬ (a.1 = .play ∧ p.player.status = .loaded ∧ p.flushed = true)

/-! ## Commands to all components -/

theorem foldl_set (state : OmxState) (cs : List ComponentName) (st : States) (c : ComponentName) :
    cs.foldl (States.set · state ·) st c =
      if c ∈ cs then (st c).map fun _ => state else st c := by
  induction cs generalizing st with
  | nil => simp
  | cons d cs ih =>
      rw [List.foldl_cons, ih]
      by_cases hd : c = d
      · subst hd
        simp [States.set, Function.comp_def]
      · simp [States.set, hd]

theorem change_allIn {st : States} {state : OmxState}
    (hheld : ∀ c ∈ pausable, (st c).isSome) (hmem : ∀ c ∈ pausable, c ∈ stateOrder state) :
    (st.change state).AllIn state := by
  intro c hc
  rw [States.change, foldl_set, if_pos (hmem c hc)]
  obtain ⟨x, hx⟩ := Option.isSome_iff_exists.mp (hheld c hc)
  rw [hx]
  rfl

theorem pausable_executing : ∀ c ∈ pausable, c ∈ stateOrder .executing := by decide

theorem AllIn.held {st : States} {state : OmxState} (h : st.AllIn state) :
    ∀ c ∈ pausable, (st c).isSome := by
  intro c hc
  rw [h c hc]
  rfl

/-! ## What the operations do to the states -/

section Operations

variable {env : Env} (henv : OmxSucceeds env)

include henv

theorem play_states (s : Esplayer) (hcan : s.status.canTransit .playing = true) :
    ((play env).run s).2.states =
      if s.status = .loaded then s.states.playLoaded
      else if s.status = .paused then s.states.change .executing
      else s.states := by
  have hend : ∀ (result : Int) (t : Esplayer), ((transit .playing >>= fun _ =>
      setRunningStates true >>= fun _ => (pure result : Op Int)).run t).2.states = t.states :=
    fun _ _ => rfl
  simp only [play, run_bind, run_canTransit, hcan, if_true, playAdmitted, run_write, run_read,
    run_onlyIf]
  generalize hu : (if s.status ≠ .paused then _ else _ : Unit × Esplayer).2 = u
  have hstatus : u.status = s.status := by rw [← hu]; split <;> rfl
  have hstates : u.states = s.states := by rw [← hu]; split <;> rfl
  rw [← hstatus, ← hstates]
  refine (hend _ _).trans ?_
  simp only [playBody, run_bind, run_read, run_ite]
  by_cases hloaded : u.status = .loaded
  · simpa only [if_pos hloaded] using (moves_playLoaded henv u trivial).2.1
  · by_cases hpaused : u.status = .paused
    · simpa only [if_neg hloaded, if_pos hpaused] using (moves_playPaused henv u trivial).2.1
    · simp [hloaded, hpaused]

omit henv in
theorem setRunningStates_states (run : Bool) (s : Esplayer) :
    ((setRunningStates run).run s).2.states = s.states := by
  simp only [setRunningStates, run_bind, run_write, Esplayer.onRenderer, Esplayer.onMessages]
  rfl

theorem pause_run (s : Esplayer) (hs : s.status = .playing) (hloaded : s.loaded = true) :
    ((pause env).run s).2.status = .paused ∧
      ((pause env).run s).2.states = s.states.change .pause := by
  have hsection := moves_pauseSection henv ((setRunningStates false).run s).2 trivial
  have hcan : s.status.canTransit .paused = true := by rw [hs]; rfl
  have hrun : (pause env).run s = (pauseSection env).run ((setRunningStates false).run s).2 := by
    simp only [pause, run_bind, run_canTransit, hcan, if_true, run_read]
    simp only [hs, reduceCtorEq, if_false, run_bind, run_read, run_readLoaded, hloaded, if_true,
      pauseLoaded, run_withLock]
  rw [hrun]
  refine ⟨?_, by rw [hsection.2.1, setRunningStates_states]⟩
  -- the section succeeds, so it gets to the write of the status
  have hresult := hsection.1
  simp only [pauseSection, run_breakIfNonzero, run_bind, run_transit, run_pure] at hresult ⊢
  split at hresult
  · exact absurd hresult (show resultClockError ≠ resultSuccess by decide)
  split at hresult
  · exact absurd hresult (show resultSetStateError ≠ resultSuccess by decide)
  · rw [if_neg (by assumption), if_neg (by assumption)]

theorem flush_run (s : Esplayer) (hcan : s.status.canTransit .flushing = true)
    (hloaded : s.loaded = true) :
    ((flush env).run s).2.status = s.status ∧
      ((flush env).run s).2.states = s.states.flush s.status := by
  refine ⟨(flush_status_iff env s hcan hloaded).mpr (.inr (.inr (.inr fun c _ _ => henv _ rfl))),
    ?_⟩
  have hreset := keeps_flushReset.run s
  simp only [Prod.mk.injEq] at hreset
  simp only [flush, run_bind, run_canTransit, hcan, if_true, run_readLoaded, hloaded,
    run_withLock, flushSection, run_read, run_transit]
  generalize (flushReset.run s).2 = t at hreset
  have hbody := moves_flushBody henv t.status { t with status := .flushing } trivial
  generalize (flushBody env t.status).run { t with status := .flushing } = r at hbody
  obtain ⟨exit, u⟩ := r
  obtain ⟨hexit, hstates, -⟩ := hbody
  obtain rfl : exit = .broke resultSuccess := hexit
  have hst : t.states = s.states := by
    unfold Esplayer.states
    rw [hreset.2]
  change u.states = _
  rw [hstates, hreset.1]
  exact congrArg _ hst

end Operations

theorem stepFrame_states (env : Env) (s : Esplayer) :
    ((stepFrame env).run s).2.states = s.states := by
  simp only [stepFrame, run_bind, run_canTransit, run_ite, run_read, run_transit, run_perform,
    Call.effect, Call.failure, ite_self, run_pure]
  split
  · rfl
  · rfl

theorem setPlaybackRate_states (env : Env) (rate : Int) (s : Esplayer) :
    ((setPlaybackRate env rate).run s).2.states = s.states := by
  have hcall : ∀ f, (performAction env (.setPlaybackRate rate) f).2.states = f.states := by
    intro f
    simp only [performAction, Call.effect, Call.failure]
    split <;> rfl
  refine Keeps.run (Does.ite (fun _ => does_pure _) fun _ => ?_) s
  refine Keeps.bind (keeps_write fun _ => rfl) fun _ => ?_
  refine Keeps.bind (keeps_read _ _) fun _ => Keeps.bind (keeps_read _ _) fun _ => ?_
  exact Keeps.bind (Keeps.onlyIf (does_logIfNonzero ⟨hcall, fun _ => trivial⟩)) fun _ =>
    keeps_pure _ _

/-- A load of audio and video either fails before the components are built or comes to the loop. -/
theorem run_loadAdmitted_both (env : Env) {metaData : MetaData}
    (haudio : metaData.audioCodec ≠ .none) (hvideo : metaData.videoCodec ≠ .none) (s : Esplayer) :
    ∃ u : Esplayer, u.status = s.status ∧
      ((loadAdmitted env metaData).run s = ((resultFail, metaData), u) ∨
        (Both u ∧ (loadAdmitted env metaData).run s = (loadDecoded env metaData).run u)) := by
  simp only [loadAdmitted, run_bind, run_write, run_breakIfNonzero, run_perform]
  by_cases hacquire : env .acquireResources = 0
  · simp only [hacquire, ne_eq, not_true, if_false, if_true, Call.effect, loadAcquired, run_bind,
      run_write, run_onlyIf, hvideo, haudio, not_false_eq_true, loadDecoder,
      codecId_ne_none haudio, decide_true]
    by_cases hpcm : metaData.audioCodec.codecId = .pcmS16le
    · simp only [hpcm, if_true]
      refine ⟨_, ?_, .inr ⟨?_, rfl⟩⟩
      · rfl
      · rfl
    · simp only [hpcm, if_false, run_bind, run_write, run_breakIfNonzero, run_perform]
      by_cases hopen : env .openAudio = 0
      · simp only [hopen, ne_eq, not_true, if_false, if_true, Call.effect]
        refine ⟨_, ?_, .inr ⟨?_, rfl⟩⟩
        · rfl
        · rfl
      · simp only [hopen, ne_eq, not_false_eq_true, if_true, if_false, Call.failure]
        refine ⟨_, ?_, .inl rfl⟩
        rfl
  · simp only [hacquire, ne_eq, not_false_eq_true, if_true, if_false, Call.failure]
    refine ⟨_, ?_, .inl rfl⟩
    rfl

/-- The loop of such a load succeeds. -/
theorem loadDecoded_run {env : Env} (henv : OmxSucceeds env) (metaData : MetaData) {u : Esplayer}
    (hu : Both u) :
    ((loadDecoded env metaData).run u).2.status = .loaded ∧
      ((loadDecoded env metaData).run u).2.states = u.states.load := by
  obtain ⟨haudio, hvideo⟩ := Prod.mk.inj hu
  obtain ⟨v, hstates, hv, hrun⟩ : ∃ v : Esplayer, v.states = u.states ∧ Both v ∧
      (loadDecoded env metaData).run u =
        ((((loadBody env).run v).1, metaData.decoded), ((loadBody env).run v).2) := by
    simp only [loadDecoded, run_bind, run_write, run_pure]
    refine ⟨_, ?_, ?_, rfl⟩
    · rfl
    · exact hu
  have hdone := (loadsIff_loadDecoded env metaData true true u.targetPlaybackRate u
    ⟨haudio, hvideo, rfl⟩).2
  obtain ⟨hresult, hmoved, -⟩ := moves_loadBody henv v hv
  rw [hrun] at hdone ⊢
  refine ⟨?_, by rw [hmoved, hstates]⟩
  have hstatus := (hdone hresult).1
  rwa [hrun] at hstatus

/-! ## The invariant -/

/-- The states that go with a status. In `NDL_ESP_STATUS_LOADED` it is the clock and the audio
renderer that matter: a `flush` pauses them. -/
inductive Fit (p : Playback) : Prop
  | idle (status : p.player.status = .idle) (flushed : p.flushed = false)
  | loaded (status : p.player.status = .loaded) (loaded : p.player.loaded = true)
      (held : ∀ c ∈ pausable, (p.player.states c).isSome)
      (ready : ∀ c ∈ [ComponentName.clock, .audioRenderer],
        p.player.states c = some (if p.flushed then .pause else .executing))
  | playing (status : p.player.status = .playing) (loaded : p.player.loaded = true)
      (all : p.player.states.AllIn .executing)
  | paused (status : p.player.status = .paused) (loaded : p.player.loaded = true)
      (all : p.player.states.AllIn .pause)

theorem fit_init : Fit {} := .idle rfl rfl

theorem Fit.follows {p : Playback} (h : Fit p) : StatesFollow p.player := by
  cases h with
  | idle hs => exact ⟨fun h => by simp [hs] at h, fun h => by simp [hs] at h⟩
  | loaded hs => exact ⟨fun h => by simp [hs] at h, fun h => by simp [hs] at h⟩
  | playing hs _ hall => exact ⟨fun _ => hall, fun h => by simp [hs] at h⟩
  | paused hs _ hall => exact ⟨fun h => by simp [hs] at h, fun _ => hall⟩

/-- Only the status, `loaded_` and the states matter. -/
theorem Fit.congr {p : Playback} (h : Fit p) {t : Esplayer} (hstatus : t.status = p.player.status)
    (hloaded : t.loaded = p.player.loaded) (hstates : t.states = p.player.states) :
    Fit ⟨t, p.flushed⟩ := by
  cases h with
  | idle hs hf => exact .idle (hstatus.trans hs) hf
  | loaded hs hl hheld hready =>
      exact .loaded (hstatus.trans hs) (hloaded.trans hl) (by rwa [hstates]) (by rwa [hstates])
  | playing hs hl hall =>
      exact .playing (hstatus.trans hs) (hloaded.trans hl) (by rwa [hstates])
  | paused hs hl hall =>
      exact .paused (hstatus.trans hs) (hloaded.trans hl) (by rwa [hstates])

theorem load_allIn (st : States) : ∀ c ∈ [ComponentName.clock, .audioRenderer],
    st.load c = some .executing := by
  intro c hc
  simp only [List.mem_cons, List.not_mem_nil, or_false] at hc
  rcases hc with rfl | rfl
  · rfl
  · rfl

theorem load_held (st : States) : ∀ c ∈ pausable, (st.load c).isSome := by
  intro c _
  cases c <;> rfl

theorem playLoaded_allIn {st : States} (hheld : ∀ c ∈ pausable, (st c).isSome)
    (hready : ∀ c ∈ [ComponentName.clock, .audioRenderer], st c = some .executing) :
    st.playLoaded.AllIn .executing := by
  have hset : ∀ c ∈ pausable, (st c).map (fun _ => OmxState.executing) = some .executing := by
    intro c hc
    obtain ⟨x, hx⟩ := Option.isSome_iff_exists.mp (hheld c hc)
    rw [hx]
    rfl
  intro c hc
  cases c with
  | clock => exact hready .clock (by simp)
  | videoCodec => exact hset .videoCodec hc
  | videoRenderer => exact absurd hc (by decide)
  | videoScheduler => exact hset .videoScheduler hc
  | audioCodec => exact hset .audioCodec hc
  | audioRenderer => exact hready .audioRenderer (by simp)

/-! ## Each operation keeps it -/

section Steps

variable {env : Env} {p : Playback}

theorem Fit.load (h : Fit p) (henv : OmxSucceeds env) {metaData : MetaData}
    (units : Option PtsUnits) (haudio : metaData.audioCodec ≠ .none)
    (hvideo : metaData.videoCodec ≠ .none) :
    Fit ⟨((loadCall env metaData units).run p.player).2, p.flushed⟩ := by
  rw [run_loadCall]
  have hstates : (p.player.withUnits units).states = p.player.states := by
    cases units <;> rfl
  have hcases := load_cases env metaData (p.player.withUnits units)
  simp only [withUnits_loaded, withUnits_status] at hcases
  rcases hcases with ⟨-, hrun⟩ | ⟨-, -, hrun⟩ | ⟨-, hidle, hrun⟩
  · rw [hrun]
    exact h.congr (by simp) (by simp) hstates
  · rw [hrun]
    exact h.congr (by simp) (by simp) hstates
  · have hflushed : p.flushed = false := by
      cases h with
      | idle _ hf => exact hf
      | loaded hs => simp [hs] at hidle
      | playing hs => simp [hs] at hidle
      | paused hs => simp [hs] at hidle
    have hset := loadAdmitted_loaded env metaData (p.player.withUnits units)
    obtain ⟨u, hu, hfail | ⟨hboth, hloop⟩⟩ :=
      run_loadAdmitted_both env haudio hvideo (p.player.withUnits units)
    · rw [hrun, hfail]
      exact .idle (hu.trans (by simpa using hidle)) hflushed
    · obtain ⟨hstatus, hmoved⟩ := loadDecoded_run henv metaData hboth
      rw [hrun]
      rw [hloop] at hset ⊢
      refine .loaded hstatus hset ?_ ?_
      · rw [hmoved]
        exact load_held _
      · rw [hmoved, hflushed]
        exact load_allIn _

theorem Fit.play (h : Fit p) (henv : OmxSucceeds env)
    (hsafe : p.player.status = .loaded → p.flushed = false) :
    Fit ⟨((play env).run p.player).2, p.flushed⟩ := by
  have hloaded := Keeps.run (ofOperations_loaded.play (fun _ _ => rfl) env) p.player
  have hstatus := play_status env p.player
  have hstates := play_states henv p.player
  cases h with
  | idle hs hf =>
      rw [hs] at hstatus
      exact .idle hstatus hf
  | loaded hs hl hheld hready =>
      rw [hs] at hstatus hstates
      refine .playing hstatus (hloaded.trans hl) ?_
      rw [hstates rfl]
      rw [hsafe hs] at hready
      exact playLoaded_allIn hheld hready
  | playing hs hl hall =>
      rw [hs] at hstatus hstates
      refine .playing hstatus (hloaded.trans hl) ?_
      rw [hstates rfl]
      exact hall
  | paused hs hl hall =>
      rw [hs] at hstatus hstates
      refine .playing hstatus (hloaded.trans hl) ?_
      rw [hstates rfl]
      exact change_allIn (AllIn.held hall) pausable_executing

theorem Fit.pause (h : Fit p) (henv : OmxSucceeds env) :
    Fit ⟨((pause env).run p.player).2, p.flushed⟩ := by
  have hloaded := Keeps.run (ofOperations_loaded.pause (fun _ _ => rfl) env) p.player
  -- nothing to be done
  have hsame : (p.player.status = .idle ∨ p.player.status = .loaded ∨ p.player.status = .paused) →
      ((DirectMedia.pause env).run p.player).2 = p.player := by
    intro hs
    simp only [DirectMedia.pause, run_bind, run_canTransit, run_ite, run_read]
    rcases hs with hs | hs | hs
    · simp [hs, Status.canTransit]
    · simp [hs, Status.canTransit]
    · simp [hs, Status.canTransit]
  cases h with
  | idle hs hf =>
      rw [hsame (.inl hs)]
      exact .idle hs hf
  | loaded hs hl hheld hready =>
      rw [hsame (.inr (.inl hs))]
      exact .loaded hs hl hheld hready
  | playing hs hl hall =>
      obtain ⟨hstatus, hstates⟩ := pause_run henv p.player hs hl
      refine .paused hstatus (hloaded.trans hl) ?_
      rw [hstates]
      exact change_allIn (AllIn.held hall) fun _ hc => hc
  | paused hs hl hall =>
      rw [hsame (.inr (.inr hs))]
      exact .paused hs hl hall

theorem Fit.flush (h : Fit p) (henv : OmxSucceeds env) :
    Fit ⟨((flush env).run p.player).2, p.flushed || decide (p.player.status = .loaded)⟩ := by
  have hloaded := Keeps.run (ofOperations_loaded.flush (fun _ _ => rfl) env) p.player
  have hrun := flush_run henv p.player
  cases h with
  | idle hs hf =>
      refine .idle ?_ (by simp [hs, hf])
      by_cases hl : p.player.loaded = true
      · exact (hrun (by rw [hs]; rfl) hl).1.trans hs
      · rcases flush_status env p.player with h | ⟨h, -⟩
        · exact h.trans hs
        · exact absurd h hl
  | loaded hs hl hheld hready =>
      -- flushing leaves a loaded player paused in its components, not idle
      obtain ⟨hstatus, hstates⟩ := hrun (by rw [hs]; rfl) hl
      have hall : (p.player.states.change .pause).AllIn .pause :=
        change_allIn hheld fun _ hc => hc
      rw [hs] at hstates
      change _ = p.player.states.change .pause at hstates
      refine .loaded (hstatus.trans hs) (hloaded.trans hl) ?_ ?_
      · rw [hstates]
        exact AllIn.held hall
      · intro c hc
        simp only [hs, decide_true, Bool.or_true, if_true, hstates]
        refine hall c ?_
        simp only [List.mem_cons, List.not_mem_nil, or_false] at hc
        rcases hc with rfl | rfl
        · decide
        · decide
  | playing hs hl hall =>
      obtain ⟨hstatus, hstates⟩ := hrun (by rw [hs]; rfl) hl
      rw [hs] at hstates
      change _ = (p.player.states.change .pause).change .executing at hstates
      refine .playing (hstatus.trans hs) (hloaded.trans hl) ?_
      rw [hstates]
      exact change_allIn (AllIn.held (change_allIn (AllIn.held hall) fun _ hc => hc))
        pausable_executing
  | paused hs hl hall =>
      obtain ⟨hstatus, hstates⟩ := hrun (by rw [hs]; rfl) hl
      rw [hs] at hstates
      change _ = p.player.states at hstates
      refine .paused (hstatus.trans hs) (hloaded.trans hl) ?_
      rw [hstates]
      exact hall

end Steps

theorem Fit.step {p q : Playback} {a : ApiCall × Env} (hc : Cooperative a) (hsafe : PlaySafe p a)
    (h : Fit p) (hq : Playback.step p a = some q) : Fit q := by
  obtain rfl := Option.some.inj hq
  obtain ⟨call, env⟩ := a
  have hflushed : call ≠ .flush →
      (p.flushed || decide (call = .flush ∧ p.player.status = .loaded)) = p.flushed := by
    intro hne
    simp [hne]
  cases call with
  | load metaData units =>
      obtain ⟨haudio, hvideo⟩ := hc.both metaData units rfl
      rw [hflushed (by simp)]
      have hload := h.load hc.omx units haudio hvideo
      simpa [ApiCall.prog] using hload
  | unload => exact absurd rfl hc.notUnload
  | play =>
      rw [hflushed (by simp)]
      exact h.play hc.omx fun hs => by simpa [PlaySafe, hs] using hsafe
  | pause =>
      rw [hflushed (by simp)]
      exact h.pause hc.omx
  | flush => simpa [ApiCall.prog] using h.flush hc.omx
  | stepFrame =>
      rw [hflushed (by simp)]
      exact h.congr (stepFrame_status env _)
        (Keeps.run (ofOperations_loaded.stepFrame (fun _ _ => rfl) env) _) (stepFrame_states env _)
  | setPlaybackRate rate =>
      rw [hflushed (by simp)]
      exact h.congr (Keeps.run (ofOperations_status.setPlaybackRate env rate) _)
        (Keeps.run (ofOperations_loaded.setPlaybackRate env rate) _)
        (setPlaybackRate_states env rate _)

/-- Where the invariant holds, the states follow the status after a call exactly if it is not a
`play` of a loaded player that has been flushed. -/
theorem followsAfter_iff {p : Playback} {a : ApiCall × Env} (hc : Cooperative a) (h : Fit p) :
    FollowsAfter p a ↔ PlaySafe p a := by
  constructor
  · rintro hfollows ⟨hplay, hs, hflushed⟩
    obtain ⟨call, env⟩ := a
    simp only at hplay
    subst hplay
    cases h with
    | idle hs' => simp [hs'] at hs
    | playing hs' => simp [hs'] at hs
    | paused hs' => simp [hs'] at hs
    | loaded _ _ _ hready =>
        have hstatus := play_status env p.player
        have hstates := play_states hc.omx p.player
        rw [hs] at hstatus hstates
        have hclock := hfollows.1 hstatus .clock (by decide)
        have hpause := hready .clock (by simp)
        simp only [ApiCall.prog] at hclock
        rw [hstates rfl, if_pos rfl] at hclock
        rw [hflushed] at hpause
        change p.player.states .clock = _ at hclock
        rw [hclock] at hpause
        cases hpause
  · intro hsafe
    exact (h.step hc hsafe rfl).follows

/-- **Component states follow the status.** In a run of load, play, pause, flush, stepFrame and
setPlaybackRate calls with audio and video in which all OMX calls succeed, the states follow the
status after every call exactly if there is no `play` in `NDL_ESP_STATUS_LOADED` after a `flush` in
`NDL_ESP_STATUS_LOADED`. -/
theorem states_follow_iff (calls : List (ApiCall × Env)) (hcalls : ∀ a ∈ calls, Cooperative a) :
    Lts.Along Playback.step FollowsAfter {} calls ↔ Lts.Along Playback.step PlaySafe {} calls :=
  Lts.Along.congr (P := FollowsAfter) (Q := PlaySafe) (I := Fit) (L := Cooperative)
    (fun _ _ hc h => followsAfter_iff hc h)
    (fun _ _ _ hc hsafe h hq => h.step hc hsafe hq) hcalls fit_init

/-- Metadata with audio and video. -/
def bothStreams : MetaData := { videoCodec := .h264, audioCodec := .pcm44100 }

theorem states_follow_played : Lts.Along Playback.step FollowsAfter {}
    [(.load bothStreams none, fun _ => 0), (.play, fun _ => 0), (.flush, fun _ => 0)] := by
  refine
    (states_follow_iff _ fun a ha => ⟨fun _ _ => ?_, fun h => ?_, fun metaData units h => ?_⟩).mpr
    ⟨fun h => by simp at h, fun p hp => ⟨fun h => ?_, fun q _ => ⟨fun h => by simp at h, fun _ _ =>
      trivial⟩⟩⟩
  · simp only [List.mem_cons, List.not_mem_nil, or_false] at ha
    rcases ha with rfl | rfl | rfl <;> rfl
  · simp only [List.mem_cons, List.not_mem_nil, or_false] at ha
    rcases ha with rfl | rfl | rfl <;> cases h
  · simp only [List.mem_cons, List.not_mem_nil, or_false] at ha
    rcases ha with rfl | rfl | rfl
    · obtain ⟨rfl, -⟩ := ApiCall.load.inj h
      decide
    · cases h
    · cases h
  · obtain rfl := Option.some.inj hp
    exact absurd h.2.2 (by simp)

/-- After load, flush and play the player plays with the clock and the audio renderer paused. -/
theorem states_follow_fails :
    (Lts.exec Playback.step {} [(.load bothStreams none, fun _ => 0), (.flush, fun _ => 0),
        (.play, fun _ => 0)]).map
      (fun p => (p.player.status, p.player.states .clock, p.player.states .audioRenderer)) =
      some (.playing, some .pause, some .pause) := by
  decide

end DirectMedia
