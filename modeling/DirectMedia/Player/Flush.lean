import DirectMedia.Player.Components
import DirectMedia.Pts.Restart

set_option autoImplicit false

/-! # The status and the time stamps after a flush

`flush` sets the status to `NDL_ESP_STATUS_FLUSHING` and restores it after its loop. Every failure
inside the loop breaks out of it, except that of `changeComponentsState(OMX_StatePause)`, which
leaves the function. So the status is restored exactly when that call is not made, or succeeds, or
is not reached (`flush_status_iff`).

The wraparound info is cleared past all calls that may fail but the last. So a flush of a loaded
player that succeeds has cleared it, and the player treats PTS like a new one from then on
(`flush_forgets_pts`).
-/

namespace DirectMedia

open Prog

/-- The loop was left by `break` or ran to its end. -/
def Exit.IsBreak : Exit → Prop
  | .broke _ => True
  | .returned _ => False

/-- After the components are paused every exit is a `break` or the end of the loop. -/
theorem flushRestart_isBreak (env : Env) (saveState : Status) (s : Esplayer) :
    ((flushRestart env saveState).run s).1.IsBreak := by
  simp only [flushRestart, run_breakIfNonzero, setComponentsFlush_result, resultSuccess, ne_eq,
    not_true, if_false]
  refine returns_bind (R := Exit.IsBreak) (fun held => ?_) _
  refine returns_bind fun mask => ?_
  refine returns_breakIfNonzero trivial ?_
  refine returns_bind fun _ => ?_
  exact returns_breakIfNonzero trivial (returns_pure trivial)

/-- The condition under which the loop of `flush` is left by `break`: the clock cannot be stopped,
or the components are paused already, or they all accept to be paused. -/
def FlushBreaks (env : Env) (s : Esplayer) (saveState : Status) : Prop :=
  ((s.component .clock).isSome ∧ env .setStopped ≠ 0) ∨ saveState = .paused ∨
    AllAccept env s .pause (stateOrder .pause)

theorem allAccept_of_component {env : Env} {s t : Esplayer} {state : OmxState}
    {cs : List ComponentName} (h : t.component = s.component) :
    AllAccept env t state cs ↔ AllAccept env s state cs := by
  simp [AllAccept, h]

theorem keeps_component_clearFrameQueues : clearFrameQueues.Keeps Esplayer.component :=
  Keeps.bind (keeps_write fun _ => rfl) fun _ => keeps_write fun _ => rfl

theorem keeps_component_clearBufQueue (i : StreamType) :
    (clearBufQueue i).Keeps Esplayer.component :=
  keeps_emit fun _ => rfl

theorem flushBody_isBreak_iff (env : Env) (saveState : Status) (s : Esplayer) :
    ((flushBody env saveState).run s).1.IsBreak ↔ FlushBreaks env s saveState := by
  rw [flushBody, run_breakIfNonzero]
  by_cases hstop : (s.component .clock).isSome ∧ env .setStopped ≠ 0
  · rw [if_pos (by simp [hstop.1, hstop.2])]
    exact ⟨fun _ => .inl hstop, fun _ => trivial⟩
  · have hstopped : ((performIfHeld env .clock .setStopped).run s).1 = 0 := by
      rw [run_performIfHeld]
      split
      case isTrue hheld => exact not_not.mp fun h => hstop ⟨hheld, h⟩
      case isFalse => rfl
    have hcomp : ((performIfHeld env .clock .setStopped).run s).2.component = s.component := by
      rw [run_performIfHeld]
      split
      · simp only [Call.effect, Call.failure, ite_self]
      · rfl
    rw [if_neg (not_not.mpr hstopped)]
    generalize ((performIfHeld env .clock .setStopped).run s).2 = t at hcomp
    simp only [run_bind]
    -- clearing the queues leaves the components alone
    obtain ⟨u, hu, hucomp⟩ : ∃ u, u = ((clearBufQueue .videoEs).run
        ((clearBufQueue .audioEs).run (clearFrameQueues.run t).2).2).2 ∧
        u.component = s.component := by
      refine ⟨_, rfl, ?_⟩
      rw [(keeps_component_clearBufQueue _).run, (keeps_component_clearBufQueue _).run,
        keeps_component_clearFrameQueues.run, hcomp]
    rw [← hu, run_breakIfNonzero, FlushBreaks, ← allAccept_of_component hucomp]
    simp only [hstop, false_or]
    by_cases hpaused : saveState = .paused
    · simp [hpaused, flushRestart_isBreak]
    · have hpause := changeComponentsState_success_iff env .pause u
      by_cases haccept : AllAccept env u .pause (stateOrder .pause)
      · simp [hpaused, hpause.mpr haccept, haccept, flushRestart_isBreak]
      · have hne : ((changeComponentsState env .pause).run u).1 ≠ 0 :=
          fun h => haccept (hpause.mp h)
        simp [hpaused, haccept, hne, Exit.IsBreak]

theorem keeps_flushReset : flushReset.Keeps fun s => (s.status, s.component) := by
  refine Keeps.bind (keeps_write fun _ => rfl) fun _ => ?_
  refine Keeps.bind (keeps_write fun _ => rfl) fun _ => ?_
  refine Keeps.bind (keeps_read _ _) fun _ => ?_
  refine Keeps.bind (Keeps.onlyIf (keeps_write fun _ => rfl)) fun _ => ?_
  refine Keeps.bind (keeps_read _ _) fun _ => ?_
  exact Keeps.onlyIf (keeps_write fun _ => rfl)

/-- The section under the mutex keeps the status if its loop is left by `break`, or if the player
was flushing. -/
theorem flushSection_status_iff (env : Env) (s : Esplayer) :
    ((flushSection env).run s).2.status = s.status ↔
      s.status = .flushing ∨ FlushBreaks env s s.status := by
  have hreset := keeps_flushReset.run s
  simp only [Prod.mk.injEq] at hreset
  simp only [flushSection, run_bind, run_read, run_transit]
  generalize (flushReset.run s).2 = t at hreset
  have hbreak := flushBody_isBreak_iff env t.status { t with status := .flushing }
  have hstatus :=
    Keeps.run (ofOperations_status.flushBody env t.status) { t with status := .flushing }
  have hbreaks : FlushBreaks env { t with status := .flushing } t.status ↔
      FlushBreaks env s s.status := by
    simp only [FlushBreaks, hreset.1, hreset.2, AllAccept]
  rw [hbreaks] at hbreak
  rw [← hbreak]
  generalize (flushBody env t.status).run { t with status := .flushing } = r at *
  obtain ⟨exit, u⟩ := r
  cases exit with
  | broke result => simp [flushEnd, Exit.IsBreak, hreset.1]
  | returned value =>
      simp only [flushEnd, run_pure, Exit.IsBreak, or_false]
      rw [show u.status = .flushing from hstatus]
      exact eq_comm

/-- **The status after a flush.** A `flush` past its entry checks leaves the status as it found it
exactly if its loop is left by `break`, or it was called while flushing. -/
theorem flush_status_iff (env : Env) (s : Esplayer)
    (hcan : s.status.canTransit .flushing = true) (hloaded : s.loaded = true) :
    ((flush env).run s).2.status = s.status ↔
      s.status = .flushing ∨ FlushBreaks env s s.status := by
  simp only [flush, run_bind, run_canTransit, run_readLoaded, hcan, hloaded, if_true,
    run_withLock]
  exact flushSection_status_iff env s

/-- A player that plays, with all components. -/
def playingPlayer : Esplayer :=
  { status := .playing, loaded := true, component := fun _ => some { state := .executing } }

theorem flush_status_playing : ((flush fun _ => 0).run playingPlayer).2.status = .playing :=
  (flush_status_iff (fun _ => 0) playingPlayer rfl rfl).mpr (.inr (.inr (.inr (by decide))))

/-- The audio renderer does not accept the pause state: the player stays in
`NDL_ESP_STATUS_FLUSHING`. -/
theorem flush_status_fails :
    ∃ env s, s.status.canTransit .flushing = true ∧ s.loaded = true ∧
      ((flush env).run s).1 = resultFail ∧ ((flush env).run s).2.status = .flushing ∧
      s.status = .playing := by
  refine ⟨fun call => if call = .setState .audioRenderer .pause then 1 else 0, playingPlayer,
    rfl, rfl, ?_, ?_, rfl⟩
  · decide
  · decide

/-! ## The time stamps -/

theorem untouched_pts : Untouched Esplayer.pts :=
  ⟨fun _ _ => rfl, fun _ _ => rfl, fun _ _ => rfl⟩

theorem ofCalls_pts : OfCalls fun f => ∀ s, (f s).2.pts = s.pts where
  read _ := rfl
  call env call _ := (untouched_pts.perform env call).1
  admitted _ _ := rfl
  loadedRead _ := rfl
  lastPts _ _ := rfl

theorem keeps_pts_flushReset : flushReset.Keeps Esplayer.pts := by
  refine Keeps.bind (keeps_write fun _ => rfl) fun _ => ?_
  refine Keeps.bind (keeps_write fun _ => rfl) fun _ => ?_
  refine Keeps.bind (keeps_read _ _) fun _ => ?_
  refine Keeps.bind (Keeps.onlyIf (keeps_write fun _ => rfl)) fun _ => ?_
  refine Keeps.bind (keeps_read _ _) fun _ => ?_
  exact Keeps.onlyIf (keeps_write fun _ => rfl)

theorem keeps_pts_changeComponentsState (env : Env) (c : Prop) [Decidable c] (state : OmxState) :
    Keeps Esplayer.pts (if c then changeComponentsState env state else return 0) :=
  Keeps.ite (ofCalls_pts.changeStates env state _) (keeps_pure _ _)

/-- A run through `BREAK_IF_NONZERO` that ends with another value goes on with what follows. -/
theorem run_past_breakIfNonzero {α β : Type} {π : Esplayer → β} {cond : Op Int} {rest : Op α}
    {result a : α} {s : Esplayer} (hcond : cond.Keeps π)
    (h : ((breakIfNonzero cond result rest).run s).1 = a) (hne : result ≠ a) :
    ∃ t, π t = π s ∧ (breakIfNonzero cond result rest).run s = rest.run t := by
  rw [run_breakIfNonzero] at h ⊢
  by_cases hc : (cond.run s).1 = 0
  · exact ⟨_, hcond.run s, by rw [if_neg (not_not.mpr hc)]⟩
  · rw [if_pos hc] at h
    exact absurd h hne

/-- The end of the loop is only reached through the write that clears the wraparound info. -/
theorem flushRestart_pts (env : Env) (saveState : Status) (s : Esplayer)
    (h : ((flushRestart env saveState).run s).1 = .broke resultSuccess) :
    ((flushRestart env saveState).run s).2.pts = s.pts.flush := by
  obtain ⟨t, ht, hrun⟩ :=
    run_past_breakIfNonzero (ofCalls_pts.setComponentsFlush env) h (by decide)
  rw [flushRestart, hrun] at h ⊢
  simp only [run_bind, run_read] at h ⊢
  obtain ⟨u, hu, hrun⟩ := run_past_breakIfNonzero
    (show Keeps Esplayer.pts _ from Keeps.ite (untouched_pts.perform env _) (keeps_pure _ _)) h
    (by decide)
  rw [hrun] at h ⊢
  simp only [run_bind, run_write] at h ⊢
  obtain ⟨v, hv, hrun⟩ := run_past_breakIfNonzero
    (keeps_pts_changeComponentsState env (saveState = .playing) .executing) h (by decide)
  rw [hrun, run_pure, hv, hu, ht]

theorem flushBody_pts (env : Env) (saveState : Status) (s : Esplayer)
    (h : ((flushBody env saveState).run s).1 = .broke resultSuccess) :
    ((flushBody env saveState).run s).2.pts = s.pts.flush := by
  obtain ⟨t, ht, hrun⟩ :=
    run_past_breakIfNonzero (ofCalls_pts.performIfHeld env .clock .setStopped rfl) h (by decide)
  rw [flushBody, hrun] at h ⊢
  simp only [run_bind] at h ⊢
  obtain ⟨u, hu, hrun⟩ := run_past_breakIfNonzero
    (keeps_pts_changeComponentsState env (saveState ≠ .paused) .pause) h (by decide)
  rw [hrun] at h ⊢
  -- clearing the queues leaves the time stamps alone
  simp only [clearFrameQueues, clearBufQueue, run_bind, run_write, run_emit,
    Esplayer.onRenderer] at hu
  rw [flushRestart_pts env saveState u h, hu, ht]

/-- The loop is not left by a `return` of success. -/
theorem flushBody_returned (env : Env) (saveState : Status) :
    (flushBody env saveState).Returns (· ≠ .returned resultSuccess) := by
  refine returns_breakIfNonzero (by decide) ?_
  refine returns_bind fun _ => returns_bind fun _ => returns_bind fun _ => ?_
  refine returns_breakIfNonzero (by decide) ?_
  refine returns_breakIfNonzero (by decide) ?_
  refine returns_bind fun _ => returns_bind fun _ => ?_
  refine returns_breakIfNonzero (by decide) ?_
  refine returns_bind fun _ => ?_
  exact returns_breakIfNonzero (by decide) (returns_pure (by decide))

/-- A flush of a loaded player that succeeds has reset the PTS state. -/
theorem flush_pts (env : Env) (s : Esplayer) (hloaded : s.loaded = true)
    (hok : ((flush env).run s).1 = resultSuccess) :
    ((flush env).run s).2.pts = s.pts.flush := by
  simp only [flush, run_bind, run_canTransit, run_ite, run_readLoaded, run_withLock, hloaded,
    if_true, flushSection, run_read, run_transit] at hok ⊢
  by_cases hcan : s.status.canTransit .flushing = true
  · simp only [hcan, if_true] at hok ⊢
    have hreset := keeps_pts_flushReset.run s
    generalize (flushReset.run s).2 = t at *
    have hbody := flushBody_pts env t.status { t with status := .flushing }
    have hreturned := flushBody_returned env t.status { t with status := .flushing }
    generalize (flushBody env t.status).run { t with status := .flushing } = r at *
    obtain ⟨exit, u⟩ := r
    cases exit with
    | broke result =>
        simp only [flushEnd, run_bind, run_transit, run_pure] at hok ⊢
        rw [hbody (by rw [hok]), hreset]
    | returned value =>
        simp only [flushEnd, run_pure] at hok
        exact absurd (congrArg Exit.returned hok) hreturned
  · simp [hcan, resultFail, resultSuccess] at hok

/-- **A flush forgets the PTS history.** After a flush of a loaded player that succeeds, whatever
its PTS state was, every sequence of frames on either stream gets the outputs it gets from a new
player. -/
theorem flush_forgets_pts (env : Env) (s : Esplayer) (hloaded : s.loaded = true)
    (hok : ((flush env).run s).1 = resultSuccess) :
    ((flush env).run s).2.pts = s.pts.flush ∧
      ∀ (units : PtsUnits) (calls : Nat → StreamType × Int) (n : Nat),
        outputAt units ((flush env).run s).2.pts calls n =
          outputAt units ({} : Esplayer).pts calls n := by
  have hpts := flush_pts env s hloaded hok
  refine ⟨hpts, fun units calls n => ?_⟩
  rw [hpts]
  exact s.pts.fresh_flush.sameHistory.outputAt_eq units calls n

/-- A player that plays, in the middle of a wraparound of its video stream. -/
def wrappingPlayer : Esplayer :=
  { playingPlayer with pts := ⟨fun _ => 0, fun _ => 2 ^ 33 - 1, fun _ => 7⟩ }

theorem flush_forgets_pts_wrapping :
    ((flush fun _ => 0).run wrappingPlayer).2.pts = wrappingPlayer.pts.flush ∧
      ∀ (units : PtsUnits) (calls : Nat → StreamType × Int) (n : Nat),
        outputAt units ((flush fun _ => 0).run wrappingPlayer).2.pts calls n =
          outputAt units ({} : Esplayer).pts calls n :=
  flush_forgets_pts (fun _ => 0) wrappingPlayer rfl (by decide)

end DirectMedia
