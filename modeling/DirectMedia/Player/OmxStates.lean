import DirectMedia.Player.Api

set_option autoImplicit false

/-! # The OMX states of the components

Seen from outside, a call is a change of the states that the components are in (`Call.moves`), and
an operation whose calls all succeed is one too. `Moves` says which: the result of the program and
the change it makes, with a part of the player that it relies on.
-/

namespace DirectMedia

open Prog

/-- The OMX state of each component, `none` where there is no component. -/
abbrev States := ComponentName → Option OmxState

def Esplayer.states (s : Esplayer) : States := fun c => (s.component c).map (·.state)

/-- The command `setState(state)` to the component `c`. -/
def States.set (st : States) (state : OmxState) (c : ComponentName) : States :=
  Function.update st c ((st c).map fun _ => state)

/-- What a call that succeeds does to the states. -/
def Call.moves : Call → States → States
  | .create c, st => Function.update st c (some .loaded)
  | .setState c state, st => st.set state c
  | _, st => st

/-- The calls of the list, one after the other. -/
def States.after (steps : List (Int × Call)) (st : States) : States :=
  steps.foldl (fun st x => x.2.moves st) st

theorem onComponent_states {s : Esplayer} {c : ComponentName} {f : Component → Component}
    (hf : ∀ comp, (f comp).state = comp.state) : (s.onComponent c f).states = s.states := by
  funext d
  by_cases hd : d = c
  · subst hd
    simp [Esplayer.states, Esplayer.onComponent, Function.comp_def, hf]
  · simp [Esplayer.states, Esplayer.onComponent, Function.update_of_ne hd]

theorem configured_states (s : Esplayer) (c size : ComponentName) :
    (s.configured c size).states = s.states := by
  unfold Esplayer.configured
  split
  · exact onComponent_states fun _ => rfl
  · rfl

/-- The effect of a call, seen from outside. -/
theorem effect_states (call : Call) (s : Esplayer) :
    (call.effect s).states = call.moves s.states := by
  cases call with
  | create c =>
      funext d
      by_cases hd : d = c
      · subst hd
        cases d <;> simp [Esplayer.states, Call.effect, Call.moves, ComponentName.created]
      · simp [Esplayer.states, Call.effect, Call.moves, Function.update_of_ne hd]
  | setState c state =>
      funext d
      by_cases hd : d = c
      · subst hd
        simp [Esplayer.states, Call.effect, Call.moves, States.set, Esplayer.onComponent,
          Function.comp_def]
      · simp [Esplayer.states, Call.effect, Call.moves, States.set, Esplayer.onComponent,
          Function.update_of_ne hd]
  | configureInputBuffers c size => exact configured_states s c size
  | allocateInputBuffer c => exact onComponent_states fun _ => rfl
  | freeBuffer c => exact onComponent_states fun _ => rfl
  | writeToConfigBuffer c data => exact onComponent_states fun _ => rfl
  | _ => rfl

/-! ## Programs whose calls succeed -/

/-- The call is answered by OMX. -/
def Call.isOmx : Call → Bool
  | .acquireResources | .releaseResource | .openAudio => false
  | _ => true

/-- Every OMX call succeeds. -/
def OmxSucceeds (env : Env) : Prop := ∀ call, call.isOmx = true → env call = 0

/-- Where `P` holds the program returns `a`, moves the components by `m` and keeps `P`. -/
def Moves {α : Type} (P : Esplayer → Prop) (p : Op α) (a : α) (m : States → States) : Prop :=
  ∀ s, P s → (p.run s).1 = a ∧ (p.run s).2.states = m s.states ∧ P (p.run s).2

section Moves

variable {α β : Type} {P : Esplayer → Prop}

theorem moves_pure (a : α) : Moves P (pure a) a id := fun _ hs => ⟨rfl, rfl, hs⟩

theorem Moves.congr {p : Op α} {a : α} {m m' : States → States} (h : Moves P p a m)
    (hm : ∀ st, m st = m' st) : Moves P p a m' :=
  (funext hm : m = m') ▸ h

theorem Moves.bind {p : Op α} {g : α → Op β} {a : α} {b : β} {m m' : States → States}
    (hp : Moves P p a m) (hg : Moves P (g a) b m') :
    Moves P (p >>= g) b fun st => m' (m st) := by
  intro s hs
  obtain ⟨ha, hm, hs'⟩ := hp s hs
  obtain ⟨hb, hm', hs''⟩ := hg (p.run s).2 hs'
  rw [run_bind, ha]
  exact ⟨hb, by rw [hm', hm], hs''⟩

theorem moves_read {f : Esplayer → α} {a : α} (h : ∀ s, P s → f s = a) : Moves P (read f) a id :=
  fun s hs => ⟨h s hs, rfl, hs⟩

theorem moves_read_bind {f : Esplayer → α} {g : α → Op β} {b : β} {m : States → States}
    (h : ∀ a, Moves P (g a) b m) : Moves P (read f >>= g) b m := by
  intro s hs
  rw [run_bind, run_read]
  exact h (f s) s hs

theorem moves_write {f : Esplayer → Esplayer} (hf : ∀ s, (f s).states = s.states)
    (hP : ∀ s, P s → P (f s)) : Moves P (write f) () id :=
  fun s hs => ⟨rfl, hf s, hP s hs⟩

theorem moves_emit {e : Esplayer → Event} {f : Esplayer → Esplayer}
    (hf : ∀ s, (f s).states = s.states) (hP : ∀ s, P s → P (f s)) : Moves P (emit e f) () id :=
  fun s hs => ⟨rfl, hf s, hP s hs⟩

theorem Moves.breakIfNonzero {cond : Op Int} {result : α} {rest : Op α} {a : α}
    {m m' : States → States} (hc : Moves P cond 0 m) (hr : Moves P rest a m') :
    Moves P (breakIfNonzero cond result rest) a fun st => m' (m st) :=
  Moves.bind hc hr

theorem Moves.logIfNonzero {cond : Op Int} {m : States → States} {a : Int} (hc : Moves P cond a m) :
    Moves P (logIfNonzero cond) () m :=
  Moves.congr (Moves.bind hc (moves_pure ())) fun _ => rfl

/-- No call touches what `P` says. -/
def Stable (P : Esplayer → Prop) : Prop :=
  ∀ env call s, P s → P (performAction env call s).2

theorem stable_true : Stable fun _ => True := fun _ _ _ _ => trivial

theorem stable_eq {π : Esplayer → α} (h : Untouched π) (a : α) : Stable fun s => π s = a :=
  fun env call s hs => ((h.perform env call).1 s).trans hs

variable {env : Env} (henv : OmxSucceeds env) (hP : Stable P)

include henv hP

theorem moves_perform {call : Call} (hcall : call.isOmx = true) :
    Moves P (perform env call) 0 call.moves := by
  intro s hs
  refine ⟨henv call hcall, ?_, hP env call s hs⟩
  rw [run_perform, if_pos (henv call hcall)]
  exact effect_states call s

/-- A call through a pointer that may be null, if it does nothing to the states then. -/
theorem moves_performIfHeld {c : ComponentName} {call : Call} (hcall : call.isOmx = true)
    (hnone : ∀ st : States, st c = none → call.moves st = st) :
    Moves P (performIfHeld env c call) 0 call.moves := by
  intro s hs
  rw [run_performIfHeld]
  split
  case isTrue => exact moves_perform henv hP hcall s hs
  case isFalse hheld =>
    have hst : s.states c = none := by
      simp [Esplayer.states, Option.not_isSome_iff_eq_none.mp hheld]
    exact ⟨rfl, (hnone _ hst).symm, hs⟩

theorem moves_setState {c : ComponentName} {state : OmxState} :
    Moves P (performIfHeld env c (.setState c state)) 0 (States.set · state c) := by
  refine moves_performIfHeld henv hP rfl fun st hst => ?_
  funext d
  by_cases hd : d = c
  · subst hd
    simp [Call.moves, States.set, hst]
  · simp [Call.moves, States.set, Function.update_of_ne hd]

/-- The components of the list one after the other. -/
theorem moves_changeStates (state : OmxState) (cs : List ComponentName) :
    Moves P (changeStates env state cs) 0 fun st => cs.foldl (States.set · state ·) st := by
  induction cs with
  | nil => exact moves_pure 0
  | cons c cs ih =>
      exact Moves.congr (Moves.breakIfNonzero (moves_setState henv hP) ih) fun _ => rfl

theorem moves_breakSteps {steps : List (Int × Call)} (hsteps : ∀ x ∈ steps, x.2.isOmx = true)
    {rest : Op Int} {a : Int} {m : States → States} (h : Moves P rest a m) :
    Moves P (breakSteps env steps rest) a
      fun st => m (st.after steps) := by
  induction steps with
  | nil => exact h
  | cons x steps ih =>
      exact Moves.congr (Moves.breakIfNonzero (moves_perform henv hP (hsteps x (by simp)))
        (ih fun y hy => hsteps y (by simp [hy]))) fun _ => rfl

theorem moves_setComponentsFlush : Moves P (setComponentsFlush env) 0 id := by
  have hflush : ∀ c, Moves P (logIfNonzero (performIfHeld env c (.flush c))) () id :=
    fun c => Moves.logIfNonzero (moves_performIfHeld henv hP rfl fun _ _ => rfl)
  refine Moves.congr ?_ fun _ => rfl
  exact Moves.bind (hflush _) <| Moves.bind (hflush _) <| Moves.bind (hflush _) <|
    Moves.bind (hflush _) <| Moves.bind (hflush _) (moves_pure resultSuccess)

end Moves

/-! ## The operations -/

/-- `changeComponentsState(state)`. -/
def States.change (state : OmxState) (st : States) : States :=
  (stateOrder state).foldl (States.set · state ·) st

/-- The loop of `flush`. -/
def States.flush (saveState : Status) (st : States) : States :=
  let paused := if saveState ≠ .paused then st.change .pause else st
  if saveState = .playing then paused.change .executing else paused

/-- The loop of `play` from `NDL_ESP_STATUS_LOADED`. -/
def States.playLoaded (st : States) : States :=
  ((st.set .executing .videoCodec).set .executing .videoScheduler).set .executing .audioCodec

/-- The loop of `load`, with audio and video. -/
def States.load (st : States) : States :=
  ([.create .clock, .setState .clock .idle, .create .videoCodec, .create .videoRenderer,
      .create .videoScheduler, .setState .videoCodec .idle, .setState .videoScheduler .idle,
      .setState .videoRenderer .idle, .create .audioCodec, .create .audioRenderer,
      .setState .audioCodec .idle, .setState .audioCodec .executing, .setState .clock .executing,
      .setState .audioRenderer .idle, .setState .audioRenderer .executing] : List Call).foldl
    (fun st call => call.moves st) st

section Operations

variable {env : Env} (henv : OmxSucceeds env)

include henv

theorem moves_flushBody (saveState : Status) :
    Moves (fun _ => True) (flushBody env saveState) (.broke resultSuccess)
      (States.flush saveState) := by
  have hwrite : ∀ f : Esplayer → Esplayer, (∀ s, (f s).states = s.states) →
      Moves (fun _ => True) (write f) () id := fun f hf => moves_write hf fun _ h => h
  have hclear : ∀ i, Moves (fun _ => True) (clearBufQueue i) () id :=
    fun i => moves_emit (fun _ => rfl) fun _ h => h
  have hqueues : Moves (fun _ => True) clearFrameQueues () fun st => id (id st) :=
    Moves.bind (hwrite _ fun _ => rfl) (hwrite _ fun _ => rfl)
  have hstop : Moves (fun _ => True) (performIfHeld env .clock .setStopped) 0 id :=
    moves_performIfHeld henv stable_true rfl fun _ _ => rfl
  have hchange : ∀ state, Moves (fun _ => True) (changeComponentsState env state) 0
      (States.change state) := fun state => moves_changeStates henv stable_true state _
  have hpause : Moves (fun _ => True)
      (if saveState ≠ .paused then changeComponentsState env .pause else return 0) 0
      fun st => if saveState ≠ .paused then st.change .pause else st := by
    by_cases hs : saveState ≠ .paused
    · simpa only [if_pos hs] using hchange .pause
    · simp only [if_neg hs]
      exact moves_pure 0
  have hresume : Moves (fun _ => True)
      (if saveState = .playing then changeComponentsState env .executing else return 0) 0
      fun st => if saveState = .playing then st.change .executing else st := by
    by_cases hs : saveState = .playing
    · simpa only [if_pos hs] using hchange .executing
    · simp only [if_neg hs]
      exact moves_pure 0
  have hwait : ∀ (held : Bool) (mask : Nat), Moves (fun _ => True)
      (if held then perform env (.setWaitingForStartTime mask) else return 0) 0 id := by
    intro held mask
    cases held with
    | false => exact moves_pure 0
    | true => exact moves_perform henv stable_true rfl
  -- only a playing player is set to run again
  have hrestart : Moves (fun _ => True) (flushRestart env saveState) (.broke resultSuccess)
      fun st => if saveState = .playing then st.change .executing else st := by
    exact Moves.congr (Moves.breakIfNonzero (moves_setComponentsFlush henv stable_true) <|
      moves_read_bind fun held => moves_read_bind fun mask =>
      Moves.breakIfNonzero (hwait held mask) <| Moves.bind (hwrite _ fun _ => rfl) <|
      Moves.breakIfNonzero hresume (moves_pure _)) fun _ => rfl
  exact Moves.congr (Moves.breakIfNonzero hstop <| Moves.bind hqueues <| Moves.bind (hclear _) <|
    Moves.bind (hclear _) <| Moves.breakIfNonzero hpause hrestart) fun _ => rfl

theorem moves_playLoaded :
    Moves (fun _ => True) (playLoaded env) resultSuccess States.playLoaded := by
  have hperform : ∀ call : Call, call.isOmx = true →
      Moves (fun _ => True) (perform env call) 0 call.moves :=
    fun call => moves_perform henv stable_true
  have hconfig : ∀ size : Nat, Moves (fun _ => True)
      (onlyIf (size ≠ 0) (sendVideoDecoderConfig env)) () id := by
    intro size
    have hsend : Moves (fun _ => True) (sendVideoDecoderConfig env) () id :=
      moves_read_bind fun _ => Moves.logIfNonzero (hperform _ rfl)
    rw [onlyIf]
    by_cases hs : size ≠ 0
    · rw [if_pos hs]
      exact hsend
    · rw [if_neg hs]
      exact moves_pure ()
  exact moves_read_bind fun _ => Moves.congr (Moves.breakIfNonzero (hperform _ rfl) <|
    Moves.bind (Moves.logIfNonzero (moves_setState henv stable_true)) <|
    moves_read_bind fun _ => Moves.bind (hconfig _) <|
    Moves.bind (Moves.logIfNonzero (hperform _ rfl)) <|
    Moves.bind (Moves.logIfNonzero (hperform _ rfl)) <|
    Moves.bind (Moves.logIfNonzero (hperform _ rfl)) (moves_pure _)) fun _ => rfl

theorem moves_playPaused :
    Moves (fun _ => True) (playPaused env) resultSuccess (States.change .executing) :=
  moves_read_bind fun _ => Moves.congr
    (Moves.breakIfNonzero (moves_perform henv stable_true rfl) <|
      Moves.breakIfNonzero (moves_changeStates henv stable_true _ _) (moves_pure _)) fun _ => rfl

theorem moves_pauseSection :
    Moves (fun _ => True) (pauseSection env) resultSuccess (States.change .pause) :=
  Moves.congr
    (Moves.breakIfNonzero (moves_perform henv stable_true rfl) <|
      Moves.breakIfNonzero (moves_changeStates henv stable_true _ _) <|
      Moves.bind (moves_emit (fun _ => rfl) fun _ h => h) (moves_pure _)) fun _ => rfl

/-- There is audio and video to be played. -/
def Both (s : Esplayer) : Prop := (s.enableAudio, s.enableVideo) = (true, true)

theorem moves_loadBody : Moves Both (loadBody env) resultSuccess States.load := by
  have hP : Stable Both := stable_eq ⟨fun _ _ => rfl, fun _ _ => rfl, fun _ _ => rfl⟩ (true, true)
  have hlog : ∀ call : Call, call.isOmx = true →
      Moves Both (logIfNonzero (perform env call)) () call.moves :=
    fun call hcall => Moves.logIfNonzero (moves_perform henv hP hcall)
  have hheld : ∀ call : Call, call.isOmx = true → (∀ st, call.moves st = st) →
      Moves Both (performIfHeld env .audioCodec call) 0 call.moves :=
    fun call hcall hst => moves_performIfHeld henv hP hcall fun st _ => hst st
  have hwait : ∀ (held : Bool) (mask : Nat), Moves Both
      (if held then perform env (.setWaitingForStartTime mask) else return 0) 0 id := by
    intro held mask
    cases held with
    | false => exact moves_pure 0
    | true => exact moves_perform henv hP rfl
  -- the parts of the loop, from its end to its start
  have hstart : ∀ result, Moves Both (loadStart env result) resultSuccess id := fun result =>
    Moves.congr (moves_read_bind fun held => moves_read_bind fun mask =>
      Moves.breakIfNonzero (hwait held mask) <|
      Moves.bind (moves_emit (fun _ => rfl) fun _ h => h) (moves_pure _)) fun _ => rfl
  -- what follows runs only if the tunnel is set up, which it is
  have htunnel : Moves Both (loadAudioTunnel env (loadStart env resultAudioStateError))
      resultSuccess fun st => (st.after tunnelSteps).after rendererSteps := by
    have hset : Moves Both (breakSteps env tunnelSteps (breakSteps env rendererSteps
        (loadStart env resultAudioStateError))) resultSuccess _ :=
      moves_breakSteps henv hP (by decide) (moves_breakSteps henv hP (by decide) (hstart _))
    have hcall : Moves Both (perform env (.setupTunnel .audioCodec)) 0 id :=
      moves_perform henv hP rfl
    intro s hs
    obtain ⟨hret, hst, hs'⟩ := hcall s hs
    have hrest := hset _ hs'
    rw [hst] at hrest
    rw [loadAudioTunnel, run_bind, hret, if_pos rfl]
    exact hrest
  have haudio : Moves Both (loadAudio env (loadStart env resultAudioStateError)) resultSuccess _ :=
    Moves.breakIfNonzero (moves_breakSteps henv hP (by decide) (moves_pure resultSuccess)) <|
      Moves.breakIfNonzero (hheld _ rfl fun _ => rfl) <|
      Moves.breakIfNonzero (hheld _ rfl fun _ => rfl) <|
      Moves.breakIfNonzero (hheld _ rfl fun _ => rfl) <|
      moves_breakSteps henv hP (by decide) <|
      Moves.breakIfNonzero (moves_perform henv hP rfl) <|
      Moves.bind (hlog _ rfl) htunnel
  have hfrom : ∀ result, Moves Both (loadFromAudio env result) resultSuccess _ := fun result =>
    Moves.bind (moves_read fun _ hs => congrArg Prod.fst hs) haudio
  have hvideo : Moves Both (loadVideo env (loadFromAudio env resultVideoTunnelError))
      resultSuccess _ :=
    Moves.breakIfNonzero (moves_breakSteps henv hP (by decide) (moves_pure resultSuccess)) <|
      moves_breakSteps henv hP (by decide) <| Moves.bind (hlog _ rfl) <| Moves.bind (hlog _ rfl) <|
      Moves.bind (hlog _ rfl) (hfrom _)
  exact Moves.congr
    (Moves.breakIfNonzero (moves_breakSteps henv hP (by decide) (moves_pure resultSuccess)) <|
      Moves.breakIfNonzero (moves_perform henv hP rfl) <|
      Moves.bind (moves_read fun _ hs => congrArg Prod.snd hs) hvideo) fun _ => rfl

end Operations

end DirectMedia