import DirectMedia.Player.Flush

set_option autoImplicit false

/-! # Unload against play, pause and flush

The resource manager may call `unload` on a thread of its own, in the middle of an operation of the
application. Its section under `unload_mutex_` is one step here, and it can come at every point of
the operation at which the operation does not hold the mutex itself.

`flush` looks at the components again after it has taken the mutex, so an unload before that leaves
it nothing to use. `pause` does not look again, and `play` never takes the mutex: an unload after
their last check makes them use the clock that was destroyed, or set the status after it was final.
`unload_final_iff` says exactly when.
-/

namespace DirectMedia

open Prog

/-! ## After an unload -/

/-- What `unload` leaves. -/
structure Unloaded (s : Esplayer) : Prop where
  status : s.status = .unloaded
  loaded : s.loaded = false
  component : ∀ c, s.component c = none

/-- The section of `unload` under the mutex, as one step. -/
def unloadStep (env : Env) (s : Esplayer) : Esplayer := ((unloadSection env).run s).2

theorem run_destroyComponent (c : ComponentName) (s : Esplayer) :
    ((destroyComponent c).run s).2 =
      { s with component := Function.update s.component c none } := by
  simp only [destroyComponent, run_bind, run_read, run_onlyIf, run_emit]
  split
  case isTrue => rfl
  case isFalse hnull =>
    have hnone : s.component c = none := by simpa using hnull
    rw [← hnone, Function.update_eq_self]

theorem run_destroyComponents (cs : List ComponentName) (s : Esplayer) :
    ((cs.forM destroyComponent).run s).2 =
      { s with component := fun c => if c ∈ cs then none else s.component c } := by
  induction cs generalizing s with
  | nil => simp [List.forM]
  | cons c cs ih =>
      simp only [List.forM, run_bind, ih, run_destroyComponent, Esplayer.mk.injEq, true_and,
        and_true]
      funext d
      by_cases hd : d = c
      · simp [hd]
      · simp [hd]

theorem mem_destroyOrder (c : ComponentName) : c ∈ destroyOrder := by
  cases c <;> decide

theorem unloaded_unloadStep (env : Env) {s : Esplayer} (hs : s.loaded = true) :
    Unloaded (unloadStep env s) := by
  simp only [unloadStep, unloadSection, run_bind, run_exchange, hs, if_true, unloadAll,
    run_destroyComponents, mem_destroyOrder, run_transit, run_logIfNonzero, run_perform, run_pure,
    run_write, clearFrameQueues]
  have hcalls := Keeps.run
    (ofOperations_loaded.logCalls env (show ∀ c ∈ unloadCalls, c.2.plain = true by decide))
  generalize hu : ((unloadCalls.forM fun c => logIfNonzero (performIfHeld env c.1 c.2)).run _).2 = u
  have hloaded : u.loaded = false := by
    rw [← hu, hcalls]
    rfl
  split
  · exact ⟨rfl, hloaded, fun _ => rfl⟩
  · exact ⟨rfl, hloaded, fun _ => rfl⟩

/-- On a player that is unloaded, the program uses no component and leaves it unloaded. -/
abbrev Quiet {α : Type} (p : Op α) : Prop := p.Safe Unloaded fun e => e.isUse = false

/-- So does every action of the program. -/
abbrev DoesQuiet {α : Type} (p : Op α) : Prop :=
  p.Does fun f => ∀ s, Unloaded s → (∀ e ∈ (f s).1, e.isUse = false) ∧ Unloaded (f s).2

theorem quiet_canTransit (status : Status) : Quiet (canTransit status) := by
  intro s hs
  refine ⟨fun e he => ?_, hs⟩
  rw [trace_canTransit] at he
  split at he
  · rw [List.mem_singleton.mp he]
    rfl
  · cases he

/-- The check of `loaded_` fails. -/
theorem quiet_readLoaded_bind {α : Type} {p q : Op α} (hq : Quiet q) :
    Quiet (readLoaded >>= fun loaded => if loaded then p else q) := by
  intro s hs
  have hrun := hq s hs
  simpa [hs.loaded, Event.isUse] using hrun

/-- Before an entry check, or after it. -/
theorem visits_canTransit_bind {α : Type} {status : Status} {g : Bool → Op α}
    {y : Point Esplayer Event α} {s : Esplayer} {b : Bool} {d : List (Mark Event)}
    (h : Visits y (canTransit status >>= g) s b d) :
    y = ⟨canTransit status >>= g, s, b, d⟩ ∨
      Visits y (g (s.status.canTransit status)) s b
        (d ++ if s.status.canTransit status then [.event .admitted] else []) := by
  rcases h with rfl | h
  · exact .inl rfl
  · refine .inr ?_
    change Visits y (g _) s b (d ++ (if _ then _ else _ : Option Event).toList.map .event) at h
    split at h
    case isTrue hcan => simpa [hcan] using h
    case isFalse hcan => simpa [hcan] using h

/-- Before the check of `loaded_`, or after it. -/
theorem visits_readLoaded_bind {α : Type} {g : Bool → Op α} {y : Point Esplayer Event α}
    {s : Esplayer} {b : Bool} {d : List (Mark Event)} (h : Visits y (readLoaded >>= g) s b d) :
    y = ⟨readLoaded >>= g, s, b, d⟩ ∨
      Visits y (g s.loaded) s b (d ++ [.event (.loadedRead s.loaded)]) := by
  rcases h with rfl | h
  · exact .inl rfl
  · exact .inr h

/-! ## Flush -/

theorem safeCalls_noComponents : SafeCalls NoComponents fun e => e.isUse = false where
  component heq hs c := by rw [heq, hs c]
  notUse := id
  held env c call _ := by
    refine Safe.read_bind fun s hs => ?_
    rw [hs c]
    exact safe_pure 0
  clock env mask s hs hheld := by
    rw [hs .clock] at hheld
    cases hheld

theorem quiet_flushSection (env : Env) : Quiet (flushSection env) := by
  intro s hs
  obtain ⟨huse, hnone⟩ := safeCalls_noComponents.flushSection env s hs.component
  have hstatus : ((flushSection env).run s).2.status = s.status :=
    (flushSection_status_iff env s).mpr (.inr (.inr (.inr fun c _ hheld => by
      simp [hs.component c] at hheld)))
  have hloaded := Keeps.run (ofOperations_loaded.flushSection (fun _ _ => rfl) env) s
  exact ⟨huse, hstatus.trans hs.status, hloaded.trans hs.loaded, hnone⟩

theorem lockFree_flushSection (env : Env) : (flushSection env).LockFree := by
  have hreset : flushReset.LockFree := by
    refine LockFree.bind (lockFree_write _) fun _ => ?_
    refine LockFree.bind (lockFree_write _) fun _ => ?_
    refine LockFree.bind (lockFree_read _) fun _ => ?_
    refine LockFree.bind (LockFree.onlyIf (lockFree_write _)) fun _ => ?_
    exact LockFree.bind (lockFree_read _) fun _ => LockFree.onlyIf (lockFree_write _)
  have hrestart : ∀ saveState, (flushRestart env saveState).LockFree := by
    intro saveState
    refine lockFree_breakIfNonzero (lockFree_setComponentsFlush env) ?_
    refine LockFree.bind (lockFree_read _) fun _ => LockFree.bind (lockFree_read _) fun _ => ?_
    refine lockFree_breakIfNonzero
      (LockFree.ite (fun _ => lockFree_perform _ _) fun _ => lockFree_pure _) ?_
    refine LockFree.bind (lockFree_write _) fun _ => ?_
    exact lockFree_breakIfNonzero
      (LockFree.ite (fun _ => lockFree_changeStates _ _ _) fun _ => lockFree_pure _)
      (lockFree_pure _)
  have hbody : ∀ saveState, (flushBody env saveState).LockFree := by
    intro saveState
    refine lockFree_breakIfNonzero (lockFree_performIfHeld _ _ _) ?_
    refine LockFree.bind (LockFree.bind (lockFree_write _) fun _ => lockFree_write _) fun _ => ?_
    refine LockFree.bind (lockFree_emit _ _) fun _ => LockFree.bind (lockFree_emit _ _) fun _ => ?_
    exact lockFree_breakIfNonzero
      (LockFree.ite (fun _ => lockFree_changeStates _ _ _) fun _ => lockFree_pure _) (hrestart _)
  refine LockFree.bind hreset fun _ => ?_
  refine LockFree.bind (lockFree_read _) fun _ => ?_
  refine LockFree.bind (lockFree_emit _ _) fun _ => ?_
  refine LockFree.bind (hbody _) fun exit => ?_
  cases exit with
  | broke result => exact LockFree.bind (lockFree_emit _ _) fun _ => lockFree_pure _
  | returned value => exact lockFree_pure _

/-- Where `flush` does not hold the mutex, the rest of it can stand an unload. -/
theorem quiet_flush_rest (env : Env) {s : Esplayer} {x : Point Esplayer Event Int}
    {d : List (Mark Event)} (hx : Visits x (flush env) s false d) (hfree : x.held = false) :
    Quiet x.prog := by
  have hlocked : Quiet (withLock (flushSection env)) := by
    intro u hu
    simpa using quiet_flushSection env u hu
  have hloaded := quiet_readLoaded_bind (p := withLock (flushSection env))
    (safe_pure (ε := Event) resultSuccess)
  rcases visits_canTransit_bind hx with rfl | hx
  · exact Safe.bind (quiet_canTransit _) fun _ => Safe.ite hloaded (safe_pure _)
  split at hx
  case isFalse =>
    rcases hx with rfl
    exact safe_pure _
  case isTrue =>
    rcases visits_readLoaded_bind hx with rfl | hx
    · exact hloaded
    split at hx
    case isFalse =>
      rcases hx with rfl
      exact safe_pure _
    case isTrue =>
      -- before the mutex, with it, or after it
      rcases visits_withLock (lockFree_flushSection env) hx with rfl | hheld | ⟨⟨a, ha⟩, -⟩
      · exact hlocked
      · rw [hfree] at hheld
        cases hheld
      · rw [ha]
        exact safe_pure a

/-! ## Pause -/

/-- Whatever the state, the program calls through a component pointer. -/
def Uses {α : Type} (p : Op α) : Prop := ∀ s, ∃ e ∈ p.trace s, e.isUse = true

theorem uses_bind_left {α β : Type} {p : Op α} {g : α → Op β} (h : Uses p) : Uses (p >>= g) := by
  intro s
  obtain ⟨e, he, huse⟩ := h s
  exact ⟨e, by simp [he], huse⟩

theorem uses_bind_right {α β : Type} {p : Op α} {g : α → Op β} (h : ∀ a, Uses (g a)) :
    Uses (p >>= g) := by
  intro s
  obtain ⟨e, he, huse⟩ := h (p.run s).1 (p.run s).2
  exact ⟨e, by simp [he], huse⟩

/-- The section of `pause` goes to the clock without looking at its pointer. -/
theorem uses_withLock_pauseSection (env : Env) : Uses (withLock (pauseSection env)) := by
  refine uses_bind_right fun _ => uses_bind_left (uses_bind_left fun s => ?_)
  exact ⟨.use .clock (s.component .clock).isSome, by simp [Call.target], rfl⟩

theorem lockFree_pauseSection (env : Env) : (pauseSection env).LockFree := by
  refine lockFree_breakIfNonzero (lockFree_perform _ _) ?_
  refine lockFree_breakIfNonzero (lockFree_changeStates _ _ _) ?_
  exact LockFree.bind (lockFree_emit _ _) fun _ => lockFree_pure _

theorem quiet_status_ite (status : Status) {q : Op Int} (hq : Quiet q) :
    Quiet (read Esplayer.status >>= fun st => if st = status then pure resultSuccess else q) :=
  Safe.read_bind fun _ _ => Safe.ite (safe_pure _) hq

/-- The points of `pause` at which its check of `loaded_` is passed and the mutex not taken. -/
def PauseStale (done : List (Mark Event)) : Prop :=
  .event (.loadedRead true) ∈ done ∧ .acquired ∉ done

theorem pauseLoaded_rest (env : Env) {s : Esplayer} {x : Point Esplayer Event Int}
    {d : List (Mark Event)} (hx : Visits x (pauseLoaded env) s false d) (hfree : x.held = false)
    (hd : PauseStale d) :
    (Quiet x.prog ∧ ¬ PauseStale x.done) ∨ (Uses x.prog ∧ PauseStale x.done) := by
  have huses := uses_withLock_pauseSection env
  have hshow : (setRunningStates false).Does fun f => ∀ s, ∀ e ∈ (f s).1, False := by
    have hwrite : ∀ f, (write f : Op Unit).Does fun f => ∀ s, ∀ e ∈ (f s).1, False :=
      fun f => does_exchange _ f fun _ _ he => by simp at he
    exact Does.bind (hwrite _) fun _ => Does.bind (hwrite _) fun _ => Does.bind (hwrite _) fun _ =>
      hwrite _
  have hlockFree : (setRunningStates false).LockFree :=
    LockFree.bind (lockFree_write _) fun _ => LockFree.bind (lockFree_write _) fun _ =>
      LockFree.bind (lockFree_write _) fun _ => lockFree_write _
  -- stopping the loopers leaves no mark
  have hmarks : ∀ {y : Point Esplayer Event Unit},
      Visits y (setRunningStates false) s false d → y.done = d ∧ y.held = false := by
    intro y hy
    obtain ⟨es, hes, hnone⟩ := Does.marks hlockFree hshow hy
    cases es with
    | nil => exact ⟨by simpa using hes, (hlockFree.visits hy).1⟩
    | cons e es => exact absurd (hnone e (by simp)) id
  -- while the loopers are stopped, or after that
  rcases visits_bind hx with ⟨y, hy, rfl⟩ | ⟨b', d', hlast, hx⟩
  · refine .inr ⟨uses_bind_right fun _ => huses, ?_⟩
    simpa only [Point.bind, (hmarks hy).1] using hd
  · obtain ⟨hd', hb'⟩ := hmarks hlast
    simp only at hd' hb'
    subst hd' hb'
    rcases visits_withLock (lockFree_pauseSection env) hx with rfl | hheld | ⟨⟨a, ha⟩, hacq⟩
    · exact .inr ⟨huses, hd⟩
    · rw [hfree] at hheld
      cases hheld
    · refine .inl ⟨?_, fun h => h.2 hacq⟩
      rw [ha]
      exact safe_pure a

/-- Where `pause` does not hold the mutex, either the rest of it can stand an unload, or it has
checked `loaded_` and will go to the clock. -/
theorem pause_rest (env : Env) {s : Esplayer} {x : Point Esplayer Event Int}
    (hx : Visits x (pause env) s false []) (hfree : x.held = false) :
    (Quiet x.prog ∧ ¬ PauseStale x.done) ∨ (Uses x.prog ∧ PauseStale x.done) := by
  have hloaded : Quiet (readLoaded >>= fun loaded =>
      if loaded then pauseLoaded env else pure resultFail) :=
    quiet_readLoaded_bind (safe_pure resultFail)
  have hpaused := quiet_status_ite .paused hloaded
  have hpassed := quiet_status_ite .loaded hpaused
  have hnot : ∀ d : List (Mark Event), .event (.loadedRead true) ∉ d → ¬ PauseStale d :=
    fun d hd h => hd h.1
  -- one point after the other, up to the section
  rcases visits_canTransit_bind hx with rfl | hx
  · exact .inl ⟨Safe.bind (quiet_canTransit _) fun _ => Safe.ite hpassed (safe_pure _),
      hnot _ (by simp)⟩
  split at hx
  case isFalse hcan =>
    rcases hx with rfl
    exact .inl ⟨safe_pure _, hnot _ (by simp)⟩
  case isTrue hcan =>
    rcases visits_read_bind hx with rfl | hx
    · exact .inl ⟨hpassed, hnot _ (by simp)⟩
    split at hx
    case isTrue =>
      rcases hx with rfl
      exact .inl ⟨safe_pure _, hnot _ (by simp)⟩
    case isFalse =>
      rcases visits_read_bind hx with rfl | hx
      · exact .inl ⟨hpaused, hnot _ (by simp)⟩
      split at hx
      case isTrue =>
        rcases hx with rfl
        exact .inl ⟨safe_pure _, hnot _ (by simp)⟩
      case isFalse =>
        rcases visits_readLoaded_bind hx with rfl | hx
        · exact .inl ⟨hloaded, hnot _ (by simp)⟩
        split at hx
        case isTrue h =>
          exact pauseLoaded_rest env hx hfree ⟨by simp [h], by simp⟩
        case isFalse h =>
          rcases hx with rfl
          exact .inl ⟨safe_pure _, hnot _ (by simp [h])⟩

/-! ## Play -/

/-- Whatever the state, the player plays in the end. -/
def EndsPlaying {α : Type} (p : Op α) : Prop := ∀ s, (p.run s).2.status = .playing

theorem endsPlaying_bind {α β : Type} {p : Op α} {g : α → Op β} (h : ∀ a, EndsPlaying (g a)) :
    EndsPlaying (p >>= g) := by
  intro s
  rw [run_bind]
  exact h _ _

/-- Also if a call fails. -/
theorem endsPlaying_playAdmitted (env : Env) : EndsPlaying (playAdmitted env) := by
  refine endsPlaying_bind fun _ => endsPlaying_bind fun _ => endsPlaying_bind fun _ => ?_
  exact endsPlaying_bind fun _ _ => rfl

/-- The points of `play` at which its entry check is passed and the status not yet written. -/
def PlayStale (done : List (Mark Event)) : Prop :=
  .event .admitted ∈ done ∧ ∀ old, .event (.transit old .playing) ∉ done

/-- The action is not a call of `transit`. -/
abbrev NoTransit (f : Action) : Prop := ∀ s, ∀ e ∈ (f s).1, ∀ old new, e ≠ .transit old new

theorem noTransit_performAction (env : Env) (call : Call) : NoTransit (performAction env call) := by
  intro s e he old new
  simp only [performAction, Option.mem_def, Option.map_eq_some_iff] at he
  obtain ⟨c, -, rfl⟩ := he
  simp

theorem ofOperations_noTransit : OfOperations NoTransit where
  read _ _ he := by cases he
  call env call _ := noTransit_performAction env call
  rate env _ := noTransit_performAction env _
  admitted status s e he old new := by
    simp only [Option.mem_def, Option.ite_none_right_eq_some, Option.some.injEq] at he
    obtain ⟨-, rfl⟩ := he
    simp
  loadedRead s e he old new := by
    simp only [Option.mem_def, Option.some.injEq] at he
    simp [← he]
  cleared i s e he old new := by
    simp only [Option.mem_def, Option.some.injEq] at he
    simp [← he]
  clearRenderer _ _ _ he := by cases he
  runRenderer _ _ _ _ he := by cases he
  runMessages _ _ _ _ he := by cases he
  pts _ _ _ he := by cases he
  lastPts _ _ _ he := by cases he
  eos _ _ _ he := by cases he
  trickMode _ _ _ he := by cases he
  allowVideo _ _ he := by cases he
  targetPlaybackRate _ _ _ he := by cases he

theorem lockFree_playBody (env : Env) : (playBody env).LockFree := by
  refine LockFree.bind (lockFree_read _) fun _ => LockFree.ite (fun _ => ?_) fun _ => ?_
  · refine LockFree.bind (lockFree_read _) fun _ => ?_
    refine lockFree_breakIfNonzero (lockFree_perform _ _) ?_
    refine LockFree.bind (lockFree_logIfNonzero (lockFree_performIfHeld _ _ _)) fun _ => ?_
    refine LockFree.bind (lockFree_read _) fun _ => ?_
    refine LockFree.bind (LockFree.onlyIf (LockFree.bind (lockFree_read _) fun _ =>
      lockFree_logIfNonzero (lockFree_perform _ _))) fun _ => ?_
    refine LockFree.bind (lockFree_logIfNonzero (lockFree_perform _ _)) fun _ => ?_
    refine LockFree.bind (lockFree_logIfNonzero (lockFree_perform _ _)) fun _ => ?_
    exact LockFree.bind (lockFree_logIfNonzero (lockFree_perform _ _)) fun _ => lockFree_pure _
  · refine LockFree.bind (lockFree_read _) fun _ => LockFree.ite (fun _ => ?_) fun _ =>
      lockFree_pure _
    refine LockFree.bind (lockFree_read _) fun _ => ?_
    exact lockFree_breakIfNonzero (lockFree_perform _ _)
      (lockFree_breakIfNonzero (lockFree_changeStates _ _ _) (lockFree_pure _))

/-- The points of a part of `play` before the status is written. -/
theorem visits_beforeTransit {α β : Type} {p : Op α} {g : α → Op β} (hlock : p.LockFree)
    (hp : p.Does NoTransit) (hg : ∀ a, EndsPlaying (g a)) {s : Esplayer} {b : Bool}
    {d : List (Mark Event)} (hd : PlayStale d) {x : Point Esplayer Event β}
    (hx : Visits x (p >>= g) s b d) :
    (EndsPlaying x.prog ∧ PlayStale x.done) ∨
      ∃ b' d', PlayStale d' ∧ Visits x (g (p.run s).1) (p.run s).2 b' d' := by
  have hdone : ∀ {y : Point Esplayer Event α}, Visits y p s b d → PlayStale y.done := by
    intro y hy
    obtain ⟨es, hes, hnone⟩ := Does.marks hlock hp hy
    rw [hes]
    refine ⟨List.mem_append_left _ hd.1, fun old hmem => ?_⟩
    rcases List.mem_append.mp hmem with h | h
    · exact hd.2 old h
    · obtain ⟨e, he, heq⟩ := List.mem_map.mp h
      exact hnone e he old .playing (Mark.event.inj heq)
  rcases visits_bind hx with ⟨y, hy, rfl⟩ | ⟨b', d', hlast, hx⟩
  · exact .inl ⟨endsPlaying_bind hg, hdone hy⟩
  · exact .inr ⟨b', d', hdone hlast, hx⟩

theorem doesQuiet_setRunningStates (run : Bool) : DoesQuiet (setRunningStates run) := by
  have hrenderer : ∀ i f, DoesQuiet (write fun s => s.onRenderer i f) :=
    fun i f => does_exchange _ _ fun s hs => ⟨fun _ he => (by cases he), hs.1, hs.2, hs.3⟩
  have hmessages : ∀ i f, DoesQuiet (write fun s => s.onMessages i f) :=
    fun i f => does_exchange _ _ fun s hs => ⟨fun _ he => (by cases he), hs.1, hs.2, hs.3⟩
  exact Does.bind (hrenderer _ _) fun _ => Does.bind (hrenderer _ _) fun _ =>
    Does.bind (hmessages _ _) fun _ => hmessages _ _

/-- The end of `play`. -/
theorem playEnd_rest (result : Int) {s : Esplayer} {b : Bool} {d : List (Mark Event)}
    (hd : PlayStale d) {x : Point Esplayer Event Int}
    (hx : Visits x (transit .playing >>= fun _ => setRunningStates true >>= fun _ => pure result)
      s b d) :
    (Quiet x.prog ∧ ¬ PlayStale x.done) ∨ (EndsPlaying x.prog ∧ PlayStale x.done) := by
  rcases hx with rfl | hx
  · exact .inr ⟨fun _ => rfl, hd⟩
  · have hquiet : DoesQuiet (setRunningStates true >>= fun _ => (pure result : Op Int)) :=
      Does.bind (doesQuiet_setRunningStates true) fun _ => does_pure _
    refine .inl ⟨Does.safe (hquiet.rest hx), fun h => h.2 s.status ?_⟩
    exact hx.done_mono.subset (by simp)

/-- At every point of `play` the rest of it can stand an unload, or it has passed its entry check
and will write the status. -/
theorem play_rest (env : Env) {s : Esplayer} {x : Point Esplayer Event Int}
    (hx : Visits x (play env) s false []) :
    (Quiet x.prog ∧ ¬ PlayStale x.done) ∨ (EndsPlaying x.prog ∧ PlayStale x.done) := by
  rcases visits_canTransit_bind hx with rfl | hx
  · refine .inl ⟨fun u hu => ?_, fun h => by simpa using h.1⟩
    -- an unloaded player does not play
    have hcan : u.status.canTransit .playing = false := by
      rw [hu.status]
      rfl
    simpa [play, hcan] using hu
  split at hx
  case isFalse hcan =>
    rcases hx with rfl
    exact .inl ⟨safe_pure _, fun h => by simpa using h.1⟩
  case isTrue hcan =>
    have hend : ∀ result : Int, EndsPlaying
        (transit .playing >>= fun _ => setRunningStates true >>= fun _ => pure result) :=
      fun result s => rfl
    have hstart : PlayStale ([] ++ [.event .admitted]) := ⟨by simp, fun old h => by simp at h⟩
    -- the four parts before the status is written
    rcases visits_beforeTransit (lockFree_write _)
      (does_exchange _ _ ofOperations_noTransit.allowVideo)
      (fun _ => endsPlaying_bind fun _ => endsPlaying_bind fun _ => endsPlaying_bind hend)
      hstart hx with h | ⟨b, d, hd, hx⟩
    · exact .inr h
    rcases visits_beforeTransit (lockFree_read _)
      (does_read _ ofOperations_noTransit.read)
      (fun _ => endsPlaying_bind fun _ => endsPlaying_bind hend) hd hx with h | ⟨b, d, hd, hx⟩
    · exact .inr h
    rcases visits_beforeTransit (LockFree.onlyIf (lockFree_write _))
      (Does.onlyIf fun _ => does_exchange _ _ (ofOperations_noTransit.lastPts _))
      (fun _ => endsPlaying_bind hend) hd hx
      with h | ⟨b, d, hd, hx⟩
    · exact .inr h
    rcases visits_beforeTransit (lockFree_playBody env) (ofOperations_noTransit.playBody env) hend
      hd hx
      with h | ⟨b, d, hd, hx⟩
    · exact .inr h
    exact playEnd_rest _ hd hx

/-! ## Unload is final -/

/-- The operations of the application that an unload may interrupt. -/
inductive PlaybackOp where
  | play
  | pause
  | flush
  deriving DecidableEq, Repr

/-- The program of an operation. -/
def PlaybackOp.prog (env : Env) : PlaybackOp → Op Int
  | .play => DirectMedia.play env
  | .pause => DirectMedia.pause env
  | .flush => DirectMedia.flush env

/-- A check that the operation has made is no longer true after an unload, and the operation relies
on it: `play` between its entry check and its write of the status, `pause` between its check of
`loaded_` and its lock, `flush` never. -/
def Stale (op : PlaybackOp) (done : List (Mark Event)) : Prop :=
  match op with
  | .play => PlayStale done
  | .pause => PauseStale done
  | .flush => False

/-- After an unload at the point `x` the operation uses no component, and the status in the end is
`NDL_ESP_STATUS_UNLOADED`. -/
def UnloadFinal (env : Env) (x : Point Esplayer Event Int) : Prop :=
  (∀ e ∈ x.prog.trace (unloadStep env x.state), e.isUse = false) ∧
    (x.prog.run (unloadStep env x.state)).2.status = .unloaded

theorem Quiet.unloadFinal {env : Env} {x : Point Esplayer Event Int} (h : Quiet x.prog)
    (hu : Unloaded (unloadStep env x.state)) : UnloadFinal env x := by
  obtain ⟨huse, hrest⟩ := h _ hu
  exact ⟨huse, hrest.status⟩

theorem keeps_loaded_prog (env : Env) (op : PlaybackOp) :
    (op.prog env).Keeps Esplayer.loaded := by
  cases op with
  | play => exact ofOperations_loaded.play (fun _ _ => rfl) env
  | pause => exact ofOperations_loaded.pause (fun _ _ => rfl) env
  | flush => exact ofOperations_loaded.flush (fun _ _ => rfl) env

/-- **Unload is final, unless a check is stale.** An unload that comes at a point of `play`, `pause`
or `flush` at which the mutex is free is final exactly if the operation is not between a check and
what it does about it. -/
theorem unload_final_iff (op : PlaybackOp) (env env' : Env) (s : Esplayer)
    (hloaded : s.loaded = true) (x : Point Esplayer Event Int)
    (hx : Visits x (op.prog env) s false []) (hfree : x.held = false) :
    UnloadFinal env' x ↔ ¬ Stale op x.done := by
  have hu : Unloaded (unloadStep env' x.state) := by
    refine unloaded_unloadStep env' ?_
    rw [(keeps_loaded_prog env op).visits hx, hloaded]
  cases op with
  | play =>
      rcases play_rest env hx with ⟨hquiet, hstale⟩ | ⟨hplaying, hstale⟩
      · exact ⟨fun _ => hstale, fun _ => hquiet.unloadFinal hu⟩
      · refine ⟨fun h => ?_, fun h => absurd hstale h⟩
        have hstatus := h.2
        rw [hplaying] at hstatus
        cases hstatus
  | pause =>
      rcases pause_rest env hx hfree with ⟨hquiet, hstale⟩ | ⟨huses, hstale⟩
      · exact ⟨fun _ => hstale, fun _ => hquiet.unloadFinal hu⟩
      · refine ⟨fun h => ?_, fun h => absurd hstale h⟩
        obtain ⟨e, he, huse⟩ := huses (unloadStep env' x.state)
        rw [h.1 e he] at huse
        cases huse
  | flush => exact ⟨fun _ h => h, fun _ => (quiet_flush_rest env hx hfree).unloadFinal hu⟩

/-- The section of `pause` is over, so an unload that comes now is final. -/
theorem unload_final_afterPause :
    UnloadFinal (fun _ => 0) ⟨.ret 0, ((pause fun _ => 0).run playingPlayer).2, false,
      [.event .admitted, .event (.loadedRead true), .acquired, .event (.use .clock true),
        .event (.use .videoCodec true), .event (.use .audioCodec true),
        .event (.use .audioRenderer true), .event (.use .videoScheduler true),
        .event (.use .clock true), .event (.transit .playing .paused), .released]⟩ := by
  refine (unload_final_iff .pause (fun _ => 0) (fun _ => 0) playingPlayer rfl _ ?_ rfl).mpr ?_
  · -- it is the last of the points of `pause`
    iterate 22 right
    rfl
  · simp [Stale, PauseStale]

/-- An unload after the entry check of `play` is followed by `NDL_ESP_STATUS_PLAYING`; an unload
after `pause` has checked `loaded_` is followed by a call through the pointer of the clock, which is
null. -/
theorem unload_final_fails :
    (∃ x, Visits x (PlaybackOp.play.prog fun _ => 0) playingPlayer false [] ∧ x.held = false ∧
      (x.prog.run (unloadStep (fun _ => 0) x.state)).2.status = .playing) ∧
    ∃ x, Visits x (PlaybackOp.pause.prog fun _ => 0) playingPlayer false [] ∧ x.held = false ∧
      .use .clock false ∈ x.prog.trace (unloadStep (fun _ => 0) x.state) := by
  refine ⟨⟨⟨playAdmitted fun _ => 0, playingPlayer, false, [.event .admitted]⟩, ?_, rfl, rfl⟩,
    ⟨⟨pauseLoaded fun _ => 0, playingPlayer, false, [.event .admitted, .event (.loadedRead true)]⟩,
      ?_, rfl, ?_⟩⟩
  · exact .inr (.inl rfl)
  · exact .inr (.inr (.inr (.inr (.inl rfl))))
  · decide

end DirectMedia
