import DirectMedia.Player.AllOrNothing
import DirectMedia.Player.Flush
import DirectMedia.Player.Held

set_option autoImplicit false

/-! # The life of a player

A player is loaded at most once: `load` needs `NDL_ESP_STATUS_IDLE` and a clear `loaded_`, sets
`loaded_` before it does anything, and no call leads back (`load_once`).

A load that fails leaves the status idle and `loaded_` set. From there play, pause, step and unload
are refused and a further load answers success, so what the load has built stays until a flush
breaks off between its two writes of the status (`failedLoad_stays_iff`). The destructor goes
through `flush` and `unload` too, so it releases a player whose load has failed only in that case
(`destroyed_iff`), and always one whose load has succeeded (`loaded_destroyed`).
-/

namespace DirectMedia

open Prog

/-! ## A load that fails does not change the status -/

/-- A run of the program changes the status only if it succeeds, and then to
`NDL_ESP_STATUS_LOADED`. -/
def LoadsOrKeeps {α : Type} (code : α → Int) (p : Op α) : Prop :=
  ∀ s, (p.run s).2.status = s.status ∨ code (p.run s).1 = 0 ∧ (p.run s).2.status = .loaded

section LoadsOrKeeps

variable {α β : Type} {code : α → Int}

theorem loadsOrKeeps_keeps {p : Op α} (h : p.Keeps Esplayer.status) : LoadsOrKeeps code p :=
  fun s => .inl (h.run s)

theorem LoadsOrKeeps.bind {p : Op β} {g : β → Op α} (hp : p.Keeps Esplayer.status)
    (hg : ∀ b, LoadsOrKeeps code (g b)) : LoadsOrKeeps code (p >>= g) := by
  intro s
  rw [run_bind, ← hp.run s]
  exact hg _ _

theorem LoadsOrKeeps.ite {c : Prop} [Decidable c] {p q : Op α} (hp : LoadsOrKeeps code p)
    (hq : LoadsOrKeeps code q) : LoadsOrKeeps code (if c then p else q) := by
  split
  · exact hp
  · exact hq

theorem LoadsOrKeeps.break {cond : Op Int} {result : α} {rest : Op α}
    (hcond : cond.Keeps Esplayer.status) (hrest : LoadsOrKeeps code rest) :
    LoadsOrKeeps code (breakIfNonzero cond result rest) :=
  LoadsOrKeeps.bind hcond fun _ =>
    LoadsOrKeeps.ite (loadsOrKeeps_keeps (keeps_pure _ _)) hrest

/-- The result of the program is part of what the caller gets. -/
theorem LoadsOrKeeps.map {p : Op β} {code' : β → Int} (hp : LoadsOrKeeps code' p) {f : β → α}
    (hf : ∀ b, code (f b) = code' b) : LoadsOrKeeps code (p >>= fun b => return f b) := by
  intro s
  rw [run_bind, run_pure, hf]
  exact hp s

end LoadsOrKeeps

section Load

variable (env : Env)

theorem keeps_status_perform (call : Call) : (perform env call).Keeps Esplayer.status :=
  untouched_status.perform env call

theorem keeps_status_performIfHeld (c : ComponentName) (call : Call) :
    (performIfHeld env c call).Keeps Esplayer.status :=
  Keeps.bind (keeps_read _ _) fun _ => Keeps.ite (keeps_status_perform env call) (keeps_pure _ _)

theorem keeps_status_log (call : Call) :
    (logIfNonzero (perform env call)).Keeps Esplayer.status :=
  Keeps.bind (keeps_status_perform env call) fun _ => keeps_pure _ _

theorem LoadsOrKeeps.steps (steps : List (Int × Call)) {rest : Op Int}
    (hrest : LoadsOrKeeps id rest) : LoadsOrKeeps id (breakSteps env steps rest) := by
  induction steps with
  | nil => exact hrest
  | cons x steps ih => exact LoadsOrKeeps.break (keeps_status_perform env x.2) ih

theorem keeps_status_steps (steps : List (Int × Call)) {rest : Op Int}
    (hrest : rest.Keeps Esplayer.status) : (breakSteps env steps rest).Keeps Esplayer.status := by
  induction steps with
  | nil => exact hrest
  | cons x steps ih =>
      exact Keeps.bind (keeps_status_perform env x.2) fun _ => Keeps.ite (keeps_pure _ _) ih

theorem loadsOrKeeps_loadStart (result : Int) : LoadsOrKeeps id (loadStart env result) := by
  refine LoadsOrKeeps.bind (keeps_read _ _) fun held => ?_
  refine LoadsOrKeeps.bind (keeps_read _ _) fun mask => ?_
  refine LoadsOrKeeps.break (Keeps.ite (keeps_status_perform env _) (keeps_pure _ _)) ?_
  exact fun s => .inr ⟨rfl, rfl⟩

theorem loadsOrKeeps_loadAudio {rest : Op Int} (hrest : LoadsOrKeeps id rest) :
    LoadsOrKeeps id (loadAudio env rest) := by
  refine LoadsOrKeeps.break (keeps_status_steps env _ (keeps_pure _ _)) ?_
  refine LoadsOrKeeps.break (keeps_status_performIfHeld env _ _) ?_
  refine LoadsOrKeeps.break (keeps_status_performIfHeld env _ _) ?_
  refine LoadsOrKeeps.break (keeps_status_performIfHeld env _ _) ?_
  refine LoadsOrKeeps.steps env _ ?_
  refine LoadsOrKeeps.break (keeps_status_perform env _) ?_
  refine LoadsOrKeeps.bind (keeps_status_log env _) fun _ => ?_
  have hrenderer := LoadsOrKeeps.steps env rendererSteps hrest
  exact LoadsOrKeeps.bind (keeps_status_perform env _) fun _ =>
    LoadsOrKeeps.ite (LoadsOrKeeps.steps env _ hrenderer) hrenderer

theorem loadsOrKeeps_loadVideo {rest : Op Int} (hrest : LoadsOrKeeps id rest) :
    LoadsOrKeeps id (loadVideo env rest) := by
  refine LoadsOrKeeps.break (keeps_status_steps env _ (keeps_pure _ _)) ?_
  refine LoadsOrKeeps.steps env _ ?_
  refine LoadsOrKeeps.bind (keeps_status_log env _) fun _ => ?_
  refine LoadsOrKeeps.bind (keeps_status_log env _) fun _ => ?_
  exact LoadsOrKeeps.bind (keeps_status_log env _) fun _ => hrest

theorem loadsOrKeeps_loadBody : LoadsOrKeeps id (loadBody env) := by
  have haudio : ∀ result, LoadsOrKeeps id (loadFromAudio env result) := fun result =>
    LoadsOrKeeps.bind (keeps_read _ _) fun _ =>
      LoadsOrKeeps.ite (loadsOrKeeps_loadAudio env (loadsOrKeeps_loadStart env _))
        (loadsOrKeeps_loadStart env _)
  refine LoadsOrKeeps.break (keeps_status_steps env _ (keeps_pure _ _)) ?_
  refine LoadsOrKeeps.break (keeps_status_perform env _) ?_
  exact LoadsOrKeeps.bind (keeps_read _ _) fun _ =>
    LoadsOrKeeps.ite (loadsOrKeeps_loadVideo env (haudio _)) (haudio _)

theorem loadsOrKeeps_loadAdmitted (metaData : MetaData) :
    LoadsOrKeeps (fun r => r.1) (loadAdmitted env metaData) := by
  have hdecoded : LoadsOrKeeps (fun r => r.1) (loadDecoded env metaData) := by
    refine LoadsOrKeeps.bind (keeps_write fun _ => rfl) fun _ => ?_
    refine LoadsOrKeeps.bind (keeps_write fun _ => rfl) fun _ => ?_
    exact (loadsOrKeeps_loadBody env).map fun _ => rfl
  have hdecoder : LoadsOrKeeps (fun r => r.1)
      (loadDecoder env metaData (loadDecoded env metaData)) := by
    refine LoadsOrKeeps.ite (loadsOrKeeps_keeps (keeps_pure _ _)) (LoadsOrKeeps.ite hdecoded ?_)
    refine LoadsOrKeeps.bind (keeps_write fun _ => rfl) fun _ => ?_
    exact LoadsOrKeeps.break (keeps_status_perform env _) hdecoded
  refine LoadsOrKeeps.bind (keeps_write fun _ => rfl) fun _ => ?_
  refine LoadsOrKeeps.break (keeps_status_perform env _) ?_
  refine LoadsOrKeeps.bind (keeps_write fun _ => rfl) fun _ => ?_
  refine LoadsOrKeeps.bind (Keeps.onlyIf (keeps_write fun _ => rfl)) fun _ => ?_
  exact LoadsOrKeeps.ite (LoadsOrKeeps.bind (keeps_write fun _ => rfl) fun _ => hdecoder) hdecoded

end Load

/-! ## A player is loaded once -/

/-- The call is a load that gets past its entry checks. -/
def LoadAdmitted (s : Session) (a : ApiCall × Env) : Prop :=
  a.1.isLoad = true ∧ s.player.loaded = false ∧ s.player.status = .idle

/-- A load has been admitted: `loaded_` is set, or the player has been unloaded since. -/
def Esplayer.Used (s : Esplayer) : Prop := s.loaded = true ∨ s.status ≠ .idle

theorem Esplayer.not_used {s : Esplayer} : ¬ s.Used ↔ s.loaded = false ∧ s.status = .idle := by
  simp [Esplayer.Used]

theorem run_loadProg (env : Env) (metaData : MetaData) (units : Option PtsUnits) (s : Esplayer) :
    ((ApiCall.load metaData units).prog env).run s =
      (((load env metaData).run (s.withUnits units)).1.1,
        ((load env metaData).run (s.withUnits units)).2) := by
  simp [ApiCall.prog, run_loadCall]

/-- A used player answers a load without doing anything. -/
theorem Esplayer.Used.load_refused {s : Esplayer} (hs : s.Used) (env : Env) (metaData : MetaData)
    (units : Option PtsUnits) :
    (loadCall env metaData units).run s =
      ((if s.loaded then resultSuccess else resultFail, metaData), s.withUnits units) := by
  rw [run_loadCall]
  have hcases := load_cases env metaData (s.withUnits units)
  simp only [withUnits_loaded, withUnits_status] at hcases
  rcases hcases with ⟨hloaded, hrun⟩ | ⟨hloaded, -, hrun⟩ | ⟨hloaded, hidle, -⟩
  · rw [hrun, hloaded, if_pos rfl]
  · rw [hrun, hloaded, if_neg Bool.false_ne_true]
  · exact absurd hs (Esplayer.not_used.mpr ⟨hloaded, hidle⟩)

/-- No call makes a player new again. -/
theorem Esplayer.Used.step {s t : Session} {a : ApiCall × Env} (hs : s.player.Used)
    (h : Session.step s a = some t) : t.player.Used := by
  obtain ⟨call, env⟩ := a
  obtain rfl := Option.some.inj h
  cases hload : call.isLoad with
  | true =>
      cases call with
      | load metaData units =>
          have hrun := hs.load_refused env metaData units
          simp only [ApiCall.prog, run_bind, hrun, run_pure, Esplayer.Used, withUnits_loaded,
            withUnits_status]
          exact hs
      | _ => cases hload
  | false =>
      rcases hs with hloaded | hidle
      · -- `loaded_` is kept, or the player is unloaded
        rcases api_loaded env hload s.player with ⟨hkeep, -⟩ | hunloaded
        · exact .inl (hkeep.trans hloaded)
        · exact .inr (by simp [hunloaded.status])
      · have hstatus := api_status env hload fun h => absurd h hidle
        exact .inr fun h => hidle (hstatus.mp h)

theorem LoadAdmitted.used {s t : Session} {a : ApiCall × Env} (ha : LoadAdmitted s a)
    (h : Session.step s a = some t) : t.player.loaded = true := by
  obtain ⟨call, env⟩ := a
  obtain ⟨hload, hloaded, hidle⟩ := ha
  obtain rfl := Option.some.inj h
  cases call with
  | load metaData units =>
      simp only [run_loadProg]
      rcases load_cases env metaData (s.player.withUnits units) with
        ⟨h, -⟩ | ⟨-, h, -⟩ | ⟨-, -, hrun⟩
      · simp [hloaded] at h
      · simp [hidle] at h
      · rw [hrun]
        exact loadAdmitted_loaded env metaData _
  | _ => cases hload

/-- **A player is loaded once.** After a load that got past its entry checks, whatever it and the
calls after it led to, a load does nothing but to write the units: it answers success as long as
the player has not been unloaded, and fails then. -/
theorem load_once {s t : Session} {a : ApiCall × Env} {calls : List (ApiCall × Env)}
    (ha : LoadAdmitted s a) (h : Lts.exec Session.step s (a :: calls) = some t) :
    ∀ (env : Env) (metaData : MetaData) (units : Option PtsUnits),
      (loadCall env metaData units).run t.player =
        ((if t.player.loaded then resultSuccess else resultFail, metaData),
          t.player.withUnits units) := by
  obtain ⟨u, hu, ht⟩ := Lts.exec_cons_iff.mp h
  have hused : t.player.Used :=
    Lts.exec_invariant (P := fun s : Session => s.player.Used) (Q := fun _ => True)
      (fun _ _ _ _ hs hstep => hs.step hstep) (fun _ _ => trivial) (.inl (ha.used hu)) ht
  exact fun env metaData units => hused.load_refused env metaData units

/-- A player that has been loaded and unloaded is not loaded again. -/
theorem load_once_unloaded :
    ∃ t : Session, Lts.exec Session.step {} [(.load { videoCodec := .h264 } none, fun _ => 0),
        (.unload, fun _ => 0)] = some t ∧
      (loadCall (fun _ => 0) { videoCodec := .h264 } none).run t.player =
        ((resultFail, { videoCodec := .h264 }), t.player) := by
  have hadmitted : LoadAdmitted {} (.load { videoCodec := .h264 } none, fun _ => 0) :=
    ⟨rfl, rfl, rfl⟩
  have hrun : Lts.exec Session.step {} [(.load { videoCodec := .h264 } none, fun _ => 0),
      (.unload, fun _ => 0)] = some _ := rfl
  exact ⟨_, hrun, load_once hadmitted hrun _ _ none⟩

/-! ## After a load that failed -/

/-- The call goes to the resource manager. -/
def Call.toManager : Call → Bool
  | .acquireResources | .releaseResource => true
  | _ => false

theorem resources_performAction (env : Env) {call : Call} (h : call.toManager = false)
    (s : Esplayer) : (performAction env call s).2.resources = s.resources := by
  have hconfigured : ∀ c size, (s.configured c size).resources = s.resources := by
    intro c size
    unfold Esplayer.configured
    split <;> rfl
  simp only [performAction]
  split
  · cases call with
    | acquireResources => cases h
    | releaseResource => cases h
    | configureInputBuffers c size => exact hconfigured c size
    | _ => rfl
  · cases call with
    | configureInputBuffers c size => exact hconfigured c size
    | _ => rfl

section Resources

variable (env : Env)

theorem keeps_resources_perform {call : Call} (h : call.toManager = false) :
    (perform env call).Keeps Esplayer.resources :=
  ⟨resources_performAction env h, fun _ => trivial⟩

theorem keeps_resources_performIfHeld (c : ComponentName) {call : Call}
    (h : call.toManager = false) : (performIfHeld env c call).Keeps Esplayer.resources :=
  Keeps.bind (keeps_read _ _) fun _ => Keeps.ite (keeps_resources_perform env h) (keeps_pure _ _)

theorem keeps_resources_changeComponentsState (c : Prop) [Decidable c] (state : OmxState) :
    Keeps Esplayer.resources (if c then changeComponentsState env state else return 0) :=
  Keeps.ite
    (does_changeStates (fun _ => rfl) env state _ fun _ => resources_performAction env rfl)
    (keeps_pure _ _)

theorem keeps_resources_setComponentsFlush :
    (setComponentsFlush env).Keeps Esplayer.resources := by
  have hflush : ∀ c, (logIfNonzero (performIfHeld env c (.flush c))).Keeps Esplayer.resources :=
    fun c => Keeps.bind (keeps_resources_performIfHeld env c rfl) fun _ => keeps_pure _ _
  refine Keeps.bind (hflush _) fun _ => ?_
  refine Keeps.bind (hflush _) fun _ => ?_
  refine Keeps.bind (hflush _) fun _ => ?_
  refine Keeps.bind (hflush _) fun _ => ?_
  exact Keeps.bind (hflush _) fun _ => keeps_pure _ _

theorem keeps_resources_break {cond : Op Int} {result : Exit} {rest : Op Exit}
    (hcond : cond.Keeps Esplayer.resources) (hrest : rest.Keeps Esplayer.resources) :
    (breakIfNonzero cond result rest).Keeps Esplayer.resources :=
  Keeps.bind hcond fun _ => Keeps.ite (keeps_pure _ _) hrest

theorem keeps_resources_flushBody (saveState : Status) :
    (flushBody env saveState).Keeps Esplayer.resources := by
  refine keeps_resources_break (keeps_resources_performIfHeld env _ rfl) ?_
  refine Keeps.bind (Keeps.bind (keeps_write fun _ => rfl) fun _ => keeps_write fun _ => rfl)
    fun _ => ?_
  refine Keeps.bind (keeps_emit fun _ => rfl) fun _ => ?_
  refine Keeps.bind (keeps_emit fun _ => rfl) fun _ => ?_
  refine keeps_resources_break (keeps_resources_changeComponentsState env _ _) ?_
  refine keeps_resources_break (keeps_resources_setComponentsFlush env) ?_
  refine Keeps.bind (keeps_read _ _) fun _ => Keeps.bind (keeps_read _ _) fun _ => ?_
  refine keeps_resources_break
    (Keeps.ite (keeps_resources_perform env rfl) (keeps_pure _ _)) ?_
  refine Keeps.bind (keeps_write fun _ => rfl) fun _ => ?_
  exact keeps_resources_break (keeps_resources_changeComponentsState env _ _) (keeps_pure _ _)

/-- A flush does not talk to the resource manager. -/
theorem keeps_resources_flush : (flush env).Keeps Esplayer.resources := by
  refine Keeps.bind ⟨fun _ => rfl, fun _ => trivial⟩ fun _ => Keeps.ite ?_ (keeps_pure _ _)
  refine Keeps.bind ⟨fun _ => rfl, fun _ => trivial⟩ fun _ => Keeps.ite ?_ (keeps_pure _ _)
  refine Does.withLock ?_
  refine Keeps.bind ?_ fun _ => Keeps.bind (keeps_read _ _) fun _ => ?_
  · refine Keeps.bind (keeps_write fun _ => rfl) fun _ => ?_
    refine Keeps.bind (keeps_write fun _ => rfl) fun _ => ?_
    refine Keeps.bind (keeps_read _ _) fun _ => ?_
    refine Keeps.bind (Keeps.onlyIf (keeps_write fun _ => rfl)) fun _ => ?_
    refine Keeps.bind (keeps_read _ _) fun _ => ?_
    exact Keeps.onlyIf (keeps_write fun _ => rfl)
  · refine Keeps.bind (keeps_emit fun _ => rfl) fun _ => ?_
    refine Keeps.bind (keeps_resources_flushBody env _) fun exit => ?_
    cases exit with
    | broke result => exact Keeps.bind (keeps_emit fun _ => rfl) fun _ => keeps_pure _ _
    | returned value => exact keeps_pure _ _

theorem keeps_resources_setPlaybackRate (rate : Int) :
    (setPlaybackRate env rate).Keeps Esplayer.resources := by
  refine Keeps.ite (keeps_pure _ _) ?_
  refine Keeps.bind (keeps_write fun _ => rfl) fun _ => ?_
  refine Keeps.bind (keeps_read _ _) fun _ => Keeps.bind (keeps_read _ _) fun _ => ?_
  refine Keeps.bind (Keeps.onlyIf ?_) fun _ => keeps_pure _ _
  exact Keeps.bind (keeps_resources_perform env rfl) fun _ => keeps_pure _ _

end Resources

/-- The load of the player has failed, and nothing has changed the status since. -/
structure Stuck (s : Esplayer) : Prop where
  loaded : s.loaded = true
  status : s.status = .idle

/-- A flush does not leave the player flushing. -/
def FlushKept (s : Session) (a : ApiCall × Env) : Prop :=
  a.1 = .flush → FlushBreaks a.2 s.player s.player.status

/-- What is refused while the player is stuck. -/
def ApiCall.needsLoaded : ApiCall → Bool
  | .unload | .play | .pause | .stepFrame => true
  | _ => false

theorem Stuck.refuses {s : Esplayer} (hs : Stuck s) {a : ApiCall} (ha : a.needsLoaded = true)
    (env : Env) : (a.prog env).run s = (resultFail, s) := by
  have hcan : ∀ status, status = .unloaded ∨ status = .playing ∨ status = .paused ∨
      status = .stepping → s.status.canTransit status = false := by
    rintro status (rfl | rfl | rfl | rfl) <;> rw [hs.status] <;> rfl
  cases a with
  | unload => simp [ApiCall.prog, DirectMedia.unload, hcan]
  | play => simp [ApiCall.prog, DirectMedia.play, hcan]
  | pause => simp [ApiCall.prog, DirectMedia.pause, hcan]
  | stepFrame => simp [ApiCall.prog, DirectMedia.stepFrame, hcan]
  | load metaData units => cases ha
  | flush => cases ha
  | setPlaybackRate rate => cases ha

/-- What a load that failed leaves for the next calls: its components, and the resources. -/
def Esplayer.kept (s : Esplayer) : ((Bool × Bool) × (ComponentName → Bool)) × Bool :=
  (s.built, s.resources)

@[simp] theorem withUnits_built (s : Esplayer) (units : Option PtsUnits) :
    (s.withUnits units).built = s.built := by
  cases units <;> rfl

/-- No call but a flush gets a stuck player out of this, and none takes away what the load left. -/
theorem Stuck.step {s t : Session} {a : ApiCall × Env} (hs : Stuck s.player)
    (h : Session.step s a = some t) :
    t.player.loaded = true ∧ t.player.kept = s.player.kept ∧
      (t.player.status = .idle ↔ FlushKept s a) := by
  obtain ⟨call, env⟩ := a
  obtain rfl := Option.some.inj h
  have hkept : ∀ {r : Esplayer}, r.built = s.player.built → r.resources = s.player.resources →
      r.kept = s.player.kept := fun hbuilt hresources => Prod.ext hbuilt hresources
  have hother : call ≠ .flush → FlushKept s (call, env) := fun hne h => absurd h hne
  by_cases hneeds : call.needsLoaded = true
  · have hrun := hs.refuses hneeds env
    have hne : call ≠ .flush := by
      rintro rfl
      cases hneeds
    simp only [hrun, hs.loaded, hs.status, hother hne, and_self]
  · cases call with
    | load metaData units =>
        have hrun := Esplayer.Used.load_refused (.inl hs.loaded) env metaData units
        simp only [ApiCall.prog, run_bind, hrun, run_pure, withUnits_loaded, withUnits_status]
        exact ⟨hs.loaded, hkept (by simp) (withUnits_resources _), by simp [hs.status, hother]⟩
    | setPlaybackRate rate =>
        have hstatus := Keeps.run (ofOperations_status.setPlaybackRate env rate) s.player
        have hloaded := Keeps.run (ofOperations_loaded.setPlaybackRate env rate) s.player
        have hbuilt := Keeps.run (ofOperations_built.setPlaybackRate env rate) s.player
        refine ⟨hloaded.trans hs.loaded,
          hkept hbuilt ((keeps_resources_setPlaybackRate env rate).run _), ?_⟩
        simp [ApiCall.prog, hstatus, hs.status, hother]
    | flush =>
        have hloaded := Keeps.run (ofOperations_loaded.flush (fun _ _ => rfl) env) s.player
        have hiff := flush_status_iff env s.player (by rw [hs.status]; rfl) hs.loaded
        refine ⟨hloaded.trans hs.loaded, hkept (api_built env (a := .flush) rfl (by simp) _)
          ((keeps_resources_flush env).run _), ?_⟩
        simp only [hs.status, reduceCtorEq, false_or] at hiff
        simp only [ApiCall.prog, hiff, FlushKept, forall_const, hs.status]
    | unload => exact absurd rfl hneeds
    | play => exact absurd rfl hneeds
    | pause => exact absurd rfl hneeds
    | stepFrame => exact absurd rfl hneeds

/-- A used player that is not idle does not become idle. -/
theorem step_not_idle {s t : Session} {a : ApiCall × Env} (hs : s.player.status ≠ .idle)
    (h : Session.step s a = some t) : t.player.status ≠ .idle := by
  obtain ⟨call, env⟩ := a
  obtain rfl := Option.some.inj h
  cases hload : call.isLoad with
  | true =>
      cases call with
      | load metaData units =>
          have hrun := Esplayer.Used.load_refused (.inr hs) env metaData units
          simp only [ApiCall.prog, run_bind, hrun, run_pure, withUnits_status]
          exact hs
      | _ => cases hload
  | false => exact fun hidle => hs ((api_status env hload fun h => absurd h hs).mp hidle)

theorem LoadAdmitted.stuck {s t : Session} {a : ApiCall × Env} (ha : LoadAdmitted s a)
    (hfail : ((a.1.prog a.2).run s.player).1 ≠ resultSuccess) (h : Session.step s a = some t) :
    Stuck t.player := by
  refine ⟨ha.used h, ?_⟩
  obtain ⟨call, env⟩ := a
  obtain ⟨hload, hloaded, hidle⟩ := ha
  obtain rfl := Option.some.inj h
  cases call with
  | load metaData units =>
      simp only [run_loadProg] at hfail ⊢
      rcases load_cases env metaData (s.player.withUnits units) with
        ⟨h, -⟩ | ⟨-, h, -⟩ | ⟨-, -, hrun⟩
      · simp [hloaded] at h
      · simp [hidle] at h
      · rw [hrun] at hfail ⊢
        rcases loadsOrKeeps_loadAdmitted env metaData (s.player.withUnits units) with
          hkeep | ⟨hzero, -⟩
        · exact hkeep.trans (by simpa using hidle)
        · exact absurd hzero hfail
  | _ => cases hload

/-- **A load that fails cannot be undone.** After a load that got past its entry checks and failed,
the status is idle as long as every flush breaks out of its loop, and only so long. Until then
unload, play, pause and step are refused, a load answers success, and the components that the load
has created and the resources it has acquired stay. -/
theorem failedLoad_stays_iff {s t u : Session} {a : ApiCall × Env} {calls : List (ApiCall × Env)}
    (ha : LoadAdmitted s a) (hfail : ((a.1.prog a.2).run s.player).1 ≠ resultSuccess)
    (ht : Session.step s a = some t) (hu : Lts.exec Session.step t calls = some u) :
    (u.player.status = .idle ↔ Lts.Along Session.step FlushKept t calls) ∧
    (u.player.status = .idle → u.player.kept = t.player.kept ∧
      (∀ b env, ApiCall.needsLoaded b = true →
        (b.prog env).run u.player = (resultFail, u.player)) ∧
      ∀ env metaData units, (loadCall env metaData units).run u.player =
        ((resultSuccess, metaData), u.player.withUnits units)) := by
  have hstuck := ha.stuck hfail ht
  have hiff : u.player.status = .idle ↔ Lts.Along Session.step FlushKept t calls := by
    constructor
    · -- a flush that does not break off marks the status
      intro hidle
      refine Lts.Along.of_unmarked (R := fun s : Session => s.player.status ≠ .idle)
        (I := fun s : Session => Stuck s.player ∨ s.player.status ≠ .idle) ?_ ?_ ?_ (.inl hstuck) hu
        (not_not.mpr hidle)
      · rintro x b y (hx | hx) hstep
        · obtain ⟨hloaded, -, hstatus⟩ := hx.step hstep
          by_cases hy : y.player.status = .idle
          · exact .inl ⟨hloaded, hy⟩
          · exact .inr hy
        · exact .inr (step_not_idle hx hstep)
      · rintro x b y (hx | hx) hnot hstep
        · exact fun hy => hnot ((hx.step hstep).2.2.mp hy)
        · exact step_not_idle hx hstep
      · exact fun x b y hx hstep => step_not_idle hx hstep
    · intro halong
      have hstays : Stuck u.player :=
        Lts.Along.invariant (I := fun s : Session => Stuck s.player)
          (fun x b y hkept hx hstep => ⟨(hx.step hstep).1, (hx.step hstep).2.2.mpr hkept⟩)
          halong hstuck hu
      exact hstays.status
  refine ⟨hiff, fun hidle => ?_⟩
  obtain ⟨hstays, hkept⟩ : Stuck u.player ∧ u.player.kept = t.player.kept :=
    Lts.Along.invariant (I := fun s : Session => Stuck s.player ∧ s.player.kept = t.player.kept)
      (fun x b y hbreaks hx hstep => by
        obtain ⟨hloaded, hsame, hstatus⟩ := hx.1.step hstep
        exact ⟨⟨hloaded, hstatus.mpr hbreaks⟩, hsame.trans hx.2⟩)
      (hiff.mp hidle) ⟨hstuck, rfl⟩ hu
  refine ⟨hkept, fun b env hb => hstays.refuses hb env, fun env metaData units => ?_⟩
  rw [Esplayer.Used.load_refused (.inl hstays.loaded), if_pos hstays.loaded]

/-- The software decoder does not open: the resources stay, and the player cannot be unloaded. -/
theorem failedLoad_stays_decoder :
    ∃ t u : Session,
      Session.step {} (.load { videoCodec := .h264, audioCodec := .aac } none,
        fun call => if call = .openAudio then 1 else 0) = some t ∧
      Lts.exec Session.step t [(.flush, fun _ => 0), (.unload, fun _ => 0)] = some u ∧
      u.player.kept = t.player.kept ∧ u.player.resources = true ∧
      (ApiCall.unload.prog fun _ => 0).run u.player = (resultFail, u.player) := by
  have hadmitted : LoadAdmitted {} (.load { videoCodec := .h264, audioCodec := .aac } none,
      fun call => if call = .openAudio then 1 else 0) := ⟨rfl, rfl, rfl⟩
  have hstays : ∀ t u, Session.step {} (.load { videoCodec := .h264, audioCodec := .aac } none,
      fun call => if call = .openAudio then 1 else 0) = some t →
      Lts.exec Session.step t [(.flush, fun _ => 0), (.unload, fun _ => 0)] = some u → _ :=
    fun t u ht hu => (failedLoad_stays_iff hadmitted (by decide) ht hu).2
  refine ⟨_, _, rfl, rfl, ?_⟩
  obtain ⟨hkept, hrefused, -⟩ := hstays _ _ rfl rfl rfl
  exact ⟨hkept, rfl, hrefused .unload _ rfl⟩

/-! ## The destructor -/

/-- `~Esplayer`, with the answers that its `flush` and its `unload` get. What the members do when
they are destroyed after it is left out. -/
def destroyPlayer (env env' : Env) : Op Unit := do
  let video ← read fun s => (s.component .videoRenderer).isSome
  let audio ← read fun s => (s.component .audioRenderer).isSome
  onlyIf (video ∨ audio) do
    let _ ← flush env
    let _ ← unload env'
    return ()
  clearBufQueue .videoEs
  clearBufQueue .audioEs

/-- A renderer is held. -/
abbrev Esplayer.HasRenderer (s : Esplayer) : Prop :=
  (s.component .videoRenderer).isSome = true ∨ (s.component .audioRenderer).isSome = true

/-- The player holds no component and is not loaded. -/
def Released (s : Esplayer) : Prop := s.loaded = false ∧ NoComponents s

theorem canTransit_unloaded_iff (status : Status) :
    status.canTransit .unloaded = true ↔ status ≠ .idle := by
  cases status <;> decide

/-- The player as the destructor clears its queues. -/
def Esplayer.unloadedBy (env env' : Env) (s : Esplayer) : Esplayer :=
  if s.HasRenderer then ((unload env').run ((flush env).run s).2).2 else s

theorem run_destroyPlayer (env env' : Env) (s : Esplayer) :
    (Released ((destroyPlayer env env').run s).2 ↔ Released (s.unloadedBy env env')) ∧
      ∀ i, ((destroyPlayer env env').run s).2.frames i = [] := by
  simp only [destroyPlayer, run_bind, run_read, run_onlyIf, clearBufQueue, run_emit, run_pure]
  refine ⟨?_, fun i => by cases i <;> rfl⟩
  simp only [Esplayer.unloadedBy, Released, NoComponents]
  split <;> exact Iff.rfl

/-- What the destructor does to a player that is loaded. -/
theorem destroyPlayer_loaded_iff (env env' : Env) {s : Esplayer} (hs : s.loaded = true) :
    Released ((destroyPlayer env env').run s).2 ↔
      s.HasRenderer ∧ (s.status = .idle → ¬ FlushBreaks env s .idle) := by
  rw [(run_destroyPlayer env env' s).1, Esplayer.unloadedBy]
  by_cases hrenderer : s.HasRenderer
  · rw [if_pos hrenderer, run_unload]
    have hflushed := Keeps.run (ofOperations_loaded.flush (fun _ _ => rfl) env) s
    -- the flush decides whether the player may be unloaded
    have hstatus : ((flush env).run s).2.status ≠ .idle ↔
        (s.status = .idle → ¬ FlushBreaks env s .idle) := by
      by_cases hidle : s.status = .idle
      · have hiff := flush_status_iff env s (by rw [hidle]; rfl) hs
        simp only [hidle, reduceCtorEq, false_or] at hiff
        simp [hidle, hiff]
      · have hkeeps := api_status env (a := .flush) rfl fun h => absurd h hidle
        simp only [ApiCall.prog] at hkeeps
        simp [hidle, hkeeps]
    by_cases hunload : ((flush env).run s).2.status ≠ .idle
    · rw [if_pos ((canTransit_unloaded_iff _).mpr hunload)]
      have hgone := unloaded_unloadStep env' (hflushed.trans hs)
      exact ⟨fun _ => ⟨hrenderer, hstatus.mp hunload⟩, fun _ => ⟨hgone.loaded, hgone.component⟩⟩
    · rw [if_neg fun h => hunload ((canTransit_unloaded_iff _).mp h)]
      refine ⟨fun h => ?_, fun h => absurd (hstatus.mpr h.2) hunload⟩
      rw [Released, hflushed.trans hs] at h
      cases h.1
  · rw [if_neg hrenderer]
    refine ⟨fun h => ?_, fun h => absurd h.1 hrenderer⟩
    rw [Released, hs] at h
    cases h.1

theorem destroyPlayer_notLoaded (env env' : Env) {s : Esplayer} (hs : s.loaded = false)
    (hnone : NoComponents s) : Released ((destroyPlayer env env').run s).2 := by
  have hrenderer : ¬ s.HasRenderer := by simp [hnone _]
  rw [(run_destroyPlayer env env' s).1, Esplayer.unloadedBy, if_neg hrenderer]
  exact ⟨hs, hnone⟩

/-- Without a load that was admitted, or after an unload, there are no components. -/
theorem empty_of_notLoaded {calls : List (ApiCall × Env)} {s : Session}
    (hs : Lts.exec Session.step {} calls = some s) :
    s.player.loaded = false → NoComponents s.player := by
  refine Lts.exec_invariant (Q := fun _ => True)
    (P := fun s : Session => s.player.loaded = false → NoComponents s.player) ?_
    (fun _ _ => trivial) (fun _ _ => rfl) hs
  rintro x a y - hx hstep hy
  by_cases hadmitted : LoadAdmitted x a
  · rw [hadmitted.used hstep] at hy
    cases hy
  obtain ⟨call, env⟩ := a
  obtain rfl := Option.some.inj hstep
  cases hload : call.isLoad with
  | true =>
      cases call with
      | load metaData units =>
          have hused : x.player.Used := by
            by_contra hnew
            exact hadmitted ⟨rfl, Esplayer.not_used.mp hnew⟩
          have hrun := hused.load_refused env metaData units
          simp only [ApiCall.prog, run_bind, hrun, run_pure, withUnits_loaded, NoComponents,
            withUnits_component] at hy ⊢
          exact hx hy
      | _ => cases hload
  | false =>
      rcases api_loaded env hload x.player with ⟨hkeep, hnone⟩ | hgone
      · exact hnone (hx (hkeep.symm.trans hy))
      · exact hgone.component

/-- **When the destructor releases the player.** After every run of the interface, and whatever its
own flush and unload are answered, `~Esplayer` clears the frame queues, and it leaves the player not
loaded and without components exactly if the player was not loaded, or it holds a renderer and is
not idle once it has been flushed. -/
theorem destroyed_iff {calls : List (ApiCall × Env)} {s : Session}
    (hs : Lts.exec Session.step {} calls = some s) (env env' : Env) :
    (∀ i, ((destroyPlayer env env').run s.player).2.frames i = []) ∧
    (Released ((destroyPlayer env env').run s.player).2 ↔
      s.player.loaded = false ∨ s.player.HasRenderer ∧
        (s.player.status = .idle → ¬ FlushBreaks env s.player .idle)) := by
  refine ⟨(run_destroyPlayer env env' s.player).2, ?_⟩
  cases hloaded : s.player.loaded with
  | true =>
      rw [destroyPlayer_loaded_iff env env' hloaded]
      simp
  | false =>
      exact ⟨fun _ => .inl rfl,
        fun _ => destroyPlayer_notLoaded env env' hloaded (empty_of_notLoaded hs hloaded)⟩

/-- The scheduler is not created: the decoder and the renderer stay, though every component takes
what the destructor asks for. -/
theorem destroyed_iff_unreleased :
    ∃ s : Session, Lts.exec Session.step {} [(.load { videoCodec := .h264 } none,
        fun call => if call = .create .videoScheduler then 1 else 0)] = some s ∧
      ¬ Released ((destroyPlayer (fun _ => 0) fun _ => 0).run s.player).2 := by
  have hrun : Lts.exec Session.step {} [(.load { videoCodec := .h264 } none,
      fun call => if call = .create .videoScheduler then 1 else 0)] = some _ := rfl
  refine ⟨_, hrun, fun h => ?_⟩
  rcases (destroyed_iff hrun (fun _ => 0) fun _ => 0).2.mp h with hloaded | ⟨-, hflush⟩
  · exact absurd hloaded (by decide)
  · exact hflush (by decide) (.inr (.inr (by decide)))

/-! ## After a load that succeeded -/

/-- A player whose load has succeeded: no call makes it idle, and as long as it is loaded it holds
a renderer. -/
structure Sturdy (s : Esplayer) : Prop where
  status : s.status ≠ .idle
  renderer : s.loaded = true → s.HasRenderer

theorem hasRenderer_congr {s t : Esplayer} (h : t.built = s.built) :
    t.HasRenderer ↔ s.HasRenderer := by
  simp only [Esplayer.HasRenderer, held_eq_of_built h]

theorem Sturdy.step {s t : Session} {a : ApiCall × Env} (hs : Sturdy s.player)
    (h : Session.step s a = some t) : Sturdy t.player := by
  refine ⟨step_not_idle hs.status h, ?_⟩
  obtain ⟨call, env⟩ := a
  obtain rfl := Option.some.inj h
  cases hload : call.isLoad with
  | true =>
      cases call with
      | load metaData units =>
          have hrun := Esplayer.Used.load_refused (.inr hs.status) env metaData units
          simp only [ApiCall.prog, run_bind, hrun, run_pure, withUnits_loaded,
            hasRenderer_congr (withUnits_built _ _)]
          exact hs.renderer
      | _ => cases hload
  | false =>
      by_cases hunload : call = .unload
      · subst hunload
        rw [ApiCall.prog, run_unload]
        split
        case isFalse => exact hs.renderer
        case isTrue =>
          -- unloading clears `loaded_`
          intro hloaded
          by_cases hbefore : s.player.loaded = true
          · rw [(unloaded_unloadStep env hbefore).loaded] at hloaded
            cases hloaded
          · rw [unloadStep_notLoaded env (by simpa using hbefore)] at hloaded
            exact absurd hloaded hbefore
      · intro hloaded
        rw [hasRenderer_congr (api_built env hload hunload s.player)]
        rcases api_loaded env hload s.player with ⟨hkeep, -⟩ | hgone
        · exact hs.renderer (hkeep.symm.trans hloaded)
        · rw [hgone.loaded] at hloaded
          cases hloaded

/-- A load that succeeds on a player without components, with a stream. -/
theorem LoadAdmitted.sturdy {s t : Session} {env : Env} {metaData : MetaData}
    {units : Option PtsUnits} (ha : LoadAdmitted s (.load metaData units, env))
    (hnone : NoComponents s.player)
    (hstream : metaData.audioCodec ≠ .none ∨ metaData.videoCodec ≠ .none)
    (hok : (((ApiCall.load metaData units).prog env).run s.player).1 = resultSuccess)
    (h : Session.step s (.load metaData units, env) = some t) : Sturdy t.player := by
  obtain ⟨-, hloaded, hidle⟩ := ha
  obtain rfl := Option.some.inj h
  simp only [run_loadProg] at hok ⊢
  have hbuilt := load_built env metaData (s := s.player.withUnits units) (by simpa using hloaded)
    (by simpa using hidle) (fun c => by simpa using hnone c) hok
  refine ⟨?_, fun _ => ?_⟩
  · rcases load_cases env metaData (s.player.withUnits units) with
      ⟨h, -⟩ | ⟨-, h, -⟩ | ⟨-, -, hrun⟩
    · simp [hloaded] at h
    · simp [hidle] at h
    · rw [hrun] at hok ⊢
      have hiff := (loadsIff_loadAdmitted env metaData _ (s.player.withUnits units) rfl).2 hok
      rw [hiff.1]
      decide
  · have hheld := fun c => congrFun (congrArg Prod.snd hbuilt) c
    simp only [Esplayer.built, Esplayer.held] at hheld
    rcases hstream with haudio | hvideo
    · exact .inr (by simp [hheld, ComponentName.builtFor, haudio])
    · exact .inl (by simp [hheld, ComponentName.builtFor, hvideo])

/-- **A player whose load succeeded is released.** After a load of at least one stream that
succeeds, whatever calls follow and whatever they and the destructor's own calls are answered, the
destructor leaves a player without components. -/
theorem loaded_destroyed {before after : List (ApiCall × Env)} {s t : Session} {env : Env}
    {metaData : MetaData} {units : Option PtsUnits}
    (hs : Lts.exec Session.step {} before = some s)
    (ha : LoadAdmitted s (.load metaData units, env))
    (hok : (((ApiCall.load metaData units).prog env).run s.player).1 = resultSuccess)
    (hstream : metaData.audioCodec ≠ .none ∨ metaData.videoCodec ≠ .none)
    (ht : Lts.exec Session.step s ((.load metaData units, env) :: after) = some t)
    (env₁ env₂ : Env) : Released ((destroyPlayer env₁ env₂).run t.player).2 := by
  obtain ⟨u, hu, hafter⟩ := Lts.exec_cons_iff.mp ht
  have hsturdy : Sturdy t.player :=
    Lts.exec_invariant (P := fun s : Session => Sturdy s.player) (Q := fun _ => True)
      (fun _ _ _ _ hx hstep => hx.step hstep) (fun _ _ => trivial)
      (ha.sturdy (empty_of_notLoaded hs ha.2.1) hstream hok hu) hafter
  cases hloaded : t.player.loaded with
  | true =>
      exact (destroyPlayer_loaded_iff env₁ env₂ hloaded).mpr
        ⟨hsturdy.renderer hloaded, fun h => absurd h hsturdy.status⟩
  | false =>
      have hnone := empty_of_notLoaded (Lts.exec_append_iff.mpr ⟨s, hs, ht⟩) hloaded
      exact destroyPlayer_notLoaded env₁ env₂ hloaded hnone

/-- The flush of the client leaves the player flushing, and nothing that the destructor asks for is
done. -/
theorem loaded_destroyed_flushing :
    ∃ t : Session, Lts.exec Session.step {} [(.load { videoCodec := .h264 } none, fun _ => 0),
        (.play, fun _ => 0), (.flush, fun _ => 1)] = some t ∧
      Released ((destroyPlayer (fun _ => 1) fun _ => 1).run t.player).2 := by
  have hadmitted : LoadAdmitted {} (.load { videoCodec := .h264 } none, fun _ => 0) :=
    ⟨rfl, rfl, rfl⟩
  have hrun : Lts.exec Session.step {} [(.load { videoCodec := .h264 } none, fun _ => 0),
      (.play, fun _ => 0), (.flush, fun _ => 1)] = some _ := rfl
  have hinit : Lts.exec Session.step {} [] = some {} := rfl
  exact ⟨_, hrun, loaded_destroyed hinit hadmitted (by decide) (.inr (by decide)) hrun _ _⟩

end DirectMedia
