import DirectMedia.Player.Api

set_option autoImplicit false

/-! # The status follows the transition table

An operation asks `canTransit` about its own target only. `play`, `pause`, `unload` and `load` then
make that one move, and `stepFrame` goes back to the status it came from, as the table allows.
`flush` goes back too, from `NDL_ESP_STATUS_FLUSHING`; the table has that move for every status a
flush may start from but `NDL_ESP_STATUS_IDLE` and `NDL_ESP_STATUS_LOADED`. So the table is obeyed
exactly where no flush is restored to these two (`transits_obey_iff`).
-/

namespace DirectMedia

open Prog

/-- A change of the status is one of the table. -/
def Event.Obeys : Event → Prop
  | .transit old new => old = new ∨ old.canTransit new = true
  | _ => True

/-- All changes of the status in a call are changes of the table. -/
def ObeysTable (s : Session) (a : ApiCall × Env) : Prop :=
  ∀ e ∈ (a.1.prog a.2).trace s.player, e.Obeys

/-- The call is not a `flush` that is restored to `NDL_ESP_STATUS_IDLE` or
`NDL_ESP_STATUS_LOADED`. -/
def RestoreSafe (s : Session) (a : ApiCall × Env) : Prop :=
  ¬ (a.1 = .flush ∧ s.player.loaded = true ∧
    (s.player.status = .idle ∨ s.player.status = .loaded) ∧
    FlushBreaks a.2 s.player s.player.status)

/-! ## Parts that leave the status alone -/

/-- The program neither changes the status nor calls `transit`. -/
structure Steady {α : Type} (p : Op α) : Prop where
  keeps : p.Keeps Esplayer.status
  noTransit : p.Does NoTransit

section Steady

variable {α β : Type}

theorem Event.obeys_of_noTransit {e : Event} (h : ∀ old new, e ≠ .transit old new) : e.Obeys := by
  cases e with
  | transit old new => exact absurd rfl (h old new)
  | _ => trivial

theorem Steady.obeys {p : Op α} (h : Steady p) (s : Esplayer) : ∀ e ∈ p.trace s, e.Obeys :=
  fun e he => Event.obeys_of_noTransit (h.noTransit.events s e he)

theorem steady_write {f : Esplayer → Esplayer} (hf : ∀ s, (f s).status = s.status) :
    Steady (write f) :=
  ⟨keeps_write hf, does_exchange _ _ fun _ _ he => by cases he⟩

theorem steady_canTransit (status : Status) : Steady (canTransit status) :=
  ⟨⟨fun _ => rfl, fun _ => trivial⟩, ofOperations_noTransit.admitted status, fun _ => trivial⟩

theorem steady_readLoaded : Steady readLoaded :=
  ⟨⟨fun _ => rfl, fun _ => trivial⟩, ofOperations_noTransit.loadedRead, fun _ => trivial⟩

theorem steady_setRunningStates (run : Bool) : Steady (setRunningStates run) :=
  ⟨ofOperations_status.setRunningStates run, ofOperations_noTransit.setRunningStates run⟩

theorem steady_perform (env : Env) (call : Call) : Steady (perform env call) :=
  ⟨untouched_status.perform env call, noTransit_performAction env call, fun _ => trivial⟩

/-- From `old` the program moves to `new` at most, and obeys the table. -/
abbrev OneMove (old new : Status) (p : Op α) : Prop :=
  p.Safe (fun s => s.status = old ∨ s.status = new) Event.Obeys

variable {old new : Status}

theorem Steady.oneMove {p : Op α} (h : Steady p) : OneMove old new p := by
  intro s hs
  refine ⟨h.obeys s, ?_⟩
  show (p.run s).2.status = old ∨ (p.run s).2.status = new
  rwa [h.keeps.run s]

theorem oneMove_write {f : Esplayer → Esplayer} (hf : ∀ s, (f s).status = s.status) :
    OneMove old new (write f) :=
  (steady_write hf).oneMove

theorem oneMove_transit (h : old.canTransit new = true) : OneMove old new (transit new) := by
  refine safe_emit (fun s hs => ?_) fun s _ => .inr rfl
  rcases hs with hs | hs
  · exact .inr (by rwa [hs])
  · exact .inl hs

end Steady

/-! ## The operations with one move -/

/-- Behind an entry check for `new`, a program whose only move is to `new`. -/
theorem obeys_admitted {α : Type} {new : Status} {p : Op α} {a : α}
    (hp : ∀ old : Status, old.canTransit new = true → OneMove old new p) (s : Esplayer) :
    ∀ e ∈ (canTransit new >>= fun can => if can then p else return a).trace s, e.Obeys := by
  intro e he
  rw [trace_bind, run_canTransit] at he
  rcases List.mem_append.mp he with he | he
  · exact (steady_canTransit new).obeys s e he
  · split at he
    case isTrue hcan => exact (hp s.status hcan s (.inl rfl)).1 e he
    case isFalse => simp at he

theorem play_obeys (env : Env) (s : Esplayer) : ∀ e ∈ (play env).trace s, e.Obeys := by
  refine obeys_admitted (fun old hold => ?_) s
  have hbody : Steady (playBody env) :=
    ⟨ofOperations_status.playBody env, ofOperations_noTransit.playBody env⟩
  refine Safe.bind (oneMove_write fun _ => rfl) fun _ => Safe.read_bind fun _ _ => ?_
  refine Safe.bind (Safe.onlyIf (oneMove_write fun _ => rfl)) fun _ => ?_
  refine Safe.bind hbody.oneMove fun _ => Safe.bind (oneMove_transit hold) fun _ => ?_
  exact Safe.bind (steady_setRunningStates true).oneMove fun _ => safe_pure _

theorem pause_obeys (env : Env) (s : Esplayer) : ∀ e ∈ (pause env).trace s, e.Obeys := by
  refine obeys_admitted (fun old hold => ?_) s
  have hstates : Steady (changeComponentsState env .pause) :=
    ⟨ofOperations_status.changeStates env _ _, ofOperations_noTransit.changeStates env _ _⟩
  refine Safe.read_bind fun _ _ => Safe.ite (safe_pure _) ?_
  refine Safe.read_bind fun _ _ => Safe.ite (safe_pure _) ?_
  refine Safe.bind steady_readLoaded.oneMove fun _ => Safe.ite ?_ (safe_pure _)
  refine Safe.bind (steady_setRunningStates false).oneMove fun _ => ?_
  refine Safe.withLock (Safe.bind (steady_perform env _).oneMove fun _ => ?_)
  refine Safe.ite (safe_pure _) (Safe.bind hstates.oneMove fun _ => ?_)
  exact Safe.ite (safe_pure _) (Safe.bind (oneMove_transit hold) fun _ => safe_pure _)

theorem unload_obeys (env : Env) (s : Esplayer) : ∀ e ∈ (unload env).trace s, e.Obeys := by
  refine obeys_admitted (fun old hold => Safe.withLock ?_) s
  have hcalls : Steady (unloadCalls.forM fun c => logIfNonzero (performIfHeld env c.1 c.2)) :=
    ⟨ofOperations_status.logCalls env (by decide), ofOperations_noTransit.logCalls env (by decide)⟩
  have hdestroy : ∀ c, OneMove old .unloaded (destroyComponent c) := fun c =>
    Safe.read_bind fun _ _ => Safe.onlyIf (safe_emit (fun _ _ => trivial) fun _ hs => hs)
  have hexchange : OneMove old .unloaded
      (exchange (·.loaded) fun s : Esplayer => { s with loaded := false }) :=
    fun s hs => ⟨fun e he => (by cases he), hs⟩
  refine Safe.bind hexchange fun _ => Safe.ite ?_ (safe_pure _)
  refine Safe.bind (Safe.bind (oneMove_write fun _ => rfl) fun _ => oneMove_write fun _ => rfl)
    fun _ => ?_
  refine Safe.bind (oneMove_write fun _ => rfl) fun _ => Safe.bind hcalls.oneMove fun _ => ?_
  refine Safe.bind (safe_forM hdestroy _) fun _ => Safe.bind (oneMove_transit hold) fun _ => ?_
  exact Safe.bind (Safe.bind (steady_perform env _).oneMove fun _ => safe_pure _) fun _ =>
    safe_pure _

/-- From `NDL_ESP_STATUS_PAUSED` only, and back to it. -/
theorem stepFrame_obeys (env : Env) (s : Esplayer) :
    ∀ e ∈ (stepFrame env).trace s, e.Obeys := by
  have hpaused : s.status.canTransit .stepping = true → s.status = .paused := by
    cases s.status <;> decide
  intro e he
  unfold stepFrame at he
  rw [trace_bind, run_canTransit] at he
  rcases List.mem_append.mp he with he | he
  · exact (steady_canTransit .stepping).obeys s e he
  · split at he
    case isFalse => simp at he
    case isTrue hcan =>
      have hstep := steady_perform env .stepFrame
      rw [trace_bind, run_read, trace_bind, run_transit, trace_bind, trace_bind] at he
      simp only [trace_read, trace_transit, trace_pure, List.nil_append, List.append_nil,
        List.mem_append, List.mem_singleton, hpaused hcan] at he
      rcases he with rfl | he | rfl
      · exact .inr rfl
      · exact hstep.obeys _ e he
      · rw [hstep.keeps.run]
        exact .inr rfl

/-- `load` moves an idle player to `NDL_ESP_STATUS_LOADED` at most. -/
theorem ofLoad_oneMove : OfLoad fun f => ∀ s, (s.status = .idle ∨ s.status = .loaded) →
    (∀ e ∈ (f s).1, e.Obeys) ∧ ((f s).2.status = .idle ∨ (f s).2.status = .loaded) where
  read s hs := ⟨fun _ he => (by cases he), hs⟩
  call env call _ s hs := by
    have hcall := steady_perform env call
    rw [← hcall.keeps.1 s] at hs
    exact ⟨fun e he => Event.obeys_of_noTransit (hcall.noTransit.1 s e he), hs⟩
  transit s hs := by
    refine ⟨fun e he => ?_, .inr rfl⟩
    obtain rfl := Option.mem_some.mp he
    rcases hs with hs | hs
    · exact .inr (by rw [hs]; rfl)
    · exact .inl hs
  enable _ _ s hs := ⟨fun _ he => (by cases he), hs⟩
  md _ s hs := ⟨fun _ he => (by cases he), hs⟩
  swDecoder _ s hs := ⟨fun _ he => (by cases he), hs⟩
  eos s hs := ⟨fun _ he => (by cases he), hs⟩

theorem oneMove_loadAdmitted (env : Env) (metaData : MetaData) :
    OneMove .idle .loaded (loadAdmitted env metaData) :=
  Safe.bind (oneMove_write fun _ => rfl) fun _ => Does.safe (ofLoad_oneMove.acquire env metaData)

theorem load_obeys (env : Env) (metaData : MetaData) (s : Esplayer) :
    ∀ e ∈ (load env metaData).trace s, e.Obeys := by
  intro e he
  unfold load at he
  rw [trace_bind, run_readLoaded] at he
  rcases List.mem_append.mp he with he | he
  · exact steady_readLoaded.obeys s e he
  · split at he
    case isTrue => simp at he
    case isFalse =>
      refine obeys_admitted (fun old hold => ?_) s e he
      rw [(canTransit_loaded_iff old).mp hold]
      exact oneMove_loadAdmitted env metaData

/-- Whatever becomes of it, a load leaves another status as it is. -/
theorem load_status (env : Env) (metaData : MetaData) (s : Esplayer) :
    ((load env metaData).run s).2.status = s.status ∨
      ((load env metaData).run s).2.status = .loaded := by
  rcases load_cases env metaData s with ⟨-, h⟩ | ⟨-, -, h⟩ | ⟨-, hidle, h⟩
  · exact .inl (by rw [h])
  · exact .inl (by rw [h])
  · rw [h, hidle]
    exact (oneMove_loadAdmitted env metaData s (.inl hidle)).2

/-! ## Flush -/

/-- The statuses that a flush may start from and that the table does not let it go back to. -/
theorem flushing_canTransit_iff {status : Status} (hcan : status.canTransit .flushing = true)
    (heos : status ≠ .eos) :
    (Status.flushing = status ∨ Status.flushing.canTransit status = true) ↔
      ¬ (status = .idle ∨ status = .loaded) := by
  revert hcan heos
  cases status <;> decide

/-- A flush that leaves its loop by `break` goes back to the status it has saved. -/
theorem flushEnd_obeys_iff (saveState : Status) (exit : Exit) {s : Esplayer}
    (hs : s.status = .flushing) :
    (∀ e ∈ (flushEnd saveState exit).trace s, e.Obeys) ↔
      (exit.IsBreak →
        Status.flushing = saveState ∨ Status.flushing.canTransit saveState = true) := by
  cases exit with
  | returned value => simp [flushEnd, Exit.IsBreak]
  | broke result => simp [flushEnd, Exit.IsBreak, Event.Obeys, hs]

theorem steady_flushReset : Steady flushReset :=
  ⟨ofOperations_status.flushReset, ofOperations_noTransit.flushReset⟩

theorem steady_flushBody (env : Env) (saveState : Status) : Steady (flushBody env saveState) :=
  ⟨ofOperations_status.flushBody env saveState, ofOperations_noTransit.flushBody env saveState⟩

theorem flushSection_obeys_iff (env : Env) {s : Esplayer}
    (hcan : s.status.canTransit .flushing = true) (heos : s.status ≠ .eos) :
    (∀ e ∈ (flushSection env).trace s, e.Obeys) ↔
      ¬ ((s.status = .idle ∨ s.status = .loaded) ∧ FlushBreaks env s s.status) := by
  have hreset := keeps_flushReset.run s
  simp only [Prod.mk.injEq] at hreset
  unfold flushSection
  simp only [trace_bind, run_read, trace_read, run_transit, trace_transit, List.nil_append,
    List.forall_mem_append, List.forall_mem_singleton]
  generalize hu : (flushReset.run s).2 = t at hreset
  have hbody := steady_flushBody env t.status
  have hstatus := hbody.keeps.run { t with status := .flushing }
  have hbreak := flushBody_isBreak_iff env t.status { t with status := .flushing }
  have hbreaks : FlushBreaks env { t with status := .flushing } t.status ↔
      FlushBreaks env s s.status := by
    simp only [FlushBreaks, hreset.1, hreset.2, AllAccept]
  rw [flushEnd_obeys_iff _ _ hstatus, hbreak, hbreaks, hreset.1, flushing_canTransit_iff hcan heos]
  have hmove : (Event.transit s.status .flushing).Obeys := .inr hcan
  constructor
  · rintro ⟨-, -, -, h⟩ ⟨hs, hbreak⟩
    exact h hbreak hs
  · intro h
    refine ⟨steady_flushReset.obeys s, hmove, ?_, fun hbreak hs => h ⟨hs, hbreak⟩⟩
    rw [← hreset.1]
    exact hbody.obeys _

theorem flush_obeys_iff (env : Env) {s : Esplayer} (heos : s.status ≠ .eos) :
    (∀ e ∈ (flush env).trace s, e.Obeys) ↔
      ¬ (s.loaded = true ∧ (s.status = .idle ∨ s.status = .loaded) ∧
        FlushBreaks env s s.status) := by
  unfold flush
  rw [trace_bind, List.forall_mem_append, run_canTransit]
  rw [and_iff_right (steady_canTransit .flushing |>.obeys s)]
  by_cases hcan : s.status.canTransit .flushing = true
  · rw [if_pos hcan, trace_bind, List.forall_mem_append, run_readLoaded,
      and_iff_right (steady_readLoaded.obeys s)]
    by_cases hloaded : s.loaded = true
    · rw [if_pos hloaded, trace_withLock, flushSection_obeys_iff env hcan heos]
      simp [hloaded]
    · simp [hloaded]
  · have hstatus : ¬ (s.status = .idle ∨ s.status = .loaded) := by
      revert hcan
      cases s.status <;> decide
    rw [if_neg hcan]
    simp [hstatus]

/-! ## Runs -/

/-- No operation sets `NDL_ESP_STATUS_EOS`. -/
theorem status_ne_eos (a : ApiCall × Env) {s : Esplayer} (heos : s.status ≠ .eos) :
    ((a.1.prog a.2).run s).2.status ≠ .eos := by
  obtain ⟨call, env⟩ := a
  cases call with
  | load metaData units =>
      have hstatus := load_status env metaData (s.withUnits units)
      rw [← run_loadCall, withUnits_status] at hstatus
      rw [ApiCall.prog, run_bind, run_pure]
      rcases hstatus with h | h
      · rwa [h]
      · rw [h]
        decide
  | unload =>
      show ((unload env).run s).2.status ≠ .eos
      rw [run_unload]
      split
      case isFalse => exact heos
      case isTrue =>
        by_cases hloaded : s.loaded = true
        · rw [(unloaded_unloadStep env hloaded).status]
          decide
        · rwa [unloadStep_notLoaded env (by simpa using hloaded)]
  | play =>
      show ((play env).run s).2.status ≠ .eos
      rw [play_status]
      split
      · decide
      · exact heos
  | pause =>
      rcases pause_status env s with h | ⟨-, h⟩
      · exact fun he => heos (h ▸ he)
      · exact fun he => by rw [ApiCall.prog, h] at he; cases he
  | flush =>
      rcases flush_status env s with h | ⟨-, h⟩
      · exact fun he => heos (h ▸ he)
      · exact fun he => by rw [ApiCall.prog, h] at he; cases he
  | stepFrame =>
      show ((stepFrame env).run s).2.status ≠ .eos
      rwa [stepFrame_status]
  | setPlaybackRate rate =>
      show ((setPlaybackRate env rate).run s).2.status ≠ .eos
      rwa [Keeps.run (ofOperations_status.setPlaybackRate env rate) s]

theorem obeysTable_iff {s : Session} (heos : s.player.status ≠ .eos) (a : ApiCall × Env) :
    ObeysTable s a ↔ RestoreSafe s a := by
  obtain ⟨call, env⟩ := a
  cases call with
  | flush => simpa [ObeysTable, RestoreSafe, ApiCall.prog] using flush_obeys_iff env heos
  | load metaData units =>
      refine iff_of_true (fun e he => ?_) (by simp [RestoreSafe])
      rw [ApiCall.prog, trace_bind, trace_pure, List.append_nil, trace_loadCall] at he
      exact load_obeys env metaData _ e he
  | unload => exact iff_of_true (unload_obeys env s.player) (by simp [RestoreSafe])
  | play => exact iff_of_true (play_obeys env s.player) (by simp [RestoreSafe])
  | pause => exact iff_of_true (pause_obeys env s.player) (by simp [RestoreSafe])
  | stepFrame => exact iff_of_true (stepFrame_obeys env s.player) (by simp [RestoreSafe])
  | setPlaybackRate rate =>
      have hrate : Steady (setPlaybackRate env rate) :=
        ⟨ofOperations_status.setPlaybackRate env rate,
          ofOperations_noTransit.setPlaybackRate env rate⟩
      exact iff_of_true (hrate.obeys s.player) (by simp [RestoreSafe])

/-- **The status follows the transition table.** In a run of the interface from a fresh player every
change of the status is one of the table exactly if no flush is restored to
`NDL_ESP_STATUS_IDLE` or `NDL_ESP_STATUS_LOADED`. -/
theorem transits_obey_iff (calls : List (ApiCall × Env)) :
    Lts.Along Session.step ObeysTable {} calls ↔ Lts.Along Session.step RestoreSafe {} calls := by
  refine Lts.Along.congr (I := fun s => s.player.status ≠ .eos) (L := fun _ => True)
    (fun _ a _ heos => obeysTable_iff heos a) (fun s a t _ _ heos h => ?_) (fun _ _ => trivial)
    (show Status.idle ≠ .eos by decide)
  obtain rfl := Option.some.inj h
  exact status_ne_eos a heos

/-- Flushing a loaded player takes the status from `NDL_ESP_STATUS_FLUSHING` back to
`NDL_ESP_STATUS_LOADED`, which the table forbids. -/
theorem transits_obey_fails :
    let metaData : MetaData := { videoCodec := .h264, audioCodec := .pcm44100 }
    ¬ Lts.Along Session.step ObeysTable {}
      [(.load metaData none, fun _ => 0), (.flush, fun _ => 0)] := by
  intro metaData h
  have hflush := (h.2 _ rfl).1
  refine (obeysTable_iff ?_ _).mp hflush ⟨rfl, rfl, .inr rfl, .inr (.inr fun _ _ _ => rfl)⟩
  decide

end DirectMedia
