import DirectMedia.Lib.Lts
import DirectMedia.Player.LoadSpec
import DirectMedia.Player.Unload

set_option autoImplicit false

/-! # Runs of the player's interface

A run is a sequence of calls from a fresh player, each with the answers its own calls get. For every
operation but `load` this file says what it does to the status, to `loaded_` and to the pointers:
`NDL_ESP_STATUS_IDLE` is left by none of them, and none of them creates a component.
-/

namespace DirectMedia

open Prog

/-- A call of the interface; `load` with units is `loadEx`. -/
inductive ApiCall where
  | load (metaData : MetaData) (units : Option PtsUnits)
  | unload
  | play
  | pause
  | flush
  | stepFrame
  | setPlaybackRate (rate : Int)
  deriving DecidableEq, Repr

/-- `load` or `loadEx`. -/
def loadCall (env : Env) (metaData : MetaData) : Option PtsUnits → Op (Int × MetaData)
  | none => load env metaData
  | some units => loadEx env metaData units

/-- The program of a call. -/
def ApiCall.prog (env : Env) : ApiCall → Op Int
  | .load metaData units => do
      let ret ← loadCall env metaData units
      return ret.1
  | .unload => DirectMedia.unload env
  | .play => DirectMedia.play env
  | .pause => DirectMedia.pause env
  | .flush => DirectMedia.flush env
  | .stepFrame => DirectMedia.stepFrame env
  | .setPlaybackRate rate => DirectMedia.setPlaybackRate env rate

/-- The call is one of `load` and `loadEx`. -/
def ApiCall.isLoad : ApiCall → Bool
  | .load _ _ => true
  | _ => false

/-- A player, and what its operations have shown so far. -/
structure Session where
  player : Esplayer := {}
  history : List Event := []

/-- One call, with the answers it gets. -/
def Session.step (s : Session) (a : ApiCall × Env) : Option Session :=
  some
    { player := ((a.1.prog a.2).run s.player).2
      history := s.history ++ (a.1.prog a.2).trace s.player }

/-! ## The status after an operation -/

theorem play_status (env : Env) (s : Esplayer) :
    ((play env).run s).2.status =
      if s.status.canTransit .playing then .playing else s.status := by
  simp only [play, run_bind, run_canTransit, run_ite]
  split
  · exact endsPlaying_playAdmitted env s
  · rfl

theorem pause_status (env : Env) (s : Esplayer) :
    ((pause env).run s).2.status = s.status ∨
      s.status.canTransit .paused = true ∧ ((pause env).run s).2.status = .paused := by
  have hkeep : ∀ t : Esplayer, ((changeComponentsState env .pause).run t).2.status = t.status :=
    Keeps.run (ofOperations_status.changeStates env .pause _)
  simp only [pause, run_bind, run_canTransit, run_ite, run_read, run_readLoaded]
  by_cases hcan : s.status.canTransit .paused = true
  · rw [if_pos hcan]
    split
    · exact .inl rfl
    split
    · exact .inl rfl
    split
    case isFalse => exact .inl rfl
    case isTrue =>
      have hset := Keeps.run (ofOperations_status.setRunningStates false) s
      simp only [pauseLoaded, run_bind, run_withLock, pauseSection, run_breakIfNonzero]
      generalize ((setRunningStates false).run s).2 = t at hset
      have hrate := Keeps.run (untouched_status.perform env (.setPlaybackRate 0)) t
      generalize (perform env (.setPlaybackRate 0)).run t = r at hrate
      split
      · exact .inl (hrate.trans hset)
      split
      · exact .inl ((hkeep _).trans (hrate.trans hset))
      · exact .inr ⟨hcan, rfl⟩
  · rw [if_neg hcan]
    exact .inl rfl

theorem flush_status (env : Env) (s : Esplayer) :
    ((flush env).run s).2.status = s.status ∨
      s.loaded = true ∧ ((flush env).run s).2.status = .flushing := by
  simp only [flush, run_bind, run_canTransit, run_ite, run_readLoaded, run_withLock]
  split
  case isFalse => exact .inl rfl
  case isTrue =>
    split
    case isFalse => exact .inl rfl
    case isTrue hloaded =>
      have hreset := congrArg Prod.fst (keeps_flushReset.run s)
      simp only at hreset
      simp only [flushSection, run_bind, run_read, run_transit]
      generalize (flushReset.run s).2 = t at hreset
      have hbody := Keeps.run (ofOperations_status.flushBody env t.status)
        { t with status := .flushing }
      generalize (flushBody env t.status).run { t with status := .flushing } = r at hbody
      obtain ⟨exit, u⟩ := r
      cases exit with
      | broke result => exact .inl (by simpa [flushEnd] using hreset)
      | returned value => exact .inr ⟨hloaded, by simpa [flushEnd] using hbody⟩

theorem stepFrame_status (env : Env) (s : Esplayer) :
    ((stepFrame env).run s).2.status = s.status := by
  simp only [stepFrame, run_bind, run_canTransit, run_ite, run_read]
  split
  · rfl
  · rfl

theorem run_unload (env : Env) (s : Esplayer) :
    ((unload env).run s).2 = if s.status.canTransit .unloaded then unloadStep env s else s := by
  simp only [unload, run_bind, run_canTransit, run_ite, run_withLock, unloadStep]
  split
  · rfl
  · rfl

theorem unloadStep_notLoaded (env : Env) {s : Esplayer} (hs : s.loaded = false) :
    unloadStep env s = s := by
  simp only [unloadStep, unloadSection, run_bind, run_exchange, hs, Bool.false_eq_true, if_false,
    run_pure]
  rw [← hs]

/-! ## What no operation but load does -/

/-- An operation other than `load` does not leave `NDL_ESP_STATUS_IDLE`, which it finds only on a
player that is not loaded, and does not enter it. -/
theorem api_status (env : Env) {a : ApiCall} (ha : a.isLoad = false) {s : Esplayer}
    (hs : s.status = .idle → s.loaded = false) :
    ((a.prog env).run s).2.status = .idle ↔ s.status = .idle := by
  cases a with
  | load metaData units => cases ha
  | unload =>
      rw [ApiCall.prog, run_unload]
      split
      case isFalse => rfl
      case isTrue hcan =>
        by_cases hloaded : s.loaded = true
        · have hidle : s.status ≠ .idle := fun h => by simp [hs h] at hloaded
          simp [(unloaded_unloadStep env hloaded).status, hidle]
        · rw [unloadStep_notLoaded env (by simpa using hloaded)]
  | play =>
      rw [ApiCall.prog, play_status]
      split
      case isFalse => rfl
      case isTrue hcan =>
        -- a player that is idle may not play
        refine ⟨fun h => (by cases h), fun h => ?_⟩
        rw [h] at hcan
        cases hcan
  | pause =>
      rcases pause_status env s with h | ⟨hcan, h⟩
      · rw [ApiCall.prog, h]
      · rw [ApiCall.prog, h]
        refine ⟨fun h => (by cases h), fun h => ?_⟩
        rw [h] at hcan
        cases hcan
  | flush =>
      rcases flush_status env s with h | ⟨hloaded, h⟩
      · rw [ApiCall.prog, h]
      · -- the flush was not refused, so the player is loaded
        rw [ApiCall.prog, h]
        refine ⟨fun h => (by cases h), fun h => ?_⟩
        rw [hs h] at hloaded
        cases hloaded
  | stepFrame => rw [ApiCall.prog, stepFrame_status]
  | setPlaybackRate rate =>
      rw [ApiCall.prog, Keeps.run (ofOperations_status.setPlaybackRate env rate) s]

/-- An operation other than `load` keeps `loaded_` and creates no component, or unloads the
player. -/
theorem api_loaded (env : Env) {a : ApiCall} (ha : a.isLoad = false) (s : Esplayer) :
    (((a.prog env).run s).2.loaded = s.loaded ∧
      (NoComponents s → NoComponents ((a.prog env).run s).2)) ∨
    Unloaded ((a.prog env).run s).2 := by
  have hkeep : ∀ {α : Type} {p : Op α}, p.Keeps Esplayer.loaded →
      (p.Does fun f => ∀ s, NoComponents s → NoComponents (f s).2) →
      (p.run s).2.loaded = s.loaded ∧ (NoComponents s → NoComponents (p.run s).2) :=
    fun hloaded hnone => ⟨hloaded.run s, hnone.run s⟩
  have hl := ofOperations_loaded
  have hn := ofOperations_noComponents
  cases a with
  | load metaData units => cases ha
  | unload =>
      rw [ApiCall.prog, run_unload]
      split
      case isFalse => exact .inl ⟨rfl, id⟩
      case isTrue =>
        by_cases hloaded : s.loaded = true
        · exact .inr (unloaded_unloadStep env hloaded)
        · rw [unloadStep_notLoaded env (by simpa using hloaded)]
          exact .inl ⟨rfl, id⟩
  | play => exact .inl (hkeep (hl.play (fun _ _ => rfl) env) (hn.play (fun _ _ hs => hs) env))
  | pause => exact .inl (hkeep (hl.pause (fun _ _ => rfl) env) (hn.pause (fun _ _ hs => hs) env))
  | flush => exact .inl (hkeep (hl.flush (fun _ _ => rfl) env) (hn.flush (fun _ _ hs => hs) env))
  | stepFrame =>
      exact .inl (hkeep (hl.stepFrame (fun _ _ => rfl) env) (hn.stepFrame (fun _ _ hs => hs) env))
  | setPlaybackRate rate =>
      exact .inl (hkeep (hl.setPlaybackRate env rate) (hn.setPlaybackRate env rate))

/-! ## The entry of load -/

theorem canTransit_loaded_iff (status : Status) :
    status.canTransit .loaded = true ↔ status = .idle := by
  cases status <;> decide

/-- The three ways through the entry checks of `load`. -/
theorem load_cases (env : Env) (metaData : MetaData) (s : Esplayer) :
    (s.loaded = true ∧ (load env metaData).run s = ((resultSuccess, metaData), s)) ∨
    (s.loaded = false ∧ s.status ≠ .idle ∧
      (load env metaData).run s = ((resultFail, metaData), s)) ∨
    (s.loaded = false ∧ s.status = .idle ∧
      (load env metaData).run s = (loadAdmitted env metaData).run s) := by
  have hcan := canTransit_loaded_iff s.status
  simp only [load, run_bind, run_readLoaded, run_ite, run_canTransit, run_pure, hcan]
  cases hloaded : s.loaded with
  | true => simp
  | false =>
      by_cases hidle : s.status = .idle
      · simp [hidle]
      · simp [hidle]

/-- The units are written before `load` begins. -/
def Esplayer.withUnits (s : Esplayer) : Option PtsUnits → Esplayer
  | none => s
  | some units => { s with ptsUnits := units }

theorem run_loadCall (env : Env) (metaData : MetaData) (units : Option PtsUnits) (s : Esplayer) :
    (loadCall env metaData units).run s = (load env metaData).run (s.withUnits units) := by
  cases units with
  | none => rfl
  | some units => simp [loadCall, loadEx, Esplayer.withUnits]

theorem trace_loadCall (env : Env) (metaData : MetaData) (units : Option PtsUnits) (s : Esplayer) :
    (loadCall env metaData units).trace s = (load env metaData).trace (s.withUnits units) := by
  cases units with
  | none => rfl
  | some units => simp [loadCall, loadEx, Esplayer.withUnits]

section

variable {env : Env} {metaData : MetaData} {units : Option PtsUnits}

@[simp] theorem withUnits_loaded (s : Esplayer) : (s.withUnits units).loaded = s.loaded := by
  cases units <;> rfl

@[simp] theorem withUnits_status (s : Esplayer) : (s.withUnits units).status = s.status := by
  cases units <;> rfl

@[simp] theorem withUnits_component (s : Esplayer) :
    (s.withUnits units).component = s.component := by
  cases units <;> rfl

@[simp] theorem withUnits_resources (s : Esplayer) :
    (s.withUnits units).resources = s.resources := by
  cases units <;> rfl

@[simp] theorem withUnits_targetPlaybackRate (s : Esplayer) :
    (s.withUnits units).targetPlaybackRate = s.targetPlaybackRate := by
  cases units <;> rfl

end

end DirectMedia
