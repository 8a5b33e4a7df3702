import DirectMedia.Feed.Operations
import DirectMedia.Player.Held

set_option autoImplicit false

/-! # The announcement of the end

Each decoder reports the end of its stream to a callback, on a thread of its own. The callback sets
the flag of its stream and decides whether to post `NDL_ESP_END_OF_STREAM`: `onVideoCodecCallback`
looks at the flag of the audio, `onAudioCodecCallback` has its test commented out and always posts.
A period begins with a load or a flush that succeeds and ends with the next flush.

The end is announced once, and after both reports, where the audio callback sets its flag only after
the video callback has tested it (`endOfStream_announcedOnce`).
-/

namespace DirectMedia

open Prog

/-- Where the callback for the end of a stream is. -/
inductive CallbackPc where
  | waiting
  | reported
  | flagged
  | posting
  | done
  deriving DecidableEq, Repr

/-- The flag of the stream is set. -/
@[simp] def CallbackPc.hasFlagged : CallbackPc → Bool
  | .flagged | .posting | .done => true
  | .waiting | .reported => false

/-- The callback has decided whether to post. -/
@[simp] def CallbackPc.hasDecided : CallbackPc → Bool
  | .posting | .done => true
  | .waiting | .reported | .flagged => false

/-- The test of the callback of a stream. -/
def announces (s : Esplayer) : StreamType → Bool
  | .videoEs => !(s.component .audioRenderer).isSome || s.eos .audioEs
  -- `1/*!video_renderer_ || video_eos_*/`
  | .audioEs => true

/-- The player and the callbacks of the current period. `ready` says that a load has succeeded,
`active` that the period began with a load or flush that succeeded. -/
structure EndOfStream where
  player : Esplayer := {}
  ready : Bool := false
  active : Bool := false
  callback : StreamType → CallbackPc := fun _ => .waiting
  posted : Nat := 0

/-- The labels of the steps. -/
inductive EndAct where
  | call (a : ApiCall) (env : Env)
  | report (i : StreamType)
  | advance (i : StreamType)

/-- A load is of both streams. -/
def EndAct.Both : EndAct → Prop
  | .call (.load metaData _) _ => metaData.audioCodec ≠ .none ∧ metaData.videoCodec ≠ .none
  | _ => True

namespace EndOfStream

/-- No callback is at work. -/
def Quiescent (x : EndOfStream) : Prop := ∀ i, x.callback i = .waiting ∨ x.callback i = .done

instance (x : EndOfStream) : Decidable x.Quiescent :=
  decidable_of_iff ((x.callback .audioEs = .waiting ∨ x.callback .audioEs = .done) ∧
      (x.callback .videoEs = .waiting ∨ x.callback .videoEs = .done))
    ⟨fun h i => by cases i with | audioEs => exact h.1 | videoEs => exact h.2,
      fun h => ⟨h .audioEs, h .videoEs⟩⟩

/-- The player after a call, in a new period. -/
def newPeriod (s : Esplayer) (ready active : Bool) : EndOfStream :=
  { player := s, ready := ready, active := active }

/-- A call, without a callback at work if it may begin or end a period. -/
def call (x : EndOfStream) (a : ApiCall) (env : Env) : Option EndOfStream :=
  let r := (a.prog env).run x.player
  match a with
  | .load _ _ =>
      if x.player.loaded then some { x with player := r.2 }
      else if x.Quiescent then
        some (newPeriod r.2 (decide (r.1 = resultSuccess)) (decide (r.1 = resultSuccess)))
      else none
  | .flush =>
      if x.player.loaded = false then some { x with player := r.2 }
      else if x.Quiescent then
        some (newPeriod r.2 x.ready (x.ready && decide (r.1 = resultSuccess)))
      else none
  | .unload =>
      if x.Quiescent then some (newPeriod r.2 (x.ready && r.2.loaded) false) else none
  | _ => some { x with player := r.2 }

/-- The callback of a stream takes its next step. -/
def advance (x : EndOfStream) (i : StreamType) : Option EndOfStream :=
  let goto (pc : CallbackPc) := Function.update x.callback i pc
  match x.callback i with
  | .reported =>
      some { x with
        player := { x.player with eos := Function.update x.player.eos i true }
        callback := goto .flagged }
  | .flagged => some { x with callback := goto (if announces x.player i then .posting else .done) }
  | .posting =>
      some { x with
        player := x.player.onMessages i .postNow
        callback := goto .done
        posted := x.posted + 1 }
  | _ => none

/-- One step: a call, a report of a decoder, at most one in a period, or a step of a callback. -/
def step (x : EndOfStream) : EndAct → Option EndOfStream
  | .call a env => x.call a env
  | .report i =>
      if x.active ∧ x.callback i = .waiting then
        some { x with callback := Function.update x.callback i .reported }
      else none
  | .advance i => x.advance i

/-- The end is announced at most once, after both reports, and if both callbacks are done. -/
structure AnnouncedOnce (x : EndOfStream) : Prop where
  once : x.posted ≤ 1
  after : 0 < x.posted → ∀ i, x.callback i ≠ .waiting
  announced : (∀ i, x.callback i = .done) → 0 < x.posted

/-- The step is not one in which the callback for the audio sets its flag before the one for the
video has tested it. -/
def VideoFirst (x : EndOfStream) (a : EndAct) : Prop :=
  a = .advance .audioEs → x.callback .audioEs = .reported →
    (x.callback .videoEs).hasDecided = true

/-! ## The flags in the player's operations -/

theorem untouched_eos : Untouched Esplayer.eos :=
  ⟨fun _ _ => rfl, fun _ _ => rfl, fun _ _ => rfl⟩

theorem ofPlayback_eos : OfPlayback fun f => ∀ s, (f s).2.eos = s.eos where
  read _ := rfl
  call env call _ := (untouched_eos.perform env call).1
  rate env _ := (untouched_eos.perform env _).1
  admitted _ _ := rfl
  loadedRead _ := rfl
  lastPts _ _ := rfl
  runRenderer _ _ _ := rfl
  runMessages _ _ _ := rfl
  allowVideo _ := rfl
  targetPlaybackRate _ _ := rfl

/-- No flag is set. -/
abbrev NoEos (s : Esplayer) : Prop := ∀ i, s.eos i = false

theorem ofFlush_noEos : OfFlush fun f => ∀ s, NoEos s → NoEos (f s).2 where
  read _ hs := hs
  call env call _ s hs := by
    rw [NoEos, (untouched_eos.perform env call).1]
    exact hs
  admitted _ _ hs := hs
  loadedRead _ hs := hs
  lastPts _ _ hs := hs
  cleared _ _ hs := hs
  clearRenderer _ _ hs := hs
  pts _ _ hs := hs
  eos i s hs j := by
    by_cases hj : j = i
    · simp [hj]
    · simp [Function.update_of_ne hj, hs j]
  trickMode _ _ hs := hs

theorem ofLoad_noEos : OfLoad fun f => ∀ s, NoEos s → NoEos (f s).2 where
  read _ hs := hs
  call env call _ s hs := by
    rw [NoEos, (untouched_eos.perform env call).1]
    exact hs
  transit _ hs := hs
  enable _ _ _ hs := hs
  md _ _ hs := hs
  swDecoder _ _ hs := hs
  eos _ _ _ := rfl

/-- A flush resets the flags of the streams whose renderers are held. -/
theorem flushReset_noEos {s : Esplayer} (haudio : (s.component .audioRenderer).isSome)
    (hvideo : (s.component .videoRenderer).isSome) : NoEos (flushReset.run s).2 := by
  intro i
  unfold flushReset
  simp only [run_bind, run_write, run_read, run_onlyIf, haudio, hvideo, if_true]
  cases i with
  | audioEs => rfl
  | videoEs => rfl

theorem flush_noEos (env : Env) {s : Esplayer} (hloaded : s.loaded = true)
    (haudio : (s.component .audioRenderer).isSome) (hvideo : (s.component .videoRenderer).isSome)
    (hret : ((flush env).run s).1 = resultSuccess) : NoEos ((flush env).run s).2 := by
  unfold flush at hret ⊢
  rw [run_bind, run_canTransit] at hret ⊢
  split at hret
  case isFalse => exact absurd hret (show resultFail ≠ resultSuccess by decide)
  case isTrue hcan =>
    rw [if_pos hcan, run_bind, run_readLoaded, if_pos hloaded, run_withLock, flushSection, run_bind,
      run_bind, run_read, run_bind, run_bind, run_transit]
    have hreset := flushReset_noEos haudio hvideo
    generalize (flushReset.run s).2 = t at hreset
    have hbody := Does.run (ofFlush_noEos.flushBody env t.status) { t with status := .flushing }
      hreset
    generalize (flushBody env t.status).run { t with status := .flushing } = r at hbody
    obtain ⟨exit, u⟩ := r
    cases exit with
    | broke result => exact hbody
    | returned value => exact hbody

/-! ## The invariant -/

/-- What holds of the player between two steps. Once a load has succeeded both renderers are there;
before that nothing has been reported. -/
structure Prepared (x : EndOfStream) : Prop where
  fresh : x.player.loaded = false → x.player.status = .idle →
    NoComponents x.player ∧ NoEos x.player
  held : x.ready = true →
    (x.player.component .audioRenderer).isSome ∧ (x.player.component .videoRenderer).isSome
  loaded : x.ready = true → x.player.loaded = true
  active : x.active = true → x.ready = true

/-- What holds of the callbacks in a period in which the video comes first. -/
structure Ordered (x : EndOfStream) : Prop where
  flags : x.active = true → ∀ i, x.player.eos i = (x.callback i).hasFlagged
  idle : x.active = false → ∀ i, x.callback i = .waiting
  video : x.callback .videoEs ≠ .posting
  audio : (x.callback .audioEs).hasFlagged = true → x.callback .videoEs = .done
  posted : x.posted = if x.callback .audioEs = .done then 1 else 0

theorem Ordered.announcedOnce {x : EndOfStream} (h : Ordered x) : AnnouncedOnce x := by
  have hposted := h.posted
  constructor
  · rw [hposted]
    split <;> omega
  · intro hpos
    have hdone : x.callback .audioEs = .done := by
      by_contra hnot
      rw [if_neg hnot] at hposted
      omega
    have hvideo := h.audio (by rw [hdone]; rfl)
    intro i
    cases i with
    | audioEs => simp [hdone]
    | videoEs => simp [hvideo]
  · intro hdone
    rw [hposted, if_pos (hdone .audioEs)]
    exact Nat.one_pos

theorem ordered_newPeriod {s : Esplayer} {ready active : Bool} (hs : active = true → NoEos s) :
    Ordered (newPeriod s ready active) where
  flags hactive i := hs hactive i
  idle _ _ := rfl
  video := by simp [newPeriod]
  audio h := by cases h
  posted := rfl

/-- A call in the middle of a period leaves the flags alone. -/
theorem Ordered.sameFlags {x : EndOfStream} (h : Ordered x) {s : Esplayer}
    (hs : s.eos = x.player.eos) : Ordered { x with player := s } where
  flags hactive i := by
    show s.eos i = _
    rw [hs]
    exact h.flags hactive i
  idle := h.idle
  video := h.video
  audio := h.audio
  posted := h.posted

/-! ## Each step keeps it -/

/-- The player changes, but neither its components nor its flags do. -/
theorem Prepared.congr {x : EndOfStream} (hx : Prepared x) {s : Esplayer}
    (hbuilt : s.built = x.player.built) (hloaded : s.loaded = x.player.loaded)
    (heos : s.eos = x.player.eos)
    (hidle : x.player.loaded = false → s.status = .idle → x.player.status = .idle) :
    Prepared { x with player := s } where
  fresh hnot hi := by
    have hnot : x.player.loaded = false := hloaded.symm.trans hnot
    obtain ⟨hnone, hflags⟩ := hx.fresh hnot (hidle hnot hi)
    exact ⟨noComponents_of_built hbuilt hnone, by rw [NoEos, heos]; exact hflags⟩
  held hready := by
    show (s.component _).isSome ∧ (s.component _).isSome
    rw [held_eq_of_built hbuilt, held_eq_of_built hbuilt]
    exact hx.held hready
  loaded hready := hloaded.trans (hx.loaded hready)
  active := hx.active

/-- In a period the flags of the player may change as well. -/
theorem Prepared.inPeriod {x : EndOfStream} (hx : Prepared x) (hactive : x.active = true)
    {s : Esplayer} (hbuilt : s.built = x.player.built) (hloaded : s.loaded = x.player.loaded)
    (callback : StreamType → CallbackPc) (posted : Nat) :
    Prepared { x with player := s, callback := callback, posted := posted } where
  fresh hnot _ := by
    have hset := hx.loaded (hx.active hactive)
    rw [← hloaded, hnot] at hset
    cases hset
  held hready := by
    show (s.component _).isSome ∧ (s.component _).isSome
    rw [held_eq_of_built hbuilt, held_eq_of_built hbuilt]
    exact hx.held hready
  loaded hready := hloaded.trans (hx.loaded hready)
  active := hx.active

theorem flush_notLoaded (env : Env) {s : Esplayer} (hs : s.loaded = false) :
    ((flush env).run s).2 = s := by
  simp only [flush, run_bind, run_canTransit, run_ite, run_readLoaded, hs, Bool.false_eq_true,
    if_false, run_pure]
  split
  · rfl
  · rfl

/-- A load leaves no flag set, and both renderers if it succeeds. -/
theorem newPeriod_load {x : EndOfStream} (hx : Prepared x) (hloaded : x.player.loaded = false)
    (env : Env) (units : Option PtsUnits) {metaData : MetaData}
    (haudio : metaData.audioCodec ≠ .none) (hvideo : metaData.videoCodec ≠ .none) :
    let r := (load env metaData).run (x.player.withUnits units)
    let y := newPeriod r.2 (decide (r.1.1 = resultSuccess)) (decide (r.1.1 = resultSuccess))
    Prepared y ∧ Ordered y := by
  intro r y
  have hcases := load_cases env metaData (x.player.withUnits units)
  simp only [withUnits_loaded, withUnits_status] at hcases
  rcases hcases with ⟨h, -⟩ | ⟨-, hidle, hrun⟩ | ⟨-, hidle, hrun⟩
  · simp [hloaded] at h
  · -- not an idle player: nothing happens, and no period begins
    have hr : r = ((resultFail, metaData), x.player.withUnits units) := hrun
    have hactive : y.active = false := by simp [y, hr, newPeriod, resultFail, resultSuccess]
    have hready : y.ready = false := by simp [y, hr, newPeriod, resultFail, resultSuccess]
    refine ⟨⟨fun _ h => ?_, fun h => ?_, fun h => ?_, fun h => ?_⟩, ordered_newPeriod fun h => ?_⟩
    · simp [y, hr, newPeriod, hidle] at h
    · rw [hready] at h; cases h
    · rw [hready] at h; cases h
    · rw [hactive] at h; cases h
    · simp [hr, resultFail, resultSuccess] at h
  · obtain ⟨hnone, hflags⟩ := hx.fresh hloaded hidle
    have hset : r.2.loaded = true := by
      show ((load env metaData).run _).2.loaded = true
      rw [hrun]
      exact loadAdmitted_loaded env metaData _
    have hnoEos : NoEos r.2 := by
      show NoEos ((load env metaData).run _).2
      rw [hrun, loadAdmitted, run_bind, run_write]
      refine Does.run (ofLoad_noEos.acquire env metaData) _ fun i => ?_
      cases units <;> exact hflags i
    refine ⟨⟨fun h => ?_, fun h => ?_, fun _ => hset, id⟩, ordered_newPeriod fun _ => hnoEos⟩
    · rw [show y.player.loaded = true from hset] at h
      cases h
    · have hbuilt :=
        load_built env metaData (s := x.player.withUnits units) (by simpa using hloaded)
        (by simpa using hidle) (fun c => by simpa using hnone c)
        (by simpa [y, newPeriod] using h)
      rw [decide_eq_true haudio, decide_eq_true hvideo] at hbuilt
      have hheld : ∀ c, (r.2.component c).isSome = c.builtFor true true :=
        congrFun (congrArg Prod.snd hbuilt)
      exact ⟨hheld .audioRenderer, hheld .videoRenderer⟩

theorem newPeriod_flush {x : EndOfStream} (hx : Prepared x) (hloaded : x.player.loaded = true)
    (env : Env) :
    let r := (flush env).run x.player
    let y := newPeriod r.2 x.ready (x.ready && decide (r.1 = resultSuccess))
    Prepared y ∧ Ordered y := by
  intro r y
  have hset : r.2.loaded = true :=
    (Keeps.run (ofOperations_loaded.flush (fun _ _ => rfl) env) x.player).trans hloaded
  have hbuilt : r.2.built = x.player.built :=
    Keeps.run (ofOperations_built.flush (fun _ _ => rfl) env) x.player
  refine ⟨⟨fun h => ?_, fun h => ?_, fun _ => hset, fun h => ?_⟩, ordered_newPeriod fun h => ?_⟩
  · rw [show y.player.loaded = true from hset] at h
    cases h
  · show (r.2.component _).isSome ∧ (r.2.component _).isSome
    rw [held_eq_of_built hbuilt, held_eq_of_built hbuilt]
    exact hx.held h
  · simp only [y, newPeriod, Bool.and_eq_true] at h
    exact h.1
  · simp only [Bool.and_eq_true, decide_eq_true_eq] at h
    obtain ⟨haudio, hvideo⟩ := hx.held h.1
    exact flush_noEos env hloaded haudio hvideo h.2

theorem newPeriod_unload {x : EndOfStream} (hx : Prepared x) (env : Env) :
    let r := (unload env).run x.player
    let y := newPeriod r.2 (x.ready && r.2.loaded) false
    Prepared y ∧ Ordered y := by
  intro r y
  have hcases : r.2 = x.player ∨ Unloaded r.2 := by
    show ((unload env).run x.player).2 = _ ∨ Unloaded ((unload env).run x.player).2
    rw [run_unload]
    split
    case isFalse => exact .inl rfl
    case isTrue =>
      by_cases hloaded : x.player.loaded = true
      · exact .inr (unloaded_unloadStep env hloaded)
      · exact .inl (unloadStep_notLoaded env (by simpa using hloaded))
  refine ⟨?_, ordered_newPeriod fun h => by cases h⟩
  rcases hcases with hsame | hunloaded
  · refine ⟨fun hl hi => ?_, fun h => ?_, fun h => ?_, fun h => by cases h⟩
    · simp only [y, newPeriod, hsame] at hl hi ⊢
      exact hx.fresh hl hi
    · simp only [y, newPeriod, hsame, Bool.and_eq_true] at h ⊢
      exact hx.held h.1
    · simp only [y, newPeriod, hsame, Bool.and_eq_true] at h ⊢
      exact h.2
  · refine ⟨fun _ hi => ?_, fun h => ?_, fun h => ?_, fun h => by cases h⟩
    · simp [y, newPeriod, hunloaded.status] at hi
    · simp [y, newPeriod, hunloaded.loaded] at h
    · simp [y, newPeriod, hunloaded.loaded] at h

/-- A load starts a period, or finds the player loaded and changes nothing. -/
theorem load_keeps {x y : EndOfStream} {metaData : MetaData} {units : Option PtsUnits} {env : Env}
    (haudio : metaData.audioCodec ≠ .none) (hvideo : metaData.videoCodec ≠ .none)
    (hx : Prepared x) (ho : Ordered x) (h : x.call (.load metaData units) env = some y) :
    Prepared y ∧ Ordered y := by
  have hprog : ((ApiCall.load metaData units).prog env).run x.player =
      (((load env metaData).run (x.player.withUnits units)).1.1,
        ((load env metaData).run (x.player.withUnits units)).2) := by
    simp [ApiCall.prog, run_loadCall]
  simp only [call, hprog] at h
  split at h
  case isTrue hloaded =>
    obtain rfl := Option.some.inj h
    -- only the units are written
    have hsame : ((load env metaData).run (x.player.withUnits units)).2 =
        x.player.withUnits units := by
      rcases load_cases env metaData (x.player.withUnits units) with ⟨-, h⟩ | ⟨h, -⟩ | ⟨h, -⟩
      · rw [h]
      · simp [hloaded] at h
      · simp [hloaded] at h
    rw [hsame]
    have heos : (x.player.withUnits units).eos = x.player.eos := by cases units <;> rfl
    refine ⟨hx.congr ?_ (withUnits_loaded _) heos fun hnot _ => ?_, ho.sameFlags heos⟩
    · cases units <;> rfl
    · rw [hloaded] at hnot
      cases hnot
  case isFalse hloaded =>
    -- no callback is at work when the load begins
    split at h
    case isTrue =>
      obtain rfl := Option.some.inj h
      exact newPeriod_load hx (by simpa using hloaded) env units haudio hvideo
    case isFalse => cases h

/-- A flush starts a period, or finds the player not loaded and changes nothing. -/
theorem flush_keeps {x y : EndOfStream} {env : Env} (hx : Prepared x) (ho : Ordered x)
    (h : x.call .flush env = some y) : Prepared y ∧ Ordered y := by
  simp only [call] at h
  split at h
  case isTrue hloaded =>
    obtain rfl := Option.some.inj h
    have hsame : ((ApiCall.flush.prog env).run x.player).2 = x.player :=
      flush_notLoaded env hloaded
    rw [hsame]
    exact ⟨hx, ho⟩
  case isFalse hloaded =>
    split at h
    case isTrue =>
      obtain rfl := Option.some.inj h
      exact newPeriod_flush hx (by simpa using hloaded) env
    case isFalse => cases h

theorem call_keeps {x y : EndOfStream} {a : ApiCall} {env : Env}
    (hboth : (EndAct.call a env).Both) (hx : Prepared x) (ho : Ordered x)
    (h : x.call a env = some y) : Prepared y ∧ Ordered y := by
  -- the playback calls keep the flags, so the period goes on
  have hplayback : a.isLoad = false → a ≠ .unload →
      ((a.prog env).run x.player).2.loaded = x.player.loaded →
      ((a.prog env).run x.player).2.eos = x.player.eos →
      Prepared { x with player := ((a.prog env).run x.player).2 } ∧
        Ordered { x with player := ((a.prog env).run x.player).2 } :=
    fun hload hunload hloaded heos =>
      ⟨hx.congr (api_built env hload hunload _) hloaded heos fun hnot =>
        (api_status env hload fun _ => hnot).mp, ho.sameFlags heos⟩
  have he := ofPlayback_eos
  have hl := ofOperations_loaded
  cases a with
  | load metaData units => exact load_keeps hboth.1 hboth.2 hx ho h
  | unload =>
      simp only [call] at h
      split at h
      case isTrue =>
        obtain rfl := Option.some.inj h
        exact newPeriod_unload hx env
      case isFalse => cases h
  | flush => exact flush_keeps hx ho h
  | play =>
      obtain rfl := Option.some.inj h
      exact hplayback rfl (by simp) (Keeps.run (hl.play (fun _ _ => rfl) env) _)
        (Keeps.run (he.play (fun _ _ => rfl) env) _)
  | pause =>
      obtain rfl := Option.some.inj h
      exact hplayback rfl (by simp) (Keeps.run (hl.pause (fun _ _ => rfl) env) _)
        (Keeps.run (he.pause (fun _ _ => rfl) env) _)
  | stepFrame =>
      obtain rfl := Option.some.inj h
      exact hplayback rfl (by simp) (Keeps.run (hl.stepFrame (fun _ _ => rfl) env) _)
        (Keeps.run (he.stepFrame (fun _ _ => rfl) env) _)
  | setPlaybackRate rate =>
      obtain rfl := Option.some.inj h
      exact hplayback rfl (by simp) (Keeps.run (hl.setPlaybackRate env rate) _)
        (Keeps.run (he.setPlaybackRate env rate) _)

/-- The callback of a stream sets its flag. -/
theorem Ordered.flag {x : EndOfStream} (ho : Ordered x) {i : StreamType}
    (hpc : x.callback i = .reported) (hactive : x.active = true)
    (hfirst : i = .audioEs → (x.callback .videoEs).hasDecided = true) :
    Ordered { x with
      player := { x.player with eos := Function.update x.player.eos i true }
      callback := Function.update x.callback i .flagged } := by
  have hflags : ∀ j, Function.update x.player.eos i true j =
      (Function.update x.callback i .flagged j).hasFlagged := by
    intro j
    by_cases hj : j = i
    · subst hj
      simp
    · simp [Function.update_of_ne hj, ho.flags hactive j]
  have hvideo := ho.video
  have haudio := ho.audio
  have hposted := ho.posted
  cases i with
  | audioEs =>
      -- the video has decided, and not to post
      have hdone : x.callback .videoEs = .done := by
        have := hfirst rfl
        cases hv : x.callback .videoEs <;> simp_all
      refine ⟨fun _ => hflags, fun h => ?_, by simp [hdone], by simp [hdone], ?_⟩
      · rw [hactive] at h; cases h
      · simpa [hpc] using hposted
  | videoEs =>
      refine ⟨fun _ => hflags, fun h => ?_, by simp, fun h => ?_, ?_⟩
      · rw [hactive] at h; cases h
      · have := haudio (by simpa using h)
        rw [hpc] at this
        cases this
      · simpa using hposted

/-- The callback of a stream decides: the one for the video not to post. -/
theorem Ordered.decide {x : EndOfStream} (ho : Ordered x) (hx : Prepared x) {i : StreamType}
    (hpc : x.callback i = .flagged) (hactive : x.active = true) :
    Ordered { x with
      callback := Function.update x.callback i
        (if announces x.player i then .posting else .done) } := by
  have hflags : ∀ j, x.player.eos j = (Function.update x.callback i
      (if announces x.player i then CallbackPc.posting else .done) j).hasFlagged := by
    intro j
    rw [ho.flags hactive j]
    by_cases hj : j = i
    · subst hj
      rw [Function.update_self, hpc]
      split <;> rfl
    · rw [Function.update_of_ne hj]
  have haudio := ho.audio
  have hposted := ho.posted
  cases i with
  | audioEs =>
      have hdone := haudio (by rw [hpc]; rfl)
      refine ⟨fun _ => hflags, fun h => ?_, by simp [hdone], by simp [hdone], ?_⟩
      · rw [hactive] at h; cases h
      · simpa [announces, hpc] using hposted
  | videoEs =>
      -- the flag of the audio is not set yet
      have hnot : (x.callback .audioEs).hasFlagged = false := by
        by_contra h
        have := haudio (by simpa using h)
        rw [hpc] at this
        cases this
      have hsilent : announces x.player .videoEs = false := by
        have hrenderer := (hx.held (hx.active hactive)).1
        rw [announces, hrenderer, ho.flags hactive, hnot]
        rfl
      refine ⟨fun _ => hflags, fun h => ?_, by simp [hsilent], fun h => by simp [hsilent], ?_⟩
      · rw [hactive] at h; cases h
      · simpa using hposted

/-- The callback for the audio posts. -/
theorem Ordered.post {x : EndOfStream} (ho : Ordered x) {i : StreamType}
    (hpc : x.callback i = .posting) (hactive : x.active = true) :
    Ordered { x with
      player := x.player.onMessages i .postNow
      callback := Function.update x.callback i .done
      posted := x.posted + 1 } := by
  have hflags : ∀ j, x.player.eos j = (Function.update x.callback i .done j).hasFlagged := by
    intro j
    rw [ho.flags hactive j]
    by_cases hj : j = i
    · subst hj
      simp [hpc]
    · rw [Function.update_of_ne hj]
  have hposted := ho.posted
  cases i with
  | audioEs =>
      have hdone := ho.audio (by rw [hpc]; rfl)
      refine ⟨fun _ => hflags, fun h => ?_, by simp [hdone], by simp [hdone], ?_⟩
      · rw [hactive] at h; cases h
      · rw [hpc, if_neg (by simp)] at hposted
        simp [hposted]
  | videoEs => exact absurd hpc ho.video

/-- A step of a callback keeps the order, if the video comes first. -/
theorem advance_keeps {x y : EndOfStream} {i : StreamType} (hfirst : VideoFirst x (.advance i))
    (hx : Prepared x) (ho : Ordered x) (h : x.advance i = some y) : Prepared y ∧ Ordered y := by
  have hactive : x.callback i ≠ .waiting → x.active = true := by
    intro hne
    by_contra hnot
    exact hne (ho.idle (by simpa using hnot) i)
  unfold advance at h
  dsimp only at h
  split at h
  case h_1 hpc =>
      obtain rfl := Option.some.inj h
      have hact := hactive (by simp [hpc])
      have ho' := ho.flag hpc hact fun hi => hfirst (by rw [hi]) (by rw [← hi, hpc])
      refine ⟨hx.inPeriod hact ?_ ?_ _ _, ho'⟩
      · rfl
      · rfl
  case h_2 hpc =>
      obtain rfl := Option.some.inj h
      have hact := hactive (by simp [hpc])
      exact ⟨hx.inPeriod hact rfl rfl _ _, ho.decide hx hpc hact⟩
  case h_3 hpc =>
      obtain rfl := Option.some.inj h
      have hact := hactive (by simp [hpc])
      refine ⟨hx.inPeriod hact ?_ ?_ _ _, ho.post hpc hact⟩
      · rfl
      · rfl
  case h_4 => cases h

theorem report_keeps {x y : EndOfStream} {i : StreamType} (hx : Prepared x) (ho : Ordered x)
    (h : step x (.report i) = some y) : Prepared y ∧ Ordered y := by
  simp only [step, Option.ite_none_right_eq_some, Option.some.injEq] at h
  obtain ⟨⟨hactive, hpc⟩, rfl⟩ := h
  refine ⟨hx.inPeriod hactive rfl rfl _ _, ?_⟩
  have hflags : ∀ j, x.player.eos j = (Function.update x.callback i .reported j).hasFlagged := by
    intro j
    rw [ho.flags hactive j]
    by_cases hj : j = i
    · subst hj
      simp [hpc]
    · rw [Function.update_of_ne hj]
  have haudio := ho.audio
  have hposted := ho.posted
  cases i with
  | audioEs =>
      refine ⟨fun _ => hflags, fun h => ?_, by simpa using ho.video, fun h => by simp at h, ?_⟩
      · rw [hactive] at h; cases h
      · simpa [hpc] using hposted
  | videoEs =>
      refine ⟨fun _ => hflags, fun h => ?_, by simp, fun h => ?_, ?_⟩
      · rw [hactive] at h; cases h
      · have := haudio (by simpa using h)
        rw [hpc] at this
        cases this
      · simpa using hposted

theorem prepared_init : Prepared {} :=
  ⟨fun _ _ => ⟨fun _ => rfl, fun _ => rfl⟩, fun h => (by cases h), fun h => (by cases h),
    fun h => (by cases h)⟩

theorem step_keeps {x y : EndOfStream} {a : EndAct} (hboth : a.Both) (hfirst : VideoFirst x a)
    (hx : Prepared x ∧ Ordered x) (h : step x a = some y) : Prepared y ∧ Ordered y := by
  cases a with
  | call a env => exact call_keeps hboth hx.1 hx.2 h
  | report i => exact report_keeps hx.1 hx.2 h
  | advance i => exact advance_keeps hfirst hx.1 hx.2 h

end EndOfStream

open EndOfStream in
/-- **The end is announced once.** In every run of calls and callbacks in which the callback for the
audio sets its flag only after the one for the video has tested it, the announcement is posted at
most once in a period, only after both reports, and once both callbacks are done. -/
theorem endOfStream_announcedOnce {as : List EndAct} (hboth : ∀ a ∈ as, a.Both)
    (hfirst : Lts.Along EndOfStream.step VideoFirst {} as) {x : EndOfStream}
    (h : Lts.exec EndOfStream.step {} as = some x) : x.AnnouncedOnce := by
  have hinit : Prepared {} ∧ Ordered {} := ⟨prepared_init, ordered_newPeriod fun h => by cases h⟩
  have hinv := Lts.Along.invariant (I := fun x => Prepared x ∧ Ordered x)
    (fun _ _ _ hP hx hstep => step_keeps hP.2 hP.1 hx hstep) (hfirst.and_labels hboth) hinit h
  exact hinv.2.announcedOnce

/-- A load of both streams, and the report of each decoder with the steps of its callback. -/
def videoThenAudio : List EndAct :=
  [.call (.load { videoCodec := .h264, audioCodec := .pcm44100 } none) fun _ => 0,
    .report .videoEs, .advance .videoEs, .advance .videoEs, .report .audioEs, .advance .audioEs,
    .advance .audioEs, .advance .audioEs]

/-- The same with the report of the audio first. -/
def audioThenVideo : List EndAct :=
  [.call (.load { videoCodec := .h264, audioCodec := .pcm44100 } none) fun _ => 0,
    .report .audioEs, .advance .audioEs, .advance .audioEs, .advance .audioEs, .report .videoEs,
    .advance .videoEs, .advance .videoEs, .advance .videoEs]

open EndOfStream in
theorem endOfStream_announcedOnce_videoFirst :
    ∃ x, Lts.exec EndOfStream.step {} videoThenAudio = some x ∧ x.posted = 1 ∧
      x.AnnouncedOnce := by
  refine ⟨_, rfl, rfl, ?_⟩
  refine @endOfStream_announcedOnce videoThenAudio ?_ ?_ _ rfl
  · intro a ha
    simp only [videoThenAudio, List.mem_cons, List.not_mem_nil, or_false] at ha
    rcases ha with rfl | rfl | rfl | rfl | rfl | rfl | rfl | rfl
    · exact ⟨by decide, by decide⟩
    all_goals trivial
  · refine .cons (fun h => by cases h) rfl <| .cons (fun h => by cases h) rfl <|
      .cons (fun h => by cases h) rfl <| .cons (fun h => by cases h) rfl <|
      .cons (fun h => by cases h) rfl <| .cons (fun _ _ => rfl) rfl <|
      .cons (fun _ h => by cases h) rfl <| .cons (fun _ h => by cases h) rfl trivial

open EndOfStream in
/-- With the audio first the end is announced before the video has reported, and then again. -/
theorem endOfStream_announcedTwice :
    (∃ x, Lts.exec EndOfStream.step {} (audioThenVideo.take 5) = some x ∧ x.active = true ∧
        ¬ x.AnnouncedOnce) ∧
      ∃ x, Lts.exec EndOfStream.step {} audioThenVideo = some x ∧ x.active = true ∧
        x.posted = 2 := by
  refine ⟨⟨_, rfl, rfl, fun h => ?_⟩, _, rfl, rfl, rfl⟩
  exact h.after (by decide) .videoEs rfl

end DirectMedia
