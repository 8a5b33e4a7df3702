import DirectMedia.Player.FlowControl
import DirectMedia.Player.Held

set_option autoImplicit false

/-! # Playback of a single stream

A player with one stream has no components for the other. `flush`, `pause`, `stepFrame` and `unload`
look at a pointer before each call through it. `play` from `NDL_ESP_STATUS_LOADED` does so for
`video_codec_` only, and `setOmxFlags` for neither codec. So a player with one stream calls through
no null pointer exactly as long as it neither starts to play nor feeds a frame (`presentOnly_iff`).
-/

namespace DirectMedia

open Prog

/-! ## Calls through the pointers -/

/-- Not a call through a null pointer of a component; the clock is not one of these. -/
def Event.Present (e : Event) : Prop := ∀ c, c ≠ .clock → e ≠ .use c false

/-- Whatever the player, the program calls through no null pointer. -/
abbrev Guarded {α : Type} (p : Op α) : Prop := p.Safe (fun _ => True) Event.Present

section Guarded

variable {α : Type}

theorem present_of_notUse {e : Event} (h : e.isUse = false) : e.Present := by
  rintro c - rfl
  cases h

theorem present_use {c : ComponentName} {held : Bool} :
    (Event.use c held).Present ↔ (c ≠ .clock → held = true) := by
  constructor
  · intro h hne
    cases held with
    | true => rfl
    | false => exact absurd rfl (h c hne)
  · rintro h d hd he
    cases he
    cases h hd

/-- Actions that show no call keep a program guarded. -/
theorem guarded_hidden {p : Op α} (h : p.Does fun f => ∀ s, ∀ e ∈ (f s).1, e.isUse = false) :
    Guarded p :=
  Does.safe (h.mono fun _ hf s _ => ⟨fun e he => present_of_notUse (hf s e he), trivial⟩)

theorem guarded_read (g : Esplayer → α) : Guarded (read g) :=
  fun _ _ => ⟨by simp, trivial⟩

theorem guarded_write (f : Esplayer → Esplayer) : Guarded (write f) :=
  fun _ _ => ⟨by simp, trivial⟩

theorem guarded_performIfHeld (env : Env) (c : ComponentName) {call : Call}
    (hcall : call.target = some c) : Guarded (performIfHeld env c call) := by
  intro s _
  refine ⟨fun e he => ?_, trivial⟩
  unfold performIfHeld at he
  rw [trace_bind, run_read, trace_read, List.nil_append] at he
  split at he
  case isTrue hheld =>
    rw [trace_perform, hcall] at he
    obtain rfl := List.mem_singleton.mp he
    exact present_use.mpr fun _ => hheld
  case isFalse => cases he

/-- Calls on the clock, or on nothing. -/
theorem guarded_perform (env : Env) {call : Call} (hcall : ∀ c, call.target = some c → c = .clock) :
    Guarded (perform env call) := by
  intro s _
  refine ⟨fun e he => ?_, trivial⟩
  rw [trace_perform, Option.mem_toList] at he
  obtain ⟨c, hc, rfl⟩ := Option.map_eq_some_iff.mp he
  exact present_use.mpr fun hne => absurd (hcall c hc) hne

theorem safeCalls_guarded : SafeCalls (fun _ => True) Event.Present where
  component _ _ := trivial
  notUse := present_of_notUse
  held env _ _ hcall := guarded_performIfHeld env _ hcall
  clock env _ _ _ _ := guarded_perform env fun c hc => by cases hc; rfl

theorem guarded_setRunningStates (run : Bool) : Guarded (setRunningStates run) :=
  Safe.bind (guarded_write _) fun _ => Safe.bind (guarded_write _) fun _ =>
    Safe.bind (guarded_write _) fun _ => guarded_write _

theorem guarded_canTransit (status : Status) : Guarded (canTransit status) := by
  refine fun s _ => ⟨fun e he => ?_, trivial⟩
  rw [trace_canTransit] at he
  split at he
  · obtain rfl := List.mem_singleton.mp he
    exact present_of_notUse rfl
  · cases he

/-- Behind an entry check. -/
theorem guarded_admitted {status : Status} {p q : Op α} (hp : Guarded p) (hq : Guarded q) :
    Guarded (canTransit status >>= fun can => if can then p else q) :=
  Safe.bind (guarded_canTransit status) fun _ => Safe.ite hp hq

theorem guarded_readLoaded : Guarded readLoaded :=
  fun _ _ =>
    ⟨fun e he => present_of_notUse (by obtain rfl := List.mem_singleton.mp he; rfl), trivial⟩

end Guarded

/-! ## The operations that look first -/

section Operations

variable (env : Env)

theorem guarded_flush : Guarded (flush env) := by
  have hsection := safeCalls_guarded.flushSection env
  refine guarded_admitted (Safe.bind guarded_readLoaded fun _ => ?_) (safe_pure _)
  exact Safe.ite (Safe.withLock hsection) (safe_pure _)

theorem guarded_pause : Guarded (pause env) := by
  refine guarded_admitted ?_ (safe_pure _)
  refine Safe.bind (guarded_read _) fun _ => Safe.ite (safe_pure _) ?_
  refine Safe.bind (guarded_read _) fun _ => Safe.ite (safe_pure _) ?_
  refine Safe.bind guarded_readLoaded fun _ => Safe.ite ?_ (safe_pure _)
  refine Safe.bind (guarded_setRunningStates _) fun _ => Safe.withLock ?_
  refine safe_breakIfNonzero (guarded_perform env fun c hc => by cases hc; rfl) ?_
  refine safe_breakIfNonzero (safeCalls_guarded.changeStates env _ _) ?_
  exact Safe.bind (safeCalls_guarded.transit _) fun _ => safe_pure _

theorem guarded_stepFrame : Guarded (stepFrame env) := by
  refine guarded_admitted (Safe.bind (guarded_read _) fun saveState => ?_) (safe_pure _)
  refine Safe.bind (safeCalls_guarded.transit _) fun _ => ?_
  refine Safe.bind (guarded_perform env fun c hc => by cases hc; rfl) fun result => ?_
  exact Safe.bind (safeCalls_guarded.transit _) fun _ => safe_pure _

theorem guarded_unload : Guarded (unload env) := by
  have hcalls : ∀ c ∈ unloadCalls, c.2.target = some c.1 := by decide
  have hlog : ∀ cs : List (ComponentName × Call), (∀ c ∈ cs, c.2.target = some c.1) →
      Guarded (cs.forM fun c => logIfNonzero (performIfHeld env c.1 c.2)) := by
    intro cs hcs
    induction cs with
    | nil => exact safe_pure _
    | cons c cs ih =>
        exact Safe.bind (safe_logIfNonzero (guarded_performIfHeld env _ (hcs c (by simp))))
          fun _ => ih fun d hd => hcs d (by simp [hd])
  -- the pointer is looked at before it is deleted
  have hdestroy : ∀ c, Guarded (destroyComponent c) := by
    intro c s _
    refine ⟨fun e he => ?_, trivial⟩
    unfold destroyComponent at he
    rw [trace_bind, run_read, trace_read, List.nil_append, trace_onlyIf, trace_emit] at he
    split at he
    case isTrue hheld =>
      obtain rfl := List.mem_singleton.mp he
      exact present_use.mpr fun _ => hheld
    case isFalse => cases he
  refine guarded_admitted (Safe.withLock ?_) (safe_pure _)
  refine Safe.bind (fun s _ => ⟨by simp [exchange, trace], trivial⟩) fun _ =>
    Safe.ite ?_ (safe_pure _)
  refine Safe.bind (Safe.bind (guarded_write _) fun _ => guarded_write _) fun _ => ?_
  refine Safe.bind (guarded_write _) fun _ => Safe.bind (hlog _ hcalls) fun _ => ?_
  refine Safe.bind (safe_forM hdestroy _) fun _ => ?_
  refine Safe.bind (safeCalls_guarded.transit _) fun _ => ?_
  refine Safe.bind (safe_logIfNonzero (guarded_perform env fun c hc => by cases hc)) fun _ => ?_
  exact safe_pure _

end Operations

/-! ## Load

`load` calls through a pointer only after the component has been created.
-/

/-- From this state the program calls through no null pointer. -/
def PresentAt {α : Type} (p : Op α) (s : Esplayer) : Prop := ∀ e ∈ p.trace s, e.Present

section PresentAt

variable {α β : Type}

theorem presentAt_of_guarded {p : Op α} (h : Guarded p) (s : Esplayer) : PresentAt p s :=
  (h s trivial).1

theorem presentAt_bind {p : Op α} {g : α → Op β} {s : Esplayer} :
    PresentAt (p >>= g) s ↔ PresentAt p s ∧ PresentAt (g (p.run s).1) (p.run s).2 := by
  unfold PresentAt
  rw [trace_bind, List.forall_mem_append]

theorem presentAt_perform (env : Env) (call : Call) (s : Esplayer) :
    PresentAt (perform env call) s ↔
      ∀ c, call.target = some c → c ≠ .clock → (s.component c).isSome = true := by
  unfold PresentAt
  rw [trace_perform]
  cases call.target with
  | none => simp
  | some c =>
      constructor
      · intro h d hd
        obtain rfl := Option.some.inj hd
        exact present_use.mp (h _ (by simp))
      · intro h e he
        obtain rfl := List.mem_singleton.mp he
        exact present_use.mpr (h c rfl)

theorem presentAt_breakIfNonzero {cond : Op Int} {result : α} {rest : Op α} {s : Esplayer} :
    PresentAt (breakIfNonzero cond result rest) s ↔
      PresentAt cond s ∧ ((cond.run s).1 = 0 → PresentAt rest (cond.run s).2) := by
  unfold breakIfNonzero
  rw [presentAt_bind]
  refine and_congr_right fun _ => ?_
  by_cases hret : (cond.run s).1 = 0
  · rw [if_neg (not_not.mpr hret)]
    exact ⟨fun h _ => h, fun h => h hret⟩
  · rw [if_pos hret]
    exact iff_of_true (by simp [PresentAt]) fun h => absurd h hret

theorem presentAt_logIfNonzero {cond : Op Int} {s : Esplayer} :
    PresentAt (logIfNonzero cond) s ↔ PresentAt cond s := by
  unfold logIfNonzero
  rw [presentAt_bind]
  exact and_iff_left (by simp [PresentAt])

theorem presentAt_skip {p : Op α} {g : α → Op β} {s : Esplayer} (hp : Guarded p) :
    PresentAt (p >>= g) s ↔ PresentAt (g (p.run s).1) (p.run s).2 :=
  presentAt_bind.trans (and_iff_right (presentAt_of_guarded hp s))

theorem presentAt_before {p : Op α} {g : α → Op β} {s : Esplayer} (hg : ∀ a, Guarded (g a)) :
    PresentAt (p >>= g) s ↔ PresentAt p s :=
  presentAt_bind.trans (and_iff_left (presentAt_of_guarded (hg _) _))

end PresentAt

section Load

variable {audio video : Bool} {rate : Int} {held : List ComponentName}

/-- With these components created, the program calls through no null pointer. -/
def PresentWhile {α : Type} (audio video : Bool) (rate : Int) (held : List ComponentName)
    (p : Op α) : Prop :=
  ∀ s, Building audio video rate held s → PresentAt p s

variable {α : Type} {rest : Op α} (env : Env)

/-- The clock, and the components `held`. -/
def Call.Through (held : List ComponentName) (call : Call) : Prop :=
  ∀ c ∈ call.target, c = .clock ∨ c ∈ held

instance (held : List ComponentName) (call : Call) : Decidable (call.Through held) := by
  unfold Call.Through
  infer_instance

theorem presentWhile_perform {call : Call} (hcall : call.Through held) :
    PresentWhile audio video rate held (perform env call) := by
  intro s hs
  refine (presentAt_perform env call s).mpr fun c hc hne => hs.held c ?_
  exact (hcall c hc).resolve_left hne

theorem PresentWhile.call {call : Call} {result : α} (hcall : call.Through held)
    (h : PresentWhile audio video rate held rest) :
    PresentWhile audio video rate held (breakIfNonzero (perform env call) result rest) :=
  fun s hs => presentAt_breakIfNonzero.mpr
    ⟨presentWhile_perform env hcall s hs, fun _ => h _ (hs.perform env call)⟩

theorem PresentWhile.callIfHeld {c : ComponentName} {call : Call} {result : α}
    (hcall : call.target = some c) (h : PresentWhile audio video rate held rest) :
    PresentWhile audio video rate held (breakIfNonzero (performIfHeld env c call) result rest) := by
  intro s hs
  refine presentAt_breakIfNonzero.mpr
    ⟨presentAt_of_guarded (guarded_performIfHeld env c hcall) s, fun _ => h _ ?_⟩
  rw [run_performIfHeld]
  split
  · exact hs.perform env call
  · exact hs

theorem PresentWhile.log {call : Call} (hcall : call.Through held)
    (h : PresentWhile audio video rate held rest) :
    PresentWhile audio video rate held (logIfNonzero (perform env call) >>= fun _ => rest) := by
  intro s hs
  refine presentAt_bind.mpr
    ⟨presentAt_logIfNonzero.mpr (presentWhile_perform env hcall s hs), ?_⟩
  rw [run_logIfNonzero]
  exact h _ (hs.perform env call)

theorem PresentWhile.steps {steps : List (Int × Call)} (hsteps : ∀ x ∈ steps, x.2.Through held)
    {rest : Op Int} (h : PresentWhile audio video rate held rest) :
    PresentWhile audio video rate held (breakSteps env steps rest) := by
  induction steps with
  | nil => exact h
  | cons x steps ih =>
      exact PresentWhile.call env (hsteps x (by simp)) (ih fun y hy => hsteps y (by simp [hy]))

/-- Creating components one after the other; what follows may call through them. -/
theorem PresentWhile.creates (cs : List (Int × ComponentName)) (hcs : ∀ x ∈ cs, x.1 ≠ 0)
    {result : α}
    (h : PresentWhile audio video rate ((cs.map (·.2)).reverse ++ held) rest) :
    PresentWhile audio video rate held
      (breakIfNonzero
        (breakSteps env (cs.map fun x => (x.1, .create x.2)) (pure resultSuccess)) result
        rest) := by
  have hcreates : ∀ x ∈ cs.map fun x => (x.1, Call.create x.2), x.2.Through held := by
    intro x hx c hc
    obtain ⟨y, -, rfl⟩ := List.mem_map.mp hx
    cases hc
  intro s hs
  refine presentAt_breakIfNonzero.mpr ⟨?_, fun hret => h _ ((run_creates env hcs hs).2 hret)⟩
  exact PresentWhile.steps env hcreates (fun t _ => presentAt_of_guarded (safe_pure _) t) s hs

theorem presentWhile_loadStart (result : Int) :
    PresentWhile audio video rate held (loadStart env result) := by
  have hwait : ∀ mask, Guarded (perform env (.setWaitingForStartTime mask)) :=
    fun _ => guarded_perform env fun c hc => by cases hc; rfl
  have hstart : Guarded (loadStart env result) :=
    Safe.bind (guarded_read _) fun _ => Safe.bind (guarded_read _) fun _ =>
      safe_breakIfNonzero (Safe.ite (hwait _) (safe_pure _)) <|
        Safe.bind (safeCalls_guarded.transit _) fun _ => safe_pure _
  exact fun s _ => presentAt_of_guarded hstart s

theorem presentWhile_loadAudio {rest : Op Int}
    (h : PresentWhile audio video rate (.audioRenderer :: .audioCodec :: held) rest) :
    PresentWhile audio video rate held (loadAudio env rest) := by
  have hthrough : ∀ {steps : List (Int × Call)},
      (∀ x ∈ steps, x.2.Through [.audioRenderer, .audioCodec]) →
        ∀ x ∈ steps, x.2.Through (.audioRenderer :: .audioCodec :: held) := by
    intro steps hsteps x hx c hc
    refine (hsteps x hx c hc).imp_right fun hmem => ?_
    exact List.mem_append_left held hmem
  have hrenderer := @PresentWhile.steps _ _ _ _ env rendererSteps (hthrough (by decide)) _ h
  have htunnel : PresentWhile audio video rate (.audioRenderer :: .audioCodec :: held)
      (loadAudioTunnel env rest) := by
    intro s hs
    have hs' := hs.perform env (.setupTunnel .audioCodec)
    refine presentAt_bind.mpr ⟨(presentAt_perform _ _ _).mpr fun c hc _ => ?_, ?_⟩
    · cases hc
      exact hs.held _ (by simp)
    · split
      · exact PresentWhile.steps env (hthrough (by decide)) hrenderer _ hs'
      · exact hrenderer _ hs'
  have hrest := @PresentWhile.log _ _ _ _ _ _ env (.setParam .audioRenderer .paramAudioPcm)
    (fun c hc => by cases hc; simp) htunnel
  have hpcm := @PresentWhile.call _ _ _ _ _ _ env (.getParam .audioCodec .paramAudioPcm) resultFail
    (fun c hc => by cases hc; simp) hrest
  have hsteps := @PresentWhile.steps _ _ _ _ env audioSteps (hthrough (by decide)) _ hpcm
  refine PresentWhile.creates env
    [(resultAudioCodecError, .audioCodec), (resultAudioRenderError, .audioRenderer)] (by decide) ?_
  refine PresentWhile.callIfHeld env rfl (PresentWhile.callIfHeld env rfl ?_)
  exact PresentWhile.callIfHeld env rfl hsteps

theorem presentWhile_loadVideo {rest : Op Int}
    (h : PresentWhile audio video rate (.videoScheduler :: .videoRenderer :: .videoCodec :: held)
      rest) : PresentWhile audio video rate held (loadVideo env rest) := by
  have hsteps : ∀ x ∈ videoSteps,
      x.2.Through (.videoScheduler :: .videoRenderer :: .videoCodec :: held) := by
    have hthrough : ∀ x ∈ videoSteps,
        x.2.Through [.videoScheduler, .videoRenderer, .videoCodec] := by decide
    intro x hx c hc
    refine (hthrough x hx c hc).imp_right fun hmem => ?_
    exact List.mem_append_left held hmem
  refine PresentWhile.creates env
    [(resultVideoCodecError, .videoCodec), (resultVideoRenderError, .videoRenderer),
      (resultVideoRenderError, .videoScheduler)] (by decide) (PresentWhile.steps env hsteps ?_)
  refine PresentWhile.log env (fun c hc => by cases hc; simp) ?_
  refine PresentWhile.log env (fun c hc => by cases hc; simp) ?_
  exact PresentWhile.log env (fun c hc => by cases hc; simp) h

theorem presentWhile_loadFromAudio (result : Int) :
    PresentWhile audio video rate held (loadFromAudio env result) := by
  refine fun s hs => presentAt_bind.mpr ⟨presentAt_of_guarded (guarded_read _) s, ?_⟩
  split
  · exact presentWhile_loadAudio env (presentWhile_loadStart env _) s hs
  · exact presentWhile_loadStart env _ s hs

theorem presentWhile_loadBody : PresentWhile audio video rate [] (loadBody env) := by
  refine PresentWhile.creates env [(resultClockError, .clock)] (by decide) ?_
  refine PresentWhile.call env (fun c hc => by cases hc; simp) fun s hs => ?_
  refine presentAt_bind.mpr ⟨presentAt_of_guarded (guarded_read _) s, ?_⟩
  split
  · exact presentWhile_loadVideo env (presentWhile_loadFromAudio env _) s hs
  · exact presentWhile_loadFromAudio env _ s hs

/-- No load calls through a null pointer, whether or not it succeeds. -/
theorem guarded_load (metaData : MetaData) : Guarded (load env metaData) := by
  have hnone : ∀ {call : Call}, call.target = none → Guarded (perform env call) :=
    fun hcall => guarded_perform env fun c hc => by rw [hcall] at hc; cases hc
  have hdecoded : Guarded (loadDecoded env metaData) := by
    refine Safe.bind (guarded_write _) fun _ s _ => ⟨?_, trivial⟩
    refine presentAt_bind.mpr ⟨presentAt_of_guarded (guarded_write _) s, presentAt_bind.mpr
      ⟨?_, presentAt_of_guarded (safe_pure _) _⟩⟩
    exact presentWhile_loadBody env _ ⟨rfl, rfl, rfl, rfl, by simp⟩
  have hdecoder : Guarded (loadDecoder env metaData (loadDecoded env metaData)) := by
    refine Safe.ite (safe_pure _) (Safe.ite hdecoded ?_)
    exact Safe.bind (guarded_write _) fun _ => safe_breakIfNonzero (hnone rfl) hdecoded
  refine Safe.bind guarded_readLoaded fun _ => Safe.ite (safe_pure _) ?_
  refine guarded_admitted (Safe.bind (guarded_write _) fun _ => ?_) (safe_pure _)
  refine safe_breakIfNonzero (hnone rfl) (Safe.bind (guarded_write _) fun _ => ?_)
  refine Safe.bind (Safe.onlyIf (guarded_write _)) fun _ => Safe.ite ?_ hdecoded
  exact Safe.bind (guarded_write _) fun _ => hdecoder

end Load

/-! ## Play -/

section Play

variable (env : Env)

/-- A call on the component `c` whose failure is logged, and what follows it. -/
theorem presentAt_log {c : ComponentName} {call : Call} (hcall : call.target = some c)
    (hne : c ≠ .clock) {α : Type} {rest : Op α} {s : Esplayer} :
    PresentAt (logIfNonzero (perform env call) >>= fun _ => rest) s ↔
      (s.component c).isSome = true ∧ PresentAt rest ((perform env call).run s).2 := by
  rw [presentAt_bind, presentAt_logIfNonzero, presentAt_perform, run_logIfNonzero, hcall]
  refine and_congr_left' ⟨fun h => h c rfl hne, fun h d hd _ => ?_⟩
  obtain rfl := Option.some.inj hd
  exact h

/-- The end of `playLoaded`, whose calls are not behind a check. -/
theorem playEnd_presentAt (s : Esplayer) :
    PresentAt (logIfNonzero (perform env (.setState .videoScheduler .executing)) >>= fun _ =>
      logIfNonzero (perform env (.setState .audioCodec .executing)) >>= fun _ =>
        sendAudioDecoderConfig env >>= fun _ => pure resultSuccess) s ↔
      (s.component .videoScheduler).isSome = true ∧ (s.component .audioCodec).isSome = true := by
  have hnext := (@keeps_built_perform env (.setState .videoScheduler .executing) rfl).run s
  have hlast := (@keeps_built_perform env (.setState .audioCodec .executing) rfl).run
    ((perform env (.setState .videoScheduler .executing)).run s).2
  rw [presentAt_log env rfl (by decide), presentAt_log env rfl (by decide),
    sendAudioDecoderConfig, presentAt_log env rfl (by decide), held_eq_of_built hnext,
    held_eq_of_built (hlast.trans hnext)]
  exact ⟨fun h => ⟨h.1, h.2.1⟩, fun h => ⟨h.1, h.2, h.2, by simp [PresentAt]⟩⟩

theorem sendVideoDecoderConfig_presentAt (s : Esplayer) :
    PresentAt (sendVideoDecoderConfig env) s ↔ (s.component .videoCodec).isSome = true := by
  unfold sendVideoDecoderConfig
  rw [presentAt_skip (guarded_read _), run_read, presentAt_logIfNonzero, presentAt_perform]
  refine ⟨fun h => h _ rfl (by decide), fun h c hc _ => ?_⟩
  cases hc
  exact h

/-- The calls of `play` on the scheduler and the audio codec are not behind a check. -/
theorem playLoaded_presentAt (s : Esplayer) :
    PresentAt (playLoaded env) s ↔ (env (.setPlaybackRate s.targetPlaybackRate) = 0 →
      (s.md.extradata.length ≠ 0 → (s.component .videoCodec).isSome = true) ∧
        (s.component .videoScheduler).isSome = true ∧
          (s.component .audioCodec).isSome = true) := by
  have hrate : Guarded (perform env (.setPlaybackRate s.targetPlaybackRate)) :=
    guarded_perform env fun c hc => by cases hc; rfl
  have hexecute : Guarded (logIfNonzero
      (performIfHeld env .videoCodec (.setState .videoCodec .executing))) :=
    safe_logIfNonzero (guarded_performIfHeld env _ rfl)
  unfold playLoaded
  rw [presentAt_skip (guarded_read _), run_read, presentAt_breakIfNonzero,
    and_iff_right (presentAt_of_guarded hrate s)]
  refine imp_congr_right fun _ => ?_
  -- the calls before the extradata change neither the components nor the metadata
  have hmd : Untouched Esplayer.md := ⟨fun _ _ => rfl, fun _ _ => rfl, fun _ _ => rfl⟩
  have hkeep : ∀ call : Call, call.creates = false →
      (perform env call).Keeps fun s => (s.built, s.md) := fun call hcall =>
    ⟨fun t => Prod.mk.injEq .. ▸ ⟨built_performAction env hcall t, (hmd.perform env call).1 t⟩,
      fun _ => trivial⟩
  have hlog : (logIfNonzero
      (performIfHeld env .videoCodec (.setState .videoCodec .executing))).Keeps
        fun s => (s.built, s.md) :=
    does_logIfNonzero (Keeps.bind (keeps_read _ _) fun _ => Keeps.ite
      (hkeep (.setState .videoCodec .executing) rfl) (keeps_pure _ _))
  have hsame := (hlog.run _).trans ((hkeep (.setPlaybackRate s.targetPlaybackRate) rfl).run s)
  rw [presentAt_skip hexecute, presentAt_skip (guarded_read _), run_read]
  generalize ((logIfNonzero _).run _).2 = t at hsame
  obtain ⟨hbuilt, hmd⟩ := Prod.mk.inj hsame
  rw [hmd, onlyIf]
  by_cases hsize : s.md.extradata.length ≠ 0
  · have hsent : (sendVideoDecoderConfig env).Keeps Esplayer.built :=
      Keeps.bind (keeps_read _ _) fun _ => keeps_built_log env rfl
    have hsentEnd := playEnd_presentAt env ((sendVideoDecoderConfig env).run t).2
    rw [held_eq_of_built ((hsent.run t).trans hbuilt),
      held_eq_of_built ((hsent.run t).trans hbuilt)] at hsentEnd
    rw [if_pos hsize, forall_prop_of_true hsize, presentAt_bind,
      sendVideoDecoderConfig_presentAt, held_eq_of_built hbuilt, hsentEnd]
  · rw [if_neg hsize]
    have hend := playEnd_presentAt env t
    rw [held_eq_of_built hbuilt, held_eq_of_built hbuilt] at hend
    exact hend.trans ⟨fun h => ⟨fun hne => absurd hne hsize, h⟩, fun h => h.2⟩

/-- `play` calls through a null pointer only from `NDL_ESP_STATUS_LOADED`. -/
theorem play_presentAt (s : Esplayer) :
    PresentAt (play env) s ↔ (s.status = .loaded → PresentAt (playLoaded env)
      { s with syncState := .allowVideo, lastPts := Function.update s.lastPts .audioEs 0 }) := by
  -- from `NDL_ESP_STATUS_PAUSED` there is a call on the clock, and others behind checks
  have hpaused : Guarded (playPaused env) :=
    Safe.bind (guarded_read _) fun _ => safe_breakIfNonzero
      (guarded_perform env fun c hc => by cases hc; rfl)
      (safe_breakIfNonzero (safeCalls_guarded.changeStates env _ _) (safe_pure _))
  have hbody : ∀ t : Esplayer, PresentAt (playBody env) t ↔
      (t.status = .loaded → PresentAt (playLoaded env) t) := by
    intro t
    unfold playBody
    rw [presentAt_skip (guarded_read _), run_read]
    by_cases hloaded : t.status = .loaded
    · rw [if_pos hloaded, forall_prop_of_true hloaded]
    · rw [if_neg hloaded]
      refine iff_of_true (presentAt_of_guarded ?_ t) fun h => absurd h hloaded
      exact Safe.bind (guarded_read _) fun _ => Safe.ite hpaused (safe_pure _)
  -- what follows the body calls through no pointer
  have hadmitted : PresentAt (playAdmitted env) s ↔ PresentAt (playBody env)
      (if s.status ≠ .paused then
        { s with syncState := .allowVideo, lastPts := Function.update s.lastPts .audioEs 0 }
      else { s with syncState := .allowVideo }) := by
    unfold playAdmitted
    rw [presentAt_skip (guarded_write _), run_write, presentAt_skip (guarded_read _), run_read,
      presentAt_skip (Safe.onlyIf (guarded_write _)), run_onlyIf, presentAt_before fun _ =>
        Safe.bind (safeCalls_guarded.transit _) fun _ =>
          Safe.bind (guarded_setRunningStates _) fun _ => safe_pure _]
    split
    · rfl
    · rfl
  unfold play
  rw [presentAt_skip (guarded_canTransit _), run_canTransit]
  by_cases hloaded : s.status = .loaded
  · have hcan : s.status.canTransit .playing = true := by rw [hloaded]; rfl
    rw [if_pos hcan, hadmitted, hbody, if_pos (by rw [hloaded]; decide)]
  · refine iff_of_true ?_ fun h => absurd h hloaded
    split
    · rw [hadmitted, hbody]
      split
      · exact fun h => absurd h hloaded
      · exact fun h => absurd h hloaded
    · exact presentAt_of_guarded (safe_pure _) s

end Play

/-! ## Feeding -/

section Feeding

attribute [local irreducible] StreamBuffer.dataLen

variable {α : Type}

/-- A number read through a pointer, and what follows. -/
theorem presentAt_query {c : ComponentName} {g : Component → Nat} (hne : c ≠ .clock)
    {k : Nat → Op α} {s : Esplayer} :
    PresentAt (query c g >>= k) s ↔
      (s.component c).isSome = true ∧ PresentAt (k ((s.component c).elim 0 g)) s := by
  rw [presentAt_bind]
  refine and_congr_left' ⟨fun h => ?_, fun h e he => ?_⟩
  · exact present_use.mp (h (.use c _) List.mem_cons_self) hne
  · obtain rfl := List.mem_singleton.mp he
    exact present_use.mpr fun _ => h

theorem presentAt_getBufQueue {i : StreamType} {k : Option Frame → Op α} {s : Esplayer} :
    PresentAt (getBufQueue i >>= k) s ↔ PresentAt (k (s.frames i).head?) s := by
  rw [presentAt_bind]
  refine and_iff_right fun e he => ?_
  obtain ⟨f, -, rfl⟩ : ∃ f, (s.frames i).head? = some f ∧ .got i f = e := by
    simpa [getBufQueue, getAction, trace] using he
  exact present_of_notUse rfl

/-- `setOmxFlags` counts the used buffers of both codecs. -/
theorem setOmxFlags_presentAt (f : Frame) (pts : Int) (flags : BitVec 32) (s : Esplayer) :
    PresentAt (setOmxFlags f pts flags) s ↔
      (s.component .videoCodec).isSome = true ∧ (s.component .audioCodec).isSome = true := by
  unfold setOmxFlags getUsedBufferCount
  rw [presentAt_query (by decide), presentAt_query (by decide)]
  refine and_congr_right fun _ => and_iff_left ?_
  -- what follows works on the player itself
  refine presentAt_bind.mpr ⟨fun e he => ?_, ?_⟩
  · obtain rfl := List.mem_singleton.mp he
    exact present_of_notUse rfl
  · generalize (Prog.run _ _).1 = d
    obtain ⟨flags, notify⟩ := d
    cases notify with
    | some high =>
        refine presentAt_bind.mpr ⟨fun e he => ?_, presentAt_of_guarded (safe_pure _) _⟩
        obtain rfl := List.mem_singleton.mp he
        exact present_of_notUse rfl
    | none => exact presentAt_of_guarded (safe_pure _) _

variable {i : StreamType}

/-- While the codec of the stream is there, an action outside `setOmxFlags` calls through no null
pointer and leaves it there. -/
def UsesCodec (i : StreamType) : Action → Prop := fun f => ∀ s : Esplayer,
  (s.component i.codec).isSome = true →
    (∀ e ∈ (f s).1, e.Present) ∧ ((f s).2.component i.codec).isSome = true

theorem ofFeed_usesCodec (i : StreamType) : OfFeed i (UsesCodec i) where
  read _ hs := ⟨by simp, hs⟩
  use s hs := by
    refine ⟨fun e he => ?_, hs⟩
    obtain rfl := Option.some.inj he
    exact present_use.mpr fun _ => hs
  get s hs := by
    refine ⟨fun e he => ?_, hs⟩
    obtain ⟨f, -, rfl⟩ := Option.map_eq_some_iff.mp he
    exact present_of_notUse rfl
  pop s hs := ⟨fun e he => by obtain rfl := Option.some.inj he; exact present_of_notUse rfl, hs⟩
  adjust _ s hs :=
    ⟨fun e he => by obtain rfl := Option.some.inj he; exact present_of_notUse rfl, hs⟩
  write f data pts flags accept s hs := by
    refine ⟨fun e he => ?_, ?_⟩
    · obtain rfl := Option.some.inj he
      exact present_of_notUse rfl
    · exact (onComponent_held s i.codec i.codec _).trans hs
  cleared s hs := ⟨fun e he => by obtain rfl := Option.some.inj he; exact present_of_notUse rfl, hs⟩
  fed _ s hs := ⟨fun e he => by obtain rfl := Option.some.inj he; exact present_of_notUse rfl, hs⟩

theorem presentAt_of_usesCodec {α : Type} {p : Op α} (h : p.Does (UsesCodec i)) {s : Esplayer}
    (hs : (s.component i.codec).isSome = true) : PresentAt p s :=
  (Does.safe h s hs).1

/-- The frame is one whose flags the handler of the stream sets with `setOmxFlags`. -/
def Frame.HasPayload (f : Frame) : StreamType → Prop
  | .videoEs => 0 < f.data.length
  | .audioEs => 0 < f.dataLen

/-- The handler of the stream would get to `setOmxFlags`: there is a codec with a free buffer and a
frame with a payload. -/
def Esplayer.FlagsFrame (s : Esplayer) (i : StreamType) : Prop :=
  (s.component i.codec).isSome = true ∧ (s.input i.codec).getFreeBufferCount ≠ 0 ∧
    ∃ f, (s.frames i).head? = some f ∧ f.HasPayload i

theorem keeps_setOmxFlags (f : Frame) (pts : Int) (flags : BitVec 32) :
    (setOmxFlags f pts flags).Keeps Esplayer.component := by
  have hquery : ∀ c g, (query c g).Keeps Esplayer.component := fun _ _ =>
    ⟨fun _ => rfl, fun _ => trivial⟩
  refine Keeps.bind (hquery _ _) fun used => Keeps.bind (hquery _ _) fun _ => ?_
  refine Keeps.bind ⟨fun _ => rfl, fun _ => trivial⟩ fun d => ?_
  obtain ⟨flags, notify⟩ := d
  cases notify with
  | some high => exact Keeps.bind ⟨fun _ => rfl, fun _ => trivial⟩ fun _ => keeps_pure _ _
  | none => exact keeps_pure _ _

/-- Setting the flags of a frame, and what follows. -/
theorem setOmxFlags_bind_presentAt {f : Frame} {pts : Int} {flags : BitVec 32}
    {p : BitVec 32 → Op Int} (hp : ∀ flags, (p flags).Does (UsesCodec i)) {s : Esplayer}
    (hs : (s.component i.codec).isSome = true) :
    PresentAt (setOmxFlags f pts flags >>= p) s ↔
      (s.component .videoCodec).isSome = true ∧ (s.component .audioCodec).isSome = true := by
  rw [presentAt_bind, setOmxFlags_presentAt]
  refine and_iff_left (presentAt_of_usesCodec (hp _) ?_)
  rwa [(keeps_setOmxFlags f pts flags).run s]

theorem feedVideoFrame_presentAt (env : FeedEnv) (f : Frame) {s : Esplayer}
    (hs : (s.component .videoCodec).isSome = true) :
    PresentAt (feedVideoFrame env f) s ↔ (f.HasPayload .videoEs →
      (s.component .videoCodec).isSome = true ∧ (s.component .audioCodec).isSome = true) := by
  have hfeed := ofFeed_usesCodec .videoEs
  by_cases hpayload : f.HasPayload .videoEs
  · have hlen : 0 < f.data.length := hpayload
    rw [forall_prop_of_true hpayload]
    unfold feedVideoFrame videoFlags
    rw [presentAt_bind, and_iff_right (presentAt_of_usesCodec (hfeed.adjustFrame f) hs),
      if_pos hlen]
    refine setOmxFlags_bind_presentAt (i := .videoEs) (fun flags => ?_) hs
    refine Does.bind (hfeed.writeVideo env f _ flags) fun written => ?_
    cases written with
    | some writtenLen => exact Does.bind hfeed.popBufQueue fun _ => does_pure _
    | none => exact does_pure _
  · refine iff_of_true ?_ fun h => absurd h hpayload
    have hflags : ∀ pts, (videoFlags f pts).Does (UsesCodec .videoEs) := fun pts =>
      Does.ite (fun h => absurd h hpayload) fun _ => does_pure _
    exact presentAt_of_usesCodec (hfeed.feedVideoFrame env hflags) hs

theorem feedAudioFrame_presentAt (env : FeedEnv) (f : Frame) {s : Esplayer}
    (hs : (s.component .audioCodec).isSome = true) :
    PresentAt (feedAudioFrame env f) s ↔ (f.HasPayload .audioEs →
      (s.component .videoCodec).isSome = true ∧ (s.component .audioCodec).isSome = true) := by
  have hfeed := ofFeed_usesCodec .audioEs
  by_cases hpayload : f.HasPayload .audioEs
  · have hlen : f.dataLen > 0 := hpayload
    have hadjust : (adjustFrame f).Keeps Esplayer.component := ⟨fun _ => rfl, fun _ => trivial⟩
    have hpts : (audioPts f).Keeps Esplayer.component :=
      Keeps.bind (keeps_read _ _) fun _ => Keeps.ite hadjust (keeps_pure _ _)
    have hkeep := hpts.run s
    rw [forall_prop_of_true hpayload]
    unfold feedAudioFrame
    rw [presentAt_bind, and_iff_right (presentAt_of_usesCodec (hfeed.audioPts f) hs), if_pos hlen,
      ← hkeep]
    refine setOmxFlags_bind_presentAt (i := .audioEs) (fun flags => ?_) (by rwa [hkeep])
    exact Does.bind (does_read _ hfeed.read) fun _ => hfeed.writeAudio env f _ _ _ _
  · refine iff_of_true ?_ fun h => absurd h hpayload
    exact presentAt_of_usesCodec (hfeed.feedAudioFrame env fun h => absurd h hpayload) hs

theorem flagsFrame_iff {s : Esplayer} {f : Frame} (hs : (s.component i.codec).isSome = true)
    (hfree : (s.input i.codec).getFreeBufferCount ≠ 0) (hf : (s.frames i).head? = some f) :
    s.FlagsFrame i ↔ f.HasPayload i := by
  constructor
  · rintro ⟨-, -, g, hg, hpayload⟩
    obtain rfl := Option.some.inj (hf.symm.trans hg)
    exact hpayload
  · exact fun hpayload => ⟨hs, hfree, f, hf, hpayload⟩

theorem flagsFrame_of_empty {s : Esplayer} (hf : (s.frames i).head? = none) :
    ¬ s.FlagsFrame i := by
  rintro ⟨-, -, f, hsome, -⟩
  rw [hf] at hsome
  cases hsome

theorem presentAt_lockUnlessPlaying {k : Unit → Op α} {s : Esplayer} :
    PresentAt (lockUnlessPlaying >>= k) s ↔ PresentAt (k ()) s := by
  have hlock : Guarded lockUnlessPlaying :=
    Safe.bind (guarded_read _) fun _ => Safe.onlyIf fun _ _ => ⟨by simp, trivial⟩
  have hsame : (lockUnlessPlaying.run s).2 = s := by
    unfold lockUnlessPlaying
    rw [run_bind, run_read, run_onlyIf]
    split
    · rfl
    · rfl
  rw [presentAt_skip hlock, hsame]

/-- Without the codec the queue is cleared. -/
theorem guarded_clear (j : StreamType) : Guarded (clearBufQueue j >>= fun _ => pure 0 : Op Int) :=
  Safe.bind (safe_emit (fun _ _ => present_of_notUse rfl) fun _ _ => trivial) fun _ => safe_pure _

theorem feedAudioData_presentAt (env : FeedEnv) (s : Esplayer) :
    PresentAt (feedAudioData env) s ↔ (s.FlagsFrame .audioEs →
      (s.component .videoCodec).isSome = true ∧ (s.component .audioCodec).isSome = true) := by
  unfold feedAudioData getFreeBufferCount
  rw [presentAt_lockUnlessPlaying, presentAt_skip (guarded_read _), run_read]
  by_cases hs : (s.component .audioCodec).isSome = true
  case neg =>
    rw [if_neg hs]
    exact iff_of_true (presentAt_of_guarded (guarded_clear _) s) fun h => absurd h.1 hs
  rw [if_pos hs, presentAt_query (by decide), and_iff_right hs, Esplayer.free_eq]
  by_cases hfree : (s.input .audioCodec).getFreeBufferCount = 0
  case pos =>
    rw [if_pos hfree]
    exact iff_of_true (presentAt_of_guarded (safe_pure _) s) fun h => absurd hfree h.2.1
  rw [if_neg hfree, presentAt_getBufQueue]
  cases hf : (s.frames .audioEs).head? with
  | some f =>
      rw [flagsFrame_iff hs hfree hf]
      exact feedAudioFrame_presentAt env f hs
  | none =>
      exact iff_of_true (presentAt_of_guarded (safe_pure _) s) fun h =>
        absurd h (flagsFrame_of_empty hf)

theorem feedVideoData_presentAt (env : FeedEnv) (s : Esplayer) :
    PresentAt (feedVideoData env) s ↔ (s.FlagsFrame .videoEs →
      (s.component .videoCodec).isSome = true ∧ (s.component .audioCodec).isSome = true) := by
  unfold feedVideoData getUsedBufferCount getFreeBufferCount
  rw [presentAt_lockUnlessPlaying, presentAt_skip (guarded_read _), run_read]
  by_cases hs : (s.component .videoCodec).isSome = true
  case neg =>
    rw [if_neg hs]
    exact iff_of_true (presentAt_of_guarded (guarded_clear _) s) fun h => absurd h.1 hs
  rw [if_pos hs, presentAt_getBufQueue]
  cases hf : (s.frames .videoEs).head? with
  | some f =>
      show PresentAt (query _ _ >>= fun _ => query _ _ >>= _) s ↔ _
      rw [presentAt_query (by decide), and_iff_right hs, presentAt_query (by decide),
        and_iff_right hs, Esplayer.free_eq]
      by_cases hfree : (s.input .videoCodec).getFreeBufferCount = 0
      case pos =>
        rw [if_pos hfree]
        exact iff_of_true (presentAt_of_guarded (safe_pure _) s) fun h => absurd hfree h.2.1
      rw [if_neg hfree, flagsFrame_iff hs hfree hf]
      exact feedVideoFrame_presentAt env f hs
  | none =>
      exact iff_of_true (presentAt_of_guarded (safe_pure _) s) fun h =>
        absurd h (flagsFrame_of_empty hf)

/-- An attempt to feed a frame calls through a null pointer if it gets to `setOmxFlags` without one
of the codecs. -/
theorem feedStream_presentAt (env : FeedEnv) (i : StreamType) (s : Esplayer) :
    PresentAt (feedStream env i) s ↔ (s.FlagsFrame i →
      (s.component .videoCodec).isSome = true ∧ (s.component .audioCodec).isSome = true) := by
  cases i with
  | audioEs => exact feedAudioData_presentAt env s
  | videoEs => exact feedVideoData_presentAt env s

end Feeding

/-! ## Runs -/

/-- The metadata enables the stream `i` and not the other one. -/
def MetaData.Only (metaData : MetaData) : StreamType → Prop
  | .videoEs => metaData.videoCodec ≠ .none ∧ metaData.audioCodec = .none
  | .audioEs => metaData.videoCodec = .none ∧ metaData.audioCodec ≠ .none

/-- The step is an operation other than `load`, or works on the stream `i`. -/
def FlowAct.OfStream (i : StreamType) : FlowAct → Prop
  | .call a _ => a.isLoad = false
  | .feedData buff => ∀ b ∈ buff, b.streamType = i
  | .attempt j _ | .emptyBufferDone j _ => j = i
  | .portSettingChanged _ => False

/-- The step calls through no null pointer. -/
def TouchesPresent (s : Session) (a : FlowAct) : Prop := PresentAt a.prog s.player

/-- The step neither plays the player from `NDL_ESP_STATUS_LOADED`, with a rate that the clock
takes, nor sets the flags of a frame. -/
def Spared (s : Session) : FlowAct → Prop
  | .call .play env => ¬ (s.player.status = .loaded ∧
      env (.setPlaybackRate s.player.targetPlaybackRate) = 0)
  | .attempt i _ => ¬ s.player.FlagsFrame i
  | _ => True

/-- There are components for the stream `i` only. -/
def Esplayer.Single (i : StreamType) (s : Esplayer) : Prop :=
  ∀ c, c.builtFor (decide (i = .audioEs)) (decide (i = .videoEs)) = false → s.held c = false

section Single

variable {i : StreamType} {s : Esplayer}

theorem Esplayer.Single.congr {t : Esplayer} (h : s.Single i) (ht : t.held = s.held) :
    t.Single i :=
  fun c hc => (congrFun ht c).trans (h c hc)

theorem NoComponents.single (h : NoComponents s) : s.Single i := by
  intro c _
  simp [Esplayer.held, h c]

/-- With a single stream there is only one codec. -/
theorem Esplayer.Single.codec (h : s.Single i) :
    ¬ ((s.component .videoCodec).isSome = true ∧ (s.component .audioCodec).isSome = true) := by
  rintro ⟨hvideo, haudio⟩
  cases i with
  | audioEs => exact absurd ((h .videoCodec rfl).symm.trans hvideo) (by decide)
  | videoEs => exact absurd ((h .audioCodec rfl).symm.trans haudio) (by decide)

theorem Esplayer.Single.scheduler (h : s.Single i) :
    ¬ ((s.component .videoScheduler).isSome = true ∧ (s.component .audioCodec).isSome = true) := by
  rintro ⟨hvideo, haudio⟩
  cases i with
  | audioEs => exact absurd ((h .videoScheduler rfl).symm.trans hvideo) (by decide)
  | videoEs => exact absurd ((h .audioCodec rfl).symm.trans haudio) (by decide)

theorem guarded_setPlaybackRate (env : Env) (rate : Int) : Guarded (setPlaybackRate env rate) := by
  refine Safe.ite (safe_pure _) (Safe.bind (guarded_write _) fun _ => ?_)
  refine Safe.bind (guarded_read _) fun _ => Safe.bind (guarded_read _) fun _ => ?_
  refine Safe.bind (Safe.onlyIf (safe_logIfNonzero ?_)) fun _ => safe_pure _
  exact guarded_perform env fun c hc => by cases hc; rfl

theorem guarded_feedData (buff : Option StreamBuffer) : Guarded (feedData buff) := by
  refine guarded_hidden (does_feedData (fun _ => by simp) (fun s e he => ?_) fun b _ => ⟨?_, ?_⟩)
  · obtain rfl := Option.some.inj he
    rfl
  · intro s e he
    obtain rfl := Option.some.inj he
    rfl
  · intro s e he
    obtain rfl := Option.some.inj he
    rfl

/-- What a step does to a player with a single stream. -/
theorem touchesPresent_iff {x : Session} (hx : x.player.Single i) {a : FlowAct}
    (ha : a.OfStream i) : TouchesPresent x a ↔ Spared x a := by
  have hguarded : Guarded a.prog → (TouchesPresent x a ↔ True) := fun h =>
    iff_true_intro (presentAt_of_guarded h x.player)
  cases a with
  | call a env =>
      cases a with
      | load metaData units => cases ha
      | unload => exact hguarded (guarded_unload env)
      | play =>
          show PresentAt (play env) x.player ↔ _
          rw [play_presentAt, playLoaded_presentAt]
          constructor
          · rintro h ⟨hloaded, hrate⟩
            exact hx.scheduler (h hloaded hrate).2
          · exact fun h hloaded hrate => absurd ⟨hloaded, hrate⟩ h
      | pause => exact hguarded (guarded_pause env)
      | flush => exact hguarded (guarded_flush env)
      | stepFrame => exact hguarded (guarded_stepFrame env)
      | setPlaybackRate rate => exact hguarded (guarded_setPlaybackRate env rate)
  | feedData buff => exact hguarded (guarded_feedData buff)
  | attempt j env =>
      have hmessage : PresentAt (feedMessage env j) x.player ↔
          PresentAt (feedStream env j) x.player := by
        refine presentAt_before fun n => Safe.bind ?_ fun _ => safe_pure _
        exact safe_emit (fun _ _ => present_of_notUse rfl) fun _ _ => trivial
      show PresentAt (feedMessage env j) x.player ↔ _
      rw [hmessage, feedStream_presentAt]
      exact ⟨fun h hflags => hx.codec (h hflags), fun h hflags => absurd hflags h⟩
  | emptyBufferDone j index =>
      exact hguarded (Safe.bind (guarded_write _) fun _ => safe_pure _)
  | portSettingChanged env => cases ha

theorem keeps_held_feeding {j : StreamType} : OfFeed j fun f => ∀ s, (f s).2.held = s.held where
  read _ := rfl
  use _ := rfl
  get _ := rfl
  pop _ := rfl
  adjust _ _ := rfl
  write _ _ _ _ _ s := funext fun c => onComponent_held s _ c _
  cleared _ := rfl
  fed _ _ := rfl

/-- No step but a load adds components. -/
theorem single_flow {x y : Session} {a : FlowAct} (ha : a.OfStream i) (hx : x.player.Single i)
    (h : x.flow a = some y) : y.player.Single i := by
  obtain rfl := Option.some.inj h
  cases a with
  | call a env =>
      by_cases hunload : a = .unload
      · subst hunload
        show ((unload env).run x.player).2.Single i
        rw [run_unload]
        split
        case isFalse => exact hx
        case isTrue =>
          by_cases hloaded : x.player.loaded = true
          · exact NoComponents.single (unloaded_unloadStep env hloaded).component
          · rwa [unloadStep_notLoaded env (by simpa using hloaded)]
      · exact hx.congr (congrArg Prod.snd (api_built env ha hunload x.player))
  | feedData buff =>
      have hkeep : (feedData buff).Keeps Esplayer.held :=
        does_feedData (fun _ => rfl) (fun _ => rfl) fun _ _ => ⟨fun _ => rfl, fun _ => rfl⟩
      exact hx.congr (hkeep.run x.player)
  | attempt j env =>
      have hflags : ∀ f pts flags, (setOmxFlags f pts flags).Keeps Esplayer.held :=
        fun f pts flags => (keeps_setOmxFlags f pts flags).mono fun _ hf s => by
          unfold Esplayer.held
          rw [hf s]
      have hkeep : (feedMessage env j).Keeps Esplayer.held :=
        keeps_held_feeding.feedMessage env hflags
      exact hx.congr (hkeep.run x.player)
  | emptyBufferDone j index =>
      have hkeep : (returnBuffer j index).Keeps Esplayer.held :=
        Keeps.bind (keeps_write fun s => funext fun c => onComponent_held s _ c _) fun _ =>
          keeps_pure _ _
      exact hx.congr (hkeep.run x.player)
  | portSettingChanged env => cases ha

/-- A load with a single stream creates the components of that stream. -/
theorem single_load {env : Env} {metaData : MetaData} (honly : metaData.Only i)
    (hnone : NoComponents s) (hloaded : s.loaded = false) (units : Option PtsUnits)
    (hret : (((ApiCall.load metaData units).prog env).run s).1 = resultSuccess) :
    (((ApiCall.load metaData units).prog env).run s).2.Single i := by
  rw [ApiCall.prog, run_bind, run_pure, run_loadCall] at hret ⊢
  have hidle : (s.withUnits units).status = .idle := by
    rcases load_cases env metaData (s.withUnits units) with ⟨h, -⟩ | ⟨-, -, h⟩ | ⟨-, h, -⟩
    · rw [withUnits_loaded, hloaded] at h
      cases h
    · rw [h] at hret
      exact absurd hret (show resultFail ≠ resultSuccess by decide)
    · exact h
  -- the load gets past its checks, so it builds the components of the enabled streams
  have hbuilt := load_built env metaData (by rwa [withUnits_loaded]) hidle
    (fun c => by rw [withUnits_component]; exact hnone c) hret
  intro c hc
  rw [show ((load env metaData).run (s.withUnits units)).2.held = _ from congrArg Prod.snd hbuilt]
  cases i with
  | audioEs =>
      obtain ⟨hvideo, haudio⟩ := honly
      simpa [hvideo, haudio] using hc
  | videoEs =>
      obtain ⟨hvideo, haudio⟩ := honly
      simpa [hvideo, haudio] using hc

end Single

/-- **A single stream.** In a run that begins with a load of a single stream that succeeds, and goes
on with feeding that stream and any operations but further loads, no step calls through a null
pointer exactly if no step plays the player from `NDL_ESP_STATUS_LOADED` with a rate the clock takes
or sets the flags of a frame. -/
theorem presentOnly_iff {i : StreamType} {metaData : MetaData} (honly : metaData.Only i)
    {x : Session} (hnone : NoComponents x.player) (hloaded : x.player.loaded = false)
    (units : Option PtsUnits) {env : Env}
    (hret : (((ApiCall.load metaData units).prog env).run x.player).1 = resultSuccess)
    {acts : List FlowAct} (hacts : ∀ a ∈ acts, a.OfStream i) :
    Lts.Along Session.flow TouchesPresent x (.call (.load metaData units) env :: acts) ↔
      Lts.Along Session.flow Spared x (.call (.load metaData units) env :: acts) := by
  have hload : TouchesPresent x (.call (.load metaData units) env) := by
    refine presentAt_of_guarded (Safe.bind ?_ fun _ => safe_pure _) x.player
    cases units with
    | none => exact guarded_load env metaData
    | some units => exact Safe.bind (guarded_write _) fun _ => guarded_load env metaData
  -- after the load the invariant is that there is a single stream
  have hsingle : ∀ y, x.flow (.call (.load metaData units) env) = some y → y.player.Single i := by
    rintro y hy
    obtain rfl := Option.some.inj hy
    exact single_load honly hnone hloaded units hret
  have hrest : ∀ y : Session, y.player.Single i →
      (Lts.Along Session.flow TouchesPresent y acts ↔ Lts.Along Session.flow Spared y acts) := by
    intro y hy
    refine Lts.Along.congr (I := fun y => y.player.Single i) (L := FlowAct.OfStream i) ?_ ?_ hacts
      hy
    · exact fun y a ha hy => touchesPresent_iff hy ha
    · exact fun y a z ha _ hy h => single_flow ha hy h
  exact ⟨fun h => ⟨trivial, fun y hy => (hrest y (hsingle y hy)).mp (h.2 y hy)⟩,
    fun h => ⟨hload, fun y hy => (hrest y (hsingle y hy)).mpr (h.2 y hy)⟩⟩

/-- Audio alone, loaded, paused before it has started to play, and unloaded. -/
theorem presentOnly_iff_unplayed :
    Lts.Along Session.flow TouchesPresent {}
        [.call (.load { audioCodec := .pcm44100 } none) fun _ => 0, .call .pause fun _ => 0,
          .call .unload fun _ => 0] ↔
      Lts.Along Session.flow Spared {}
        [.call (.load { audioCodec := .pcm44100 } none) fun _ => 0, .call .pause fun _ => 0,
          .call .unload fun _ => 0] := by
  refine presentOnly_iff (i := .audioEs) ⟨rfl, by decide⟩ (fun _ => rfl) rfl none rfl ?_
  simp [FlowAct.OfStream, ApiCall.isLoad]

/-- Audio alone is loaded. -/
def audioLoaded : List FlowAct := [.call (.load { audioCodec := .pcm44100 } none) fun _ => 0]

theorem audioLoaded_single : ∃ y, Lts.exec Session.flow {} audioLoaded = some y ∧
    y.player.status = .loaded ∧ y.player.Single .audioEs := by
  refine ⟨_, rfl, rfl, ?_⟩
  exact @single_load .audioEs _ _ { audioCodec := .pcm44100 } ⟨rfl, by decide⟩ (fun _ => rfl) rfl
    none rfl

/-- `play` then sets the state of the video scheduler, which is not there. -/
theorem presentOnly_fails :
    (((ApiCall.load { audioCodec := .pcm44100 } none).prog fun _ => 0).run {}).1 = resultSuccess ∧
      ¬ Lts.Along Session.flow TouchesPresent {} (audioLoaded ++ [.call .play fun _ => 0]) := by
  refine ⟨rfl, fun h => ?_⟩
  obtain ⟨y, hy, hstatus, hsingle⟩ := audioLoaded_single
  have hspared := (touchesPresent_iff hsingle (show FlowAct.OfStream _ (.call .play _) from rfl)).mp
    (h.last hy)
  exact hspared ⟨hstatus, rfl⟩

end DirectMedia
