import DirectMedia.Player.Operations

set_option autoImplicit false

/-! # What the shared functions do to the components

`changeComponentsState` changes nothing but OMX states: it succeeds exactly if every component
that is held accepts its command, and then all of them are in the state asked for.
`setComponentsFlush` never fails. A part of the player that no call can touch is kept by every
operation (`Untouched`).
-/

namespace DirectMedia

open Prog

@[simp] theorem onComponent_held (s : Esplayer) (c d : ComponentName)
    (f : Component → Component) :
    ((s.onComponent c f).component d).isSome = (s.component d).isSome := by
  by_cases h : d = c
  · subst h; simp [Esplayer.onComponent]
  · simp [Esplayer.onComponent, Function.update_of_ne h]

/-- A change that keeps the size of the buffers. -/
theorem onComponent_size (s : Esplayer) (c d : ComponentName) {g : Component → Component}
    (hg : ∀ comp, (g comp).inputBufferSize = comp.inputBufferSize) :
    ((s.onComponent c g).component d).elim 0 (·.inputBufferSize) =
      (s.component d).elim 0 (·.inputBufferSize) := by
  by_cases h : d = c
  · subst h
    cases hd : s.component d <;> simp [Esplayer.onComponent, hd, hg]
  · simp [Esplayer.onComponent, Function.update_of_ne h]

theorem configured_held (s : Esplayer) (c size d : ComponentName) :
    ((s.configured c size).component d).isSome = (s.component d).isSome := by
  unfold Esplayer.configured
  split
  · exact onComponent_held s c d _
  · rfl

/-- No call but a creation changes which components there are. -/
theorem performAction_held (env : Env) {call : Call} (hcall : call.creates = false) (s : Esplayer)
    (d : ComponentName) :
    ((performAction env call s).2.component d).isSome = (s.component d).isSome := by
  unfold performAction Call.effect Call.failure
  cases call
  case create c => cases hcall
  all_goals
    simp only
    split
    · simp [configured_held]
    · simp [configured_held]

/-- No component is held. -/
def NoComponents (s : Esplayer) : Prop := ∀ c, s.component c = none

/-! ## Parts of the player that calls keep -/

/-- No call of the environment, and no change of a component, touches the part `π`. -/
structure Untouched {β : Type} (π : Esplayer → β) : Prop where
  component : ∀ s g, π { s with component := g } = π s
  resources : ∀ s b, π { s with resources := b } = π s
  scale : ∀ s r, π { s with scale := r } = π s

section Untouched

variable {α β : Type} {π : Esplayer → β}

theorem Untouched.configured (h : Untouched π) (s : Esplayer) (c size : ComponentName) :
    π (s.configured c size) = π s := by
  unfold Esplayer.configured
  split
  · exact h.component s _
  · rfl

theorem Untouched.effect (h : Untouched π) (call : Call) (s : Esplayer) :
    π (call.effect s) = π s := by
  unfold Call.effect
  split
  · exact h.resources s _
  · exact h.resources s _
  · exact h.component s _
  · exact h.component s _
  · exact h.configured s _ _
  · exact h.component s _
  · exact h.component s _
  · exact h.component s _
  · exact h.scale s _
  · rfl

theorem Untouched.failure (h : Untouched π) (call : Call) (s : Esplayer) :
    π (call.failure s) = π s := by
  unfold Call.failure
  split
  · exact h.configured s _ _
  · rfl

theorem Untouched.perform (h : Untouched π) (env : Env) (call : Call) :
    (perform env call).Keeps π := by
  refine ⟨fun s => ?_, fun _ => trivial⟩
  simp only [performAction]
  split
  · exact h.effect call s
  · exact h.failure call s

end Untouched

theorem untouched_status : Untouched Esplayer.status :=
  ⟨fun _ _ => rfl, fun _ _ => rfl, fun _ _ => rfl⟩

theorem untouched_loaded : Untouched Esplayer.loaded :=
  ⟨fun _ _ => rfl, fun _ _ => rfl, fun _ _ => rfl⟩

/-! ## What the calls of an operation have in common -/

/-- The call neither creates a component nor sets the rate of the clock. -/
def Call.plain : Call → Bool
  | .create _ | .setPlaybackRate _ => false
  | _ => true

theorem Call.creates_of_plain {call : Call} (h : call.plain = true) : call.creates = false := by
  cases call with
  | create c => cases h
  | _ => rfl

/-- A property of actions that reading has, every plain call, and what the operations share. -/
structure OfCalls (Q : Action → Prop) : Prop where
  read : Q fun s => (none, s)
  call : ∀ env call, call.plain = true → Q (performAction env call)
  admitted : ∀ status, Q fun s => (if s.status.canTransit status then some .admitted else none, s)
  loadedRead : Q fun s => (some (.loadedRead s.loaded), s)
  lastPts : ∀ g : Esplayer → _, Q fun s => (none, { s with lastPts := g s })

section OfCalls

variable {α : Type} {Q : Action → Prop}

theorem does_perform {env : Env} {call : Call} (h : Q (performAction env call)) :
    (perform env call).Does Q :=
  ⟨h, fun _ => trivial⟩

theorem does_performIfHeld (hread : Q fun s => (none, s)) {env : Env} (c : ComponentName)
    {call : Call} (hcall : Q (performAction env call)) : (performIfHeld env c call).Does Q :=
  Does.bind (does_read _ hread) fun _ => Does.ite (fun _ => does_perform hcall) fun _ =>
    does_pure _

theorem OfCalls.performIfHeld (h : OfCalls Q) (env : Env) (c : ComponentName) (call : Call)
    (hcall : call.plain = true) : (performIfHeld env c call).Does Q :=
  does_performIfHeld h.read c (h.call env call hcall)

theorem does_breakIfNonzero {cond : Op Int} {result : α} {rest : Op α} (hc : cond.Does Q)
    (hr : rest.Does Q) : (breakIfNonzero cond result rest).Does Q :=
  Does.bind hc fun _ => Does.ite (fun _ => does_pure _) fun _ => hr

theorem does_logIfNonzero {cond : Op Int} (hc : cond.Does Q) : (logIfNonzero cond).Does Q :=
  Does.bind hc fun _ => does_pure _

theorem does_changeStates (hread : Q fun s => (none, s)) (env : Env) (state : OmxState)
    (cs : List ComponentName) (hset : ∀ c, Q (performAction env (.setState c state))) :
    (changeStates env state cs).Does Q := by
  induction cs with
  | nil => exact does_pure _
  | cons c cs ih => exact does_breakIfNonzero (does_performIfHeld hread c (hset c)) ih

theorem OfCalls.changeStates (h : OfCalls Q) (env : Env) (state : OmxState)
    (cs : List ComponentName) : (changeStates env state cs).Does Q :=
  does_changeStates h.read env state cs fun _ => h.call env _ rfl

theorem OfCalls.setComponentsFlush (h : OfCalls Q) (env : Env) :
    (setComponentsFlush env).Does Q := by
  have hflush : ∀ c, (logIfNonzero (DirectMedia.performIfHeld env c (.flush c))).Does Q :=
    fun c => does_logIfNonzero (h.performIfHeld env c _ rfl)
  refine Does.bind (hflush _) fun _ => ?_
  refine Does.bind (hflush _) fun _ => ?_
  refine Does.bind (hflush _) fun _ => ?_
  refine Does.bind (hflush _) fun _ => ?_
  exact Does.bind (hflush _) fun _ => does_pure _

theorem OfCalls.logCalls (h : OfCalls Q) (env : Env) {cs : List (ComponentName × Call)}
    (hcs : ∀ c ∈ cs, c.2.plain = true) :
    (cs.forM fun c => logIfNonzero (DirectMedia.performIfHeld env c.1 c.2)).Does Q :=
  does_forM fun c hc => does_logIfNonzero (h.performIfHeld env _ _ (hcs c hc))

end OfCalls

/-- A property of all actions that pause and the body of play consist of, but for the writes of the
status. -/
structure OfDriving (Q : Action → Prop) : Prop where
  read : Q fun s => (none, s)
  admitted : ∀ status, Q fun s => (if s.status.canTransit status then some .admitted else none, s)
  loadedRead : Q fun s => (some (.loadedRead s.loaded), s)
  setState : ∀ env c state, Q (performAction env (.setState c state))
  config : ∀ env c data, Q (performAction env (.writeToConfigBuffer c data))
  rate : ∀ env rate, Q (performAction env (.setPlaybackRate rate))
  runRenderer : ∀ i run, Q fun s => (none, s.onRenderer i (.setRunningState run))
  runMessages : ∀ i run, Q fun s => (none, s.onMessages i (.setRunningState run))

/-- A property of all actions that pause, a change of the rate and the body of play consist of, but
for the writes of the status. -/
structure OfTransport (Q : Action → Prop) : Prop extends OfCalls Q where
  rate : ∀ env rate, Q (performAction env (.setPlaybackRate rate))
  runRenderer : ∀ i run, Q fun s => (none, s.onRenderer i (.setRunningState run))
  runMessages : ∀ i run, Q fun s => (none, s.onMessages i (.setRunningState run))
  targetPlaybackRate : ∀ r, Q fun s => (none, { s with targetPlaybackRate := r })

/-- A property of all these actions, and of the one with which play allows video. -/
structure OfPlayback (Q : Action → Prop) : Prop extends OfTransport Q where
  allowVideo : Q fun s => (none, { s with syncState := .allowVideo })

/-- A property of all actions that a flush consists of, but for the writes of the status. -/
structure OfFlush (Q : Action → Prop) : Prop extends OfCalls Q where
  cleared : ∀ i, Q fun s =>
    (some (.cleared i), { s with frames := Function.update s.frames i [] })
  clearRenderer : ∀ i, Q fun s => (none, s.onRenderer i .clearAll)
  pts : ∀ g : Esplayer → _, Q fun s => (none, { s with pts := g s })
  eos : ∀ i, Q fun s => (none, { s with eos := Function.update s.eos i false })
  trickMode : ∀ b, Q fun s => (none, { s with trickMode := b })

/-- A property of the actions of all these operations. -/
structure OfOperations (Q : Action → Prop) : Prop extends OfPlayback Q, OfFlush Q

section OfOperations

variable {Q : Action → Prop}

theorem OfDriving.setRunningStates (h : OfDriving Q) (run : Bool) :
    (setRunningStates run).Does Q := by
  refine Does.bind (does_exchange _ _ (h.runRenderer _ _)) fun _ => ?_
  refine Does.bind (does_exchange _ _ (h.runRenderer _ _)) fun _ => ?_
  refine Does.bind (does_exchange _ _ (h.runMessages _ _)) fun _ => ?_
  exact does_exchange _ _ (h.runMessages _ _)

theorem OfFlush.clearFrameQueues (h : OfFlush Q) : clearFrameQueues.Does Q :=
  Does.bind (does_exchange _ _ (h.clearRenderer _)) fun _ => does_exchange _ _ (h.clearRenderer _)

theorem OfDriving.changeStates (h : OfDriving Q) (env : Env) (state : OmxState)
    (cs : List ComponentName) : (changeStates env state cs).Does Q :=
  does_changeStates h.read env state cs fun c => h.setState env c state

theorem OfDriving.playBody (h : OfDriving Q) (env : Env) : (playBody env).Does Q := by
  have hstate : ∀ c, (perform env (.setState c .executing)).Does Q :=
    fun c => does_perform (h.setState env c _)
  have hconfig : ∀ c data, (perform env (.writeToConfigBuffer c data)).Does Q :=
    fun c data => does_perform (h.config env c data)
  have hrate : ∀ rate, (perform env (.setPlaybackRate rate)).Does Q :=
    fun rate => does_perform (h.rate env rate)
  have hread : ∀ {β : Type} (g : Esplayer → β), (Prog.read g : Op β).Does Q :=
    fun g => does_read g h.read
  refine Does.bind (hread _) fun _ => Does.ite (fun _ => ?_) fun _ => ?_
  · refine Does.bind (hread _) fun _ => ?_
    refine does_breakIfNonzero (hrate _) ?_
    refine Does.bind (does_logIfNonzero (does_performIfHeld h.read _ (h.setState env _ _)))
      fun _ => ?_
    refine Does.bind (hread _) fun _ => ?_
    refine Does.bind (Does.onlyIf fun _ => Does.bind (hread _) fun _ =>
      does_logIfNonzero (hconfig _ _)) fun _ => ?_
    refine Does.bind (does_logIfNonzero (hstate _)) fun _ => ?_
    refine Does.bind (does_logIfNonzero (hstate _)) fun _ => ?_
    exact Does.bind (does_logIfNonzero (hconfig _ _)) fun _ => does_pure _
  · refine Does.bind (hread _) fun _ => Does.ite (fun _ => ?_) fun _ => does_pure _
    refine Does.bind (hread _) fun _ => ?_
    exact does_breakIfNonzero (hrate _)
      (does_breakIfNonzero (h.changeStates env _ _) (does_pure _))

theorem OfTransport.driving (h : OfTransport Q) : OfDriving Q where
  read := h.read
  admitted := h.admitted
  loadedRead := h.loadedRead
  setState env _ _ := h.call env _ rfl
  config env _ _ := h.call env _ rfl
  rate := h.rate
  runRenderer := h.runRenderer
  runMessages := h.runMessages

theorem OfTransport.setRunningStates (h : OfTransport Q) (run : Bool) :
    (setRunningStates run).Does Q :=
  h.driving.setRunningStates run

theorem OfTransport.playBody (h : OfTransport Q) (env : Env) : (playBody env).Does Q :=
  h.driving.playBody env

theorem OfFlush.flushReset (h : OfFlush Q) : flushReset.Does Q := by
  refine Does.bind (does_exchange _ _ (h.trickMode _)) fun _ => ?_
  refine Does.bind (does_exchange _ _ (h.lastPts _)) fun _ => ?_
  refine Does.bind (does_read _ h.read) fun _ => ?_
  refine Does.bind (Does.onlyIf fun _ => does_exchange _ _ (h.eos _)) fun _ => ?_
  refine Does.bind (does_read _ h.read) fun _ => ?_
  exact Does.onlyIf fun _ => does_exchange _ _ (h.eos _)

theorem OfFlush.flushBody (h : OfFlush Q) (env : Env) (saveState : Status) :
    (flushBody env saveState).Does Q := by
  have hstates : ∀ (c : Prop) [Decidable c] state,
      (if c then changeComponentsState env state else return 0).Does Q :=
    fun _ _ state => Does.ite (fun _ => h.changeStates env state _) fun _ => does_pure _
  refine does_breakIfNonzero (h.performIfHeld env _ _ rfl) ?_
  refine Does.bind h.clearFrameQueues fun _ => ?_
  refine Does.bind (does_emit _ _ (h.cleared _)) fun _ => ?_
  refine Does.bind (does_emit _ _ (h.cleared _)) fun _ => ?_
  refine does_breakIfNonzero (hstates _ _) ?_
  refine does_breakIfNonzero (h.setComponentsFlush env) ?_
  refine Does.bind (does_read _ h.read) fun _ => Does.bind (does_read _ h.read) fun _ => ?_
  refine does_breakIfNonzero
    (Does.ite (fun _ => ⟨h.call env _ rfl, fun _ => trivial⟩) fun _ => does_pure _) ?_
  refine Does.bind (does_exchange _ _ (h.pts _)) fun _ => ?_
  exact does_breakIfNonzero (hstates _ _) (does_pure _)

theorem OfTransport.setPlaybackRate (h : OfTransport Q) (env : Env) (rate : Int) :
    (setPlaybackRate env rate).Does Q := by
  refine Does.ite (fun _ => does_pure _) fun _ => ?_
  refine Does.bind (does_exchange _ _ (h.targetPlaybackRate _)) fun _ => ?_
  refine Does.bind (does_read _ h.read) fun _ => Does.bind (does_read _ h.read) fun _ => ?_
  refine Does.bind (Does.onlyIf fun _ => does_logIfNonzero ⟨h.rate env _, fun _ => trivial⟩)
    fun _ => does_pure _

/-! Operations that write the status too. -/

variable (ht : ∀ status, Q fun s => (some (.transit s.status status), { s with status := status }))

include ht

theorem OfFlush.flushSection (h : OfFlush Q) (env : Env) : (flushSection env).Does Q := by
  refine Does.bind h.flushReset fun _ => ?_
  refine Does.bind (does_read _ h.read) fun _ => ?_
  refine Does.bind (does_emit _ _ (ht _)) fun _ => ?_
  refine Does.bind (h.flushBody env _) fun exit => ?_
  cases exit with
  | broke result => exact Does.bind (does_emit _ _ (ht _)) fun _ => does_pure _
  | returned value => exact does_pure _

theorem OfFlush.flush (h : OfFlush Q) (env : Env) : (flush env).Does Q := by
  refine Does.bind ⟨h.admitted _, fun _ => trivial⟩ fun _ =>
    Does.ite (fun _ => ?_) fun _ => does_pure _
  refine Does.bind ⟨h.loadedRead, fun _ => trivial⟩ fun _ =>
    Does.ite (fun _ => ?_) fun _ => does_pure _
  exact Does.withLock (h.flushSection ht env)

theorem OfDriving.play (h : OfDriving Q)
    (hallow : Q fun s => (none, { s with syncState := .allowVideo }))
    (hreset : Q fun s => (none, { s with lastPts := Function.update s.lastPts .audioEs 0 }))
    (env : Env) : (play env).Does Q := by
  refine Does.bind ⟨h.admitted _, fun _ => trivial⟩ fun _ =>
    Does.ite (fun _ => ?_) fun _ => does_pure _
  refine Does.bind (does_exchange _ _ hallow) fun _ => ?_
  refine Does.bind (does_read _ h.read) fun _ => ?_
  refine Does.bind (Does.onlyIf fun _ => does_exchange _ _ hreset) fun _ => ?_
  refine Does.bind (h.playBody env) fun _ => ?_
  refine Does.bind (does_emit _ _ (ht _)) fun _ => ?_
  exact Does.bind (h.setRunningStates _) fun _ => does_pure _

theorem OfPlayback.play (h : OfPlayback Q) (env : Env) : (play env).Does Q :=
  h.driving.play ht h.allowVideo (h.lastPts _) env

theorem OfDriving.pause (h : OfDriving Q) (env : Env) : (pause env).Does Q := by
  refine Does.bind ⟨h.admitted _, fun _ => trivial⟩ fun _ =>
    Does.ite (fun _ => ?_) fun _ => does_pure _
  refine Does.bind (does_read _ h.read) fun _ => Does.ite (fun _ => does_pure _) fun _ => ?_
  refine Does.bind (does_read _ h.read) fun _ => Does.ite (fun _ => does_pure _) fun _ => ?_
  refine Does.bind ⟨h.loadedRead, fun _ => trivial⟩ fun _ =>
    Does.ite (fun _ => ?_) fun _ => does_pure _
  refine Does.bind (h.setRunningStates _) fun _ => Does.withLock ?_
  refine does_breakIfNonzero (does_perform (h.rate env _)) ?_
  refine does_breakIfNonzero (h.changeStates env _ _) ?_
  exact Does.bind (does_emit _ _ (ht _)) fun _ => does_pure _

theorem OfTransport.pause (h : OfTransport Q) (env : Env) : (pause env).Does Q :=
  h.driving.pause ht env

theorem OfCalls.stepFrame (h : OfCalls Q) (env : Env) : (stepFrame env).Does Q := by
  refine Does.bind ⟨h.admitted _, fun _ => trivial⟩ fun _ =>
    Does.ite (fun _ => ?_) fun _ => does_pure _
  refine Does.bind (does_read _ h.read) fun _ => ?_
  refine Does.bind (does_emit _ _ (ht _)) fun _ => ?_
  refine Does.bind ⟨h.call env _ rfl, fun _ => trivial⟩ fun _ => ?_
  exact Does.bind (does_emit _ _ (ht _)) fun _ => does_pure _

end OfOperations

/-! Keeping a part of the player is such a property if none of these writes touches it. -/

theorem ofOperations_status : OfOperations fun f => ∀ s, (f s).2.status = s.status where
  read _ := rfl
  call env call _ := (untouched_status.perform env call).1
  rate env rate := (untouched_status.perform env (.setPlaybackRate rate)).1
  admitted _ _ := rfl
  loadedRead _ := rfl
  cleared _ _ := rfl
  clearRenderer _ _ := rfl
  runRenderer _ _ _ := rfl
  runMessages _ _ _ := rfl
  pts _ _ := rfl
  lastPts _ _ := rfl
  eos _ _ := rfl
  trickMode _ _ := rfl
  allowVideo _ := rfl
  targetPlaybackRate _ _ := rfl

theorem ofOperations_loaded : OfOperations fun f => ∀ s, (f s).2.loaded = s.loaded where
  read _ := rfl
  call env call _ := (untouched_loaded.perform env call).1
  rate env rate := (untouched_loaded.perform env (.setPlaybackRate rate)).1
  admitted _ _ := rfl
  loadedRead _ := rfl
  cleared _ _ := rfl
  clearRenderer _ _ := rfl
  runRenderer _ _ _ := rfl
  runMessages _ _ _ := rfl
  pts _ _ := rfl
  lastPts _ _ := rfl
  eos _ _ := rfl
  trickMode _ _ := rfl
  allowVideo _ := rfl
  targetPlaybackRate _ _ := rfl

/-- No operation takes a component away. -/
theorem ofOperations_held (d : ComponentName) :
    OfOperations fun f => ∀ s, (s.component d).isSome → ((f s).2.component d).isSome where
  read _ hs := hs
  call env call hcall s hs := by rwa [performAction_held env (Call.creates_of_plain hcall)]
  rate env rate s hs := by rwa [performAction_held env rfl]
  admitted _ _ hs := hs
  loadedRead _ hs := hs
  cleared _ _ hs := hs
  clearRenderer _ _ hs := hs
  runRenderer _ _ _ hs := hs
  runMessages _ _ _ hs := hs
  pts _ _ hs := hs
  lastPts _ _ hs := hs
  eos _ _ hs := hs
  trickMode _ _ hs := hs
  allowVideo _ hs := hs
  targetPlaybackRate _ _ hs := hs

theorem noComponents_performAction (env : Env) {call : Call} (hcall : call.creates = false)
    {s : Esplayer} (hs : NoComponents s) : NoComponents (performAction env call s).2 := by
  intro d
  have hheld := performAction_held env hcall s d
  rw [hs d] at hheld
  exact Option.not_isSome_iff_eq_none.mp (by simp [hheld])

theorem ofOperations_noComponents :
    OfOperations fun f => ∀ s, NoComponents s → NoComponents (f s).2 where
  read _ hs := hs
  call env _ hcall _ hs := noComponents_performAction env (Call.creates_of_plain hcall) hs
  rate env _ _ hs := noComponents_performAction env rfl hs
  admitted _ _ hs := hs
  loadedRead _ hs := hs
  cleared _ _ hs := hs
  clearRenderer _ _ hs := hs
  runRenderer _ _ _ hs := hs
  runMessages _ _ _ hs := hs
  pts _ _ hs := hs
  lastPts _ _ hs := hs
  eos _ _ hs := hs
  trickMode _ _ hs := hs
  allowVideo _ hs := hs
  targetPlaybackRate _ _ hs := hs

theorem returns_breakIfNonzero {α : Type} {R : α → Prop} {cond : Op Int} {result : α}
    {rest : Op α} (hresult : R result) (hrest : rest.Returns R) :
    (breakIfNonzero cond result rest).Returns R :=
  returns_bind fun _ => Returns.ite (returns_pure hresult) hrest

/-! ## Calls behind a look at the pointer -/

section Safe

variable {P : Esplayer → Prop} {R : Event → Prop} {α : Type}

theorem safe_breakIfNonzero {cond : Op Int} {result : α} {rest : Op α} (hc : cond.Safe P R)
    (hr : rest.Safe P R) : (breakIfNonzero cond result rest).Safe P R :=
  Safe.bind hc fun _ => Safe.ite (safe_pure _) hr

theorem safe_logIfNonzero {cond : Op Int} (hc : cond.Safe P R) : (logIfNonzero cond).Safe P R :=
  Safe.bind hc fun _ => safe_pure _

/-- `P` is a property of the components, `R` one of calls; both are kept by a call on a component
that is held. -/
structure SafeCalls (P : Esplayer → Prop) (R : Event → Prop) : Prop where
  component : ∀ {s t : Esplayer}, t.component = s.component → P s → P t
  notUse : ∀ {e : Event}, e.isUse = false → R e
  held : ∀ env {c call}, call.target = some c → (performIfHeld env c call).Safe P R
  clock : ∀ env mask {s}, P s → (s.component .clock).isSome = true →
    (perform env (.setWaitingForStartTime mask)).Safe P R

variable (h : SafeCalls P R)

include h

theorem SafeCalls.write {f : Esplayer → Esplayer} (hf : ∀ s, (f s).component = s.component) :
    (write f).Safe P R :=
  safe_write fun s hs => h.component (hf s) hs

theorem SafeCalls.emit {e : Esplayer → Event} {f : Esplayer → Esplayer}
    (he : ∀ s, (e s).isUse = false) (hf : ∀ s, (f s).component = s.component) :
    (emit e f).Safe P R :=
  safe_emit (fun s _ => h.notUse (he s)) fun s hs => h.component (hf s) hs

theorem SafeCalls.transit (status : Status) : (transit status).Safe P R :=
  h.emit (fun _ => rfl) fun _ => rfl

theorem SafeCalls.changeStates (env : Env) (state : OmxState) (cs : List ComponentName) :
    (changeStates env state cs).Safe P R := by
  induction cs with
  | nil => exact safe_pure _
  | cons c cs ih => exact safe_breakIfNonzero (h.held env rfl) ih

theorem SafeCalls.setComponentsFlush (env : Env) : (setComponentsFlush env).Safe P R := by
  have hflush : ∀ c, (logIfNonzero (performIfHeld env c (.flush c))).Safe P R :=
    fun c => safe_logIfNonzero (h.held env rfl)
  refine Safe.bind (hflush _) fun _ => ?_
  refine Safe.bind (hflush _) fun _ => ?_
  refine Safe.bind (hflush _) fun _ => ?_
  refine Safe.bind (hflush _) fun _ => ?_
  exact Safe.bind (hflush _) fun _ => safe_pure _

theorem SafeCalls.flushReset : flushReset.Safe P R := by
  refine Safe.bind (h.write fun _ => rfl) fun _ => ?_
  refine Safe.bind (h.write fun _ => rfl) fun _ => ?_
  refine Safe.read_bind fun _ _ => ?_
  refine Safe.bind (Safe.onlyIf (h.write fun _ => rfl)) fun _ => ?_
  refine Safe.read_bind fun _ _ => ?_
  exact Safe.onlyIf (h.write fun _ => rfl)

theorem SafeCalls.flushRestart (env : Env) (saveState : Status) :
    (flushRestart env saveState).Safe P R := by
  refine safe_breakIfNonzero (h.setComponentsFlush env) ?_
  refine Safe.read_bind fun s hs => Safe.read_bind fun _ _ => ?_
  refine safe_breakIfNonzero ?_ (Safe.bind (h.write fun _ => rfl) fun _ => ?_)
  · by_cases hclock : (s.component .clock).isSome = true
    · rw [if_pos hclock]
      exact h.clock env _ hs hclock
    · rw [if_neg hclock]
      exact safe_pure _
  · exact safe_breakIfNonzero (Safe.ite (h.changeStates env _ _) (safe_pure _)) (safe_pure _)

theorem SafeCalls.flushBody (env : Env) (saveState : Status) :
    (flushBody env saveState).Safe P R := by
  refine safe_breakIfNonzero (h.held env rfl) ?_
  refine Safe.bind (Safe.bind (h.write fun _ => rfl) fun _ => h.write fun _ => rfl) fun _ => ?_
  refine Safe.bind (h.emit (fun _ => rfl) fun _ => rfl) fun _ => ?_
  refine Safe.bind (h.emit (fun _ => rfl) fun _ => rfl) fun _ => ?_
  refine safe_breakIfNonzero (Safe.ite (h.changeStates env _ _) (safe_pure _)) ?_
  exact h.flushRestart env saveState

theorem SafeCalls.flushSection (env : Env) : (flushSection env).Safe P R := by
  refine Safe.bind h.flushReset fun _ => Safe.read_bind fun s _ => ?_
  refine Safe.bind (h.transit _) fun _ => Safe.bind (h.flushBody env _) fun exit => ?_
  cases exit with
  | broke result => exact Safe.bind (h.transit _) fun _ => safe_pure _
  | returned value => exact safe_pure _

end Safe

/-! ## Calls and the mutex -/

section LockFree

variable {α : Type}

@[simp] theorem lockFree_perform (env : Env) (call : Call) : (perform env call).LockFree :=
  fun _ => trivial

theorem lockFree_performIfHeld (env : Env) (c : ComponentName) (call : Call) :
    (performIfHeld env c call).LockFree :=
  LockFree.bind (lockFree_read _) fun _ => LockFree.ite (fun _ => lockFree_perform _ _) fun _ =>
    lockFree_pure _

theorem lockFree_breakIfNonzero {cond : Op Int} {result : α} {rest : Op α} (hc : cond.LockFree)
    (hr : rest.LockFree) : (breakIfNonzero cond result rest).LockFree :=
  LockFree.bind hc fun _ => LockFree.ite (fun _ => lockFree_pure _) fun _ => hr

theorem lockFree_logIfNonzero {cond : Op Int} (hc : cond.LockFree) :
    (logIfNonzero cond).LockFree :=
  LockFree.bind hc fun _ => lockFree_pure _

theorem lockFree_changeStates (env : Env) (state : OmxState) (cs : List ComponentName) :
    (changeStates env state cs).LockFree := by
  induction cs with
  | nil => exact lockFree_pure _
  | cons c cs ih => exact lockFree_breakIfNonzero (lockFree_performIfHeld env c _) ih

theorem lockFree_setComponentsFlush (env : Env) : (setComponentsFlush env).LockFree := by
  have hflush : ∀ c, (logIfNonzero (performIfHeld env c (.flush c))).LockFree :=
    fun c => lockFree_logIfNonzero (lockFree_performIfHeld env c _)
  refine LockFree.bind (hflush _) fun _ => ?_
  refine LockFree.bind (hflush _) fun _ => ?_
  refine LockFree.bind (hflush _) fun _ => ?_
  refine LockFree.bind (hflush _) fun _ => ?_
  exact LockFree.bind (hflush _) fun _ => lockFree_pure _

end LockFree

/-! ## Changing the state of all components -/

@[simp] theorem setComponentsFlush_result (env : Env) (s : Esplayer) :
    ((setComponentsFlush env).run s).1 = resultSuccess := by
  simp [setComponentsFlush]

/-- Every component of the list that is held accepts the command. -/
def AllAccept (env : Env) (s : Esplayer) (state : OmxState) (cs : List ComponentName) : Prop :=
  ∀ c ∈ cs, (s.component c).isSome → env (.setState c state) = 0

instance (env : Env) (s : Esplayer) (state : OmxState) (cs : List ComponentName) :
    Decidable (AllAccept env s state cs) :=
  inferInstanceAs (Decidable (∀ c ∈ cs, _))

/-- What setting the state of the components of the list leaves behind the pointers. -/
def Esplayer.moved (s : Esplayer) (state : OmxState) (cs : List ComponentName) : Esplayer :=
  { s with
    component := fun d =>
      if d ∈ cs then (s.component d).map fun comp => { comp with state := state }
      else s.component d }

theorem allAccept_cons {env : Env} {s : Esplayer} {state : OmxState} {c : ComponentName}
    {cs : List ComponentName} :
    AllAccept env s state (c :: cs) ↔
      ((s.component c).isSome → env (.setState c state) = 0) ∧ AllAccept env s state cs := by
  simp [AllAccept]

theorem allAccept_onComponent {env : Env} {s : Esplayer} {state : OmxState} {c : ComponentName}
    {f : Component → Component} {cs : List ComponentName} :
    AllAccept env (s.onComponent c f) state cs ↔ AllAccept env s state cs := by
  simp [AllAccept]

theorem moved_nil (s : Esplayer) (state : OmxState) : s.moved state [] = s := by
  simp [Esplayer.moved]

theorem moved_cons (s : Esplayer) (state : OmxState) (c : ComponentName)
    (cs : List ComponentName) :
    (s.onComponent c fun comp => { comp with state := state }).moved state cs =
      s.moved state (c :: cs) := by
  simp only [Esplayer.moved, Esplayer.onComponent, Esplayer.mk.injEq, true_and, and_true]
  funext d
  by_cases h : d = c
  · subst h
    cases s.component d <;> simp
  · simp [h]

theorem run_changeStates (env : Env) (state : OmxState) (cs : List ComponentName) (s : Esplayer) :
    (AllAccept env s state cs →
        (changeStates env state cs).run s = (resultSuccess, s.moved state cs)) ∧
      (¬ AllAccept env s state cs → ((changeStates env state cs).run s).1 = resultFail) := by
  induction cs generalizing s with
  | nil => simp [changeStates, AllAccept, moved_nil]
  | cons c cs ih =>
      simp only [changeStates, run_returnIfNonzero, run_performIfHeld, allAccept_cons]
      by_cases hheld : (s.component c).isSome
      · by_cases hret : env (.setState c state) = 0
        · have ih := ih (s.onComponent c fun comp => { comp with state := state })
          rw [allAccept_onComponent, moved_cons] at ih
          simpa [hheld, hret, Call.effect] using ih
        · simp [hheld, hret]
      · have hmoved : s.moved state (c :: cs) = s.moved state cs := by
          simp only [Esplayer.moved, Esplayer.mk.injEq, true_and, and_true]
          funext d
          by_cases h : d = c
          · subst h
            simp [Option.not_isSome_iff_eq_none.mp hheld]
          · simp [h]
        simpa [hheld, hmoved] using ih s

/-- `changeComponentsState` succeeds exactly if all components held accept. -/
theorem changeComponentsState_success_iff (env : Env) (state : OmxState) (s : Esplayer) :
    ((changeComponentsState env state).run s).1 = 0 ↔ AllAccept env s state (stateOrder state) := by
  obtain ⟨hok, hfail⟩ := run_changeStates env state (stateOrder state) s
  constructor
  · intro h
    by_contra hno
    have := hfail hno
    rw [show (changeStates env state (stateOrder state)).run s =
      (changeComponentsState env state).run s from rfl, h] at this
    exact absurd this (by decide)
  · intro h
    rw [changeComponentsState, hok h]
    rfl

end DirectMedia
