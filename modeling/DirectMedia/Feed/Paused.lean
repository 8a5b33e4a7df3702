import DirectMedia.Feed.Barrier
import DirectMedia.Feed.Drain

set_option autoImplicit false

/-! # What a pause lets through

`pause` tells the loopers not to run and then moves the status. It waits for no attempt, so one that
is under way for a stream may still hand its frame over and remove it (`OneFrame`). That is all:
until `play` is called no other frame gets to a codec, whatever else the threads do
(`paused_feeds`).
-/

namespace DirectMedia

open Prog

/-! ## One frame for each attempt -/

/-- A frame is handed over or removed, or the attempt has its result. -/
def Event.passes : Event → Bool
  | .written _ _ _ _ | .popped _ _ | .fed _ _ => true
  | _ => false

def Event.isPopped : Event → Bool
  | .popped _ _ => true
  | _ => false

def Event.isFed : Event → Bool
  | .fed _ _ => true
  | _ => false

/-- No frame but `f` is handed over, and that many are removed and attempts made at most. -/
structure Limited (f : Option Frame) (pops feds : Nat) (es : List Event) : Prop where
  written : ∀ i g n b, .written i g n b ∈ es → f = some g
  popped : es.countP Event.isPopped ≤ pops
  fed : es.countP Event.isFed ≤ feds

section Limited

variable {f : Option Frame} {pops feds : Nat} {es : List Event}

theorem limited_nil (f : Option Frame) (pops feds : Nat) : Limited f pops feds [] :=
  ⟨by simp, by simp, by simp⟩

theorem Limited.mono {pops' feds' : Nat} (h : Limited f pops feds es) (hpops : pops ≤ pops')
    (hfeds : feds ≤ feds') : Limited f pops' feds' es :=
  ⟨h.written, h.popped.trans hpops, h.fed.trans hfeds⟩

/-- Nothing has been handed over so far. -/
theorem Limited.of_none (h : Limited none pops feds es) (f : Option Frame) :
    Limited f pops feds es :=
  ⟨fun i g n b hmem => (by cases h.written i g n b hmem), h.popped, h.fed⟩

/-- One more event. If it hands over a frame, this is `f`. -/
theorem Limited.concat (h : Limited f pops feds es) (e : Event)
    (hwritten : ∀ i g n b, e = .written i g n b → f = some g) :
    Limited f (pops + [e].countP Event.isPopped) (feds + [e].countP Event.isFed) (es ++ [e]) := by
  refine ⟨fun i g n b hmem => ?_, ?_, ?_⟩
  · rcases List.mem_append.mp hmem with hold | hnew
    · exact h.written i g n b hold
    · exact hwritten i g n b (List.mem_singleton.mp hnew).symm
  · rw [List.countP_append]
    exact Nat.add_le_add_right h.popped _
  · rw [List.countP_append]
    exact Nat.add_le_add_right h.fed _

theorem Limited.quiet (h : Limited f pops feds es) {o : Option Event}
    (ho : ∀ e ∈ o, e.passes = false) : Limited f pops feds (es ++ o.toList) := by
  cases o with
  | none => simpa using h
  | some e =>
      have he : e.passes = false := ho e rfl
      have hpopped : [e].countP Event.isPopped = 0 := by cases e <;> first | rfl | cases he
      have hfed : [e].countP Event.isFed = 0 := by cases e <;> first | rfl | cases he
      have hconcat := h.concat e fun i g n b hwritten => by
        subst hwritten
        cases he
      rwa [hpopped, hfed] at hconcat

theorem Limited.write {g : Frame} (h : Limited (some g) pops feds es) (i : StreamType) (n : Int)
    (b : Option Buffer) : Limited (some g) pops feds (es ++ [.written i g n b]) :=
  h.concat (.written i g n b) fun j g' n' b' hwritten => by
    cases hwritten
    rfl

theorem Limited.pop (h : Limited f pops feds es) (i : StreamType) (x : Option Frame) :
    Limited f (pops + 1) feds (es ++ [.popped i x]) :=
  h.concat (.popped i x) fun j g n b hwritten => by cases hwritten

theorem Limited.finish (h : Limited f pops feds es) (i : StreamType) (n : Int) :
    Limited f pops (feds + 1) (es ++ [.fed i n]) :=
  h.concat (.fed i n) fun j g n b hwritten => by cases hwritten

/-- What is true of all events is true of the last of them. -/
theorem Limited.of_append {first : List Event} (h : Limited f pops feds (first ++ es)) :
    Limited f pops feds es := by
  have hpopped := h.popped
  have hfed := h.fed
  rw [List.countP_append] at hpopped hfed
  exact ⟨fun i g n b hmem => h.written i g n b (List.mem_append_right first hmem), by omega,
    by omega⟩

/-- What an attempt may have shown in the end. -/
def OneFrame (es : List Event) : Prop := ∃ f, Limited f 1 1 es

/-- What it may have shown in each phase. -/
def Phase.Allows : Phase → List Event → Prop
  | .start _, es | .absent, es | .nothing, es => Limited none 0 0 es
  | .holding f _, es | .adjusted f, es | .synced f, es | .chunked f, es | .written f, es =>
      Limited (some f) 0 0 es
  | .removed, es => ∃ f, Limited f 1 0 es

theorem Phase.Allows.limited {ph : Phase} (h : ph.Allows es) : ∃ f, Limited f 1 0 es := by
  cases ph with
  | removed => exact h
  | _ => exact ⟨_, Limited.mono h (Nat.zero_le 1) le_rfl⟩

theorem Phase.Allows.quiet {ph : Phase} (h : ph.Allows es) {o : Option Event}
    (ho : ∀ e ∈ o, e.passes = false) : ph.Allows (es ++ o.toList) := by
  cases ph with
  | removed =>
      obtain ⟨f, hf⟩ := h
      exact ⟨f, hf.quiet ho⟩
  | _ => exact Limited.quiet h ho

end Limited

/-- What a thread has shown since `past`. -/
def Since (t : Thread) (past : List Event) (P : List Event → Prop) (w : FeedWorld) : Prop :=
  ∃ es, w.events t = past ++ es ∧ P es

section Since

variable {i : StreamType} {t : Thread} {past : List Event} {w v : FeedWorld} {a : Action}
  {P : List Event → Prop}

theorem Since.same (h : Since t past P w) (hR : v.events t = w.events t) : Since t past P v := by
  obtain ⟨es, hes, hP⟩ := h
  exact ⟨es, hR.trans hes, hP⟩

theorem Since.oneFrame {ph : Phase} (h : Since (.renderer i) past ph.Allows w) :
    Since (.renderer i) past OneFrame w := by
  obtain ⟨es, hes, hallows⟩ := h
  obtain ⟨f, hf⟩ := hallows.limited
  exact ⟨es, hes, f, hf.mono le_rfl (Nat.zero_le 1)⟩

theorem Since.act {Q : List Event → Prop} (h : Since t past P w)
    (hQ : ∀ es, P es → Q (es ++ (a w.state).1.toList)) : Since t past Q (w.after t a) := by
  obtain ⟨es, hes, hP⟩ := h
  refine ⟨es ++ (a w.state).1.toList, ?_, hQ es hP⟩
  rw [World.events_after_self, hes, List.append_assoc]

/-- An action that leads from one phase to another. -/
theorem Since.phase {ph : Phase} (h : Since (.renderer i) past ph.Allows w) (ph' : Phase)
    (hallows : ∀ es, ph.Allows es → ph'.Allows (es ++ (a w.state).1.toList)) :
    Since (.renderer i) past OneFrame (w.after (.renderer i) a) ∧
      Since (.renderer i) past ph'.Allows (w.after (.renderer i) a) := by
  have hphase : Since (.renderer i) past ph'.Allows (w.after (.renderer i) a) := h.act hallows
  exact ⟨hphase.oneFrame, hphase⟩

/-- An action that hands nothing over and removes nothing. -/
theorem Since.quiet {ph : Phase} (h : Since (.renderer i) past ph.Allows w)
    (ha : ∀ e ∈ (a w.state).1, e.passes = false) :
    Since (.renderer i) past OneFrame (w.after (.renderer i) a) ∧
      Since (.renderer i) past ph.Allows (w.after (.renderer i) a) :=
  h.phase ph fun _ hallows => hallows.quiet ha

theorem Since.write {f : Frame} {ph : Phase} (h : Since (.renderer i) past ph.Allows w)
    (ph' : Phase) (hph : ∀ es, ph.Allows es → Limited (some f) 0 0 es)
    (hph' : ∀ es, Limited (some f) 0 0 es → ph'.Allows es)
    (c : ComponentName) (data : List UInt8) (pts : Int) (flags : BitVec 32) (accept : Int) :
    Since (.renderer i) past OneFrame
        (w.after (.renderer i) (writeAction c f data pts flags accept)) ∧
      Since (.renderer i) past ph'.Allows
        (w.after (.renderer i) (writeAction c f data pts flags accept)) :=
  h.phase ph' fun es hallows => hph' _ ((hph es hallows).write _ _ _)

end Since

/-- The outline of an attempt, as far as what gets through is concerned. -/
theorem oneFrameRules (i : StreamType) (env : FeedEnv) (past : List Event) :
    FeedRules i env (SameEvents i) (fun _ => Since (.renderer i) past OneFrame)
      (fun ph => Since (.renderer i) past ph.Allows) (fun _ => True)
      fun _ => Since (.renderer i) past OneFrame where
  refl _ := rfl
  stable _ _ _ hR h := h.same hR
  stable_end _ _ _ hR h := h.same hR
  good_nonneg _ _ := trivial
  good_add _ _ _ _ := trivial
  readOnly ph w a ha h := by
    refine h.quiet fun e he => ?_
    have huse := (ha w.state).2 e he
    cases e <;> first | rfl | cases huse
  room _ h _ := h
  room_holding _ _ h _ := h
  absent _ h _ := h
  clear w h := by
    refine h.phase .nothing fun es hes => ?_
    exact Limited.quiet (o := some (.cleared i)) hes fun e he => by cases he; rfl
  got r f w h hf := by
    have hevent : (getAction i w.state).1 = some (.got i f) := by simp [getAction, hf]
    refine h.phase (.holding f r) fun es hes => ?_
    rw [hevent]
    exact (Limited.of_none hes _).quiet (o := some (.got i f)) fun e he => by cases he; rfl
  empty _ _ h _ := h
  adjust f w h := by
    refine h.phase (.adjusted f) fun es hes => ?_
    exact Limited.quiet (o := some (.adjusted f.streamType f)) hes fun e he => by cases he; rfl
  skip_adjust _ _ h _ := h
  sync f pts flags used w h _ := by
    refine h.phase (.synced f) fun es hes => ?_
    exact Limited.quiet (o := some (.synced f.streamType f)) hes fun e he => by cases he; rfl
  skip_sync _ _ h _ := h
  notify f high w h := h.quiet fun e he => by cases he; rfl
  chunk _ _ _ h _ := h
  write f data pts flags offset w h :=
    have hwrite := h.write (.written f) (fun _ => id) (fun _ => id) i.codec data pts flags
      (env.accept offset)
    ⟨hwrite.1, hwrite.2, trivial⟩
  write_chunk f data pts flags offset w h :=
    have hwrite := h.write (.chunked f) (fun _ => id) (fun _ => id) i.codec data pts flags
      (env.accept offset)
    ⟨hwrite.1, hwrite.2, hwrite.2, trivial⟩
  unwritten _ _ _ h _ := h
  pop f w h := h.phase .removed fun es hes => ⟨_, Limited.pop hes i _⟩
  fed ph n w h _ := by
    have hend : Since (.renderer i) past OneFrame (w.after (.renderer i) (fedAction i n)) := by
      refine h.act fun es hes => ?_
      obtain ⟨f, hf⟩ := Phase.Allows.limited hes
      exact ⟨f, hf.finish i n⟩
    exact ⟨hend, hend⟩

/-- What the thread of the stream has shown since `past`, and what it will, is one attempt. -/
structure WithinAttempt (i : StreamType) (past : List Event) (x : FeedSystem) : Prop where
  shown : Since (.renderer i) past OneFrame x.world
  attempt : ∀ p, x.running (.renderer i) = some p →
    Ensures (.renderer i) (SameEvents i) (fun _ => Since (.renderer i) past OneFrame)
      (fun _ => Since (.renderer i) past OneFrame) p x.world

section WithinAttempt

variable {i : StreamType} {past : List Event} {x y : FeedSystem} {a : ThreadAct}

/-- The step lemma. Only a looper that is told to run goes on to another attempt. -/
theorem WithinAttempt.step (h : WithinAttempt i past x) (hy : x.threadStep a = some y) :
    WithinAttempt i past y ∨ (x.looper i).running = true ∧
      WithinAttempt i (x.world.events (.renderer i)) y := by
  cases FeedSystem.rendererEffect i hy with
  | apart events running =>
      refine .inl ⟨h.shown.same events, fun p hp => ?_⟩
      exact (h.attempt p (running ▸ hp)).stable (fun _ _ _ huv hvw => hvw.trans huv) events
  | attempt env runs idle running log =>
      have hevents := World.events_congr log (.renderer i)
      have hstart : Since (.renderer i) (x.world.events (.renderer i))
          (Phase.start false).Allows y.world :=
        ⟨[], by rw [List.append_nil, hevents], limited_nil none 0 0⟩
      refine .inr ⟨runs, hstart.oneFrame, fun p hp => ?_⟩
      obtain rfl := Option.some.inj (running.symm.trans hp)
      exact (oneFrameRules i env _).feedMessage hstart
  | handled v done running log =>
      refine .inl ⟨h.shown.same (World.events_congr log _), fun p hp => ?_⟩
      rw [running] at hp
      cases hp
  | step label taken =>
      obtain ⟨⟨p, hp⟩, -⟩ := Pool.step_running taken
      have hrefl : ∀ w, SameEvents i w w := fun _ => rfl
      obtain ⟨hG, q, hq, hens⟩ := Pool.step_ensures hrefl taken hp (h.attempt p hp)
      refine .inl ⟨?_, fun r hr => ?_⟩
      · rcases hG with hsame | hG
        · rw [hsame]
          exact h.shown
        · exact hG
      · rw [hq, Option.some.injEq] at hr
        exact hr ▸ hens

theorem exists_withinAttempt (i : StreamType) {s : Esplayer} {acts : List ThreadAct}
    (hx : Lts.exec FeedSystem.threadStep (Pool.init s) acts = some x) :
    ∃ past, WithinAttempt i past x := by
  refine Lts.exec_invariant (P := fun x => ∃ past, WithinAttempt i past x) (Q := fun _ => True)
    (fun x a y _ h hy => ?_) (fun _ _ => trivial)
    ⟨[], ⟨[], rfl, none, limited_nil none 1 1⟩, fun p hp => by cases hp⟩ hx
  obtain ⟨past, h⟩ := h
  rcases h.step hy with h | ⟨-, h⟩
  · exact ⟨past, h⟩
  · exact ⟨_, h⟩

end WithinAttempt

/-! ## Loopers that are told not to run -/

/-- Both renderer loopers are told not to run. -/
def Stopped (s : Esplayer) : Prop := ∀ i, (s.renderer i).running = false

/-- An action that lets no looper run. -/
def StaysStopped (a : Action) : Prop :=
  ∀ s i, (s.renderer i).running = false → ((a s).2.renderer i).running = false

theorem staysStopped_of_renderer {a : Action} (h : ∀ s, (a s).2.renderer = s.renderer) :
    StaysStopped a := by
  intro s i hs
  rw [h s]
  exact hs

theorem staysStopped_onRenderer (i : StreamType) {f : Looper → Looper}
    (hf : ∀ l : Looper, l.running = false → (f l).running = false) :
    StaysStopped fun s => (none, s.onRenderer i f) := by
  intro s j hs
  by_cases hj : j = i
  · subst hj
    change (Function.update s.renderer j (f (s.renderer j)) j).running = false
    rw [Function.update_self]
    exact hf _ hs
  · change (Function.update s.renderer i (f (s.renderer i)) j).running = false
    rw [Function.update_of_ne hj]
    exact hs

theorem staysStopped_perform (env : Env) (call : Call) : StaysStopped (performAction env call) :=
  staysStopped_of_renderer fun s => by
    have huntouched : Untouched Esplayer.renderer :=
      ⟨fun _ _ => rfl, fun _ _ => rfl, fun _ _ => rfl⟩
    exact (huntouched.perform env call).1 s

theorem staysStopped_transit (status : Status) :
    StaysStopped fun s => (some (.transit s.status status), { s with status := status }) :=
  staysStopped_of_renderer fun _ => rfl

theorem ofFlush_staysStopped : OfFlush StaysStopped where
  read := staysStopped_of_renderer fun _ => rfl
  call env call _ := staysStopped_perform env call
  admitted _ := staysStopped_of_renderer fun _ => rfl
  loadedRead := staysStopped_of_renderer fun _ => rfl
  lastPts _ := staysStopped_of_renderer fun _ => rfl
  cleared _ := staysStopped_of_renderer fun _ => rfl
  clearRenderer i := staysStopped_onRenderer i fun _ h => h
  pts _ := staysStopped_of_renderer fun _ => rfl
  eos _ := staysStopped_of_renderer fun _ => rfl
  trickMode _ := staysStopped_of_renderer fun _ => rfl

theorem does_pauseSection (env : Env) : (pauseSection env).Does StaysStopped := by
  refine does_breakIfNonzero (does_perform (staysStopped_perform env _)) ?_
  refine does_breakIfNonzero (ofFlush_staysStopped.changeStates env _ _) ?_
  exact Does.bind (does_emit _ _ (staysStopped_transit _)) fun _ => does_pure _

theorem does_stopLoopers : (setRunningStates false).Does StaysStopped := by
  have hrenderer : ∀ i, StaysStopped fun s => (none, s.onRenderer i (.setRunningState false)) :=
    fun i => staysStopped_onRenderer i fun _ _ => rfl
  refine Does.bind (does_exchange _ _ (hrenderer _)) fun _ => ?_
  refine Does.bind (does_exchange _ _ (hrenderer _)) fun _ => ?_
  refine Does.bind (does_exchange _ _ (staysStopped_of_renderer fun _ => rfl)) fun _ => ?_
  exact does_exchange _ _ (staysStopped_of_renderer fun _ => rfl)

/-- The call lets the loopers run. -/
def ApiCall.isPlay : ApiCall → Bool
  | .play => true
  | _ => false

theorem staysStopped_api (env : Env) {a : ApiCall} (hload : a.isLoad = false)
    (hplay : a.isPlay = false) : (a.prog env).Does StaysStopped := by
  have hread := ofFlush_staysStopped.read
  have hstatus := staysStopped_transit
  cases a with
  | load metaData units => cases hload
  | play => cases hplay
  | unload =>
      exact does_unload ofFlush_staysStopped hstatus (staysStopped_of_renderer fun _ => rfl)
        (staysStopped_of_renderer fun _ => rfl) (fun _ => staysStopped_of_renderer fun _ => rfl) env
  | flush => exact ofFlush_staysStopped.flush hstatus env
  | stepFrame => exact ofFlush_staysStopped.toOfCalls.stepFrame hstatus env
  | pause =>
      refine Does.bind ⟨ofFlush_staysStopped.admitted _, fun _ => trivial⟩ fun _ =>
        Does.ite (fun _ => ?_) fun _ => does_pure _
      refine Does.bind (does_read _ hread) fun _ => Does.ite (fun _ => does_pure _) fun _ => ?_
      refine Does.bind (does_read _ hread) fun _ => Does.ite (fun _ => does_pure _) fun _ => ?_
      refine Does.bind ⟨ofFlush_staysStopped.loadedRead, fun _ => trivial⟩ fun _ =>
        Does.ite (fun _ => ?_) fun _ => does_pure _
      exact Does.bind does_stopLoopers fun _ => Does.withLock (does_pauseSection env)
  | setPlaybackRate rate =>
      refine Does.ite (fun _ => does_pure _) fun _ => ?_
      refine Does.bind (does_exchange _ _ (staysStopped_of_renderer fun _ => rfl)) fun _ => ?_
      refine Does.bind (does_read _ hread) fun _ => Does.bind (does_read _ hread) fun _ => ?_
      have hrate : (perform env (.setPlaybackRate rate)).Does StaysStopped :=
        does_perform (staysStopped_perform env _)
      exact Does.bind (Does.onlyIf fun _ => does_logIfNonzero hrate) fun _ => does_pure _

theorem staysStopped_clientCall (c : ClientCall) : c.prog.Does StaysStopped := by
  cases c with
  | flush env => exact ofFlush_staysStopped.flush staysStopped_transit env
  | feedData buff =>
      have happend : ∀ i, StaysStopped (appendAction i) := by
        intro i
        have hrenderer := staysStopped_onRenderer i (f := Looper.appendNow) fun l h => by
          rw [Looper.appendNow_eq]
          exact h
        exact fun s j hs => hrenderer s j hs
      exact does_feedData ofFlush_staysStopped.read ofFlush_staysStopped.loadedRead fun b _ =>
        ⟨staysStopped_of_renderer fun _ => rfl, happend _⟩

theorem staysStopped_feedMessage (env : FeedEnv) (i : StreamType) :
    (feedMessage env i).Does StaysStopped :=
  Does.mono (keeps_renderer_feedMessage env i) fun _ h => staysStopped_of_renderer h

/-! ## A pause that gets through -/

/-- The call has not moved the status to `PAUSED`. -/
def Unmoved (es : List Event) : Prop := ∀ old, .transit old .paused ∉ es

/-- Once thread `n` has shown since `past` that it moved the status to `PAUSED`, the loopers are
told not to run. -/
def ToldToStop (n : Nat) (past : List Event) (w : FeedWorld) : Prop :=
  Since (.client n) past (fun es => Unmoved es ∨ Stopped w.state) w

/-- What the others do to the call of thread `n`: they let no looper run. -/
def PauseRely (n : Nat) (w v : FeedWorld) : Prop :=
  v.events (.client n) = w.events (.client n) ∧
    ∀ i, (w.state.renderer i).running = false → (v.state.renderer i).running = false

section Pause

variable {n : Nat} {past : List Event} {w v : FeedWorld}

theorem ToldToStop.stable (hR : PauseRely n w v) (h : ToldToStop n past w) :
    ToldToStop n past v := by
  obtain ⟨es, hes, hmoved⟩ := h
  refine ⟨es, hR.1.trans hes, hmoved.imp_right fun hstopped i => ?_⟩
  exact hR.2 i (hstopped i)

theorem Since.told (h : Since (.client n) past Unmoved w) : ToldToStop n past w := by
  obtain ⟨es, hes, hunmoved⟩ := h
  exact ⟨es, hes, .inl hunmoved⟩

theorem Since.toldStopped (h : Since (.client n) past (fun _ => True) w)
    (hstopped : Stopped w.state) : ToldToStop n past w := by
  obtain ⟨es, hes, -⟩ := h
  exact ⟨es, hes, .inr hstopped⟩

/-- An action that does not move the status to `PAUSED`. -/
def MovesNot (a : Action) : Prop := ∀ s old, (a s).1 ≠ some (.transit old .paused)

theorem movesNot_read : MovesNot fun s => (none, s) := fun _ _ h => by cases h

/-- What a call does that does not move the status to `PAUSED`. -/
theorem ensures_unmoved {α : Type} {p : Op α} (hp : p.Does MovesNot)
    (h : Since (.client n) past Unmoved w) :
    Ensures (.client n) (PauseRely n) (fun _ => ToldToStop n past)
      (fun _ => Since (.client n) past Unmoved) p w := by
  refine hp.ensures (fun u v hR h => h.same hR.1) (fun a v ha hv => ?_) h
  have hafter : Since (.client n) past Unmoved (v.after (.client n) a) := by
    refine hv.act fun es hes old hmem => ?_
    rcases List.mem_append.mp hmem with hmem | hmem
    · exact hes old hmem
    · exact ha v.state old (Option.mem_toList.mp hmem)
  exact ⟨hafter.told, hafter⟩

/-- What a call does once the loopers are told to stop. -/
theorem ensures_stopped {α : Type} {p : Op α} (hp : p.Does StaysStopped)
    (h : Since (.client n) past (fun _ => True) w) (hstopped : Stopped w.state) :
    Ensures (.client n) (PauseRely n) (fun _ => ToldToStop n past)
      (fun _ w => Since (.client n) past (fun _ => True) w ∧ Stopped w.state) p w := by
  refine hp.ensures (fun u v hR h => ⟨h.1.same hR.1, fun i => hR.2 i (h.2 i)⟩)
    (fun a v ha hv => ?_) ⟨h, hstopped⟩
  have hafter : Since (.client n) past (fun _ => True) (v.after (.client n) a) :=
    hv.1.act fun _ _ => trivial
  have hstays : Stopped (v.after (.client n) a).state := fun i => ha v.state i (hv.2 i)
  exact ⟨hafter.toldStopped hstays, hafter, hstays⟩

theorem pauseRely_refl (n : Nat) (w : FeedWorld) : PauseRely n w w := ⟨rfl, fun _ h => h⟩

/-- The two renderer loopers are told to stop one after the other. -/
theorem ensures_stopLoopers (h : Since (.client n) past Unmoved w) :
    Ensures (.client n) (PauseRely n) (fun _ => ToldToStop n past)
      (fun _ w => Since (.client n) past (fun _ => True) w ∧ Stopped w.state)
      (setRunningStates false) w := by
  refine Ensures.act_bind fun v hR => ?_
  have hvideo := (h.same hR.1).act (a := fun s =>
    (none, s.onRenderer .videoEs (.setRunningState false))) (Q := Unmoved) fun es hes => by simpa
  refine ⟨hvideo.told, Ensures.ret_bind (Ensures.act_bind fun u hR => ?_)⟩
  have haudio := (hvideo.same hR.1).act (a := fun s =>
    (none, s.onRenderer .audioEs (.setRunningState false))) (Q := Unmoved) fun es hes => by simpa
  have hstopped : Stopped (u.after (.client n) fun s =>
      (none, s.onRenderer .audioEs (.setRunningState false))).state := by
    intro i
    cases i with
    | audioEs => rfl
    | videoEs => exact hR.2 .videoEs rfl
  refine ⟨haudio.told, Ensures.ret_bind ?_⟩
  obtain ⟨es, hes, -⟩ := haudio
  refine ensures_stopped ?_ ⟨es, hes, trivial⟩ hstopped
  refine Does.bind (does_exchange _ _ (staysStopped_of_renderer fun _ => rfl)) fun _ => ?_
  exact does_exchange _ _ (staysStopped_of_renderer fun _ => rfl)

/-- A thread that pauses tells both loopers to stop before it moves the status. -/
theorem ensures_pause (env : Env) (h : Since (.client n) past Unmoved w) :
    Ensures (.client n) (PauseRely n) (fun _ => ToldToStop n past) (fun _ => ToldToStop n past)
      (pause env) w := by
  have hpure : ∀ {u : FeedWorld} (r : Int), Since (.client n) past Unmoved u →
      Ensures (.client n) (PauseRely n) (fun _ => ToldToStop n past) (fun _ => ToldToStop n past)
        (pure r : Op Int) u :=
    fun r hu v hR => (hu.same hR.1).told
  have hcan : (canTransit .paused).Does MovesNot := by
    refine ⟨fun s old hs => ?_, fun _ => trivial⟩
    simp at hs
  have hloaded : readLoaded.Does MovesNot := ⟨fun s old hs => (by cases hs), fun _ => trivial⟩
  refine Ensures.bind (pauseRely_refl n) (ensures_unmoved hcan h) fun can u hu =>
    Ensures.ite (fun _ => ?_) fun _ => hpure _ hu
  refine Ensures.bind (pauseRely_refl n) (ensures_unmoved (does_read _ movesNot_read) hu)
    fun status u hu => Ensures.ite (fun _ => hpure _ hu) fun _ => ?_
  refine Ensures.bind (pauseRely_refl n) (ensures_unmoved (does_read _ movesNot_read) hu)
    fun status u hu => Ensures.ite (fun _ => hpure _ hu) fun _ => ?_
  refine Ensures.bind (pauseRely_refl n) (ensures_unmoved hloaded hu) fun loaded u hu =>
    Ensures.ite (fun _ => ?_) fun _ => hpure _ hu
  refine Ensures.bind (pauseRely_refl n) (ensures_stopLoopers hu) fun _ u hu => ?_
  exact (ensures_stopped (Does.withLock (does_pauseSection env)) hu.1 hu.2).mono
    fun _ _ h => h.1.toldStopped h.2

end Pause

/-! ## Runs without play -/

/-- The label starts a call that lets the loopers run. -/
def ThreadAct.plays : ThreadAct → Bool
  | .api _ a _ => a.isPlay
  | _ => false

/-- Thread `n` makes a call. -/
def ThreadAct.callsBy (n : Nat) : ThreadAct → Bool
  | .api m _ _ | .feed (.call m _) => decide (m = n)
  | _ => false

open FeedSystem

section Runs

variable {n : Nat} {past : List Event} {x y z : FeedSystem} {a : ThreadAct} {i : StreamType}

/-- As long as `play` is not called, a looper that is told not to run stays so. -/
theorem stopped_step (h : x.Runs fun _ => StaysStopped) (hplay : a.plays = false)
    (hy : x.threadStep a = some y) : y.Runs (fun _ => StaysStopped) ∧
      ∀ i, (x.looper i).running = false → (y.looper i).running = false := by
  refine ⟨(h.step_of (fun n c _ => staysStopped_clientCall c)
    (fun n c env ha hload => staysStopped_api env hload (by rw [ha] at hplay; exact hplay))
    staysStopped_feedMessage hy).1, fun i hi => ?_⟩
  cases a with
  | api n c env =>
      rw [threadStep, Option.ite_none_left_eq_some] at hy
      obtain ⟨-, rfl⟩ := Pool.start_cases hy.2
      exact hi
  | feed a =>
      by_cases hstep : ∃ t, a = .step t
      · obtain ⟨t, rfl⟩ := hstep
        obtain ⟨⟨p, hp⟩, -⟩ := Pool.step_running hy
        rcases (Pool.step_does hy hp (h t p hp)).1 with hsame | ⟨f, hf, hafter⟩
        · rw [looper, hsame]
          exact hi
        · rw [looper, hafter]
          exact hf x.world.state i hi
      · rcases looper_step hy (fun t ht => hstep ⟨t, ht⟩) i with hsame | ⟨b, hb, hl⟩
        · rw [hsame]
          exact hi
        · exact (Looper.running_of_thread hb hl).trans hi

/-- What a step is for a client thread that makes no call. -/
theorem client_cases (hcalls : a.callsBy n = false) (hy : x.threadStep a = some y) :
    a = .feed (.step (.client n)) ∧ Pool.step x (.client n) = some y ∨
      y.world.events (.client n) = x.world.events (.client n) ∧
        ∀ p, y.running (.client n) = some p → x.running (.client n) = some p := by
  cases a with
  | api m c env =>
      rw [threadStep, Option.ite_none_left_eq_some] at hy
      obtain ⟨-, rfl⟩ := Pool.start_cases hy.2
      have hm : m ≠ n := by simpa [ThreadAct.callsBy] using hcalls
      refine .inr ⟨rfl, fun p hp => ?_⟩
      rwa [Pool.running_setRunning_ne x (by simpa using Ne.symm hm)] at hp
  | feed a =>
      cases effect hy with
      | call m c label idle eq =>
          subst eq label
          have hm : m ≠ n := by simpa [ThreadAct.callsBy] using hcalls
          refine .inr ⟨rfl, fun p hp => ?_⟩
          rwa [Pool.running_setRunning_ne x (by simpa using Ne.symm hm)] at hp
      | returned m v label done eq =>
          subst eq
          refine .inr ⟨rfl, fun p hp => ?_⟩
          rcases Pool.setRunning_cases hp with ⟨-, hp⟩ | ⟨-, hold⟩
          · cases hp
          · exact hold
      | step t label taken =>
          by_cases ht : t = .client n
          · subst ht
            exact .inl ⟨by rw [label], taken⟩
          · refine .inr ⟨Pool.step_events_ne taken (Ne.symm ht), fun p hp => ?_⟩
            rwa [Pool.step_running_ne taken (Ne.symm ht)] at hp
      | attempt j v env m label top front idle eq =>
          subst eq
          refine .inr ⟨rfl, fun p hp => ?_⟩
          rwa [Pool.running_setRunning_ne _ (by simp)] at hp
      | handled j v m label handling done eq =>
          subst eq
          refine .inr ⟨rfl, fun p hp => ?_⟩
          change (x.setRunning (.renderer j) none).running (.client n) = some p at hp
          rwa [Pool.running_setRunning_ne x (by simp)] at hp
      | popFront j m label popping eq => exact .inr (by subst eq; exact ⟨rfl, fun _ hp => hp⟩)
      | wait j l label queue calls pc eq => exact .inr (by subst eq; exact ⟨rfl, fun _ hp => hp⟩)
      | emptyBufferDone j index label eq =>
          exact .inr (by subst eq; exact ⟨rfl, fun _ hp => hp⟩)

/-- While thread `n` pauses. -/
structure Pausing (n : Nat) (past : List Event) (x : FeedSystem) : Prop where
  runs : x.Runs fun _ => StaysStopped
  told : ToldToStop n past x.world
  pause : ∀ p, x.running (.client n) = some p → Ensures (.client n) (PauseRely n)
    (fun _ => ToldToStop n past) (fun _ => ToldToStop n past) p x.world

theorem pauseRely_trans (n : Nat) (u v w : FeedWorld) (h : PauseRely n u v)
    (h' : PauseRely n v w) : PauseRely n u w :=
  ⟨h'.1.trans h.1, fun i hi => h'.2 i (h.2 i hi)⟩

theorem Pausing.step (h : Pausing n past x) (hplay : a.plays = false)
    (hcalls : a.callsBy n = false) (hy : x.threadStep a = some y) : Pausing n past y := by
  obtain ⟨hruns, hstopped⟩ := stopped_step h.runs hplay hy
  rcases client_cases hcalls hy with ⟨-, taken⟩ | ⟨hevents, hrunning⟩
  · obtain ⟨⟨p, hp⟩, -⟩ := Pool.step_running taken
    obtain ⟨hG, q, hq, hens⟩ := Pool.step_ensures (pauseRely_refl n) taken hp (h.pause p hp)
    refine ⟨hruns, ?_, fun r hr => ?_⟩
    · rcases hG with hsame | hG
      · rw [hsame]
        exact h.told
      · exact hG
    · rw [hq, Option.some.injEq] at hr
      exact hr ▸ hens
  · have hR : PauseRely n x.world y.world := ⟨hevents, hstopped⟩
    refine ⟨hruns, h.told.stable hR, fun p hp => ?_⟩
    exact (h.pause p (hrunning p hp)).stable (pauseRely_trans n) hR

/-- Once both loopers are told to stop, after the state `y`. -/
structure Paused (i : StreamType) (past : List Event) (y x : FeedSystem) : Prop where
  runs : x.Runs fun _ => StaysStopped
  stopped : Stopped x.world.state
  attempt : WithinAttempt i past x
  idle : y.running (.renderer i) = none → x.running (.renderer i) = none
  since : Since (.renderer i) (y.world.events (.renderer i))
    (fun es => y.running (.renderer i) = none → es = []) x.world

theorem Paused.step (h : Paused i past y x) (hplay : a.plays = false)
    (hz : x.threadStep a = some z) : Paused i past y z := by
  obtain ⟨hruns, hkeep⟩ := stopped_step h.runs hplay hz
  have hnot : (x.looper i).running ≠ true := by
    rw [show (x.looper i).running = false from h.stopped i]
    decide
  have hattempt : WithinAttempt i past z := by
    rcases h.attempt.step hz with hattempt | ⟨hrunning, -⟩
    · exact hattempt
    · exact absurd hrunning hnot
  have hstopped : Stopped z.world.state := fun j => hkeep j (h.stopped j)
  cases rendererEffect i hz with
  | apart events running =>
      exact ⟨hruns, hstopped, hattempt, fun hidle => running.trans (h.idle hidle),
        h.since.same events⟩
  | attempt env runs idle running log => exact absurd runs hnot
  | handled v done running log =>
      exact ⟨hruns, hstopped, hattempt, fun _ => running,
        h.since.same (World.events_congr log _)⟩
  | step label taken =>
      -- an attempt is under way, and was when the loopers were told to stop
      obtain ⟨⟨p, hp⟩, q, hq⟩ := Pool.step_running taken
      have hbusy : y.running (.renderer i) ≠ none := fun hidle => by
        rw [h.idle hidle] at hp
        cases hp
      obtain ⟨es, hes, -⟩ := h.since
      refine ⟨hruns, hstopped, hattempt, fun hidle => absurd hidle hbusy,
        es ++ (x.shows (.renderer i)).toList, ?_, fun hidle => absurd hidle hbusy⟩
      rw [Pool.step_events_self taken, hes, List.append_assoc]

/-- The attempts let no looper run. -/
theorem staysStopped_of_exec {s : Esplayer} {acts : List ThreadAct}
    (hx : Lts.exec threadStep (Pool.init s) acts = some x) {p : Op Int}
    (hp : x.running (.renderer i) = some p) : p.Does StaysStopped := by
  let Q : Thread → Action → Prop := fun t a => ∀ j, t = .renderer j → StaysStopped a
  have hclient : ∀ (n : Nat) (p : Op Int), p.Does (Q (.client n)) :=
    fun n p => (does_true p).mono fun _ _ j hj => by cases hj
  have hruns : x.Runs Q := by
    refine Lts.exec_invariant (Q := fun _ => True) (fun x a y _ h hy => ?_) (fun _ _ => trivial)
      (runs_init Q s) hx
    refine (h.step_of (fun n c _ => hclient n _) (fun n c env _ _ => hclient n _)
      (fun env i => ?_) hy).1
    exact (staysStopped_feedMessage env i).mono fun _ ha _ _ => ha
  exact (hruns _ p hp).mono fun _ ha => ha i rfl

end Runs

/-- A frame is fed and an attempt obtains it. -/
def obtainedFrame : List ThreadAct :=
  (feedOne 1 ++ [FeedAct.look .videoEs resultSuccess {}] ++
    List.replicate 3 (FeedAct.step (.renderer .videoEs))).map .feed

/-- Another thread pauses up to the move of the status. -/
def pausingSteps : List ThreadAct := List.replicate 18 (.feed (.step (.client 1)))

/-- The attempt goes on to its end. -/
def lateSteps : List ThreadAct := List.replicate 11 (.feed (.step (.renderer .videoEs)))

end DirectMedia
