import DirectMedia.Player.Transitions

set_option autoImplicit false

/-! # The components of a loaded player

A load that succeeds has created the clock and the components of the streams its metadata enables,
and no others (`load_held`). Until the player is unloaded no operation changes which components
there are, so they can be told from the two flags `enable_video_` and `enable_audio_`.
-/

namespace DirectMedia

open Prog

/-- The components of a player with audio, with video, or with both. -/
def ComponentName.builtFor (audio video : Bool) : ComponentName → Bool
  | .clock => true
  | .videoCodec | .videoRenderer | .videoScheduler => video
  | .audioCodec | .audioRenderer => audio

/-- The components that `load` creates, in order. -/
def loadOrder (audio video : Bool) : List ComponentName :=
  .clock :: ((if video then [.videoCodec, .videoRenderer, .videoScheduler] else []) ++
    if audio then [.audioCodec, .audioRenderer] else [])

theorem mem_loadOrder (audio video : Bool) (c : ComponentName) :
    decide (c ∈ loadOrder audio video) = c.builtFor audio video := by
  revert audio video
  cases c <;> decide

/-- The components that are held. -/
def Esplayer.held (s : Esplayer) : ComponentName → Bool := fun c => (s.component c).isSome

/-- The enabled streams and the components that are held. -/
def Esplayer.built (s : Esplayer) : (Bool × Bool) × (ComponentName → Bool) :=
  ((s.enableAudio, s.enableVideo), s.held)

theorem held_eq_of_built {s t : Esplayer} (h : t.built = s.built) (c : ComponentName) :
    (t.component c).isSome = (s.component c).isSome :=
  congrFun (congrArg Prod.snd h) c

theorem noComponents_of_built {s t : Esplayer} (h : t.built = s.built) (hs : NoComponents s) :
    NoComponents t := by
  intro c
  have hheld := held_eq_of_built h c
  rw [hs c] at hheld
  exact Option.not_isSome_iff_eq_none.mp (by simp [hheld])

/-! ## Programs that create no component -/

theorem built_performAction (env : Env) {call : Call} (hcall : call.creates = false)
    (s : Esplayer) : (performAction env call s).2.built = s.built := by
  have hflags := ((⟨fun _ _ => rfl, fun _ _ => rfl, fun _ _ => rfl⟩ : Untouched fun s : Esplayer =>
    (s.enableAudio, s.enableVideo)).perform env call).1 s
  have hheld : (performAction env call s).2.held = s.held :=
    funext fun c => performAction_held env hcall s c
  exact Prod.ext hflags hheld

theorem ofOperations_built : OfOperations fun f => ∀ s, (f s).2.built = s.built where
  read _ := rfl
  call env _ hcall s := built_performAction env (Call.creates_of_plain hcall) s
  rate env _ s := built_performAction env rfl s
  admitted _ _ := rfl
  loadedRead _ := rfl
  cleared _ _ := rfl
  clearRenderer _ _ := rfl
  runRenderer _ _ _ := rfl
  runMessages _ _ _ := rfl
  pts _ _ := rfl
  lastPts _ _ := rfl
  eos _ _ := rfl
  trickMode _ _ := rfl
  allowVideo _ := rfl
  targetPlaybackRate _ _ := rfl

/-- No operation but `load` and `unload` changes the components. -/
theorem api_built (env : Env) {a : ApiCall} (hload : a.isLoad = false) (hunload : a ≠ .unload)
    (s : Esplayer) : ((a.prog env).run s).2.built = s.built := by
  have hb := ofOperations_built
  cases a with
  | load metaData units => cases hload
  | unload => exact absurd rfl hunload
  | play => exact Keeps.run (hb.play (fun _ _ => rfl) env) s
  | pause => exact Keeps.run (hb.pause (fun _ _ => rfl) env) s
  | flush => exact Keeps.run (hb.flush (fun _ _ => rfl) env) s
  | stepFrame => exact Keeps.run (hb.stepFrame (fun _ _ => rfl) env) s
  | setPlaybackRate rate => exact Keeps.run (hb.setPlaybackRate env rate) s

/-! ## Programs that create components -/

/-- Where the streams `flags` are enabled, a run of the program that succeeds has created the
components `cs`. -/
def Builds {α : Type} (code : α → Int) (flags : Bool × Bool) (p : Op α) (cs : List ComponentName) :
    Prop :=
  ∀ s, s.built.1 = flags → code (p.run s).1 = 0 →
    (p.run s).2.built = (flags, fun c => s.held c || decide (c ∈ cs))

section Builds

variable {α : Type} {code : α → Int} {flags : Bool × Bool} {cs ds : List ComponentName}
  {rest : Op α}

theorem builds_keeps {p : Op α} (h : p.Keeps Esplayer.built) : Builds code flags p [] := by
  intro s hs _
  rw [h.run s]
  refine Prod.ext hs ?_
  funext c
  simp [Esplayer.built]

theorem Builds.bind {β : Type} {p : Op β} {g : β → Op α} (hp : Builds (fun _ => 0) flags p cs)
    (hg : ∀ b, Builds code flags (g b) ds) : Builds code flags (p >>= g) (cs ++ ds) := by
  intro s hs hcode
  rw [run_bind] at hcode ⊢
  have hfirst := hp s hs rfl
  rw [hg _ _ (congrArg Prod.fst hfirst) hcode]
  refine Prod.ext rfl ?_
  funext c
  have hheld := congrFun (congrArg Prod.snd hfirst) c
  simp only [Esplayer.built] at hheld
  simp [hheld, Bool.or_assoc]

theorem Builds.skip {β : Type} {p : Op β} {g : β → Op α} (hp : p.Keeps Esplayer.built)
    (hg : ∀ b, Builds code flags (g b) ds) : Builds code flags (p >>= g) ds :=
  Builds.bind (builds_keeps hp) hg

theorem Builds.read {β : Type} {f : Esplayer → β} {g : β → Op α} {b : β}
    (hf : ∀ s : Esplayer, s.built.1 = flags → f s = b) (hg : Builds code flags (g b) ds) :
    Builds code flags (Prog.read f >>= g) ds := by
  intro s hs hcode
  rw [run_bind, run_read, hf s hs] at hcode ⊢
  exact hg s hs hcode

theorem Builds.breakIfNonzero {cond : Op Int} {result : α} (hresult : code result ≠ 0)
    (hcond : Builds id flags cond cs) (hrest : Builds code flags rest ds) :
    Builds code flags (DirectMedia.breakIfNonzero cond result rest) (cs ++ ds) := by
  intro s hs hcode
  rw [run_breakIfNonzero] at hcode ⊢
  by_cases hret : (cond.run s).1 = 0
  · rw [if_neg (not_not.mpr hret)] at hcode ⊢
    have hfirst := hcond s hs hret
    rw [hrest _ (congrArg Prod.fst hfirst) hcode]
    refine Prod.ext rfl ?_
    funext c
    have hheld := congrFun (congrArg Prod.snd hfirst) c
    simp only [Esplayer.built] at hheld
    simp [hheld, Bool.or_assoc]
  · rw [if_pos hret] at hcode
    exact absurd hcode hresult

theorem Builds.ite {c : Prop} [Decidable c] {p q : Op α} (hp : Builds code flags p cs)
    (hq : Builds code flags q cs) : Builds code flags (if c then p else q) cs := by
  split
  · exact hp
  · exact hq

variable (env : Env)

theorem keeps_built_perform {call : Call} (hcall : call.creates = false) :
    (perform env call).Keeps Esplayer.built :=
  ⟨built_performAction env hcall, fun _ => trivial⟩

theorem keeps_built_log {call : Call} (hcall : call.creates = false) :
    (logIfNonzero (perform env call)).Keeps Esplayer.built :=
  does_logIfNonzero (keeps_built_perform env hcall)

/-- One more call that creates nothing. -/
theorem Builds.call {call : Call} {result : α} (hcall : call.creates = false)
    (hresult : code result ≠ 0) (hrest : Builds code flags rest ds) :
    Builds code flags (DirectMedia.breakIfNonzero (perform env call) result rest) ds :=
  Builds.breakIfNonzero hresult (builds_keeps (keeps_built_perform env hcall)) hrest

/-- One more call that creates a component. -/
theorem Builds.create (c : ComponentName) {result : α} (hresult : code result ≠ 0)
    (hrest : Builds code flags rest ds) :
    Builds code flags (DirectMedia.breakIfNonzero (perform env (.create c)) result rest)
      (c :: ds) := by
  have hcreate : Builds id flags (perform env (.create c)) [c] → Builds code flags _ ([c] ++ ds) :=
    fun h => Builds.breakIfNonzero hresult h hrest
  refine hcreate fun s hs hret => ?_
  have hret : env (.create c) = 0 := hret
  refine Prod.ext ?_ (funext fun d => ?_)
  · simpa [hret, Call.effect, Esplayer.built] using hs
  · by_cases hd : d = c
    · subst hd
      simp [hret, Call.effect, Esplayer.built, Esplayer.held]
    · simp [hret, Call.effect, Esplayer.built, Esplayer.held, hd]

theorem Builds.steps {steps : List (Int × Call)}
    (hsteps : ∀ x ∈ steps, x.1 ≠ 0 ∧ x.2.creates = false) {rest : Op Int}
    (hrest : Builds id flags rest ds) : Builds id flags (breakSteps env steps rest) ds := by
  induction steps with
  | nil => exact hrest
  | cons x steps ih =>
      obtain ⟨hresult, hcall⟩ := hsteps x (by simp)
      exact Builds.call env hcall hresult (ih fun y hy => hsteps y (by simp [hy]))

/-! ## The parts of load -/

theorem builds_loadStart (result : Int) : Builds id flags (loadStart env result) [] := by
  refine builds_keeps ?_
  refine Keeps.bind (keeps_read _ _) fun _ => Keeps.bind (keeps_read _ _) fun _ => ?_
  refine does_breakIfNonzero (Keeps.ite (keeps_built_perform env rfl) (keeps_pure _ _)) ?_
  exact Keeps.bind (keeps_emit fun _ => rfl) fun _ => keeps_pure _ _

theorem builds_loadAudio {rest : Op Int} (hrest : Builds id flags rest []) :
    Builds id flags (loadAudio env rest) [.audioCodec, .audioRenderer] := by
  have hcreate : Builds id flags (loadAudioComponents env) [.audioCodec, .audioRenderer] :=
    Builds.create env _ (by decide) <| Builds.create env _ (by decide) <|
      builds_keeps (keeps_pure _ _)
  have hheld : ∀ {call : Call} {rest : Op Int}, call.creates = false → Builds id flags rest [] →
      Builds id flags (breakIfNonzero (performIfHeld env .audioCodec call) resultAudioCodecError
        rest) [] := by
    intro call rest hcall hrest
    have hcond : Builds id flags (performIfHeld env .audioCodec call) [] :=
      builds_keeps (Keeps.bind (keeps_read _ _) fun _ =>
        Keeps.ite (keeps_built_perform env hcall) (keeps_pure _ _))
    exact Builds.breakIfNonzero (by decide) hcond hrest
  have hrenderer : Builds id flags (breakSteps env rendererSteps rest) [] :=
    Builds.steps env (by decide) hrest
  refine @Builds.breakIfNonzero _ id flags _ [] _ _ _ (by decide) hcreate ?_
  refine hheld rfl (hheld rfl (hheld rfl (Builds.steps env (by decide) ?_)))
  refine Builds.call env rfl (by decide) (Builds.skip (keeps_built_log env rfl) fun _ => ?_)
  exact Builds.skip (keeps_built_perform env rfl) fun _ =>
    Builds.ite (Builds.steps env (by decide) hrenderer) hrenderer

theorem builds_loadVideo {rest : Op Int} (hrest : Builds id flags rest ds) :
    Builds id flags (loadVideo env rest)
      ([.videoCodec, .videoRenderer, .videoScheduler] ++ ds) := by
  have hcreate : Builds id flags (loadVideoComponents env)
      [.videoCodec, .videoRenderer, .videoScheduler] :=
    Builds.create env _ (by decide) <| Builds.create env _ (by decide) <|
      Builds.create env _ (by decide) <| builds_keeps (keeps_pure _ _)
  refine Builds.breakIfNonzero (by decide) hcreate (Builds.steps env (by decide) ?_)
  refine Builds.skip (keeps_built_log env rfl) fun _ => ?_
  refine Builds.skip (keeps_built_log env rfl) fun _ => ?_
  exact Builds.skip (keeps_built_log env rfl) fun _ => hrest

end Builds

section Load

variable (env : Env) (audio video : Bool)

theorem builds_loadFromAudio (result : Int) :
    Builds id (audio, video) (loadFromAudio env result)
      (if audio then [.audioCodec, .audioRenderer] else []) := by
  refine Builds.read (b := audio) (fun s hs => congrArg Prod.fst hs) ?_
  cases audio with
  | true => exact builds_loadAudio env (builds_loadStart env _)
  | false => exact builds_loadStart env _

theorem builds_loadBody :
    Builds id (audio, video) (loadBody env) (loadOrder audio video) := by
  have hclock : Builds id (audio, video) (loadClockComponent env) [.clock] :=
    Builds.create env _ (by decide) (builds_keeps (keeps_pure _ _))
  refine @Builds.breakIfNonzero _ id _ [.clock] _ _ _ _ (by decide) hclock ?_
  refine Builds.call env rfl (by decide) ?_
  refine Builds.read (b := video) (fun s hs => congrArg Prod.snd hs) ?_
  cases video with
  | true => exact builds_loadVideo env (builds_loadFromAudio env audio true _)
  | false => exact builds_loadFromAudio env audio false _

theorem builds_loadDecoded (metaData : MetaData) :
    Builds Prod.fst (audio, video) (loadDecoded env metaData) (loadOrder audio video) := by
  have hend : Builds Prod.fst (audio, video)
      (loadBody env >>= fun result => pure (result, metaData.decoded))
      (loadOrder audio video) := by
    intro s hs hcode
    rw [run_bind, run_pure] at hcode ⊢
    exact builds_loadBody env audio video s hs hcode
  exact Builds.skip (keeps_write fun _ => rfl) fun _ =>
    Builds.skip (keeps_write fun _ => rfl) fun _ => hend

theorem builds_loadDecoder (metaData : MetaData) {rest : Op (Int × MetaData)}
    {ds : List ComponentName} (hrest : Builds Prod.fst (audio, video) rest ds) :
    Builds Prod.fst (audio, video) (loadDecoder env metaData rest) ds := by
  have hfail : Builds Prod.fst (audio, video) (pure (resultFail, metaData)) ds :=
    fun _ _ hcode => absurd hcode (show resultFail ≠ 0 by decide)
  refine Builds.ite hfail (Builds.ite hrest ?_)
  refine Builds.skip (keeps_write fun _ => rfl) fun _ => ?_
  exact Builds.call env rfl (show resultFail ≠ 0 by decide) hrest

end Load

/-- **The components of a loaded player.** After a load past its entry checks that succeeds on a
player without components, the components are those of the enabled streams. -/
theorem load_built (env : Env) (metaData : MetaData) {s : Esplayer} (hloaded : s.loaded = false)
    (hidle : s.status = .idle) (hnone : NoComponents s)
    (hret : ((load env metaData).run s).1.1 = resultSuccess) :
    ((load env metaData).run s).2.built =
      ((decide (metaData.audioCodec ≠ .none), decide (metaData.videoCodec ≠ .none)),
        ComponentName.builtFor (decide (metaData.audioCodec ≠ .none))
          (decide (metaData.videoCodec ≠ .none))) := by
  have hrun : (load env metaData).run s = (loadAdmitted env metaData).run s := by
    rcases load_cases env metaData s with ⟨h, -⟩ | ⟨-, h, -⟩ | ⟨-, -, h⟩
    · simp [hloaded] at h
    · exact absurd hidle h
    · exact h
  rw [hrun] at hret ⊢
  unfold loadAdmitted at hret ⊢
  rw [run_bind, run_write, run_breakIfNonzero] at hret ⊢
  have hacquire := @keeps_built_perform env .acquireResources rfl
  have hkeep := hacquire.run { s with loaded := true }
  split at hret
  case isTrue => exact absurd hret (show resultFail ≠ resultSuccess by decide)
  case isFalse hgranted =>
    rw [if_neg hgranted]
    generalize ((perform env .acquireResources).run { s with loaded := true }).2 = t at hret hkeep
    -- nothing is created before the loop
    have hnothing : ∀ c, t.held c = false := by
      intro c
      rw [show t.held = s.held from congrArg Prod.snd hkeep]
      simp [Esplayer.held, hnone c]
    unfold loadAcquired at hret ⊢
    rw [run_bind, run_write] at hret ⊢
    generalize haudio : decide (metaData.audioCodec ≠ .none) = audio at hret ⊢
    generalize hvideo : decide (metaData.videoCodec ≠ .none) = video at hret ⊢
    have hdecoded := builds_loadDecoded env audio video metaData
    refine Eq.trans ((?_ : Builds Prod.fst (audio, video) _ (loadOrder audio video)) _ rfl hret) ?_
    · refine Builds.skip (Keeps.onlyIf (keeps_write fun _ => rfl)) fun _ => Builds.ite ?_ hdecoded
      exact Builds.skip (keeps_write fun _ => rfl) fun _ =>
        builds_loadDecoder env audio video metaData hdecoded
    · refine Prod.ext rfl (funext fun c => ?_)
      show (t.held c || decide (c ∈ loadOrder audio video)) = _
      rw [hnothing c, Bool.false_or, mem_loadOrder]

end DirectMedia
