import DirectMedia.Player.Load

set_option autoImplicit false

/-! # When load succeeds

The parts of `load` that come one after the other succeed exactly if their calls do and what
follows them does (`LoadsIff`), so `load` past its entry checks succeeds exactly if every call it
cannot do without succeeds (`loadsIff_loadAdmitted`). Whatever happens, `loaded_` stays set.
-/

namespace DirectMedia

open Prog

/-! ## What the loop of load relies on -/

/-- What the loop of `load` relies on: what there is to build, and the components it holds. -/
structure Building (audio video : Bool) (rate : Int) (held : List ComponentName) (s : Esplayer) :
    Prop where
  audio : s.enableAudio = audio
  video : s.enableVideo = video
  rate : s.targetPlaybackRate = rate
  trickMode : s.trickMode = false
  held : ∀ c ∈ held, (s.component c).isSome

/-- No call takes a component away. -/
theorem perform_held (env : Env) (call : Call) {s : Esplayer} {d : ComponentName}
    (h : (s.component d).isSome) : (((perform env call).run s).2.component d).isSome := by
  change ((performAction env call s).2.component d).isSome
  by_cases hcall : call.creates = false
  · rwa [performAction_held env hcall]
  · cases call
    case create c =>
      by_cases hret : env (.create c) = 0
      · by_cases hd : d = c
        · subst hd
          simp [performAction, hret, Call.effect]
        · simpa [performAction, hret, Call.effect, Function.update_of_ne hd] using h
      · simpa [performAction, hret, Call.failure] using h
    all_goals exact absurd rfl hcall

section Building

variable {audio video : Bool} {rate : Int} {held : List ComponentName}

theorem Building.perform {s : Esplayer} (h : Building audio video rate held s) (env : Env)
    (call : Call) : Building audio video rate held ((perform env call).run s).2 := by
  have hkeep := ((⟨fun _ _ => rfl, fun _ _ => rfl, fun _ _ => rfl⟩ : Untouched fun s : Esplayer =>
    (s.enableAudio, s.enableVideo, s.targetPlaybackRate, s.trickMode)).perform env call).run s
  simp only [Prod.mk.injEq] at hkeep
  obtain ⟨haudio, hvideo, hrate, htrick⟩ := hkeep
  refine ⟨haudio.trans h.audio, hvideo.trans h.video, hrate.trans h.rate, htrick.trans h.trickMode,
    fun c hc => perform_held env call (h.held c hc)⟩

theorem Building.create {s : Esplayer} (h : Building audio video rate held s) {env : Env}
    {c : ComponentName} (hret : env (.create c) = 0) :
    Building audio video rate (c :: held) ((DirectMedia.perform env (.create c)).run s).2 := by
  have hperform := h.perform env (.create c)
  refine ⟨hperform.audio, hperform.video, hperform.rate, hperform.trickMode, fun d hd => ?_⟩
  rcases List.mem_cons.mp hd with rfl | hd
  · simp [hret, Call.effect]
  · exact hperform.held d hd

/-- The run makes the move to `NDL_ESP_STATUS_LOADED`, and ends there. -/
def Completes {α : Type} (p : Op α) (s : Esplayer) : Prop :=
  (p.run s).2.status = .loaded ∧ ∃ old, .transit old .loaded ∈ p.trace s

theorem Completes.bind {α β : Type} {p : Op α} {g : α → Op β} {s : Esplayer}
    (h : Completes (g (p.run s).1) (p.run s).2) : Completes (p >>= g) s := by
  obtain ⟨hstatus, old, hmem⟩ := h
  refine ⟨by rwa [run_bind], old, ?_⟩
  rw [trace_bind]
  exact List.mem_append_right _ hmem

theorem Completes.skip {α : Type} {cond : Op Int} {result : α} {rest : Op α} {s : Esplayer}
    (hret : (cond.run s).1 = 0) (h : Completes rest (cond.run s).2) :
    Completes (breakIfNonzero cond result rest) s :=
  Completes.bind (by rwa [hret])

/-- Where `load` relies on `P`, the program succeeds exactly if `C` holds, and then the load is
complete. -/
def LoadsIff {α : Type} (code : α → Int) (P : Esplayer → Prop) (C : Prop) (p : Op α) : Prop :=
  ∀ s, P s → (code (p.run s).1 = 0 ↔ C) ∧ (code (p.run s).1 = 0 → Completes p s)

/-- One more call that must succeed. -/
theorem loadsIff_break {α : Type} {code : α → Int} {P P' : Esplayer → Prop} {A C : Prop}
    {cond : Op Int} {result : α} {rest : Op α} (hresult : code result ≠ 0)
    (hcond : ∀ s, P s → ((cond.run s).1 = 0 ↔ A) ∧ ((cond.run s).1 = 0 → P' (cond.run s).2))
    (h : LoadsIff code P' C rest) : LoadsIff code P (A ∧ C) (breakIfNonzero cond result rest) := by
  intro s hs
  obtain ⟨hA, hnext⟩ := hcond s hs
  rw [run_breakIfNonzero]
  by_cases hret : (cond.run s).1 = 0
  · obtain ⟨hiff, hdone⟩ := h _ (hnext hret)
    rw [if_neg (not_not.mpr hret), and_iff_right (hA.mp hret)]
    exact ⟨hiff, fun h0 => Completes.skip hret (hdone h0)⟩
  · rw [if_pos hret]
    exact ⟨⟨fun h0 => absurd h0 hresult, fun hAC => absurd (hA.mpr hAC.1) hret⟩,
      fun h0 => absurd h0 hresult⟩

theorem loadsIff_read {α β : Type} {code : β → Int} {P : Esplayer → Prop} {C : Prop}
    {f : Esplayer → α} {g : α → Op β} (a : α) (hf : ∀ s, P s → f s = a)
    (h : LoadsIff code P C (g a)) : LoadsIff code P C (read f >>= g) := by
  intro s hs
  obtain ⟨hiff, hdone⟩ := h s hs
  rw [run_bind, run_read, hf s hs]
  refine ⟨hiff, fun h0 => Completes.bind ?_⟩
  rw [run_read, hf s hs]
  exact hdone h0

theorem loadsIff_write {β : Type} {code : β → Int} {P P' : Esplayer → Prop} {C : Prop}
    {f : Esplayer → Esplayer} {g : Unit → Op β} (hf : ∀ s, P s → P' (f s))
    (h : LoadsIff code P' C (g ())) : LoadsIff code P C (write f >>= g) := by
  intro s hs
  obtain ⟨hiff, hdone⟩ := h (f s) (hf s hs)
  exact ⟨hiff, fun h0 => Completes.bind (hdone h0)⟩

theorem loadsIff_onlyIf {β : Type} {code : β → Int} {P : Esplayer → Prop} {C c : Prop} [Decidable c]
    {f : Esplayer → Esplayer} {g : Unit → Op β} (hf : ∀ s, P s → P (f s))
    (h : LoadsIff code P C (g ())) : LoadsIff code P C (onlyIf c (write f) >>= g) := by
  by_cases hc : c
  · rw [onlyIf, if_pos hc]
    exact loadsIff_write hf h
  · rw [onlyIf, if_neg hc]
    exact h

theorem loadsIff_map {α β : Type} {code : α → Int} {code' : β → Int} {P : Esplayer → Prop}
    {C : Prop} {p : Op α} {f : α → β} (hf : ∀ a, code' (f a) = code a) (h : LoadsIff code P C p) :
    LoadsIff code' P C (p >>= fun a => pure (f a)) := by
  intro s hs
  obtain ⟨hiff, hdone⟩ := h s hs
  rw [run_bind, run_pure, hf]
  refine ⟨hiff, fun h0 => ?_⟩
  obtain ⟨hstatus, old, hmem⟩ := hdone h0
  exact ⟨by rwa [run_bind, run_pure], old, by rw [trace_bind]; exact List.mem_append_left _ hmem⟩

variable {C : Prop} {rest : Op Int} (env : Env)

theorem LoadsIff.step (call : Call) {result : Int} (hresult : result ≠ 0)
    (h : LoadsIff id (Building audio video rate held) C rest) :
    LoadsIff id (Building audio video rate held) (env call = 0 ∧ C)
      (breakIfNonzero (perform env call) result rest) :=
  loadsIff_break hresult (fun _ hs => ⟨Iff.rfl, fun _ => hs.perform env call⟩) h

theorem LoadsIff.log (call : Call) (h : LoadsIff id (Building audio video rate held) C rest) :
    LoadsIff id (Building audio video rate held) C
      (logIfNonzero (perform env call) >>= fun _ => rest)
    := by
  intro s hs
  obtain ⟨hiff, hdone⟩ := h _ (hs.perform env call)
  rw [run_bind, run_logIfNonzero]
  refine ⟨hiff, fun h0 => Completes.bind ?_⟩
  rw [run_logIfNonzero]
  exact hdone h0

theorem LoadsIff.stepIfHeld {c : ComponentName} (call : Call) {result : Int}
    (hresult : result ≠ 0) (hheld : c ∈ held)
    (h : LoadsIff id (Building audio video rate held) C rest) :
    LoadsIff id (Building audio video rate held) (env call = 0 ∧ C)
      (breakIfNonzero (performIfHeld env c call) result rest) := by
  refine loadsIff_break hresult (fun s hs => ?_) h
  have hrun : (performIfHeld env c call).run s = (perform env call).run s := by
    rw [run_performIfHeld, if_pos (hs.held c hheld), run_perform]
  rw [hrun]
  exact ⟨Iff.rfl, fun _ => hs.perform env call⟩

theorem LoadsIff.steps (steps : List (Int × Call)) (hresult : ∀ x ∈ steps, x.1 ≠ 0)
    (h : LoadsIff id (Building audio video rate held) C rest) :
    LoadsIff id (Building audio video rate held) ((∀ x ∈ steps, env x.2 = 0) ∧ C)
      (breakSteps env steps rest) := by
  induction steps with
  | nil => simpa [breakSteps] using h
  | cons x steps ih =>
      have hstep := LoadsIff.step env x.2 (hresult x (by simp))
        (ih fun y hy => hresult y (by simp [hy]))
      simpa [breakSteps, and_assoc] using hstep

/-- Creating components one after the other. -/
theorem run_creates {cs : List (Int × ComponentName)} (hresult : ∀ x ∈ cs, x.1 ≠ 0)
    {s : Esplayer} (hs : Building audio video rate held s) :
    let r := (breakSteps env (cs.map fun x => (x.1, .create x.2)) (pure resultSuccess)).run s
    (r.1 = 0 ↔ ∀ x ∈ cs, env (.create x.2) = 0) ∧
      (r.1 = 0 → Building audio video rate ((cs.map (·.2)).reverse ++ held) r.2) := by
  induction cs generalizing s held with
  | nil => simpa [breakSteps, resultSuccess] using hs
  | cons x cs ih =>
      simp only [List.map_cons, breakSteps, run_breakIfNonzero]
      by_cases hret : env (.create x.2) = 0
      · have := ih (fun y hy => hresult y (by simp [hy])) (hs.create hret)
        simpa [hret] using this
      · simp [hret, hresult x (by simp)]

theorem LoadsIff.creates (cs : List (Int × ComponentName)) (hcs : ∀ x ∈ cs, x.1 ≠ 0)
    {result : Int} (hresult : result ≠ 0)
    (h : LoadsIff id (Building audio video rate ((cs.map (·.2)).reverse ++ held)) C rest) :
    LoadsIff id (Building audio video rate held) ((∀ x ∈ cs, env (.create x.2) = 0) ∧ C)
      (breakIfNonzero
        (breakSteps env (cs.map fun x => (x.1, .create x.2)) (pure resultSuccess)) result rest) :=
  loadsIff_break hresult (fun _ hs => run_creates env hcs hs) h

/-! The parts of the loop, from the last to the first. -/

/-- The wait mask for what there is to build. -/
def waitMask (audio video : Bool) (rate : Int) : Nat :=
  if (video && audio && rate != 1000) = true then 80
  else (if audio then 1 else 0) ||| (if video then 2 else 0)

theorem startMask_building {s : Esplayer} (hs : Building audio video rate held s) :
    startMask s = waitMask audio video rate := by
  simp only [startMask, waitMask, portMask, hs.audio, hs.video, hs.rate, hs.trickMode,
    Bool.false_or]

theorem loadsIff_loadStart (hclock : .clock ∈ held) {result : Int} (hresult : result ≠ 0) :
    LoadsIff id (Building audio video rate held)
      (env (.setWaitingForStartTime (waitMask audio video rate)) = 0) (loadStart env result) := by
  have hend : LoadsIff id (fun _ => True) True (transit .loaded >>= fun _ => pure resultSuccess) :=
    fun s _ => ⟨⟨fun _ => trivial, fun _ => rfl⟩, fun _ => ⟨rfl, s.status, by simp⟩⟩
  have hstart : LoadsIff id (Building audio video rate held)
      (env (.setWaitingForStartTime (waitMask audio video rate)) = 0 ∧ True) _ :=
    loadsIff_break hresult
      (fun s _ => ⟨by rw [run_perform], fun _ => trivial⟩) hend
  rw [and_true] at hstart
  refine loadsIff_read true (fun s hs => hs.held _ hclock) ?_
  exact loadsIff_read _ (fun s hs => startMask_building hs) hstart

theorem loadsIff_loadAudioTunnel (h : LoadsIff id (Building audio video rate held) C rest) :
    LoadsIff id (Building audio video rate held)
      ((env (.setupTunnel .audioCodec) = 0 → ∀ x ∈ tunnelSteps, env x.2 = 0) ∧
        (∀ x ∈ rendererSteps, env x.2 = 0) ∧ C) (loadAudioTunnel env rest) := by
  intro s hs
  have hrenderer := LoadsIff.steps env rendererSteps (by decide) h
  have htunnel := LoadsIff.steps env tunnelSteps (by decide) hrenderer
  have hs' := hs.perform env (.setupTunnel .audioCodec)
  rw [loadAudioTunnel, run_bind, run_ite]
  by_cases hret : env (.setupTunnel .audioCodec) = 0
  · obtain ⟨hiff, hdone⟩ := htunnel _ hs'
    have hpos : ((perform env (.setupTunnel .audioCodec)).run s).1 = 0 := hret
    rw [if_pos hpos, forall_prop_of_true hret]
    exact ⟨hiff, fun h0 => Completes.bind (by rw [if_pos hpos]; exact hdone h0)⟩
  · obtain ⟨hiff, hdone⟩ := hrenderer _ hs'
    have hneg : ((perform env (.setupTunnel .audioCodec)).run s).1 ≠ 0 := hret
    rw [if_neg hneg, and_iff_right fun h0 => absurd h0 hret]
    exact ⟨hiff, fun h0 => Completes.bind (by rw [if_neg hneg]; exact hdone h0)⟩

/-- The calls that the audio part of `load` needs to succeed. -/
def AudioAccepted (env : Env) : Prop :=
  (env (.create .audioCodec) = 0 ∧ env (.create .audioRenderer) = 0) ∧
  env .setAudioCodecFormat = 0 ∧
  env (.configureInputBuffers .audioCodec .audioRenderer) = 0 ∧
  env (.configureOutputBuffers .audioCodec) = 0 ∧
  (∀ x ∈ audioSteps, env x.2 = 0) ∧
  env (.getParam .audioCodec .paramAudioPcm) = 0 ∧
  (env (.setupTunnel .audioCodec) = 0 → ∀ x ∈ tunnelSteps, env x.2 = 0) ∧
  ∀ x ∈ rendererSteps, env x.2 = 0

theorem loadsIff_loadAudio
    (h : LoadsIff id (Building audio video rate (.audioRenderer :: .audioCodec :: held)) C rest) :
    LoadsIff id (Building audio video rate held) (AudioAccepted env ∧ C) (loadAudio env rest) := by
  have htunnel := LoadsIff.log env (.setParam .audioRenderer .paramAudioPcm)
    (loadsIff_loadAudioTunnel env h)
  have hparam := LoadsIff.step env (.getParam .audioCodec .paramAudioPcm)
    (show resultFail ≠ 0 by decide) htunnel
  have hsteps := LoadsIff.steps env audioSteps (by decide) hparam
  have herror : resultAudioCodecError ≠ 0 := by decide
  have hcodec : ComponentName.audioCodec ∈ .audioRenderer :: .audioCodec :: held := by simp
  have houtput := LoadsIff.stepIfHeld env (.configureOutputBuffers .audioCodec) herror hcodec hsteps
  have hinput := LoadsIff.stepIfHeld env (.configureInputBuffers .audioCodec .audioRenderer) herror
    hcodec houtput
  have hformat := LoadsIff.stepIfHeld env .setAudioCodecFormat herror hcodec hinput
  have hall := LoadsIff.creates env
    [(resultAudioCodecError, .audioCodec), (resultAudioRenderError, .audioRenderer)] (by decide)
    (show resultAudioUnsupported ≠ 0 by decide) hformat
  simpa [AudioAccepted, and_assoc, loadAudio, loadAudioComponents, returnIfNonzero] using hall

/-- The calls that the video part of `load` needs to succeed. -/
def VideoAccepted (env : Env) : Prop :=
  (env (.create .videoCodec) = 0 ∧ env (.create .videoRenderer) = 0 ∧
    env (.create .videoScheduler) = 0) ∧
  ∀ x ∈ videoSteps, env x.2 = 0

theorem loadsIff_loadVideo
    (h : LoadsIff id
      (Building audio video rate (.videoScheduler :: .videoRenderer :: .videoCodec :: held)) C
      rest) :
    LoadsIff id (Building audio video rate held) (VideoAccepted env ∧ C) (loadVideo env rest) := by
  have hconceal := LoadsIff.log env (.setParam .videoCodec .paramBrcmVideoDecodeErrorConcealment) h
  have hnotify := LoadsIff.log env (.setParam .videoCodec .configRequestCallback) hconceal
  have hidle := LoadsIff.log env (.setState .videoRenderer .idle) hnotify
  have hsteps := LoadsIff.steps env videoSteps (by decide) hidle
  have hall := LoadsIff.creates env
    [(resultVideoCodecError, .videoCodec), (resultVideoRenderError, .videoRenderer),
      (resultVideoRenderError, .videoScheduler)] (by decide)
    (show resultVideoUnsupported ≠ 0 by decide) hsteps
  simpa [VideoAccepted, and_assoc, loadVideo, loadVideoComponents] using hall

/-- The calls that the loop of `load` needs to succeed. -/
structure BodyAccepted (env : Env) (audio video : Bool) (rate : Int) : Prop where
  clockReady : env (.create .clock) = 0 ∧ env (.setState .clock .idle) = 0
  videoReady : video = true → VideoAccepted env
  audioReady : audio = true → AudioAccepted env
  startReady : env (.setWaitingForStartTime (waitMask audio video rate)) = 0

theorem loadsIff_loadFromAudio (hclock : .clock ∈ held) {result : Int} (hresult : result ≠ 0) :
    LoadsIff id (Building audio video rate held)
      ((audio = true → AudioAccepted env) ∧
        env (.setWaitingForStartTime (waitMask audio video rate)) = 0)
      (loadFromAudio env result) := by
  refine loadsIff_read audio (fun s hs => hs.audio) ?_
  cases audio with
  | false => simpa using loadsIff_loadStart env hclock hresult
  | true =>
      have hstart : LoadsIff id (Building true video rate (.audioRenderer :: .audioCodec :: held)) _
          (loadStart env resultAudioStateError) :=
        loadsIff_loadStart env (by simp [hclock]) (by decide)
      simpa using loadsIff_loadAudio env hstart

theorem loadsIff_loadComponents (hclock : .clock ∈ held) :
    LoadsIff id (Building audio video rate held)
      ((video = true → VideoAccepted env) ∧ (audio = true → AudioAccepted env) ∧
        env (.setWaitingForStartTime (waitMask audio video rate)) = 0)
      (do
        let video ← read (·.enableVideo)
        if video then loadVideo env (loadFromAudio env resultVideoTunnelError)
        else loadFromAudio env resultClockStateError) := by
  refine loadsIff_read video (fun s hs => hs.video) ?_
  cases video with
  | false =>
      simpa using loadsIff_loadFromAudio env hclock (show resultClockStateError ≠ 0 by decide)
  | true =>
      have haudio : LoadsIff id
          (Building audio true rate (.videoScheduler :: .videoRenderer :: .videoCodec :: held)) _
          (loadFromAudio env resultVideoTunnelError) :=
        loadsIff_loadFromAudio env (by simp [hclock]) (by decide)
      simpa using loadsIff_loadVideo env haudio

theorem loadsIff_loadBody :
    LoadsIff id (Building audio video rate []) (BodyAccepted env audio video rate)
      (loadBody env) := by
  have hcomponents : LoadsIff id (Building audio video rate [.clock]) _ _ :=
    loadsIff_loadComponents env (by simp)
  have hidle := LoadsIff.step env (.setState .clock .idle)
    (show resultClockStateError ≠ 0 by decide) hcomponents
  have hall := LoadsIff.creates env [(resultClockError, .clock)] (by decide)
    (show resultClockError ≠ 0 by decide) hidle
  intro s hs
  obtain ⟨hiff, hloaded⟩ := hall s hs
  refine ⟨hiff.trans ?_, hloaded⟩
  constructor
  · rintro ⟨hclock, hidle, hvideo, haudio, hstart⟩
    exact ⟨⟨by simpa using hclock, hidle⟩, hvideo, haudio, hstart⟩
  · rintro ⟨⟨hclock, hidle⟩, hvideo, haudio, hstart⟩
    exact ⟨by simpa using hclock, hidle, hvideo, haudio, hstart⟩

end Building

/-- Every call that `load` cannot do without succeeds. -/
structure LoadAccepted (env : Env) (metaData : MetaData) (rate : Int) : Prop where
  resources : env .acquireResources = 0
  decoder : metaData.audioCodec ≠ .none → metaData.audioCodec.codecId ≠ .pcmS16le →
    env .openAudio = 0
  body : BodyAccepted env (decide (metaData.audioCodec ≠ .none))
    (decide (metaData.videoCodec ≠ .none)) rate

theorem codecId_ne_none {codec : AudioCodec} (h : codec ≠ .none) : codec.codecId ≠ .none := by
  cases codec <;> simp_all [AudioCodec.codecId]

/-- What is to be played, and how fast. -/
structure Enabled (audio video : Bool) (rate : Int) (s : Esplayer) : Prop where
  audio : s.enableAudio = audio
  video : s.enableVideo = video
  rate : s.targetPlaybackRate = rate

theorem loadsIff_loadDecoded (env : Env) (metaData : MetaData) (audio video : Bool) (rate : Int) :
    LoadsIff Prod.fst (Enabled audio video rate) (BodyAccepted env audio video rate)
      (loadDecoded env metaData) := by
  have hbody : LoadsIff Prod.fst (Building audio video rate []) _
      (loadBody env >>= fun result => pure (result, metaData.decoded)) :=
    loadsIff_map (fun _ => rfl) (loadsIff_loadBody env)
  have hreset : LoadsIff Prod.fst (Enabled audio video rate) _
      (write (fun s => { s with eos := fun _ => false, trickMode := false }) >>= fun _ =>
        loadBody env >>= fun result => pure (result, metaData.decoded)) :=
    loadsIff_write (fun _ hs => ⟨hs.audio, hs.video, hs.rate, rfl, by simp⟩) hbody
  exact loadsIff_write (fun _ hs => ⟨hs.audio, hs.video, hs.rate⟩) hreset

theorem loadsIff_loadDecoder (env : Env) (metaData : MetaData) {P : Esplayer → Prop} {C : Prop}
    {rest : Op (Int × MetaData)} (haudio : metaData.audioCodec ≠ .none)
    (hP : ∀ s codec, P s → P { s with swDecoder := some codec })
    (h : LoadsIff Prod.fst P C rest) :
    LoadsIff Prod.fst P ((metaData.audioCodec.codecId ≠ .pcmS16le → env .openAudio = 0) ∧ C)
      (loadDecoder env metaData rest) := by
  rw [loadDecoder, if_neg (codecId_ne_none haudio)]
  by_cases hpcm : metaData.audioCodec.codecId = .pcmS16le
  · simpa [hpcm] using h
  · have hopen : LoadsIff Prod.fst P (env .openAudio = 0 ∧ C)
        (breakIfNonzero (perform env .openAudio) (resultFail, metaData) rest) := by
      refine loadsIff_break (show resultFail ≠ 0 by decide) (fun s hs => ⟨Iff.rfl, fun _ => ?_⟩) h
      simpa [Call.effect, Call.failure] using hs
    simpa [hpcm] using loadsIff_write (fun s hs => hP s _ hs) hopen

/-- With or without the software decoder. -/
theorem loadsIff_loadAudioInfo (env : Env) (metaData : MetaData) (audio video : Bool) (rate : Int) :
    LoadsIff Prod.fst (Enabled audio video rate)
      ((metaData.audioCodec ≠ .none → metaData.audioCodec.codecId ≠ .pcmS16le →
        env .openAudio = 0) ∧ BodyAccepted env audio video rate)
      (if metaData.audioCodec ≠ .none then
        write (fun s => { s with md := s.md.copyAudio metaData }) >>= fun _ =>
          loadDecoder env metaData (loadDecoded env metaData)
      else loadDecoded env metaData) := by
  have hdecoded := loadsIff_loadDecoded env metaData audio video rate
  by_cases hnone : metaData.audioCodec = .none
  · rw [if_neg (not_not.mpr hnone), and_iff_right fun h => absurd hnone h]
    exact hdecoded
  · have hdecoder := loadsIff_loadDecoder env metaData hnone
      (fun s codec hs => (⟨hs.audio, hs.video, hs.rate⟩ : Enabled audio video rate _)) hdecoded
    rw [if_pos hnone, forall_prop_of_true hnone]
    exact loadsIff_write (fun s hs => ⟨hs.audio, hs.video, hs.rate⟩) hdecoder

theorem loadsIff_loadAcquired (env : Env) (metaData : MetaData) (rate : Int) :
    LoadsIff Prod.fst (fun s => s.targetPlaybackRate = rate)
      ((metaData.audioCodec ≠ .none → metaData.audioCodec.codecId ≠ .pcmS16le →
        env .openAudio = 0) ∧
      BodyAccepted env (decide (metaData.audioCodec ≠ .none))
        (decide (metaData.videoCodec ≠ .none)) rate) (loadAcquired env metaData) := by
  have haudio := loadsIff_loadAudioInfo env metaData (decide (metaData.audioCodec ≠ .none))
    (decide (metaData.videoCodec ≠ .none)) rate
  exact loadsIff_write (fun s hs => ⟨rfl, rfl, hs⟩)
    (loadsIff_onlyIf (fun s hs => ⟨hs.audio, hs.video, hs.rate⟩) haudio)

/-- `load` past its entry checks succeeds exactly if every call it cannot do without succeeds, and
then the load is complete. -/
theorem loadsIff_loadAdmitted (env : Env) (metaData : MetaData) (rate : Int) :
    LoadsIff Prod.fst (fun s => s.targetPlaybackRate = rate) (LoadAccepted env metaData rate)
      (loadAdmitted env metaData) := by
  have hkeep := ((⟨fun _ _ => rfl, fun _ _ => rfl, fun _ _ => rfl⟩ :
    Untouched Esplayer.targetPlaybackRate).perform env .acquireResources).run
  have hacquire : LoadsIff Prod.fst (fun s => s.targetPlaybackRate = rate)
      (env .acquireResources = 0 ∧ _)
      (breakIfNonzero (perform env .acquireResources) (resultFail, metaData)
        (loadAcquired env metaData)) :=
    loadsIff_break (show resultFail ≠ 0 by decide)
      (fun s hs => ⟨by rw [run_perform], fun _ => (hkeep s).trans hs⟩)
      (loadsIff_loadAcquired env metaData rate)
  have hadmitted : LoadsIff Prod.fst (fun s => s.targetPlaybackRate = rate) _
      (loadAdmitted env metaData) :=
    loadsIff_write (fun _ hs => hs) hacquire
  intro s hs
  obtain ⟨hiff, hdone⟩ := hadmitted s hs
  exact ⟨hiff.trans ⟨fun h => ⟨h.1, h.2.1, h.2.2⟩, fun h => ⟨h.resources, h.decoder, h.body⟩⟩,
    hdone⟩

/-! ## The actions of load -/

/-- The call changes the scale of the clock. -/
def Call.setsRate : Call → Bool
  | .setPlaybackRate _ => true
  | _ => false

/-- The loop of `load` after the clock has been created. -/
def loadAfterClock (env : Env) : Op Int :=
  breakIfNonzero (perform env (.setState .clock .idle)) resultClockStateError do
    let video ← read (·.enableVideo)
    if video then loadVideo env (loadFromAudio env resultVideoTunnelError)
    else loadFromAudio env resultClockStateError

theorem loadBody_eq (env : Env) :
    loadBody env = breakIfNonzero (loadClockComponent env) resultClockError (loadAfterClock env) :=
  rfl

/-- A property of all actions that `load` consists of once it has set `loaded_`. It makes every
call but the one that changes the rate. -/
structure OfLoad (Q : Action → Prop) : Prop where
  read : Q fun s => (none, s)
  call : ∀ env call, call.setsRate = false → Q (performAction env call)
  transit : Q fun s => (some (.transit s.status .loaded), { s with status := .loaded })
  enable : ∀ audio video, Q fun s => (none, { s with enableAudio := audio, enableVideo := video })
  md : ∀ g : Esplayer → _, Q fun s => (none, { s with md := g s })
  swDecoder : ∀ d, Q fun s => (none, { s with swDecoder := d })
  eos : Q fun s => (none, { s with eos := fun _ => false, trickMode := false })

section OfLoad

variable {Q : Action → Prop} (h : OfLoad Q) (env : Env)

include h

theorem OfLoad.perform {call : Call} (hcall : call.setsRate = false) : (perform env call).Does Q :=
  ⟨h.call env call hcall, fun _ => trivial⟩

theorem OfLoad.performIfHeld (c : ComponentName) {call : Call} (hcall : call.setsRate = false) :
    (performIfHeld env c call).Does Q :=
  Does.bind (does_read _ h.read) fun _ => Does.ite (fun _ => h.perform env hcall) fun _ =>
    does_pure _

theorem OfLoad.steps {steps : List (Int × Call)} (hsteps : ∀ x ∈ steps, x.2.setsRate = false)
    {rest : Op Int} (hrest : rest.Does Q) : (breakSteps env steps rest).Does Q := by
  induction steps with
  | nil => exact hrest
  | cons x steps ih =>
      exact does_breakIfNonzero (h.perform env (hsteps x (by simp)))
        (ih fun y hy => hsteps y (by simp [hy]))

theorem OfLoad.loadStart (result : Int) : (loadStart env result).Does Q := by
  refine Does.bind (does_read _ h.read) fun _ => Does.bind (does_read _ h.read) fun _ => ?_
  refine does_breakIfNonzero (Does.ite (fun _ => h.perform env rfl) fun _ => does_pure _) ?_
  exact Does.bind (does_emit _ _ h.transit) fun _ => does_pure _

theorem OfLoad.loadAudio {rest : Op Int} (hrest : rest.Does Q) : (loadAudio env rest).Does Q := by
  refine does_breakIfNonzero (h.steps env (by decide) (does_pure _)) ?_
  refine does_breakIfNonzero (h.performIfHeld env _ rfl) ?_
  refine does_breakIfNonzero (h.performIfHeld env _ rfl) ?_
  refine does_breakIfNonzero (h.performIfHeld env _ rfl) ?_
  refine h.steps env (by decide) ?_
  refine does_breakIfNonzero (h.perform env rfl) ?_
  refine Does.bind (does_logIfNonzero (h.perform env rfl)) fun _ => ?_
  have hrenderer : (breakSteps env rendererSteps rest).Does Q := h.steps env (by decide) hrest
  exact Does.bind (h.perform env rfl) fun _ =>
    Does.ite (fun _ => h.steps env (by decide) hrenderer) fun _ => hrenderer

theorem OfLoad.loadVideo {rest : Op Int} (hrest : rest.Does Q) : (loadVideo env rest).Does Q := by
  refine does_breakIfNonzero (h.steps env (by decide) (does_pure _)) ?_
  refine h.steps env (by decide) ?_
  refine Does.bind (does_logIfNonzero (h.perform env rfl)) fun _ => ?_
  refine Does.bind (does_logIfNonzero (h.perform env rfl)) fun _ => ?_
  exact Does.bind (does_logIfNonzero (h.perform env rfl)) fun _ => hrest

theorem OfLoad.loadAfterClock : (loadAfterClock env).Does Q := by
  have haudio : ∀ result, (loadFromAudio env result).Does Q := fun result =>
    Does.bind (does_read _ h.read) fun _ =>
      Does.ite (fun _ => h.loadAudio env (h.loadStart env _)) fun _ => h.loadStart env _
  refine does_breakIfNonzero (h.perform env rfl) ?_
  exact Does.bind (does_read _ h.read) fun _ =>
    Does.ite (fun _ => h.loadVideo env (haudio _)) fun _ => haudio _

theorem OfLoad.loadBody : (loadBody env).Does Q :=
  does_breakIfNonzero (h.steps env (by decide) (does_pure _)) (h.loadAfterClock env)

theorem OfLoad.loadAcquired (metaData : MetaData) : (loadAcquired env metaData).Does Q := by
  have hdecoded : (loadDecoded env metaData).Does Q :=
    Does.bind (does_exchange _ _ (h.md _)) fun _ => Does.bind (does_exchange _ _ h.eos) fun _ =>
      Does.bind (h.loadBody env) fun _ => does_pure _
  have hdecoder : (loadDecoder env metaData (loadDecoded env metaData)).Does Q :=
    Does.ite (fun _ => does_pure _) fun _ => Does.ite (fun _ => hdecoded) fun _ =>
      Does.bind (does_exchange _ _ (h.swDecoder _)) fun _ =>
        does_breakIfNonzero (h.perform env rfl) hdecoded
  refine Does.bind (does_exchange _ _ (h.enable _ _)) fun _ => ?_
  refine Does.bind (Does.onlyIf fun _ => does_exchange _ _ (h.md _)) fun _ => ?_
  exact Does.ite (fun _ => Does.bind (does_exchange _ _ (h.md _)) fun _ => hdecoder)
    fun _ => hdecoded

/-- All of `load` after the write of `loaded_`. -/
theorem OfLoad.acquire (metaData : MetaData) :
    (breakIfNonzero (DirectMedia.perform env .acquireResources) (resultFail, metaData)
      (DirectMedia.loadAcquired env metaData)).Does Q :=
  does_breakIfNonzero (h.perform env rfl) (h.loadAcquired env metaData)

end OfLoad

theorem ofLoad_loaded : OfLoad fun f => ∀ s, (f s).2.loaded = s.loaded where
  read _ := rfl
  call env call _ := (untouched_loaded.perform env call).1
  transit _ := rfl
  enable _ _ _ := rfl
  md _ _ := rfl
  swDecoder _ _ := rfl
  eos _ := rfl

theorem ofLoad_held (d : ComponentName) :
    OfLoad fun f => ∀ s, (s.component d).isSome → ((f s).2.component d).isSome where
  read _ hs := hs
  call env call _ _ hs := perform_held env call hs
  transit _ hs := hs
  enable _ _ _ hs := hs
  md _ _ hs := hs
  swDecoder _ _ hs := hs
  eos _ hs := hs

/-- Past its entry checks `load` leaves `loaded_` set, whether or not it succeeds. -/
theorem loadAdmitted_loaded (env : Env) (metaData : MetaData) (s : Esplayer) :
    ((loadAdmitted env metaData).run s).2.loaded = true := by
  rw [loadAdmitted, run_bind, run_write]
  exact Keeps.run (ofLoad_loaded.acquire env metaData) { s with loaded := true }

end DirectMedia
