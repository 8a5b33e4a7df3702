import DirectMedia.Feed.Driving
import DirectMedia.Feed.Outline

set_option autoImplicit false

/-! # The buffer that starts the clock

`setOmxFlags` sets `OMX_BUFFERFLAG_STARTTIME` for the first frame of a stream, and takes a frame for
the first as long as the last PTS of its stream is 0. But 0 is also a PTS a frame can have, the one
`Feed_AudioData` passes without video, and what `play` writes to `audio_last_pts_`; and a frame of
several buffers has one word of flags for all of them. Where none of this happens the flag is set
once, on the first buffer that is not empty (`startTime_oneShot`).
-/

namespace DirectMedia

open Prog

/-! ## One buffer with the flag -/

/-- The buffer is to start the clock. -/
def Buffer.StartTime (b : Buffer) : Prop := b.flags &&& bufferFlagStartTime ≠ 0

instance : DecidablePred Buffer.StartTime := fun b =>
  inferInstanceAs (Decidable (b.flags &&& bufferFlagStartTime ≠ 0))

/-- The buffer is empty and does not start the clock. -/
def Buffer.Blank (b : Buffer) : Prop := b.filledLen = 0 ∧ ¬ b.StartTime

/-- At most one buffer starts the clock, and it is the first that is not empty. -/
structure OneShot (bufs : List Buffer) : Prop where
  once : (bufs.countP fun b => b.StartTime) ≤ 1
  first : ∀ n b, bufs[n]? = some b → b.StartTime →
    b.filledLen ≠ 0 ∧ ∀ c ∈ bufs.take n, c.filledLen = 0

theorem oneShot_nil : OneShot [] := ⟨by simp, fun n b hb => by simp at hb⟩

theorem OneShot.snoc_plain {bufs : List Buffer} (h : OneShot bufs) {b : Buffer}
    (hb : ¬ b.StartTime) : OneShot (bufs ++ [b]) := by
  refine ⟨by simpa [List.countP_append, hb] using h.once, fun n c hc hstart => ?_⟩
  by_cases hlt : n < bufs.length
  · rw [List.getElem?_append_left hlt] at hc
    rw [List.take_append_of_le_length hlt.le]
    exact h.first n c hc hstart
  · rw [List.getElem?_append_right (not_lt.mp hlt), List.getElem?_singleton] at hc
    split at hc
    · cases hc
      exact absurd hstart hb
    · cases hc

theorem oneShot_snoc_first {bufs : List Buffer} (h : ∀ c ∈ bufs, c.Blank) {b : Buffer}
    (hb : b.filledLen ≠ 0) : OneShot (bufs ++ [b]) := by
  have hnone : (bufs.countP fun c => c.StartTime) = 0 :=
    List.countP_eq_zero.mpr fun c hc => by simpa using (h c hc).2
  refine ⟨?_, fun n c hc hstart => ?_⟩
  · rw [List.countP_append, hnone, Nat.zero_add]
    exact List.countP_le_length
  · by_cases hlt : n < bufs.length
    · rw [List.getElem?_append_left hlt] at hc
      exact absurd hstart (h c (List.mem_of_getElem? hc)).2
    · rw [List.getElem?_append_right (not_lt.mp hlt), List.getElem?_singleton] at hc
      split at hc
      · cases hc
        refine ⟨hb, fun d hd => ?_⟩
        rw [List.take_append_of_le_length (by omega)] at hd
        exact (h d (List.mem_of_mem_take hd)).1
      · cases hc

theorem Port.fill_startTime {c : Buffer} {data : List UInt8} {pts : Int} {flags : BitVec 32}
    (h : flags &&& bufferFlagStartTime = 0) : ¬ (fill c data pts flags).StartTime := by
  unfold fill Buffer.StartTime
  split
  · simpa using h
  · have hkept : (~~~bufferFlagEndOfFrame) &&& bufferFlagStartTime = bufferFlagStartTime := by
      decide
    simp only [BitVec.and_assoc, hkept, h, ne_eq, not_true_eq_false, not_false_eq_true]

/-! ## What is submitted -/

/-- The buffer that OMX accepted. -/
def Event.submitted : Event → Option Buffer
  | .written _ _ _ b => b
  | _ => none

/-- The buffers the handler of a stream has submitted, in their order. -/
def sent (w : FeedWorld) (i : StreamType) : List Buffer :=
  (w.events (.renderer i)).filterMap Event.submitted

/-! ## The condition -/

/-- The frame can start the clock: the buffers are not of size 0, and `data_len`, which is an
`uint32_t`, is not negative as an `int` (audio) or, as an `int`, not above the size of a buffer
(video). -/
@[mk_iff startable_iff]
structure Startable (s : Esplayer) (f : Frame) : Prop where
  short : f.data.length < 2 ^ 32
  room : ∀ b ∈ s.input f.streamType.codec, 0 < b.allocLen
  audio : f.streamType = .audioEs → 0 ≤ f.dataLen
  video : f.streamType = .videoEs →
    f.dataLen ≤ ((s.component f.streamType.codec).elim 0 (·.inputBufferSize) : Nat)

instance (s : Esplayer) (f : Frame) : Decidable (Startable s f) :=
  decidable_of_iff _ (startable_iff s f).symm

/-- A decoder other than the one for PCM has output for the frame. -/
def HasOutput (env : FeedEnv) (s : Esplayer) : Prop :=
  ∀ decoder ∈ s.swDecoder, decoder ≠ .pcmS16le → env.decode.2 ≠ []

instance (env : FeedEnv) (s : Esplayer) : Decidable (HasOutput env s) :=
  inferInstanceAs (Decidable (∀ decoder ∈ s.swDecoder, decoder ≠ .pcmS16le → env.decode.2 ≠ []))

/-- What an event needs, in the state before it and the state after it. -/
def Event.ClockSafe (s t : Esplayer) : Event → Prop
  | .got i f => s.lastPts i = 0 → Startable s f
  | .synced i _ => t.lastPts i ≠ 0
  | _ => True

instance (s t : Esplayer) : DecidablePred (Event.ClockSafe s t)
  | .got i f => inferInstanceAs (Decidable (s.lastPts i = 0 → Startable s f))
  | .synced i _ => inferInstanceAs (Decidable (t.lastPts i ≠ 0))
  | .admitted | .loadedRead _ | .use _ _ | .transit _ _ | .popped _ _ | .pushed _ _ | .cleared _
  | .appended _ | .adjusted _ _ | .written _ _ _ _ | .fed _ _ | .notifyVideo _
  | .notifyPortChanged => isTrue trivial

/-- A last PTS that is not 0 does not become 0, and `setOmxFlags` is not given 0; the frame that is
taken while the last PTS is 0 can start the clock. -/
@[mk_iff clockSafe_iff]
structure ClockSafe (s : Esplayer) (r : Option Event × Esplayer) : Prop where
  kept : ∀ i, s.lastPts i ≠ 0 → r.2.lastPts i ≠ 0
  event : ∀ e ∈ r.1, e.ClockSafe s r.2

instance (s : Esplayer) (r : Option Event × Esplayer) : Decidable (ClockSafe s r) :=
  have : Decidable (∀ i, s.lastPts i ≠ 0 → r.2.lastPts i ≠ 0) :=
    decidable_of_iff (∀ i ∈ [StreamType.audioEs, .videoEs], s.lastPts i ≠ 0 → r.2.lastPts i ≠ 0)
      ⟨fun h i => h i (by cases i <;> decide), fun h i _ => h i⟩
  decidable_of_iff _ (clockSafe_iff s r).symm

/-- The step is safe for the clock: the action that a thread is about to take, or the start of an
attempt for audio, which needs output of the decoder. -/
def ClockSafeStep (x : FeedSystem) : DrivingAct → Prop
  | .step t => ∀ p ∈ x.running t, ∀ f ∈ p.next, ClockSafe x.world.state (f x.world.state)
  | .attempt i env =>
      i = .audioEs → x.world.state.lastPts i = 0 → HasOutput env x.world.state
  | _ => True

instance (x : FeedSystem) : DecidablePred (ClockSafeStep x)
  | .step t => inferInstanceAs (Decidable
      (∀ p ∈ x.running t, ∀ f ∈ p.next, ClockSafe x.world.state (f x.world.state)))
  | .attempt i env => inferInstanceAs (Decidable
      (i = .audioEs → x.world.state.lastPts i = 0 → HasOutput env x.world.state))
  | .call _ _ | .returned _ | .handled _ | .emptyBufferDone _ _ => isTrue trivial

/-! ## The outline of an attempt -/

/-- What the others do to the attempts for a stream. -/
structure ClockRely (i : StreamType) (w v : FeedWorld) : Prop where
  shape : SameShape i w.state v.state
  kept : w.state.lastPts i ≠ 0 → v.state.lastPts i ≠ 0
  sent : sent v i = sent w i

theorem clockRely_refl (i : StreamType) (w : FeedWorld) : ClockRely i w w :=
  ⟨sameShape_refl i _, id, rfl⟩

theorem clockRely_trans (i : StreamType) (u v w : FeedWorld) (h : ClockRely i u v)
    (h' : ClockRely i v w) : ClockRely i u w :=
  ⟨h.shape.trans h'.shape, h'.kept ∘ h.kept, h'.sent.trans h.sent⟩

/-- What is known of an action that is taken with care. -/
def ClockSafeAction (s : Esplayer) (r : Option Event × Esplayer) : Prop :=
  ClockSafe s r ∧ ∀ i, SameShape i s r.2

/-- The buffers a stream is sent, and the last PTS that says whether its clock was started. -/
structure ClockKept (i : StreamType) (w : FeedWorld) : Prop where
  sorted : ∀ f ∈ w.state.frames i, f.streamType = i
  oneShot : OneShot (sent w i)
  unset : w.state.lastPts i = 0 → ∀ b ∈ sent w i, b.Blank

theorem ClockKept.stable {i : StreamType} {w v : FeedWorld} (h : ClockKept i w)
    (hR : ClockRely i w v) : ClockKept i v where
  sorted := hR.shape.frames h.sorted
  oneShot := by rw [hR.sent]; exact h.oneShot
  unset hzero := by
    rw [hR.sent]
    exact h.unset (by_contra fun hne => hR.kept hne hzero)

theorem Startable.stable {s t : Esplayer} {f : Frame} (h : Startable s f)
    (hshape : SameShape f.streamType s t) : Startable t f where
  short := h.short
  room := hshape.room_pos h.room
  audio := h.audio
  video hvideo := by rw [hshape.size]; exact h.video hvideo

theorem HasOutput.stable {env : FeedEnv} {i : StreamType} {s t : Esplayer} (h : HasOutput env s)
    (hshape : SameShape i s t) : HasOutput env t := by
  unfold HasOutput
  rw [hshape.swDecoder]
  exact h

/-- An action that submits nothing. -/
def SubmitsNothing (a : Action) : Prop := ∀ s, (a s).1.bind Event.submitted = none

theorem sent_after (w : FeedWorld) (i : StreamType) (a : Action) :
    sent (w.after (.renderer i) a) i = sent w i ++ ((a w.state).1.bind Event.submitted).toList := by
  rw [sent, World.events_after_self, List.filterMap_append, sent]
  cases (a w.state).1 with
  | none => rfl
  | some e => cases he : e.submitted <;> simp [he]

/-- A careful action of another thread, or one that submits nothing. -/
theorem ClockSafeAction.rely {w : FeedWorld} {a : Action} (h : ClockSafeAction w.state (a w.state))
    (i : StreamType) (t : Thread)
    (hsent : t ≠ .renderer i ∨ (a w.state).1.bind Event.submitted = none) :
    ClockRely i w (w.after t a) := by
  refine ⟨h.2 i, h.1.kept i, ?_⟩
  by_cases ht : t = .renderer i
  · subst ht
    rw [sent_after, hsent.resolve_left (not_not_intro rfl)]
    simp
  · rw [sent, World.events_after_ne w ht, sent]

/-- What an attempt for a stream ensures, as long as its actions are taken with care. -/
abbrev KeepsClock {α : Type} (i : StreamType) (Q : α → FeedWorld → Prop) (p : Op α)
    (w : FeedWorld) : Prop :=
  EnsuresIf (.renderer i) ClockSafeAction (ClockRely i) (fun _ => ClockKept i) Q p w

/-- An assertion for an attempt: the others keep it, and it includes what holds between steps. -/
structure ClockStable (i : StreamType) (Φ : FeedWorld → Prop) : Prop where
  rely : ∀ w v, ClockRely i w v → Φ w → Φ v
  clock : ∀ w, Φ w → ClockKept i w

section Attempt

attribute [local irreducible] StreamBuffer.dataLen

variable {α β : Type} {i : StreamType} {env : FeedEnv} {f : Frame} {Φ : FeedWorld → Prop}
  {Q : α → FeedWorld → Prop} {w : FeedWorld}

/-- An action of the attempt that submits nothing keeps every assertion. -/
theorem ClockStable.act (hΦ : ClockStable i Φ) {a : Action} (ha : SubmitsNothing a) (h : Φ w)
    (hC : ClockSafeAction w.state (a w.state)) :
    ClockKept i (w.after (.renderer i) a) ∧ Φ (w.after (.renderer i) a) := by
  have hafter := hΦ.rely _ _ (hC.rely i (.renderer i) (.inr (ha w.state))) h
  exact ⟨hΦ.clock _ hafter, hafter⟩

theorem ClockStable.keep (hΦ : ClockStable i Φ) {p : Op α} (hp : p.Does SubmitsNothing)
    (h : Φ w) : KeepsClock i (fun _ => Φ) p w :=
  hp.ensuresIf hΦ.rely (fun _ _ ha hv hC => hΦ.act ha hv hC) h

theorem ClockStable.keep_bind (hΦ : ClockStable i Φ) {p : Op β} {g : β → Op α}
    (hp : p.Does SubmitsNothing) (h : Φ w) (hg : ∀ b v, Φ v → KeepsClock i Q (g b) v) :
    KeepsClock i Q (p >>= g) w :=
  EnsuresIf.bind (clockRely_refl i) (hΦ.keep hp h) hg

theorem submitsNothing_read : SubmitsNothing fun s => (none, s) := fun _ => rfl

theorem submitsNothing_use (c : ComponentName) : SubmitsNothing (useAction c) := fun _ => rfl

theorem does_query_submitsNothing (c : ComponentName) (g : Component → Nat) :
    (query c g).Does SubmitsNothing :=
  ⟨submitsNothing_use c, fun _ => trivial⟩

theorem ClockStable.query_bind (hΦ : ClockStable i Φ) {c : ComponentName} {g : Component → Nat}
    {k : Nat → Op α} (h : Φ w)
    (hk : ∀ v, Φ v → KeepsClock i Q (k ((v.state.component c).elim 0 g)) v) :
    KeepsClock i Q (query c g >>= k) w := by
  refine EnsuresIf.act_bind fun v hv hC => ?_
  obtain ⟨hG, hafter⟩ := hΦ.act (submitsNothing_use c) (hΦ.rely w v hv h) hC
  exact ⟨hG, hk _ hafter⟩

theorem ClockStable.read_bind (hΦ : ClockStable i Φ) {g : Esplayer → β} {k : β → Op α} (h : Φ w)
    (hk : ∀ v, Φ v → KeepsClock i Q (k (g v.state)) v) : KeepsClock i Q (read g >>= k) w := by
  refine EnsuresIf.act_bind fun v hv hC => ?_
  obtain ⟨hG, hafter⟩ := hΦ.act submitsNothing_read (hΦ.rely w v hv h) hC
  exact ⟨hG, hk _ hafter⟩

theorem does_lock_submitsNothing : lockUnlessPlaying.Does SubmitsNothing :=
  Does.bind (does_read _ submitsNothing_read) fun _ => Does.onlyIf fun _ => trivial

theorem does_pop_submitsNothing : (popBufQueue i).Does SubmitsNothing :=
  ⟨fun _ => rfl, fun _ => trivial⟩

theorem does_adjust_submitsNothing : (adjustFrame f).Does SubmitsNothing :=
  ⟨fun _ => rfl, fun _ => trivial⟩

/-- Between two attempts. -/
theorem clockStable_kept (i : StreamType) : ClockStable i (ClockKept i) :=
  ⟨fun _ _ hR h => h.stable hR, fun _ h => h⟩

/-- Before a frame is taken. -/
structure Taking (env : FeedEnv) (i : StreamType) (w : FeedWorld) : Prop where
  clock : ClockKept i w
  output : i = .audioEs → w.state.lastPts i = 0 → HasOutput env w.state

/-- A frame was taken. -/
structure Taken (env : FeedEnv) (i : StreamType) (f : Frame) (w : FeedWorld) : Prop
    extends Taking env i w where
  stream : f.streamType = i
  start : w.state.lastPts i = 0 → Startable w.state f

/-- `setOmxFlags` has decided on the flags. -/
structure Synced (env : FeedEnv) (i : StreamType) (f : Frame) (flags : BitVec 32)
    (w : FeedWorld) : Prop where
  clock : ClockKept i w
  stream : f.streamType = i
  filled : f.data ≠ []
  started : w.state.lastPts i ≠ 0
  start : flags &&& bufferFlagStartTime ≠ 0 → (∀ b ∈ sent w i, b.Blank) ∧ Startable w.state f ∧
    (i = .audioEs → HasOutput env w.state)

/-- The data may be submitted with these flags: without the one that starts the clock, or as the
first data of the stream. -/
structure MaySubmit (i : StreamType) (data : List UInt8) (flags : BitVec 32)
    (w : FeedWorld) : Prop where
  clock : ClockKept i w
  fits : (flags &&& bufferFlagStartTime = 0 ∧ (w.state.lastPts i ≠ 0 ∨ data = [])) ∨
    w.state.lastPts i ≠ 0 ∧ (∀ b ∈ sent w i, b.Blank) ∧ data ≠ [] ∧
      ∀ b ∈ w.state.input i.codec, 0 < b.allocLen

theorem ClockRely.unset {w v : FeedWorld} (hR : ClockRely i w v) (h : v.state.lastPts i = 0) :
    w.state.lastPts i = 0 :=
  by_contra fun hne => hR.kept hne h

theorem clockStable_taking (env : FeedEnv) (i : StreamType) : ClockStable i (Taking env i) where
  rely _ _ hR h :=
    ⟨h.clock.stable hR, fun hi hzero => (h.output hi (hR.unset hzero)).stable hR.shape⟩
  clock _ h := h.clock

theorem clockStable_taken (env : FeedEnv) (i : StreamType) (f : Frame) :
    ClockStable i (Taken env i f) where
  rely _ _ hR h := ⟨(clockStable_taking env i).rely _ _ hR h.toTaking, h.stream,
    fun hzero => (h.start (hR.unset hzero)).stable (h.stream ▸ hR.shape)⟩
  clock _ h := h.clock

theorem clockStable_synced (env : FeedEnv) (i : StreamType) (f : Frame) (flags : BitVec 32) :
    ClockStable i (Synced env i f flags) where
  rely _ _ hR h := by
    refine ⟨h.clock.stable hR, h.stream, h.filled, hR.kept h.started, fun hstart => ?_⟩
    obtain ⟨hblank, hstartable, houtput⟩ := h.start hstart
    exact ⟨by rwa [hR.sent], hstartable.stable (h.stream ▸ hR.shape),
      fun hi => (houtput hi).stable hR.shape⟩
  clock _ h := h.clock

/-! ## Submissions -/

/-- The last PTS and what is sent, after a submission. -/
theorem MaySubmit.clockStable (i : StreamType) (data : List UInt8) (flags : BitVec 32) :
    ClockStable i (MaySubmit i data flags) where
  rely w v hR h := by
    refine ⟨h.clock.stable hR, ?_⟩
    rcases h.fits with ⟨hplain, hzero | hempty⟩ | ⟨hne, hblank, hdata, hroom⟩
    · exact .inl ⟨hplain, .inl (hR.kept hzero)⟩
    · exact .inl ⟨hplain, .inr hempty⟩
    · exact .inr ⟨hR.kept hne, by rwa [hR.sent], hdata, hR.shape.room_pos hroom⟩
  clock _ h := h.clock

/-- What is submitted that way keeps the clock. -/
theorem MaySubmit.write {data : List UInt8} {flags : BitVec 32} (h : MaySubmit i data flags w)
    (f : Frame) (pts accept : Int)
    (hshape : SameShape i w.state (writeAction i.codec f data pts flags accept w.state).2) :
    ClockKept i (w.after (.renderer i) (writeAction i.codec f data pts flags accept)) := by
  have hsent := sent_after w i (writeAction i.codec f data pts flags accept)
  change _ = _ ++ ((w.state.input i.codec).writeToFreeBuffer data pts flags accept).2.2.toList
    at hsent
  have hsorted := hshape.frames h.clock.sorted
  cases hb : ((w.state.input i.codec).writeToFreeBuffer data pts flags accept).2.2 with
  | none =>
      rw [hb, Option.toList_none, List.append_nil] at hsent
      exact ⟨hsorted, hsent ▸ h.clock.oneShot, hsent ▸ h.clock.unset⟩
  | some b =>
      rw [hb, Option.toList_some] at hsent
      obtain ⟨c, hc, rfl⟩ := Port.writeToFreeBuffer_some hb
      rcases h.fits with ⟨hplain, hfits⟩ | ⟨hne, hblank, hdata, hroom⟩
      · refine ⟨hsorted, hsent ▸ h.clock.oneShot.snoc_plain (Port.fill_startTime hplain),
          fun hzero => ?_⟩
        -- the last PTS is the one before
        have hempty : data = [] := hfits.resolve_left (not_not_intro hzero)
        rw [hsent]
        intro d hd
        rcases List.mem_append.mp hd with hd | hd
        · exact h.clock.unset hzero d hd
        · obtain rfl := List.mem_singleton.mp hd
          refine ⟨?_, Port.fill_startTime hplain⟩
          rw [Port.fill_filledLen, hempty, List.length_nil, Nat.zero_min]
      · refine ⟨hsorted, hsent ▸ oneShot_snoc_first hblank ?_, fun hzero => absurd hzero hne⟩
        have := hroom c hc
        have := List.length_pos_iff.mpr hdata
        rw [Port.fill_filledLen]
        omega

theorem ensures_write {data : List UInt8} {flags : BitVec 32} (h : MaySubmit i data flags w)
    (f : Frame) (pts accept : Int) : KeepsClock i (fun _ => ClockKept i)
      (writeToFreeBuffer i.codec f data pts flags accept) w := by
  refine (MaySubmit.clockStable i data flags).keep_bind (does_query_submitsNothing _ _) h
    fun _ v hv u hu hC => ?_
  have hu := (MaySubmit.clockStable i data flags).rely v u hu hv
  have hkept := hu.write f pts accept (hC.2 i)
  exact ⟨hkept, fun u' hu' => hkept.stable hu'⟩

/-- Another flag does not start the clock. -/
theorem or_startTime {flags flag : BitVec 32} (h : flags &&& bufferFlagStartTime = 0)
    (hflag : flag &&& bufferFlagStartTime = 0) : (flags ||| flag) &&& bufferFlagStartTime = 0 := by
  rw [BitVec.and_or_distrib_right, h, hflag]
  rfl

theorem translateToOmxFlags_startTime (flags : BitVec 32) :
    translateToOmxFlags flags &&& bufferFlagStartTime = 0 := by
  unfold translateToOmxFlags
  split <;> decide

/-- Past the first frame of the stream `setOmxFlags` does not set the flag. -/
theorem sync_startTime {s : Esplayer} (hstarted : s.lastPts i ≠ 0) (used : Nat) {flags : BitVec 32}
    (hplain : flags &&& bufferFlagStartTime = 0) :
    (s.sync i used flags).flags &&& bufferFlagStartTime = 0 := by
  have hdecode : (flags ||| bufferFlagDecodeOnly) &&& bufferFlagStartTime = 0 :=
    or_startTime hplain (by decide)
  cases i with
  | audioEs =>
      simp only [Esplayer.sync, syncAudio, hstarted, if_false]
      split <;> exact hplain
  | videoEs =>
      simp only [Esplayer.sync, syncVideo, hstarted, if_false]
      split_ifs <;> assumption

theorem ensures_setOmxFlags {pts : Int} {flags : BitVec 32}
    (hplain : flags &&& bufferFlagStartTime = 0) (hfilled : f.data ≠ []) (h : Taken env i f w) :
    KeepsClock i (Synced env i f) (setOmxFlags f pts flags) w := by
  have hΦ := clockStable_taken env i f
  refine hΦ.keep_bind (does_query_submitsNothing _ _) h fun used v hv => ?_
  refine hΦ.keep_bind (does_query_submitsNothing _ _) hv fun _ v hv => ?_
  refine EnsuresIf.act_bind fun x hx hC => ?_
  have hx := hΦ.rely v x hx hv
  have hR := hC.rely i (.renderer i) (.inr rfl)
  have hsynced : Synced env i f (x.state.sync f.streamType used flags).flags
      (x.after (.renderer i) (syncAction f pts flags used)) := by
    refine ⟨hx.clock.stable hR, hx.stream, hfilled, ?_, fun hstart => ?_⟩
    · have hsafe := hC.1.event _ rfl
      rwa [Event.ClockSafe, hx.stream] at hsafe
    · -- the flag says that the stream was not started
      have hzero : x.state.lastPts i = 0 := by
        by_contra hstarted
        rw [hx.stream] at hstart
        exact hstart (sync_startTime hstarted used hplain)
      exact ⟨by rw [hR.sent]; exact hx.clock.unset hzero,
        (hx.start hzero).stable (hx.stream ▸ hR.shape),
        fun hi => (hx.output hi hzero).stable hR.shape⟩
  refine ⟨hsynced.clock, EnsuresIf.ret_bind ?_⟩
  have hΨ := clockStable_synced env i f (x.state.sync f.streamType used flags).flags
  dsimp only
  split
  case h_1 high _ =>
      refine hΨ.keep_bind ⟨fun _ => rfl, fun _ => trivial⟩ hsynced fun _ v hv => ?_
      exact fun u hu => hΨ.rely v u hu hv
  case h_2 => exact fun u hu => hΨ.rely _ u hu hsynced

/-! ## The handlers -/

/-- The actions of the submissions of a frame that does not start the clock. -/
def SubmitsPlain (i : StreamType) (a : Action) : Prop :=
  SubmitsNothing a ∨ ∃ f data pts flags accept,
    a = writeAction i.codec f data pts flags accept ∧ flags &&& bufferFlagStartTime = 0

theorem does_writeVideo_plain {pts : Int} {flags : BitVec 32}
    (hplain : flags &&& bufferFlagStartTime = 0) :
    (writeVideo env f pts flags).Does (SubmitsPlain .videoEs) := by
  have huse : SubmitsPlain .videoEs (useAction .videoCodec) := .inl (submitsNothing_use _)
  have hend : (flags ||| bufferFlagEndOfFrame) &&& bufferFlagStartTime = 0 :=
    or_startTime hplain (by decide)
  have hwrite : ∀ data flags accept, flags &&& bufferFlagStartTime = 0 →
      SubmitsPlain .videoEs (writeAction .videoCodec f data pts flags accept) :=
    fun data flags accept h => .inr ⟨f, data, pts, flags, accept, rfl, h⟩
  refine Does.ite (fun _ => ?_) fun _ => Does.ite (fun _ => ?_) fun _ => does_pure _
  · exact does_writeChunks huse env (fun data accept =>
      ⟨hwrite data _ accept hplain, hwrite data _ accept hend⟩) _ _ _ _
  · refine Does.bind (Does.bind ⟨huse, fun _ => trivial⟩ fun _ => ?_) fun _ => does_pure _
    exact ⟨hwrite [] _ _ hend, fun _ => trivial⟩

/-- The clock was started. -/
theorem clockStable_started (i : StreamType) :
    ClockStable i fun w => ClockKept i w ∧ w.state.lastPts i ≠ 0 :=
  ⟨fun _ _ hR h => ⟨h.1.stable hR, hR.kept h.2⟩, fun _ h => h.1⟩

/-- The first frame goes into one buffer. -/
theorem ensures_writeVideo_start {pts : Int} {flags : BitVec 32}
    (hstart : flags &&& bufferFlagStartTime ≠ 0) (h : Synced env .videoEs f flags w) :
    KeepsClock .videoEs (fun _ => ClockKept .videoEs) (writeVideo env f pts flags) w := by
  have hΦ := clockStable_synced env .videoEs f flags
  have hkept := clockStable_kept .videoEs
  unfold writeVideo
  refine EnsuresIf.ite (fun hpos => ?_) fun _ => EnsuresIf.ite (fun hzero => ?_) fun _ => ?_
  · obtain ⟨fuel, hfuel⟩ := Nat.exists_eq_succ_of_ne_zero (StreamBuffer.length_pos hpos).ne'
    rw [hfuel]
    refine hΦ.query_bind h fun v hv => ?_
    obtain ⟨hblank, hstartable, _⟩ := hv.start hstart
    have hroom := hstartable.room
    have hfits := hstartable.video hv.stream
    rw [hv.stream] at hroom hfits
    refine EnsuresIf.ite (fun _ => ?_) fun hmore => ?_
    case refine_2 =>
      simp only [StreamType.codec] at hfits
      omega
    have hmay : MaySubmit .videoEs f.data (flags ||| bufferFlagEndOfFrame) v :=
      ⟨hv.clock, .inr ⟨hv.started, hblank, hv.filled, hroom⟩⟩
    exact EnsuresIf.bind (clockRely_refl _) (ensures_write hmay f pts (env.accept 0))
      fun n u hu => hkept.keep (does_pure _) hu
  · -- a frame without data does not get the flag
    exact absurd (StreamBuffer.data_eq_nil (h.start hstart).2.1.short hzero) h.filled
  · exact hkept.keep (does_pure _) h.clock

/-- Later data is submitted without the flag. -/
theorem ensures_writeVideo_plain {pts : Int} {flags : BitVec 32}
    (hplain : flags &&& bufferFlagStartTime = 0) (h : ClockKept .videoEs w)
    (hstarted : w.state.lastPts .videoEs ≠ 0) :
    KeepsClock .videoEs (fun _ => ClockKept .videoEs) (writeVideo env f pts flags) w := by
  have hΦ := clockStable_started .videoEs
  refine EnsuresIf.mono (Does.ensuresIf hΦ.rely (does_writeVideo_plain hplain)
    (fun a v ha hv hC => ?_) ⟨h, hstarted⟩) fun _ _ h => h.1
  rcases ha with hnothing | ⟨f, data, pts, flags, accept, rfl, hplain⟩
  · exact hΦ.act hnothing hv hC
  · have hmay : MaySubmit .videoEs data flags v := ⟨hv.1, .inl ⟨hplain, .inl hv.2⟩⟩
    have hkept := hmay.write f pts accept (hC.2 .videoEs)
    exact ⟨hkept, hkept, hv.2⟩

/-- Without data one empty buffer is submitted. -/
theorem ensures_writeVideo_empty {pts : Int} {flags : BitVec 32} (hdata : f.data = [])
    (hplain : flags &&& bufferFlagStartTime = 0) (h : ClockKept .videoEs w) :
    KeepsClock .videoEs (fun _ => ClockKept .videoEs) (writeVideo env f pts flags) w := by
  have hkept := clockStable_kept .videoEs
  have hzero : f.dataLen = 0 := by
    rw [StreamBuffer.dataLen_eq (by simp [hdata]), hdata]
    rfl
  unfold writeVideo
  rw [if_neg (by omega), if_pos hzero]
  have hmay : MaySubmit .videoEs [] (flags ||| bufferFlagEndOfFrame) w :=
    ⟨h, .inl ⟨or_startTime hplain (by decide), .inr rfl⟩⟩
  exact EnsuresIf.bind (clockRely_refl _) (ensures_write hmay f pts (env.accept 0))
    fun n u hu => hkept.keep (does_pure _) hu

/-- The submissions of a frame, with the flags that were decided on or, without data, with those of
the client. -/
theorem ensures_writeVideo {pts : Int} {flags : BitVec 32}
    (h : Synced env .videoEs f flags w ∨
      f.data = [] ∧ flags &&& bufferFlagStartTime = 0 ∧ ClockKept .videoEs w) :
    KeepsClock .videoEs (fun _ => ClockKept .videoEs) (writeVideo env f pts flags) w := by
  rcases h with h | ⟨hdata, hplain, hkept⟩
  · by_cases hflags : flags &&& bufferFlagStartTime = 0
    · exact ensures_writeVideo_plain hflags h.clock h.started
    · exact ensures_writeVideo_start hflags h
  · exact ensures_writeVideo_empty hdata hplain hkept

theorem ensures_feedVideoFrame (h : Taken env .videoEs f w) :
    KeepsClock .videoEs (fun _ => ClockKept .videoEs) (feedVideoFrame env f) w := by
  have hΦ := clockStable_taken env .videoEs f
  have hkept := clockStable_kept .videoEs
  have hplain := translateToOmxFlags_startTime f.flags
  refine hΦ.keep_bind does_adjust_submitsNothing h fun pts v hv => ?_
  have hflags : KeepsClock .videoEs (fun flags u => Synced env .videoEs f flags u ∨
      f.data = [] ∧ flags &&& bufferFlagStartTime = 0 ∧ ClockKept .videoEs u)
      (videoFlags f pts) v := by
    refine EnsuresIf.ite (fun hlen => ?_) fun hlen => ?_
    · exact (ensures_setOmxFlags hplain (List.length_pos_iff.mp hlen) hv).mono fun _ _ => .inl
    · have hdata : f.data = [] := List.eq_nil_of_length_eq_zero (by omega)
      exact fun u hu => .inr ⟨hdata, hplain, (hΦ.rely v u hu hv).clock⟩
  refine EnsuresIf.bind (clockRely_refl _) hflags fun flags u hu => ?_
  refine EnsuresIf.bind (clockRely_refl _) (ensures_writeVideo hu) fun written u hu => ?_
  cases written with
  | some n =>
      exact hkept.keep_bind does_pop_submitsNothing hu fun _ x hx => hkept.keep (does_pure _) hx
  | none => exact hkept.keep (does_pure _) hu

theorem does_audioPts_submitsNothing : (audioPts f).Does SubmitsNothing :=
  Does.bind (does_read _ submitsNothing_read) fun _ =>
    Does.ite (fun _ => does_adjust_submitsNothing) fun _ => does_pure _

theorem ensures_writeAudio {pts ret : Int} {flags : BitVec 32} {data : List UInt8}
    (h : MaySubmit .audioEs data flags w) : KeepsClock .audioEs (fun _ => ClockKept .audioEs)
      (writeAudio env f pts flags ret data) w := by
  have hkept := clockStable_kept .audioEs
  refine EnsuresIf.bind (clockRely_refl _) (ensures_write h f pts (env.accept 0)) fun _ v hv => ?_
  refine hkept.keep_bind does_pop_submitsNothing hv fun _ v hv => ?_
  exact hkept.keep (Does.bind (does_read _ submitsNothing_read) fun _ => does_pure _) hv

/-- The decoder has output for the frame that starts the clock. -/
theorem decodeAudio_ne_nil {decoder : Option AvCodecId} (hdata : f.data ≠ [])
    (houtput : ∀ codec ∈ decoder, codec ≠ .pcmS16le → env.decode.2 ≠ []) :
    (decodeAudio env decoder f).2 ≠ [] := by
  unfold decodeAudio
  split
  · exact hdata
  · exact hdata
  · exact houtput _ rfl ‹_›

theorem ensures_feedAudioFrame (h : Taken env .audioEs f w) :
    KeepsClock .audioEs (fun _ => ClockKept .audioEs) (feedAudioFrame env f) w := by
  have hplain : (translateToOmxFlags f.flags ||| bufferFlagEndOfFrame) &&&
      bufferFlagStartTime = 0 :=
    or_startTime (translateToOmxFlags_startTime f.flags) (by decide)
  refine (clockStable_taken env .audioEs f).keep_bind does_audioPts_submitsNothing h
    fun pts v hv => ?_
  refine EnsuresIf.ite (fun hpos => ?_) fun hneg => ?_
  · have hdata : f.data ≠ [] := List.length_pos_iff.mp (StreamBuffer.length_pos hpos)
    refine EnsuresIf.bind (clockRely_refl _) (ensures_setOmxFlags hplain hdata hv)
      fun flags u hu => ?_
    refine (clockStable_synced env .audioEs f flags).read_bind hu fun u hu => ?_
    refine ensures_writeAudio ⟨hu.clock, ?_⟩
    by_cases hflags : flags &&& bufferFlagStartTime = 0
    · exact .inl ⟨hflags, .inl hu.started⟩
    · obtain ⟨hblank, hstartable, houtput⟩ := hu.start hflags
      have hroom := hstartable.room
      rw [hu.stream] at hroom
      exact .inr ⟨hu.started, hblank, decodeAudio_ne_nil hdata (houtput rfl), hroom⟩
  · refine ensures_writeAudio ⟨hv.clock, .inl ⟨hplain, ?_⟩⟩
    -- before the first frame with data there is none
    refine or_iff_not_imp_left.mpr fun hzero => ?_
    have hstartable := hv.start (not_not.mp hzero)
    have hlen := hstartable.audio hv.stream
    exact StreamBuffer.data_eq_nil hstartable.short (by omega)

theorem getBufQueue_bind {g : Option Frame → Op α} (h : Taking env i w)
    (hsome : ∀ f v, Taken env i f v → KeepsClock i Q (g (some f)) v)
    (hnone : ∀ v, Taking env i v → KeepsClock i Q (g none) v) :
    KeepsClock i Q (getBufQueue i >>= g) w := by
  have hΦ := clockStable_taking env i
  refine EnsuresIf.act_bind fun v hv hC => ?_
  have hv := hΦ.rely w v hv h
  have hnothing : SubmitsNothing (getAction i) := by
    intro s
    simp only [getAction]
    cases (s.frames i).head? <;> rfl
  obtain ⟨hG, hafter⟩ := hΦ.act hnothing hv hC
  refine ⟨hG, ?_⟩
  change KeepsClock i Q (g (v.state.frames i).head?) _
  cases hhead : (v.state.frames i).head? with
  | none => exact hnone _ hafter
  | some f =>
      have hevent := hC.1.event (.got i f) (by simp [getAction, hhead])
      exact hsome f _ ⟨hafter, hv.clock.sorted f (List.mem_of_mem_head? hhead), hevent⟩

/-- **An attempt.** -/
theorem ensures_feedMessage (h : Taking env i w) :
    KeepsClock i (fun _ => ClockKept i) (feedMessage env i) w := by
  have hΦ := clockStable_taking env i
  have hkept := clockStable_kept i
  have hdone : ∀ (n : Int) v, ClockKept i v →
      KeepsClock i (fun _ => ClockKept i) (pure n : Op Int) v :=
    fun n v hv => hkept.keep (does_pure n) hv
  have habsent : ∀ v, Taking env i v → KeepsClock i (fun _ => ClockKept i)
      (do clearBufQueue i; return 0 : Op Int) v :=
    fun v hv => hkept.keep (Does.bind (does_emit _ _ fun _ => rfl) fun _ => does_pure _) hv.clock
  refine EnsuresIf.bind (clockRely_refl i) (M := fun _ => ClockKept i) ?_ fun n v hv =>
    hkept.keep (Does.bind (does_emit _ _ fun _ => rfl) fun _ => does_pure _) hv
  cases i with
  | videoEs =>
      refine hΦ.keep_bind does_lock_submitsNothing h fun _ v hv => ?_
      refine hΦ.read_bind hv fun v hv => EnsuresIf.ite (fun _ => ?_) fun _ => habsent v hv
      refine getBufQueue_bind hv (fun f v hv => ?_) fun v hv => hdone 0 v hv.clock
      have hΨ := clockStable_taken env .videoEs f
      refine hΨ.query_bind hv fun v hv => hΨ.query_bind hv fun v hv => ?_
      exact EnsuresIf.ite (fun _ => hdone _ v hv.clock) fun _ => ensures_feedVideoFrame hv
  | audioEs =>
      refine hΦ.keep_bind does_lock_submitsNothing h fun _ v hv => ?_
      refine hΦ.read_bind hv fun v hv => EnsuresIf.ite (fun _ => ?_) fun _ => habsent v hv
      refine hΦ.query_bind hv fun v hv => EnsuresIf.ite (fun _ => hdone _ v hv.clock) fun _ => ?_
      exact getBufQueue_bind hv (fun f v hv => ensures_feedAudioFrame hv) fun v hv =>
        hdone 0 v hv.clock

end Attempt

/-! ## Runs -/

/-- What holds between two steps. -/
structure ClockInv (x : FeedSystem) : Prop where
  kept : ∀ i, ClockKept i x.world
  shape : ∀ t p, x.running t = some p → p.Does KeepsShape
  attempt : ∀ i p, x.running (.renderer i) = some p →
    KeepsClock i (fun _ => ClockKept i) p x.world

theorem clockInv_init {s : Esplayer} (hs : s.Sorted) : ClockInv (Pool.init s) where
  kept i := ⟨hs i, oneShot_nil, fun _ b hb => by cases hb⟩
  shape _ _ h := by cases h
  attempt _ _ h := by cases h

/-- A thread starts a program or is done with one. -/
theorem ClockInv.setRunning {x : FeedSystem} (h : ClockInv x) (t : Thread) (p : Option (Op Int))
    (hshape : ∀ q, p = some q → q.Does KeepsShape)
    (hattempt : ∀ i q, t = .renderer i → p = some q →
      KeepsClock i (fun _ => ClockKept i) q x.world) : ClockInv (x.setRunning t p) := by
  refine ⟨h.kept, fun t' q hq => ?_, fun i q hq => ?_⟩
  · rcases Pool.setRunning_cases hq with ⟨_, hp⟩ | ⟨_, hold⟩
    · exact hshape q hp
    · exact h.shape t' q hold
  · rcases Pool.setRunning_cases hq with ⟨ht, hp⟩ | ⟨_, hold⟩
    · exact hattempt i q ht.symm hp
    · exact h.attempt i q hold

/-- What the others rely on is enough for a stream whose thread takes no step. -/
theorem ClockInv.other {x y : FeedSystem} (h : ClockInv x) {i : StreamType}
    (hR : ClockRely i x.world y.world)
    (hrun : y.running (.renderer i) = x.running (.renderer i)) :
    ClockKept i y.world ∧ ∀ p, y.running (.renderer i) = some p →
      KeepsClock i (fun _ => ClockKept i) p y.world :=
  ⟨(h.kept i).stable hR, fun p hp => (h.attempt i p (hrun ▸ hp)).stable (clockRely_trans i) hR⟩

/-- A thread takes a step. -/
theorem ClockInv.taken {x y : FeedSystem} {t : Thread} (h : ClockInv x)
    (hsafe : ClockSafeStep x (.step t)) (hy : Pool.step x t = some y) : ClockInv y := by
  obtain ⟨⟨p, hp⟩, _⟩ := Pool.step_running hy
  have hC : ∀ f k, x.running t = some (act f k) →
      ClockSafeAction x.world.state (f x.world.state) :=
    fun f k hf => ⟨hsafe _ hf f rfl, (h.shape t _ hf).1 x.world.state⟩
  have hshape : ∀ t' q, y.running t' = some q → q.Does KeepsShape := by
    intro t' q hq
    rcases Pool.step_running_cases hy hq with rfl | ⟨_, hold⟩
    · obtain ⟨_, q', hq', hdoes⟩ := Pool.step_does hy hp (h.shape t' p hp)
      rw [hq', Option.some.injEq] at hq
      exact hq ▸ hdoes
    · exact h.shape t' q hold
  have hstream : ∀ i, ClockKept i y.world ∧ ∀ p, y.running (.renderer i) = some p →
      KeepsClock i (fun _ => ClockKept i) p y.world := by
    intro i
    by_cases ht : t = .renderer i
    · subst ht
      obtain ⟨hG, q, hq, hrest⟩ :=
        Pool.step_ensuresIf (clockRely_refl i) hy hp (h.attempt i p hp) hC
      refine ⟨hG.elim (fun hw => hw ▸ h.kept i) id, fun p' hp' => ?_⟩
      rw [hq, Option.some.injEq] at hp'
      exact hp' ▸ hrest
    · refine h.other ?_ (Pool.step_running_ne hy (Ne.symm ht))
      rcases Pool.step_cases hy with ⟨f, k, hf, _, hw⟩ | ⟨_, _, _, hw⟩
      · rw [hw]
        exact (hC f k hf).rely i t (.inl ht)
      · rw [hw]
        exact clockRely_refl i x.world
  exact ⟨fun i => (hstream i).1, hshape, fun i => (hstream i).2⟩

/-- The step lemma. -/
theorem ClockInv.step {x y : FeedSystem} {a : DrivingAct} (h : ClockInv x)
    (hsafe : ClockSafeStep x a) (hy : x.drive a = some y) : ClockInv y := by
  cases a with
  | call n c =>
      obtain ⟨_, rfl⟩ := Pool.start_cases hy
      refine h.setRunning _ _ (fun q hq => ?_) fun i q ht => by cases ht
      cases hq
      exact does_drivingCall c
  | returned n =>
      obtain ⟨⟨v, z⟩, hz, rfl⟩ := Option.map_eq_some_iff.mp hy
      obtain ⟨_, rfl⟩ := Pool.finish_cases hz
      exact h.setRunning _ none (fun q hq => by cases hq) fun i q _ hq => by cases hq
  | attempt i env =>
      obtain ⟨_, rfl⟩ := Pool.start_cases hy
      refine h.setRunning _ _ (fun q hq => ?_) fun j q ht hq => ?_
      · cases hq
        exact does_feedMessage env i
      · cases ht
        cases hq
        exact ensures_feedMessage ⟨h.kept i, hsafe⟩
  | handled i =>
      obtain ⟨⟨v, z⟩, hz, rfl⟩ := Option.map_eq_some_iff.mp hy
      obtain ⟨_, rfl⟩ := Pool.finish_cases hz
      exact h.setRunning _ none (fun q hq => by cases hq) fun i q _ hq => by cases hq
  | step t => exact h.taken hsafe hy
  | emptyBufferDone i index =>
      obtain rfl := Option.some.inj hy
      have hR : ∀ j, ClockRely j x.world (x.setState (x.world.state.onComponent i.codec fun comp =>
          { comp with input := comp.input.emptyBufferDone index })).world := by
        refine fun j => ⟨?_, id, rfl⟩
        exact sameShape_onComponent j _ i.codec (fun _ => rfl) fun comp _ =>
          comp.input.emptyBufferDone_sizes index
      exact ⟨fun j => (h.other (hR j) rfl).1, h.shape, fun j => (h.other (hR j) rfl).2⟩

/-- **The clock is started once.** In every run whose steps are safe for the clock, at most one
buffer of a stream is submitted with `OMX_BUFFERFLAG_STARTTIME`, and it is the first that is not
empty. -/
theorem startTime_oneShot (s : Esplayer) (hs : s.Sorted) (as : List DrivingAct)
    (hsafe : Lts.Along FeedSystem.drive ClockSafeStep (Pool.init s) as) (x : FeedSystem)
    (hx : Lts.exec FeedSystem.drive (Pool.init s) as = some x) (i : StreamType) :
    OneShot (sent x.world i) :=
  ((hsafe.invariant (fun _ _ _ ha h hy => h.step ha hy) (clockInv_init hs) hx).kept i).oneShot

/-- A video frame that a client feeds, and `n` steps of the attempt for it. -/
def fedVideo (buff : StreamBuffer) (n : Nat) : List DrivingAct :=
  [.call 0 (.feedData (some buff))] ++ List.replicate 7 (.step (.client 0)) ++
    [.returned 0, .attempt .videoEs {}] ++ List.replicate n (.step (.renderer .videoEs))

/-- A video frame of `n` bytes, a tenth of a second into the stream. -/
def videoOf (n : Nat) : StreamBuffer :=
  { data := List.replicate n 0, streamType := .videoEs, timestamp := 9000 }

/-- Two frames of one byte each. -/
def smallFrames : List DrivingAct :=
  fedVideo (videoOf 1) 14 ++ [.handled .videoEs] ++ fedVideo (videoOf 1) 14

/-- The flags of the video buffers that a run submits, from a player with two buffers of two
bytes. -/
def videoFlagsAfter (as : List DrivingAct) : Option (List (BitVec 32)) :=
  (Lts.exec FeedSystem.drive (Pool.init (feedingPlayer 2)) as).map fun x =>
    (sent x.world .videoEs).map (·.flags)

theorem startTime_oneShot_small :
    ∃ x, Lts.exec FeedSystem.drive (Pool.init (feedingPlayer 2)) smallFrames = some x ∧
      (sent x.world .videoEs).map (·.flags) =
        [bufferFlagStartTime ||| bufferFlagEndOfFrame, bufferFlagEndOfFrame] ∧
      OneShot (sent x.world .videoEs) := by
  have hflags : videoFlagsAfter smallFrames =
      some [bufferFlagStartTime ||| bufferFlagEndOfFrame, bufferFlagEndOfFrame] := by
    rfl
  obtain ⟨x, hx, hflags⟩ := Option.map_eq_some_iff.mp hflags
  have hsafe : Lts.Along FeedSystem.drive ClockSafeStep (Pool.init (feedingPlayer 2))
      smallFrames := by
    decide
  have hsorted : (feedingPlayer 2).Sorted := fun i f hf => by cases hf
  exact ⟨x, hx, hflags, startTime_oneShot _ hsorted smallFrames hsafe x hx .videoEs⟩

/-- A frame of three bytes goes into two buffers, and both are to start the clock. -/
theorem startTime_twice :
    ∃ x, Lts.exec FeedSystem.drive (Pool.init (feedingPlayer 2)) (fedVideo (videoOf 3) 18) =
        some x ∧
      (sent x.world .videoEs).map (·.flags) =
        [bufferFlagStartTime, bufferFlagStartTime ||| bufferFlagEndOfFrame] ∧
      ¬ OneShot (sent x.world .videoEs) := by
  have hflags : videoFlagsAfter (fedVideo (videoOf 3) 18) =
      some [bufferFlagStartTime, bufferFlagStartTime ||| bufferFlagEndOfFrame] := by
    rfl
  obtain ⟨x, hx, hflags⟩ := Option.map_eq_some_iff.mp hflags
  refine ⟨x, hx, hflags, fun honce => ?_⟩
  have htwo : ((sent x.world .videoEs).map (·.flags)).countP
      (fun flags => flags &&& bufferFlagStartTime ≠ 0) = 2 := by
    rw [hflags]
    decide
  rw [List.countP_map] at htwo
  exact absurd (htwo.symm.trans_le honce.once) (by decide)

end DirectMedia
