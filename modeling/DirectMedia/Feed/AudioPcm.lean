import DirectMedia.Audio.SwDecoder
import DirectMedia.Feed.Fragments
import DirectMedia.Omx.Bounds

set_option autoImplicit false

/-! # The PCM of an audio frame

`Feed_AudioData` hands the PCM of a frame to the codec with one call of `writeToFreeBuffer` and
removes the frame whatever came of it. Nothing is lost exactly if OMX accepts the buffer and the
free buffer that is found holds all of the PCM (`feedAudioData_delivers_iff`).
-/

namespace DirectMedia

open Prog

/-- What `Feed_AudioData` has to submit for the frame `f`. -/
def Esplayer.pcm (s : Esplayer) (env : FeedEnv) (f : Frame) : List UInt8 :=
  if f.dataLen > 0 then (decodeAudio env s.swDecoder f).2 else f.data

/-- What `Feed_AudioData` gets from a call of `DecodeAudio` and the two getters. -/
def AudioSwDecoder.handedOut (dec : AudioSwDecoder) (lib : Ffmpeg) (c : DecodeCall) :
    Int × List UInt8 :=
  ((dec.decodeAudio lib c).1,
    (dec.decodeAudio lib c).2.getOutputBufferData.take
      (dec.decodeAudio lib c).2.getOutputBufferSize.toNat)

/-- For a stream that is decoded it is the PCM of the frame if the decoder hands that out. -/
theorem pcm_of_handsOut {s : Esplayer} {env : FeedEnv} {f : Frame} {codec : AvCodecId}
    {dec : AudioSwDecoder} {lib : Ffmpeg} {c : DecodeCall} (hdec : s.swDecoder = some codec)
    (hcodec : codec ≠ .pcmS16le) (hlen : f.dataLen > 0) (henv : env.decode = dec.handedOut lib c)
    (h : dec.HandsOut lib c) : s.pcm env f = (dec.converted lib c).getD [] := by
  have hdecode : decodeAudio env s.swDecoder f = env.decode := by
    rw [hdec]
    cases codec <;> first | rfl | exact absurd rfl hcodec
  rw [Esplayer.pcm, if_pos hlen, hdecode, henv]
  exact h.data

/-- The audio codec returns the buffers `returned n` before the `n`-th action. -/
def audioReturns (returned : Nat → List Nat) (n : Nat) (s : Esplayer) : Esplayer :=
  s.returnBuffers .audioCodec (returned n)

/-- A call of `Feed_AudioData` while the codec returns buffers. -/
def feedAudioAmid (env : FeedEnv) (returned : Nat → List Nat) (s : Esplayer) :
    Amid Esplayer Event Int :=
  (feedAudioData env).amid (audioReturns returned) 0 s

/-- If none comes back it is the call by itself. -/
theorem feedAudioAmid_undisturbed (env : FeedEnv) (s : Esplayer) :
    ((feedAudioAmid env (fun _ => []) s).result, (feedAudioAmid env (fun _ => []) s).state) =
        (feedAudioData env).run s ∧
      (feedAudioAmid env (fun _ => []) s).events = (feedAudioData env).trace s := by
  have hreturns : audioReturns (fun _ => []) = fun _ s => s :=
    funext₂ fun _ s => returnBuffers_nil s _
  rw [feedAudioAmid, hreturns]
  exact amid_undisturbed (feedAudioData env) 0 s

/-! ## One submission -/

/-- The frame `f` is at the head of the queue, and the audio codec is there, with the decoder. -/
structure AtAudio (decoder : Option AvCodecId) (f : Frame) (s : Esplayer) : Prop where
  head : (s.frames .audioEs).head? = some f
  held : (s.component .audioCodec).isSome
  swDecoder : s.swDecoder = decoder

/-- The data is submitted once, with the flag for the end of a frame. -/
def SubmittedOnce (env : FeedEnv) (data : List UInt8) (subs : List Submission) : Prop :=
  ∃ x pts flags, subs = [x] ∧ flags &&& bufferFlagEndOfFrame ≠ 0 ∧
    Answers .audioCodec data pts flags (env.accept 0) x

section AtAudio

variable {decoder : Option AvCodecId} {f : Frame} {env : FeedEnv} {returned : Nat → List Nat}

theorem AtAudio.onComponent {s : Esplayer} (h : AtAudio decoder f s) (c : ComponentName)
    (g : Component → Component) : AtAudio decoder f (s.onComponent c g) where
  head := h.head
  held := by rw [onComponent_held]; exact h.held
  swDecoder := h.swDecoder

theorem AtAudio.congr {s t : Esplayer} (h : AtAudio decoder f s) (halike : Alike s t) :
    AtAudio decoder f t where
  head := by rw [halike.frames]; exact h.head
  held := by rw [halike.component]; exact h.held
  swDecoder := halike.swDecoder.trans h.swDecoder

theorem AtAudio.returns (n : Nat) (s : Esplayer) (h : AtAudio decoder f s) :
    AtAudio decoder f (audioReturns returned n s) :=
  h.onComponent _ _

theorem translateToOmxFlags_or_endOfFrame (flags : BitVec 32) :
    (translateToOmxFlags flags ||| bufferFlagEndOfFrame) &&& bufferFlagEndOfFrame ≠ 0 := by
  rw [BitVec.and_or_distrib_right, translateToOmxFlags_endOfFrame]
  decide

theorem aside_audioPts (f : Frame) : (audioPts f).Does Aside := by
  refine Does.bind (does_read _ fun s => ⟨⟨rfl, rfl, rfl⟩, by simp⟩) fun enable => ?_
  exact Does.ite (fun _ => ⟨aside_adjustAction f, fun _ => trivial⟩) fun _ => does_pure _

theorem amidst_writeAudio (pts : Int) {flags : BitVec 32}
    (hflags : flags &&& bufferFlagEndOfFrame ≠ 0) (ret : Int) (data : List UInt8) :
    Amidst (audioReturns returned) (Sending (AtAudio decoder f) (· = []))
      (writeAudio env f pts flags ret data)
      fun _ d _ => removals d = [f] ∧ SubmittedOnce env data (submissions d) := by
  have hwrite : Amidst (audioReturns returned) (Sending (AtAudio decoder f) (· = []))
      (writeToFreeBuffer .audioCodec f data pts flags (env.accept 0))
      fun _ => Sending (AtAudio decoder f) (SubmittedOnce env data) := by
    refine (amidst_writeToFreeBuffer (J := AtAudio decoder f) AtAudio.returns _ _ _ _ _ _
      fun s hs => hs.onComponent _ _).mono (fun _ _ h => h) fun m d s h => ?_
    obtain ⟨before, x, rfl, hsubs, _, hanswers, _⟩ := h.sent
    exact ⟨h.player, ⟨x, pts, flags, hsubs, hflags, hanswers⟩, h.kept⟩
  refine Amidst.bind hwrite fun written => ?_
  refine Amidst.bind (amidst_popBufQueue AtAudio.returns .audioEs fun s h => h.head) fun _ => ?_
  refine Amidst.bind (C := fun _ d _ => removals d = [f] ∧ SubmittedOnce env data (submissions d))
    (amidst_step fun d n s h => ?_) fun decoder => amidst_pure fun _ _ h => h
  obtain ⟨hsubs, hrem⟩ := submissions_quiet d (audioReturns returned n s)
    (by simp : ∀ x ∈ (none : Option Event), x.quiet = true)
  rw [hsubs, hrem]
  exact h

/-- `Feed_AudioData` with the frame. -/
theorem amidst_feedAudioFrame :
    Amidst (audioReturns returned) (Sending (AtAudio decoder f) (· = [])) (feedAudioFrame env f)
      fun _ d _ => removals d = [f] ∧
        SubmittedOnce env (if f.dataLen > 0 then (decodeAudio env decoder f).2 else f.data)
          (submissions d) := by
  have hends := translateToOmxFlags_or_endOfFrame f.flags
  refine Amidst.bind (amidst_aside AtAudio.returns (fun _ _ h => h.congr) (aside_audioPts f))
    fun pts => Amidst.ite (fun hlen => ?_) fun hlen => ?_
  · rw [if_pos hlen]
    refine Amidst.bind_and ((amidst_aside AtAudio.returns (fun _ _ h => h.congr)
      (aside_setOmxFlags f pts _)).yields (setOmxFlags_yields f pts _)) fun flags hflags => ?_
    refine Amidst.bind_and (amidst_read AtAudio.returns fun s hs => hs.swDecoder) ?_
    rintro _ rfl
    refine amidst_writeAudio pts ?_ _ _
    rwa [hflags _ leftAlone_endOfFrame]
  · rw [if_neg hlen]
    exact amidst_writeAudio pts hends _ _

/-- `Feed_AudioData` either keeps the frame or submits its PCM once and removes it. -/
theorem amidst_feedAudioData (env : FeedEnv) (returned : Nat → List Nat) :
    Amidst (audioReturns returned) (Sending (AtAudio decoder f) (· = [])) (feedAudioData env)
      fun _ d _ => removals d = [] ∨ (removals d = [f] ∧
        SubmittedOnce env (if f.dataLen > 0 then (decodeAudio env decoder f).2 else f.data)
          (submissions d)) := by
  refine Amidst.bind (amidst_looks AtAudio.returns looks_lockUnlessPlaying) fun _ => ?_
  refine Amidst.bind_and (amidst_read AtAudio.returns fun s hs => hs.held) ?_
  rintro _ rfl
  refine Amidst.bind (amidst_query AtAudio.returns _ _) fun free => Amidst.ite (fun _ => ?_)
    fun _ => ?_
  · exact amidst_pure fun d s h => .inl h.1.kept
  · refine Amidst.mono ?_ (fun _ _ h => h.1) fun _ _ _ h => h
    refine Amidst.bind_and (amidst_getBufQueue AtAudio.returns .audioEs fun s hs => hs.head) ?_
    rintro _ rfl
    exact amidst_feedAudioFrame.mono (fun _ _ h => h) fun _ _ _ h => .inr h

end AtAudio

/-! ## Nothing is dropped -/

/-- All bytes of the PCM are submitted: no write leaves its buffer, for a `size_t` of `w` bits, the
payloads make up the PCM, and the last buffer submitted ends the frame. -/
structure PcmSubmitted (w : Nat) (pcm : List UInt8) (subs : List Submission) : Prop where
  inBounds : ∀ x ∈ subs, ∀ ret, Port.InBounds ret
    ((x.state.input .audioCodec).write (BufferWrite.toFreeBuffer w) (int32 pcm.length) ret)
  payload : (subs.map (·.payload)).flatten = pcm
  endOfFrame : ∃ b, (subs.filterMap (·.buffer)).getLast? = some b ∧
    b.flags &&& bufferFlagEndOfFrame ≠ 0

/-- For one submission: OMX accepts it, and the buffer found holds the PCM. -/
theorem SubmittedOnce.pcmSubmitted_iff {env : FeedEnv} {pcm : List UInt8}
    {subs : List Submission} (h : SubmittedOnce env pcm subs) {w : Nat} (hw : 32 ≤ w)
    (hlen : pcm.length < 2 ^ 32) :
    PcmSubmitted w pcm subs ↔ env.accept 0 = 0 ∧ pcm.length < 2 ^ 31 ∧
      ∀ x ∈ subs, Finds .audioCodec pcm x := by
  obtain ⟨x, pts, flags, rfl, hflags, hanswers⟩ := h
  have hbounds := (Port.write_inBounds_iff w hw (x.state.input .audioCodec) pcm.length hlen).1
  have hfound : ∀ b, (x.state.input .audioCodec).getFreeBuffer = some b →
      x.buffer = if env.accept 0 = 0 then some (Port.fill b pcm pts flags) else none :=
    fun b hb => hanswers.buffer.trans (Port.writeToFreeBuffer_fill hb pcm pts flags _).2
  simp only [List.mem_singleton, forall_eq]
  constructor
  · rintro ⟨hin, hpayload, b, hlast, _⟩
    have hbuffer : x.buffer = some b := by
      cases hx : x.buffer with
      | none => simp [hx] at hlast
      | some c => simpa [hx] using hlast
    cases hfree : (x.state.input .audioCodec).getFreeBuffer with
    | none =>
        rw [hanswers.buffer, Port.writeToFreeBuffer_full hfree] at hbuffer
        cases hbuffer
    | some c =>
        rw [hfound c hfree] at hbuffer
        split at hbuffer
        case isFalse hrefused => cases hbuffer
        case isTrue haccept =>
          cases hbuffer
          -- what is cut off is missing from the payload
          have hfits : pcm.length ≤ c.allocLen := by
            simp only [List.map_cons, List.map_nil, List.flatten_cons, List.flatten_nil,
              List.append_nil, Submission.payload, hfound c hfree, if_pos haccept,
              Option.elim_some, Port.fill] at hpayload
            split at hpayload
            case isTrue hfits => exact hfits
            case isFalse hlong =>
              have := congrArg List.length hpayload
              rw [List.length_take] at this
              omega
          have hmin := hbounds.mp (hin x List.mem_cons_self) c hfree
          rw [min_eq_left hfits] at hmin
          exact ⟨haccept, hmin, c, hfree, hfits⟩
  · rintro ⟨haccept, hsmall, c, hfree, hfits⟩
    have hbuffer := hfound c hfree
    rw [if_pos haccept, Port.fill, if_pos hfits] at hbuffer
    refine ⟨?_, by simp [Submission.payload, hbuffer], { c with
      filledLen := pcm.length, flags := flags, timeStamp := pts, bytes := pcm },
      by simp [hbuffer], hflags⟩
    simp only [List.mem_singleton, forall_eq]
    exact hbounds.mpr fun b hb => lt_of_le_of_lt (min_le_left _ _) hsmall

/-- **No audio data is dropped** exactly if OMX accepts the submission and the free buffer it finds
holds the PCM, of less than `2 ^ 31` bytes. -/
theorem feedAudioData_delivers_iff (w : Nat) (hw : 32 ≤ w) (env : FeedEnv)
    (returned : Nat → List Nat) (s : Esplayer) (f : Frame)
    (hcodec : (s.component .audioCodec).isSome) (hhead : (s.frames .audioEs).head? = some f)
    (hlen : (s.pcm env f).length < 2 ^ 32)
    (hremoved : f ∈ removals (feedAudioAmid env returned s).history) :
    PcmSubmitted w (s.pcm env f) (submissions (feedAudioAmid env returned s).history) ↔
      env.accept 0 = 0 ∧ (s.pcm env f).length < 2 ^ 31 ∧
        ∀ x ∈ submissions (feedAudioAmid env returned s).history,
          Finds .audioCodec (s.pcm env f) x := by
  have hrun := amidst_feedAudioData env returned [] 0 s
    ⟨⟨hhead, hcodec, rfl⟩, rfl, rfl⟩
  obtain hkept | ⟨_, honce⟩ := hrun
  · exact absurd hkept (List.ne_nil_of_mem hremoved)
  · exact honce.pcmSubmitted_iff hw hlen

/-- A playing player with the frame `f` and an audio codec with the input buffers `port`. -/
def audioPlayer (port : Port) (f : Frame) : Esplayer :=
  { status := .playing
    component := fun c => if c = .audioCodec then some { input := port } else none
    frames := fun i => if i = .audioEs then [f] else [] }

/-- An audio frame of two bytes. -/
def audioBytes : Frame := ⟨{ data := [1, 2], streamType := .audioEs }, 0⟩

theorem feedAudioData_delivers_iff_two :
    PcmSubmitted 64 ((audioPlayer [{ allocLen := 2 }] audioBytes).pcm {} audioBytes)
        (submissions (feedAudioAmid {} (fun _ => [])
          (audioPlayer [{ allocLen := 2 }] audioBytes)).history) ↔
      ({} : FeedEnv).accept 0 = 0 ∧
        ((audioPlayer [{ allocLen := 2 }] audioBytes).pcm {} audioBytes).length < 2 ^ 31 ∧
        ∀ x ∈ submissions (feedAudioAmid {} (fun _ => [])
            (audioPlayer [{ allocLen := 2 }] audioBytes)).history,
          Finds .audioCodec ((audioPlayer [{ allocLen := 2 }] audioBytes).pcm {} audioBytes) x :=
  feedAudioData_delivers_iff 64 (by decide) {} (fun _ => [])
    (audioPlayer [{ allocLen := 2 }] audioBytes) audioBytes rfl rfl (by decide) (by decide)

/-- The only free buffer holds half of the frame: the rest is dropped with the flag for the end of
the frame, and the frame is removed. -/
theorem feedAudioData_drops :
    removals (feedAudioAmid {} (fun _ => [])
        (audioPlayer [{ allocLen := 1 }] audioBytes)).history = [audioBytes] ∧
      (audioPlayer [{ allocLen := 1 }] audioBytes).pcm {} audioBytes = [1, 2] ∧
      (submissions (feedAudioAmid {} (fun _ => [])
        (audioPlayer [{ allocLen := 1 }] audioBytes)).history).map (·.buffer) =
          [some { allocLen := 1, filledLen := 1, flags := bufferFlagStartTime, bytes := [1] }] ∧
      ¬ PcmSubmitted 64 ((audioPlayer [{ allocLen := 1 }] audioBytes).pcm {} audioBytes)
        (submissions (feedAudioAmid {} (fun _ => [])
          (audioPlayer [{ allocLen := 1 }] audioBytes)).history) :=
  ⟨by decide, by decide, by decide, fun h => absurd h.payload (by decide)⟩

end DirectMedia
