import Mathlib.Algebra.Order.Ring.Int
import Mathlib.Data.List.Induction
import Mathlib.Data.List.TakeDrop

set_option autoImplicit false

/-! # The software decoder

`AudioSwDecoder` keeps one output buffer for all frames. `DecodeAudio` enlarges it for a frame that
needs more room, and `GetOutputBufferSize` returns the size it has reached. What is handed out is
the PCM of the last frame exactly if no frame so far needed more room
(`decodeAudio_handsOut_iff`).

The ffmpeg libraries are parameters: `Ffmpeg` says what their conversions give, and a `DecodeCall`
what they returned during one call of `DecodeAudio`.
-/

namespace DirectMedia

/-- `AVSampleFormat`. -/
inductive SampleFormat where
  | none
  | u8
  | s16
  | s32
  | flt
  | dbl
  | u8p
  | s16p
  | s32p
  | fltp
  | dblp
  deriving DecidableEq, Repr

/-- `SwrContext`: what it was allocated for, and whether `swr_init` has accepted it. The sample
rates of input and output are always the same. -/
structure SwrContext where
  channels : Int
  inputFmt : SampleFormat
  outputFmt : SampleFormat
  initialized : Bool
  deriving DecidableEq, Repr

/-- What ffmpeg returns during a call: the result of `avcodec_decode_audio4` and what it leaves in
`avctx_` and `avframe_`, the memory that `av_realloc` adds, and the results of
`swr_alloc_set_opts`, `swr_init`, `swr_convert` on an initialized context, and `av_samples_copy`. -/
structure DecodeCall where
  ret : Int
  gotFrame : Bool
  channels : Int
  sampleFmt : SampleFormat
  nbSamples : Int
  data : List (List UInt8)
  fresh : Nat → UInt8 := fun _ => 0
  swrAlloc : Bool := true
  swrInit : Int := 0
  swrConvert : Int := 0
  samplesCopy : Int := 0

/-- The functions of ffmpeg that compute sizes and samples. -/
structure Ffmpeg where
  /-- `av_samples_get_buffer_size` without alignment -/
  samplesGetBufferSize : Int → Int → SampleFormat → Int
  /-- `av_samples_fill_arrays` without alignment -/
  samplesFillArrays : Int → Int → SampleFormat → Int
  /-- what `swr_convert` writes for the frame -/
  convert : SwrContext → DecodeCall → List UInt8
  /-- what `av_samples_copy` writes for the frame -/
  copy : DecodeCall → SampleFormat → List UInt8

/-- The output buffer and the conversion context of `AudioSwDecoder`. -/
structure AudioSwDecoder where
  swrctx : Option SwrContext := none
  inputSampleFmt : SampleFormat := .none
  outputSampleFmt : SampleFormat := .none
  outputChannels : Int := 0
  outputBufferSize : Int := 0
  outputBufferData : List UInt8 := []

namespace AudioSwDecoder

def getOutputBufferSize (dec : AudioSwDecoder) : Int := dec.outputBufferSize

def getOutputBufferData (dec : AudioSwDecoder) : List UInt8 := dec.outputBufferData

/-- `OpenAudio`, with the codec found or not and the result of `avcodec_open2`. -/
def openAudio (found : Bool) (opened : Int) (dec : AudioSwDecoder) : Bool × AudioSwDecoder :=
  if ¬ found then (false, dec)
  else if opened < 0 then (false, dec)
  else (true, { dec with inputSampleFmt := .none, outputSampleFmt := .s16 })

/-- `av_realloc`: what the buffer held, then whatever is in the memory added. -/
def avRealloc (fresh : Nat → UInt8) (data : List UInt8) (n : Nat) : List UInt8 :=
  data.take n ++ (List.range (n - data.length)).map fresh

/-- The output buffer is enlarged if the frame needs more room. -/
def grow (dec : AudioSwDecoder) (c : DecodeCall) (outputSize : Int) : AudioSwDecoder :=
  if dec.outputBufferSize < outputSize then
    { dec with
      outputBufferData := avRealloc c.fresh dec.outputBufferData outputSize.toNat
      outputBufferSize := outputSize }
  else dec

/-- A context for another format or another number of channels is freed. -/
def freeContext (dec : AudioSwDecoder) (c : DecodeCall) : AudioSwDecoder :=
  if dec.swrctx.isSome ∧ (c.sampleFmt ≠ dec.inputSampleFmt ∨ dec.outputChannels ≠ c.channels) then
    { dec with swrctx := none, outputChannels := c.channels }
  else dec

/-- Without a context a new one is allocated. The number of channels is noted only when a context
is freed. -/
def allocContext (dec : AudioSwDecoder) (c : DecodeCall) : AudioSwDecoder :=
  match dec.swrctx with
  | some _ => dec
  | none =>
      { dec with
        inputSampleFmt := c.sampleFmt
        swrctx :=
          if c.swrAlloc then
            some ⟨c.channels, c.sampleFmt, dec.outputSampleFmt, decide (0 ≤ c.swrInit)⟩
          else none }

/-- A conversion writes to the start of the output buffer. What goes past its end is not in it. -/
def write (dec : AudioSwDecoder) (pcm : List UInt8) : AudioSwDecoder :=
  { dec with
    outputBufferData :=
      (pcm ++ dec.outputBufferData.drop pcm.length).take dec.outputBufferData.length }

/-- The part of `DecodeAudio` that converts or copies the samples. -/
def convertSamples (lib : Ffmpeg) (c : DecodeCall) (dec : AudioSwDecoder) : Int × AudioSwDecoder :=
  let filled := lib.samplesFillArrays c.channels c.nbSamples dec.outputSampleFmt
  if c.sampleFmt ≠ dec.outputSampleFmt then
    let dec := dec.freeContext c
    let created := dec.swrctx.isNone
    let dec := dec.allocContext c
    match dec.swrctx with
    | none => (0, dec)
    | some ctx =>
        if created ∧ ¬ ctx.initialized then (0, dec)
        -- `swr_convert` returns an error for a context that is not initialized
        else if filled < 0 ∨ ¬ ctx.initialized ∨ c.swrConvert < 0 then (c.ret, dec)
        else (c.ret, dec.write (lib.convert ctx c))
  else if filled < 0 ∨ c.samplesCopy < 0 then (c.ret, dec)
  else (c.ret, dec.write (lib.copy c dec.outputSampleFmt))

/-- `AudioSwDecoder::DecodeAudio`. Neither the result of the decoder nor `got_frame` is looked at,
and `output_size` is forgotten at the end. -/
def decodeAudio (lib : Ffmpeg) (c : DecodeCall) (dec : AudioSwDecoder) : Int × AudioSwDecoder :=
  convertSamples lib c
    (dec.grow c (lib.samplesGetBufferSize c.channels c.nbSamples dec.outputSampleFmt))

/-- The decoder after some calls of `DecodeAudio`. -/
def decodeAll (lib : Ffmpeg) (calls : List DecodeCall) (dec : AudioSwDecoder) : AudioSwDecoder :=
  calls.foldl (fun dec c => (dec.decodeAudio lib c).2) dec

/-- A new decoder after `OpenAudio`. -/
def opened : AudioSwDecoder := (openAudio true 0 {}).2

end AudioSwDecoder

/-! ## What a call should hand out -/

/-- The sample-buffer size of the frame. -/
def Ffmpeg.bufferSize (lib : Ffmpeg) (c : DecodeCall) : Int :=
  lib.samplesGetBufferSize c.channels c.nbSamples .s16

/-- What is documented of the functions, for samples of 16 bits. -/
structure Ffmpeg.Documented (lib : Ffmpeg) : Prop where
  size : ∀ channels nbSamples, 0 ≤ lib.samplesGetBufferSize channels nbSamples .s16 →
    0 < channels ∧ 0 < nbSamples ∧
      lib.samplesGetBufferSize channels nbSamples .s16 = 2 * channels * nbSamples
  fillArrays : ∀ channels nbSamples, 0 ≤ lib.samplesFillArrays channels nbSamples .s16 →
    0 ≤ lib.samplesGetBufferSize channels nbSamples .s16
  convert : ∀ ctx c, ctx.initialized → ctx.outputFmt = .s16 → ctx.inputFmt = c.sampleFmt →
    (lib.convert ctx c).length = (2 * ctx.channels * c.nbSamples).toNat
  copy : ∀ c, 0 ≤ lib.bufferSize c → (lib.copy c .s16).length = lib.bufferSize c

namespace AudioSwDecoder

/-- The context that the call converts with. -/
def contextFor (dec : AudioSwDecoder) (c : DecodeCall) : Option SwrContext :=
  ((dec.freeContext c).allocContext c).swrctx

/-- The PCM that the call converts from its frame, if there is any. -/
def converted (dec : AudioSwDecoder) (lib : Ffmpeg) (c : DecodeCall) : Option (List UInt8) :=
  if c.ret < 0 ∨ ¬ c.gotFrame ∨ lib.samplesFillArrays c.channels c.nbSamples .s16 < 0 then none
  else if c.sampleFmt = .s16 then
    if c.samplesCopy < 0 then none else some (lib.copy c .s16)
  else
    (dec.contextFor c).bind fun ctx =>
      if ctx.initialized ∧ 0 ≤ c.swrConvert then some (lib.convert ctx c) else none

/-- The size of the PCM of the call. -/
def pcmSize (dec : AudioSwDecoder) (lib : Ffmpeg) (c : DecodeCall) : Int :=
  if (dec.converted lib c).isSome then lib.bufferSize c else 0

/-- After the call, size and data are those of the PCM of its frame. -/
structure HandsOut (dec : AudioSwDecoder) (lib : Ffmpeg) (c : DecodeCall) : Prop where
  size : (dec.decodeAudio lib c).2.getOutputBufferSize = dec.pcmSize lib c
  data : (dec.decodeAudio lib c).2.getOutputBufferData.take
      (dec.decodeAudio lib c).2.getOutputBufferSize.toNat = (dec.converted lib c).getD []

/-! ## One call -/

/-- The context is for samples of 16 bits, from the format noted. -/
def ContextNoted (dec : AudioSwDecoder) : Prop :=
  ∀ ctx, dec.swrctx = some ctx → ctx.outputFmt = .s16 ∧ ctx.inputFmt = dec.inputSampleFmt

/-- What a conversion leaves alone of the decoder before: the output format, and the size of the
buffer. -/
structure Converts (before after : AudioSwDecoder) : Prop where
  fmt : after.outputSampleFmt = before.outputSampleFmt
  size : after.outputBufferSize = before.outputBufferSize
  length : after.outputBufferData.length = before.outputBufferData.length
  noted : before.outputSampleFmt = .s16 → before.ContextNoted → after.ContextNoted

theorem Converts.refl (dec : AudioSwDecoder) : dec.Converts dec := ⟨rfl, rfl, rfl, fun _ h => h⟩

theorem Converts.trans {dec dec' dec'' : AudioSwDecoder} (h : dec.Converts dec')
    (h' : dec'.Converts dec'') : dec.Converts dec'' where
  fmt := h'.fmt.trans h.fmt
  size := h'.size.trans h.size
  length := h'.length.trans h.length
  noted hfmt hnoted := h'.noted (h.fmt.trans hfmt) (h.noted hfmt hnoted)

theorem converts_write (dec : AudioSwDecoder) (pcm : List UInt8) :
    dec.Converts (dec.write pcm) where
  fmt := rfl
  size := rfl
  length := by
    simp only [write, List.length_take, List.length_append, List.length_drop]
    omega
  noted _ h := h

/-- The context is replaced or kept; the buffer is not touched. -/
theorem converts_context (dec : AudioSwDecoder) (c : DecodeCall) :
    dec.Converts ((dec.freeContext c).allocContext c) ∧
      ((dec.freeContext c).allocContext c).outputBufferData = dec.outputBufferData := by
  have hfree : dec.Converts (dec.freeContext c) ∧
      (dec.freeContext c).outputBufferData = dec.outputBufferData := by
    unfold freeContext
    split
    · exact ⟨⟨rfl, rfl, rfl, fun _ _ _ hctx => by cases hctx⟩, rfl⟩
    · exact ⟨.refl dec, rfl⟩
  have halloc : ∀ d : AudioSwDecoder, d.Converts (d.allocContext c) ∧
      (d.allocContext c).outputBufferData = d.outputBufferData := by
    intro d
    unfold allocContext
    split
    · exact ⟨.refl d, rfl⟩
    · refine ⟨⟨rfl, rfl, rfl, fun hfmt _ ctx hctx => ?_⟩, rfl⟩
      dsimp only at hctx
      split at hctx
      · cases hctx
        exact ⟨hfmt, rfl⟩
      · cases hctx
  exact ⟨hfree.1.trans (halloc _).1, (halloc _).2.trans hfree.2⟩

/-- The context that a call converts with is one for the format of its frame. -/
theorem contextFor_noted {dec : AudioSwDecoder} (hfmt : dec.outputSampleFmt = .s16)
    (hnoted : dec.ContextNoted) {c : DecodeCall} {ctx : SwrContext}
    (h : dec.contextFor c = some ctx) : ctx.outputFmt = .s16 ∧ ctx.inputFmt = c.sampleFmt := by
  obtain ⟨hout, hin⟩ := (converts_context dec c).1.noted hfmt hnoted ctx h
  refine ⟨hout, hin.trans ?_⟩
  unfold allocContext
  split
  case h_1 hkept =>
    unfold freeContext at hkept ⊢
    split at hkept
    · cases hkept
    case isFalse hsame =>
      rw [if_neg hsame]
      by_contra hne
      exact hsame ⟨by rw [hkept]; rfl, .inl fun heq => hne heq.symm⟩
  · rfl

/-- The part that converts writes the PCM of the call, if there is any. -/
theorem convertSamples_spec (lib : Ffmpeg) (c : DecodeCall) {dec : AudioSwDecoder}
    (hfmt : dec.outputSampleFmt = .s16) :
    dec.Converts (dec.convertSamples lib c).2 ∧
      ∀ pcm, dec.converted lib c = some pcm →
        (dec.convertSamples lib c).2.outputBufferData =
          (pcm ++ dec.outputBufferData.drop pcm.length).take dec.outputBufferData.length := by
  obtain ⟨hcontext, hdata⟩ := converts_context dec c
  unfold convertSamples converted contextFor
  rw [hfmt]
  generalize lib.samplesFillArrays c.channels c.nbSamples .s16 = filled
  by_cases hcopy : c.sampleFmt = .s16
  · simp only [hcopy, ne_eq, not_true_eq_false, if_false, if_true]
    split
    case isTrue hfailed =>
      refine ⟨.refl dec, fun pcm hpcm => ?_⟩
      split_ifs at hpcm with hnone hneg
      obtain hfilled | hneg' := hfailed
      · exact absurd (.inr (.inr hfilled)) hnone
      · exact absurd hneg' hneg
    case isFalse =>
      refine ⟨converts_write dec _, fun pcm hpcm => ?_⟩
      split_ifs at hpcm
      cases hpcm
      rfl
  · simp only [hcopy, ne_eq, not_false_eq_true, if_true, if_false]
    generalize (dec.freeContext c).swrctx.isNone = created
    generalize (dec.freeContext c).allocContext c = after at hcontext hdata
    cases after.swrctx with
    | none =>
        refine ⟨hcontext, fun pcm hpcm => ?_⟩
        split_ifs at hpcm
        cases hpcm
    | some ctx =>
        simp only [Option.bind_some]
        split
        case isTrue hfailed =>
          refine ⟨hcontext, fun pcm hpcm => ?_⟩
          split_ifs at hpcm with hnone hok
          exact absurd hok.1 hfailed.2
        case isFalse =>
          split
          case isTrue hfailed =>
            refine ⟨hcontext, fun pcm hpcm => ?_⟩
            split_ifs at hpcm with hnone hok
            obtain hfilled | huninit | hneg := hfailed
            · exact absurd (.inr (.inr hfilled)) hnone
            · exact absurd hok.1 huninit
            · exact absurd hneg (not_lt.mpr hok.2)
          case isFalse =>
            refine ⟨hcontext.trans (converts_write after _), fun pcm hpcm => ?_⟩
            split_ifs at hpcm
            cases hpcm
            rw [← hdata]
            rfl

theorem length_avRealloc (fresh : Nat → UInt8) (data : List UInt8) (n : Nat) :
    (avRealloc fresh data n).length = n := by
  simp only [avRealloc, List.length_append, List.length_take, List.length_map, List.length_range]
  omega

/-- The buffer is as large as it was, or as the frame needs. -/
theorem grow_spec {dec : AudioSwDecoder} (c : DecodeCall) (n : Int)
    (hlength : (dec.outputBufferData.length : Int) = dec.outputBufferSize) :
    (dec.grow c n).outputBufferSize = max dec.outputBufferSize n ∧
      ((dec.grow c n).outputBufferData.length : Int) = (dec.grow c n).outputBufferSize ∧
      (dec.grow c n).outputSampleFmt = dec.outputSampleFmt ∧
      (dec.ContextNoted → (dec.grow c n).ContextNoted) := by
  unfold grow
  split
  case isTrue hlt =>
    refine ⟨(max_eq_right (le_of_lt hlt)).symm, ?_, rfl, fun h => h⟩
    rw [length_avRealloc, Int.toNat_of_nonneg]
    omega
  case isFalse hge => exact ⟨(max_eq_left (not_lt.mp hge)).symm, hlength, rfl, fun h => h⟩

theorem contextFor_grow (dec : AudioSwDecoder) (c c' : DecodeCall) (n : Int) :
    (dec.grow c' n).contextFor c = dec.contextFor c := by
  unfold grow
  split
  · unfold contextFor freeContext
    dsimp only
    split
    · rfl
    · unfold allocContext
      cases hctx : dec.swrctx with
      | none => rfl
      | some ctx => exact hctx.symm
  · rfl

theorem converted_grow (dec : AudioSwDecoder) (lib : Ffmpeg) (c c' : DecodeCall) (n : Int) :
    (dec.grow c' n).converted lib c = dec.converted lib c := by
  unfold converted
  rw [contextFor_grow]

/-! ## A run -/

/-- The buffer is as large as the frame that needed most room among the calls so far. -/
structure After (lib : Ffmpeg) (calls : List DecodeCall) (dec : AudioSwDecoder) : Prop where
  fmt : dec.outputSampleFmt = .s16
  noted : dec.ContextNoted
  length : (dec.outputBufferData.length : Int) = dec.outputBufferSize
  upper : ∀ c ∈ calls, lib.bufferSize c ≤ dec.outputBufferSize
  attained : dec.outputBufferSize = 0 ∨ ∃ c ∈ calls, lib.bufferSize c = dec.outputBufferSize

section Run

variable {lib : Ffmpeg} {calls : List DecodeCall} {dec : AudioSwDecoder}

theorem After.size (h : After lib calls dec) (c : DecodeCall) :
    (dec.decodeAudio lib c).2.outputBufferSize = max dec.outputBufferSize (lib.bufferSize c) := by
  obtain ⟨hgrow, _, hfmt, _⟩ := grow_spec c (lib.samplesGetBufferSize c.channels c.nbSamples
    dec.outputSampleFmt) h.length
  rw [decodeAudio, (convertSamples_spec lib c (hfmt.trans h.fmt)).1.size, hgrow, h.fmt,
    Ffmpeg.bufferSize]

/-- One more call. -/
theorem After.step (h : After lib calls dec) (c : DecodeCall) :
    After lib (calls ++ [c]) (dec.decodeAudio lib c).2 := by
  obtain ⟨_, hlength, hfmt, hnoted⟩ := grow_spec c (lib.samplesGetBufferSize c.channels
    c.nbSamples dec.outputSampleFmt) h.length
  have hconverts := (convertSamples_spec lib c (hfmt.trans h.fmt)).1
  have hsize := h.size c
  refine ⟨hconverts.fmt.trans (hfmt.trans h.fmt), hconverts.noted (hfmt.trans h.fmt)
    (hnoted h.noted), ?_, fun c' hc' => ?_, ?_⟩
  · have hsame : (dec.decodeAudio lib c).2.outputBufferSize = _ := hconverts.size
    rw [hsame, ← hlength]
    exact congrArg Nat.cast hconverts.length
  · rw [hsize]
    obtain hold | hnew := List.mem_append.mp hc'
    · exact le_max_of_le_left (h.upper c' hold)
    · rw [List.mem_singleton.mp hnew]
      exact le_max_right _ _
  · rw [hsize]
    obtain hle | hlt := le_or_gt (lib.bufferSize c) dec.outputBufferSize
    · rw [max_eq_left hle]
      refine h.attained.imp_right fun ⟨c', hc', heq⟩ => ⟨c', ?_, heq⟩
      exact List.mem_append_left _ hc'
    · rw [max_eq_right (le_of_lt hlt)]
      exact .inr ⟨c, List.mem_append_right _ (List.mem_singleton.mpr rfl), rfl⟩

theorem decodeAll_snoc (lib : Ffmpeg) (calls : List DecodeCall) (c : DecodeCall)
    (dec : AudioSwDecoder) : dec.decodeAll lib (calls ++ [c]) =
      ((dec.decodeAll lib calls).decodeAudio lib c).2 := by
  simp [decodeAll]

theorem after_decodeAll (lib : Ffmpeg) (calls : List DecodeCall) :
    After lib calls (opened.decodeAll lib calls) := by
  induction calls using List.reverseRecOn with
  | nil => exact ⟨rfl, fun _ h => (by cases h), rfl, fun _ h => (by cases h), .inl rfl⟩
  | append_singleton calls c ih =>
      rw [decodeAll_snoc]
      exact ih.step c

/-- The PCM has the sample-buffer size of the frame if the context is for its number of channels. -/
theorem length_converted (hfmt : dec.outputSampleFmt = .s16) (hnoted : dec.ContextNoted)
    (hlib : lib.Documented) {c : DecodeCall} {pcm : List UInt8}
    (h : dec.converted lib c = some pcm) :
    0 ≤ lib.bufferSize c ∧ ((pcm.length : Int) = lib.bufferSize c ↔
      (c.sampleFmt ≠ .s16 → ∀ ctx, dec.contextFor c = some ctx → ctx.channels = c.channels)) := by
  unfold converted at h
  split_ifs at h with hnone hcopy
  · cases h
    have hsize : 0 ≤ lib.bufferSize c :=
      hlib.fillArrays _ _ (not_lt.mp fun hlt => hnone (.inr (.inr hlt)))
    exact ⟨hsize, iff_of_true (hlib.copy c hsize) fun hne => absurd hcopy hne⟩
  · obtain ⟨ctx, hctx, h⟩ := Option.bind_eq_some_iff.mp h
    split_ifs at h with hok
    cases h
    have hsize : 0 ≤ lib.bufferSize c :=
      hlib.fillArrays _ _ (not_lt.mp fun hlt => hnone (.inr (.inr hlt)))
    obtain ⟨hout, hin⟩ := contextFor_noted hfmt hnoted hctx
    obtain ⟨hchannels, hsamples, hbytes⟩ := hlib.size _ _ hsize
    have hpos : 0 < 2 * c.channels * c.nbSamples := Int.mul_pos (by omega) hsamples
    have hlength := hlib.convert ctx c hok.1 hout hin
    refine ⟨hsize, ?_⟩
    rw [Ffmpeg.bufferSize, hbytes, hlength]
    constructor
    · intro heq _ ctx' hctx'
      obtain rfl : ctx = ctx' := Option.some.inj (hctx.symm.trans hctx')
      have hmul : 2 * ctx.channels * c.nbSamples = 2 * c.channels * c.nbSamples := by omega
      have hdouble := Int.eq_of_mul_eq_mul_right (by omega) hmul
      omega
    · intro hsame
      rw [hsame hcopy ctx hctx]
      omega

/-- Bytes written over a buffer are all that it holds if they are as many. -/
theorem overwritten_iff (pcm buffer : List UInt8) :
    (pcm ++ buffer.drop pcm.length).take buffer.length = pcm ↔ pcm.length = buffer.length := by
  constructor
  · intro heq
    have := congrArg List.length heq
    simp only [List.length_take, List.length_append, List.length_drop] at this
    omega
  · intro heq
    rw [← heq, List.take_left]

/-- What is handed out is the PCM of the call exactly if the buffer has not outgrown it, and the
context in use is for the frame's number of channels. -/
theorem After.handsOut_iff (h : After lib calls dec) (hlib : lib.Documented) (c : DecodeCall) :
    dec.HandsOut lib c ↔
      max dec.outputBufferSize (lib.bufferSize c) = dec.pcmSize lib c ∧
        (c.sampleFmt ≠ .s16 → (dec.converted lib c).isSome →
          ∀ ctx, dec.contextFor c = some ctx → ctx.channels = c.channels) := by
  have hsize := h.size c
  have hsplit : dec.HandsOut lib c ↔
      max dec.outputBufferSize (lib.bufferSize c) = dec.pcmSize lib c ∧
        (dec.decodeAudio lib c).2.outputBufferData.take
          (dec.decodeAudio lib c).2.outputBufferSize.toNat = (dec.converted lib c).getD [] := by
    rw [← hsize]
    exact ⟨fun h => ⟨h.size, h.data⟩, fun h => ⟨h.1, h.2⟩⟩
  rw [hsplit]
  refine and_congr_right fun hpcm => ?_
  obtain ⟨hgrow, hlength, hfmt, _⟩ := grow_spec c (lib.samplesGetBufferSize c.channels c.nbSamples
    dec.outputSampleFmt) h.length
  have hwritten := (convertSamples_spec lib c (hfmt.trans h.fmt)).2
  rw [hsize, hpcm]
  cases hconverted : dec.converted lib c with
  | none => simp [pcmSize, hconverted]
  | some pcm =>
      -- the PCM is written over the start of the buffer, which is handed out as a whole
      obtain ⟨hnonneg, hiff⟩ := length_converted h.fmt h.noted hlib hconverted
      have hcall : dec.pcmSize lib c = lib.bufferSize c := by simp [pcmSize, hconverted]
      have hgrown : ((dec.grow c (lib.samplesGetBufferSize c.channels c.nbSamples
          dec.outputSampleFmt)).outputBufferData.length : Int) = lib.bufferSize c := by
        rw [hlength, hgrow, h.fmt, ← Ffmpeg.bufferSize, hpcm, hcall]
      have hdata := hwritten pcm (by rw [converted_grow, hconverted])
      rw [hcall, ← hgrown, Int.toNat_natCast, decodeAudio, hdata, List.take_take, min_self,
        Option.getD_some, overwritten_iff]
      rw [← hgrown, Nat.cast_inj] at hiff
      rw [hiff]
      simp

/-- In terms of the calls: no frame so far needed more room than the PCM takes. -/
theorem After.handsOut_iff_forall (h : After lib calls dec) (hlib : lib.Documented)
    (c : DecodeCall) :
    dec.HandsOut lib c ↔
      (∀ c' ∈ calls ++ [c], lib.bufferSize c' ≤ dec.pcmSize lib c) ∧
        (c.sampleFmt ≠ .s16 → (dec.converted lib c).isSome →
          ∀ ctx, dec.contextFor c = some ctx → ctx.channels = c.channels) := by
  rw [h.handsOut_iff hlib c]
  refine and_congr_left fun hcontext => ?_
  have hnonneg : 0 ≤ dec.outputBufferSize := by
    rw [← h.length]
    omega
  have hle : 0 ≤ dec.pcmSize lib c ∧ dec.pcmSize lib c ≤ max 0 (lib.bufferSize c) := by
    unfold pcmSize
    split
    case isTrue hsome =>
      obtain ⟨pcm, hpcm⟩ := Option.isSome_iff_exists.mp hsome
      have := (length_converted h.fmt h.noted hlib hpcm).1
      omega
    case isFalse => omega
  constructor
  · intro hsize c' hc'
    obtain hold | hnew := List.mem_append.mp hc'
    · have := h.upper c' hold
      omega
    · rw [List.mem_singleton.mp hnew]
      omega
  · intro hsizes
    have hown := hsizes c (List.mem_append_right _ (List.mem_singleton.mpr rfl))
    obtain hzero | ⟨c', hc', hmax⟩ := h.attained
    · omega
    · have := hsizes c' (List.mem_append_left _ hc')
      omega

/-! ## The context -/

/-- The context is for the number of channels noted, if one is noted. -/
structure ContextFits (dec : AudioSwDecoder) : Prop where
  without : dec.swrctx = none → dec.outputChannels = 0
  fits : ∀ ctx, dec.swrctx = some ctx → dec.outputChannels = 0 ∨ ctx.channels = dec.outputChannels

theorem ContextFits.congr {dec' : AudioSwDecoder} (h : dec.ContextFits)
    (hctx : dec'.swrctx = dec.swrctx) (hchannels : dec'.outputChannels = dec.outputChannels) :
    dec'.ContextFits where
  without hnone := hchannels.trans (h.without (hctx.symm.trans hnone))
  fits ctx hsome := by
    rw [hchannels]
    exact h.fits ctx (hctx.symm.trans hsome)

/-- A context is allocated, replaced or kept: it is for the frame's number of channels. -/
theorem ContextFits.contextFor (h : dec.ContextFits) {c : DecodeCall} (hc : c.swrAlloc = true) :
    ((dec.freeContext c).allocContext c).ContextFits ∧
      (c.channels ≠ 0 → ∀ ctx, dec.contextFor c = some ctx → ctx.channels = c.channels) := by
  unfold AudioSwDecoder.contextFor freeContext
  split
  case isTrue =>
    simp only [allocContext, hc, if_true, Option.some.injEq]
    refine ⟨⟨by simp, fun ctx hctx => .inr ?_⟩, fun _ ctx hctx => by rw [← hctx]⟩
    cases hctx
    rfl
  case isFalse hkept =>
    unfold allocContext
    cases hctx : dec.swrctx with
    | none =>
        have hzero := h.without hctx
        simp only [hc, if_true, Option.some.injEq]
        exact ⟨⟨by simp, fun _ _ => .inl hzero⟩, fun _ ctx hnew => by rw [← hnew]⟩
    | some ctx =>
        refine ⟨h, fun hne ctx' hctx' => ?_⟩
        have hsame : dec.outputChannels = c.channels := by
          by_contra hother
          exact hkept ⟨by rw [hctx]; rfl, .inr hother⟩
        obtain hzero | hfits := h.fits ctx' hctx'
        · exact absurd (hsame.symm.trans hzero) hne
        · exact hfits.trans hsame

theorem convertSamples_context (lib : Ffmpeg) (dec : AudioSwDecoder) (c : DecodeCall) :
    ((dec.convertSamples lib c).2.swrctx = dec.swrctx ∧
        (dec.convertSamples lib c).2.outputChannels = dec.outputChannels) ∨
      ((dec.convertSamples lib c).2.swrctx = ((dec.freeContext c).allocContext c).swrctx ∧
        (dec.convertSamples lib c).2.outputChannels =
          ((dec.freeContext c).allocContext c).outputChannels) := by
  unfold convertSamples
  dsimp only
  split
  · refine .inr ?_
    cases hctx : ((dec.freeContext c).allocContext c).swrctx with
    | none => exact ⟨hctx, rfl⟩
    | some ctx =>
        dsimp only
        split
        · exact ⟨hctx, rfl⟩
        · split
          · exact ⟨hctx, rfl⟩
          · exact ⟨hctx, rfl⟩
  · refine .inl ?_
    split
    · exact ⟨rfl, rfl⟩
    · exact ⟨rfl, rfl⟩

theorem ContextFits.step (h : dec.ContextFits) {c : DecodeCall} (hc : c.swrAlloc = true) :
    (dec.decodeAudio lib c).2.ContextFits := by
  have hgrown : (dec.grow c (lib.samplesGetBufferSize c.channels c.nbSamples
      dec.outputSampleFmt)).ContextFits := by
    unfold grow
    split
    · exact h.congr rfl rfl
    · exact h
  obtain ⟨hctx, hchannels⟩ | ⟨hctx, hchannels⟩ := convertSamples_context lib (dec.grow c
    (lib.samplesGetBufferSize c.channels c.nbSamples dec.outputSampleFmt)) c
  · exact hgrown.congr hctx hchannels
  · exact (hgrown.contextFor hc).1.congr hctx hchannels

theorem contextFits_decodeAll (lib : Ffmpeg) {calls : List DecodeCall}
    (hcalls : ∀ c ∈ calls, c.swrAlloc = true) : (opened.decodeAll lib calls).ContextFits := by
  induction calls using List.reverseRecOn with
  | nil => exact ⟨fun _ => rfl, fun _ h => by cases h⟩
  | append_singleton calls c ih =>
      rw [decodeAll_snoc]
      exact (ih fun c' hc' => hcalls c' (List.mem_append_left _ hc')).step
        (hcalls c (List.mem_append_right _ (List.mem_singleton.mpr rfl)))

/-- As long as `swr_alloc_set_opts` returns a context, the sizes of the frames decide alone. -/
theorem decodeAll_handsOut_iff_of_allocated (hlib : lib.Documented) {c : DecodeCall}
    (hcalls : ∀ c' ∈ calls ++ [c], c'.swrAlloc = true) :
    (opened.decodeAll lib calls).HandsOut lib c ↔
      ∀ c' ∈ calls ++ [c], lib.bufferSize c' ≤ (opened.decodeAll lib calls).pcmSize lib c := by
  have hafter := after_decodeAll lib calls
  have hfits := contextFits_decodeAll lib fun c' hc' => hcalls c' (List.mem_append_left _ hc')
  rw [hafter.handsOut_iff_forall hlib c]
  refine and_iff_left fun _ hsome ctx hctx => ?_
  obtain ⟨pcm, hpcm⟩ := Option.isSome_iff_exists.mp hsome
  have hsize := (length_converted hafter.fmt hafter.noted hlib hpcm).1
  have hpos := (hlib.size _ _ hsize).1
  exact (hfits.contextFor (hcalls c (List.mem_append_right _ (List.mem_singleton.mpr rfl)))).2
    (by omega) ctx hctx

end Run

/-- **What `DecodeAudio` hands out** is the PCM of its frame exactly if no frame so far needed more
room than that PCM takes, and the conversion context is for the frame's number of channels. -/
theorem decodeAudio_handsOut_iff (lib : Ffmpeg) (hlib : lib.Documented) (calls : List DecodeCall)
    (c : DecodeCall) :
    (opened.decodeAll lib calls).HandsOut lib c ↔
      (∀ c' ∈ calls ++ [c], lib.bufferSize c' ≤ (opened.decodeAll lib calls).pcmSize lib c) ∧
        (c.sampleFmt ≠ .s16 → ((opened.decodeAll lib calls).converted lib c).isSome →
          ∀ ctx, (opened.decodeAll lib calls).contextFor c = some ctx →
            ctx.channels = c.channels) :=
  (after_decodeAll lib calls).handsOut_iff_forall hlib c

/-- `av_samples_get_buffer_size` and `av_samples_copy` for packed samples of 16 bits; converted
samples are only counted. -/
def packedSamples : Ffmpeg where
  samplesGetBufferSize channels nbSamples _ :=
    if 0 < channels ∧ 0 < nbSamples then 2 * channels * nbSamples else -22
  samplesFillArrays channels nbSamples _ :=
    if 0 < channels ∧ 0 < nbSamples then 2 * channels * nbSamples else -22
  convert ctx c := List.replicate (2 * ctx.channels * c.nbSamples).toNat 0
  copy c _ := (c.data.headD []).takeD (2 * c.channels * c.nbSamples).toNat 0

theorem packedSamples_documented : packedSamples.Documented where
  size channels nbSamples h := by
    simp only [packedSamples] at h ⊢
    split at h
    case isTrue hpos => exact ⟨hpos.1, hpos.2, if_pos hpos⟩
    case isFalse => omega
  fillArrays channels nbSamples h := h
  convert ctx c _ _ _ := by simp [packedSamples]
  copy c h := by
    simp only [Ffmpeg.bufferSize, packedSamples, List.takeD_length] at h ⊢
    split at h
    case isTrue hpos =>
      rw [if_pos hpos]
      have := Int.mul_pos (Int.mul_pos (by decide : (0 : Int) < 2) hpos.1) hpos.2
      omega
    case isFalse => omega

/-- A decoded frame of one channel with 16 bit samples. -/
def monoFrame (nbSamples : Nat) (bytes : List UInt8) : DecodeCall where
  ret := 1
  gotFrame := true
  channels := 1
  sampleFmt := .s16
  nbSamples := nbSamples
  data := [bytes]

theorem decodeAudio_handsOut_iff_longer :
    (opened.decodeAll packedSamples [monoFrame 1 [1, 2]]).HandsOut packedSamples
        (monoFrame 2 [3, 4, 5, 6]) ↔
      (∀ c' ∈ [monoFrame 1 [1, 2]] ++ [monoFrame 2 [3, 4, 5, 6]], packedSamples.bufferSize c' ≤
        (opened.decodeAll packedSamples [monoFrame 1 [1, 2]]).pcmSize packedSamples
          (monoFrame 2 [3, 4, 5, 6])) ∧
      ((monoFrame 2 [3, 4, 5, 6]).sampleFmt ≠ .s16 →
        ((opened.decodeAll packedSamples [monoFrame 1 [1, 2]]).converted packedSamples
          (monoFrame 2 [3, 4, 5, 6])).isSome →
        ∀ ctx, (opened.decodeAll packedSamples [monoFrame 1 [1, 2]]).contextFor
          (monoFrame 2 [3, 4, 5, 6]) = some ctx →
            ctx.channels = (monoFrame 2 [3, 4, 5, 6]).channels) :=
  decodeAudio_handsOut_iff packedSamples packedSamples_documented [monoFrame 1 [1, 2]]
    (monoFrame 2 [3, 4, 5, 6])

/-- A shorter frame after a longer one comes with two bytes of the longer one. -/
theorem decodeAudio_handsOut_stale :
    ((opened.decodeAll packedSamples [monoFrame 2 [3, 4, 5, 6]]).decodeAudio packedSamples
        (monoFrame 1 [1, 2])).2.getOutputBufferData = [1, 2, 5, 6] ∧
      ((opened.decodeAll packedSamples [monoFrame 2 [3, 4, 5, 6]]).decodeAudio packedSamples
        (monoFrame 1 [1, 2])).2.getOutputBufferSize = 4 ∧
      packedSamples.bufferSize (monoFrame 1 [1, 2]) = 2 ∧
      ¬ (opened.decodeAll packedSamples [monoFrame 2 [3, 4, 5, 6]]).HandsOut packedSamples
        (monoFrame 1 [1, 2]) :=
  ⟨by decide, by decide, by decide, fun h => absurd h.size (by decide)⟩

end AudioSwDecoder

end DirectMedia
