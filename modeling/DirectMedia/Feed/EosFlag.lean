import DirectMedia.Feed.Fragments

set_option autoImplicit false

/-! # The flag for the end of the stream

`Feed_VideoData` takes the flags of a frame before it cuts it into pieces. Only the flag for the end
of the frame waits for the last piece; a flag for the end of the stream goes with every piece.
`feedVideoData_eos_iff` says for which frames it is nevertheless on the last buffer and on no other.
-/

namespace DirectMedia

open Prog Pieces

/-- The buffer ends the stream. -/
def Buffer.Eos (b : Buffer) : Prop := b.flags &&& bufferFlagEos ≠ 0

/-- The client says that the frame ends the stream. -/
def Frame.Eos (f : Frame) : Prop := f.flags &&& flagEndOfStream ≠ 0

instance (b : Buffer) : Decidable b.Eos := inferInstanceAs (Decidable (_ ≠ _))

instance (f : Frame) : Decidable f.Eos := inferInstanceAs (Decidable (_ ≠ _))

/-- The buffers that the codec has taken. -/
def buffers (subs : List Submission) : List Buffer := subs.filterMap (·.buffer)

/-- Exactly one of the buffers ends the stream, and it is the last. -/
def EosOnLast (bufs : List Buffer) : Prop :=
  ∃ before last, bufs = before ++ [last] ∧ last.Eos ∧ ∀ b ∈ before, ¬ b.Eos

/-- No submission ends the stream. -/
def NoEos (subs : List Submission) : Prop := ∀ b ∈ buffers subs, ¬ b.Eos

/-- The stream ends with the frame, if it does, and with its last buffer: the call removes the frame
once all of it is submitted. -/
def EndsWith (f : Frame) (d : FeedHistory) : Prop :=
  if f.Eos then f ∈ removals d ∧ EosOnLast (buffers (submissions d))
  else NoEos (submissions d)

theorem not_eosOnLast_nil : ¬ EosOnLast [] := by
  rintro ⟨before, last, h, _⟩
  simp at h

/-- If all of them end the stream there must be one. -/
theorem eosOnLast_iff {bufs : List Buffer} (h : ∀ b ∈ bufs, b.Eos) :
    EosOnLast bufs ↔ bufs.length = 1 := by
  constructor
  · rintro ⟨before, last, rfl, _, hnone⟩
    have hnil : before = [] :=
      List.eq_nil_iff_forall_not_mem.mpr fun b hb => hnone b hb (h b (by simp [hb]))
    rw [hnil]
    rfl
  · intro hone
    obtain ⟨last, rfl⟩ := List.length_eq_one_iff.mp hone
    exact ⟨[], last, rfl, h last (by simp), by simp⟩

/-! ## The flag of a buffer -/

theorem translateToOmxFlags_eq_zero_iff (f : Frame) :
    translateToOmxFlags f.flags = 0 ↔ ¬ f.Eos := by
  unfold translateToOmxFlags Frame.Eos
  split
  case isTrue h => exact iff_of_false (by decide) (not_not.mpr h)
  case isFalse h => exact iff_of_true rfl h

theorem endOfFrame_eos (flags : BitVec 32) :
    (flags ||| bufferFlagEndOfFrame) &&& bufferFlagEos = flags &&& bufferFlagEos :=
  or_mask flags (by decide)

/-- Whether or not the data fits. -/
theorem fill_eos (b : Buffer) (data : List UInt8) (pts : Int) (flags : BitVec 32) :
    (Port.fill b data pts flags).flags &&& bufferFlagEos = flags &&& bufferFlagEos := by
  unfold Port.fill
  split
  · rfl
  · have hkept : ~~~bufferFlagEndOfFrame &&& bufferFlagEos = bufferFlagEos := by decide
    rw [BitVec.and_assoc, hkept]

theorem FlagsOf.eos_iff {f : Frame} {flags : BitVec 32} (h : FlagsOf f flags) :
    flags &&& bufferFlagEos ≠ 0 ↔ f.Eos := by
  rw [h.eos, Ne, translateToOmxFlags_eq_zero_iff, not_not]

theorem pieceFlags_eos (S : Nat) (f : Frame) (flags : BitVec 32) (k : Nat) :
    pieceFlags S f flags k &&& bufferFlagEos = flags &&& bufferFlagEos := by
  unfold pieceFlags
  split
  · exact endOfFrame_eos flags
  · rfl

/-- The submission, if the codec takes it, has the flag as it is in `flags`. -/
theorem Answers.eos {c : ComponentName} {data : List UInt8} {pts : Int} {flags : BitVec 32}
    {accept : Int} {x : Submission} (h : Answers c data pts flags accept x) :
    ∀ b ∈ x.buffer, b.Eos ↔ flags &&& bufferFlagEos ≠ 0 := by
  intro b hb
  rw [h.buffer] at hb
  cases hfound : (x.state.input c).getFreeBuffer with
  | none =>
      rw [Port.writeToFreeBuffer_full hfound] at hb
      cases hb
  | some free =>
      rw [(Port.writeToFreeBuffer_fill hfound data pts flags accept).2] at hb
      split at hb
      · cases hb
        rw [Buffer.Eos, fill_eos]
      · cases hb

/-! ## Without the flag -/

theorem NoEos.snoc {subs : List Submission} (h : NoEos subs) {x : Submission}
    (hx : ∀ b ∈ x.buffer, ¬ b.Eos) : NoEos (subs ++ [x]) := by
  intro b hb
  rw [buffers, List.filterMap_append, List.mem_append] at hb
  obtain hb | hb := hb
  · exact h b hb
  · exact hx b (by simpa using hb)

section Unflagged

variable {S : Nat} {f : Frame} {env : FeedEnv} {returned : Nat → List Nat} {flags : BitVec 32}

theorem amidst_write_noEos (hflags : flags &&& bufferFlagEos = 0) (data : List UInt8) (pts : Int)
    (accept : Int) :
    Amidst (videoReturns returned) (Sending (AtFrame S f) NoEos)
      (writeToFreeBuffer .videoCodec f data pts flags accept) fun _ =>
        Sending (AtFrame S f) NoEos := by
  refine (amidst_writeToFreeBuffer (J := AtFrame S f) (fun n s h => h.returns returned n) _ _ _ _ _
    _ fun s hs => hs.onComponent _ fun _ => rfl).mono (fun _ _ h => h) fun m d s h => ?_
  obtain ⟨before, x, hbefore, hsubs, _, hanswers, _⟩ := h.sent
  refine ⟨h.player, ?_, h.kept⟩
  rw [hsubs]
  exact hbefore.snoc fun b hb heos => (hanswers.eos b hb).mp heos hflags

/-- The loop submits no buffer with the flag, however long it goes on. -/
theorem amidst_writeChunks_noEos (hflags : flags &&& bufferFlagEos = 0) (pts : Int) (fuel : Nat) :
    ∀ (remaining : Int) (offset : Nat) (writtenLen : Int),
      Amidst (videoReturns returned) (Sending (AtFrame S f) NoEos)
        (writeChunks env f pts flags fuel remaining offset writtenLen) fun _ =>
          Sending (AtFrame S f) NoEos := by
  have H := supply_atFrame S f env returned
  have hlast : (flags ||| bufferFlagEndOfFrame) &&& bufferFlagEos = 0 := by
    rw [endOfFrame_eos, hflags]
  induction fuel with
  | zero => exact fun _ _ _ => amidst_pure fun d s h => h
  | succ fuel ih =>
      intro remaining offset writtenLen
      refine Amidst.bind_and (H.amidst_size 0 NoEos) fun size _ => ?_
      refine Amidst.ite (fun _ => ?_) fun _ => ?_
      · refine Amidst.bind (amidst_write_noEos hlast _ _ _) fun m => ?_
        exact amidst_pure fun d s h => h
      · refine Amidst.bind_and (H.amidst_size 0 NoEos) fun size _ => ?_
        refine Amidst.bind (amidst_write_noEos hflags _ _ _) fun m => ?_
        exact ih _ _ _

theorem amidst_writeVideo_noEos (hflags : flags &&& bufferFlagEos = 0) (pts : Int) :
    Amidst (videoReturns returned) (Sending (AtFrame S f) (· = [])) (writeVideo env f pts flags)
      fun _ => Sending (AtFrame S f) NoEos := by
  have hwrite : Amidst (videoReturns returned) (Sending (AtFrame S f) NoEos)
      (writeVideo env f pts flags) fun _ => Sending (AtFrame S f) NoEos := by
    refine Amidst.ite (fun _ => amidst_writeChunks_noEos hflags pts _ _ _ _) fun _ =>
      Amidst.ite (fun _ => ?_) fun _ => amidst_pure fun d s h => h
    refine Amidst.bind (amidst_write_noEos ?_ _ _ _) fun m => amidst_pure fun d s h => h
    rw [endOfFrame_eos, hflags]
  refine hwrite.mono (fun d s h => ⟨h.player, ?_, h.kept⟩) fun _ _ _ h => h
  rw [h.sent]
  exact fun b hb => absurd hb List.not_mem_nil

/-- Of a frame without the flag no buffer ends the stream. -/
theorem feedVideoAmid_noEos (env : FeedEnv) (hf : ¬ f.Eos) {s : Esplayer} (hs : AtFrame S f s) :
    NoEos (submissions (feedVideoAmid env returned s).history) := by
  have hends := feedVideoAmid_ends (supply_atFrame S f env returned) (m := 0)
    (Q := fun _ => NoEos) hs fun flags hflags =>
      amidst_writeVideo_noEos (not_not.mp (mt hflags.eos_iff.mp hf)) _
  obtain ⟨_, hnone, _⟩ | ⟨_, hsubs⟩ | ⟨_, hsubs⟩ := hends
  · rw [hnone]
    exact fun b hb => absurd hb List.not_mem_nil
  · exact hsubs
  · exact hsubs

end Unflagged

/-! ## With the flag -/

/-- The frame `f` is at the head and at least `n` input buffers are free. -/
structure Stocked (S : Nat) (f : Frame) (n : Nat) (s : Esplayer) : Prop where
  base : AtFrame S f s
  free : n ≤ (s.input .videoCodec).getFreeBufferCount

theorem supply_stocked (S : Nat) (f : Frame) (env : FeedEnv) (returned : Nat → List Nat) (n : Nat) :
    Supply S f env (videoReturns returned) fun k => Stocked S f (n - k) where
  head _ _ h := h.base.head
  held _ _ h := h.base.held
  size _ _ h := h.base.size
  others k m s h := by
    have hinput : (videoReturns returned m s).input .videoCodec =
        (returned m).foldl Port.emptyBufferDone (s.input .videoCodec) :=
      input_onComponent h.base.held _ (k := (returned m).foldl Port.emptyBufferDone) fun _ => rfl
    refine ⟨h.base.returns returned m, ?_⟩
    rw [hinput]
    exact h.free.trans (Port.getFreeBufferCount_returned _ _)
  aside s t h halike := by
    have hinput : t.input .videoCodec = s.input .videoCodec := by
      rw [Esplayer.input, Esplayer.input, halike.component]
    refine ⟨h.base.congr halike, ?_⟩
    rw [hinput]
    exact h.free
  write k s pts flags _ h := by
    have hinput : (writeAction .videoCodec f (piece S f.data k) pts flags (env.accept (k * S))
        s).2.input .videoCodec = ((s.input .videoCodec).writeToFreeBuffer (piece S f.data k) pts
          flags (env.accept (k * S))).2.1 :=
      input_onComponent h.base.held _ (k := fun _ => _) fun _ => rfl
    have hfree := h.free
    have hleft := (s.input .videoCodec).getFreeBufferCount_writeToFreeBuffer (piece S f.data k) pts
      flags (env.accept (k * S))
    refine ⟨h.base.onComponent _ fun _ => rfl, ?_⟩
    rw [hinput]
    omega

/-- The submission found a free buffer and brought it with the flag, if OMX took it. -/
def Flagged (accept : Int) (x : Submission) : Prop :=
  ∃ b : Buffer, b.Eos ∧ x.buffer = if accept = 0 then some b else none

theorem Answers.flagged {data : List UInt8} {pts : Int} {flags : BitVec 32} {accept : Int}
    {x : Submission} (h : Answers .videoCodec data pts flags accept x)
    (hflags : flags &&& bufferFlagEos ≠ 0)
    (hfree : 0 < (x.state.input .videoCodec).getFreeBufferCount) : Flagged accept x := by
  obtain ⟨b, hb⟩ := Option.isSome_iff_exists.mp ((Port.getFreeBuffer_isSome_iff _).mpr hfree)
  refine ⟨Port.fill b data pts flags, ?_, ?_⟩
  · rw [Buffer.Eos, fill_eos]
    exact hflags
  · rw [h.buffer, (Port.writeToFreeBuffer_fill hb data pts flags accept).2]

section Flagged

variable {S : Nat} {f : Frame} {env : FeedEnv}

/-- All buffers then have the flag, and there are as many as OMX took. -/
theorem buffers_flagged {ks : List Nat} {subs : List Submission}
    (h : List.Forall₂ (fun k x => Flagged (env.accept (k * S)) x) ks subs) :
    (∀ b ∈ buffers subs, b.Eos) ∧
      (buffers subs).length = ks.countP fun k => env.accept (k * S) = 0 := by
  induction h with
  | nil => exact ⟨by simp [buffers], rfl⟩
  | @cons k x ks subs hx _ ih =>
      obtain ⟨b, heos, hb⟩ := hx
      obtain ⟨hall, hlength⟩ := ih
      unfold buffers at hall hlength ⊢
      by_cases htaken : env.accept (k * S) = 0
      · rw [if_pos htaken] at hb
        rw [List.filterMap_cons_some hb, List.countP_cons_of_pos (by simpa using htaken),
          List.length_cons, hlength]
        exact ⟨List.forall_mem_cons.mpr ⟨heos, hall⟩, rfl⟩
      · rw [if_neg htaken] at hb
        rw [List.filterMap_cons_none hb, List.countP_cons_of_neg (by simpa using htaken)]
        exact ⟨hall, hlength⟩

theorem eosOnLast_flagged {n : Nat} {subs : List Submission}
    (h : List.Forall₂ (fun k x => Flagged (env.accept (k * S)) x) (List.range n) subs) :
    EosOnLast (buffers subs) ↔ ((List.range n).countP fun k => env.accept (k * S) = 0) = 1 := by
  obtain ⟨hall, hlength⟩ := buffers_flagged h
  rw [eosOnLast_iff hall, hlength]

/-- A frame with data: every piece is flagged. -/
theorem feedVideoAmid_flagged (env : FeedEnv) (returned : Nat → List Nat) (hf : f.Eos)
    (hS : 0 < S) (hpos : 0 < f.data.length) (hlen : f.data.length < 2 ^ 31) {s : Esplayer}
    (hs : Stocked S f (count S f.data.length) s) :
    removals (feedVideoAmid env returned s).history = [f] ∧
      List.Forall₂ (fun k x => Flagged (env.accept (k * S)) x) (List.range (count S f.data.length))
        (submissions (feedVideoAmid env returned s).history) := by
  have H := supply_stocked S f env returned (count S f.data.length)
  obtain ⟨_, t, ht, hfull⟩ | ⟨hremoved, flags, hflags, hsubmitted⟩ :=
    H.feedVideoAmid_submits hS hpos hlen hs
  · -- there are free buffers
    have hcount := count_pos hS hpos
    have hfree := ht.free
    omega
  · have heos := hflags.eos_iff.mpr hf
    have heach := (List.forall₂_and_left _ _).mpr ⟨fun k hk => hk, hsubmitted.each⟩
    refine ⟨hremoved, heach.imp fun k x hx => ?_⟩
    have hk := List.mem_range.mp hx.1
    have hfree := hx.2.player.free
    refine hx.2.answers.flagged ?_ (by omega)
    rw [pieceFlags_eos]
    exact heos

/-- A frame without data: one submission. -/
theorem feedVideoAmid_flagged_nil (env : FeedEnv) (returned : Nat → List Nat) (hf : f.Eos)
    (hnil : f.data = []) {s : Esplayer} (hs : Stocked S f 1 s) :
    removals (feedVideoAmid env returned s).history = [f] ∧
      List.Forall₂ (fun k x => Flagged (env.accept (k * S)) x) (List.range 1)
        (submissions (feedVideoAmid env returned s).history) := by
  have H := supply_stocked S f env returned 1
  have hdata : f.dataLen = 0 := by
    have := StreamBuffer.dataLen_eq (b := f.toStreamBuffer) (by rw [hnil]; decide)
    rw [this, hnil]
    rfl
  have hends := feedVideoAmid_ends H (m := 1) (Q := fun written subs =>
      written.isSome ∧ List.Forall₂ (fun k x => Flagged (env.accept (k * S)) x) (List.range 1) subs)
    hs fun flags hflags => by
      rw [writeVideo, if_neg (by omega), if_pos hdata]
      refine Amidst.bind (amidst_writeToFreeBuffer (J := Stocked S f (1 - 1)) (H.others 0) _ _ _ _
        _ _ fun s hs => ⟨hs.base.onComponent _ fun _ => rfl, Nat.zero_le _⟩) fun m => ?_
      refine amidst_pure fun d s h => ?_
      obtain ⟨before, x, rfl, hsubs, hplayer, hanswers, _⟩ := h.sent
      have hflagged : Flagged (env.accept (0 * S)) x := by
        have heos := hflags.eos_iff.mpr hf
        rw [Nat.zero_mul]
        exact hanswers.flagged (by rw [endOfFrame_eos]; exact heos) hplayer.free
      exact ⟨h.player, ⟨rfl, by rw [hsubs]; exact .cons hflagged .nil⟩, h.kept⟩
  obtain ⟨_, _, t, ht, hfull⟩ | ⟨_, hnone, _⟩ | ⟨hremoved, _, hsubs⟩ := hends
  · have hfree := ht.free
    omega
  · cases hnone
  · exact ⟨hremoved, hsubs⟩

end Flagged

/-- **The flag for the end of the stream** is where the client put it, on the last buffer of a frame
with the flag and on no other, exactly if the frame has no flag or the codec takes exactly one of
the pieces it is submitted in. A frame whose length is negative as an `int` is not submitted at all,
and with input buffers of size 0 there is no last buffer. -/
theorem feedVideoData_eos_iff (env : FeedEnv) (returned : Nat → List Nat) (s : Esplayer) (f : Frame)
    (comp : Component) (hcodec : s.component .videoCodec = some comp)
    (hhead : (s.frames .videoEs).head? = some f) (hlen : f.data.length < 2 ^ 32)
    (hfree : max 1 (count comp.inputBufferSize f.data.length) ≤ comp.input.getFreeBufferCount) :
    EndsWith f (feedVideoAmid env returned s).history ↔
      ¬ f.Eos ∨ (f.data.length < 2 ^ 31 ∧ (f.data = [] ∨ 0 < comp.inputBufferSize) ∧
        ((List.range (max 1 (count comp.inputBufferSize f.data.length))).countP fun k =>
          env.accept (k * comp.inputBufferSize) = 0) = 1) := by
  have hat := atFrame hcodec hhead
  have hinput : s.input .videoCodec = comp.input := by rw [Esplayer.input, hcodec]; rfl
  unfold EndsWith
  split
  case isFalse hf => exact iff_of_true (feedVideoAmid_noEos env hf hat) (.inl hf)
  case isTrue hf =>
    rw [or_iff_right (not_not.mpr hf)]
    by_cases hsmall : f.data.length < 2 ^ 31
    · obtain hnil | hpos := Nat.eq_zero_or_pos f.data.length
      · have hempty := List.length_eq_zero_iff.mp hnil
        rw [hnil, count_zero] at hfree ⊢
        have hstocked : Stocked comp.inputBufferSize f 1 s := ⟨hat, by rw [hinput]; exact hfree⟩
        obtain ⟨hremoved, hsubs⟩ :=
          feedVideoAmid_flagged_nil env returned hf hempty hstocked
        rw [eosOnLast_flagged hsubs]
        exact ⟨fun h => ⟨by decide, .inl hempty, h.2⟩, fun h => ⟨by simp [hremoved], h.2.2⟩⟩
      · have hne := List.length_pos_iff.mp hpos
        obtain hzero | hS := Nat.eq_zero_or_pos comp.inputBufferSize
        · -- the call does not return
          rw [hzero] at hat
          have hends := feedVideoAmid_ends (supply_atFrame 0 f env returned) (m := 0) hat
            fun flags _ => amidst_writeVideo_zero
              (by rw [StreamBuffer.dataLen_eq hsmall]; omega) _ flags
          refine iff_of_false (fun h => ?_) fun h => ?_
          · exact absurd (Ends.of_removal hends h.1) (by simp)
          · exact h.2.1.elim hne (by omega)
        · have hcount := max_eq_right (Nat.succ_le_of_lt (count_pos hS hpos))
          rw [hcount] at hfree ⊢
          have hstocked : Stocked comp.inputBufferSize f (count comp.inputBufferSize f.data.length)
              s := ⟨hat, by rw [hinput]; exact hfree⟩
          obtain ⟨hremoved, hsubs⟩ :=
            feedVideoAmid_flagged env returned hf hS hpos hsmall hstocked
          rw [eosOnLast_flagged hsubs]
          exact ⟨fun h => ⟨hsmall, .inr hS, h.2⟩, fun h => ⟨by simp [hremoved], h.2.2⟩⟩
    · -- nothing is submitted
      have hends := feedVideoAmid_ends (supply_atFrame _ f env returned) (m := 0) hat
        fun flags _ => amidst_writeVideo_negative (dataLen_neg hsmall hlen) _ flags
      refine iff_of_false (fun h => ?_) fun h => hsmall h.1
      have hsubs := (Ends.of_removal hends h.1).2
      rw [hsubs] at h
      exact not_eosOnLast_nil h.2

/-- If the codec takes whatever it is given, it takes one piece of a frame that fits in a buffer. -/
theorem takesOne_iff {env : FeedEnv} (haccept : ∀ offset, env.accept offset = 0) {S n : Nat}
    (hS : 0 < S) :
    ((List.range (max 1 (count S n))).countP fun k => env.accept (k * S) = 0) = 1 ↔ n ≤ S := by
  have hall : ((List.range (max 1 (count S n))).countP fun k => env.accept (k * S) = 0) =
      max 1 (count S n) := by
    rw [List.countP_eq_length.mpr fun k _ => by simpa using haccept _, List.length_range]
  have hfits := lt_count_iff (n := n) hS 1
  rw [hall]
  omega

/-- A video frame of two bytes that ends the stream. -/
def lastBytes : Frame := ⟨{ data := [1, 2], flags := flagEndOfStream, streamType := .videoEs }, 0⟩

theorem feedVideoData_eos_iff_two :
    EndsWith lastBytes (feedVideoAmid {} (fun _ => [])
        (videoPlayer 2 [{ allocLen := 2 }] lastBytes)).history ↔
      ¬ lastBytes.Eos ∨ (lastBytes.data.length < 2 ^ 31 ∧ (lastBytes.data = [] ∨ 0 < 2) ∧
        ((List.range (max 1 (count 2 lastBytes.data.length))).countP fun k =>
          ({} : FeedEnv).accept (k * 2) = 0) = 1) :=
  feedVideoData_eos_iff {} (fun _ => []) (videoPlayer 2 [{ allocLen := 2 }] lastBytes) lastBytes
    { inputBufferSize := 2, input := [{ allocLen := 2 }] } rfl rfl (by decide) (by decide)

/-- With buffers of one byte both pieces of it end the stream. -/
theorem feedVideoData_repeats_eos :
    count 1 lastBytes.data.length ≤
        Port.getFreeBufferCount [{ allocLen := 1 }, { allocLen := 1 }] ∧
      (buffers (submissions (feedVideoAmid {} (fun _ => [])
        (videoPlayer 1 [{ allocLen := 1 }, { allocLen := 1 }] lastBytes)).history)).map
          (fun b => (b.bytes, b.flags &&& bufferFlagEos)) =
        [([1], bufferFlagEos), ([2], bufferFlagEos)] ∧
      ¬ EndsWith lastBytes (feedVideoAmid {} (fun _ => [])
        (videoPlayer 1 [{ allocLen := 1 }, { allocLen := 1 }] lastBytes)).history := by
  refine ⟨by decide, by decide, ?_⟩
  rw [EndsWith, if_pos (by decide)]
  intro h
  exact absurd ((eosOnLast_iff (by decide)).mp h.2) (by decide)

end DirectMedia
