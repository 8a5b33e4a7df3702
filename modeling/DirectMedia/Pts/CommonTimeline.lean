import DirectMedia.Pts.Order

set_option autoImplicit false

/-! # The common timeline of audio and video

Both streams of a programme carry the low 33 bits of one true time. When the second stream
starts, the first-frame branch of `adjustPtsToMicrosecond` compares its PTS with the one
recorded for the other stream and moves one of the two bases by one period if they lie on
different sides of a wraparound. It does not look at the base the other stream has reached.

`Unwrappable` is the condition on a call under which the branch, and the drop test of the later
frames, put both streams on one timeline; `commonTimeline_of_unwrappable` is the result for
whole runs.
-/

namespace DirectMedia

section Runs

variable (s₀ : PtsState) (calls : Nat → StreamType × Int)

/-- The true time of the frame whose PTS `pts_previous_` holds before the `n`-th call. -/
def recordedTime : Nat → StreamType → Option Int
  | 0 => fun _ => none
  | n + 1 =>
      if provisional (calls n).1 (lowBits (calls n).2) (stateAt s₀ calls n) then
        recordedTime n
      else
        Function.update (recordedTime n) (calls n).1 (some (calls n).2)

/-- The first frame of a stream, at `t`, is close enough to the other stream's recorded frame,
at `T`, for the size of the PTS gap to tell on which side of a wraparound it lies. -/
def FirstNear (T t : Int) : Prop :=
  (period t = period T ∧ (t - T).natAbs < 2 ^ 32 - 1) ∨
    (period t = period T + 1 ∧ t - T ≤ 2 ^ 32 + 1) ∨
    (period T = period t + 1 ∧ T - t ≤ 2 ^ 32 + 1)

/-- The condition on a frame of stream `i` at true time `t`, given the recorded times of its own
and of the other stream. Before both streams have started nothing is asked. The first frame of
the second stream must find the other stream without a committed wraparound; from then on a
frame must be near the recorded one. -/
def UnwrappableFrom (s : PtsState) (i : StreamType) (t : Int) : Option Int → Option Int → Prop
  | _, none => True
  | none, some T => s.base i.other = 0 ∧ FirstNear T t
  | some T, some _ => Near T t

/-- The condition on the `n`-th call. -/
def Unwrappable (n : Nat) : Prop :=
  UnwrappableFrom (stateAt s₀ calls n) (calls n).1 (calls n).2
    (recordedTime s₀ calls n (calls n).1) (recordedTime s₀ calls n (calls n).1.other)

instance (T t : Int) : Decidable (FirstNear T t) := inferInstanceAs (Decidable (_ ∨ _))

instance (s : PtsState) (i : StreamType) (t : Int) :
    ∀ a b, Decidable (UnwrappableFrom s i t a b)
  | none, none => instDecidableTrue
  | some _, none => instDecidableTrue
  | none, some _ => inferInstanceAs (Decidable (_ ∧ _))
  | some T, some _ => inferInstanceAs (Decidable (Near T t))

instance (n : Nat) : Decidable (Unwrappable s₀ calls n) :=
  inferInstanceAs (Decidable (UnwrappableFrom _ _ _ _ _))

/-- Both streams have had their first frame, the `k`-th included. -/
def BothStarted (k : Nat) : Prop :=
  (∃ j ≤ k, (calls j).1 = .audioEs) ∧ (∃ j ≤ k, (calls j).1 = .videoEs)

/-- Between an audio and a video frame the adjusted values differ as the true times do, up to
one tick per wraparound between the two. -/
def CommonTimeline (n : Nat) : Prop :=
  ∀ j < n, ∀ k < n, (calls j).1 = .audioEs → (calls k).1 = .videoEs →
    BothStarted calls j → BothStarted calls k →
    ((adjustedAt s₀ calls j - adjustedAt s₀ calls k) - ((calls j).2 - (calls k).2)).natAbs ≤
      (period (calls j).2 - period (calls k).2).natAbs

/-- Each stream's true time is nondecreasing in feed order. -/
def StreamMonotone (n : Nat) : Prop :=
  ∀ j k, j ≤ k → k < n → (calls j).1 = (calls k).1 → (calls j).2 ≤ (calls k).2

/-- Frames adjacent in feed order are less than 2^31 ticks apart. -/
def AdjacentClose (n : Nat) : Prop :=
  ∀ k, k + 1 < n → ((calls (k + 1)).2 - (calls k).2).natAbs < 2 ^ 31

end Runs

/-! ## The second stream starts -/

section FirstFrame

variable {i : StreamType} {T t : Int} {s : PtsState}

/-- The first frame of the second stream puts both streams on one timeline. -/
theorem adjustPts_joins (hi : s.previous i = -1) (hbi : s.base i = 0)
    (ho : s.previous i.other = lowBits T) (hbo : s.base i.other = 0) (hn : FirstNear T t) :
    ∃ D, (adjustPts i (lowBits t) s).1 = timeline D t ∧
      Tracks D i t (adjustPts i (lowBits t) s).2 ∧
      Tracks D i.other T (adjustPts i (lowBits t) s).2 := by
  have hp := lowBits_nonneg t
  have hd : ¬ dropDetected i (lowBits t) s := by
    simp only [dropDetected, hi, ptsBig]; omega
  have hT := period_lowBits T
  have ht := period_lowBits t
  have hTlt := lowBits_lt T
  have htlt := lowBits_lt t
  have hne := lowBits_ne_neg_one T
  rw [adjustPts_no_drop hd]
  rcases hn with ⟨hper, hgap⟩ | ⟨hper, hgap⟩ | ⟨hper, hgap⟩
  · -- the same period: no base moves
    have hf : firstFrame i (lowBits t) s = s := by
      rw [firstFrame, if_pos hi, if_neg]
      rw [ho]; simp only [ptsBig]; omega
    rw [hf]
    refine ⟨period T, ?_, ⟨by simp, ?_⟩, ⟨by simp [ho], ?_⟩⟩
    · simp [timeline, hbi, hper]
    · simp [hbi, hper]
    · simp [hbo]
  · -- the new stream starts past the wraparound: its own base moves
    have hf : firstFrame i (lowBits t) s =
        { s with base := Function.update s.base i (s.base i + ptsMax) } := by
      have hbig : s.previous i.other ≠ -1 ∧
          ((s.previous i.other - lowBits t).natAbs : Int) ≥ ptsBig := by
        rw [ho]; simp only [ptsBig]; omega
      have hgt : s.previous i.other > lowBits t := by rw [ho]; omega
      rw [firstFrame, if_pos hi, if_pos hbig, if_pos hgt]
    rw [hf]
    refine ⟨period T, ?_, ⟨by simp, ?_⟩, ⟨by simp [ho], ?_⟩⟩
    · simp [timeline, hbi, hper]
    · simp [hbi, hper]
    · simp [hbo]
  · -- the other stream is past the wraparound: its base moves
    have hf : firstFrame i (lowBits t) s =
        { s with base := Function.update s.base i.other (s.base i.other + ptsMax) } := by
      have hbig : s.previous i.other ≠ -1 ∧
          ((s.previous i.other - lowBits t).natAbs : Int) ≥ ptsBig := by
        rw [ho]; simp only [ptsBig]; omega
      have hgt : ¬ s.previous i.other > lowBits t := by rw [ho]; omega
      rw [firstFrame, if_pos hi, if_pos hbig, if_neg hgt]
    rw [hf]
    refine ⟨period t, ?_, ⟨by simp, ?_⟩, ⟨by simp [ho], ?_⟩⟩
    · simp [timeline, hbi, i.other_ne.symm]
    · simp [hbi, i.other_ne.symm]
    · simp [hbo, hper]

/-- A call on one stream keeps the other stream where it is. -/
theorem Tracks.other {D : Int} (h : Tracks D i.other T s) (p : Int) (hi : s.previous i ≠ -1) :
    Tracks D i.other T (adjustPts i p s).2 where
  previous := by rw [(adjustPts_other i p s).1, h.previous]
  base := by rw [adjustPts_other_base p hi, h.base]

end FirstFrame

/-! ## Whole runs -/

section Runs

variable {s₀ : PtsState} {calls : Nat → StreamType × Int}

/-- What is known of one stream before a call: it has had no frame and its base is still zero,
or its recorded true time is the one `pts_previous_` stands for. -/
def StreamInv (s : PtsState) (i : StreamType) : Option Int → Prop
  | none => s.previous i = -1
  | some T => s.previous i = lowBits T

/-- The first frame of a stream is no drop. -/
theorem not_dropDetected_of_new {i : StreamType} {s : PtsState} (h : s.previous i = -1) (t : Int) :
    ¬ dropDetected i (lowBits t) s := by
  have hp := lowBits_nonneg t
  simp only [dropDetected, h, ptsBig]
  omega

theorem recordedTime_succ_other (n : Nat) :
    recordedTime s₀ calls (n + 1) (calls n).1.other =
      recordedTime s₀ calls n (calls n).1.other := by
  simp only [recordedTime]
  split
  · rfl
  · simp

theorem streamInv_run (calls : Nat → StreamType × Int) (hs : s₀.Fresh) (n : Nat) (i : StreamType) :
    StreamInv (stateAt s₀ calls n) i (recordedTime s₀ calls n i) := by
  induction n with
  | zero => exact hs.previous i
  | succ n ih =>
      rcases StreamType.eq_or_eq_other (calls n).1 i with rfl | rfl
      · by_cases hv : provisional (calls n).1 (lowBits (calls n).2) (stateAt s₀ calls n)
        · simp only [recordedTime, stateAt, if_pos hv]
          rw [adjustPts_provisional hv]
          simpa [StreamInv] using ih
        · simp only [recordedTime, stateAt, if_neg hv, Function.update_self]
          by_cases hd : dropDetected (calls n).1 (lowBits (calls n).2) (stateAt s₀ calls n)
          · rw [adjustPts_commit hd (fun hc => hv ⟨hd, hc⟩)]
            simp [StreamInv]
          · rw [adjustPts_no_drop hd]
            simp [StreamInv]
      · rw [recordedTime_succ_other]
        simp only [stateAt]
        cases h : recordedTime s₀ calls n (calls n).1.other with
        | none =>
            simp only [h, StreamInv] at ih ⊢
            rw [(adjustPts_other _ _ _).1, ih]
        | some T =>
            simp only [h, StreamInv] at ih ⊢
            rw [(adjustPts_other _ _ _).1, ih]

/-- While one stream is alone, the base of the other is zero. -/
theorem base_of_not_started (hs : s₀.Fresh) (n : Nat) (i : StreamType)
    (hi : recordedTime s₀ calls n i = none) : (stateAt s₀ calls n).base i = 0 := by
  induction n with
  | zero => exact hs.base i
  | succ n ih =>
      rcases StreamType.eq_or_eq_other (calls n).1 i with rfl | rfl
      · -- a call of stream `i` itself records a frame
        exfalso
        simp only [recordedTime] at hi
        split at hi
        · rename_i hv
          have hinv := streamInv_run calls hs n (calls n).1
          rw [hi] at hinv
          exact not_dropDetected_of_new hinv _ hv.1
        · simp at hi
      · rw [recordedTime_succ_other] at hi
        have hinv := streamInv_run calls hs n (calls n).1.other
        simp only [hi, StreamInv] at hinv
        have hf : firstFrame (calls n).1 (lowBits (calls n).2) (stateAt s₀ calls n) =
            stateAt s₀ calls n := firstFrame_of_other _ hinv
        have hzero := ih hi
        simp only [stateAt]
        by_cases hd : dropDetected (calls n).1 (lowBits (calls n).2) (stateAt s₀ calls n)
        · by_cases hc : (stateAt s₀ calls n).dropCount (calls n).1 < ptsDropThreshold
          · rw [adjustPts_provisional ⟨hd, hc⟩, hf]; exact hzero
          · rw [adjustPts_commit hd hc, hf]; simpa using hzero
        · rw [adjustPts_no_drop hd, hf]; exact hzero

/-- A stream has a recorded frame exactly when it has had a call. -/
theorem recordedTime_isSome_iff (hs : s₀.Fresh) (n : Nat) (i : StreamType) :
    (recordedTime s₀ calls n i).isSome ↔ ∃ j < n, (calls j).1 = i := by
  induction n with
  | zero => simp [recordedTime]
  | succ n ih =>
      rcases StreamType.eq_or_eq_other (calls n).1 i with rfl | rfl
      · -- a provisional frame leaves the record of an earlier one
        refine iff_of_true ?_ ⟨n, by omega, rfl⟩
        simp only [recordedTime]
        split
        · rename_i hv
          rw [Option.isSome_iff_ne_none]
          intro hnone
          have hinv := streamInv_run calls hs n (calls n).1
          rw [hnone] at hinv
          exact not_dropDetected_of_new hinv _ hv.1
        · simp
      · rw [recordedTime_succ_other, ih]
        constructor
        · rintro ⟨j, hj, hji⟩
          exact ⟨j, by omega, hji⟩
        · rintro ⟨j, hj, hji⟩
          refine ⟨j, ?_, hji⟩
          rcases Nat.lt_succ_iff_lt_or_eq.mp hj with hlt | rfl
          · exact hlt
          · exact absurd hji (calls j).1.other_ne.symm

/-- Both streams are recorded, each on the timeline of period `D`. -/
def OnTimeline (D : Int) (s₀ : PtsState) (calls : Nat → StreamType × Int) (n : Nat) : Prop :=
  ∀ i, ∃ T, recordedTime s₀ calls n i = some T ∧ Tracks D i T (stateAt s₀ calls n)

theorem OnTimeline.step {D : Int} {n : Nat} (h : OnTimeline D s₀ calls n)
    (hu : Unwrappable s₀ calls n) :
    adjustedAt s₀ calls n = timeline D (calls n).2 ∧ OnTimeline D s₀ calls (n + 1) := by
  obtain ⟨T, hT, htr⟩ := h (calls n).1
  obtain ⟨T', hT', htr'⟩ := h (calls n).1.other
  simp only [Unwrappable, hT, hT', UnwrappableFrom] at hu
  refine ⟨htr.adjusted hu, ?_⟩
  intro i
  rcases StreamType.eq_or_eq_other (calls n).1 i with rfl | rfl
  · refine ⟨_, ?_, htr.step hu⟩
    simp only [recordedTime]
    split
    · exact hT
    · simp
  · exact ⟨T', by rw [recordedTime_succ_other]; exact hT',
      htr'.other _ htr.previous_ne⟩

/-- The call that starts the second stream puts both on a timeline. -/
theorem onTimeline_of_second {n : Nat} {T : Int} (hs : s₀.Fresh)
    (hu : Unwrappable s₀ calls n) (hi : recordedTime s₀ calls n (calls n).1 = none)
    (ho : recordedTime s₀ calls n (calls n).1.other = some T) :
    ∃ D, adjustedAt s₀ calls n = timeline D (calls n).2 ∧ OnTimeline D s₀ calls (n + 1) := by
  have hprev := streamInv_run calls hs n (calls n).1
  have hprev' := streamInv_run calls hs n (calls n).1.other
  simp only [hi, StreamInv] at hprev
  simp only [ho, StreamInv] at hprev'
  simp only [Unwrappable, hi, ho, UnwrappableFrom] at hu
  obtain ⟨D, hadj, htr, htr'⟩ :=
    adjustPts_joins hprev (base_of_not_started hs n _ hi) hprev' hu.1 hu.2
  refine ⟨D, hadj, ?_⟩
  intro i
  rcases StreamType.eq_or_eq_other (calls n).1 i with rfl | rfl
  · refine ⟨(calls n).2, ?_, htr⟩
    simp only [recordedTime]
    split
    · rename_i hv
      exact absurd hv.1 (not_dropDetected_of_new hprev _)
    · simp
  · exact ⟨T, by rw [recordedTime_succ_other]; exact ho, htr'⟩

/-- From the first frame of the second stream on, every adjusted value is on one timeline. -/
theorem adjustedAt_common {n : Nat} (hs : s₀.Fresh) (hu : ∀ k < n, Unwrappable s₀ calls k) :
    ∃ D, (∀ k < n, BothStarted calls k → adjustedAt s₀ calls k = timeline D (calls k).2) ∧
      ((∀ i, (recordedTime s₀ calls n i).isSome) → OnTimeline D s₀ calls n) := by
  induction n with
  | zero =>
      refine ⟨0, by omega, ?_⟩
      intro h
      simpa [recordedTime] using h .audioEs
  | succ n ih =>
      obtain ⟨D, hold, hon⟩ := ih (fun k hk => hu k (by omega))
      have hbs : BothStarted calls n ↔ ∀ i, (recordedTime s₀ calls (n + 1) i).isSome := by
        simp only [recordedTime_isSome_iff hs, Nat.lt_succ_iff, BothStarted]
        exact ⟨fun h i => by cases i; exacts [h.1, h.2], fun h => ⟨h _, h _⟩⟩
      by_cases hboth : ∀ i, (recordedTime s₀ calls n i).isSome
      · -- both had started before: the timeline goes on
        obtain ⟨hadj, hnext⟩ := (hon hboth).step (hu n (by omega))
        refine ⟨D, ?_, fun _ => hnext⟩
        intro k hk hst
        rcases Nat.lt_succ_iff_lt_or_eq.mp hk with hlt | rfl
        · exact hold k hlt hst
        · exact hadj
      · -- no earlier frame had both streams started
        have hnone : ∀ k < n, ¬ BothStarted calls k := by
          intro k hk hst
          apply hboth
          intro i
          rw [recordedTime_isSome_iff hs]
          cases i with
          | audioEs => obtain ⟨j, hj, hji⟩ := hst.1; exact ⟨j, by omega, hji⟩
          | videoEs => obtain ⟨j, hj, hji⟩ := hst.2; exact ⟨j, by omega, hji⟩
        by_cases hnow : BothStarted calls n
        · -- this frame is the first of its stream: it fixes the timeline
          have hsome := hbs.mp hnow
          have ho := hsome (calls n).1.other
          rw [recordedTime_succ_other] at ho
          have hi : recordedTime s₀ calls n (calls n).1 = none := by
            by_contra hc
            apply hboth
            intro i
            rcases StreamType.eq_or_eq_other (calls n).1 i with rfl | rfl
            · exact Option.isSome_iff_ne_none.mpr hc
            · exact ho
          obtain ⟨T, hT⟩ := Option.isSome_iff_exists.mp ho
          obtain ⟨D', hadj, hnext⟩ := onTimeline_of_second hs (hu n (by omega)) hi hT
          refine ⟨D', ?_, fun _ => hnext⟩
          intro k hk hst
          rcases Nat.lt_succ_iff_lt_or_eq.mp hk with hlt | rfl
          · exact absurd hst (hnone k hlt)
          · exact hadj
        · refine ⟨D, ?_, fun h => absurd (hbs.mpr h) hnow⟩
          intro k hk hst
          rcases Nat.lt_succ_iff_lt_or_eq.mp hk with hlt | rfl
          · exact absurd hst (hnone k hlt)
          · exact absurd hst hnow

/-- **One timeline.** In every run whose calls are all `Unwrappable`, audio and video frames fed
after both streams have started differ in their adjusted values as in their true times, up to
one tick per wraparound. -/
theorem commonTimeline_of_unwrappable (s₀ : PtsState) (calls : Nat → StreamType × Int) (n : Nat)
    (hs : s₀.Fresh) (hu : ∀ k < n, Unwrappable s₀ calls k) : CommonTimeline s₀ calls n := by
  obtain ⟨D, hadj, -⟩ := adjustedAt_common hs hu
  intro j hj k hk _ _ hsj hsk
  rw [hadj j hj hsj, hadj k hk hsk, timeline_sub]
  omega

/-- Audio just before a wraparound, video just after it. -/
def aroundWrapCalls : Nat → StreamType × Int
  | 1 => (.videoEs, 2 ^ 33)
  | k => (.audioEs, 2 ^ 33 - 1 + k)

theorem commonTimeline_aroundWrap : CommonTimeline .init aroundWrapCalls 13 :=
  commonTimeline_of_unwrappable .init aroundWrapCalls 13 PtsState.fresh_init (by decide)

/-- Audio commits a wraparound with its twelfth frame; then video starts in the same period. -/
def lateVideoCalls (k : Nat) : StreamType × Int :=
  (if k = 12 then .videoEs else .audioEs, 2 ^ 33 - 1 + k)

/-- Without `Unwrappable` the two streams can end up a whole period apart: video starts with
base zero although audio has already moved on by one. -/
theorem commonTimeline_fails :
    ¬ ∀ (s₀ : PtsState) (calls : Nat → StreamType × Int) (n : Nat), s₀.Fresh →
      StreamMonotone calls n → AdjacentClose calls n → CommonTimeline s₀ calls n := by
  intro h
  have hmono : StreamMonotone lateVideoCalls 14 := by
    intro j k hjk _ _; simp only [lateVideoCalls]; omega
  have hadj : AdjacentClose lateVideoCalls 14 := by
    intro k _; simp only [lateVideoCalls]; omega
  have hboth : ∀ k, 12 ≤ k → BothStarted lateVideoCalls k :=
    fun k hk => ⟨⟨0, by omega, rfl⟩, ⟨12, hk, rfl⟩⟩
  have hgap := h .init lateVideoCalls 14 PtsState.fresh_init hmono hadj 13 (by decide) 12
    (by decide) rfl rfl (hboth 13 (by decide)) (hboth 12 (by decide))
  revert hgap
  decide +kernel

end Runs

end DirectMedia
