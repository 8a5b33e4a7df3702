import DirectMedia.Pts.Adjust

set_option autoImplicit false

/-! # One stream through its wraparounds

A single stream may be fed out of order: frames up to eleven positions apart are less than
2^32 ticks apart, and the frames before a multiple of 2^33 are all fed before the eleventh
consecutive frame at or after it. Under these two bounds the recorded frame is always `Near`
the next one, so every adjusted value lies on one timeline and the order of the true times is
the order of the outputs.
-/

namespace DirectMedia

/-- How far the feed order of `t 0, …, t (n - 1)` may leave the order of the true times. -/
structure BoundedReorder (t : Nat → Int) (n : Nat) : Prop where
  start : ∀ k < n, t 0 ≤ t k
  near : ∀ j < n, ∀ k < n, j ≤ k → k ≤ j + 11 → (t j - t k).natAbs < 2 ^ 32
  late : ∀ (w : Int) (j : Nat), j + 10 < n → (∀ d ≤ 10, 2 ^ 33 * w ≤ t (j + d)) →
    ∀ k < n, t k < 2 ^ 33 * w → k < j + 10

/-- The first frame of a stream that is alone records itself and starts the timeline. -/
theorem adjustPts_first {i : StreamType} {s : PtsState} (t : Int)
    (hi : s.previous i = -1) (ho : s.previous i.other = -1) (hb : s.base i = 0) :
    (adjustPts i (lowBits t) s).1 = timeline (period t) t ∧
      Tracks (period t) i t (adjustPts i (lowBits t) s).2 := by
  have hp := lowBits_nonneg t
  have hd : ¬ dropDetected i (lowBits t) s := by
    simp only [dropDetected, hi, ptsBig]; omega
  rw [adjustPts_no_drop hd, firstFrame_of_other _ ho]
  exact ⟨by simp [timeline, hb], by simp, by simp [hb]⟩

section Single

variable {i : StreamType} {t : Nat → Int} {n : Nat} {s₀ : PtsState}

/-- After frame `k` the stream is recorded at frame `m`: the frames fed since then are in the
next period and counted as drops, and no earlier period can come back. -/
structure RecordedAt (i : StreamType) (t : Nat → Int) (n : Nat) (s : PtsState) (k m : Nat) :
    Prop where
  tracks : Tracks (period (t 0)) i (t m) s
  le : m ≤ k
  count : s.dropCount i = k - m
  bound : k ≤ m + 10
  dropped : ∀ l, m < l → l ≤ k → period (t l) = period (t m) + 1
  later : ∀ l < n, m ≤ l → period (t m) ≤ period (t l)

theorem RecordedAt.near {s : PtsState} {k m : Nat} (h : BoundedReorder t n)
    (hr : RecordedAt i t n s k m) (hk : k + 1 < n) : Near (t m) (t (k + 1)) := by
  have hle := hr.le
  have hb := hr.bound
  have hnear := h.near m (by omega) (k + 1) hk (by omega) (by omega)
  have hlater := hr.later (k + 1) hk (by omega)
  simp only [Near, period] at *
  omega

/-- After a commit no frame of an earlier period is left: eleven frames in a row, the last of
them `k`, are past the multiple of 2^33. -/
theorem BoundedReorder.later_of_commit {k m : Nat} (h : BoundedReorder t n) (hk : k + 1 < n)
    (hkm : k = m + 10) (hdrop : ∀ l, m < l → l ≤ k + 1 → period (t l) = period (t m) + 1) :
    ∀ l < n, k + 1 ≤ l → period (t (k + 1)) ≤ period (t l) := by
  intro l hl hkl
  by_contra hlt
  have hrow : ∀ d ≤ 10, 2 ^ 33 * period (t (k + 1)) ≤ t (m + 1 + d) := by
    intro d hd
    have h1 := hdrop (m + 1 + d) (by omega) (by omega)
    have h2 := hdrop (k + 1) (by omega) (by omega)
    have h3 := period_lowBits (t (m + 1 + d))
    have h4 := lowBits_nonneg (t (m + 1 + d))
    omega
  have hbefore : t l < 2 ^ 33 * period (t (k + 1)) := by
    have h1 := period_lowBits (t l)
    have h2 := lowBits_lt (t l)
    omega
  have := h.late _ (m + 1) (by omega) hrow l hl hbefore
  omega

theorem RecordedAt.step {s : PtsState} {k m : Nat} (h : BoundedReorder t n)
    (hr : RecordedAt i t n s k m) (hk : k + 1 < n) :
    ∃ m', RecordedAt i t n (adjustPts i (lowBits (t (k + 1))) s).2 (k + 1) m' := by
  have hnear := hr.near h hk
  have hstep := hr.tracks.step hnear
  have hcount := adjustPts_dropCount i (lowBits (t (k + 1))) s
  by_cases hv : provisional i (lowBits (t (k + 1))) s
  · -- one more drop: the recorded frame stays
    rw [if_pos hv] at hstep hcount
    have hper := (hr.tracks.dropDetected_iff hnear).mp hv.1
    have hlt := hv.2
    rw [hr.count, ptsDropThreshold] at hlt
    have hle := hr.le
    refine ⟨m, hstep, by omega, by rw [hcount, hr.count]; omega, by omega, ?_, hr.later⟩
    intro l hml hl
    by_cases hlk : l ≤ k
    · exact hr.dropped l hml hlk
    · rw [show l = k + 1 by omega]; exact hper
  · -- the new frame is recorded, after a commit or within the same period
    rw [if_neg hv] at hstep hcount
    refine ⟨k + 1, hstep, le_refl _, by rw [hcount]; omega, by omega, by omega, ?_⟩
    by_cases hd : dropDetected i (lowBits (t (k + 1))) s
    · have hper := (hr.tracks.dropDetected_iff hnear).mp hd
      have hfull : ¬ s.dropCount i < ptsDropThreshold := fun hc => hv ⟨hd, hc⟩
      rw [hr.count, ptsDropThreshold] at hfull
      have hle := hr.le
      have hb := hr.bound
      refine h.later_of_commit (m := m) hk (by omega) ?_
      intro l hml hl
      by_cases hlk : l ≤ k
      · exact hr.dropped l hml hlk
      · rw [show l = k + 1 by omega]; exact hper
    · have hper := hr.tracks.period_of_no_drop hnear hd
      have hle := hr.le
      intro l hl hkl
      rw [hper]
      exact hr.later l hl (by omega)

/-- Every prefix of the run leaves the stream recorded at one of its frames. -/
theorem recordedAt_run (h : BoundedReorder t n) (hs : s₀.Fresh) :
    ∀ k < n, ∃ m, RecordedAt i t n (stateAt s₀ (fun k => (i, t k)) (k + 1)) k m := by
  intro k
  induction k with
  | zero =>
      intro hn
      have hfirst := adjustPts_first (t 0) (hs.previous i) (hs.previous i.other) (hs.base i)
      have hv : ¬ provisional i (lowBits (t 0)) s₀ := by
        intro hv
        have hd := hv.1
        have := lowBits_nonneg (t 0)
        simp only [dropDetected, hs.previous i, ptsBig] at hd
        omega
      have hcount := adjustPts_dropCount i (lowBits (t 0)) s₀
      rw [if_neg hv] at hcount
      refine ⟨0, hfirst.2, le_refl _, hcount, by omega, by omega, ?_⟩
      intro l hl _
      exact period_mono (h.start l hl)
  | succ k ih =>
      intro hk
      obtain ⟨m, hr⟩ := ih (by omega)
      exact hr.step h hk

/-- The adjusted values of a single stream lie on the timeline of its first frame. -/
theorem adjustedAt_eq_timeline (h : BoundedReorder t n) (hs : s₀.Fresh) :
    ∀ k < n, adjustedAt s₀ (fun k => (i, t k)) k = timeline (period (t 0)) (t k) := by
  intro k hk
  cases k with
  | zero => exact (adjustPts_first (t 0) (hs.previous i) (hs.previous i.other) (hs.base i)).1
  | succ k =>
      obtain ⟨m, hr⟩ := recordedAt_run (i := i) h hs k (by omega)
      exact hr.tracks.adjusted (hr.near h hk)

/-- **PTS order through wraparounds.** Whatever the feed order within the bounds and however
many wraparounds the run crosses, a later true time never gets a smaller output. -/
theorem outputAt_order (i : StreamType) (t : Nat → Int) (n : Nat) (s₀ : PtsState)
    (hs : s₀.Fresh) (h : BoundedReorder t n) :
    ∀ j < n, ∀ k < n, t j ≤ t k →
      outputAt .ticks s₀ (fun k => (i, t k)) j ≤ outputAt .ticks s₀ (fun k => (i, t k)) k := by
  intro j hj k hk hjk
  have hstart := timeline_nonneg (period_mono (h.start j hj))
  calc outputAt .ticks s₀ (fun k => (i, t k)) j
      = toMicrosecond .ticks (timeline (period (t 0)) (t j)) := by
        rw [outputAt_eq, adjustedAt_eq_timeline h hs j hj]
    _ ≤ toMicrosecond .ticks (timeline (period (t 0)) (t k)) :=
        toMicrosecond_mono _ hstart (timeline_mono _ hjk)
    _ = outputAt .ticks s₀ (fun k => (i, t k)) k := by
        rw [outputAt_eq, adjustedAt_eq_timeline h hs k hk]

/-- Neighbours swapped, the wraparound after six frames. -/
def swappedTimes (k : Nat) : Int := 2 ^ 33 - 6 + (if k % 2 = 1 then (k : Int) + 1 else k - 1)

theorem swappedTimes_boundedReorder (n : Nat) : BoundedReorder swappedTimes n where
  start := by intro k _; simp only [swappedTimes]; split <;> omega
  near := by intro j _ k _ _ _; simp only [swappedTimes]; split <;> split <;> omega
  late := by
    intro w j _ hrow k _ hk
    have h0 := hrow 0 (by omega)
    simp only [swappedTimes, Nat.add_zero] at h0 hk
    split at h0 <;> split at hk <;> omega

theorem outputAt_order_swapped :
    outputAt .ticks .init (fun k => (.videoEs, swappedTimes k)) 5 ≤
      outputAt .ticks .init (fun k => (.videoEs, swappedTimes k)) 19 :=
  outputAt_order .videoEs swappedTimes 20 .init PtsState.fresh_init
    (swappedTimes_boundedReorder 20) 5 (by decide) 19 (by decide) (by decide)

end Single

end DirectMedia
