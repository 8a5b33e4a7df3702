import DirectMedia.Pts.Order

set_option autoImplicit false

/-! # How exact the compensation is

Frames that are fed in the order of their true times, twelve of them within 2^32 ticks, stay within
`BoundedReorder`, so what the stream gets is its timeline. That timeline adds `ptsMax` per
wraparound, one tick less than a period, before the commit and after it alike. So the output is the
true time exactly as long as no wraparound has been crossed (`outputAt_exact_iff`).
-/

namespace DirectMedia

/-- The frames `t 0, …, t (n - 1)` are fed in order, and any twelve in a row span less than 2^32
ticks. -/
structure SteadyTimes (t : Nat → Int) (n : Nat) : Prop where
  mono : ∀ k, k + 1 < n → t k ≤ t (k + 1)
  span : ∀ j k, j ≤ k → k ≤ j + 11 → k < n → t k - t j < 2 ^ 32

namespace SteadyTimes

variable {t : Nat → Int} {n : Nat}

theorem le (h : SteadyTimes t n) {j k : Nat} (hjk : j ≤ k) (hk : k < n) : t j ≤ t k := by
  induction k, hjk using Nat.le_induction with
  | base => exact le_refl _
  | succ k hjk ih => exact (ih (by omega)).trans (h.mono k hk)

theorem boundedReorder (h : SteadyTimes t n) : BoundedReorder t n where
  start := fun k hk => h.le (Nat.zero_le k) hk
  near := by
    intro j _ k hk hjk hspan
    have hle := h.le hjk hk
    have hlt := h.span j k hjk hspan hk
    omega
  late := by
    intro w j _ hrow k hk hlow
    have hj : 2 ^ 33 * w ≤ t j := hrow 0 (Nat.zero_le _)
    -- a frame from `j` on is not below the frame `j`
    by_contra hjk
    have := h.le (j := j) (k := k) (by omega) hk
    omega

end SteadyTimes

/-- The true time of a frame, counted from the start of the period of the first frame. -/
theorem timeline_eq_sub (t₀ t : Int) :
    timeline (period t₀) t = t - t₀ + lowBits t₀ - (period t - period t₀) := by
  have := period_lowBits t₀
  rw [timeline_eq]; omega

/-- A tick that is missing shows in the microseconds. -/
theorem toMicrosecond_ticks_sub_eq_iff {x w : Int} (hw : 0 ≤ w) (hx : 0 ≤ x - w) :
    toMicrosecond .ticks (x - w) = x * 100 / 9 ↔ w = 0 := by
  simp only [toMicrosecond]
  rw [Int.tdiv_eq_ediv_of_nonneg (by omega)]
  omega

/-- **Exactness through wraparounds.** A single stream in tick mode gets the true time of a frame,
counted from the start of the period of its first frame, exactly if no wraparound lies between that
frame and the first. -/
theorem outputAt_exact_iff (i : StreamType) (t : Nat → Int) (n : Nat) (s₀ : PtsState)
    (hs : s₀.Fresh) (h : SteadyTimes t n) :
    ∀ k < n, outputAt .ticks s₀ (fun k => (i, t k)) k = (t k - t 0 + lowBits (t 0)) * 100 / 9 ↔
      period (t k) = period (t 0) := by
  intro k hk
  have hper := period_mono (h.le (Nat.zero_le k) hk)
  have hnonneg := timeline_nonneg hper
  rw [timeline_eq_sub] at hnonneg
  calc outputAt .ticks s₀ (fun k => (i, t k)) k = (t k - t 0 + lowBits (t 0)) * 100 / 9
      ↔ toMicrosecond .ticks (t k - t 0 + lowBits (t 0) - (period (t k) - period (t 0))) =
          (t k - t 0 + lowBits (t 0)) * 100 / 9 := by
        rw [outputAt_eq, adjustedAt_eq_timeline h.boundedReorder hs k hk, timeline_eq_sub]
    _ ↔ period (t k) - period (t 0) = 0 :=
        toMicrosecond_ticks_sub_eq_iff (by omega) hnonneg
    _ ↔ period (t k) = period (t 0) := by omega

/-- A frame each tenth of a second, with a wraparound before the third. -/
def wrappingTimes (k : Nat) : Int := 2 ^ 33 - 18000 + 9000 * k

theorem wrappingTimes_steady (n : Nat) : SteadyTimes wrappingTimes n where
  mono := by intro k _; simp only [wrappingTimes]; omega
  span := by intro j k _ _ _; simp only [wrappingTimes]; omega

theorem outputAt_exact_iff_wrapping :
    outputAt .ticks .init (fun k => (.videoEs, wrappingTimes k)) 1 =
        (wrappingTimes 1 - wrappingTimes 0 + lowBits (wrappingTimes 0)) * 100 / 9 ↔
      period (wrappingTimes 1) = period (wrappingTimes 0) :=
  outputAt_exact_iff .videoEs wrappingTimes 12 .init PtsState.fresh_init
    (wrappingTimes_steady 12) 1 (by decide)

/-- The first frame after the wraparound is one tick, eleven microseconds, too early. -/
theorem outputAt_not_exact :
    ∃ t : Nat → Int, (∀ n, SteadyTimes t n) ∧
      outputAt .ticks .init (fun k => (.videoEs, t k)) 2 = 95443717677 ∧
      (t 2 - t 0 + lowBits (t 0)) * 100 / 9 = 95443717688 :=
  ⟨wrappingTimes, wrappingTimes_steady, by decide, by decide⟩

end DirectMedia
