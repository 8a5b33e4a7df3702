import DirectMedia.Basic.Types
import Mathlib.Tactic.Ring

set_option autoImplicit false

/-! # Wraparound compensation of presentation time stamps

A stream's PTS is the low 33 bits of its true time. `Esplayer::adjustPtsToMicrosecond` puts the
lost bits back: it keeps per stream a base, the PTS of an earlier frame and a count of the
frames that lay more than 2^32-1 below that PTS. The first ten of these frames are moved up by
`max` without any change to base or previous; the eleventh in a row commits the wraparound.

The state is `PtsState`; one call is `adjustPts` (up to the unit conversion) and
`adjustPtsToMicrosecond`. The lemmas at the end say what one call does to a stream whose
recorded frame has a known true time.
-/

namespace DirectMedia

/-- `pts_base_`, `pts_previous_` and `pts_drop_count_`. -/
structure PtsState where
  base : StreamType → Int
  previous : StreamType → Int
  dropCount : StreamType → Nat

namespace PtsState

/-- The member initialisers of `Esplayer`. -/
def init : PtsState := ⟨fun _ => 0, fun _ => -1, fun _ => 0⟩

/-- The reset in `Esplayer::flush`: the drop counters keep their values. -/
def flush (s : PtsState) : PtsState := { s with base := fun _ => 0, previous := fun _ => -1 }

/-- No stream has had a frame: a new player, or a player that has just been flushed. -/
structure Fresh (s : PtsState) : Prop where
  base : ∀ i, s.base i = 0
  previous : ∀ i, s.previous i = -1

theorem fresh_init : Fresh init := ⟨fun _ => rfl, fun _ => rfl⟩

end PtsState

/-- `max` of `adjustPtsToMicrosecond`: what is added at a wraparound. -/
def ptsMax : Int := 2 ^ 33 - 1

/-- `big` of `adjustPtsToMicrosecond`. -/
def ptsBig : Int := 2 ^ 32 - 1

/-- `PTS_DROP_THRESHOLD`. -/
def ptsDropThreshold : Nat := 10

/-! ## One call -/

/-- The branch taken while `pts_previous_[index]` is `-1`: the first frame of a stream may move
the base of one of the two streams. -/
def firstFrame (index : StreamType) (pts : Int) (s : PtsState) : PtsState :=
  if s.previous index = -1 then
    let portIndex := index.other
    if s.previous portIndex ≠ -1 ∧ (s.previous portIndex - pts).natAbs ≥ ptsBig then
      let portIndex := if s.previous portIndex > pts then index else portIndex
      { s with base := Function.update s.base portIndex (s.base portIndex + ptsMax) }
    else s
  else s

/-- A PTS drop: the frame lies more than `big` below the recorded one. -/
def dropDetected (index : StreamType) (pts : Int) (s : PtsState) : Prop :=
  s.previous index - pts > ptsBig

instance (index : StreamType) (pts : Int) (s : PtsState) : Decidable (dropDetected index pts s) :=
  inferInstanceAs (Decidable (_ > _))

/-- `adjustPtsToMicrosecond` up to `pts + pts_base_[index]`. -/
def adjustPts (index : StreamType) (pts : Int) (s : PtsState) : Int × PtsState :=
  let s := firstFrame index pts s
  let (pts, s) :=
    if dropDetected index pts s then
      if s.dropCount index < ptsDropThreshold then
        -- base and previous stay: the frame is only moved for this call
        (pts + ptsMax,
          { s with dropCount := Function.update s.dropCount index (s.dropCount index + 1) })
      else
        (pts, { base := Function.update s.base index (s.base index + ptsMax)
                previous := Function.update s.previous index pts
                dropCount := Function.update s.dropCount index 0 })
    else
      (pts, { s with
                previous := Function.update s.previous index pts
                dropCount := Function.update s.dropCount index 0 })
  (pts + s.base index, s)

/-- The conversion at the end: a 90 kHz tick is 100/9 microseconds, and C++ division truncates. -/
def toMicrosecond (units : PtsUnits) (pts : Int) : Int :=
  match units with
  | .ticks => (pts * 100).tdiv 9
  | .microsecs => pts

/-- `Esplayer::adjustPtsToMicrosecond`. -/
def adjustPtsToMicrosecond (units : PtsUnits) (index : StreamType) (pts : Int) (s : PtsState) :
    Int × PtsState :=
  ((toMicrosecond units (adjustPts index pts s).1), (adjustPts index pts s).2)

theorem toMicrosecond_mono (units : PtsUnits) {a b : Int} (ha : 0 ≤ a) (h : a ≤ b) :
    toMicrosecond units a ≤ toMicrosecond units b := by
  cases units with
  | ticks =>
      simp only [toMicrosecond]
      rw [Int.tdiv_eq_ediv_of_nonneg (by omega), Int.tdiv_eq_ediv_of_nonneg (by omega)]
      exact Int.ediv_le_ediv (by decide) (by omega)
  | microsecs => exact h

/-! ## True time

`period t` is the number of the 2^33-tick period that the true time `t` lies in and `lowBits t`
the PTS the stream carries for it. -/

/-- The number of wraparounds before the true time `t`. -/
def period (t : Int) : Int := t / 2 ^ 33

/-- The PTS of the true time `t`: its low 33 bits. -/
def lowBits (t : Int) : Int := t % 2 ^ 33

theorem period_lowBits (t : Int) : t = 2 ^ 33 * period t + lowBits t := by
  simp only [period, lowBits]; omega

theorem lowBits_nonneg (t : Int) : 0 ≤ lowBits t := by simp only [lowBits]; omega

theorem lowBits_lt (t : Int) : lowBits t < 2 ^ 33 := by simp only [lowBits]; omega

theorem lowBits_ne_neg_one (t : Int) : lowBits t ≠ -1 := by have := lowBits_nonneg t; omega

theorem period_mono {t u : Int} (h : t ≤ u) : period t ≤ period u := by
  simp only [period]; omega

/-! ## What one call does

The first-frame branch touches no previous value and no drop counter, so the three outcomes of a
call (moved for this call only, wraparound committed, no drop) are read off the state before
it. -/

@[simp] theorem firstFrame_previous (i : StreamType) (p : Int) (s : PtsState) :
    (firstFrame i p s).previous = s.previous := by
  simp only [firstFrame]; split <;> [split; skip] <;> rfl

@[simp] theorem firstFrame_dropCount (i : StreamType) (p : Int) (s : PtsState) :
    (firstFrame i p s).dropCount = s.dropCount := by
  simp only [firstFrame]; split <;> [split; skip] <;> rfl

theorem firstFrame_of_previous {i : StreamType} {s : PtsState} (p : Int)
    (h : s.previous i ≠ -1) : firstFrame i p s = s := by
  rw [firstFrame, if_neg h]

theorem firstFrame_of_other {i : StreamType} {s : PtsState} (p : Int)
    (h : s.previous i.other = -1) : firstFrame i p s = s := by
  simp [firstFrame, h]

theorem dropDetected_firstFrame (i : StreamType) (p : Int) (s : PtsState) :
    dropDetected i p (firstFrame i p s) ↔ dropDetected i p s := by
  simp [dropDetected]

/-- The call moves the frame for this call only and leaves base and previous alone. -/
def provisional (i : StreamType) (p : Int) (s : PtsState) : Prop :=
  dropDetected i p s ∧ s.dropCount i < ptsDropThreshold

instance (i : StreamType) (p : Int) (s : PtsState) : Decidable (provisional i p s) :=
  inferInstanceAs (Decidable (_ ∧ _))

theorem adjustPts_provisional {i : StreamType} {p : Int} {s : PtsState}
    (h : provisional i p s) :
    adjustPts i p s = (p + ptsMax + (firstFrame i p s).base i,
      { firstFrame i p s with
        dropCount := Function.update s.dropCount i (s.dropCount i + 1) }) := by
  simp only [adjustPts, dropDetected_firstFrame, firstFrame_dropCount, h.1, h.2, if_true]

theorem adjustPts_commit {i : StreamType} {p : Int} {s : PtsState}
    (hd : dropDetected i p s) (hc : ¬ s.dropCount i < ptsDropThreshold) :
    adjustPts i p s = (p + ((firstFrame i p s).base i + ptsMax),
      { base := Function.update (firstFrame i p s).base i ((firstFrame i p s).base i + ptsMax)
        previous := Function.update s.previous i p
        dropCount := Function.update s.dropCount i 0 }) := by
  simp only [adjustPts, dropDetected_firstFrame, firstFrame_dropCount, firstFrame_previous, hd,
    hc, if_true, if_false, Function.update_self]

theorem adjustPts_no_drop {i : StreamType} {p : Int} {s : PtsState}
    (hd : ¬ dropDetected i p s) :
    adjustPts i p s = (p + (firstFrame i p s).base i,
      { firstFrame i p s with
        previous := Function.update s.previous i p
        dropCount := Function.update s.dropCount i 0 }) := by
  simp only [adjustPts, dropDetected_firstFrame, firstFrame_dropCount, firstFrame_previous, hd,
    if_false]

/-- A call leaves the other stream's previous value and drop counter alone. -/
theorem adjustPts_other (i : StreamType) (p : Int) (s : PtsState) :
    (adjustPts i p s).2.previous i.other = s.previous i.other ∧
      (adjustPts i p s).2.dropCount i.other = s.dropCount i.other := by
  by_cases hd : dropDetected i p s
  · by_cases hc : s.dropCount i < ptsDropThreshold
    · rw [adjustPts_provisional ⟨hd, hc⟩]; simp
    · rw [adjustPts_commit hd hc]; simp
  · rw [adjustPts_no_drop hd]; simp

/-- Past its first frame a call leaves the other stream's base alone too. -/
theorem adjustPts_other_base {i : StreamType} {s : PtsState} (p : Int)
    (h : s.previous i ≠ -1) : (adjustPts i p s).2.base i.other = s.base i.other := by
  by_cases hd : dropDetected i p s
  · by_cases hc : s.dropCount i < ptsDropThreshold
    · rw [adjustPts_provisional ⟨hd, hc⟩]; simp [firstFrame_of_previous p h]
    · rw [adjustPts_commit hd hc]; simp [firstFrame_of_previous p h]
  · rw [adjustPts_no_drop hd]; simp [firstFrame_of_previous p h]

/-! What a call does depends on the bases, the previous values and, at a drop, the counter of its
stream. -/

theorem firstFrame_base_congr {s u : PtsState} (hbase : s.base = u.base)
    (hprevious : s.previous = u.previous) (i : StreamType) (p : Int) :
    (firstFrame i p s).base = (firstFrame i p u).base := by
  simp only [firstFrame, hprevious, hbase]
  split
  · split
    · rfl
    · exact hbase
  · exact hbase

theorem dropDetected_congr {s u : PtsState} (hprevious : s.previous = u.previous) (i : StreamType)
    (p : Int) : dropDetected i p s ↔ dropDetected i p u := by
  simp only [dropDetected, hprevious]

theorem adjustPts_congr {s u : PtsState} {i : StreamType} {p : Int} (hbase : s.base = u.base)
    (hprevious : s.previous = u.previous)
    (hcount : dropDetected i p s → s.dropCount i = u.dropCount i) :
    (adjustPts i p s).1 = (adjustPts i p u).1 ∧
      (adjustPts i p s).2.base = (adjustPts i p u).2.base ∧
      (adjustPts i p s).2.previous = (adjustPts i p u).2.previous ∧
      (adjustPts i p s).2.dropCount i = (adjustPts i p u).2.dropCount i := by
  have hfirst := firstFrame_base_congr hbase hprevious i p
  by_cases hd : dropDetected i p s
  · have hd' := (dropDetected_congr hprevious i p).mp hd
    have hcount := hcount hd
    by_cases hc : s.dropCount i < ptsDropThreshold
    · rw [adjustPts_provisional ⟨hd, hc⟩, adjustPts_provisional ⟨hd', hcount ▸ hc⟩]
      simp [hfirst, hprevious, hcount]
    · rw [adjustPts_commit hd hc, adjustPts_commit hd' (hcount ▸ hc)]
      simp [hfirst, hprevious]
  · have hd' : ¬ dropDetected i p u := fun hu => hd ((dropDetected_congr hprevious i p).mpr hu)
    rw [adjustPts_no_drop hd, adjustPts_no_drop hd']
    simp [hfirst, hprevious]

/-! ## Tracking the true time

`Tracks D i T s` says that stream `i` is recorded at true time `T` on the timeline that starts
in period `D`. A call whose frame is `Near` the recorded one keeps the stream on this timeline:
what it returns is `timeline D t`, whichever of the three outcomes it has. -/

/-- The adjusted value of the true time `t`, one `ptsMax` per wraparound since period `D`. -/
def timeline (D t : Int) : Int := lowBits t + (period t - D) * ptsMax

/-- `ptsMax` is one short of a period, so the timeline falls one tick behind per wraparound. -/
theorem timeline_eq (D t : Int) : timeline D t = t - 2 ^ 33 * D - (period t - D) := by
  have := period_lowBits t
  simp only [timeline, ptsMax]; omega

theorem timeline_sub (D t u : Int) :
    timeline D t - timeline D u = (t - u) - (period t - period u) := by
  rw [timeline_eq, timeline_eq]; omega

theorem timeline_mono (D : Int) {t u : Int} (h : t ≤ u) : timeline D t ≤ timeline D u := by
  have := timeline_sub D u t
  simp only [period] at this
  omega

theorem timeline_nonneg {D t : Int} (h : D ≤ period t) : 0 ≤ timeline D t := by
  have := lowBits_nonneg t
  simp only [timeline, ptsMax]; omega

/-- Stream `i` is recorded at true time `T` on the timeline of period `D`. -/
structure Tracks (D : Int) (i : StreamType) (T : Int) (s : PtsState) : Prop where
  previous : s.previous i = lowBits T
  base : s.base i = (period T - D) * ptsMax

/-- The true time `t` is close enough to the recorded `T` for a drop to mean a wraparound. -/
def Near (T t : Int) : Prop :=
  (period t = period T ∧ T - t < 2 ^ 32) ∨ (period t = period T + 1 ∧ t - T ≤ 2 ^ 32)

instance (T t : Int) : Decidable (Near T t) := inferInstanceAs (Decidable (_ ∨ _))

theorem Tracks.previous_ne {D : Int} {i : StreamType} {T : Int} {s : PtsState}
    (h : Tracks D i T s) : s.previous i ≠ -1 := by
  rw [h.previous]; exact lowBits_ne_neg_one T

/-- Between `Near` frames a drop is detected exactly at a wraparound. -/
theorem Tracks.dropDetected_iff {D : Int} {i : StreamType} {T t : Int} {s : PtsState}
    (h : Tracks D i T s) (hn : Near T t) :
    dropDetected i (lowBits t) s ↔ period t = period T + 1 := by
  have hT := period_lowBits T
  have ht := period_lowBits t
  have := lowBits_lt t
  simp only [dropDetected, h.previous, ptsBig]
  rcases hn with ⟨hp, hg⟩ | ⟨hp, hg⟩ <;> omega

theorem Tracks.period_of_no_drop {D : Int} {i : StreamType} {T t : Int} {s : PtsState}
    (h : Tracks D i T s) (hn : Near T t) (hd : ¬ dropDetected i (lowBits t) s) :
    period t = period T := by
  rw [h.dropDetected_iff hn] at hd
  rcases hn with ⟨hp, _⟩ | ⟨hp, _⟩
  · exact hp
  · exact absurd hp hd

/-- The adjusted value lies on the timeline, before, during and after a commit. -/
theorem Tracks.adjusted {D : Int} {i : StreamType} {T t : Int} {s : PtsState}
    (h : Tracks D i T s) (hn : Near T t) : (adjustPts i (lowBits t) s).1 = timeline D t := by
  have hf := firstFrame_of_previous (lowBits t) h.previous_ne
  by_cases hd : dropDetected i (lowBits t) s
  · have hp := (h.dropDetected_iff hn).mp hd
    have hb : s.base i + ptsMax = (period t - D) * ptsMax := by
      calc s.base i + ptsMax
          = (period T - D) * ptsMax + ptsMax := by rw [h.base]
        _ = (period T + 1 - D) * ptsMax := by ring
        _ = (period t - D) * ptsMax := by rw [hp]
    by_cases hc : s.dropCount i < ptsDropThreshold
    · calc (adjustPts i (lowBits t) s).1
          = lowBits t + ptsMax + s.base i := by rw [adjustPts_provisional ⟨hd, hc⟩, hf]
        _ = lowBits t + (s.base i + ptsMax) := by ring
        _ = timeline D t := by rw [hb, timeline]
    · calc (adjustPts i (lowBits t) s).1
          = lowBits t + (s.base i + ptsMax) := by rw [adjustPts_commit hd hc, hf]
        _ = timeline D t := by rw [hb, timeline]
  · have hp := h.period_of_no_drop hn hd
    calc (adjustPts i (lowBits t) s).1
        = lowBits t + s.base i := by rw [adjustPts_no_drop hd, hf]
      _ = timeline D t := by rw [h.base, ← hp, timeline]

/-- A provisional call keeps the recorded frame; any other call records the new one. -/
theorem Tracks.step {D : Int} {i : StreamType} {T t : Int} {s : PtsState}
    (h : Tracks D i T s) (hn : Near T t) :
    Tracks D i (if provisional i (lowBits t) s then T else t) (adjustPts i (lowBits t) s).2 := by
  have hf := firstFrame_of_previous (lowBits t) h.previous_ne
  by_cases hd : dropDetected i (lowBits t) s
  · have hp := (h.dropDetected_iff hn).mp hd
    by_cases hc : s.dropCount i < ptsDropThreshold
    · rw [if_pos ⟨hd, hc⟩, adjustPts_provisional ⟨hd, hc⟩, hf]
      exact ⟨h.previous, h.base⟩
    · rw [if_neg (fun hv => hc hv.2), adjustPts_commit hd hc, hf]
      refine ⟨by simp, ?_⟩
      simp only [Function.update_self, h.base, hp]; ring
  · have hp := h.period_of_no_drop hn hd
    rw [if_neg (fun hv => hd hv.1), adjustPts_no_drop hd, hf]
    exact ⟨by simp, by rw [h.base, hp]⟩

/-- The drop counter after a call: one more after a provisional call, else zero. -/
theorem adjustPts_dropCount (i : StreamType) (p : Int) (s : PtsState) :
    (adjustPts i p s).2.dropCount i = if provisional i p s then s.dropCount i + 1 else 0 := by
  by_cases hd : dropDetected i p s
  · by_cases hc : s.dropCount i < ptsDropThreshold
    · rw [if_pos ⟨hd, hc⟩, adjustPts_provisional ⟨hd, hc⟩]; simp
    · rw [if_neg (fun hv => hc hv.2), adjustPts_commit hd hc]; simp
  · rw [if_neg (fun hv => hd hv.1), adjustPts_no_drop hd]; simp

/-! ## A run of calls

`calls n` is the stream and the true time of the `n`-th frame, in feed order. -/

/-- The state before the `n`-th call. -/
def stateAt (s₀ : PtsState) (calls : Nat → StreamType × Int) : Nat → PtsState
  | 0 => s₀
  | n + 1 => (adjustPts (calls n).1 (lowBits (calls n).2) (stateAt s₀ calls n)).2

/-- The adjusted value (`pts` plus base) of the `n`-th frame. -/
def adjustedAt (s₀ : PtsState) (calls : Nat → StreamType × Int) (n : Nat) : Int :=
  (adjustPts (calls n).1 (lowBits (calls n).2) (stateAt s₀ calls n)).1

/-- What `adjustPtsToMicrosecond` returns for the `n`-th frame. -/
def outputAt (units : PtsUnits) (s₀ : PtsState) (calls : Nat → StreamType × Int) (n : Nat) :
    Int :=
  (adjustPtsToMicrosecond units (calls n).1 (lowBits (calls n).2) (stateAt s₀ calls n)).1

theorem outputAt_eq (units : PtsUnits) (s₀ : PtsState) (calls : Nat → StreamType × Int)
    (n : Nat) : outputAt units s₀ calls n = toMicrosecond units (adjustedAt s₀ calls n) := rfl

end DirectMedia
