import DirectMedia.Pts.Adjust

set_option autoImplicit false

/-! # Bursts of bogus low time stamps

A frame that lies more than `ptsBig` below the recorded one is moved for its own call only, up to
ten times in a row. So a burst of at most ten such frames changes nothing but the drop counter of
its stream, and the first frame that is no drop clears that. The two runs compared here, with the
burst and without it, differ in this counter alone while the burst lasts (`SameBut`), whatever the
other stream does in between, and in nothing after it (`burst_transparent`).
-/

namespace DirectMedia

/-! ## Calls in a row

A call is a stream and a PTS. -/

/-- The state after a list of calls. -/
def afterCalls (s : PtsState) : List (StreamType × Int) → PtsState
  | [] => s
  | c :: calls => afterCalls (adjustPts c.1 c.2 s).2 calls

/-- What `adjustPtsToMicrosecond` returns for each of them. -/
def callOutputs (units : PtsUnits) (s : PtsState) : List (StreamType × Int) → List Int
  | [] => []
  | c :: calls =>
      (adjustPtsToMicrosecond units c.1 c.2 s).1 ::
        callOutputs units (adjustPtsToMicrosecond units c.1 c.2 s).2 calls

/-- The calls of the other stream. -/
def withoutStream (i : StreamType) (calls : List (StreamType × Int)) : List (StreamType × Int) :=
  calls.filter fun c => c.1 ≠ i

/-! ## States that differ in one counter -/

/-- The states differ at most in the drop counter of stream `i`. -/
structure SameBut (i : StreamType) (s u : PtsState) : Prop where
  base : s.base = u.base
  previous : s.previous = u.previous
  dropCount : ∀ j, j ≠ i → s.dropCount j = u.dropCount j

theorem sameBut_refl (i : StreamType) (s : PtsState) : SameBut i s s := ⟨rfl, rfl, fun _ _ => rfl⟩

namespace SameBut

variable {i j : StreamType} {s u : PtsState} {p : Int}

/-- A frame that is no drop clears the counter, and nothing is left of the difference. -/
theorem adjustPts_eq (h : SameBut i s u) (hp : ¬ dropDetected i p s) :
    adjustPts i p s = adjustPts i p u := by
  obtain ⟨hresult, hbase, hprevious, hcount⟩ :=
    adjustPts_congr h.base h.previous fun hd => absurd hd hp
  have hcounts : (adjustPts i p s).2.dropCount = (adjustPts i p u).2.dropCount := by
    funext j
    rcases StreamType.eq_or_eq_other i j with rfl | rfl
    · exact hcount
    · rw [(adjustPts_other i p s).2, (adjustPts_other i p u).2, h.dropCount _ i.other_ne]
  refine Prod.ext hresult ?_
  cases hs : (adjustPts i p s).2
  cases hu : (adjustPts i p u).2
  simp_all

/-- A frame of the other stream does not see the difference, and keeps it. -/
theorem adjust_other (h : SameBut i s u) (p : Int) :
    SameBut i (adjustPts i.other p s).2 (adjustPts i.other p u).2 := by
  have hcount := h.dropCount _ i.other_ne
  obtain ⟨-, hbase, hprevious, hsame⟩ :=
    adjustPts_congr (p := p) h.base h.previous fun _ => hcount
  refine ⟨hbase, hprevious, fun j hj => ?_⟩
  rcases StreamType.eq_or_eq_other i j with rfl | rfl
  · exact absurd rfl hj
  · exact hsame

end SameBut

/-! ## The burst -/

/-- Where the run with the burst stands: it differs from the run without it in the counter of
stream `i` only, which has counted the `n` frames of the burst so far. The PTS of the stream is
still the one recorded before. -/
structure InBurst (i : StreamType) (recorded : Int) (n : Nat) (s u : PtsState) : Prop where
  same : SameBut i s u
  previous : s.previous i = recorded
  count : s.dropCount i = n

section Burst

variable {i : StreamType} {recorded : Int} {n : Nat} {s u : PtsState} {p : Int}

/-- One more frame of the burst. -/
theorem InBurst.drop (h : InBurst i recorded n s u) (hrecorded : recorded ≠ -1)
    (hn : n < ptsDropThreshold) (hp : recorded - p > ptsBig) :
    InBurst i recorded (n + 1) (adjustPts i p s).2 u := by
  have hprovisional : provisional i p s := by
    refine ⟨?_, ?_⟩
    · rw [dropDetected, h.previous]
      exact hp
    · rw [h.count]
      exact hn
  have hfirst : firstFrame i p s = s :=
    firstFrame_of_previous p (by rw [h.previous]; exact hrecorded)
  rw [adjustPts_provisional hprovisional, hfirst]
  refine ⟨⟨h.same.base, h.same.previous, fun j hj => ?_⟩, h.previous, ?_⟩
  · simp [Function.update_of_ne hj, h.same.dropCount j hj]
  · simp [h.count]

/-- A frame of the other stream, in both runs. -/
theorem InBurst.other (h : InBurst i recorded n s u) (p : Int) :
    InBurst i recorded n (adjustPts i.other p s).2 (adjustPts i.other p u).2 := by
  obtain ⟨hprevious, hcount⟩ := adjustPts_other i.other p s
  rw [StreamType.other_other] at hprevious hcount
  exact ⟨h.same.adjust_other p, hprevious.trans h.previous, hcount.trans h.count⟩

/-- The burst, by induction on the calls: each is a frame of the burst, which the second run leaves
out, or one of the other stream, which both runs take. -/
theorem InBurst.calls (hrecorded : recorded ≠ -1) (calls : List (StreamType × Int))
    (hburst : ∀ c ∈ calls, c.1 = i → recorded - c.2 > ptsBig) :
    ∀ {n : Nat} {s u : PtsState}, InBurst i recorded n s u →
      n + calls.countP (fun c => c.1 = i) ≤ ptsDropThreshold →
      SameBut i (afterCalls s calls) (afterCalls u (withoutStream i calls)) ∧
        (afterCalls s calls).previous i = recorded := by
  induction calls with
  | nil => exact fun h _ => ⟨h.same, h.previous⟩
  | cons c calls ih =>
      intro n s u h hcount
      have htail : ∀ d ∈ calls, d.1 = i → recorded - d.2 > ptsBig := fun d hd =>
        hburst d (List.mem_cons_of_mem c hd)
      by_cases hc : c.1 = i
      · rw [List.countP_cons_of_pos (by simpa using hc)] at hcount
        have hdrop := h.drop hrecorded (by omega) (hburst c List.mem_cons_self hc)
        have hskip : withoutStream i (c :: calls) = withoutStream i calls := by
          simp [withoutStream, hc]
        rw [hskip, afterCalls, hc]
        exact ih htail hdrop (by omega)
      · rw [List.countP_cons_of_neg (by simpa using hc)] at hcount
        have htake : withoutStream i (c :: calls) = c :: withoutStream i calls := by
          simp [withoutStream, hc]
        have hother := (StreamType.eq_or_eq_other i c.1).resolve_left hc
        rw [htake, afterCalls, afterCalls, hother]
        exact ih htail (h.other c.2) hcount

end Burst

/-- **Short bursts are transparent.** A stream with a recorded frame and a zero drop counter gets at
most ten frames that lie more than `ptsBig` below the recorded one, among calls of the other stream,
and then a frame that does not. With the burst and without it, bases and previous values are the
same before and after that frame, and so is what it and every later call returns. -/
theorem burst_transparent (units : PtsUnits) (s : PtsState) (i : StreamType)
    (hprevious : s.previous i ≠ -1) (hcount : s.dropCount i = 0)
    (calls : List (StreamType × Int))
    (hburst : ∀ c ∈ calls, c.1 = i → s.previous i - c.2 > ptsBig)
    (hshort : calls.countP (fun c => c.1 = i) ≤ 10) (p : Int)
    (hp : ¬ s.previous i - p > ptsBig) (later : List (StreamType × Int)) :
    let t := afterCalls s calls
    let u := afterCalls s (withoutStream i calls)
    let t' := (adjustPtsToMicrosecond units i p t).2
    let u' := (adjustPtsToMicrosecond units i p u).2
    (t.base = u.base ∧ t.previous = u.previous) ∧
      (t'.base = u'.base ∧ t'.previous = u'.previous) ∧
      (adjustPtsToMicrosecond units i p t).1 = (adjustPtsToMicrosecond units i p u).1 ∧
      callOutputs units t' later = callOutputs units u' later := by
  intro t u t' u'
  have hstart : InBurst i (s.previous i) 0 s s := ⟨sameBut_refl i s, rfl, hcount⟩
  obtain ⟨hsame, hrecorded⟩ :=
    hstart.calls hprevious calls hburst (by rw [Nat.zero_add]; exact hshort)
  have hnodrop : ¬ dropDetected i p t := by
    rw [dropDetected, hrecorded]
    exact hp
  have hlast : adjustPtsToMicrosecond units i p t = adjustPtsToMicrosecond units i p u := by
    rw [adjustPtsToMicrosecond, adjustPtsToMicrosecond, hsame.adjustPts_eq hnodrop]
  have hstates : t' = u' := congrArg Prod.snd hlast
  refine ⟨⟨hsame.base, hsame.previous⟩, ?_, congrArg Prod.fst hlast, ?_⟩
  · rw [hstates]
    exact ⟨rfl, rfl⟩
  · rw [hstates]

/-- Ten frames at the bottom of the range, the first frame of the other stream among them. -/
theorem burst_transparent_ten :
    let s : PtsState :=
      { PtsState.init with previous := fun i => if i = .videoEs then 2 ^ 33 - 1 else -1 }
    let calls := (.audioEs, 2 ^ 33 - 900) :: List.replicate 10 (StreamType.videoEs, (5 : Int))
    (adjustPtsToMicrosecond .ticks .videoEs (2 ^ 33 - 1) (afterCalls s calls)).1 =
      (adjustPtsToMicrosecond .ticks .videoEs (2 ^ 33 - 1)
        (afterCalls s (withoutStream .videoEs calls))).1 := by
  intro s calls
  exact (burst_transparent .ticks s .videoEs (by decide) rfl calls (by decide) (by decide)
    (2 ^ 33 - 1) (by decide) []).2.2.1

end DirectMedia
