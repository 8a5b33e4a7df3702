import DirectMedia.Pts.Adjust

set_option autoImplicit false

/-! # What a reset forgets

`flush` resets bases and previous values but leaves the drop counters. A counter is only read at a
drop, and a stream without a recorded frame has none: its first frame clears the counter. So two
states that differ only in the counters of such streams give the same outputs from then on, call by
call (`SameHistory.step`).
-/

namespace DirectMedia

/-- The states differ at most in the drop counters of streams without a recorded frame. -/
structure SameHistory (s u : PtsState) : Prop where
  base : s.base = u.base
  previous : s.previous = u.previous
  dropCount : ∀ i, s.previous i ≠ -1 → s.dropCount i = u.dropCount i

/-- A state without recorded frames has the history of a new player, whatever its counters. -/
theorem PtsState.Fresh.sameHistory {s : PtsState} (h : s.Fresh) : SameHistory s .init where
  base := funext h.base
  previous := funext h.previous
  dropCount := fun i hi => absurd (h.previous i) hi

theorem PtsState.fresh_flush (s : PtsState) : s.flush.Fresh := ⟨fun _ => rfl, fun _ => rfl⟩

/-- A stream without a recorded frame sees no drop in a PTS. -/
theorem not_dropDetected_of_previous {i : StreamType} {p : Int} {s : PtsState} (hp : 0 ≤ p)
    (h : s.previous i = -1) : ¬ dropDetected i p s := by
  simp only [dropDetected, h, ptsBig]
  omega

namespace SameHistory

variable {s u : PtsState} {i : StreamType} {p : Int}

/-- One call returns the same in both states and leaves them with the same history. -/
theorem step (h : SameHistory s u) (hp : 0 ≤ p) :
    (adjustPts i p s).1 = (adjustPts i p u).1 ∧
      SameHistory (adjustPts i p s).2 (adjustPts i p u).2 := by
  -- where there is a drop there is a recorded frame, so the counters agree
  have hcount : dropDetected i p s → s.dropCount i = u.dropCount i := fun hd =>
    h.dropCount i fun hi => not_dropDetected_of_previous hp hi hd
  obtain ⟨hresult, hbase, hprevious, hsame⟩ := adjustPts_congr h.base h.previous hcount
  refine ⟨hresult, hbase, hprevious, fun j hj => ?_⟩
  rcases StreamType.eq_or_eq_other i j with rfl | rfl
  · exact hsame
  · obtain ⟨hother, hothers⟩ := adjustPts_other i p s
    obtain ⟨-, hothers'⟩ := adjustPts_other i p u
    rw [hothers, hothers']
    exact h.dropCount i.other (hother ▸ hj)

/-- So does a run of calls, on either stream in any interleaving. -/
theorem run (h : SameHistory s u) (calls : Nat → StreamType × Int) (n : Nat) :
    SameHistory (stateAt s calls n) (stateAt u calls n) := by
  induction n with
  | zero => exact h
  | succ n ih => exact (ih.step (lowBits_nonneg _)).2

theorem outputAt_eq (h : SameHistory s u) (units : PtsUnits) (calls : Nat → StreamType × Int)
    (n : Nat) : outputAt units s calls n = outputAt units u calls n := by
  simp only [outputAt, adjustPtsToMicrosecond]
  rw [((h.run calls n).step (lowBits_nonneg _)).1]

end SameHistory

end DirectMedia
