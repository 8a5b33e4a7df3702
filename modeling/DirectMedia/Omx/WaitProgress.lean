import DirectMedia.Lib.WaitProgress
import DirectMedia.Omx.Waits

set_option autoImplicit false

/-! # The waits of a client come to an end

`waits_truthful` is about what the waits report. This is about whether they report at all, in every
run of any number of threads that wait and whatever callbacks there are: `state_lock_` and
`buffer_lock_` are each held by one waiter at most, which leaves them with its next move, so that no
wait is stuck behind another, and a wait needs the OMX component neither to end nor to make
progress.
-/

namespace DirectMedia

open TimedWait

/-- No call has been made, and the mutexes are free. -/
structure OmxWaiting.Fresh (s : OmxWaiting) : Prop where
  waiters : s.waiters = []
  owner : ∀ c, s.owner c = none

theorem OmxWaiting.Fresh.exclusive {s : OmxWaiting} (h : s.Fresh) : Exclusive omxWaits s := by
  intro c n
  rw [h.owner, h.waiters]
  simp

/-- **No wait hangs.** In every state that a run leads to, two threads in their sections under the
same mutex are the same, and every wait can be brought to its end by at most eleven moves of the
waiting threads and ticks of the clock, without any callback. -/
theorem waits_end {s t : OmxWaiting} {acts : List WaitAct} (hs : s.Fresh)
    (ht : Lts.exec (step omxWaits) s acts = some t) :
    (∀ (m n : Nat) v w, t.waiters[m]? = some v → t.waiters[n]? = some w →
      v.pc.inside = true → w.pc.inside = true → v.wait.cond = w.wait.cond → m = n) ∧
    ∀ (n : Nat) w, t.waiters[n]? = some w → CanEnd omxWaits 11 t n := by
  have hexclusive : Exclusive omxWaits t :=
    Lts.exec_invariant (Q := fun _ => True) (fun _ _ _ _ h hstep => h.step hstep)
      (fun _ _ => trivial) hs.exclusive ht
  refine ⟨fun m n v w hv hw hvin hwin hcond => ?_, fun n w hw => hexclusive.ends hw⟩
  have hm := (hexclusive v.wait.cond m).mpr ⟨v, hv, rfl, hvin⟩
  have hn := (hexclusive v.wait.cond n).mpr ⟨w, hw, hcond.symm, hwin⟩
  exact Option.some.inj (hm.symm.trans hn)

/-- The lost signal leaves a wait that can still end. -/
theorem waits_end_lost : ∃ t : OmxWaiting,
    Lts.exec (step omxWaits) { shared := {} } (lostSignal.take 7) = some t ∧
      CanEnd omxWaits 11 t 0 := by
  refine ⟨_, rfl, ?_⟩
  have hrun : Lts.exec (step omxWaits) { shared := {} } (lostSignal.take 7) = some _ := rfl
  exact (waits_end ⟨rfl, fun _ => rfl⟩ hrun).2 0 _ rfl

/-- **A wait makes at most six moves for each time it is woken**, by a signal or without one, and
eight besides, however its moves are mixed with those of the others. -/
theorem waits_bounded {s t : OmxWaiting} {acts : List WaitAct} (hs : s.Fresh)
    (ht : Lts.exec (step omxWaits) s acts = some t) (n : Nat) :
    acts.countP (·.isTurn n) + t.rank n ≤ 8 + 6 * acts.countP (·.wakes n) := by
  have hrank : s.rank n = 8 := by
    rw [State.rank, hs.waiters]
    rfl
  have hbound := turns_le n ht
  rw [hrank] at hbound
  exact hbound

/-- The wait that a signal wakes once makes seven moves, and has then ended. -/
theorem waits_bounded_woken : ∃ t : OmxWaiting,
    Lts.exec (step omxWaits) { shared := {} } wokenWait = some t ∧
      t.waiters.map (·.pc) = [.returned 0] ∧
      wokenWait.countP (·.isTurn 0) = 7 ∧ wokenWait.countP (·.wakes 0) = 1 ∧
      wokenWait.countP (·.isTurn 0) + t.rank 0 ≤ 8 + 6 * wokenWait.countP (·.wakes 0) := by
  refine ⟨_, rfl, rfl, by decide, by decide, ?_⟩
  have hrun : Lts.exec (step omxWaits) { shared := {} } wokenWait = some _ := rfl
  exact waits_bounded ⟨rfl, fun _ => rfl⟩ hrun 0

end DirectMedia
