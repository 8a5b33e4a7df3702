import DirectMedia.Message.Looper
import Mathlib.Data.List.Sort

set_option autoImplicit false

/-! # The order of timed dispatch

The looper looks at the front of `message_queue_` only, so that a message is run in time rests on
the order of the whole queue. The insertion loop of `post` is the ordered insertion by `run_at`,
which is stable: a message comes behind those of the same `run_at`. A queue call or a step of the
looper leaves a queue that is ordered by `run_at` and then by the number of the post.
-/

namespace DirectMedia

open Lts

/-! ## Stable insertion -/

section Stable

variable {α κ : Type} [LinearOrder κ] (key : α → κ) (number : α → Nat)

/-- `a` has the smaller key, or the same key and the smaller number. -/
def Precedes (a b : α) : Prop := key a < key b ∨ key a = key b ∧ number a < number b

/-- `a` has the smaller key. -/
abbrev KeyLt (a b : α) : Prop := key a < key b

variable {key number}

/-- An element with the largest number goes behind those of its own key. -/
theorem precedes_orderedInsert {x : α} {l : List α} (hl : l.Pairwise (Precedes key number))
    (hx : ∀ a ∈ l, number a < number x) :
    (l.orderedInsert (KeyLt key) x).Pairwise (Precedes key number) := by
  induction l with
  | nil => exact List.pairwise_singleton _ x
  | cons a l ih =>
      rw [List.pairwise_cons] at hl
      obtain ⟨ha, hl⟩ := hl
      have hax : number a < number x := hx a (by simp)
      by_cases hlt : key x < key a
      · rw [List.orderedInsert_cons, if_pos hlt, List.pairwise_cons, List.pairwise_cons]
        refine ⟨?_, ha, hl⟩
        intro b hb
        rcases List.mem_cons.mp hb with rfl | hb
        · exact .inl hlt
        · -- `a` precedes `b`, so the key of `b` is no smaller than the key of `a`
          have hab : key a ≤ key b := by
            cases ha b hb with
            | inl h => exact h.le
            | inr h => exact h.1.le
          exact .inl (hlt.trans_le hab)
      · rw [List.orderedInsert_cons, if_neg hlt, List.pairwise_cons]
        constructor
        · intro b hb
          rcases (List.mem_orderedInsert _).mp hb with rfl | hb
          · rcases lt_or_eq_of_le (not_lt.mp hlt) with h | h
            · exact .inl h
            · exact .inr ⟨h, hax⟩
          · exact ha b hb
        · exact ih hl (fun b hb => hx b (by simp [hb]))

end Stable

/-! ## The queue of messages -/

/-- `message_queue_` holds the messages `ms`, ordered by `run_at` and then by post, and the next
post has a larger number than each of them. -/
structure Scheduled (s : Looper) (ms : List Message) : Prop where
  queue : s.queue = ms.map some
  ordered : ms.Pairwise (Precedes Message.runAt Message.id)
  posted : ∀ m ∈ ms, m.id < s.calls

/-- The insertion loop of `post` is the ordered insertion. -/
theorem insertEntry_map_some (m : Message) (ms : List Message) :
    insertEntry (some m) (ms.map some) =
      some ((ms.orderedInsert (KeyLt Message.runAt) m).map some) := by
  induction ms with
  | nil => rfl
  | cons a ms ih =>
      rw [List.map_cons, insertEntry]
      split
      case isTrue hle =>
          have hnot : ¬ m.runAt < a.runAt := not_lt.mpr hle
          rw [List.orderedInsert_cons, if_neg hnot, ih]
          rfl
      case isFalse hle =>
          have hlt : m.runAt < a.runAt := not_le.mp hle
          rw [List.orderedInsert_cons, if_pos hlt]
          rfl

/-- Posts of messages, `clearAll`, `setRunningState`, the clock and the looper thread. -/
def LooperAct.Timed : LooperAct → Prop
  | .append _ | .destroy => False
  | _ => True

namespace Looper

theorem scheduled_init (now : Int) : Scheduled (init now) [] :=
  ⟨rfl, List.Pairwise.nil, fun m hm => by cases hm⟩

/-- A step that leaves the queue alone. -/
theorem scheduled_same {s t : Looper} {ms : List Message} (hs : Scheduled s ms)
    (hqueue : t.queue = s.queue) (hcalls : t.calls = s.calls) : Scheduled t ms :=
  ⟨hqueue.trans hs.queue, hs.ordered, fun m hm => hcalls ▸ hs.posted m hm⟩

theorem scheduled_post {s t : Looper} {ms : List Message} {r : Int} (hs : Scheduled s ms)
    (h : step s (.post r) = some t) : ∃ ms', Scheduled t ms' := by
  simp only [step, call, QueueCall.apply, hs.queue, insertEntry_map_some, Option.map_some,
    Option.some.injEq] at h
  subst h
  refine ⟨ms.orderedInsert (KeyLt Message.runAt) ⟨s.calls, r⟩, rfl, ?_, ?_⟩
  · exact precedes_orderedInsert hs.ordered hs.posted
  · intro m hm
    rcases (List.mem_orderedInsert _).mp hm with rfl | hm
    · exact Nat.lt_succ_self s.calls
    · exact Nat.lt_succ_of_lt (hs.posted m hm)

/-- The front is popped, whichever message it has become since it was selected. -/
theorem scheduled_tail {s t : Looper} {ms : List Message} (hs : Scheduled s ms)
    (hqueue : t.queue = s.queue.tail) (hcalls : t.calls = s.calls) : Scheduled t ms.tail := by
  refine ⟨?_, hs.ordered.tail, ?_⟩
  · rw [hqueue, hs.queue, List.map_tail]
  · intro m hm
    exact hcalls ▸ hs.posted m (List.mem_of_mem_tail hm)

theorem scheduled_step {s t : Looper} {a : LooperAct} {ms : List Message} (ha : a.Timed)
    (hs : Scheduled s ms) (h : step s a = some t) : ∃ ms', Scheduled t ms' := by
  cases effect h with
  | call c label queue calls pc =>
      cases a with
      | post r => exact scheduled_post hs h
      | clearAll =>
          cases label
          simp only [QueueCall.apply, Option.some.injEq] at queue
          exact ⟨[], queue.symm, List.Pairwise.nil, fun m hm => by cases hm⟩
      | append r => exact ha.elim
      | destroy => exact ha.elim
      | _ => cases label
  | look ret label top eq => exact ⟨ms, scheduled_same hs (by rw [eq]) (by rw [eq])⟩
  | handled m ret label handling eq => exact ⟨ms, scheduled_same hs (by rw [eq]) (by rw [eq])⟩
  | popFront m label popping eq => exact ⟨ms.tail, scheduled_tail hs (by rw [eq]) (by rw [eq])⟩
  | other label look handled popFront queue calls pc => exact ⟨ms, scheduled_same hs queue calls⟩

theorem call_now {s t : Looper} {c : QueueCall} (h : s.call c = some t) : t.now = s.now := by
  simp only [call, Option.map_eq_some_iff] at h
  obtain ⟨q, _, rfl⟩ := h
  rfl

/-- The monotonic clock never goes back. -/
theorem timed_step_now {s t : Looper} {a : LooperAct} (ha : a.Timed) (h : step s a = some t) :
    s.now ≤ t.now := by
  unfold step at h
  cases a with
  | post r => exact (call_now h).ge
  | clearAll => exact (call_now h).ge
  | append r => exact ha.elim
  | destroy => exact ha.elim
  | tick d =>
      cases h
      show s.now ≤ s.now + d
      omega
  | setRunningState run => cases h; exact le_refl _
  | look ret =>
      simp only [Option.ite_none_right_eq_some, Option.some.injEq] at h
      rw [← h.2]
  | wake =>
      simp only [Option.map_eq_some_iff] at h
      obtain ⟨_, _, rfl⟩ := h
      exact le_refl _
  | handled =>
      dsimp only at h
      split at h
      · cases h; exact le_refl _
      · cases h
  | popFront =>
      dsimp only at h
      split at h
      · cases h; exact le_refl _
      · cases h
  | resume =>
      simp only [Option.ite_none_right_eq_some, Option.some.injEq] at h
      rw [← h.2]

/-! ## What the looper selects -/

/-- The front of a scheduled queue is due when it is selected, and nothing is due before it. -/
theorem selected_due {s t : Looper} {ms : List Message} {ret : Int} {m : Message}
    (hs : Scheduled s ms) (hnow : 0 ≤ s.now) (h : step s (.look ret) = some t)
    (hm : t.pc = .handling m ret) : m.runAt ≤ s.now ∧ ∀ m' ∈ ms, m.runAt ≤ m'.runAt := by
  simp only [step, Option.ite_none_right_eq_some, Option.some.injEq] at h
  obtain ⟨_, rfl⟩ := h
  have hlook : (s.look ret).inFlight = some m := by
    show (LoopPc.inFlight { s with pc := s.look ret }.pc) = some m
    rw [hm]
    rfl
  obtain ⟨_, ⟨q, hq⟩, _, hdue⟩ := look_inFlight hlook
  constructor
  · omega
  · intro m' hm'
    rw [hs.queue] at hq
    obtain ⟨ms', rfl⟩ : ∃ ms', ms = m :: ms' := by
      cases ms with
      | nil => cases hq
      | cons a ms' =>
          simp only [List.map_cons, List.cons.injEq, Option.some.injEq] at hq
          exact ⟨ms', by rw [hq.1]⟩
    rcases List.mem_cons.mp hm' with rfl | hmem
    · exact le_refl _
    · cases (List.pairwise_cons.mp hs.ordered).1 m' hmem with
      | inl h => exact h.le
      | inr h => exact h.1.le

end Looper

/-- Whatever the posts, their delays, the handlers' results and the interleaving: the queue is
ordered by `run_at` and then by post, and a message that is selected is due and has the smallest
`run_at` of the queue. -/
theorem timedDispatch (now : Nat) {as : List LooperAct} {s : Looper} (has : ∀ a ∈ as, a.Timed)
    (h : exec Looper.step (Looper.init now) as = some s) :
    ∃ ms : List Message, s.queue = ms.map some ∧
      ms.Pairwise (Precedes Message.runAt Message.id) ∧
      ∀ ret t m, s.step (.look ret) = some t → t.pc = .handling m ret →
        m.runAt ≤ s.now ∧ ∀ m' ∈ ms, m.runAt ≤ m'.runAt := by
  have hinv : (∃ ms, Scheduled s ms) ∧ 0 ≤ s.now := by
    refine exec_invariant (P := fun s => (∃ ms, Scheduled s ms) ∧ 0 ≤ s.now) ?_ has ?_ h
    · rintro s a t ha ⟨⟨ms, hs⟩, hnow⟩ hstep
      exact ⟨Looper.scheduled_step ha hs hstep, hnow.trans (Looper.timed_step_now ha hstep)⟩
    · exact ⟨⟨[], Looper.scheduled_init now⟩, Int.natCast_nonneg now⟩
  obtain ⟨⟨ms, hs⟩, hnow⟩ := hinv
  refine ⟨ms, hs.queue, hs.ordered, ?_⟩
  intro ret t m ht hm
  exact Looper.selected_due hs hnow ht hm

/-- The second post runs first. -/
theorem timedDispatch_twoPosts :
    exec Looper.step (Looper.init 0) [.post 7, .post 3, .tick 3] =
      some ⟨true, [some ⟨1, 3⟩, some ⟨0, 7⟩], .top, .notStarted, 3, 2⟩ ∧
    ∃ ms : List Message, [some ⟨1, 3⟩, some ⟨0, 7⟩] = ms.map some ∧
      ms.Pairwise (Precedes Message.runAt Message.id) ∧
      ∀ ret t m, Looper.step ⟨true, [some ⟨1, 3⟩, some ⟨0, 7⟩], .top, .notStarted, 3, 2⟩
          (.look ret) = some t →
        t.pc = .handling m ret → m.runAt ≤ 3 ∧ ∀ m' ∈ ms, m.runAt ≤ m'.runAt :=
  ⟨rfl, @timedDispatch 0 [.post 7, .post 3, .tick 3] _ (by simp [LooperAct.Timed]) rfl⟩

end DirectMedia
