import DirectMedia.Message.Looper
import Mathlib.Data.List.Nodup
import Mathlib.Data.List.Perm.Basic

set_option autoImplicit false

/-! # Which entry the looper pops

The front entry is popped by position after the handler has run unlocked, so the entry popped is
the message handled only if the queue calls made meanwhile leave that message in front, or leave
the queue empty (the case the code guards). `Undisturbed` is that condition on the calls. The
runs in which every pop is made undisturbed are exactly the runs in which the looper pops what it
has just handled, and then no message is handled successfully twice.
-/

namespace DirectMedia

/-- No call since its selection can have displaced the message `m` from the front. The latest
call comes first. -/
def Late (m : Message) (during : List QueueCall) : Prop :=
  .clearAll ∉ during ∧ ∀ e, .post e ∈ during → m.runAt ≤ e.runAt

/-- Either no call has displaced `m`, or the last call was `clearAll`. -/
def Undisturbed (m : Message) (during : List QueueCall) : Prop :=
  during.head? = some .clearAll ∨ Late m during

/-- What the calls made since `m` was selected leave at the front of the queue. -/
structure Held (m : Message) (during : List QueueCall) (q : List Entry) : Prop where
  front : Late m during → q.head? = some (some m)
  overtaken : .clearAll ∉ during → ¬ Late m during → ∃ e r, q = e :: r ∧ e ≠ some m
  cleared : .clearAll ∈ during → some m ∉ q ∧ (q = [] ↔ during.head? = some .clearAll)

theorem late_nil (m : Message) : Late m [] := ⟨by simp, by simp⟩

theorem late_append_iff {m : Message} {e : Entry} {during : List QueueCall} :
    Late m (.append e :: during) ↔ Late m during := by
  simp [Late]

theorem late_post_iff {m : Message} {e : Entry} {during : List QueueCall} :
    Late m (.post e :: during) ↔ m.runAt ≤ e.runAt ∧ Late m during := by
  simp only [Late, List.mem_cons, reduceCtorEq, false_or, QueueCall.post.injEq, forall_eq_or_imp]
  tauto

theorem held_selected (m : Message) (q : List Entry) : Held m [] (some m :: q) where
  front := fun _ => rfl
  overtaken := fun _ h => absurd (late_nil m) h
  cleared := fun h => by simp at h

theorem Held.append {m : Message} {e : Entry} {during : List QueueCall} {q : List Entry}
    (h : Held m during q) (he : e ≠ some m) : Held m (.append e :: during) (q ++ [e]) where
  front := by
    intro hl
    simp [h.front (late_append_iff.mp hl)]
  overtaken := by
    intro hc hl
    obtain ⟨x, r, rfl, hx⟩ :=
      h.overtaken (fun hd => hc (by simp [hd])) (fun hd => hl (late_append_iff.mpr hd))
    exact ⟨x, r ++ [e], rfl, hx⟩
  cleared := by
    intro hc
    have hm := (h.cleared (by simpa using hc)).1
    exact ⟨by simp [hm, he.symm], by simp⟩

theorem Held.post {m : Message} {e : Entry} {during : List QueueCall} {q q' : List Entry}
    (h : Held m during q) (he : e ≠ some m) (hq : insertEntry e q = some q') :
    Held m (.post e :: during) q' where
  front := by
    intro hl
    obtain ⟨hle, hl⟩ := late_post_iff.mp hl
    obtain ⟨r, rfl⟩ : ∃ r, q = some m :: r := List.head?_eq_some_iff.mp (h.front hl)
    rcases insertEntry_cons hq with ⟨_, hhead⟩ | ⟨hlt, _⟩
    · exact hhead
    · exact absurd hlt (Int.not_lt.mpr hle)
  overtaken := by
    intro hc hnl
    have hc : .clearAll ∉ during := fun hd => hc (by simp [hd])
    by_cases hl : Late m during
    · -- `m` is still in front and `e` runs before it
      obtain ⟨r, rfl⟩ : ∃ r, q = some m :: r := List.head?_eq_some_iff.mp (h.front hl)
      rcases insertEntry_cons hq with ⟨hle, _⟩ | ⟨_, rfl⟩
      · exact absurd (late_post_iff.mpr ⟨hle, hl⟩) hnl
      · exact ⟨e, _, rfl, he⟩
    · obtain ⟨x, r, rfl, hx⟩ := h.overtaken hc hl
      rcases insertEntry_cons hq with ⟨_, hhead⟩ | ⟨_, rfl⟩
      · obtain ⟨r', rfl⟩ := List.head?_eq_some_iff.mp hhead
        exact ⟨x, r', rfl, hx⟩
      · exact ⟨e, _, rfl, he⟩
  cleared := by
    intro hc
    have hm := (h.cleared (by simpa using hc)).1
    have hp := insertEntry_perm hq
    refine ⟨fun hmem => ?_, fun hnil => ?_, fun hhead => by simp at hhead⟩
    · rcases List.mem_cons.mp (hp.subset hmem) with hme | hmq
      · exact he hme.symm
      · exact hm hmq
    · rw [hnil] at hp
      simp at hp

theorem Held.apply {m : Message} {c : QueueCall} {during : List QueueCall} {q q' : List Entry}
    (h : Held m during q) (hne : ∀ e, c = .post e ∨ c = .append e → e ≠ some m)
    (hq : c.apply q = some q') : Held m (c :: during) q' := by
  cases c with
  | post e => exact h.post (hne e (.inl rfl)) hq
  | append e =>
      simp only [QueueCall.apply, Option.some.injEq] at hq
      exact hq ▸ h.append (hne e (.inr rfl))
  | clearAll =>
      simp only [QueueCall.apply, Option.some.injEq] at hq
      refine ⟨fun hl => absurd hl.1 (by simp), fun hc => absurd hc (by simp), fun _ => ?_⟩
      simp [← hq]

/-- The front entry, if there is one, is the message held exactly when its calls left it
undisturbed. -/
theorem Held.undisturbed_iff {m : Message} {during : List QueueCall} {q : List Entry}
    (h : Held m during q) : Undisturbed m during ↔ ∀ e, q.head? = some e → e = some m := by
  by_cases hc : .clearAll ∈ during
  · obtain ⟨hm, hnil⟩ := h.cleared hc
    have hl : ¬ Late m during := fun hl => hl.1 hc
    simp only [Undisturbed, hl, or_false, ← hnil]
    constructor
    · rintro rfl e he
      simp at he
    · intro hall
      cases q with
      | nil => rfl
      | cons e r => exact absurd (by simp [hall e rfl]) hm
  · have hhead : during.head? ≠ some .clearAll := fun hd => hc (List.mem_of_head? hd)
    simp only [Undisturbed, hhead, false_or]
    constructor
    · intro hl e he
      rw [h.front hl, Option.some.injEq] at he
      exact he.symm
    · intro hall
      by_contra hl
      obtain ⟨e, r, rfl, he⟩ := h.overtaken hc hl
      exact he (hall e rfl)

/-! ## Runs with a history -/

/-- What a run has done so far, latest first: the queue calls since the looper last looked at the
queue, the messages handled together with the entry popped for them, and the messages whose
handler returned `NDL_ESP_RESULT_SUCCESS`. -/
structure History where
  during : List QueueCall := []
  popped : List (Message × Entry) := []
  succeeded : List Message := []
  deriving DecidableEq, Repr

/-- The history after the step `a` from `s`. -/
def History.record (h : History) (s : Looper) (a : LooperAct) : History :=
  match a.queueCall s with
  | some c => { h with during := c :: h.during }
  | none =>
      match a, s.pc with
      | .look _, _ => { h with during := [] }
      | .handled, .handling m ret =>
          if ret = resultSuccess then { h with succeeded := m :: h.succeeded } else h
      | .popFront, .popping m =>
          match s.queue with
          | e :: _ => { h with popped := (m, e) :: h.popped }
          | [] => h
      | _, _ => h

/-- A step of the looper, recorded. -/
def stepRecorded (x : Looper × History) (a : LooperAct) : Option (Looper × History) :=
  (x.1.step a).map fun t => (t, x.2.record x.1 a)

/-- The looper pops what it has just handled; hence it pops no message whose handler has not
succeeded, and no handler succeeds twice. -/
structure PopsHandled (h : History) : Prop where
  exact : ∀ p ∈ h.popped, p.2 = some p.1
  handled : ∀ p ∈ h.popped, ∀ m, p.2 = some m → m ∈ h.succeeded
  once : h.succeeded.Nodup

/-- A pop is made only if the calls since the selection left the message undisturbed. -/
def PopUndisturbed (x : Looper × History) (a : LooperAct) : Prop :=
  ∀ m, a = .popFront → x.1.pc = .popping m → Undisturbed m x.2.during

theorem stepRecorded_eq {x y : Looper × History} {a : LooperAct} (h : stepRecorded x a = some y) :
    x.1.step a = some y.1 ∧ y.2 = x.2.record x.1 a := by
  simp only [stepRecorded, Option.map_eq_some_iff] at h
  obtain ⟨t, ht, rfl⟩ := h
  exact ⟨ht, rfl⟩

/-! ### What every run keeps -/

/-- The messages of the queue, without the quit message. -/
def messages (q : List Entry) : List Message := q.filterMap id

@[simp] theorem mem_messages {q : List Entry} {m : Message} : m ∈ messages q ↔ some m ∈ q := by
  simp [messages]

/-- Messages are distinct and older than the next call, and the calls since the selection of the
message in flight say what is in front. -/
structure Tracked (x : Looper × History) : Prop where
  distinct : (messages x.1.queue).Nodup
  older : ∀ m, some m ∈ x.1.queue → m.id < x.1.calls
  flight : ∀ m, x.1.pc.inFlight = some m → m.id < x.1.calls ∧ Held m x.2.during x.1.queue

theorem Tracked.init (now : Int) : Tracked (Looper.init now, {}) where
  distinct := by simp [Looper.init, messages]
  older := by simp [Looper.init]
  flight := by simp [Looper.init, LoopPc.inFlight]

theorem Tracked.step {x y : Looper × History} {a : LooperAct} (hx : Tracked x)
    (h : stepRecorded x a = some y) : Tracked y := by
  obtain ⟨s, hist⟩ := x
  obtain ⟨t, hist'⟩ := y
  obtain ⟨hstep, hrec⟩ := stepRecorded_eq h
  simp only at hstep hrec
  subst hrec
  cases Looper.effect hstep with
  | call c label queue calls pc =>
      -- a new message carries the number of its call, which no older one has
      have hid : ∀ e, c = .post e ∨ c = .append e → ∀ m, e = some m → m.id = s.calls := by
        intro e hc m he
        refine LooperAct.queueCall_fresh (s := s) (a := a) (e := e) ?_ he
        rcases hc with rfl | rfl
        · exact .inl label
        · exact .inr label
      have hheld : ∀ m, t.pc.inFlight = some m →
          m.id < t.calls ∧ Held m (hist.record s a).during t.queue := by
        intro m hm
        rw [pc] at hm
        obtain ⟨hlt, hheld⟩ := hx.flight m hm
        refine ⟨by rw [calls]; simp only at hlt; omega, ?_⟩
        simp only [History.record, label]
        refine hheld.apply ?_ queue
        rintro e hc rfl
        have := hid _ hc m rfl
        simp only at hlt
        omega
      -- a call clears the queue or puts one new entry into it
      rcases QueueCall.apply_cases queue with ⟨_, hnil⟩ | ⟨e, hc, hp⟩
      · exact ⟨by simp [hnil, messages], by simp [hnil], hheld⟩
      · have hp' : (messages t.queue).Perm (messages (e :: s.queue)) := hp.filterMap _
        refine ⟨hp'.nodup_iff.mpr ?_, ?_, hheld⟩
        · cases e with
          | none => exact hx.distinct
          | some m =>
              refine List.nodup_cons.mpr ⟨?_, hx.distinct⟩
              intro hm
              have := hx.older m (mem_messages.mp hm)
              have := hid _ hc m rfl
              simp only at *
              omega
        · intro m hm
          rcases List.mem_cons.mp (hp.subset hm) with he | hq
          · have := hid _ hc m he.symm
            simp only [calls]
            omega
          · have := hx.older m hq
            simp only [calls] at *
            omega
  | look ret label top eq =>
      subst label eq
      refine ⟨hx.distinct, hx.older, ?_⟩
      intro m hm
      obtain ⟨_, ⟨q, hq⟩, _, _⟩ := Looper.look_inFlight hm
      refine ⟨hx.older m (by simp [hq]), ?_⟩
      simp only [History.record, LooperAct.queueCall, hq]
      exact held_selected m q
  | handled m ret label handling eq =>
      subst label eq
      refine ⟨hx.distinct, hx.older, ?_⟩
      intro m' hm
      have hrec : (hist.record s .handled).during = hist.during := by
        simp only [History.record, LooperAct.queueCall, handling]
        split <;> rfl
      rw [hrec]
      refine hx.flight m' ?_
      by_cases hret : ret = resultSuccess
      · simpa [hret, handling] using hm
      · simp [hret, LoopPc.inFlight] at hm
  | popFront m label popping eq =>
      subst label eq
      refine ⟨hx.distinct.sublist ?_, fun m' hm => hx.older m' (List.mem_of_mem_tail hm), ?_⟩
      · exact (List.tail_sublist _).filterMap _
      · simp [LoopPc.inFlight]
  | other label look handled popFront queue calls pc =>
      -- the history is about queue calls and handlers only
      have hrec : hist.record s a = hist := by
        simp only [History.record, label]
        split <;> simp_all
      rw [hrec]
      refine ⟨by rw [queue]; exact hx.distinct, by rw [queue, calls]; exact hx.older, ?_⟩
      intro m hm
      rw [queue, calls]
      refine hx.flight m ?_
      rcases pc with hpc | ⟨_, hpc⟩
      · rwa [hpc] at hm
      · rw [hpc] at hm
        cases hm

/-! ### What a run keeps while its pops are undisturbed -/

/-- A message whose handler has succeeded has left the queue, unless it is just about to. -/
structure Exact (x : Looper × History) : Prop where
  tracked : Tracked x
  pops : PopsHandled x.2
  past : ∀ m ∈ x.2.succeeded, m.id < x.1.calls
  gone : ∀ m ∈ x.2.succeeded, some m ∈ x.1.queue → x.1.pc = .popping m
  running : ∀ m ret, x.1.pc = .handling m ret → m ∉ x.2.succeeded
  popping : ∀ m, x.1.pc = .popping m → m ∈ x.2.succeeded

theorem Exact.init (now : Int) : Exact (Looper.init now, {}) where
  tracked := Tracked.init now
  pops := ⟨by simp, by simp, by simp⟩
  past := by simp
  gone := by simp
  running := by simp
  popping := by simp [Looper.init]

theorem Exact.call {s t : Looper} {hist : History} {a : LooperAct} {c : QueueCall}
    (hx : Exact (s, hist)) (hy : Tracked (t, hist.record s a)) (label : a.queueCall s = some c)
    (queue : c.apply s.queue = some t.queue) (calls : t.calls = s.calls + 1) (pc : t.pc = s.pc) :
    Exact (t, hist.record s a) := by
  have hsucc : (hist.record s a).succeeded = hist.succeeded := by simp [History.record, label]
  have hpops : (hist.record s a).popped = hist.popped := by simp [History.record, label]
  refine ⟨hy, ⟨?_, ?_, ?_⟩, ?_, ?_, ?_, ?_⟩
  · rw [hpops]; exact hx.pops.exact
  · rw [hpops, hsucc]; exact hx.pops.handled
  · rw [hsucc]; exact hx.pops.once
  · intro m hm
    rw [hsucc] at hm
    have := hx.past m hm
    simp only [calls] at *
    omega
  · intro m hm hq
    rw [hsucc] at hm
    simp only [pc]
    rcases QueueCall.apply_cases queue with ⟨_, hnil⟩ | ⟨e, hc, hp⟩
    · simp [hnil] at hq
    · rcases List.mem_cons.mp (hp.subset hq) with he | hq
      · -- the new message is younger than every message that has succeeded
        have hlt := hx.past m hm
        have hid := LooperAct.queueCall_fresh (s := s) (a := a) (e := e) (m := m)
          (hc.imp (by rintro rfl; exact label) (by rintro rfl; exact label)) he.symm
        simp only at hlt
        omega
      · exact hx.gone m hm hq
  · intro m ret hpc
    rw [hsucc]
    exact hx.running m ret (pc ▸ hpc)
  · intro m hpc
    rw [hsucc]
    exact hx.popping m (pc ▸ hpc)

theorem Exact.look {s : Looper} {hist : History} {ret : Int} (hx : Exact (s, hist))
    (hy : Tracked ({ s with pc := s.look ret }, hist.record s (.look ret))) (top : s.pc = .top) :
    Exact ({ s with pc := s.look ret }, hist.record s (.look ret)) := by
  refine ⟨hy, ⟨hx.pops.exact, hx.pops.handled, hx.pops.once⟩, hx.past, ?_, ?_, ?_⟩
  · intro m hm hq
    have := hx.gone m hm hq
    simp [top] at this
  · intro m ret' hpc hm
    have hflight : (s.look ret).inFlight = some m := by
      rw [show s.look ret = .handling m ret' from hpc]; rfl
    obtain ⟨_, ⟨q, hq⟩, _, _⟩ := Looper.look_inFlight hflight
    have := hx.gone m hm (by simp [hq])
    simp [top] at this
  · intro m hpc
    have hflight : (s.look ret).inFlight = some m := by
      rw [show s.look ret = .popping m from hpc]; rfl
    obtain ⟨hpc', _, _, _⟩ := Looper.look_inFlight hflight
    rw [show s.look ret = .popping m from hpc] at hpc'
    cases hpc'

theorem Exact.handled {s : Looper} {hist : History} {m : Message} {ret : Int}
    (hx : Exact (s, hist)) (handling : s.pc = .handling m ret)
    (hy : Tracked ({ s with pc := if ret = resultSuccess then .popping m else .sleeping },
      hist.record s .handled)) :
    Exact ({ s with pc := if ret = resultSuccess then .popping m else .sleeping },
      hist.record s .handled) := by
  have hnew := hx.running m ret handling
  have hgone : ∀ m' ∈ hist.succeeded, some m' ∉ s.queue := by
    intro m' hm' hq
    have := hx.gone m' hm' hq
    simp [handling] at this
  by_cases hret : ret = resultSuccess
  · have hrec : hist.record s .handled = { hist with succeeded := m :: hist.succeeded } := by
      simp [History.record, LooperAct.queueCall, handling, hret]
    rw [hrec] at hy ⊢
    simp only [if_pos hret] at hy ⊢
    refine ⟨hy, ⟨hx.pops.exact, ?_, List.nodup_cons.mpr ⟨hnew, hx.pops.once⟩⟩, ?_, ?_, ?_, ?_⟩
    · intro p hp m' hm'
      exact List.mem_cons_of_mem _ (hx.pops.handled p hp m' hm')
    · intro m' hm'
      rcases List.mem_cons.mp hm' with rfl | hm'
      · exact (hx.tracked.flight m' (by simp [handling])).1
      · exact hx.past m' hm'
    · intro m' hm' hq
      rcases List.mem_cons.mp hm' with rfl | hm'
      · rfl
      · exact absurd hq (hgone m' hm')
    · intro m' ret' hpc
      cases hpc
    · intro m' hpc
      cases hpc
      simp
  · have hrec : hist.record s .handled = hist := by
      simp [History.record, LooperAct.queueCall, handling, hret]
    rw [hrec] at hy ⊢
    simp only [if_neg hret] at hy ⊢
    refine ⟨hy, hx.pops, hx.past, ?_, by simp, by simp⟩
    intro m' hm' hq
    exact absurd hq (hgone m' hm')

theorem Exact.popFront {s : Looper} {hist : History} {m : Message} (hx : Exact (s, hist))
    (popping : s.pc = .popping m) (hu : Undisturbed m hist.during)
    (hy : Tracked ({ s with queue := s.queue.tail, pc := .top }, hist.record s .popFront)) :
    Exact ({ s with queue := s.queue.tail, pc := .top }, hist.record s .popFront) := by
  have hheld := (hx.tracked.flight m (by simp [popping])).2
  have hfront := hheld.undisturbed_iff.mp hu
  have hsucc : (hist.record s .popFront).succeeded = hist.succeeded := by
    simp only [History.record, LooperAct.queueCall, popping]
    split <;> rfl
  have hpopped : ∀ p ∈ (hist.record s .popFront).popped, p ∈ hist.popped ∨ p = (m, some m) := by
    intro p hp
    simp only [History.record, LooperAct.queueCall, popping] at hp
    split at hp
    case h_1 e q hq =>
        rcases List.mem_cons.mp hp with rfl | hp
        · exact .inr (by rw [hfront e (by simp [hq])])
        · exact .inl hp
    case h_2 => exact .inl hp
  refine ⟨hy, ⟨?_, ?_, by rw [hsucc]; exact hx.pops.once⟩, by rw [hsucc]; exact hx.past, ?_,
    by simp, by simp⟩
  · intro p hp
    rcases hpopped p hp with hp | rfl
    · exact hx.pops.exact p hp
    · rfl
  · intro p hp m' hm'
    rw [hsucc]
    rcases hpopped p hp with hp | rfl
    · exact hx.pops.handled p hp m' hm'
    · cases hm'
      exact hx.popping m popping
  · -- the only message that was still queued after its success has just been popped
    intro m' hm' hq
    rw [hsucc] at hm'
    have hpc := hx.gone m' hm' (List.mem_of_mem_tail hq)
    simp only [popping, LoopPc.popping.injEq] at hpc
    subst hpc
    have hdist : (messages s.queue).Nodup := hx.tracked.distinct
    simp only at hq
    cases hs : s.queue with
    | nil => simp [hs] at hq
    | cons e q =>
        obtain rfl := hfront e (by simp [hs])
        rw [hs] at hq hdist
        exact absurd (mem_messages.mpr hq) (List.nodup_cons.mp hdist).1

theorem Exact.step {x y : Looper × History} {a : LooperAct} (hx : Exact x)
    (ha : PopUndisturbed x a) (h : stepRecorded x a = some y) : Exact y := by
  have hy := hx.tracked.step h
  obtain ⟨s, hist⟩ := x
  obtain ⟨t, hist'⟩ := y
  obtain ⟨hstep, hrec⟩ := stepRecorded_eq h
  simp only at hstep hrec
  subst hrec
  cases Looper.effect hstep with
  | call c label queue calls pc => exact hx.call hy label queue calls pc
  | look ret label top eq =>
      subst label eq
      exact hx.look hy top
  | handled m ret label handling eq =>
      subst label eq
      exact hx.handled handling hy
  | popFront m label popping eq =>
      subst label eq
      exact hx.popFront popping (ha m rfl popping) hy
  | other label look handled popFront queue calls pc =>
      have hrec : hist.record s a = hist := by
        simp only [History.record, label]
        split <;> simp_all
      rw [hrec] at hy ⊢
      refine ⟨hy, hx.pops, by rw [calls]; exact hx.past, ?_, ?_, ?_⟩
      · intro m hm hq
        have hpc := hx.gone m hm (queue ▸ hq)
        rcases pc with pc | ⟨hno, _⟩
        · exact pc.trans hpc
        · simp [show s.pc = .popping m from hpc] at hno
      · intro m ret hpc
        rcases pc with pc | ⟨_, htop⟩
        · exact hx.running m ret (pc ▸ hpc)
        · simp [htop] at hpc
      · intro m hpc
        rcases pc with pc | ⟨_, htop⟩
        · exact hx.popping m (pc ▸ hpc)
        · simp [htop] at hpc

/-! ### The exact condition -/

/-- A pop that does not remove the message handled, recorded for good. -/
def Mispopped (x : Looper × History) : Prop := ∃ p ∈ x.2.popped, p.2 ≠ some p.1

theorem mispopped_of_disturbed {x y : Looper × History} {a : LooperAct} (hx : Tracked x)
    (ha : ¬ PopUndisturbed x a) (h : stepRecorded x a = some y) : Mispopped y := by
  simp only [PopUndisturbed, not_forall] at ha
  obtain ⟨m, rfl, hpc, hu⟩ := ha
  obtain ⟨_, hrec⟩ := stepRecorded_eq h
  have hheld := (hx.flight m (by simp [hpc])).2
  rw [hheld.undisturbed_iff] at hu
  simp only [not_forall] at hu
  obtain ⟨e, he, hne⟩ := hu
  obtain ⟨q, hq⟩ := List.head?_eq_some_iff.mp he
  refine ⟨(m, e), ?_, hne⟩
  rw [hrec]
  simp [History.record, LooperAct.queueCall, hpc, hq]

theorem popped_record (h : History) (s : Looper) (a : LooperAct) :
    h.popped ⊆ (h.record s a).popped := by
  intro p hp
  simp only [History.record]
  split
  case h_1 => exact hp
  case h_2 =>
      split
      · exact hp
      · split <;> exact hp
      · split
        · exact List.mem_cons_of_mem _ hp
        · exact hp
      · exact hp

theorem Mispopped.step {x y : Looper × History} {a : LooperAct} (hx : Mispopped x)
    (h : stepRecorded x a = some y) : Mispopped y := by
  obtain ⟨p, hp, hne⟩ := hx
  refine ⟨p, ?_, hne⟩
  rw [(stepRecorded_eq h).2]
  exact popped_record _ _ _ hp

/-- **The looper pops what it has handled** in exactly the runs whose pops are all undisturbed:
since its selection no call has put an entry in front of the message handled and none has
cleared the queue, or the last call was a `clearAll`. -/
theorem popsHandled_iff (now : Int) (as : List LooperAct) (t : Looper × History)
    (ht : Lts.exec stepRecorded (Looper.init now, {}) as = some t) :
    PopsHandled t.2 ↔ Lts.Along stepRecorded PopUndisturbed (Looper.init now, {}) as := by
  constructor
  · intro hpops
    refine Lts.Along.of_unmarked (I := Tracked) (R := Mispopped) (fun x a y hx h => hx.step h)
      (fun x a y hx ha h => mispopped_of_disturbed hx ha h) (fun x a y hx h => hx.step h)
      (Tracked.init now) ht ?_
    rintro ⟨p, hp, hne⟩
    exact hne (hpops.exact p hp)
  · intro hun
    have hexact : Exact t :=
      Lts.Along.invariant (I := Exact) (fun x a y ha hx h => hx.step ha h) hun (Exact.init now) ht
    exact hexact.pops

/-- While the handler of message 0 runs, a message with an earlier time is posted. -/
def overtakingPost : List LooperAct :=
  [.post 5, .tick 5, .look resultSuccess, .post 1, .handled, .popFront]

/-- Message 1 is popped although its handler never ran, and message 0 stays queued. -/
theorem popsHandled_fails :
    ∃ as t, Lts.exec stepRecorded (Looper.init 0, {}) as = some t ∧ ¬ PopsHandled t.2 := by
  have hrun : Lts.exec stepRecorded (Looper.init 0, {}) overtakingPost =
      some (⟨true, [some ⟨0, 5⟩], .top, .notStarted, 5, 2⟩,
        ⟨[.post (some ⟨1, 1⟩)], [(⟨0, 5⟩, some ⟨1, 1⟩)], [⟨0, 5⟩]⟩) := by decide
  refine ⟨overtakingPost, _, hrun, ?_⟩
  intro h
  exact absurd (h.exact _ (List.mem_singleton.mpr rfl)) (by decide)

/-- One pop behind which a later message waits, and one that `clearAll` has left nothing to. -/
def clearedRun : List LooperAct :=
  [.post 5, .tick 5, .look resultSuccess, .post 7, .handled, .popFront,
    .tick 2, .look resultSuccess, .append 0, .handled, .clearAll, .popFront]

theorem popUndisturbed_clearedRun :
    Lts.Along stepRecorded PopUndisturbed (Looper.init 0, {}) clearedRun :=
  (popsHandled_iff 0 clearedRun (⟨true, [], .top, .notStarted, 7, 4⟩,
    ⟨[.clearAll, .append (some ⟨2, 0⟩)], [(⟨0, 5⟩, some ⟨0, 5⟩)], [⟨1, 7⟩, ⟨0, 5⟩]⟩)
    (by decide)).mp ⟨by decide, by simp, by decide⟩

end DirectMedia
