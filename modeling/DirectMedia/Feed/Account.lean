import DirectMedia.Feed.Line

set_option autoImplicit false

/-! # The account of frames and messages

`feedData` queues a frame and appends a message that does not name it. The log tells how many of
each a thread has brought: `Owes` states the account of one thread, and `ensures_feedData` that a
client keeps it, whatever the other threads do. Summed up over the threads there are never more
messages than frames.
-/

namespace DirectMedia

open Prog

/-! ## Pushes and appended messages -/

/-- The event is the push of a frame of the stream. -/
def Event.isPush (i : StreamType) (e : Event) : Bool := (Stage.pushed.frame i e).isSome

/-- The event is the append of a message for the stream. -/
def Event.isAppend (i : StreamType) : Event → Bool
  | .appended j => decide (j = i)
  | _ => false

theorem Event.isTransfer_of_isPush {i : StreamType} {e : Event} (h : e.isPush i = true) :
    e.isTransfer = true := by
  cases e <;> first | rfl | cases h

theorem Event.isTransfer_of_isAppend {i : StreamType} {e : Event} (h : e.isAppend i = true) :
    e.isTransfer = true := by
  cases e <;> first | rfl | cases h

/-- The frames of the stream that the thread has pushed, and the messages it has appended. -/
def pushes (w : FeedWorld) (t : Thread) (i : StreamType) : Nat := w.count t (·.isPush i)

def appends (w : FeedWorld) (t : Thread) (i : StreamType) : Nat := w.count t (·.isAppend i)

/-- The thread has appended a message for every frame it has pushed, but for one frame of the stream
`owed`, if there is one. -/
def Owes (t : Thread) (owed : Option StreamType) (w : FeedWorld) : Prop :=
  ∀ i, pushes w t i = appends w t i + if owed = some i then 1 else 0

theorem Owes.le {t : Thread} {owed : Option StreamType} {w : FeedWorld} (h : Owes t owed w)
    (i : StreamType) : appends w t i ≤ pushes w t i := by
  rw [h i]
  exact Nat.le_add_right _ _

theorem Owes.congr {t : Thread} {owed : Option StreamType} {w v : FeedWorld} (h : Owes t owed w)
    (hv : v.events t = w.events t) : Owes t owed v := by
  intro i
  rw [pushes, appends, World.count, World.count, hv]
  exact h i

/-- The number of messages that were appended for the stream. -/
def appended (w : FeedWorld) (i : StreamType) : Nat := w.total (·.isAppend i)

theorem length_pushed (w : FeedWorld) (i : StreamType) :
    (passed w i .pushed).length = w.total (·.isPush i) :=
  List.length_filterMap_eq_countP

theorem appended_le {w : FeedWorld} {i : StreamType} (h : ∀ t, appends w t i ≤ pushes w t i) :
    appended w i ≤ (passed w i .pushed).length := by
  rw [length_pushed]
  exact World.total_le h

theorem appended_eq {w : FeedWorld} (h : ∀ t, Owes t none w) (i : StreamType) :
    appended w i = (passed w i .pushed).length := by
  refine le_antisymm (appended_le fun t => (h t).le i) ?_
  rw [length_pushed]
  exact World.total_le fun t => (h t i).le

/-! A step that transfers nothing changes none of this. -/

section Transfers

variable {w v : FeedWorld}

theorem total_transfers {p : Event → Bool} (hp : ∀ e, p e = true → e.isTransfer = true)
    (w : FeedWorld) : w.total p = (transfers w).countP fun x => p x.2 := by
  rw [World.total, transfers, List.countP_filter]
  refine List.countP_congr fun x _ => ?_
  simpa using hp x.2

theorem count_transfers {p : Event → Bool} (hp : ∀ e, p e = true → e.isTransfer = true)
    (w : FeedWorld) (t : Thread) :
    w.count t p = (transfers w).countP fun x => decide (x.1 = t) && p x.2 := by
  rw [World.count, World.events, List.countP_filterMap, transfers, List.countP_filter]
  refine List.countP_congr fun x _ => ?_
  by_cases ht : x.1 = t
  · simpa [ht] using hp x.2
  · simp [ht]

theorem appended_of_transfers (h : transfers v = transfers w) (i : StreamType) :
    appended v i = appended w i := by
  have hp : ∀ e : Event, e.isAppend i = true → e.isTransfer = true :=
    fun _ => Event.isTransfer_of_isAppend
  calc appended v i
      = (transfers v).countP (fun x => x.2.isAppend i) := total_transfers hp v
    _ = (transfers w).countP (fun x => x.2.isAppend i) := by rw [h]
    _ = appended w i := (total_transfers hp w).symm

theorem Owes.of_transfers {t : Thread} {owed : Option StreamType} (hw : Owes t owed w)
    (h : transfers v = transfers w) : Owes t owed v := by
  intro i
  have hpush : ∀ e : Event, e.isPush i = true → e.isTransfer = true :=
    fun _ => Event.isTransfer_of_isPush
  have happend : ∀ e : Event, e.isAppend i = true → e.isTransfer = true :=
    fun _ => Event.isTransfer_of_isAppend
  have := hw i
  rw [pushes, appends, count_transfers hpush, count_transfers happend] at this ⊢
  rw [h]
  exact this

theorem pushed_transfers (w : FeedWorld) (i : StreamType) :
    passed w i .pushed = (transfers w).filterMap fun x => Stage.pushed.frame i x.2 := by
  rw [passed, transfers, List.filterMap_filter]
  refine List.filterMap_congr fun x _ => ?_
  cases hx : Stage.pushed.frame i x.2 with
  | none => simp
  | some f => simp [Event.isTransfer_of_isPush (by rw [Event.isPush, hx]; rfl)]

theorem pushed_of_transfers (h : transfers v = transfers w) (i : StreamType) :
    passed v i .pushed = passed w i .pushed := by
  rw [pushed_transfers, pushed_transfers, h]

end Transfers

/-! ## feedData -/

/-- What a client thread relies on: nobody else shows events in its name. -/
def ClientRely (n : Nat) (w v : FeedWorld) : Prop := v.events (.client n) = w.events (.client n)

theorem clientRely_refl (n : Nat) (w : FeedWorld) : ClientRely n w w := rfl

/-- The actions of `feedData`. -/
inductive FeedDataAction (size : Nat) : Action → Prop
  | silent {a : Action} (h : Silent a) : FeedDataAction size a
  | push {b : StreamBuffer} (h : Fits size b) : FeedDataAction size (pushAction b)
  | append (i : StreamType) : FeedDataAction size (appendAction i)

/-- What a client thread does. -/
structure ClientGuar (size n : Nat) (w v : FeedWorld) : Prop where
  le : ∀ i, appends v (.client n) i ≤ pushes v (.client n) i
  action : ∃ a, FeedDataAction size a ∧ v = w.after (.client n) a

section FeedData

variable {size n : Nat} {w : FeedWorld}

theorem count_after (w : FeedWorld) (t : Thread) (a : Action) (p : Event → Bool) :
    (w.after t a).count t p = w.count t p + ((a w.state).1.toList).countP p := by
  rw [World.count, World.events_after_self, List.countP_append, World.count]

theorem Silent.owes {a : Action} (h : Silent a) {t : Thread} {owed : Option StreamType}
    (hw : Owes t owed w) : Owes t owed (w.after t a) :=
  hw.of_transfers (h.apart t).transfers

theorem silent_loadedRead : Silent fun s => (some (.loadedRead s.loaded), s) := by
  refine fun s => ⟨rfl, fun e he => ?_⟩
  cases he
  exact ⟨rfl, fun st _ => by cases st <;> rfl⟩

/-- A push leaves the client with a message to append. -/
theorem Owes.push {t : Thread} (h : Owes t none w) (b : StreamBuffer) :
    Owes t (some b.streamType) (w.after t (pushAction b)) := by
  intro i
  have hpush : (pushAction b w.state).1.toList.countP (·.isPush i) =
      if some b.streamType = some i then 1 else 0 := by
    by_cases hb : b.streamType = i <;> simp [pushAction, Event.isPush, Stage.frame, hb]
  have happend : (pushAction b w.state).1.toList.countP (·.isAppend i) = 0 := rfl
  calc pushes (w.after t (pushAction b)) t i
      = pushes w t i + if some b.streamType = some i then 1 else 0 := by
        rw [pushes, count_after, hpush, pushes]
    _ = appends w t i + if some b.streamType = some i then 1 else 0 := by
        rw [h i, if_neg (by simp), Nat.add_zero]
    _ = appends (w.after t (pushAction b)) t i + if some b.streamType = some i then 1 else 0 := by
        rw [appends, appends, count_after, happend, Nat.add_zero]

theorem Owes.append {t : Thread} {i : StreamType} (h : Owes t (some i) w) :
    Owes t none (w.after t (appendAction i)) := by
  intro j
  have hpush : (appendAction i w.state).1.toList.countP (·.isPush j) = 0 := rfl
  have happend : (appendAction i w.state).1.toList.countP (·.isAppend j) =
      if some i = some j then 1 else 0 := by
    by_cases hj : i = j <;> simp [appendAction, Event.isAppend, hj]
  calc pushes (w.after t (appendAction i)) t j
      = pushes w t j := by rw [pushes, count_after, hpush, pushes, Nat.add_zero]
    _ = appends w t j + if some i = some j then 1 else 0 := h j
    _ = appends (w.after t (appendAction i)) t j := by
        rw [appends, appends, count_after, happend]

/-- An action of `feedData` that keeps the account. -/
theorem Owes.guar {owed : Option StreamType} {a : Action} (ha : FeedDataAction size a)
    (h : Owes (.client n) owed (w.after (.client n) a)) :
    ClientGuar size n w (w.after (.client n) a) :=
  ⟨h.le, a, ha, rfl⟩

variable {α : Type} {owed : Option StreamType} {Q : α → FeedWorld → Prop}

/-- A silent action between two others. -/
theorem Owes.silent_bind {β : Type} {a : Action} (ha : Silent a) {k : Esplayer → Op β}
    {g : β → Op α} (h : Owes (.client n) owed w)
    (hk : ∀ s v, Owes (.client n) owed v →
      Ensures (.client n) (ClientRely n) (ClientGuar size n) Q (k s >>= g) v) :
    Ensures (.client n) (ClientRely n) (ClientGuar size n) Q (act a k >>= g) w := by
  intro v hv
  have hafter := ha.owes (h.congr hv)
  exact ⟨hafter.guar (.silent ha), hk _ _ hafter⟩

theorem Owes.ensures_pure {a : α} (h : Owes (.client n) owed w) :
    Ensures (.client n) (ClientRely n) (ClientGuar size n) (fun _ => Owes (.client n) owed)
      (pure a : Op α) w :=
  fun _ hv => h.congr hv

theorem ensures_lockUnlessPlaying (h : Owes (.client n) owed w) :
    Ensures (.client n) (ClientRely n) (ClientGuar size n) (fun _ => Owes (.client n) owed)
      lockUnlessPlaying w := by
  refine h.silent_bind (silent_of_readOnly readOnly_read) fun s v hv => ?_
  change Ensures _ _ _ _ (onlyIf (s.status ≠ .playing) do lock; unlock) v
  have hdone : Ensures (.client n) (ClientRely n) (ClientGuar size n)
      (fun _ => Owes (.client n) owed) (pure () : Op Unit) v := hv.ensures_pure
  exact Ensures.ite (fun _ => hdone) fun _ => hdone

theorem ensures_feedAdmitted {b : StreamBuffer} (hb : Fits size b) (h : Owes (.client n) none w) :
    Ensures (.client n) (ClientRely n) (ClientGuar size n) (fun _ => Owes (.client n) none)
      (feedAdmitted b) w := by
  refine Ensures.bind (clientRely_refl n) (ensures_lockUnlessPlaying h) fun _ v hv => ?_
  intro u hu
  have hpush := (hv.congr hu).push b
  refine ⟨hpush.guar (.push hb), fun u' hu' => ?_⟩
  have happend := (hpush.congr hu').append
  exact ⟨happend.guar (.append _), happend.ensures_pure⟩

/-- **The account of a client.** Whatever the others do, `feedData` appends one message after it
has pushed a frame, or does neither. -/
theorem ensures_feedData {buff : Option StreamBuffer} (hb : ∀ b, buff = some b → Fits size b)
    (h : Owes (.client n) none w) :
    Ensures (.client n) (ClientRely n) (ClientGuar size n) (fun _ => Owes (.client n) none)
      (feedData buff) w := by
  cases buff with
  | none => exact h.ensures_pure
  | some b =>
      refine Ensures.ite (fun _ => h.ensures_pure) fun _ => ?_
      refine h.silent_bind silent_loadedRead fun _ v hv => ?_
      refine hv.silent_bind (silent_of_readOnly readOnly_read) fun _ v hv => ?_
      refine hv.silent_bind (silent_of_readOnly readOnly_read) fun _ v hv => ?_
      refine hv.silent_bind (silent_of_readOnly readOnly_read) fun _ v hv => ?_
      exact Ensures.ite (fun _ => hv.ensures_pure) fun _ => ensures_feedAdmitted (hb b rfl) hv

end FeedData

end DirectMedia
