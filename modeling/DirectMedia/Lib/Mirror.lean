import DirectMedia.Lib.Lts

set_option autoImplicit false

/-! # A register written by commands, and a copy of it

A register is written by commands that are carried out later, in the order they were sent. Each one
that has been carried out is reported later still, in the same order, and a report updates a copy
of the register. The copy lags behind, and need not have started with the value of the register.

From the first command that is carried out on, the copy follows: with the reports under way it has
the value of the register (`follows_iff`). Who sends a value and sees it in the copy knows that the
register has it, if no other value was sent in between and a stale one cannot be seen
(`Settles.value_of_copy`).
-/

namespace Mirror

/-- The register, the commands that are not carried out and the reports that are not delivered,
oldest first. -/
structure Link (α : Type) where
  value : α
  queued : List α := []
  done : List α := []
  deriving DecidableEq, Repr

variable {α : Type}

namespace Link

/-- A command is accepted. -/
def send (l : Link α) (a : α) : Link α := { l with queued := l.queued ++ [a] }

/-- The oldest command is carried out. -/
def carryOut (l : Link α) : Option (Link α) :=
  match l.queued with
  | a :: rest => some { value := a, queued := rest, done := l.done ++ [a] }
  | [] => none

/-- The oldest report is taken. -/
def takeReport (l : Link α) : Option (α × Link α) :=
  match l.done with
  | a :: rest => some (a, { l with done := rest })
  | [] => none

/-- What has been sent and not been reported. -/
def underWay (l : Link α) : List α := l.done ++ l.queued

end Link

/-- A register and its copy. -/
structure State (α : Type) where
  link : Link α
  copy : α
  deriving DecidableEq, Repr

inductive Act (α : Type) where
  | send (a : α)
  | carryOut
  | report
  deriving DecidableEq, Repr

/-- The value that is sent, if any. -/
def Act.sent : Act α → Option α
  | .send a => some a
  | _ => none

/-- One step. -/
def step (x : State α) : Act α → Option (State α)
  | .send a => some { x with link := x.link.send a }
  | .carryOut => x.link.carryOut.map fun link => { x with link := link }
  | .report => x.link.takeReport.map fun r => ⟨r.2, r.1⟩

/-! ## Following -/

/-- With the reports under way the copy has the value of the register. -/
def State.Follows (x : State α) : Prop := x.link.done.getLastD x.copy = x.link.value

theorem carryOut_cases {l l' : Link α} (h : l.carryOut = some l') :
    ∃ a rest, l.queued = a :: rest ∧
      l' = { value := a, queued := rest, done := l.done ++ [a] } := by
  unfold Link.carryOut at h
  split at h
  case h_1 a rest hq => exact ⟨a, rest, hq, (Option.some.inj h).symm⟩
  case h_2 => cases h

theorem takeReport_cases {l : Link α} {r : α × Link α} (h : l.takeReport = some r) :
    ∃ rest, l.done = r.1 :: rest ∧ r.2 = { l with done := rest } := by
  unfold Link.takeReport at h
  split at h
  case h_1 a rest hd =>
    obtain rfl := Option.some.inj h
    exact ⟨rest, hd, rfl⟩
  case h_2 => cases h

/-- Carrying out a command makes the copy follow, and nothing else changes whether it does. -/
theorem step_follows {x y : State α} {a : Act α} (h : step x a = some y) :
    y.Follows ↔ a = .carryOut ∨ x.Follows := by
  cases a with
  | send b =>
      obtain rfl := Option.some.inj h
      simp [State.Follows, Link.send]
  | carryOut =>
      obtain ⟨l, hl, rfl⟩ := Option.map_eq_some_iff.mp h
      obtain ⟨b, rest, -, rfl⟩ := carryOut_cases hl
      simp [State.Follows]
  | report =>
      obtain ⟨r, hr, rfl⟩ := Option.map_eq_some_iff.mp h
      obtain ⟨rest, hdone, hlink⟩ := takeReport_cases hr
      simp [State.Follows, hlink, hdone, List.getLast?_cons]

/-- **The copy follows from the first command that is carried out**, and not before if it did not
at the start. -/
theorem follows_iff {as : List (Act α)} :
    ∀ {x y : State α}, Lts.exec step x as = some y →
      (y.Follows ↔ .carryOut ∈ as ∨ x.Follows) := by
  induction as with
  | nil =>
      intro x y h
      obtain rfl := Option.some.inj h
      simp
  | cons a as ih =>
      intro x y h
      obtain ⟨z, hz, hy⟩ := Lts.exec_cons_iff.mp h
      rw [ih hy, step_follows hz, List.mem_cons, eq_comm (a := a)]
      exact ⟨fun h => by rcases h with h | h | h <;> simp [h],
        fun h => by rcases h with (h | h) | h <;> simp [h]⟩

/-! ## Waiting for a value -/

/-- Under way are other values first, which the copy still has to see, and then only `b`. -/
def Settles (b : α) (x : State α) : Prop :=
  ∃ others m, x.link.underWay = others ++ List.replicate m b ∧ b ∉ others ∧
    (others ≠ [] → x.copy ≠ b)

/-- Nothing under way. -/
theorem settles_of_quiet {b : α} {x : State α} (h : x.link.underWay = []) : Settles b x :=
  ⟨[], 0, by simp [h], by simp, fun h => absurd rfl h⟩

/-- A step that sends nothing else than `b` keeps the values under way settled. -/
theorem Settles.step {b : α} {x y : State α} {a : Act α} (hx : Settles b x)
    (ha : ∀ c, a = .send c → c = b) (h : step x a = some y) : Settles b y := by
  obtain ⟨others, m, hway, hothers, hcopy⟩ := hx
  cases a with
  | send c =>
      obtain rfl := ha c rfl
      obtain rfl := Option.some.inj h
      refine ⟨others, m + 1, ?_, hothers, hcopy⟩
      simp only [Link.underWay, Link.send] at hway ⊢
      rw [← List.append_assoc, hway, List.append_assoc, List.replicate_succ']
  | carryOut =>
      obtain ⟨l, hl, rfl⟩ := Option.map_eq_some_iff.mp h
      obtain ⟨c, rest, hqueued, rfl⟩ := carryOut_cases hl
      refine ⟨others, m, ?_, hothers, hcopy⟩
      simpa [Link.underWay, hqueued] using hway
  | report =>
      obtain ⟨⟨c, l⟩, hr, rfl⟩ := Option.map_eq_some_iff.mp h
      obtain ⟨rest, hdone, rfl⟩ := takeReport_cases hr
      simp only at hdone
      rw [Link.underWay, hdone, List.cons_append] at hway
      cases others with
      | nil =>
          cases m with
          | zero => simp at hway
          | succ m =>
              rw [List.nil_append, List.replicate_succ] at hway
              exact ⟨[], m, (List.cons.inj hway).2, by simp, fun h => absurd rfl h⟩
      | cons d others =>
          obtain ⟨rfl, hrest⟩ := List.cons.inj hway
          refine ⟨others, m, hrest, fun hb => hothers (List.mem_cons_of_mem _ hb), fun _ => ?_⟩
          rintro rfl
          exact hothers List.mem_cons_self

/-- The register has the value `b`, the copy too, and nothing else is under way. -/
structure Agreed (b : α) (x : State α) : Prop where
  value : x.link.value = b
  copy : x.copy = b
  underWay : ∀ c ∈ x.link.underWay, c = b

/-- A value that is seen in the copy is that of the register. -/
theorem Settles.value_of_copy {b : α} {x : State α} (h : Settles b x) (hfollows : x.Follows)
    (hcopy : x.copy = b) : Agreed b x := by
  obtain ⟨others, m, hway, -, hseen⟩ := h
  have hnone : others = [] := by
    by_contra hne
    exact hseen hne hcopy
  have hall : ∀ c ∈ x.link.underWay, c = b := by
    intro c hc
    rw [hway, hnone, List.nil_append] at hc
    exact List.eq_of_mem_replicate hc
  refine ⟨?_, hcopy, hall⟩
  rw [← hfollows]
  cases hlast : x.link.done.getLast? with
  | none => rw [List.getLastD_eq_getLast?, hlast, Option.getD_none, hcopy]
  | some c =>
      rw [List.getLastD_eq_getLast?, hlast, Option.getD_some]
      exact hall c (List.mem_append_left _ (List.mem_of_getLast? hlast))

/-- And stays so until another value is sent. -/
theorem Agreed.step {b : α} {x y : State α} {a : Act α} (hx : Agreed b x)
    (ha : ∀ c, a = .send c → c = b) (h : step x a = some y) : Agreed b y := by
  obtain ⟨hvalue, hcopy, hall⟩ := hx
  cases a with
  | send c =>
      obtain rfl := ha c rfl
      obtain rfl := Option.some.inj h
      refine ⟨hvalue, hcopy, fun d hd => ?_⟩
      simp only [Link.underWay, Link.send, ← List.append_assoc] at hd
      rcases List.mem_append.mp hd with hd | hd
      · exact hall d hd
      · simpa using hd
  | carryOut =>
      obtain ⟨l, hl, rfl⟩ := Option.map_eq_some_iff.mp h
      obtain ⟨c, rest, hqueued, rfl⟩ := carryOut_cases hl
      exact ⟨hall c (by simp [Link.underWay, hqueued]), hcopy,
        fun d hd => hall d (by simpa [Link.underWay, hqueued] using hd)⟩
  | report =>
      obtain ⟨⟨c, l⟩, hr, rfl⟩ := Option.map_eq_some_iff.mp h
      obtain ⟨rest, hdone, rfl⟩ := takeReport_cases hr
      simp only at hdone
      exact ⟨hvalue, hall c (by simp [Link.underWay, hdone]), fun d hd => hall d <| by
        simp only [Link.underWay, hdone, List.cons_append]
        exact List.mem_cons_of_mem _ hd⟩

/-- The values that are seen are those of the register: while `b` is what is sent, a copy that
follows and is settled stays so, and one that agrees does too. -/
theorem runs_settled {b : α} {as : List (Act α)} (has : ∀ c ∈ as.filterMap Act.sent, c = b)
    {x y : State α} (h : Lts.exec step x as = some y) :
    (x.Follows ∧ Settles b x → y.Follows ∧ Settles b y) ∧ (Agreed b x → Agreed b y) := by
  have hsent : ∀ a ∈ as, ∀ c, a = .send c → c = b := by
    rintro a ha c rfl
    exact has c (List.mem_filterMap.mpr ⟨_, ha, rfl⟩)
  constructor
  · exact fun hx => Lts.exec_invariant (P := fun x => x.Follows ∧ Settles b x)
      (fun _ _ _ ha hx hstep => ⟨(step_follows hstep).mpr (.inr hx.1), hx.2.step ha hstep⟩)
      hsent hx h
  · exact fun hx => Lts.exec_invariant (fun _ _ _ ha hx hstep => Agreed.step hx ha hstep) hsent hx h

end Mirror
