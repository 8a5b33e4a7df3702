import Mathlib.Algebra.Order.BigOperators.Group.List
import Mathlib.Algebra.Order.Ring.Int
import Mathlib.Data.List.Infix

set_option autoImplicit false

/-! # A ledger of grants and releases

What is granted has a name, and is released by its name; a release may fail. The same name may be
granted again. `outstanding` counts how often a name is out. A holder who keeps the name of one
grant at most is square with the ledger if it has only ever released what was out, and nothing is
out but the one it keeps (`Accounted`).
-/

namespace Ledger

variable {α : Type}

/-- An entry of the ledger. -/
inductive Entry (α : Type) where
  | granted (a : α)
  | released (a : α) (ok : Bool)
  deriving DecidableEq, Repr

variable [DecidableEq α]

def Entry.change (a : α) : Entry α → Int
  | .granted b => if b = a then 1 else 0
  | .released b ok => if b = a ∧ ok = true then -1 else 0

/-- How often `a` has been granted and not released. -/
def outstanding (log : List (Entry α)) (a : α) : Int := (log.map (Entry.change a)).sum

@[simp] theorem outstanding_nil (a : α) : outstanding [] a = 0 := rfl

@[simp] theorem outstanding_concat (log : List (Entry α)) (e : Entry α) (a : α) :
    outstanding (log ++ [e]) a = outstanding log a + e.change a := by
  simp [outstanding]

/-- Nothing is out. -/
def Settled (log : List (Entry α)) : Prop := ∀ a, outstanding log a = 0

/-- Every release was of something that was out. -/
def Owed (log : List (Entry α)) : Prop :=
  ∀ before a ok, before ++ [.released a ok] <+: log → 0 < outstanding before a

/-- Every release was of something that was out, and what is still out is out once, and kept. -/
structure Accounted (log : List (Entry α)) (kept : Option α) : Prop where
  owed : Owed log
  kept : ∀ a, .granted a ∈ log →
    outstanding log a = 0 ∨ kept = some a ∧ outstanding log a = 1

theorem owed_nil : Owed ([] : List (Entry α)) := by
  intro before a ok h
  simp at h

theorem owed_granted {log : List (Entry α)} {a : α} : Owed (log ++ [.granted a]) ↔ Owed log := by
  constructor
  · exact fun h before b ok hpre => h before b ok (hpre.trans (List.prefix_append _ _))
  · intro h before b ok hpre
    rcases List.prefix_concat_iff.mp hpre with heq | hpre
    · have hlast := (List.append_inj_right' heq rfl)
      cases hlast
    · exact h before b ok hpre

theorem owed_released {log : List (Entry α)} {a : α} {ok : Bool} :
    Owed (log ++ [.released a ok]) ↔ Owed log ∧ 0 < outstanding log a := by
  constructor
  · exact fun h => ⟨fun before b ok hpre => h before b ok (hpre.trans (List.prefix_append _ _)),
      h log a ok List.prefix_rfl⟩
  · rintro ⟨h, hout⟩ before b ok' hpre
    rcases List.prefix_concat_iff.mp hpre with heq | hpre
    · obtain ⟨rfl, hlast⟩ := List.append_inj' heq rfl
      cases hlast
      exact hout
    · exact h before b ok' hpre

theorem Owed.nonneg {log : List (Entry α)} (h : Owed log) (a : α) : 0 ≤ outstanding log a := by
  induction log using List.reverseRecOn with
  | nil => simp
  | append_singleton log e ih =>
      rw [outstanding_concat]
      cases e with
      | granted b =>
          have hbefore := ih (owed_granted.mp h)
          simp only [Entry.change]
          split <;> omega
      | released b ok =>
          obtain ⟨howed, hout⟩ := owed_released.mp h
          have hbefore := ih howed
          simp only [Entry.change]
          split
          case isTrue hb => rw [hb.1] at hout; omega
          case isFalse => omega

/-- What was never granted is not out. -/
theorem Owed.eq_zero {log : List (Entry α)} (h : Owed log) {a : α} (ha : .granted a ∉ log) :
    outstanding log a = 0 := by
  induction log using List.reverseRecOn with
  | nil => rfl
  | append_singleton log e ih =>
      have hbefore : .granted a ∉ log := fun hmem => ha (by simp [hmem])
      rw [outstanding_concat]
      cases e with
      | granted b =>
          have hne : b ≠ a := by
            rintro rfl
            exact ha (by simp)
          rw [ih (owed_granted.mp h) hbefore, Entry.change, if_neg hne, add_zero]
      | released b ok =>
          obtain ⟨howed, hout⟩ := owed_released.mp h
          have hzero := ih howed hbefore
          have hne : b ≠ a := by
            rintro rfl
            omega
          rw [hzero, Entry.change, if_neg fun hb => hne hb.1, add_zero]

/-! ## What is out of an accounted ledger -/

theorem accounted_iff {log : List (Entry α)} {kept : Option α} :
    Accounted log kept ↔ Owed log ∧
      (Settled log ∨ ∃ k, kept = some k ∧ ∀ a, outstanding log a = if a = k then 1 else 0) := by
  constructor
  · intro h
    refine ⟨h.owed, ?_⟩
    have hall : ∀ a, outstanding log a = 0 ∨ kept = some a ∧ outstanding log a = 1 := by
      intro a
      by_cases ha : .granted a ∈ log
      · exact h.kept a ha
      · exact .inl (h.owed.eq_zero ha)
    -- what is out is the one that is kept, so there is one at most
    by_cases hsettled : Settled log
    · exact .inl hsettled
    obtain ⟨k, hk⟩ := not_forall.mp hsettled
    obtain ⟨hkept, hone⟩ := (hall k).resolve_left hk
    refine .inr ⟨k, hkept, fun a => ?_⟩
    by_cases ha : a = k
    · rw [ha, if_pos rfl, hone]
    · rw [if_neg ha]
      refine (hall a).resolve_right fun hother => ha ?_
      exact Option.some.inj (hother.1.symm.trans hkept)
  · rintro ⟨howed, hsettled | ⟨k, hkept, hout⟩⟩
    · exact ⟨howed, fun a _ => .inl (hsettled a)⟩
    · refine ⟨howed, fun a _ => ?_⟩
      by_cases ha : a = k
      · subst ha
        exact .inr ⟨hkept, (hout a).trans (if_pos rfl)⟩
      · exact .inl ((hout a).trans (if_neg ha))

/-- A holder that keeps nothing has settled. -/
theorem Accounted.settled {log : List (Entry α)} (h : Accounted log none) : Settled log := by
  rcases (accounted_iff.mp h).2 with hsettled | ⟨k, hkept, -⟩
  · exact hsettled
  · cases hkept

/-- What is kept may have been released already. -/
theorem Accounted.kept_cases {log : List (Entry α)} {k : α} (h : Accounted log (some k)) :
    Settled log ∨ ∀ a, outstanding log a = if a = k then 1 else 0 := by
  rcases (accounted_iff.mp h).2 with hsettled | ⟨l, hkept, hout⟩
  · exact .inl hsettled
  · obtain rfl := Option.some.inj hkept
    exact .inr hout

/-- A grant whose name is kept from now on. -/
theorem accounted_grant {log : List (Entry α)} {kept : Option α} (h : Accounted log kept) (a : α) :
    Accounted (log ++ [.granted a]) (some a) ↔ Settled log := by
  constructor
  · intro hafter b
    have hout : ∀ b, outstanding (log ++ [.granted a]) b =
        outstanding log b + if b = a then 1 else 0 := by
      intro b
      rw [outstanding_concat, Entry.change]
      exact congrArg _ (if_congr eq_comm rfl rfl)
    -- `a` is out after the grant, so it was not before, nor was anything else
    rcases hafter.kept_cases with hsettled | hkept
    · have hbefore := h.owed.nonneg a
      have hzero := (hout a).symm.trans (hsettled a)
      rw [if_pos rfl] at hzero
      omega
    · have hsame := (hout b).symm.trans (hkept b)
      omega
  · intro hsettled
    refine accounted_iff.mpr ⟨owed_granted.mpr h.owed, .inr ⟨a, rfl, fun b => ?_⟩⟩
    rw [outstanding_concat, hsettled b, zero_add, Entry.change]
    exact if_congr eq_comm rfl rfl

/-- A grant whose name is not kept. -/
theorem not_accounted_grant {log : List (Entry α)} {kept : Option α} (h : Accounted log kept)
    {a : α} (ha : kept ≠ some a) : ¬ Accounted (log ++ [.granted a]) kept := by
  intro hafter
  have hout : outstanding (log ++ [.granted a]) a = outstanding log a + 1 := by
    simp [Entry.change]
  have hbefore := h.owed.nonneg a
  rcases hafter.kept a (by simp) with hzero | ⟨hkept, -⟩
  · omega
  · exact ha hkept

/-- A release of what is not out. -/
theorem not_accounted_release {log : List (Entry α)} (h : Settled log) (a : α) (ok : Bool)
    (kept : Option α) : ¬ Accounted (log ++ [.released a ok]) kept := by
  intro hafter
  have hout := (owed_released.mp hafter.owed).2
  rw [h a] at hout
  exact lt_irrefl _ hout

/-- A release of the name that is kept, which is kept or dropped afterwards. -/
theorem accounted_release {log : List (Entry α)} {k : α} (h : Accounted log (some k)) (ok : Bool)
    {kept : Option α} (hkept : kept = some k ∨ kept = none) :
    Accounted (log ++ [.released k ok]) kept ↔ ¬ Settled log ∧ (kept = none → ok = true) := by
  rcases h.kept_cases with hsettled | hout
  · exact iff_of_false (not_accounted_release hsettled k ok kept) fun hno => hno.1 hsettled
  have hk : outstanding log k = 1 := (hout k).trans (if_pos rfl)
  have hno : ¬ Settled log := fun hsettled => by
    have := hsettled k
    omega
  have howed : Owed (log ++ [.released k ok]) := owed_released.mpr ⟨h.owed, by omega⟩
  rw [and_iff_right hno]
  cases ok with
  | true =>
      refine iff_of_true (accounted_iff.mpr ⟨howed, .inl fun a => ?_⟩) fun _ => rfl
      rw [outstanding_concat, hout a, Entry.change]
      by_cases ha : a = k
      · rw [if_pos ha, if_pos ⟨ha.symm, rfl⟩]
        rfl
      · rw [if_neg ha, if_neg fun hb => ha hb.1.symm, add_zero]
  | false =>
      have hsame : ∀ a, outstanding (log ++ [.released k false]) a = outstanding log a := by
        intro a
        simp [Entry.change]
      constructor
      · rintro hafter rfl
        have hzero := (hsame k).symm.trans (hafter.settled k)
        omega
      · intro hdropped
        have hstill := hkept.resolve_right fun hnone => absurd (hdropped hnone) (by decide)
        refine accounted_iff.mpr ⟨howed, .inr ⟨k, hstill, fun a => ?_⟩⟩
        rw [hsame, hout]

/-- A release that fails and another one, of the name that is kept. -/
theorem accounted_releaseAgain {log : List (Entry α)} {k : α} (h : Accounted log (some k))
    (ok : Bool) :
    Accounted (log ++ [.released k false] ++ [.released k ok]) (some k) ↔ ¬ Settled log := by
  have hsame : ∀ a, outstanding (log ++ [.released k false]) a = outstanding log a := by
    intro a
    simp [Entry.change]
  have hfirst := accounted_release h false (.inl rfl)
  constructor
  · intro hafter hsettled
    -- the first release already was of something that was not out
    have howed := (owed_released.mp hafter.owed).1
    have hout := (owed_released.mp howed).2
    have := hsettled k
    omega
  · intro hno
    have hbefore := hfirst.mpr ⟨hno, fun h => by cases h⟩
    refine (accounted_release hbefore ok (.inl rfl)).mpr
      ⟨fun hsettled => hno fun a => ?_, fun h => ?_⟩
    · exact (hsame a).symm.trans (hsettled a)
    · cases h

end Ledger
