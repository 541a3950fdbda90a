import Mathlib.Data.List.Induction
import Mathlib.Logic.Basic

/-!
# Runs of a state machine

A machine is given by a step function that answers `none` where an action is
not enabled or ends the run. Invariants are proved for one step and then hold
after every run; a condition on the steps of a run is carried along with it.
-/

namespace Machine

variable {S A : Type*} {step : S → A → Option S}

/-- The state after the actions in order, if each of them is possible. -/
def run (step : S → A → Option S) (s : S) : List A → Option S
  | [] => some s
  | a :: as => (step s a).bind fun s' => run step s' as

/-- Every step of the run from `s` meets the condition, in the state before it. -/
def Along (step : S → A → Option S) (P : S → A → Prop) (s : S) : List A → Prop
  | [] => True
  | a :: as => P s a ∧ ∀ s', step s a = some s' → Along step P s' as

/-- Whether a run meets a condition can be decided by taking its steps. -/
instance decidableAlong {P : S → A → Prop} [∀ s a, Decidable (P s a)] :
    (s : S) → (as : List A) → Decidable (Along step P s as)
  | _, [] => isTrue trivial
  | s, a :: as =>
    match hstep : step s a with
    | none => decidable_of_iff (P s a)
        ⟨fun h => ⟨h, fun s' hs' => by rw [hstep] at hs'; cases hs'⟩, fun h => h.1⟩
    | some s' =>
      haveI : Decidable (Along step P s' as) := decidableAlong s' as
      decidable_of_iff (P s a ∧ Along step P s' as)
        ⟨fun h => ⟨h.1, fun t ht => by rw [hstep, Option.some.injEq] at ht; exact ht ▸ h.2⟩,
          fun h => ⟨h.1, h.2 s' hstep⟩⟩

@[simp] theorem run_nil (s : S) : run step s [] = some s := rfl

/-- A run of at least one action takes its first step and goes on from there. -/
theorem run_cons_eq_some {s t : S} {a : A} {as : List A} :
    run step s (a :: as) = some t ↔ ∃ s', step s a = some s' ∧ run step s' as = some t := by
  simp [run, Option.bind_eq_some_iff]

/-- A run of actions goes on from where the first of them lead. -/
theorem run_append_eq_some {s t : S} {as bs : List A} :
    run step s (as ++ bs) = some t ↔ ∃ m, run step s as = some m ∧ run step m bs = some t := by
  induction as generalizing s with
  | nil => simp [run]
  | cons b as ih =>
    simp only [List.cons_append, run_cons_eq_some, ih]
    constructor
    · rintro ⟨s', hs', m, hm, ht⟩
      exact ⟨m, ⟨s', hs', hm⟩, ht⟩
    · rintro ⟨m, ⟨s', hs', hm⟩, ht⟩
      exact ⟨s', hs', m, hm, ht⟩

/-- A run of at least one action goes on to its last step. -/
theorem run_concat_eq_some {s t : S} {a : A} {as : List A} :
    run step s (as ++ [a]) = some t ↔ ∃ m, run step s as = some m ∧ step m a = some t := by
  simp [run_append_eq_some, run]

/-- What every step preserves under its condition holds after every run whose
steps all meet the condition. -/
theorem run_invariant_along {P : S → A → Prop} {I : S → Prop}
    (hstep : ∀ s a s', I s → P s a → step s a = some s' → I s')
    {s t : S} {as : List A} (hs : I s) (halong : Along step P s as)
    (hrun : run step s as = some t) : I t := by
  induction as generalizing s with
  | nil =>
    rw [run_nil, Option.some.injEq] at hrun
    exact hrun ▸ hs
  | cons a as ih =>
    obtain ⟨s', hs', ht⟩ := run_cons_eq_some.mp hrun
    exact ih (hstep s a s' hs halong.1 hs') (halong.2 s' hs') ht

/-- What every step preserves holds after every run. -/
theorem run_invariant {I : S → Prop}
    (hstep : ∀ s a s', I s → step s a = some s' → I s')
    {s t : S} {as : List A} (hs : I s) (hrun : run step s as = some t) : I t := by
  induction as generalizing s with
  | nil =>
    rw [run_nil, Option.some.injEq] at hrun
    exact hrun ▸ hs
  | cons a as ih =>
    obtain ⟨s', hs', ht⟩ := run_cons_eq_some.mp hrun
    exact ih (hstep s a s' hs hs') ht

/-- Two conditions met along a run are met together. -/
theorem Along.and {P Q : S → A → Prop} {s : S} {as : List A} (hP : Along step P s as)
    (hQ : Along step Q s as) : Along step (fun s a => P s a ∧ Q s a) s as := by
  induction as generalizing s with
  | nil => trivial
  | cons a as ih => exact ⟨⟨hP.1, hQ.1⟩, fun s' hs' => ih (hP.2 s' hs') (hQ.2 s' hs')⟩

/-- A run whose steps all meet a condition meets another one that follows from it
by an invariant. -/
theorem Along.of_invariant {P Q : S → A → Prop} {I : S → Prop}
    (hstep : ∀ s a s', I s → P s a → step s a = some s' → I s')
    (himp : ∀ s a, I s → P s a → Q s a) {s : S} {as : List A} (hs : I s)
    (h : Along step P s as) : Along step Q s as := by
  induction as generalizing s with
  | nil => trivial
  | cons a as ih =>
    exact ⟨himp s a hs h.1, fun s' hs' => ih (hstep s a s' hs h.1 hs') (h.2 s' hs')⟩

/-- A condition met along a run is met along each part of it. -/
theorem Along.append {P : S → A → Prop} {s : S} {as bs : List A}
    (h : Along step P s (as ++ bs)) :
    Along step P s as ∧ ∀ m, run step s as = some m → Along step P m bs := by
  induction as generalizing s with
  | nil => exact ⟨trivial, fun m hm => by simpa [← Option.some.inj hm] using h⟩
  | cons a as ih =>
    refine ⟨⟨h.1, fun s' hs' => (ih (h.2 s' hs')).1⟩, fun m hm => ?_⟩
    obtain ⟨s', hs', hm'⟩ := run_cons_eq_some.mp hm
    exact (ih (h.2 s' hs')).2 m hm'

/-- Something that a run of these actions has come by. -/
def Passed (step : S → A → Option S) (s : S) (as : List A) (P : S → Prop) : Prop :=
  ∃ earlier, earlier <+: as ∧ ∃ t, run step s earlier = some t ∧ P t

/-- What was passed stays passed as a run goes on. -/
theorem Passed.concat {s : S} {as : List A} {P : S → Prop} (h : Passed step s as P) (a : A) :
    Passed step s (as ++ [a]) P := by
  obtain ⟨earlier, hearlier, hpassed⟩ := h
  exact ⟨earlier, hearlier.trans (List.prefix_append as [a]), hpassed⟩

/-- A run passes the state that it ends in. -/
theorem Passed.here {s t : S} {as : List A} {P : S → Prop} (hrun : run step s as = some t)
    (h : P t) : Passed step s as P :=
  ⟨as, List.prefix_rfl, t, hrun, h⟩

theorem Passed.mono {s : S} {as : List A} {P Q : S → Prop} (h : Passed step s as P)
    (himp : ∀ t, P t → Q t) : Passed step s as Q := by
  obtain ⟨earlier, hearlier, t, ht, hP⟩ := h
  exact ⟨earlier, hearlier, t, ht, himp t hP⟩

/-- What every step keeps, given the run before it, holds after every run. -/
theorem run_history {s : S} {I : List A → S → Prop} (hstart : I [] s)
    (hstep : ∀ as t a t', run step s as = some t → I as t → step t a = some t' →
      I (as ++ [a]) t')
    {as : List A} {t : S} (hrun : run step s as = some t) : I as t := by
  induction as using List.reverseRecOn generalizing t with
  | nil =>
    obtain rfl := Option.some.inj hrun
    exact hstart
  | append_singleton as a ih =>
    obtain ⟨m, hm, hlast⟩ := run_concat_eq_some.mp hrun
    exact hstep as m a t hm (ih hm) hlast

end Machine
