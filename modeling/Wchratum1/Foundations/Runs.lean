import Mathlib.Tactic.Common

/-! # What holds throughout a run

A system is a partial step function: `step s a` is `none` where the action `a` is not enabled in `s`.
`Throughout P` says that `P` holds in every state of a run, `Avoids bad` that no action of the run is
bad in the state in which it is taken. When a single step keeps `P` exactly if it is not bad, these two
say the same of every run (`throughout_iff_avoids`). -/

namespace Wchratum1.Runs
set_option autoImplicit false

variable {S A : Type*} (step : S → A → Option S)

def run : List A → S → Option S
  | [], s => some s
  | a :: as, s => (step s a).bind (run as)

def Throughout (P : S → Prop) : S → List A → Prop
  | s, [] => P s
  | s, a :: as => P s ∧ ∀ s', step s a = some s' → Throughout P s' as

def Avoids (bad : S → A → Prop) : S → List A → Prop
  | _, [] => True
  | s, a :: as => ∀ s', step s a = some s' → ¬ bad s a ∧ Avoids bad s' as

variable {step} {P I : S → Prop} {bad : S → A → Prop} {s s' : S} {as : List A}

theorem Throughout.head (h : Throughout step P s as) : P s := by
  cases as with
  | nil => exact h
  | cons a as => exact h.1

theorem Throughout.last (h : Throughout step P s as) (hrun : run step as s = some s') : P s' := by
  induction as generalizing s with
  | nil =>
    obtain rfl := Option.some.inj hrun
    exact h
  | cons a as ih =>
    obtain ⟨t, ht, hrest⟩ := Option.bind_eq_some_iff.mp hrun
    exact ih (h.2 t ht) hrest

theorem throughout_iff_avoids
    (hstep : ∀ s a s', I s → P s → step s a = some s' → I s' ∧ (P s' ↔ ¬ bad s a))
    (hI : I s) (hP : P s) : Throughout step P s as ↔ Avoids step bad s as := by
  induction as generalizing s with
  | nil => exact iff_of_true hP trivial
  | cons a as ih =>
    constructor
    · rintro ⟨-, hall⟩ s' ht
      obtain ⟨hI', hiff⟩ := hstep s a s' hI hP ht
      have hP' := (hall s' ht).head
      exact ⟨hiff.mp hP', (ih hI' hP').mp (hall s' ht)⟩
    · refine fun hall => ⟨hP, fun s' ht => ?_⟩
      obtain ⟨hI', hiff⟩ := hstep s a s' hI hP ht
      obtain ⟨hgood, hrest⟩ := hall s' ht
      exact (ih hI' (hiff.mpr hgood)).mpr hrest

end Wchratum1.Runs
