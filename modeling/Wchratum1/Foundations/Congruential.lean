import Mathlib.Algebra.Ring.Nat
import Mathlib.Data.Nat.ModEq
import Mathlib.Logic.Function.Iterate
import Mathlib.SetTheory.Cardinal.Finite
import Mathlib.Tactic.Ring

/-! # Linear congruential generators modulo a power of two

With a multiplier `a ≡ 1 (mod 4)` and an odd increment, `2 ^ k` steps add `2 ^ k` to the lower `k + 1`
bits (`two_pow_steps`). So `n` steps come back to the start modulo `2 ^ w` exactly when `2 ^ w`
divides `n` (`iterate_modEq_self_iff`), and `2 ^ w` steps in a row visit each residue once. The values
are those before the reduction; `iterate_modEq_of_step` brings them to words. -/

namespace Wchratum1.Congruential
set_option autoImplicit false

def affine (a c x : ℕ) : ℕ := x * a + c

variable {a c : ℕ}

theorem iterate_affine (a c n x : ℕ) : (affine a c)^[n] x = x * a ^ n + (affine a c)^[n] 0 := by
  induction n generalizing x with
  | zero => simp
  | succ n ih =>
    rw [Function.iterate_succ_apply, Function.iterate_succ_apply, ih (affine a c x), ih (affine a c 0)]
    simp only [affine]
    ring

theorem pow_two_pow (ha : a % 4 = 1) (k : ℕ) : ∃ t, a ^ 2 ^ k = 2 ^ (k + 2) * t + 1 := by
  induction k with
  | zero => exact ⟨a / 4, by simp only [pow_zero, pow_one]; omega⟩
  | succ k ih =>
    obtain ⟨t, ht⟩ := ih
    refine ⟨2 ^ (k + 1) * t * t + t, ?_⟩
    rw [pow_succ 2 k, pow_mul, ht]
    ring

/-- From 0, `2 ^ k` steps reach an odd multiple of `2 ^ k`. -/
theorem two_pow_steps_zero (ha : a % 4 = 1) (hc : c % 2 = 1) (k : ℕ) :
    ∃ s, (affine a c)^[2 ^ k] 0 = 2 ^ k * (2 * s + 1) := by
  induction k with
  | zero => exact ⟨c / 2, by simp only [pow_zero, Function.iterate_one, affine]; omega⟩
  | succ k ih =>
    obtain ⟨s, hs⟩ := ih
    obtain ⟨t, ht⟩ := pow_two_pow ha k
    refine ⟨s + 2 ^ k * t * (2 * s + 1), ?_⟩
    rw [pow_succ 2 k, mul_two, Function.iterate_add_apply, iterate_affine, hs, ht]
    ring

theorem two_pow_steps (ha : a % 4 = 1) (hc : c % 2 = 1) (k x : ℕ) :
    (affine a c)^[2 ^ k] x ≡ x + 2 ^ k [MOD 2 ^ (k + 1)] := by
  obtain ⟨s, hs⟩ := two_pow_steps_zero ha hc k
  obtain ⟨t, ht⟩ := pow_two_pow ha k
  have hsum : (affine a c)^[2 ^ k] x = x + 2 ^ k + 2 ^ (k + 1) * (2 * t * x + s) := by
    rw [iterate_affine, hs, ht]
    ring
  rw [hsum]
  exact Nat.add_mul_mod_self_left _ _ _

theorem two_pow_mul_steps (ha : a % 4 = 1) (hc : c % 2 = 1) (k q x : ℕ) :
    (affine a c)^[2 ^ k * q] x ≡ x + 2 ^ k * q [MOD 2 ^ (k + 1)] := by
  induction q with
  | zero => exact rfl
  | succ q ih =>
    rw [Nat.mul_succ, Nat.add_comm (2 ^ k * q), Function.iterate_add_apply, Nat.add_comm (2 ^ k),
      ← Nat.add_assoc]
    exact (two_pow_steps ha hc k _).trans (ih.add_right (2 ^ k))

/-- The period modulo `2 ^ w` is `2 ^ w`, from every start. -/
theorem iterate_modEq_self_iff (ha : a % 4 = 1) (hc : c % 2 = 1) (w n x : ℕ) :
    (affine a c)^[n] x ≡ x [MOD 2 ^ w] ↔ 2 ^ w ∣ n := by
  induction w with
  | zero => simp [Nat.modEq_one]
  | succ w ih =>
    -- either side has `2 ^ w ∣ n`, and then only the next bit is left
    have hnext : 2 ^ w ∣ n → ((affine a c)^[n] x ≡ x [MOD 2 ^ (w + 1)] ↔ 2 ^ (w + 1) ∣ n) := by
      rintro ⟨q, rfl⟩
      have hstep := two_pow_mul_steps ha hc w q x
      constructor
      · intro hback
        have hzero : 2 ^ w * q ≡ 0 [MOD 2 ^ (w + 1)] :=
          Nat.ModEq.add_left_cancel' x (hstep.symm.trans hback)
        exact (Nat.modEq_zero_iff_dvd).mp hzero
      · intro hdvd
        have hzero : x + 2 ^ w * q ≡ x + 0 [MOD 2 ^ (w + 1)] :=
          Nat.ModEq.add_left x ((Nat.modEq_zero_iff_dvd).mpr hdvd)
        exact hstep.trans hzero
    have hdvd : (2 : ℕ) ^ w ∣ 2 ^ (w + 1) := ⟨2, pow_succ 2 w⟩
    constructor
    · intro hback
      exact (hnext (ih.mp (hback.of_dvd hdvd))).mp hback
    · intro h
      exact (hnext (hdvd.trans h)).mpr h

theorem iterate_modEq_iff (ha : a % 4 = 1) (hc : c % 2 = 1) (w i j x : ℕ) :
    (affine a c)^[i] x ≡ (affine a c)^[j] x [MOD 2 ^ w] ↔ i ≡ j [MOD 2 ^ w] := by
  wlog hle : i ≤ j generalizing i j
  · rw [Nat.ModEq.comm, Nat.ModEq.comm (a := i)]
    exact this j i (Nat.le_of_not_le hle)
  obtain ⟨d, rfl⟩ := Nat.exists_eq_add_of_le hle
  rw [Nat.add_comm i d, Function.iterate_add_apply, Nat.ModEq.comm, iterate_modEq_self_iff ha hc,
    Nat.modEq_iff_dvd' (Nat.le_add_left i d), Nat.add_sub_cancel]

/-! ## Words -/

section Words

variable {α : Type*} {f : α → α} (val : α → ℕ) (I : α → Prop) {m : ℕ}

/-- A step that is affine modulo `m` on the states with `I`, and keeps `I`, has the iterates of the
affine map modulo `m`. -/
theorem iterate_modEq_of_step
    (hstep : ∀ x, I x → I (f x) ∧ val (f x) ≡ affine a c (val x) [MOD m]) (n : ℕ) {x : α} (hx : I x) :
    val (f^[n] x) ≡ (affine a c)^[n] (val x) [MOD m] := by
  have hboth : I (f^[n] x) ∧ val (f^[n] x) ≡ (affine a c)^[n] (val x) [MOD m] := by
    induction n with
    | zero => exact ⟨hx, rfl⟩
    | succ n ih =>
      rw [Function.iterate_succ_apply', Function.iterate_succ_apply']
      obtain ⟨hI, hval⟩ := hstep _ ih.1
      exact ⟨hI, hval.trans ((ih.2.mul_right a).add_right c)⟩
  exact hboth.2

end Words

/-! ## What a full period takes -/

/-- `N` values in a row, of a sequence that goes through a type of `N` elements. -/
theorem count_period {α β : Type*} [DecidableEq β] {N : ℕ} {e : ℕ → α}
    (he : Function.Bijective fun n : Fin N => e n) (out : α → β) (y : β) :
    ((List.range N).map fun n => out (e n)).count y = Nat.card {x // out x = y} := by
  have hcard : Nat.card {x // out x = y} = Nat.card {n : Fin N // out (e n) = y} :=
    (Nat.card_congr ((Equiv.ofBijective _ he).subtypeEquiv fun _ => Iff.rfl)).symm
  have hcount : ((List.range N).map fun n => out (e n)).count y =
      (List.finRange N).countP fun n : Fin N => decide (out (e n) = y) := by
    rw [List.count_eq_countP, List.countP_map, ← List.map_coe_finRange_eq_range, List.countP_map]
    refine List.countP_congr fun n _ => ?_
    simp
  rw [hcard, hcount, Nat.card_eq_fintype_card, Fintype.card_subtype, Fin.univ_def,
    List.countP_eq_length_filter]
  rfl

/-- The first component of a bijection onto pairs takes each value as often as there are second ones. -/
theorem card_fiber {α β γ : Type*} {f : α → β × γ} (hf : Function.Bijective f) (y : β) :
    Nat.card {x // (f x).1 = y} = Nat.card γ := by
  have hpairs : {x // (f x).1 = y} ≃ {p : β × γ // p.1 = y} :=
    (Equiv.ofBijective f hf).subtypeEquiv fun _ => Iff.rfl
  have hproduct : {p : β × γ // p.1 = y} ≃ {b : β // b = y} × γ :=
    Equiv.prodSubtypeFstEquivSubtypeProd (p := fun b => b = y)
  rw [Nat.card_congr (hpairs.trans hproduct), Nat.card_prod, Nat.card_unique, Nat.one_mul]

end Wchratum1.Congruential
