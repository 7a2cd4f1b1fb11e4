import Mathlib.Algebra.Ring.Nat
import Mathlib.Data.Finset.Card
import Mathlib.Data.Fintype.Basic
import Mathlib.Data.List.Basic
import Mathlib.Tactic.Common

/-! # Windows of a ring, addressed by free-running counters

A ring of `n` slots is read and written at free-running counters; `slot n x` is the slot that
counter `x` points at. Within one window of `n` consecutive counters the slots are distinct
(`slot_inj`), so a write at one counter leaves what the other counters of the window see alone.

`Holds R a l` says that the slots at `a, a + 1, …` stand in `R` to the items of the list `l`, in
order. Nothing here says what a slot contains: `R` speaks about the slot number.
-/

namespace Wchratum1.RingWindow
set_option autoImplicit false

variable {n : ℕ} [NeZero n] {α β : Type*}

/-- The slot that the free-running counter `x` points at. -/
def slot (n : ℕ) [NeZero n] (x : ℕ) : Fin n := Fin.ofNat n x

@[simp] theorem slot_val (x : ℕ) : (slot n x).val = x % n := rfl

theorem slot_add_size (x : ℕ) : slot n (x + n) = slot n x := by
  apply Fin.ext
  simp

theorem slot_succ (x : ℕ) : slot n (x + 1) = slot n x + 1 := by
  apply Fin.ext
  rw [Fin.val_add, slot_val, slot_val, Fin.val_one']
  exact Nat.add_mod x 1 n

/-- Inside a window of `n` counters no slot occurs twice. -/
theorem slot_inj {a x y : ℕ} (hx : a ≤ x ∧ x < a + n) (hy : a ≤ y ∧ y < a + n)
    (h : slot n x = slot n y) : x = y := by
  have hmod : x % n = y % n := congrArg Fin.val h
  rcases Nat.le_total x y with hxy | hxy
  · have hd := Nat.dvd_of_mod_eq_zero (Nat.sub_mod_eq_zero_of_mod_eq hmod.symm)
    have := Nat.eq_zero_of_dvd_of_lt hd (by omega)
    omega
  · have hd := Nat.dvd_of_mod_eq_zero (Nat.sub_mod_eq_zero_of_mod_eq hmod)
    have := Nat.eq_zero_of_dvd_of_lt hd (by omega)
    omega

theorem slot_ne {a x y : ℕ} (hx : a ≤ x ∧ x < a + n) (hy : a ≤ y ∧ y < a + n) (h : x ≠ y) :
    slot n x ≠ slot n y := fun e => h (slot_inj hx hy e)

theorem exists_counter (a : ℕ) (i : Fin n) : ∃ k, k < n ∧ i = slot n (a + k) := by
  have hn : 0 < n := Nat.pos_of_ne_zero (NeZero.ne n)
  refine ⟨(i.val + (n - a % n)) % n, Nat.mod_lt _ hn, ?_⟩
  apply Fin.ext
  have ha := Nat.mod_lt a hn
  have hdiv := Nat.div_add_mod a n
  rw [slot_val, Nat.add_mod_mod]
  have e : a + (i.val + (n - a % n)) = i.val + n * (a / n + 1) := by
    rw [Nat.mul_add]
    omega
  rw [e, Nat.add_mul_mod_self_left, Nat.mod_eq_of_lt i.isLt]

theorem slot_add (a k : ℕ) : slot n (a + k) = slot n a + slot n k := by
  apply Fin.ext
  rw [Fin.val_add, slot_val, slot_val, slot_val]
  exact Nat.add_mod a k n

theorem card_stretch {P : Fin n → Prop} [DecidablePred P] {a m : ℕ} (hm : m ≤ n)
    (hP : ∀ i, P i ↔ ∃ k, k < m ∧ i = slot n (a + k)) :
    (Finset.univ.filter P).card = m := by
  have himage : Finset.univ.filter P = (Finset.range m).image fun k => slot n (a + k) := by
    ext i
    simp only [Finset.mem_filter, Finset.mem_univ, true_and, Finset.mem_image, Finset.mem_range]
    rw [hP i]
    exact exists_congr fun k => and_congr_right fun _ => eq_comm
  rw [himage, Finset.card_image_of_injOn, Finset.card_range]
  intro x hx y hy hxy
  have hx' := Finset.mem_range.mp (Finset.mem_coe.mp hx)
  have hy' := Finset.mem_range.mp (Finset.mem_coe.mp hy)
  have := slot_inj (a := a) (by omega) (by omega) hxy
  omega

/-- The slots from counter `a` on stand in `R` to the items of `l`, in order. -/
def Holds (R : Fin n → β → Prop) (a : ℕ) (l : List β) : Prop :=
  ∀ k b, l[k]? = some b → R (slot n (a + k)) b

@[simp] theorem holds_nil (R : Fin n → β → Prop) (a : ℕ) : Holds R a [] := by
  intro k b h
  simp at h

theorem holds_cons {R : Fin n → β → Prop} {a : ℕ} {b : β} {l : List β} :
    Holds R a (b :: l) ↔ R (slot n a) b ∧ Holds R (a + 1) l := by
  constructor
  · intro h
    refine ⟨h 0 b rfl, fun k c hc => ?_⟩
    have := h (k + 1) c (by simpa using hc)
    rwa [show a + 1 + k = a + (k + 1) by omega]
  · rintro ⟨h0, h⟩ k c hc
    cases k with
    | zero =>
      obtain rfl : b = c := by simpa using hc
      exact h0
    | succ k =>
      have := h k c (by simpa using hc)
      rwa [show a + 1 + k = a + (k + 1) by omega] at this

theorem holds_append {R : Fin n → β → Prop} {a : ℕ} {l m : List β} :
    Holds R a (l ++ m) ↔ Holds R a l ∧ Holds R (a + l.length) m := by
  induction l generalizing a with
  | nil => simp
  | cons b l ih =>
    rw [List.cons_append, holds_cons, holds_cons, ih, List.length_cons, and_assoc,
      show a + 1 + l.length = a + (l.length + 1) by omega]

theorem holds_singleton {R : Fin n → β → Prop} {a : ℕ} {b : β} :
    Holds R a [b] ↔ R (slot n a) b := by
  rw [holds_cons]
  exact and_iff_left (holds_nil R (a + 1))

theorem Holds.imp {R S : Fin n → β → Prop} {a : ℕ} {l : List β} (h : Holds R a l)
    (hRS : ∀ k b, k < l.length → b ∈ l → R (slot n (a + k)) b → S (slot n (a + k)) b) :
    Holds S a l := by
  intro k b hb
  obtain ⟨hk, hget⟩ := List.getElem?_eq_some_iff.mp hb
  exact hRS k b hk (hget ▸ List.getElem_mem hk) (h k b hb)

/-- The frame rule: a change that shows only at counter `x` is not seen from a stretch of the
same window that leaves `x` out. -/
theorem Holds.frame {R S : Fin n → β → Prop} {a c x : ℕ} {l : List β} (h : Holds R a l)
    (hc : c ≤ a ∧ a + l.length ≤ c + n) (hx : c ≤ x ∧ x < c + n)
    (hout : x < a ∨ a + l.length ≤ x) (hRS : ∀ i b, i ≠ slot n x → R i b → S i b) :
    Holds S a l := by
  refine h.imp fun k b hk _ hR => hRS _ b ?_ hR
  exact slot_ne (a := c) (by omega) hx (by omega)

theorem Holds.get {R : Fin n → β → Prop} {a : ℕ} {l : List β} (h : Holds R a l) (k : ℕ)
    (hk : k < l.length) : R (slot n (a + k)) l[k] :=
  h k l[k] (List.getElem?_eq_getElem hk)

end Wchratum1.RingWindow
