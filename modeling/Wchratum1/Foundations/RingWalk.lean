import Wchratum1.Foundations.RingWindow

/-! # Loops that walk a ring

A `while (1)` that takes one slot of a ring of `n` in each turn, in order, and returns at a slot that
halts it. If a slot that halts goes on to halt, and every turn leaves some slot that halts behind, the
loop returns after at most `n` turns, whatever the ring holds at the start (`Walk.returns`). -/

namespace Wchratum1.RingWalk
open RingWindow
set_option autoImplicit false

variable {α : Type} {n : ℕ} [NeZero n]

/-- `while (1)` over `turn`, which is `none` when the loop returns: the state in which it returns, if
that is after at most this many turns. -/
def loop (turn : α → Option α) : ℕ → α → Option α
  | 0, d => if (turn d).isNone then some d else none
  | fuel + 1, d =>
    match turn d with
    | none => some d
    | some d' => loop turn fuel d'

theorem loop_of_none {turn : α → Option α} {d : α} (h : turn d = none) (fuel : ℕ) :
    loop turn fuel d = some d := by
  cases fuel <;> simp [loop, h]

theorem loop_of_some {turn : α → Option α} {d d' : α} (h : turn d = some d') (fuel : ℕ) :
    loop turn (fuel + 1) d = loop turn fuel d' := by
  simp [loop, h]

structure Walk (turn : α → Option α) (pos : α → Fin n) (halts : α → Fin n → Prop) (keep : α → Prop) :
    Prop where
  stops : ∀ d, halts d (pos d) → turn d = none
  advances : ∀ d d', keep d → turn d = some d' → pos d' = pos d + 1
  keeps : ∀ d d', keep d → turn d = some d' → keep d'
  stays : ∀ d d', keep d → turn d = some d' → ∀ j, halts d j → halts d' j
  leaves : ∀ d d', keep d → turn d = some d' → ∃ j, halts d' j

namespace Walk
variable {turn : α → Option α} {pos : α → Fin n} {halts : α → Fin n → Prop} {keep : α → Prop}

/-- A slot that halts `k` ahead ends the loop within `k` turns. -/
theorem returns_of_halts (hw : Walk turn pos halts keep) {d : α} {k fuel a : ℕ} (hkeep : keep d)
    (hpos : pos d = slot n a) (hhalts : halts d (slot n (a + k))) (hfuel : k ≤ fuel) :
    ∃ d', loop turn fuel d = some d' ∧ turn d' = none := by
  induction fuel generalizing d k a with
  | zero =>
    obtain rfl := Nat.le_zero.mp hfuel
    have hnone := hw.stops d (by rw [hpos]; exact hhalts)
    exact ⟨d, loop_of_none hnone 0, hnone⟩
  | succ fuel ih =>
    cases hturn : turn d with
    | none => exact ⟨d, loop_of_none hturn _, hturn⟩
    | some d' =>
      obtain ⟨k, rfl⟩ : ∃ i, k = i + 1 := by
        cases k with
        | zero =>
          have hnone := hw.stops d (by rw [hpos]; exact hhalts)
          rw [hnone] at hturn
          cases hturn
        | succ k => exact ⟨k, rfl⟩
      have hnext : pos d' = slot n (a + 1) := by rw [hw.advances d d' hkeep hturn, hpos, slot_succ]
      have hahead := hw.stays d d' hkeep hturn _ hhalts
      rw [show a + (k + 1) = a + 1 + k by omega] at hahead
      rw [loop_of_some hturn]
      exact ih (hw.keeps d d' hkeep hturn) hnext hahead (by omega)

theorem returns (hw : Walk turn pos halts keep) {d : α} (hkeep : keep d) :
    ∃ d', loop turn n d = some d' ∧ turn d' = none := by
  obtain ⟨m, rfl⟩ := Nat.exists_eq_succ_of_ne_zero (NeZero.ne n)
  cases hturn : turn d with
  | none => exact ⟨d, loop_of_none hturn _, hturn⟩
  | some d' =>
    obtain ⟨j, hj⟩ := hw.leaves d d' hkeep hturn
    obtain ⟨k, hk, rfl⟩ := exists_counter (pos d').val j
    have hpos : pos d' = slot (m + 1) (pos d').val := by
      apply Fin.ext
      rw [slot_val, Nat.mod_eq_of_lt (pos d').isLt]
    rw [loop_of_some hturn]
    exact hw.returns_of_halts (hw.keeps d d' hkeep hturn) hpos hj (by omega)

end Walk

end Wchratum1.RingWalk
