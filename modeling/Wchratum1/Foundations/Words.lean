import Mathlib.Algebra.Ring.Nat
import Mathlib.Data.Nat.Bitwise
import Mathlib.Tactic.Common

/-! # Words of 32 and 64 bits

The halves of a 64-bit word: the cast `(uint32_t)w`, the shift `w >> 32` and the packing
`((uint64_t)hi << 32) | lo`, with their values. Rotations of a 32-bit word written with two shifts, and
how they are undone.
-/

namespace Wchratum1
set_option autoImplicit false

def lowWord (w : UInt64) : UInt32 := w.toUInt32

def highWord (w : UInt64) : UInt32 := (w >>> 32).toUInt32

/-- `((uint64_t)hi << 32) | lo`. -/
def wideWord (hi lo : UInt32) : UInt64 := hi.toUInt64 <<< 32 ||| lo.toUInt64

@[simp] theorem lowWord_toNat (w : UInt64) : (lowWord w).toNat = w.toNat % 2 ^ 32 := by
  simp [lowWord]

@[simp] theorem highWord_toNat (w : UInt64) : (highWord w).toNat = w.toNat / 2 ^ 32 := by
  have hlt := w.toNat_lt
  simp [highWord, Nat.shiftRight_eq_div_pow]
  omega

@[simp] theorem wideWord_toNat (hi lo : UInt32) :
    (wideWord hi lo).toNat = hi.toNat * 2 ^ 32 + lo.toNat := by
  have hhi := hi.toNat_lt
  have hlo := lo.toNat_lt
  have hmod : hi.toNat * 2 ^ 32 % 2 ^ 64 = hi.toNat * 2 ^ 32 := by omega
  have hor := Nat.shiftLeft_add_eq_or_of_lt hlo hi.toNat
  rw [Nat.shiftLeft_eq] at hor
  simp only [wideWord, UInt64.toNat_or, UInt64.toNat_shiftLeft, UInt32.toNat_toUInt64,
    Nat.shiftLeft_eq]
  rw [hor, ← hmod]
  rfl

@[simp] theorem lowWord_wideWord (hi lo : UInt32) : lowWord (wideWord hi lo) = lo := by
  have hlo := lo.toNat_lt
  rw [← UInt32.toNat_inj, lowWord_toNat, wideWord_toNat]
  omega

@[simp] theorem highWord_wideWord (hi lo : UInt32) : highWord (wideWord hi lo) = hi := by
  have hlo := lo.toNat_lt
  rw [← UInt32.toNat_inj, highWord_toNat, wideWord_toNat]
  omega

theorem wideWord_halves (w : UInt64) : wideWord (highWord w) (lowWord w) = w := by
  rw [← UInt64.toNat_inj, wideWord_toNat, highWord_toNat, lowWord_toNat]
  omega

theorem wideWord_inj {hi lo hi' lo' : UInt32} :
    wideWord hi lo = wideWord hi' lo' ↔ hi = hi' ∧ lo = lo' := by
  constructor
  · intro h
    constructor
    · simpa using congrArg highWord h
    · simpa using congrArg lowWord h
  · rintro ⟨rfl, rfl⟩
    rfl

theorem topBit_iff (w : UInt32) : w &&& 0x80000000 ≠ 0 ↔ 2 ^ 31 ≤ w.toNat := by
  have hlt := w.toNat_lt
  have hand : (w &&& 0x80000000).toNat = (w.toNat.testBit 31).toNat * 2 ^ 31 := by
    rw [UInt32.toNat_and, show (0x80000000 : UInt32).toNat = 2 ^ 31 from rfl, Nat.and_two_pow]
  rw [ne_eq, ← UInt32.toNat_inj, hand, Nat.testBit_eq_decide_div_mod_eq,
    show (0 : UInt32).toNat = 0 from rfl]
  by_cases hbit : w.toNat / 2 ^ 31 % 2 = 1
  · rw [decide_eq_true hbit, Bool.toNat_true]
    omega
  · rw [decide_eq_false hbit, Bool.toNat_false]
    omega

/-! ## Rotations -/

theorem shifts_toBitVec (x : UInt32) {b : UInt32} (hlt : b.toNat < 32) (hpos : 0 < b.toNat) :
    (x >>> (32 - b) ||| x <<< b).toBitVec = x.toBitVec.rotateLeft b.toNat := by
  have hback : (32 - b).toNat = 32 - b.toNat :=
    UInt32.toNat_sub_of_le 32 b (UInt32.le_iff_toNat_le.mpr (Nat.le_of_lt hlt))
  have hright : ((32 - b).toBitVec % 32).toNat = 32 - b.toNat := by
    rw [BitVec.toNat_umod, UInt32.toNat_toBitVec, hback]
    exact Nat.mod_eq_of_lt (show 32 - b.toNat < 32 by omega)
  have hleft : (b.toBitVec % 32).toNat = b.toNat := by
    rw [BitVec.toNat_umod, UInt32.toNat_toBitVec]
    exact Nat.mod_eq_of_lt hlt
  rw [UInt32.toBitVec_or, UInt32.toBitVec_shiftRight, UInt32.toBitVec_shiftLeft,
    BitVec.ushiftRight_eq', BitVec.shiftLeft_eq', hright, hleft, BitVec.rotateLeft_def,
    Nat.mod_eq_of_lt hlt, BitVec.or_comm]

/-- Two rotations that make a full turn. -/
theorem rotateLeft_full_turn {w : ℕ} (x : BitVec w) {a b : ℕ} (ha : 0 < a) (hb : 0 < b)
    (hturn : a + b = w) : (x.rotateLeft a).rotateLeft b = x := by
  ext i hi
  simp only [BitVec.getElem_rotateLeft, Nat.mod_eq_of_lt (show a < w by omega),
    Nat.mod_eq_of_lt (show b < w by omega)]
  -- a bit that the second rotation wraps is one that the first did not wrap
  split
  · rw [dif_neg (by omega)]
    congr 1
    omega
  · rw [dif_pos (by omega)]
    congr 1
    omega

/-! ## XOR with a shift of itself -/

/-- The top bits are kept, and each bit below gives back the next. -/
theorem xor_shift_injective {w k : ℕ} (hk : 0 < k) :
    Function.Injective fun x : BitVec w => x >>> k ^^^ x := by
  intro x y hxy
  have hbits : ∀ i, (x >>> k ^^^ x).getLsbD i = (y >>> k ^^^ y).getLsbD i := fun i =>
    congrArg (·.getLsbD i) hxy
  simp only [BitVec.getLsbD_xor, BitVec.getLsbD_ushiftRight] at hbits
  have hdown : ∀ n i, w ≤ i + n → x.getLsbD i = y.getLsbD i := by
    intro n
    induction n with
    | zero =>
      intro i hi
      rw [BitVec.getLsbD_of_ge x i (by omega), BitVec.getLsbD_of_ge y i (by omega)]
    | succ n ih =>
      intro i hi
      have h := hbits i
      rw [ih (k + i) (by omega)] at h
      exact Bool.xor_right_inj.mp h
  apply BitVec.eq_of_getLsbD_eq
  intro i _
  exact hdown w i (by omega)

@[simp] theorem xor_cancel (x k : UInt32) : x ^^^ k ^^^ k = x := by
  rw [UInt32.xor_assoc, UInt32.xor_self, UInt32.xor_zero]

end Wchratum1
