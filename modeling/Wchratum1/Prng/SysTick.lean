import Wchratum1.Foundations.Words

/-! # `SysTickCnt64`

Translated from `src/src/systick.h`. The counter cannot be read atomically: its high word is read
before and after the low word, and the top bit of the low word says which of the two to take.

A read is exact as long as no two register reads are more than `2 ^ 31` ticks apart
(`sysTickCnt64_eq`), whatever wraps in between, so that successive calls are monotone
(`sysTick_linearizable`).
-/

namespace Wchratum1.Prng
set_option autoImplicit false

/-- `SysTickCnt64` on the values that `lohi[1]`, `lohi[0]` and again `lohi[1]` return. -/
def sysTickCnt64 (hiBefore lo hiAfter : UInt32) : UInt64 :=
  let hi := if lo &&& 0x80000000 ≠ 0 then hiBefore else hiAfter
  wideWord hi lo

/-- One call: the ticks since the call before, and those between its register reads. -/
structure SysTickCall where
  since : ℕ
  d1 : ℕ
  d2 : ℕ
  d1_le : d1 ≤ 2 ^ 31
  d2_le : d2 ≤ 2 ^ 31

namespace SysTickCall

def tick (counter : UInt64) (n : ℕ) : UInt64 := counter + UInt64.ofNat n

def atLow (k : SysTickCall) (counter : UInt64) : UInt64 := tick (tick counter k.since) k.d1

def after (k : SysTickCall) (counter : UInt64) : UInt64 := tick (k.atLow counter) k.d2

/-- What the call returns when `counter` is the value at the end of the call before. -/
def read (k : SysTickCall) (counter : UInt64) : UInt64 :=
  sysTickCnt64 (highWord (tick counter k.since)) (lowWord (k.atLow counter))
    (highWord (k.after counter))

def ticks (k : SysTickCall) : ℕ := k.since + k.d1 + k.d2

def reads : List SysTickCall → UInt64 → List UInt64
  | [], _ => []
  | k :: ks, counter => k.read counter :: reads ks (k.after counter)

theorem tick_toNat (counter : UInt64) (n : ℕ) :
    (tick counter n).toNat = (counter.toNat + n) % 2 ^ 64 := by
  simp [tick]

end SysTickCall

open SysTickCall

/-- The repaired read. With the top bit of `lo` set no carry into the high word was counted since
`hiBefore` was read; with it clear none is before `hiAfter` is. -/
theorem sysTickCnt64_eq (counter : UInt64) (d1 d2 : ℕ) (h1 : d1 ≤ 2 ^ 31) (h2 : d2 ≤ 2 ^ 31) :
    sysTickCnt64 (highWord counter) (lowWord (tick counter d1))
      (highWord (tick (tick counter d1) d2)) = tick counter d1 := by
  have hc := counter.toNat_lt
  unfold sysTickCnt64
  simp only [topBit_iff]
  rw [← UInt64.toNat_inj, wideWord_toNat]
  by_cases htop : 2 ^ 31 ≤ (lowWord (tick counter d1)).toNat
  · rw [if_pos htop]
    simp only [lowWord_toNat, highWord_toNat, tick_toNat] at htop ⊢
    omega
  · rw [if_neg htop]
    simp only [lowWord_toNat, highWord_toNat, tick_toNat] at htop ⊢
    omega

theorem SysTickCall.read_eq (k : SysTickCall) (counter : UInt64) :
    k.read counter = k.atLow counter :=
  sysTickCnt64_eq (tick counter k.since) k.d1 k.d2 k.d1_le k.d2_le

theorem SysTickCall.read_toNat (k : SysTickCall) (counter : UInt64)
    (hfits : counter.toNat + k.ticks < 2 ^ 64) :
    (k.read counter).toNat = counter.toNat + k.since + k.d1 ∧
      (k.after counter).toNat = counter.toNat + k.ticks := by
  unfold ticks at hfits ⊢
  rw [k.read_eq]
  simp only [after, atLow, tick_toNat]
  omega

theorem SysTickCall.le_reads {ks : List SysTickCall} :
    ∀ {counter r : UInt64}, counter.toNat + (ks.map ticks).sum < 2 ^ 64 → r ∈ reads ks counter →
      counter ≤ r := by
  induction ks with
  | nil =>
    intro counter r _ hr
    cases hr
  | cons k ks ih =>
    intro counter r hfits hr
    simp only [List.map_cons, List.sum_cons] at hfits
    obtain ⟨hread, hafter⟩ := k.read_toNat counter (by omega)
    rw [UInt64.le_iff_toNat_le]
    rcases List.mem_cons.mp hr with rfl | hrest
    · omega
    · have hle := UInt64.le_iff_toNat_le.mp (ih (by omega) hrest)
      omega

theorem SysTickCall.reads_pairwise {ks : List SysTickCall} :
    ∀ {counter : UInt64}, counter.toNat + (ks.map ticks).sum < 2 ^ 64 →
      (reads ks counter).Pairwise (· ≤ ·) := by
  induction ks with
  | nil =>
    intro counter _
    exact List.Pairwise.nil
  | cons k ks ih =>
    intro counter hfits
    simp only [List.map_cons, List.sum_cons] at hfits
    obtain ⟨hread, hafter⟩ := k.read_toNat counter (by omega)
    unfold ticks at hafter
    have hrest : (k.after counter).toNat + (ks.map ticks).sum < 2 ^ 64 := by
      unfold ticks at hfits ⊢
      omega
    refine List.Pairwise.cons ?_ (ih hrest)
    intro r hr
    have hle := UInt64.le_iff_toNat_le.mp (le_reads hrest hr)
    rw [UInt64.le_iff_toNat_le]
    omega

/-- **Linearizable.** Every call returns the counter at the moment its low word was read, also when
the low word or the whole counter wraps between the reads; and while the counter does not wrap,
the results of successive calls never decrease. -/
theorem sysTick_linearizable :
    (∀ (counter : UInt64) (d1 d2 : ℕ), d1 ≤ 2 ^ 31 → d2 ≤ 2 ^ 31 →
      sysTickCnt64 (highWord counter) (lowWord (tick counter d1))
        (highWord (tick (tick counter d1) d2)) = tick counter d1) ∧
    ∀ (counter : UInt64) (ks : List SysTickCall),
      counter.toNat + (ks.map ticks).sum < 2 ^ 64 → (reads ks counter).Pairwise (· ≤ ·) :=
  ⟨sysTickCnt64_eq, fun _ _ => reads_pairwise⟩

theorem sysTick_linearizable_across_wraps :
    sysTickCnt64 (highWord 0xFFFFFFFFFFFFFFFF) (lowWord (tick 0xFFFFFFFFFFFFFFFF (2 ^ 31)))
      (highWord (tick (tick 0xFFFFFFFFFFFFFFFF (2 ^ 31)) (2 ^ 31))) =
        tick 0xFFFFFFFFFFFFFFFF (2 ^ 31) ∧
    (reads [⟨1, 5, 2 ^ 31, by decide, by decide⟩, ⟨0, 2 ^ 31, 7, by decide, by decide⟩]
      0xFFFFFFFE).Pairwise (· ≤ ·) :=
  ⟨sysTick_linearizable.1 0xFFFFFFFFFFFFFFFF (2 ^ 31) (2 ^ 31) (by decide) (by decide),
    sysTick_linearizable.2 0xFFFFFFFE _ (by decide)⟩

end Wchratum1.Prng
