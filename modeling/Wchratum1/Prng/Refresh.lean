import Wchratum1.Prng.Generators
import Mathlib.Data.List.Perm.Basic
import Mathlib.Data.List.FinRange
import Mathlib.Data.List.Induction

/-! # `kPrngKey` is refreshed round-robin

One counter is both the position of the next bit and the index of the next word:
`CSPrngInjectLowbits`, called from the interrupt, advances it by 1, and `CSPrngInjectRandom`, called
from the main loop, by 32. `Schedule` says what the two calls are meant to do, with two counters that
do not wrap; `OnSchedule` ties `kInCount` to it, in any order of calls and across the wrap.
-/

namespace Wchratum1.Prng
set_option autoImplicit false

/-! ## The counter -/

/-- The word of `kPrngKey` that the counter points at. -/
def keyIndex (kInCount : UInt32) : Fin 4 := Fin.ofNat 4 (kInCount >>> 5 &&& 3).toNat

theorem shift_toNat (kInCount : UInt32) : (kInCount &&& 31).toNat = kInCount.toNat % 32 := by
  rw [UInt32.toNat_and]
  exact Nat.and_two_pow_sub_one_eq_mod kInCount.toNat 5

theorem shift_eq_zero_iff (kInCount : UInt32) : kInCount &&& 31 = 0 ↔ kInCount.toNat % 32 = 0 := by
  rw [← UInt32.toNat_inj, shift_toNat]
  rfl

theorem keyIndex_eq (kInCount : UInt32) : keyIndex kInCount = Fin.ofNat 4 (kInCount.toNat / 32) := by
  have hmask : (kInCount >>> 5 &&& 3).toNat = kInCount.toNat / 32 % 4 := by
    rw [UInt32.toNat_and, UInt32.toNat_shiftRight]
    have hdiv : kInCount.toNat >>> ((5 : UInt32).toNat % 32) = kInCount.toNat / 32 :=
      Nat.shiftRight_eq_div_pow kInCount.toNat 5
    rw [hdiv]
    exact Nat.and_two_pow_sub_one_eq_mod _ 2
  rw [keyIndex, hmask]
  apply Fin.ext
  simp

/-! ## Calls -/

inductive InjectCall
  | lowbits (input : UInt32)
  | random

namespace InjectCall

def run : InjectCall → Generators → Generators
  | lowbits input, g => csPrngInjectLowbits input g
  | random, g => csPrngInjectRandom g

def runs (calls : List InjectCall) (g : Generators) : Generators :=
  calls.foldl (fun g call => call.run g) g

/-- What a call XORs into `kPrngKey`: the word, and the value. -/
def refresh : InjectCall → Generators → Option (Fin 4 × UInt32)
  | lowbits _, g =>
    if g.kInCount + 1 &&& 31 = 0 then some (keyIndex (g.kInCount + 1), g.kInject) else none
  | random, g => some (keyIndex (g.kInCount + 32), (randomUInt32 g).1)

def absorb (refresh : Option (Fin 4 × UInt32)) (key : Fin 4 → UInt32) : Fin 4 → UInt32 :=
  match refresh with
  | none => key
  | some (ndx, word) => Function.update key ndx (key ndx ^^^ word)

/-- A call changes the key by its refresh and in no other way. -/
theorem run_kPrngKey (call : InjectCall) (g : Generators) :
    (call.run g).kPrngKey = absorb (call.refresh g) g.kPrngKey := by
  cases call with
  | lowbits input =>
    simp only [run, csPrngInjectLowbits, refresh, keyIndex]
    split <;> rfl
  | random => rfl

/-- The refreshes of a run, oldest first. -/
def refreshes : List InjectCall → Generators → List (Fin 4 × UInt32)
  | [], _ => []
  | call :: calls, g => (call.refresh g).toList ++ refreshes calls (call.run g)

theorem refreshes_append (calls calls' : List InjectCall) (g : Generators) :
    refreshes (calls ++ calls') g = refreshes calls g ++ refreshes calls' (runs calls g) := by
  induction calls generalizing g with
  | nil => rfl
  | cons call calls ih =>
    rw [List.cons_append, refreshes, refreshes, ih, List.append_assoc]
    rfl

theorem runs_append (calls calls' : List InjectCall) (g : Generators) :
    runs (calls ++ calls') g = runs calls' (runs calls g) := List.foldl_append

end InjectCall

/-! ## The schedule -/

/-- How many calls of `CSPrngInjectLowbits` there were, and how many refreshes. -/
structure Schedule where
  lowbitsCalls : ℕ
  refreshed : ℕ

namespace Schedule

def start : Schedule := ⟨0, 0⟩

/-- Every 32nd call of `CSPrngInjectLowbits` and every call of `CSPrngInjectRandom` is a refresh. -/
def next (s : Schedule) : InjectCall → Schedule
  | .lowbits _ =>
    ⟨s.lowbitsCalls + 1, if 32 ∣ s.lowbitsCalls + 1 then s.refreshed + 1 else s.refreshed⟩
  | .random => ⟨s.lowbitsCalls, s.refreshed + 1⟩

def after (calls : List InjectCall) : Schedule := calls.foldl next start

/-- The `k`-th refresh, counted from 1, is of word `k mod 4`. -/
def word (k : ℕ) : Fin 4 := Fin.ofNat 4 k

end Schedule

open Schedule InjectCall

/-- The counter holds the position of the next bit and the number of refreshes at once. -/
def OnSchedule (s : Schedule) (g : Generators) : Prop :=
  g.kInCount.toNat = (s.lowbitsCalls % 32 + 32 * s.refreshed) % 2 ^ 32

theorem csPrngInit_onSchedule (g : Generators) : OnSchedule start (csPrngInit g) := rfl

theorem OnSchedule.flushes_iff {s : Schedule} {g : Generators} (h : OnSchedule s g) :
    g.kInCount + 1 &&& 31 = 0 ↔ 32 ∣ s.lowbitsCalls + 1 := by
  rw [shift_eq_zero_iff, UInt32.toNat_add, h, show (1 : UInt32).toNat = 1 from rfl]
  omega

theorem OnSchedule.run {s : Schedule} {g : Generators} (h : OnSchedule s g) (call : InjectCall) :
    OnSchedule (s.next call) (call.run g) := by
  unfold OnSchedule at h ⊢
  cases call with
  | lowbits input =>
    simp only [InjectCall.run, csPrngInjectLowbits, next, UInt32.toNat_add, h,
      show (1 : UInt32).toNat = 1 from rfl]
    split <;> omega
  | random =>
    simp only [InjectCall.run, csPrngInjectRandom, randomUInt32, next, UInt32.toNat_add, h,
      show (32 : UInt32).toNat = 32 from rfl]
    omega

theorem OnSchedule.refresh {s : Schedule} {g : Generators} (h : OnSchedule s g)
    (call : InjectCall) :
    (call.refresh g).map Prod.fst =
      if (s.next call).refreshed = s.refreshed then none
      else some (word (s.next call).refreshed) := by
  have hindex : ∀ c : UInt32, c.toNat / 32 % 4 = (s.refreshed + 1) % 4 →
      keyIndex c = word (s.refreshed + 1) := by
    intro c hc
    rw [keyIndex_eq]
    exact Fin.ext hc
  cases call with
  | lowbits input =>
    simp only [InjectCall.refresh, h.flushes_iff, next]
    by_cases hdvd : 32 ∣ s.lowbitsCalls + 1
    · simp only [hdvd, if_true, Nat.succ_ne_self, if_false, Option.map_some]
      rw [hindex]
      unfold OnSchedule at h
      rw [UInt32.toNat_add, h, show (1 : UInt32).toNat = 1 from rfl]
      omega
    · simp only [hdvd, if_false, if_true, Option.map_none]
  | random =>
    simp only [InjectCall.refresh, next, Nat.succ_ne_self, if_false, Option.map_some]
    rw [hindex]
    unfold OnSchedule at h
    rw [UInt32.toNat_add, h, show (32 : UInt32).toNat = 32 from rfl]
    omega

theorem runs_onSchedule (calls : List InjectCall) (g : Generators) :
    OnSchedule (after calls) (runs calls (csPrngInit g)) := by
  induction calls using List.reverseRecOn with
  | nil => exact csPrngInit_onSchedule g
  | append_singleton calls call ih =>
    rw [runs_append, after, List.foldl_append]
    exact ih.run call

/-- The refreshes of a run are of the words 1, 2, 3, 0, 1 and so on, as many as the schedule says. -/
theorem refreshes_words (calls : List InjectCall) (g : Generators) :
    (refreshes calls (csPrngInit g)).map Prod.fst =
      (List.range' 1 (after calls).refreshed).map word := by
  induction calls using List.reverseRecOn with
  | nil => rfl
  | append_singleton calls call ih =>
    have hnext := (runs_onSchedule calls g).refresh call
    have hafter : after (calls ++ [call]) = (after calls).next call := by
      rw [after, List.foldl_append]
      rfl
    have hsteps : ((after calls).next call).refreshed = (after calls).refreshed ∨
        ((after calls).next call).refreshed = (after calls).refreshed + 1 := by
      cases call with
      | lowbits input =>
        simp only [next]
        split
        · exact Or.inr rfl
        · exact Or.inl rfl
      | random => exact Or.inr rfl
    rw [refreshes_append, List.map_append, ih, hafter]
    simp only [refreshes, List.append_nil]
    rcases hsteps with hsame | hone
    · rw [if_pos hsame] at hnext
      rw [Option.map_eq_none_iff.mp hnext, hsame]
      exact List.append_nil _
    · rw [if_neg (by omega), hone] at hnext
      obtain ⟨r, hr, hword⟩ := Option.map_eq_some_iff.mp hnext
      rw [hr, hone, List.range'_concat, List.map_append, Option.toList_some, List.map_singleton,
        hword, List.map_singleton, Nat.one_mul, Nat.add_comm 1]

/-- Four successive words are all four. -/
theorem four_words (k : ℕ) : ((List.range' k 4).map word).Perm (List.finRange 4) := by
  have hmod : ∀ r < 4, ((List.range' r 4).map word).Perm (List.finRange 4) := by
    decide
  have hshift : (List.range' k 4).map word = (List.range' (k % 4) 4).map word := by
    rw [List.range'_eq_map_range, List.range'_eq_map_range, List.map_map, List.map_map]
    refine List.map_congr_left fun i _ => Fin.ext ?_
    simp only [Function.comp_apply, word, Fin.val_ofNat]
    omega
  rw [hshift]
  exact hmod (k % 4) (Nat.mod_lt k (by decide))

/-- **Round-robin.** After any calls in any order: a call changes `kPrngKey` by its refresh only;
`CSPrngInjectLowbits` refreshes, with `kInject`, exactly when the number of its calls comes to a multiple
of 32, and `CSPrngInjectRandom` always does, with a TRNG word; the `k`-th refresh is of word `k mod 4`;
and any four successive ones are of the four words. -/
theorem refreshed_round_robin (g₀ : Generators) (calls : List InjectCall) :
    (∀ call : InjectCall, (call.run (runs calls (csPrngInit g₀))).kPrngKey =
      absorb (call.refresh (runs calls (csPrngInit g₀))) (runs calls (csPrngInit g₀)).kPrngKey) ∧
    (∀ input, ((lowbits input).refresh (runs calls (csPrngInit g₀))).map Prod.snd =
      if 32 ∣ (after calls).lowbitsCalls + 1 then some (runs calls (csPrngInit g₀)).kInject else none) ∧
    (random.refresh (runs calls (csPrngInit g₀))).map Prod.snd =
      some (randomUInt32 (runs calls (csPrngInit g₀))).1 ∧
    (refreshes calls (csPrngInit g₀)).map Prod.fst =
      (List.range' 1 (after calls).refreshed).map word ∧
    ∀ k, k + 4 ≤ (refreshes calls (csPrngInit g₀)).length →
      ((((refreshes calls (csPrngInit g₀)).drop k).take 4).map Prod.fst).Perm (List.finRange 4) := by
  have hwords := refreshes_words calls g₀
  refine ⟨fun call => run_kPrngKey call _, ?_, rfl, hwords, ?_⟩
  · intro input
    simp only [InjectCall.refresh, (runs_onSchedule calls g₀).flushes_iff]
    split <;> rfl
  · intro k hk
    have hlen := congrArg List.length hwords
    rw [List.length_map, List.length_map, List.length_range'] at hlen
    rw [List.map_take, List.map_drop, hwords, ← List.map_drop, ← List.map_take, List.drop_range',
      List.take_range'_of_length_ge (by omega)]
    exact four_words _

end Wchratum1.Prng
