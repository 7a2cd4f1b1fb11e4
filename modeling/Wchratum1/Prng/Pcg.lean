import Wchratum1.Prng.Generators
import Wchratum1.Prng.Jitter
import Wchratum1.Foundations.Congruential

/-! # The outputs of PCG over a period

`PrngInit` makes the increment odd, and no other call touches it. Then the state goes through all
`2 ^ 32` words before it comes back (`step_iterate_eq_iff`), whatever calls of the other generators
stand between the steps. The output function of `PcgUInt32` is a permutation of the words, and that of
`PcgUInt16` takes each value on `2 ^ 16` states.
-/

namespace Wchratum1.Prng
open Congruential
set_option autoImplicit false

/-! ## The state -/

/-- Before `n` further steps. -/
def Pcg32i.skip (n : ℕ) (rng : Pcg32i) : Pcg32i := Pcg32i.step^[n] rng

theorem Pcg32i.skip_succ (n : ℕ) (rng : Pcg32i) : rng.skip (n + 1) = rng.step.skip n :=
  Function.iterate_succ_apply Pcg32i.step n rng

@[simp] theorem Pcg32i.skip_inc (n : ℕ) (rng : Pcg32i) : (rng.skip n).inc = rng.inc := by
  induction n generalizing rng with
  | zero => rfl
  | succ n ih => rw [skip_succ, ih, step]

/-- What `pcg_setseq_32_srandom_r` guarantees with `| 1u`. -/
def Pcg32i.Odd (rng : Pcg32i) : Prop := rng.inc.toNat % 2 = 1

theorem step_toNat (rng : Pcg32i) : rng.step.state.toNat ≡
    affine 747796405 rng.inc.toNat rng.state.toNat [MOD 2 ^ 32] := by
  simp only [Pcg32i.step, affine, UInt32.toNat_add, UInt32.toNat_mul]
  exact (Nat.mod_modEq _ _).trans ((Nat.mod_modEq _ _).add_right _)

theorem skip_toNat (n : ℕ) (rng : Pcg32i) : (rng.skip n).state.toNat ≡
    (affine 747796405 rng.inc.toNat)^[n] rng.state.toNat [MOD 2 ^ 32] := by
  have hstep : ∀ r : Pcg32i, r.inc = rng.inc → r.step.inc = rng.inc ∧
      r.step.state.toNat ≡ affine 747796405 rng.inc.toNat r.state.toNat [MOD 2 ^ 32] := by
    intro r hr
    rw [← hr]
    exact ⟨by rw [Pcg32i.step], step_toNat r⟩
  exact iterate_modEq_of_step (fun r : Pcg32i => r.state.toNat) (fun r => r.inc = rng.inc) hstep n rfl

/-- The period of the state is `2 ^ 32`. -/
theorem skip_state_eq_iff {rng : Pcg32i} (hodd : rng.Odd) (i j : ℕ) :
    (rng.skip i).state = (rng.skip j).state ↔ i ≡ j [MOD 2 ^ 32] := by
  rw [← UInt32.toNat_inj, ← iterate_modEq_iff (a := 747796405) (by decide) hodd 32 i j rng.state.toNat]
  have hi := skip_toNat i rng
  have hj := skip_toNat j rng
  constructor
  · intro h
    rw [h] at hi
    exact hi.symm.trans hj
  · intro h
    have hmod : (rng.skip i).state.toNat ≡ (rng.skip j).state.toNat [MOD 2 ^ 32] :=
      hi.trans (h.trans hj.symm)
    exact Nat.ModEq.eq_of_lt_of_lt hmod (UInt32.toNat_lt _) (UInt32.toNat_lt _)

theorem finite_uint32 : Finite UInt32 :=
  Nat.finite_of_card_ne_zero (by rw [nat_card_uint32]; exact Nat.two_pow_pos 32 |>.ne')

theorem skip_state_bijective {rng : Pcg32i} (hodd : rng.Odd) :
    Function.Bijective fun n : Fin (2 ^ 32) => (rng.skip n).state := by
  have hfinite : Finite UInt32 := finite_uint32
  have hinj : Function.Injective fun n : Fin (2 ^ 32) => (rng.skip n).state := by
    intro i j hij
    have hmod := (skip_state_eq_iff hodd i j).mp hij
    exact Fin.ext (Nat.ModEq.eq_of_lt_of_lt hmod i.isLt j.isLt)
  exact hinj.bijective_of_nat_card_le (by rw [nat_card_uint32, Nat.card_fin])

/-! ## The output of `PcgUInt32` -/

theorem toBitVec_injective : Function.Injective UInt32.toBitVec := fun _ _ => UInt32.toBitVec_inj.mp

theorem shiftRight_toBitVec (x : UInt32) {b : UInt32} (hb : b.toNat < 32) :
    (x >>> b).toBitVec = x.toBitVec >>> b.toNat := by
  have hamount : (b.toBitVec % 32).toNat = b.toNat := by
    rw [BitVec.toNat_umod, UInt32.toNat_toBitVec]
    exact Nat.mod_eq_of_lt hb
  rw [UInt32.toBitVec_shiftRight, BitVec.ushiftRight_eq', hamount]

theorem xor_shift_word_injective {b : UInt32} (hpos : 0 < b.toNat) (hb : b.toNat < 32) :
    Function.Injective fun x : UInt32 => x >>> b ^^^ x := by
  intro x y hxy
  apply toBitVec_injective
  apply xor_shift_injective hpos
  have h := congrArg UInt32.toBitVec hxy
  simpa only [UInt32.toBitVec_xor, shiftRight_toBitVec _ hb] using h

/-- The shift leaves to the XOR the bits that it cannot reach. -/
theorem xor_shift_top (s : UInt32) {b : UInt32} {j : ℕ} (hb : b.toNat < 32) (hj : 32 ≤ b.toNat + j) :
    (s >>> b ^^^ s).toNat / 2 ^ j = s.toNat / 2 ^ j := by
  have hsmall : s.toNat / 2 ^ b.toNat / 2 ^ j = 0 := by
    rw [Nat.div_div_eq_div_mul, ← pow_add]
    apply Nat.div_eq_of_lt
    calc s.toNat < 2 ^ 32 := s.toNat_lt
      _ ≤ 2 ^ (b.toNat + j) := Nat.pow_le_pow_right (by decide) hj
  rw [UInt32.toNat_xor, UInt32.toNat_shiftRight, Nat.mod_eq_of_lt hb, Nat.shiftRight_eq_div_pow,
    Nat.xor_div_two_pow, hsmall, Nat.zero_xor]

/-- A shift amount that the top bits give. -/
theorem amount_toNat (s : UInt32) {j n : UInt32} (hj : j.toNat < 32) (hj' : 8 ≤ j.toNat)
    (hn : n.toNat < 16) : (s >>> j + n).toNat = s.toNat / 2 ^ j.toNat + n.toNat := by
  have hsmall : s.toNat / 2 ^ j.toNat < 2 ^ 24 := by
    apply Nat.div_lt_of_lt_mul
    calc s.toNat < 2 ^ 32 := s.toNat_lt
      _ = 2 ^ 8 * 2 ^ 24 := by norm_num
      _ ≤ 2 ^ j.toNat * 2 ^ 24 := Nat.mul_le_mul_right _ (Nat.pow_le_pow_right (by decide) hj')
  rw [UInt32.toNat_add, UInt32.toNat_shiftRight, Nat.mod_eq_of_lt hj, Nat.shiftRight_eq_div_pow]
  exact Nat.mod_eq_of_lt (by omega)

theorem rxs_amount (s : UInt32) : (s >>> 28 + 4).toNat = s.toNat / 2 ^ 28 + 4 :=
  amount_toNat s (by decide) (by decide) (by decide)

theorem rxs_top (s : UInt32) :
    (s >>> (s >>> 28 + 4) ^^^ s).toNat / 2 ^ 28 = s.toNat / 2 ^ 28 := by
  have hlt := s.toNat_lt
  have hamount := rxs_amount s
  exact xor_shift_top s (by omega) (by omega)

theorem rxs_injective : Function.Injective fun s : UInt32 => s >>> (s >>> 28 + 4) ^^^ s := by
  intro s t hst
  have htop : s.toNat / 2 ^ 28 = t.toNat / 2 ^ 28 := by
    have h := congrArg (fun x => UInt32.toNat x / 2 ^ 28) hst
    simpa only [rxs_top] using h
  have hsame : (s >>> 28 + 4 : UInt32) = t >>> 28 + 4 := by
    rw [← UInt32.toNat_inj, rxs_amount, rxs_amount, htop]
  have hlt := t.toNat_lt
  have hamount := rxs_amount t
  apply xor_shift_word_injective (b := t >>> 28 + 4) (by omega) (by omega)
  calc s >>> (t >>> 28 + 4) ^^^ s = s >>> (s >>> 28 + 4) ^^^ s := by rw [hsame]
    _ = t >>> (t >>> 28 + 4) ^^^ t := hst

theorem multiplier_injective : Function.Injective fun x : UInt32 => x * 277803737 := by
  intro x y hxy
  have hinv : ∀ z : UInt32, z * 277803737 * 2897767785 = z := fun z => by
    rw [UInt32.mul_assoc, show (277803737 : UInt32) * 2897767785 = 1 from rfl, UInt32.mul_one]
  rw [← hinv x, ← hinv y]
  exact congrArg (· * 2897767785) hxy

theorem outputRxsMXs_injective : Function.Injective outputRxsMXs := by
  intro s t hst
  exact rxs_injective (multiplier_injective
    (xor_shift_word_injective (b := 22) (by decide) (by decide) hst))

theorem outputRxsMXs_bijective : Function.Bijective outputRxsMXs :=
  have _ : Finite UInt32 := finite_uint32
  Finite.injective_iff_bijective.mp outputRxsMXs_injective

/-! ## The output of `PcgUInt16` -/

/-- `t` without its 16 bits from position `p` on. -/
def cut (p t : ℕ) : ℕ := 2 ^ p * (t / 2 ^ (p + 16)) + t % 2 ^ p

theorem cut_div_self (p t : ℕ) : cut p t / 2 ^ p = t / 2 ^ (p + 16) := by
  have hpos := Nat.two_pow_pos p
  rw [cut, Nat.mul_add_div hpos, Nat.div_eq_of_lt (Nat.mod_lt t hpos), Nat.add_zero]

theorem cut_mod_self (p t : ℕ) : cut p t % 2 ^ p = t % 2 ^ p := by
  rw [cut, Nat.mul_add_mod, Nat.mod_mod]

theorem cut_div {p q : ℕ} (hpq : p ≤ q) (t : ℕ) : cut p t / 2 ^ q = t / 2 ^ (q + 16) := by
  obtain ⟨d, rfl⟩ := Nat.exists_eq_add_of_le hpq
  rw [pow_add, ← Nat.div_div_eq_div_mul, cut_div_self, Nat.div_div_eq_div_mul, ← pow_add,
    Nat.add_right_comm]

theorem eq_of_cut {p t u : ℕ} (hwindow : t / 2 ^ p % 2 ^ 16 = u / 2 ^ p % 2 ^ 16)
    (hcut : cut p t = cut p u) : t = u := by
  have habove : t / 2 ^ p / 2 ^ 16 = u / 2 ^ p / 2 ^ 16 := by
    rw [Nat.div_div_eq_div_mul, Nat.div_div_eq_div_mul, ← pow_add, ← cut_div_self, hcut, cut_div_self]
  have hhigh : t / 2 ^ p = u / 2 ^ p := by
    rw [← Nat.div_add_mod (t / 2 ^ p) (2 ^ 16), habove, hwindow, Nat.div_add_mod]
  have hlow : t % 2 ^ p = u % 2 ^ p := by rw [← cut_mod_self, hcut, cut_mod_self]
  rw [← Nat.div_add_mod t (2 ^ p), hhigh, hlow, Nat.div_add_mod]

/-- The XOR of `pcg_output_xsh_rs_32_16`. -/
def xsh (s : UInt32) : UInt32 := s >>> 11 ^^^ s

/-- Where the output begins in `xsh s`. -/
def xshStart (s : UInt32) : ℕ := s.toNat / 2 ^ 30 + 11

theorem xsh_top (s : UInt32) : (xsh s).toNat / 2 ^ 30 = s.toNat / 2 ^ 30 :=
  xor_shift_top s (by decide) (by decide)

theorem outputXshRs_toNat (s : UInt32) :
    (outputXshRs s).toNat = (xsh s).toNat / 2 ^ xshStart s % 2 ^ 16 := by
  have hlt := s.toNat_lt
  have hamount : (s >>> 30 + 11).toNat = xshStart s :=
    amount_toNat s (by decide) (by decide) (by decide)
  have hsmall : xshStart s < 32 := by
    unfold xshStart
    omega
  rw [outputXshRs, UInt32.toNat_toUInt16, UInt32.toNat_shiftRight, hamount, Nat.mod_eq_of_lt hsmall,
    Nat.shiftRight_eq_div_pow]
  rfl

/-- The bits that the output leaves out. The two top bits are among them, and say where the output was. -/
def xshRest (s : UInt32) : ℕ := cut (xshStart s) (xsh s).toNat

theorem xshRest_div (s : UInt32) : xshRest s / 2 ^ 14 = s.toNat / 2 ^ 30 := by
  have hlt := s.toNat_lt
  rw [xshRest, cut_div (by unfold xshStart; omega), xsh_top]

theorem xshRest_lt (s : UInt32) : xshRest s < 2 ^ 16 := by
  have hlt := s.toNat_lt
  have hdiv := xshRest_div s
  omega

def xshSplit (s : UInt32) : UInt16 × Fin (2 ^ 16) := (outputXshRs s, ⟨xshRest s, xshRest_lt s⟩)

theorem xshSplit_injective : Function.Injective xshSplit := by
  intro s t hst
  obtain ⟨hout, hrest⟩ := Prod.mk.inj hst
  have hrest' : xshRest s = xshRest t := Fin.mk.inj hrest
  have hstart : xshStart s = xshStart t := by
    rw [xshStart, ← xshRest_div, hrest', xshRest_div, xshStart]
  have hxsh : (xsh s).toNat = (xsh t).toNat := by
    apply eq_of_cut (p := xshStart s)
    · rw [← outputXshRs_toNat, hout, outputXshRs_toNat, hstart]
    · calc cut (xshStart s) (xsh s).toNat = xshRest s := rfl
        _ = xshRest t := hrest'
        _ = cut (xshStart s) (xsh t).toNat := by rw [hstart]; rfl
  exact xor_shift_word_injective (b := 11) (by decide) (by decide) (UInt32.toNat_inj.mp hxsh)

theorem nat_card_uint16 : Nat.card UInt16 = 2 ^ 16 := by
  have hequiv : UInt16 ≃ Fin (2 ^ 16) :=
    ⟨UInt16.toFin, UInt16.ofFin, fun _ => rfl, fun _ => rfl⟩
  rw [Nat.card_congr hequiv, Nat.card_fin]

theorem xshSplit_bijective : Function.Bijective xshSplit := by
  have hcard : Nat.card UInt32 = Nat.card (UInt16 × Fin (2 ^ 16)) := by
    rw [Nat.card_prod, nat_card_uint16, nat_card_uint32, Nat.card_fin, ← pow_add]
  have hfinite : Finite (UInt16 × Fin (2 ^ 16)) :=
    Nat.finite_of_card_ne_zero (by rw [← hcard, nat_card_uint32]; exact (Nat.two_pow_pos 32).ne')
  exact xshSplit_injective.bijective_of_nat_card_le hcard.ge

theorem card_outputXshRs (y : UInt16) : Nat.card {s // outputXshRs s = y} = 2 ^ 16 := by
  have h := card_fiber xshSplit_bijective y
  rwa [Nat.card_fin] at h

theorem card_outputRxsMXs (y : UInt32) : Nat.card {s // outputRxsMXs s = y} = 1 := by
  obtain ⟨s, hs⟩ := outputRxsMXs_bijective.surjective y
  rw [Nat.card_eq_one_iff_exists]
  exact ⟨⟨s, hs⟩, fun t => Subtype.ext (outputRxsMXs_injective (t.2.trans hs.symm))⟩

/-! ## Seeding -/

theorem srandom_odd (initstate initseq : UInt32) : (Pcg32i.srandom initstate initseq).Odd := by
  have hinc : (Pcg32i.srandom initstate initseq).inc = initseq <<< 1 ||| 1 := rfl
  rw [Pcg32i.Odd, hinc, UInt32.toNat_or]
  exact Nat.or_mod_two_eq_one.mpr (Or.inr rfl)

theorem prngInit_odd (g : Generators) : (prngInit g).pcg32.Odd := srandom_odd _ _

/-- Two outputs in a row give the state and the increment away. -/
theorem eq_of_outputs {r r' : Pcg32i} (hfirst : outputRxsMXs r.state = outputRxsMXs r'.state)
    (hsecond : outputRxsMXs r.step.state = outputRxsMXs r'.step.state) : r = r' := by
  have hstate : r.state = r'.state := outputRxsMXs_injective hfirst
  have hnext : r.state * 747796405 + r.inc = r'.state * 747796405 + r'.inc :=
    outputRxsMXs_injective hsecond
  rw [hstate] at hnext
  have hinc : r.inc = r'.inc := (UInt32.add_right_inj _).mp hnext
  cases r
  cases r'
  simp_all

/-! ## Runs -/

/-- The functions of `src/src/prng.h` that `main` and the interrupt call once `PrngInit` has run, and
`RandomUInt32`. -/
inductive PrngCall
  | randomUInt32
  | csPrngInjectLowbits (x : UInt32)
  | csPrngInjectRandom
  | pcgUInt16
  | pcgUInt32
  | csPrngUInt64
  | csPrngUInt64x2

namespace PrngCall

def run : PrngCall → Generators → Generators
  | randomUInt32, g => (Prng.randomUInt32 g).2
  | csPrngInjectLowbits x, g => Prng.csPrngInjectLowbits x g
  | csPrngInjectRandom, g => Prng.csPrngInjectRandom g
  | pcgUInt16, g => (Prng.pcgUInt16 g).2
  | pcgUInt32, g => (Prng.pcgUInt32 g).2
  | csPrngUInt64, g => (Prng.csPrngUInt64 g).2
  | csPrngUInt64x2, g => (Prng.csPrngUInt64x2 g).2

def runs (calls : List PrngCall) (g : Generators) : Generators :=
  calls.foldl (fun g call => call.run g) g

/-- How far a call moves the PCG state. -/
def steps : PrngCall → ℕ
  | pcgUInt16 | pcgUInt32 => 1
  | _ => 0

def pcgSteps (calls : List PrngCall) : ℕ := (calls.map steps).sum

theorem run_pcg32 (call : PrngCall) (g : Generators) :
    (call.run g).pcg32 = g.pcg32.skip call.steps := by
  cases call with
  | pcgUInt16 => exact (Pcg32i.skip_succ 0 g.pcg32).symm
  | pcgUInt32 => exact (Pcg32i.skip_succ 0 g.pcg32).symm
  | randomUInt32 => rfl
  | csPrngInjectLowbits x => rfl
  | csPrngInjectRandom => rfl
  | csPrngUInt64 => rfl
  | csPrngUInt64x2 => rfl

theorem runs_odd (calls : List PrngCall) {g : Generators} (hodd : g.pcg32.Odd) :
    (runs calls g).pcg32.Odd := by
  induction calls generalizing g with
  | nil => exact hodd
  | cons call calls ih =>
    apply ih
    rw [Pcg32i.Odd, run_pcg32, Pcg32i.skip_inc]
    exact hodd

def word : PrngCall → Generators → Option UInt32
  | pcgUInt32, g => some (Prng.pcgUInt32 g).1
  | _, _ => none

def halfword : PrngCall → Generators → Option UInt16
  | pcgUInt16, g => some (Prng.pcgUInt16 g).1
  | _, _ => none

section Results

variable {α : Type} {value : PrngCall → Generators → Option α} {out : UInt32 → α}

/-- What the calls of a run that have a value returned, oldest first. -/
def results (value : PrngCall → Generators → Option α) : List PrngCall → Generators → List α
  | [], _ => []
  | call :: calls, g => (value call g).toList ++ results value calls (call.run g)

/-- What the output function gives on the next `n` states. -/
def outputs (out : UInt32 → α) (n : ℕ) (rng : Pcg32i) : List α :=
  (List.range n).map fun i => out (rng.skip i).state

theorem outputs_add (out : UInt32 → α) (m n : ℕ) (rng : Pcg32i) :
    outputs out (m + n) rng = outputs out m rng ++ outputs out n (rng.skip m) := by
  simp only [outputs, List.range_add, List.map_append, List.map_map]
  congr 1
  refine List.map_congr_left fun i _ => ?_
  rw [Function.comp_apply, Pcg32i.skip, Nat.add_comm, Function.iterate_add_apply]
  rfl

theorem results_sublist
    (hvalue : ∀ call g, ((value call g).toList).Sublist (outputs out call.steps g.pcg32))
    (calls : List PrngCall) (g : Generators) :
    (results value calls g).Sublist (outputs out (pcgSteps calls) g.pcg32) := by
  induction calls generalizing g with
  | nil => exact List.Sublist.refl _
  | cons call calls ih =>
    have hrest := ih (call.run g)
    rw [run_pcg32] at hrest
    rw [results, pcgSteps, List.map_cons, List.sum_cons, outputs_add]
    exact (hvalue call g).append hrest

theorem results_eq_outputs {calls : List PrngCall}
    (hvalue : ∀ call ∈ calls, ∀ g, (value call g).toList = outputs out call.steps g.pcg32)
    (g : Generators) : results value calls g = outputs out (pcgSteps calls) g.pcg32 := by
  induction calls generalizing g with
  | nil => rfl
  | cons call calls ih =>
    have hrest := ih (fun c hc => hvalue c (List.mem_cons_of_mem _ hc)) (call.run g)
    rw [run_pcg32] at hrest
    rw [results, pcgSteps, List.map_cons, List.sum_cons, outputs_add,
      hvalue call List.mem_cons_self, hrest]
    rfl

end Results

theorem word_sublist (call : PrngCall) (g : Generators) :
    ((word call g).toList).Sublist (outputs outputRxsMXs call.steps g.pcg32) := by
  cases call with
  | pcgUInt32 => exact List.Sublist.refl _
  | _ => exact List.nil_sublist _

theorem word_toList {call : PrngCall} (hcall : call ≠ pcgUInt16) (g : Generators) :
    (word call g).toList = outputs outputRxsMXs call.steps g.pcg32 := by
  cases call with
  | pcgUInt16 => exact absurd rfl hcall
  | _ => rfl

theorem halfword_toList {call : PrngCall} (hcall : call ≠ pcgUInt32) (g : Generators) :
    (halfword call g).toList = outputs outputXshRs call.steps g.pcg32 := by
  cases call with
  | pcgUInt32 => exact absurd rfl hcall
  | _ => rfl

theorem words_eq {calls : List PrngCall} (hcalls : pcgUInt16 ∉ calls) (g : Generators) :
    results word calls g = outputs outputRxsMXs (pcgSteps calls) g.pcg32 :=
  results_eq_outputs (fun _ hc => word_toList fun heq => hcalls (heq ▸ hc)) g

theorem halfwords_eq {calls : List PrngCall} (hcalls : pcgUInt32 ∉ calls) (g : Generators) :
    results halfword calls g = outputs outputXshRs (pcgSteps calls) g.pcg32 :=
  results_eq_outputs (fun _ hc => halfword_toList fun heq => hcalls (heq ▸ hc)) g

theorem count_outputs {α : Type} [DecidableEq α] {rng : Pcg32i} (hodd : rng.Odd) (out : UInt32 → α) (y : α) :
    (outputs out (2 ^ 32) rng).count y = Nat.card {s // out s = y} :=
  count_period (skip_state_bijective hodd) out y

theorem outputs_nodup {rng : Pcg32i} (hodd : rng.Odd) {n : ℕ} (hn : n ≤ 2 ^ 32) :
    (outputs outputRxsMXs n rng).Nodup := by
  refine List.Nodup.map_on ?_ List.nodup_range
  intro i hi j hj hij
  have hmod := (skip_state_eq_iff hodd i j).mp (outputRxsMXs_injective hij)
  exact Nat.ModEq.eq_of_lt_of_lt hmod ((List.mem_range.mp hi).trans_le hn)
    ((List.mem_range.mp hj).trans_le hn)

theorem pcgSteps_replicate (n : ℕ) (call : PrngCall) (hcall : call.steps = 1) :
    pcgSteps (List.replicate n call) = n := by
  rw [pcgSteps, List.map_replicate, hcall, List.sum_replicate_nat, Nat.mul_one]

theorem notMem_replicate (n : ℕ) {call call' : PrngCall} (hne : call' ≠ call) :
    call' ∉ List.replicate n call := fun hmem => hne (List.eq_of_mem_replicate hmem)

/-- **`PcgUInt32` has the full period.** After `PrngInit` and any calls, among calls that step the PCG
state at most `2 ^ 32` times `PcgUInt32` returns no word twice; and when there are `2 ^ 32` steps and all
of them are its own, it returns each word exactly once. -/
theorem pcgUInt32_period (g : Generators) (earlier calls : List PrngCall) :
    (pcgSteps calls ≤ 2 ^ 32 → (results word calls (runs earlier (prngInit g))).Nodup) ∧
      (pcgSteps calls = 2 ^ 32 → pcgUInt16 ∉ calls →
        ∀ y, (results word calls (runs earlier (prngInit g))).count y = 1) := by
  have hodd := runs_odd earlier (prngInit_odd g)
  constructor
  · intro hfew
    exact (outputs_nodup hodd hfew).sublist (results_sublist word_sublist calls _)
  · intro hall hown y
    rw [words_eq hown, hall, count_outputs hodd, card_outputRxsMXs]

/-- A generator before `PrngInit`, with a TRNG that counts. -/
def atReset : Generators := ⟨fun _ => 0, 0, 0, ⟨0, 0⟩, UInt32.ofNat, fun _ => ⟨0, 7, 0⟩⟩

/-- A period of `PcgUInt32` that begins when the key has been refreshed. -/
theorem pcgUInt32_period_after_refresh :
    (results word (List.replicate (2 ^ 32) pcgUInt32)
        (runs [csPrngInjectRandom] (prngInit atReset))).Nodup ∧
      (results word (List.replicate (2 ^ 32) pcgUInt32)
        (runs [csPrngInjectRandom] (prngInit atReset))).count 2026 = 1 := by
  have hsteps := pcgSteps_replicate (2 ^ 32) pcgUInt32 rfl
  obtain ⟨hnodup, hcount⟩ :=
    pcgUInt32_period atReset [csPrngInjectRandom] (List.replicate (2 ^ 32) pcgUInt32)
  exact ⟨hnodup hsteps.le, hcount hsteps (notMem_replicate _ (by simp)) 2026⟩

/-- **`PcgUInt16` is equidistributed.** After `PrngInit` and any calls, when the PCG state is stepped
`2 ^ 32` times and all of them are calls of `PcgUInt16`, each value is returned `2 ^ 16` times. -/
theorem pcgUInt16_equidistributed (g : Generators) (earlier : List PrngCall) {calls : List PrngCall}
    (hsteps : pcgSteps calls = 2 ^ 32) (hown : pcgUInt32 ∉ calls) (y : UInt16) :
    (results halfword calls (runs earlier (prngInit g))).count y = 2 ^ 16 := by
  rw [halfwords_eq hown, hsteps, count_outputs (runs_odd earlier (prngInit_odd g)), card_outputXshRs]

theorem pcgUInt16_equidistributed_from_start :
    (results halfword (List.replicate (2 ^ 32) pcgUInt16)
      (runs [pcgUInt32] (prngInit atReset))).count 2026 = 2 ^ 16 :=
  pcgUInt16_equidistributed atReset [pcgUInt32] (pcgSteps_replicate (2 ^ 32) _ rfl)
    (notMem_replicate _ (by simp)) 2026

/-! ## Which seeds have the same outputs -/

theorem shiftLeft_or_one (x : UInt32) : (x <<< 1 ||| 1).toNat = (x <<< 1).toNat + 1 := by
  have hshift : (x <<< 1).toNat = x.toNat * 2 % 2 ^ 32 := by
    rw [UInt32.toNat_shiftLeft]
    exact congrArg (· % 2 ^ 32) (Nat.shiftLeft_eq x.toNat 1)
  obtain ⟨k, hk⟩ : ∃ k, (x <<< 1).toNat = k <<< 1 :=
    ⟨x.toNat * 2 % 2 ^ 32 / 2, by rw [hshift, Nat.shiftLeft_eq]; omega⟩
  rw [UInt32.toNat_or, hk]
  exact (Nat.shiftLeft_add_eq_or_of_lt (show 1 < 2 ^ 1 by decide) k).symm

theorem increment_injective : Function.Injective fun x : UInt32 => x * 747796405 := by
  intro x y hxy
  have hinv : ∀ z : UInt32, z * 747796405 * 3425435293 = z := fun z => by
    rw [UInt32.mul_assoc, show (747796405 : UInt32) * 3425435293 = 1 from rfl, UInt32.mul_one]
  rw [← hinv x, ← hinv y]
  exact congrArg (· * 3425435293) hxy

theorem srandom_state (hi lo : UInt32) : (Pcg32i.srandom hi lo).state =
    (0 * 747796405 + (lo <<< (1 : UInt32) ||| 1) + hi) * 747796405 + (lo <<< (1 : UInt32) ||| 1) := rfl

/-- The seeding loses the top bit of `initseq` and nothing else. -/
theorem srandom_inj {hi lo hi' lo' : UInt32} :
    Pcg32i.srandom hi lo = Pcg32i.srandom hi' lo' ↔ hi = hi' ∧ lo <<< 1 = lo' <<< 1 := by
  constructor
  · intro heq
    have hinc : (lo <<< 1 ||| 1 : UInt32) = (lo' <<< 1 ||| 1 : UInt32) := congrArg Pcg32i.inc heq
    have hseq : lo <<< 1 = lo' <<< 1 := by
      have h := congrArg UInt32.toNat hinc
      rw [shiftLeft_or_one, shiftLeft_or_one] at h
      exact UInt32.toNat_inj.mp (Nat.add_right_cancel h)
    refine ⟨?_, hseq⟩
    have hstate := congrArg Pcg32i.state heq
    rw [srandom_state, srandom_state, hinc] at hstate
    exact (UInt32.add_right_inj _).mp (increment_injective ((UInt32.add_left_inj _).mp hstate))
  · rintro ⟨rfl, hseq⟩
    rw [Pcg32i.srandom, Pcg32i.srandom, hseq]

/-- **Seeds and streams.** Two boots get the same words from a run of calls of `PcgUInt32`, of which
there are at least two, exactly when `CSPrngUInt64` gave them the same seed up to the top bit of its low
half. -/
theorem pcgInit_streams (g g' : Generators) (calls : List PrngCall) (hown : pcgUInt16 ∉ calls)
    (hsteps : 2 ≤ pcgSteps calls) :
    results word calls (pcgInit g) = results word calls (pcgInit g') ↔
      highWord (Prng.csPrngUInt64 g).1 = highWord (Prng.csPrngUInt64 g').1 ∧
        lowWord (Prng.csPrngUInt64 g).1 <<< 1 = lowWord (Prng.csPrngUInt64 g').1 <<< 1 := by
  have hsame : results word calls (pcgInit g) = results word calls (pcgInit g') ↔
      (pcgInit g).pcg32 = (pcgInit g').pcg32 := by
    rw [words_eq hown, words_eq hown]
    constructor
    · intro heq
      have hget : ∀ i < 2, outputRxsMXs ((pcgInit g).pcg32.skip i).state =
          outputRxsMXs ((pcgInit g').pcg32.skip i).state := by
        intro i hi
        exact List.map_inj_left.mp heq i (List.mem_range.mpr (hi.trans_le hsteps))
      exact eq_of_outputs (hget 0 (by decide)) (hget 1 (by decide))
    · intro heq
      rw [heq]
  rw [hsame]
  exact srandom_inj

/-- A tick makes another seed. -/
theorem pcgInit_streams_at_next_tick :
    results word [pcgUInt32, csPrngInjectRandom, pcgUInt32] (pcgInit atReset) ≠
      results word [pcgUInt32, csPrngInjectRandom, pcgUInt32]
        (pcgInit { atReset with sysTick := fun _ => ⟨0, 8, 0⟩ }) :=
  (pcgInit_streams atReset { atReset with sysTick := fun _ => ⟨0, 8, 0⟩ }
    [pcgUInt32, csPrngInjectRandom, pcgUInt32] (by simp) (by decide)).not.mpr (by decide +kernel)

end PrngCall

end Wchratum1.Prng
