import Wchratum1.Foundations.Words
import Mathlib.Data.Fin.VecNotation
import Mathlib.Logic.Function.Iterate

/-! # Chaskey with 8 rounds

Translated from `src/src/chaskey.c`. Each of the three functions has its own copy of the loop, and each
copy is translated on its own (`round`, `round64x64`, `round64x128`).

The copies agree, so that the two variants for registers are the plain function on the block
`(v0, v1, 0, 0)` (`chaskey8_variants`); and a round can be undone line by line, so that `chaskey8` is a
permutation of the blocks for every key (`chaskey8_undone`).
-/

namespace Wchratum1.Prng
set_option autoImplicit false

def rotl (x b : UInt32) : UInt32 := x >>> (32 - b) ||| x <<< b

/-- The locals `v0` to `v3`. -/
structure Block where
  v0 : UInt32
  v1 : UInt32
  v2 : UInt32
  v3 : UInt32
  deriving DecidableEq

/-- `for (int i = rounds; i; i--) body`. -/
def roundLoop (body : Block → Block) : ℕ → Block → Block
  | 0, v => v
  | i + 1, v => roundLoop body i (body v)

def rounds : ℕ := 8

/-- The loop body of `chaskey8`. -/
def round (v : Block) : Block :=
  let ⟨v0, v1, v2, v3⟩ := v
  let v0 := v0 + v1
  let v1 := rotl v1 5
  let v1 := v1 ^^^ v0
  let v0 := rotl v0 16
  let v2 := v2 + v3
  let v3 := rotl v3 8
  let v3 := v3 ^^^ v2
  let v0 := v0 + v3
  let v3 := rotl v3 13
  let v3 := v3 ^^^ v0
  let v2 := v2 + v1
  let v1 := rotl v1 7
  let v1 := v1 ^^^ v2
  let v2 := rotl v2 16
  ⟨v0, v1, v2, v3⟩

-- the indices of `v` and `key`
instance wordIndexNeZero : NeZero 4 := ⟨by decide⟩

/-- `chaskey8`: the new contents of `v`. -/
def chaskey8 (v key : Fin 4 → UInt32) : Fin 4 → UInt32 :=
  let w := roundLoop round rounds ⟨v 0 ^^^ key 0, v 1 ^^^ key 1, v 2 ^^^ key 2, v 3 ^^^ key 3⟩
  ![w.v0 ^^^ key 0, w.v1 ^^^ key 1, w.v2 ^^^ key 2, w.v3 ^^^ key 3]

/-- The loop body of `chaskey8_64x64`. -/
def round64x64 (v : Block) : Block :=
  let ⟨v0, v1, v2, v3⟩ := v
  let v0 := v0 + v1
  let v1 := rotl v1 5
  let v1 := v1 ^^^ v0
  let v0 := rotl v0 16
  let v2 := v2 + v3
  let v3 := rotl v3 8
  let v3 := v3 ^^^ v2
  let v0 := v0 + v3
  let v3 := rotl v3 13
  let v3 := v3 ^^^ v0
  let v2 := v2 + v1
  let v1 := rotl v1 7
  let v1 := v1 ^^^ v2
  let v2 := rotl v2 16
  ⟨v0, v1, v2, v3⟩

def chaskey8_64x64 (v0 v1 : UInt32) (key : Fin 4 → UInt32) : UInt64 :=
  let w := roundLoop round64x64 rounds ⟨v0 ^^^ key 0, v1 ^^^ key 1, key 2, key 3⟩
  let hi := w.v0 ^^^ key 0 ^^^ w.v1 ^^^ key 1
  let lo := w.v2 ^^^ key 2 ^^^ w.v3 ^^^ key 3
  wideWord hi lo

/-- The loop body of `chaskey8_64x128`. -/
def round64x128 (v : Block) : Block :=
  let ⟨v0, v1, v2, v3⟩ := v
  let v0 := v0 + v1
  let v1 := rotl v1 5
  let v1 := v1 ^^^ v0
  let v0 := rotl v0 16
  let v2 := v2 + v3
  let v3 := rotl v3 8
  let v3 := v3 ^^^ v2
  let v0 := v0 + v3
  let v3 := rotl v3 13
  let v3 := v3 ^^^ v0
  let v2 := v2 + v1
  let v1 := rotl v1 7
  let v1 := v1 ^^^ v2
  let v2 := rotl v2 16
  ⟨v0, v1, v2, v3⟩

/-- `chaskey8_64x128`: the value it returns, and what it stores into `dst[0]` and `dst[1]`. -/
def chaskey8_64x128 (v0 v1 : UInt32) (key : Fin 4 → UInt32) : UInt64 × UInt32 × UInt32 :=
  let w := roundLoop round64x128 rounds ⟨v0 ^^^ key 0, v1 ^^^ key 1, key 2, key 3⟩
  let hi := w.v0 ^^^ key 0
  let lo := w.v1 ^^^ key 1
  (wideWord hi lo, w.v2 ^^^ key 2, w.v3 ^^^ key 3)

/-! ## The variants -/

theorem round64x64_eq : round64x64 = round := rfl

theorem round64x128_eq : round64x128 = round := rfl

/-- `chaskey8` on a block whose last two words are 0, before the key is added again. -/
theorem chaskey8_short (v0 v1 : UInt32) (key : Fin 4 → UInt32) :
    chaskey8 ![v0, v1, 0, 0] key =
      let w := roundLoop round rounds ⟨v0 ^^^ key 0, v1 ^^^ key 1, key 2, key 3⟩
      ![w.v0 ^^^ key 0, w.v1 ^^^ key 1, w.v2 ^^^ key 2, w.v3 ^^^ key 3] := by
  simp only [chaskey8, Matrix.cons_val, UInt32.zero_xor]

/-- **The variants agree.** `chaskey8_64x128` returns and stores the four words that `chaskey8` leaves,
and `chaskey8_64x64` folds them into two. -/
theorem chaskey8_variants (key : Fin 4 → UInt32) (v0 v1 : UInt32) :
    chaskey8_64x128 v0 v1 key =
        (wideWord (chaskey8 ![v0, v1, 0, 0] key 0) (chaskey8 ![v0, v1, 0, 0] key 1),
          chaskey8 ![v0, v1, 0, 0] key 2, chaskey8 ![v0, v1, 0, 0] key 3) ∧
      chaskey8_64x64 v0 v1 key =
        wideWord (chaskey8 ![v0, v1, 0, 0] key 0 ^^^ chaskey8 ![v0, v1, 0, 0] key 1)
          (chaskey8 ![v0, v1, 0, 0] key 2 ^^^ chaskey8 ![v0, v1, 0, 0] key 3) := by
  rw [chaskey8_short]
  constructor
  · rw [chaskey8_64x128, round64x128_eq]
    rfl
  · rw [chaskey8_64x64, round64x64_eq]
    simp only [Matrix.cons_val, UInt32.xor_assoc]

/-! ## Undoing the rounds -/

theorem rotl_rotl (x : UInt32) {b c : UInt32} (hb : 0 < b.toNat) (hc : 0 < c.toNat)
    (hturn : b.toNat + c.toNat = 32) : rotl (rotl x b) c = x := by
  apply UInt32.toBitVec_inj.mp
  rw [rotl, shifts_toBitVec _ (by omega) hc, rotl, shifts_toBitVec _ (by omega) hb]
  exact rotateLeft_full_turn x.toBitVec hb hc hturn

/-- The lines of `round` undone, last line first. -/
def roundInv (v : Block) : Block :=
  let ⟨v0, v1, v2, v3⟩ := v
  let v2 := rotl v2 16
  let v1 := v1 ^^^ v2
  let v1 := rotl v1 25
  let v2 := v2 - v1
  let v3 := v3 ^^^ v0
  let v3 := rotl v3 19
  let v0 := v0 - v3
  let v3 := v3 ^^^ v2
  let v3 := rotl v3 24
  let v2 := v2 - v3
  let v0 := rotl v0 16
  let v1 := v1 ^^^ v0
  let v1 := rotl v1 27
  let v0 := v0 - v1
  ⟨v0, v1, v2, v3⟩

theorem roundInv_round (v : Block) : roundInv (round v) = v := by
  obtain ⟨v0, v1, v2, v3⟩ := v
  have h5 (x : UInt32) : rotl (rotl x 5) 27 = x := rotl_rotl x (by decide) (by decide) rfl
  have h7 (x : UInt32) : rotl (rotl x 7) 25 = x := rotl_rotl x (by decide) (by decide) rfl
  have h8 (x : UInt32) : rotl (rotl x 8) 24 = x := rotl_rotl x (by decide) (by decide) rfl
  have h13 (x : UInt32) : rotl (rotl x 13) 19 = x := rotl_rotl x (by decide) (by decide) rfl
  have h16 (x : UInt32) : rotl (rotl x 16) 16 = x := rotl_rotl x (by decide) (by decide) rfl
  simp only [round, roundInv, h16, h7, h13, h8, h5, xor_cancel, UInt32.add_sub_cancel]

theorem round_roundInv (v : Block) : round (roundInv v) = v := by
  obtain ⟨v0, v1, v2, v3⟩ := v
  have h5 (x : UInt32) : rotl (rotl x 27) 5 = x := rotl_rotl x (by decide) (by decide) rfl
  have h7 (x : UInt32) : rotl (rotl x 25) 7 = x := rotl_rotl x (by decide) (by decide) rfl
  have h8 (x : UInt32) : rotl (rotl x 24) 8 = x := rotl_rotl x (by decide) (by decide) rfl
  have h13 (x : UInt32) : rotl (rotl x 19) 13 = x := rotl_rotl x (by decide) (by decide) rfl
  have h16 (x : UInt32) : rotl (rotl x 16) 16 = x := rotl_rotl x (by decide) (by decide) rfl
  simp only [round, roundInv, h16, h7, h13, h8, h5, xor_cancel, UInt32.sub_add_cancel]

theorem roundLoop_eq_iterate (body : Block → Block) (n : ℕ) (v : Block) :
    roundLoop body n v = body^[n] v := by
  induction n generalizing v with
  | zero => rfl
  | succ n ih => rw [roundLoop, ih, Function.iterate_succ_apply]

theorem roundLoop_undone (n : ℕ) (v : Block) :
    roundLoop roundInv n (roundLoop round n v) = v ∧
      roundLoop round n (roundLoop roundInv n v) = v := by
  simp only [roundLoop_eq_iterate]
  exact ⟨Function.LeftInverse.iterate roundInv_round n v,
    Function.LeftInverse.iterate round_roundInv n v⟩

def Block.ofWords (v : Fin 4 → UInt32) : Block := ⟨v 0, v 1, v 2, v 3⟩

def Block.words (b : Block) : Fin 4 → UInt32 := ![b.v0, b.v1, b.v2, b.v3]

def Block.whiten (key : Fin 4 → UInt32) (b : Block) : Block :=
  ⟨b.v0 ^^^ key 0, b.v1 ^^^ key 1, b.v2 ^^^ key 2, b.v3 ^^^ key 3⟩

theorem Block.ofWords_words (b : Block) : ofWords b.words = b := rfl

theorem Block.words_ofWords (v : Fin 4 → UInt32) : (ofWords v).words = v := by
  funext i
  match i with
  | 0 | 1 | 2 | 3 => rfl

theorem Block.whiten_whiten (key : Fin 4 → UInt32) (b : Block) : (b.whiten key).whiten key = b := by
  simp only [whiten, xor_cancel]

theorem chaskey8_eq (v key : Fin 4 → UInt32) : chaskey8 v key =
    ((roundLoop round rounds ((Block.ofWords v).whiten key)).whiten key).words := rfl

/-- `chaskey8` backwards: the key off, the rounds undone, the key off again. -/
def chaskey8Inv (v key : Fin 4 → UInt32) : Fin 4 → UInt32 :=
  ((roundLoop roundInv rounds ((Block.ofWords v).whiten key)).whiten key).words

theorem chaskey8_undone (key : Fin 4 → UInt32) :
    Function.LeftInverse (chaskey8Inv · key) (chaskey8 · key) ∧
      Function.RightInverse (chaskey8Inv · key) (chaskey8 · key) := by
  constructor
  · intro v
    simp only [chaskey8_eq, chaskey8Inv, Block.ofWords_words, Block.whiten_whiten, roundLoop_undone,
      Block.words_ofWords]
  · intro v
    simp only [chaskey8_eq, chaskey8Inv, Block.ofWords_words, Block.whiten_whiten, roundLoop_undone,
      Block.words_ofWords]

theorem chaskey8_bijective (key : Fin 4 → UInt32) : Function.Bijective (chaskey8 · key) := by
  obtain ⟨hleft, hright⟩ := chaskey8_undone key
  exact ⟨hleft.injective, hright.surjective⟩

/-- The 128 bits that `chaskey8_64x128` makes of a counter determine the counter. -/
theorem chaskey8_64x128_injective (key : Fin 4 → UInt32) :
    Function.Injective fun hilo : UInt64 => chaskey8_64x128 (lowWord hilo) (highWord hilo) key := by
  intro t u h
  simp only [(chaskey8_variants key _ _).1, Prod.mk.injEq, wideWord_inj] at h
  obtain ⟨⟨h0, h1⟩, h2, h3⟩ := h
  have hblock : chaskey8 ![lowWord t, highWord t, 0, 0] key =
      chaskey8 ![lowWord u, highWord u, 0, 0] key := by
    funext i
    match i with
    | 0 => exact h0
    | 1 => exact h1
    | 2 => exact h2
    | 3 => exact h3
  have hinput := (chaskey8_bijective key).1 hblock
  have hlo : lowWord t = lowWord u := congrFun hinput 0
  have hhi : highWord t = highWord u := congrFun hinput 1
  rw [← wideWord_halves t, ← wideWord_halves u, hlo, hhi]

end Wchratum1.Prng
