import Wchratum1.Prng.Generators

/-! # Nothing is lost between the TRNG and the output

`CSPrngInit` runs `chaskey8` over the key 16 times, each time with fresh words as the key of the
cipher. For given words every round is a permutation of `kPrngKey`, so the final key is a permutation of
the first four words; and a given key turns different times into different outputs.
-/

namespace Wchratum1.Prng
set_option autoImplicit false

/-- The TRNG will deliver `first` and then `rest`. -/
def Generators.deliver (g : Generators) (first : Fin 4 → UInt32) (rest : ℕ → UInt32) : Generators :=
  { g with trng := fun n => if h : n < 4 then first ⟨n, h⟩ else rest (n - 4) }

theorem drawWords_deliver (g : Generators) (first : Fin 4 → UInt32) (rest : ℕ → UInt32) :
    drawWords id (g.deliver first rest) = (first, { g with trng := rest }) := by
  refine Prod.ext ?_ rfl
  funext i
  match i with
  | 0 | 1 | 2 | 3 => rfl

/-- What a round does to the key depends on the words that the TRNG delivers only. -/
theorem csPrngInitRound_key (g : Generators) (round : ℕ) :
    ∃ (trng : Fin 4 → UInt32) (g' : Generators), ∀ key, csPrngInitRound { g with kPrngKey := key } round =
      { g' with kPrngKey := chaskey8 key trng } :=
  ⟨(drawWords (fun word => rotlu32 word (UInt32.ofNat round * 2)) g).1,
    (drawWords (fun word => rotlu32 word (UInt32.ofNat round * 2)) g).2, fun _ => rfl⟩

/-- Any number of rounds permutes the keys. -/
theorem initRounds_bijective (rounds : List ℕ) (g : Generators) :
    Function.Bijective fun key : Fin 4 → UInt32 =>
      (rounds.foldl csPrngInitRound { g with kPrngKey := key }).kPrngKey := by
  induction rounds generalizing g with
  | nil => exact Function.bijective_id
  | cons round rounds ih =>
    obtain ⟨trng, g', hround⟩ := csPrngInitRound_key g round
    have hsplit : (fun key : Fin 4 → UInt32 =>
        ((round :: rounds).foldl csPrngInitRound { g with kPrngKey := key }).kPrngKey) =
        (fun key => (rounds.foldl csPrngInitRound { g' with kPrngKey := key }).kPrngKey) ∘
          (chaskey8 · trng) := by
      funext key
      simp only [List.foldl_cons, hround, Function.comp_apply]
    rw [hsplit]
    exact (ih g').comp (chaskey8_bijective trng)

theorem csPrngInit_bijective (g : Generators) (rest : ℕ → UInt32) :
    Function.Bijective fun first : Fin 4 → UInt32 =>
      (csPrngInit (g.deliver first rest)).kPrngKey := by
  simp only [csPrngInit, drawWords_deliver]
  exact initRounds_bijective (List.range 16) { g with trng := rest }

/-- **No entropy is lost.** `chaskey8` has an inverse for every key; for all later words the key that
`CSPrngInit` leaves is a permutation of the first four TRNG words; and calls of `CSPrngUInt64x2` with
one key at different times have different results. -/
theorem entropy_kept :
    (∀ key, Function.LeftInverse (chaskey8Inv · key) (chaskey8 · key) ∧
      Function.RightInverse (chaskey8Inv · key) (chaskey8 · key)) ∧
    (∀ (g : Generators) (rest : ℕ → UInt32), Function.Bijective fun first : Fin 4 → UInt32 =>
      (csPrngInit (g.deliver first rest)).kPrngKey) ∧
    ∀ g g' : Generators, g.kPrngKey = g'.kPrngKey →
      (readSysTickCnt64 g).1 ≠ (readSysTickCnt64 g').1 →
      (csPrngUInt64x2 g).1 ≠ (csPrngUInt64x2 g').1 := by
  refine ⟨chaskey8_undone, csPrngInit_bijective, ?_⟩
  intro g g' hkey htime hsame
  apply htime
  apply chaskey8_64x128_injective g.kPrngKey
  calc chaskey8_64x128 (lowWord (readSysTickCnt64 g).1) (highWord (readSysTickCnt64 g).1) g.kPrngKey
      = (csPrngUInt64x2 g).1 := rfl
    _ = (csPrngUInt64x2 g').1 := hsame
    _ = chaskey8_64x128 (lowWord (readSysTickCnt64 g').1) (highWord (readSysTickCnt64 g').1)
        g.kPrngKey := by rw [hkey]; rfl

theorem entropy_kept_between_ticks :
    (csPrngUInt64x2 ⟨![1, 2, 3, 4], 0, 0, ⟨0, 1⟩, fun _ => 0, fun _ => ⟨0, 7, 0⟩⟩).1 ≠
      (csPrngUInt64x2 ⟨![1, 2, 3, 4], 0, 0, ⟨0, 1⟩, fun _ => 0, fun _ => ⟨0, 8, 0⟩⟩).1 :=
  entropy_kept.2.2 _ _ rfl (by decide)

end Wchratum1.Prng
