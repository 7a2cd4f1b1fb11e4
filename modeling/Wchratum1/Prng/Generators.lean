import Wchratum1.Prng.Chaskey
import Wchratum1.Prng.SysTick

/-! # The random generators

Translated from `src/src/prng.c` and, for the two PCG variants that it uses, from
`src/src/pcg_variants.h`. The hardware behind them is a stream of what it will deliver: the words of
the TRNG for `RandomUInt32`, and the register reads of each call of `SysTickCnt64`. -/

namespace Wchratum1.Prng
set_option autoImplicit false

structure Pcg32i where
  state : UInt32
  inc : UInt32

structure SysTickReads where
  hiBefore : UInt32
  lo : UInt32
  hiAfter : UInt32

structure Generators where
  kPrngKey : Fin 4 → UInt32
  kInject : UInt32
  kInCount : UInt32
  pcg32 : Pcg32i
  trng : ℕ → UInt32
  sysTick : ℕ → SysTickReads

def randomUInt32 (g : Generators) : UInt32 × Generators :=
  (g.trng 0, { g with trng := fun n => g.trng (n + 1) })

def readSysTickCnt64 (g : Generators) : UInt64 × Generators :=
  let r := g.sysTick 0
  (sysTickCnt64 r.hiBefore r.lo r.hiAfter, { g with sysTick := fun n => g.sysTick (n + 1) })

/-! ## PCG -/

/-- `pcg_setseq_32_step_r`. -/
def Pcg32i.step (rng : Pcg32i) : Pcg32i := { rng with state := rng.state * 747796405 + rng.inc }

/-- `pcg_output_xsh_rs_32_16`. -/
def outputXshRs (state : UInt32) : UInt16 :=
  ((state >>> 11 ^^^ state) >>> (state >>> 30 + 11)).toUInt16

/-- `pcg_output_rxs_m_xs_32_32`. -/
def outputRxsMXs (state : UInt32) : UInt32 :=
  let word := (state >>> (state >>> 28 + 4) ^^^ state) * 277803737
  word >>> 22 ^^^ word

def pcgUInt16 (g : Generators) : UInt16 × Generators :=
  (outputXshRs g.pcg32.state, { g with pcg32 := g.pcg32.step })

def pcgUInt32 (g : Generators) : UInt32 × Generators :=
  (outputRxsMXs g.pcg32.state, { g with pcg32 := g.pcg32.step })

/-! ## CSPRNG -/

/-- `rotlu32` of `src/src/inline.h`. -/
def rotlu32 (arg bits : UInt32) : UInt32 := arg <<< (bits % 32) ||| arg >>> (-bits % 32)

/-- `for (uint32_t* p = words; p != ARRAY_END(words); p++) *p = f(RandomUInt32())`. -/
def drawWords (f : UInt32 → UInt32) (g : Generators) : (Fin 4 → UInt32) × Generators :=
  let (w0, g) := randomUInt32 g
  let (w1, g) := randomUInt32 g
  let (w2, g) := randomUInt32 g
  let (w3, g) := randomUInt32 g
  (![f w0, f w1, f w2, f w3], g)

/-- One turn of the loop of `CSPrngInit`. -/
def csPrngInitRound (g : Generators) (round : ℕ) : Generators :=
  let (trng, g) := drawWords (fun word => rotlu32 word (UInt32.ofNat round * 2)) g
  { g with kPrngKey := chaskey8 g.kPrngKey trng }

def csPrngInit (g : Generators) : Generators :=
  let (key, g) := drawWords id g
  let g := (List.range 16).foldl csPrngInitRound { g with kPrngKey := key }
  { g with kInject := 0, kInCount := 0 }

def csPrngUInt64 (g : Generators) : UInt64 × Generators :=
  let (hilo, g) := readSysTickCnt64 g
  let hi := highWord hilo
  let lo := lowWord hilo
  (chaskey8_64x64 lo hi g.kPrngKey, g)

/-- `CSPrngUInt64x2`: the value it returns, and what it stores into `dst[0]` and `dst[1]`. -/
def csPrngUInt64x2 (g : Generators) : (UInt64 × UInt32 × UInt32) × Generators :=
  let (hilo, g) := readSysTickCnt64 g
  let hi := highWord hilo
  let lo := lowWord hilo
  (chaskey8_64x128 lo hi g.kPrngKey, g)

def csPrngInjectLowbits (input : UInt32) (g : Generators) : Generators :=
  let kInCount := g.kInCount + 1
  let shift := kInCount &&& 31
  let ndx := Fin.ofNat 4 (kInCount >>> 5 &&& 3).toNat
  let kPrngKey := if shift = 0 then Function.update g.kPrngKey ndx (g.kPrngKey ndx ^^^ g.kInject)
    else g.kPrngKey
  { g with kInCount := kInCount, kPrngKey := kPrngKey, kInject := g.kInject ^^^ input <<< shift }

def csPrngInjectRandom (g : Generators) : Generators :=
  let kInCount := g.kInCount + 32
  let ndx := Fin.ofNat 4 (kInCount >>> 5 &&& 3).toNat
  let (word, g) := randomUInt32 g
  { g with
    kInCount := kInCount
    kPrngKey := Function.update g.kPrngKey ndx (g.kPrngKey ndx ^^^ word) }

/-! ## Seeding -/

/-- `pcg_setseq_32_srandom_r`, which `pcg32i_srandom_r` names. -/
def Pcg32i.srandom (initstate initseq : UInt32) : Pcg32i :=
  let rng : Pcg32i := { state := 0, inc := initseq <<< 1 ||| 1 }
  let rng := rng.step
  let rng := { rng with state := rng.state + initstate }
  rng.step

def pcgInit (g : Generators) : Generators :=
  let (hilo, g) := csPrngUInt64 g
  { g with pcg32 := Pcg32i.srandom (highWord hilo) (lowWord hilo) }

def prngInit (g : Generators) : Generators := pcgInit (csPrngInit g)

end Wchratum1.Prng
