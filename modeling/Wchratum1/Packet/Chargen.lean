import Wchratum1.Packet.Execution

/-! # The payload of a chargen reply

Each loop fills the datagram with the outputs of its generator in call order, each output once, and
stops at the end of the datagram (`chargen_fills_datagram`). -/

namespace Wchratum1.Packet
open Bytes PointerCode Prng Ethernet
set_option autoImplicit false

variable {α : Type}

def draws (draw : Generators → α × Generators) : ℕ → Generators → List α
  | 0, _ => []
  | k + 1, g => (draw g).1 :: draws draw k (draw g).2

def after (draw : Generators → α × Generators) : ℕ → Generators → Generators
  | 0, g => g
  | k + 1, g => after draw k (draw g).2

/-- `dst[0]`, `dst[1]`, low word, high word. -/
def groupBytes (x : UInt64 × UInt32 × UInt32) : List UInt8 :=
  le32 x.2.1 ++ le32 x.2.2 ++ le32 (lowWord x.1) ++ le32 (highWord x.1)

theorem written_eq_draws (draw : Generators → α × Generators) (bytes : α → List UInt8) (k : ℕ)
    (g : Generators) : written (fun g => bytes (draw g).1) (fun g => (draw g).2) k g =
      (draws draw k g).flatMap bytes := by
  induction k generalizing g with
  | zero => rfl
  | succ k ih => rw [written, draws, List.flatMap_cons, ih]

theorem iterate_eq_after (draw : Generators → α × Generators) (k : ℕ) (g : Generators) :
    (fun g => (draw g).2)^[k] g = after draw k g := by
  induction k generalizing g with
  | zero => rfl
  | succ k ih => rw [Function.iterate_succ_apply, after, ih]

/-- The payload of the datagram is `k` outputs of `draw`, and the generators have made just these. -/
structure Fills (draw : Generators → α × Generators) (bytes : α → List UInt8) (k : ℕ)
    (g : Generators) (s : Store Generators) : Prop where
  turns : s.turns = k
  payload : slice s.bytes 42 1472 = (draws draw k g).flatMap bytes
  env : s.env = after draw k g

theorem fillPayload_fills {F : Filler} {draw : Generators → α × Generators}
    {bytes : α → List UInt8} {payload : UInt8} (hF : filler payload = some F)
    (hout : F.out = fun g => bytes (draw g).1) (hnext : F.next = fun g => (draw g).2)
    (m : Bytes) (g : Generators) :
    Fills draw bytes F.turns g (fillPayload payload ⟨m, g, 0⟩) := by
  have hfill : fillPayload payload ⟨m, g, 0⟩ =
      ⟨splice m udpPayload (F.payload g), F.next^[F.turns] g, 0 + F.turns⟩ := by
    rw [fillPayload, hF]
  rw [hfill]
  constructor
  · exact Nat.zero_add _
  · rw [udpPayload, slice_splice_same (F.payload_length g), Filler.payload, hout, hnext,
      written_eq_draws]
  · change F.next^[F.turns] g = _
    rw [hnext, iterate_eq_after]

/-- **Chargen.** For each of the four selectors the loop takes exactly the turns that fill bytes 42 to
1513 with the successive outputs of its generator; the generators have then made these calls and no
others, and the bytes after the datagram are as they were. -/
theorem chargen_fills_datagram (host : Host) (len : Int32) (f : Bytes) (g : Generators)
    (hreq : ChargenRequest host f) : ∃ r, receive host len f g = some (1514, r) ∧
      (∀ i, 1514 ≤ i → r.store.bytes i = f i) ∧
      (f 42 = 'T'.toUInt8 → Fills randomUInt32 le32 368 g r.store) ∧
      (f 42 = 'P'.toUInt8 → Fills pcgUInt32 le32 368 g r.store) ∧
      (f 42 = 'p'.toUInt8 → Fills pcgUInt16 le16 736 g r.store) ∧
      (f 42 = 'C'.toUInt8 → Fills csPrngUInt64x2 groupBytes 92 g r.store) := by
  obtain ⟨touched, hrun⟩ := receive_eq host len f g
  rw [answer_of_chargen hreq] at hrun
  refine ⟨_, hrun, ?_, ?_, ?_, ?_, ?_⟩
  · intro i hi
    rw [fillPayload_outside (Or.inr hi)]
    exact chargenHeaders_outside (by omega) (by omega) (by simp only [ipTtl]; omega) (by omega)
  · intro hT
    exact fillPayload_fills (congrArg filler hT) rfl rfl _ g
  · intro hP
    exact fillPayload_fills (congrArg filler hP) rfl rfl _ g
  · intro hp
    exact fillPayload_fills (congrArg filler hp) rfl rfl _ g
  · intro hC
    exact fillPayload_fills (congrArg filler hC) rfl rfl _ g

theorem chargen_fills_datagram_groups : ∃ r,
    receive prdk 60 (chargenFrame 'C'.toUInt8 0xEE) resting = some (1514, r) ∧
      Fills csPrngUInt64x2 groupBytes 92 resting r.store := by
  have hreq : ChargenRequest prdk (chargenFrame 'C'.toUInt8 0xEE) := by decide +kernel
  obtain ⟨r, hrun, -, -, -, -, hC⟩ := chargen_fills_datagram prdk 60 _ resting hreq
  exact ⟨r, hrun, hC (by decide)⟩

end Wchratum1.Packet
