import Wchratum1.Ethernet.Rings
import Wchratum1.Foundations.Pipeline
import Mathlib.Data.UInt
import Mathlib.Tactic.Ring

/-! # The driver refines the buffer pipeline

`Refines` ties the physical rings to a `Pipeline` whose buffers are frame addresses, whose arrivals are
the completions of RxDMA and whose replies are the byte strings handed to TxDMA. `Refines.step` is the
simulation: every action either leaves the pipeline alone or is one pipeline step. It asks one thing of
RxDMA (`safe`): when it completes the last descriptor it owns, no dispatched descriptor carries a
left-over address. Leaving one descriptor alone, as the chip does, is a special case
(`leavesOne_safe`).
-/

namespace Wchratum1.Ethernet
open RingWindow
set_option autoImplicit false

variable {σ : Type} {B : Board} {h : Handler σ}

/-! ## The buffers of the ring -/

theorem frameAddr_toNat (B : Board) {i : ℕ} (hi : i < packetPoolLen) :
    (B.frameAddr i).toNat = B.kPacketPool.toNat + i * sizeofPacketBuffer + 2 := by
  have hfit := B.pool_fits
  simp only [packetPoolLen, sizeofPacketBuffer] at hi hfit
  simp only [Board.frameAddr, etherAlign, sizeofPacketBuffer, UInt32.toNat_add, UInt32.toNat_ofNat']
  rw [Nat.mod_eq_of_lt (a := i * 1520) (by omega),
    Nat.mod_eq_of_lt (a := B.kPacketPool.toNat + i * 1520) (by omega)]
  exact Nat.mod_eq_of_lt (by rw [show (2 : UInt32).toNat = 2 from rfl]; omega)

theorem frameAddr_inj (B : Board) {i j : ℕ} (hi : i < packetPoolLen) (hj : j < packetPoolLen)
    (hij : B.frameAddr i = B.frameAddr j) : i = j := by
  have := congrArg UInt32.toNat hij
  rw [frameAddr_toNat B hi, frameAddr_toNat B hj] at this
  simp only [sizeofPacketBuffer] at this
  omega

theorem frameAddr_ne_zero (B : Board) {i : ℕ} (hi : i < packetPoolLen) : B.frameAddr i ≠ 0 := by
  intro h0
  have := congrArg UInt32.toNat h0
  rw [frameAddr_toNat B hi] at this
  simp at this

theorem ringBuffers_nodup (B : Board) : B.ringBuffers.Nodup := by
  refine List.Nodup.map_on ?_ List.nodup_range
  intro i hi j hj hij
  rw [List.mem_range] at hi hj
  simp only [packetRingLen] at hi hj
  exact frameAddr_inj B (by simp only [packetPoolLen]; omega) (by simp only [packetPoolLen]; omega) hij

theorem ringBuffers_ne_zero (B : Board) {b : UInt32} (hb : b ∈ B.ringBuffers) : b ≠ 0 := by
  obtain ⟨i, hi, rfl⟩ := List.mem_map.mp hb
  have := List.mem_range.mp hi
  simp only [packetRingLen] at this
  exact frameAddr_ne_zero B (by simp only [packetPoolLen]; omega)

/-! ## The relation -/

def Call.request (c : Call) : Bytes × ℤ := (c.frame, c.len)

def Board.request (B : Board) (a : Arrival) : Bytes × ℤ := (a.frame, B.lenArg a.status)

/-- The bytes that the size field keeps of a buffer. -/
def Board.sized (B : Board) (len : ℤ) (frame : Bytes) : List UInt8 :=
  Bytes.firstBytes (UInt32.ofInt len &&& B.ethDMATxDescTBS1).toNat frame

def Call.reply (B : Board) (c : Call) : Option (List UInt8) :=
  if 0 ≤ c.next then some (B.sized c.next c.rewritten) else none

structure Refines (B : Board) (s : System σ) (p : Pipeline UInt32 Arrival (List UInt8)) (w v : ℕ) :
    Prop where
  rx : RxSide B s.driver s.rxDma (p.free = []) p.held p.landed p.free w
  tx : TxSide B s.driver s.txDma p.done p.queued (p.landed.length + p.free.length) v
  buffers : p.buffers.Perm B.ringBuffers
  inPool : s.driver.kInPool = Int8.ofNat (packetPoolLen - 1)
  leaked : s.driver.history.leaked = []
  order : p.InOrder
  arrived : s.driver.history.arrived = p.arrived
  sent : s.driver.history.sent = p.sent
  calls : s.driver.history.calls.map Call.request =
    (p.taken.filter fun a => B.errorFree a.status).map B.request
  replies : s.driver.history.calls.filterMap (Call.reply B) = p.replies

/-- RxDMA completes the last descriptor it owns only while every dispatched descriptor is blank. -/
def safe (B : Board) (d : Driver σ) : Prop :=
  2 ≤ ownCount B d ∨ ∀ i, B.own (d.kReceiveRing i) = false → d.history.undispatched i = false →
    (d.kReceiveRing i).buffer1Addr = 0

theorem leavesOne_safe (d : Driver σ) (hd : leavesOne B d) : safe B d := Or.inl hd

section
variable {s : System σ} {p : Pipeline UInt32 Arrival (List UInt8)} {w v : ℕ}

theorem Refines.buffers_nodup (hr : Refines B s p w v) : p.buffers.Nodup :=
  hr.buffers.nodup_iff.mpr (ringBuffers_nodup B)

theorem Refines.inPool_nonneg (hr : Refines B s p w v) : ¬ s.driver.kInPool < 0 := by
  rw [hr.inPool]
  decide

/-! ## The start -/

def initialPipeline (B : Board) : Pipeline UInt32 Arrival (List UInt8) where
  free := B.ringBuffers
  landed := []
  queued := []
  done := []
  arrived := []
  taken := []
  replies := []
  sent := []

theorem initialize_transmit_own (pool : UInt32 → Bytes) (host : σ) (suspended : Bool)
    (j : Fin packetRingLen) :
    B.own ((ethernetInitializeDma B pool host suspended).kTransmitRing j) = false := by
  rw [own_eq_false_iff]
  have hc := B.control_own
  simp only [ethernetInitializeDma]
  apply UInt32.toBitVec_inj.mp
  ext i hi
  have hbit := congrArg (fun x : UInt32 => x.toBitVec[i]) hc
  simp only [UInt32.toBitVec_and, UInt32.toBitVec_or, BitVec.getElem_and, BitVec.getElem_or,
    UInt32.toBitVec_ofNat, BitVec.getElem_zero] at hbit ⊢
  split <;> simp_all

theorem start_refines (pool : UInt32 → Bytes) (host : σ) (suspended : Bool) :
    Refines B (start B pool host suspended) (initialPipeline B) 0 0 where
  rx := by
    refine ⟨rfl, rfl, rfl, by simp [Pipeline.held, initialPipeline, Board.ringBuffers], ?_, ?_, ?_⟩
    · exact holds_nil _ _
    · exact holds_nil _ _
    · intro k b hb
      obtain ⟨hk, rfl⟩ := List.getElem?_eq_some_iff.mp hb
      simp only [initialPipeline, Board.ringBuffers, List.length_map, List.length_range] at hk
      have hslot : (slot packetRingLen (0 + (initialPipeline B).held +
          (initialPipeline B).landed.length + k)).val = k := by
        simp [Pipeline.held, initialPipeline, Nat.mod_eq_of_lt hk]
      refine ⟨?_, rfl, ?_⟩
      · simpa [own_eq_true_iff, start, ethernetInitializeDma] using B.own_ne_zero
      · simp only [start, ethernetInitializeDma, hslot]
        simp [initialPipeline, Board.ringBuffers]
  tx := by
    refine ⟨rfl, rfl, rfl, by simp [initialPipeline, Board.ringBuffers], ?_, ?_, ?_⟩
    · exact holds_nil _ _
    · exact holds_nil _ _
    · intro k u _
      exact ⟨initialize_transmit_own pool host suspended _, rfl⟩
  buffers := by
    simp [Pipeline.buffers, initialPipeline]
  inPool := rfl
  leaked := rfl
  order := ⟨rfl, rfl⟩
  arrived := rfl
  sent := rfl
  calls := rfl
  replies := rfl

end

end Wchratum1.Ethernet
