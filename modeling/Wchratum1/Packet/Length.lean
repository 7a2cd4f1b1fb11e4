import Wchratum1.Packet.Addressing
import Wchratum1.Ethernet.Fifo

/-! # The length of a reply

A chargen or ARP reply has a fixed length. The length of an echo reply is taken from `ip_len` of the
request, which nobody compares with what was received: it may reach past the received frame, past
the buffer, and past what the size field of a transmit descriptor holds. -/

namespace Wchratum1.Packet
open Bytes PointerCode Prng Ethernet
set_option autoImplicit false

variable {B : Board} {host : Host} {f : Bytes} {g : Generators} {len : Int32}

theorem enqueueTx_size (B : Board) (pkt : UInt32) (n : ℤ) (d : Driver Generators)
    (hfree : (d.kTransmitRing d.kTransmitRd).status &&& B.ethDMATxDescOWN = 0) :
    ((enqueueTxFromInterrupt B pkt n d).kTransmitRing d.kTransmitRd).controlBufferSize =
      UInt32.ofInt n &&& B.ethDMATxDescTBS1 := by
  unfold enqueueTxFromInterrupt
  simp only [hfree, bne_self_eq_false, Bool.false_eq_true, if_false]
  split
  · simp [ethResumeDMATransmission]
  · simp

/-- A reply of length `n` is transmitted from inside the frame, and in full. -/
structure Fits (B : Board) (host : Host) (len : Int32) (f : Bytes) (n : ℤ) : Prop where
  le_frame : n ≤ 1514
  le_request : EchoRequest host f → n ≤ len.toInt
  size : ∀ (pkt : UInt32) (d : Driver Generators),
    (d.kTransmitRing d.kTransmitRd).status &&& B.ethDMATxDescOWN = 0 →
    let size := ((enqueueTxFromInterrupt B pkt n d).kTransmitRing d.kTransmitRd).controlBufferSize
    (size.toNat : ℤ) = n ∧ size ≠ 0

def ReplyFits (B : Board) (host : Host) (len : Int32) (f : Bytes) (g : Generators) : Prop :=
  ∀ n r, receive host len f g = some (n, r) → 0 ≤ n → Fits B host len f n

theorem fits_of_le {n : ℤ} (hpos : 0 < n) (hmax : n ≤ 1514)
    (hreq : EchoRequest host f → n ≤ len.toInt) : Fits B host len f n where
  le_frame := hmax
  le_request := hreq
  size := by
    intro pkt d hfree
    have hsize := tbs1_toNat B hpos.le
    rw [enqueueTx_size B pkt n d hfree]
    constructor
    · rw [hsize]
      omega
    · intro hzero
      rw [hzero, show (0 : UInt32).toNat = 0 from rfl] at hsize
      omega

/-- **Lengths.** The reply fits if and only if the frame is no echo request whose `ip_len` goes past
the received bytes. -/
theorem replyFits_iff (B : Board) (host : Host) (len : Int32) (f : Bytes) (g : Generators)
    (h0 : 0 ≤ len.toInt) (hmax : len.toInt ≤ 1514) : ReplyFits B host len f g ↔
      (EchoRequest host f → 14 + (be16 f ipLen : ℤ) ≤ len.toInt) := by
  constructor
  · intro hfits hreq
    obtain ⟨touched, hrun⟩ := receive_eq host len f g
    rw [answer_of_echo hreq] at hrun
    exact (hfits _ _ hrun (by omega)).le_request hreq
  · intro hlen n r hrun hn
    have hanswer := receive_answer hrun
    by_cases he : EchoRequest host f
    · rw [answer_of_echo he] at hanswer
      have hle := hlen he
      have heq : 14 + (be16 f ipLen : ℤ) = n := congrArg Prod.fst hanswer
      exact fits_of_le (by omega) (by omega) fun _ => by omega
    by_cases hc : ChargenRequest host f
    · rw [answer_of_chargen hc] at hanswer
      have heq : (1514 : ℤ) = n := congrArg Prod.fst hanswer
      exact fits_of_le (by omega) (by omega) fun h => absurd h he
    by_cases ha : ArpRequest host f
    · rw [answer_of_arp ha] at hanswer
      have heq : (42 : ℤ) = n := congrArg Prod.fst hanswer
      exact fits_of_le (by omega) (by omega) fun h => absurd h he
    · rw [answer_of_none he hc ha] at hanswer
      have heq : packetProcessed = n := congrArg Prod.fst hanswer
      rw [packetProcessed] at heq
      omega

theorem replyFits_of_full_echo : ReplyFits ch32v307 prdk 42 (echoFrame 0 28 0xEE) resting :=
  (replyFits_iff ch32v307 prdk 42 _ resting (by decide) (by decide)).mpr fun _ => by decide +kernel

/-- A 60-byte echo request with `ip_len` 8178: the reply is said to have 8192 bytes, and the size
written into the transmit descriptor is 0. -/
theorem echo_length_unchecked :
    (∃ r, receive prdk 60 (echoFrame 0x1F 0xF2 0xEE) resting = some (8192, r)) ∧
      UInt32.ofInt 8192 &&& ch32v307.ethDMATxDescTBS1 = 0 ∧
      ¬ ReplyFits ch32v307 prdk 60 (echoFrame 0x1F 0xF2 0xEE) resting := by
  have hreq : EchoRequest prdk (echoFrame 0x1F 0xF2 0xEE) := by decide +kernel
  have hlen : (14 : ℤ) + (be16 (echoFrame 0x1F 0xF2 0xEE) ipLen : ℤ) = 8192 := by decide +kernel
  obtain ⟨touched, hrun⟩ := receive_eq prdk 60 (echoFrame 0x1F 0xF2 0xEE) resting
  rw [answer_of_echo hreq] at hrun
  dsimp only at hrun
  rw [hlen] at hrun
  refine ⟨⟨_, hrun⟩, by decide, ?_⟩
  intro hfits
  have hle := (hfits _ _ hrun (by decide)).le_frame
  revert hle
  decide

end Wchratum1.Packet
