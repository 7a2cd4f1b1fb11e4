import Wchratum1.Foundations.PointerCode
import Mathlib.Tactic.IntervalCases

/-! # The headers of an outgoing datagram

Translated from `src/src/packet.c` and `src/src/packet.h`: each function fills the packed structure at
`rawHeader` and leaves its other members (`identification`, the checksums) as they are. The swap macros
work on promoted operands, so on 32-bit words; the store cuts them to the member. -/

namespace Wchratum1.Dhcp
open Bytes PointerCode
set_option autoImplicit false

structure MACAddress where
  bytes : List UInt8
  length : bytes.length = 6

def kBroadcastMACAddress : MACAddress := ⟨List.replicate 6 0xFF, rfl⟩

/-! ## Layouts -/

-- `EthernetHeader`
@[simp] def ethernetDestination : ℕ := 0
@[simp] def ethernetSource : ℕ := 6
@[simp] def ethernetType : ℕ := 12
@[simp] def sizeofEthernetHeader : ℕ := 14
-- `IPv4Header`
@[simp] def ipv4VersionHeaderLength : ℕ := 0
@[simp] def ipv4TypeOfService : ℕ := 1
@[simp] def ipv4TotalLength : ℕ := 2
@[simp] def ipv4Flags : ℕ := 6
@[simp] def ipv4Ttl : ℕ := 8
@[simp] def ipv4Protocol : ℕ := 9
@[simp] def ipv4Source : ℕ := 12
@[simp] def ipv4Destination : ℕ := 16
@[simp] def sizeofIPv4Header : ℕ := 20
-- `UDPHeader`
@[simp] def udpSourcePort : ℕ := 0
@[simp] def udpDestinationPort : ℕ := 2
@[simp] def udpLength : ℕ := 4
@[simp] def sizeofUDPHeader : ℕ := 8

def ethernetHeaderTypeIPv4 : UInt16 := 0x0800
def ipv4HeaderProtocolUDP : UInt8 := 0x11
def ipv4ZeroAddress : UInt32 := 0
def ipv4BroadcastAddress : UInt32 := 0xFFFFFFFF

@[simp] def ethernetHeaderOffset : ℕ := 0
@[simp] def ipv4HeaderOffset : ℕ := sizeofEthernetHeader
@[simp] def udpHeaderOffset : ℕ := ipv4HeaderOffset + sizeofIPv4Header
@[simp] def udpDataOffset : ℕ := udpHeaderOffset + sizeofUDPHeader
@[simp] def minUDPPacketSize : ℕ := udpDataOffset

def swapBytesU16 (x : UInt32) : UInt32 := x >>> 8 ||| (x &&& 0xFF) <<< 8

def swapBytesU32 (x : UInt32) : UInt32 :=
  x >>> 24 ||| (x &&& 0xFF0000) >>> 8 ||| (x &&& 0xFF00) <<< 8 ||| (x &&& 0xFF) <<< 24

/-! ## The functions -/

variable {ε : Type}

def fillIPv4Header (rawHeader : ℕ) (source destination : UInt32) (dataLength : UInt16)
    (protocol : UInt8) : Run ε Unit := do
  store8 (rawHeader + ipv4VersionHeaderLength) 0b01000101
  store8 (rawHeader + ipv4TypeOfService) 0
  store16 (rawHeader + ipv4TotalLength)
    (swapBytesU16 (dataLength.toUInt32 + UInt32.ofNat sizeofIPv4Header)).toUInt16
  store16 (rawHeader + ipv4Flags) 0
  store8 (rawHeader + ipv4Ttl) 128
  store8 (rawHeader + ipv4Protocol) protocol
  store32 (rawHeader + ipv4Source) source
  store32 (rawHeader + ipv4Destination) destination

def fillEthernetHeader (rawHeader : ℕ) (source destination : MACAddress) (type : UInt16) :
    Run ε Unit := do
  write (rawHeader + ethernetSource) source.bytes
  write (rawHeader + ethernetDestination) destination.bytes
  store16 (rawHeader + ethernetType) (swapBytesU16 type.toUInt32).toUInt16

def fillUDPHeader (rawHeader : ℕ) (sourcePort destinationPort dataLength : UInt16) :
    Run ε Unit := do
  store16 (rawHeader + udpSourcePort) (swapBytesU16 sourcePort.toUInt32).toUInt16
  store16 (rawHeader + udpDestinationPort) (swapBytesU16 destinationPort.toUInt32).toUInt16
  store16 (rawHeader + udpLength)
    (swapBytesU16 (dataLength.toUInt32 + UInt32.ofNat sizeofUDPHeader)).toUInt16

/-! ## Bytes in network order -/

theorem swapBytesU32_bit (x : UInt32) {i : ℕ} (hi : i < 32) :
    (swapBytesU32 x).toBitVec.getLsbD i = x.toBitVec.getLsbD (8 * (3 - i / 8) + i % 8) := by
  interval_cases i <;> simp [swapBytesU32]

theorem ofNat_eq_of_bits {n n' : ℕ} (h : ∀ j < 8, n.testBit j = n'.testBit j) :
    UInt8.ofNat n = UInt8.ofNat n' := by
  apply UInt8.toBitVec_inj.mp
  apply BitVec.eq_of_getLsbD_eq
  intro j hj
  change (BitVec.ofNat 8 n).getLsbD j = (BitVec.ofNat 8 n').getLsbD j
  rw [BitVec.getLsbD_ofNat, BitVec.getLsbD_ofNat, h j hj]

/-- A swapped word lies in memory in network order. -/
theorem le32_swapBytesU32 (x : UInt32) : le32 (swapBytesU32 x) = (le32 x).reverse := by
  have hbyte : ∀ k < 4, UInt8.ofNat ((swapBytesU32 x).toNat / 2 ^ (8 * k)) =
      UInt8.ofNat (x.toNat / 2 ^ (8 * (3 - k))) := by
    intro k hk
    refine ofNat_eq_of_bits fun j hj => ?_
    have hbit := swapBytesU32_bit x (i := 8 * k + j) (by omega)
    simp only [Nat.testBit_div_two_pow]
    rw [show (8 * k + j) / 8 = k by omega, show (8 * k + j) % 8 = j by omega] at hbit
    rw [Nat.add_comm j, Nat.add_comm j]
    exact hbit
  have h0 := hbyte 0 (by omega)
  have h1 := hbyte 1 (by omega)
  have h2 := hbyte 2 (by omega)
  have h3 := hbyte 3 (by omega)
  norm_num at h0 h1 h2 h3
  simp [le32, h0, h1, h2, h3]

/-! ## What they write -/

section writes

variable {m : Bytes} {e : ε} {n : ℕ}

theorem fillUDPHeader_does (p : ℕ) (sourcePort destinationPort dataLength : UInt16) :
    Does (fillUDPHeader p sourcePort destinationPort dataLength) ⟨m, e, n⟩ ()
      ⟨splice m p (le16 (swapBytesU16 sourcePort.toUInt32).toUInt16 ++
        le16 (swapBytesU16 destinationPort.toUInt32).toUInt16 ++
        le16 (swapBytesU16 (dataLength.toUInt32 + 8)).toUInt16), e, n⟩ := by
  refine Does.of_eq ((Does.store16 _ _).bind ((Does.store16 _ _).bind (Does.store16 _ _))) rfl ?_
  rw [← splice_append, ← splice_append]
  rfl

theorem fillIPv4Header_does (p : ℕ) (source destination : UInt32) (dataLength : UInt16)
    (protocol : UInt8) : Does (fillIPv4Header p source destination dataLength protocol) ⟨m, e, n⟩ ()
      ⟨splice (splice (splice m p
          ([0x45] ++ [0] ++ le16 (swapBytesU16 (dataLength.toUInt32 + 20)).toUInt16))
          (p + 6) (le16 0 ++ [128] ++ [protocol])) (p + 12) (le32 source ++ le32 destination),
        e, n⟩ := by
  refine Does.of_eq ((Does.store8 _ _).bind ((Does.store8 _ _).bind ((Does.store16 _ _).bind
    ((Does.store16 _ _).bind ((Does.store8 _ _).bind ((Does.store8 _ _).bind
    ((Does.store32 _ _).bind (Does.store32 _ _)))))))) rfl ?_
  rw [← splice_append _ (p + 12), ← splice_append _ (p + 6), ← splice_append _ (p + 6),
    ← splice_append _ p, ← splice_append _ p]
  rfl

theorem fillEthernetHeader_does (p : ℕ) (source destination : MACAddress) (type : UInt16) :
    Does (fillEthernetHeader p source destination type) ⟨m, e, n⟩ ()
      ⟨splice (splice (splice m (p + 6) source.bytes) p destination.bytes) (p + 12)
        (le16 (swapBytesU16 type.toUInt32).toUInt16), e, n⟩ :=
  (Does.write _ _).bind ((Does.write _ _).bind (Does.store16 _ _))

end writes

end Wchratum1.Dhcp
