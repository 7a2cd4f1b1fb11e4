import Wchratum1.Dhcp.Headers
import Wchratum1.Prng.Generators

/-! # `DHCPSendDiscover`

Translated from `src/src/dhcp.c`. The packet is built over the pointer `raw_packet`, whose array starts
as zeros; what the function hands to `EthernetTransmit` is part of its result. -/

namespace Wchratum1.Dhcp
open Bytes PointerCode Prng
set_option autoImplicit false

-- `DHCPPacket`
@[simp] def dhcpMessageType : ℕ := 0
@[simp] def dhcpHardwareType : ℕ := 1
@[simp] def dhcpHardwareAddressLength : ℕ := 2
@[simp] def dhcpTransactionId : ℕ := 4
@[simp] def dhcpClientHardwareAddress : ℕ := 28
@[simp] def dhcpMagicCookieOffset : ℕ := 236
@[simp] def sizeofDHCPPacket : ℕ := 240

def dhcpMessageTypeBootRequest : UInt8 := 1
def dhcpHardwareTypeMAC : UInt8 := 1
def dhcpHardwareAddressLengthMAC : UInt8 := 6
def dhcpOptionMessageType : UInt8 := 53
def dhcpOptionParameterRequestList : UInt8 := 55
def dhcpOptionParameterRequestListItemSubnet : UInt8 := 1
def dhcpOptionParameterRequestListItemRouter : UInt8 := 3
def dhcpOptionParameterRequestListItemDNS : UInt8 := 6
def dhcpOptionParameterRequestListItemNTP : UInt8 := 42
def dhcpOptionEnd : UInt8 := 0xFF
def dhcpMagicCookie : UInt32 := 0x63538263

def roundPacketSize (x : ℕ) : ℕ := (x + 15) / 16 * 16

def dhcpDiscoverPacketSize : ℕ := roundPacketSize (sizeofDHCPPacket + 3 + 6 + 1)

/-- `sizeof(raw_packet)`. -/
def sizeofRawPacket : ℕ := minUDPPacketSize + dhcpDiscoverPacketSize

inductive DHCPState
  | none
  | sentDiscover
  | sentRequest
  | ready
  deriving DecidableEq

structure DhcpGlobals where
  generators : Generators
  dhcpState : DHCPState
  currentTransactionId : UInt32

/-- The body of `DHCPSendDiscover` between `RandomUInt32` and `EthernetTransmit`. -/
def fillDiscover (macAddress : MACAddress) (currentTransactionId : UInt32) : Run Unit Unit := do
  let packet := udpDataOffset
  store8 (packet + dhcpMessageType) dhcpMessageTypeBootRequest
  store8 (packet + dhcpHardwareType) dhcpHardwareTypeMAC
  store8 (packet + dhcpHardwareAddressLength) dhcpHardwareAddressLengthMAC
  store32 (packet + dhcpTransactionId) (swapBytesU32 currentTransactionId)
  write (packet + dhcpClientHardwareAddress) macAddress.bytes
  store32 (packet + dhcpMagicCookieOffset) dhcpMagicCookie
  let options := udpDataOffset + sizeofDHCPPacket
  store8 (options + 0) dhcpOptionMessageType
  store8 (options + 1) 1
  store8 (options + 2) 1
  store8 (options + 3) dhcpOptionParameterRequestList
  store8 (options + 4) 4
  store8 (options + 5) dhcpOptionParameterRequestListItemSubnet
  store8 (options + 6) dhcpOptionParameterRequestListItemRouter
  store8 (options + 7) dhcpOptionParameterRequestListItemDNS
  store8 (options + 8) dhcpOptionParameterRequestListItemNTP
  store8 (options + 9) dhcpOptionEnd
  fillUDPHeader udpHeaderOffset 67 68 (UInt16.ofNat dhcpDiscoverPacketSize)
  fillIPv4Header ipv4HeaderOffset ipv4ZeroAddress ipv4BroadcastAddress
    (UInt16.ofNat (sizeofUDPHeader + dhcpDiscoverPacketSize)) ipv4HeaderProtocolUDP
  fillEthernetHeader ethernetHeaderOffset macAddress kBroadcastMACAddress ethernetHeaderTypeIPv4

/-- `raw_packet` as it goes to `EthernetTransmit`. -/
def discoverPacket (macAddress : MACAddress) (currentTransactionId : UInt32) : Option (List UInt8) :=
  (fillDiscover macAddress currentTransactionId ⟨⟨fun _ => 0, (), 0⟩, []⟩).map fun r =>
    firstBytes sizeofRawPacket r.2.store.bytes

/-- What is handed to `EthernetTransmit`, and the globals after the call. -/
def dhcpSendDiscover (macAddress : MACAddress) (g : DhcpGlobals) :
    Option (List UInt8 × DhcpGlobals) :=
  let (currentTransactionId, generators) := randomUInt32 g.generators
  (discoverPacket macAddress currentTransactionId).map fun rawPacket =>
    (rawPacket, { generators, dhcpState := .sentDiscover, currentTransactionId })

/-! ## The frame -/

/-- The DHCP message and its options are these two stretches and the two members between them. -/
def discoverMemory (mac : MACAddress) (id : UInt32) : Bytes :=
  let m1 := splice (fun _ => 0) 42 [1, 1, 6]
  let m2 := splice (splice m1 46 (le32 id).reverse) 70 mac.bytes
  let m3 := splice m2 278 [0x63, 0x82, 0x53, 0x63, 53, 1, 1, 55, 4, 1, 3, 6, 42, 255]
  let m4 := splice m3 34 [0, 67, 0, 68, 1, 8]
  let m5 := splice (splice m4 14 [0x45, 0, 1, 28]) 20 [0, 0, 128, 17]
  let m6 := splice m5 26 [0, 0, 0, 0, 255, 255, 255, 255]
  splice (splice (splice m6 6 mac.bytes) 0 (List.replicate 6 255)) 12 [8, 0]

theorem fillDiscover_does (mac : MACAddress) (id : UInt32) :
    Does (fillDiscover mac id) ⟨fun _ => 0, (), 0⟩ () ⟨discoverMemory mac id, (), 0⟩ := by
  refine (Does.store8 _ _).bind ((Does.store8 _ _).bind ((Does.store8 _ _).bind
    ((Does.store32 _ _).bind ((Does.write _ _).bind ((Does.store32 _ _).bind
    ((Does.store8 _ _).bind ((Does.store8 _ _).bind ((Does.store8 _ _).bind
    ((Does.store8 _ _).bind ((Does.store8 _ _).bind ((Does.store8 _ _).bind
    ((Does.store8 _ _).bind ((Does.store8 _ _).bind ((Does.store8 _ _).bind
    ((Does.store8 _ _).bind ?_)))))))))))))))
  refine Does.of_eq ((fillUDPHeader_does _ _ _ _).bind ((fillIPv4Header_does _ _ _ _ _).bind
    (fillEthernetHeader_does _ _ _ _))) rfl ?_
  have hcookie : le32 dhcpMagicCookie = [0x63, 0x82, 0x53, 0x63] := by decide
  have hsource : le16 (swapBytesU16 (67 : UInt16).toUInt32).toUInt16 = [0, 67] := by decide
  have hdestination : le16 (swapBytesU16 (68 : UInt16).toUInt32).toUInt16 = [0, 68] := by decide
  have hudp : le16 (swapBytesU16 ((UInt16.ofNat dhcpDiscoverPacketSize).toUInt32 + 8)).toUInt16 =
      [1, 8] := by decide
  have hip : le16 (swapBytesU16
      ((UInt16.ofNat (sizeofUDPHeader + dhcpDiscoverPacketSize)).toUInt32 + 20)).toUInt16 = [1, 28] := by
    decide
  have hflags : le16 0 = [0, 0] := by decide
  have hzero : le32 ipv4ZeroAddress = [0, 0, 0, 0] := by decide
  have hbroadcast : le32 ipv4BroadcastAddress = [255, 255, 255, 255] := by decide
  have htype : le16 (swapBytesU16 ethernetHeaderTypeIPv4.toUInt32).toUInt16 = [8, 0] := by decide
  rw [hcookie, hsource, hdestination, hudp, hip, hflags, hzero, hbroadcast, htype, le32_swapBytesU32]
  have hfirst : ∀ m : Bytes, splice m 42 [1, 1, 6] = splice (splice (splice m 42 [1]) 43 [1]) 44 [6] := by
    intro m
    rw [show ([1, 1, 6] : List UInt8) = [1] ++ [1] ++ [6] from rfl, ← splice_append, ← splice_append]
    rfl
  have hoptions : ∀ m : Bytes, splice m 278 [0x63, 0x82, 0x53, 0x63, 53, 1, 1, 55, 4, 1, 3, 6, 42, 255] =
      splice (splice (splice (splice (splice (splice (splice (splice (splice (splice (splice m
        278 [0x63, 0x82, 0x53, 0x63]) 282 [53]) 283 [1]) 284 [1]) 285 [55]) 286 [4]) 287 [1]) 288 [3])
        289 [6]) 290 [42]) 291 [255] := by
    intro m
    rw [show ([0x63, 0x82, 0x53, 0x63, 53, 1, 1, 55, 4, 1, 3, 6, 42, 255] : List UInt8) =
      [0x63, 0x82, 0x53, 0x63] ++ [53] ++ [1] ++ [1] ++ [55] ++ [4] ++ [1] ++ [3] ++ [6] ++ [42] ++
        [255] from rfl]
    simp only [← splice_append]
    rfl
  simp only [discoverMemory, hfirst, hoptions]
  rfl

end Wchratum1.Dhcp
