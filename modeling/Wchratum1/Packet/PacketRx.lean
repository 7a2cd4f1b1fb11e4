import Wchratum1.Foundations.PointerCode
import Wchratum1.Prng.Generators
import Wchratum1.Ethernet.Driver

/-! # `PacketRxInterrupt`

Translated from `src/src/prdk.c`, as code over the pointer `frame`. Structure members are offsets from
`frame`; a comparison chain `x && y && z` reads what the chain reads.

* The three nested bodies that rewrite the frame are functions of their own: `icmpEcho`,
  `udpChargen` with `chargenFill`, and `arpRequest`. Each returns `PACKET_PROCESSED` where the source
  falls through to the end.
* `printf` prints nothing here; its argument `frame[i]` is still read.
* The TRNG, PCG and CSPRNG calls work on the `Generators`.
-/

namespace Wchratum1.Packet
open Bytes PointerCode Prng Ethernet
set_option autoImplicit false

structure Host where
  kMACAddress : List UInt8
  kIPv4Net : UInt32
  mac_length : kMACAddress.length = 6

def mkIPv4Net (a b c d : UInt8) : UInt32 :=
  a.toUInt32 ||| b.toUInt32 <<< 8 ||| c.toUInt32 <<< 16 ||| d.toUInt32 <<< 24

def hton16 (x : UInt16) : UInt16 := x >>> 8 ||| x <<< 8

def ntoh16 (x : UInt16) : UInt16 := hton16 x

/-! ## Offsets and sizes -/

-- `struct ether_header *eth = frame`
@[simp] def etherDhost : ℕ := 0
@[simp] def etherShost : ℕ := 6
@[simp] def etherType : ℕ := 12
@[simp] def sizeofEther : ℕ := 14
-- `struct ip *ip = eth + 1`
@[simp] def ipHlV : ℕ := 14
@[simp] def ipLen : ℕ := 16
@[simp] def ipTtl : ℕ := 22
@[simp] def ipP : ℕ := 23
@[simp] def ipSrc : ℕ := 26
@[simp] def ipDst : ℕ := 30
@[simp] def sizeofIp : ℕ := 20
-- `struct icmp *icmp = ip + 1`
@[simp] def icmpType : ℕ := 34
@[simp] def icmpCode : ℕ := 35
-- `struct udphdr *udp = ip + 1`
@[simp] def uhSport : ℕ := 34
@[simp] def uhDport : ℕ := 36
@[simp] def uhUlen : ℕ := 38
@[simp] def udpPayload : ℕ := 42
@[simp] def sizeofUdphdr : ℕ := 8
-- `struct ether_arp *earp = eth + 1`
@[simp] def arHrd : ℕ := 14
@[simp] def arPro : ℕ := 16
@[simp] def arHln : ℕ := 18
@[simp] def arPln : ℕ := 19
@[simp] def arOp : ℕ := 20
@[simp] def arpSha : ℕ := 22
@[simp] def arpSpa : ℕ := 28
@[simp] def arpTha : ℕ := 32
@[simp] def arpTpa : ℕ := 38
@[simp] def sizeofEtherArp : ℕ := 28

@[simp] def etherAddrLen : ℕ := 6
@[simp] def sizeofInAddr : ℕ := 4
@[simp] def etherMtu : ℕ := 1500
@[simp] def etherMtuUdp : ℕ := etherMtu - sizeofIp - sizeofUdphdr

def ethertypeIP : UInt16 := 0x0800
def ethertypeARP : UInt16 := 0x0806
def ipprotoICMP : UInt8 := 1
def ipprotoUDP : UInt8 := 17
def icmpECHO : UInt8 := 8
def icmpECHOREPLY : UInt8 := 0
def ipDefTtl : UInt8 := 64
def maxTtl : UInt8 := 255
def svcChargen : UInt16 := 19
def arphrdEther : UInt16 := 1
def arpopRequest : UInt16 := 1
def arpopReply : UInt16 := 2

/-! ## The function -/

/-- The dump: `for (uint32_t i = 0; i < len; i++)` compares with `len` converted to unsigned. -/
def dump (len : Int32) : Run Generators Unit :=
  (List.range len.toUInt32.toNat).forM fun i => do
    let _ ← load8 i

def isIPv4ToUs (host : Host) : Run Generators Bool :=
  both (do return (← load8 ipHlV) >>> 4 == 4) <|
  both (do return (← load8 ipHlV) &&& 0xF == 5) <|
  do return (← load32 ipDst) == host.kIPv4Net

def icmpEcho (host : Host) : Run Generators ℤ := do
  if ← both (do return (← load8 icmpType) == icmpECHO) (do return (← load8 icmpCode) == 0) then
    store8 icmpType icmpECHOREPLY
    store8 ipTtl ipDefTtl
    store32 ipDst (← load32 ipSrc)
    store32 ipSrc host.kIPv4Net
    memcpy etherDhost etherShost etherAddrLen
    write etherShost host.kMACAddress
    return sizeofEther + (ntoh16 (← load16 ipLen)).toNat
  else return packetProcessed

def payloadLoop (body : ℕ → Run Generators Unit) (stride : ℕ) : Run Generators Unit :=
  forPointer body stride (udpPayload + etherMtuUdp) etherMaxLen udpPayload

/-- The four loops; any other selector leaves the payload as it is. -/
def chargenFill (payload : UInt8) : Run Generators Unit := do
  if payload = 'T'.toUInt8 then
    payloadLoop (fun dat => do store32 dat (← call randomUInt32)) 4
  else if payload = 'P'.toUInt8 then
    payloadLoop (fun dat => do store32 dat (← call pcgUInt32)) 4
  else if payload = 'p'.toUInt8 then
    payloadLoop (fun d16 => do store16 d16 (← call pcgUInt16)) 2
  else if payload = 'C'.toUInt8 then
    payloadLoop (fun dat => do
      let (r, d0, d1) ← call csPrngUInt64x2
      -- the callee's `dst[0]` and `dst[1]`
      store32 dat d0
      store32 (dat + 4) d1
      store32 (dat + 8) (lowWord r)
      store32 (dat + 12) (highWord r)) 16

def udpChargen (host : Host) : Run Generators ℤ := do
  if ← both (do return (← load16 uhDport) == hton16 svcChargen)
      (both (do return (← load8 ipTtl) == maxTtl)
        (do return decide (sizeofUdphdr + 1 ≤ (ntoh16 (← load16 uhUlen)).toNat))) then
    let payload ← load8 udpPayload
    memcpy etherDhost etherShost etherAddrLen
    write etherShost host.kMACAddress
    store8 ipTtl 1
    store16 ipLen (hton16 (UInt16.ofNat etherMtu))
    store32 ipDst (← load32 ipSrc)
    store32 ipSrc host.kIPv4Net
    store16 uhDport (← load16 uhSport)
    store16 uhSport (hton16 svcChargen)
    store16 uhUlen (hton16 (UInt16.ofNat (etherMtu - sizeofIp)))
    chargenFill payload
    return sizeofEther + etherMtu
  else return packetProcessed

def arpRequest (host : Host) : Run Generators ℤ := do
  if ← both (do return (← load16 arOp) == hton16 arpopRequest)
      (memcmp arpTpa (le32 host.kIPv4Net)) then
    memcpy etherDhost etherShost etherAddrLen
    write etherShost host.kMACAddress
    store16 arOp (hton16 arpopReply)
    memcpy arpTha arpSha (etherAddrLen + sizeofInAddr)
    write arpSha host.kMACAddress
    write arpSpa (le32 host.kIPv4Net)
    return sizeofEther + sizeofEtherArp
  else return packetProcessed

def packetRxInterrupt (host : Host) (len : Int32) : Run Generators ℤ := do
  dump len
  let type ← load16 etherType
  if type = hton16 ethertypeIP then
    if ← isIPv4ToUs host then
      let p ← load8 ipP
      if p = ipprotoICMP then icmpEcho host
      else if p = ipprotoUDP then udpChargen host
      else return packetProcessed
    else return packetProcessed
  else if type = hton16 ethertypeARP then
    if ← both (do return (← load16 arHrd) == hton16 arphrdEther)
        (both (do return (← load16 arPro) == hton16 ethertypeIP)
          (both (do return (← load8 arHln) == UInt8.ofNat etherAddrLen)
            (do return (← load8 arPln) == UInt8.ofNat sizeofInAddr))) then
      arpRequest host
    else return packetProcessed
  else return packetProcessed

/-- `PacketRxInterrupt(frame, len)` as a function: the value it returns and the machine it leaves. -/
def receive (host : Host) (len : Int32) (frame : Bytes) (gen : Generators) :
    Option (ℤ × Machine Generators) :=
  packetRxInterrupt host len ⟨⟨frame, gen, 0⟩, []⟩

end Wchratum1.Packet
