import Wchratum1.Dhcp.Discover
import Wchratum1.Foundations.Wire

/-! # What a receiver makes of the DISCOVER frame

The decoders below are those of the standards, in network order, and know nothing of the packed
structures of the source. The frame decodes to a BOOTREQUEST with the transaction id and the address
that `DHCPSendDiscover` was given, with lengths that agree and options that end inside the datagram.
Only the ports are the wrong way round: the call `FillUDPHeader(…, 67, 68, …)` sends from the server's
port to the client's (`discover_from_server_port`). -/

namespace Wchratum1.Dhcp
open Bytes PointerCode Prng Wire
set_option autoImplicit false

/-! ## The layouts on the wire -/

structure EthernetHeader where
  destination : List UInt8
  source : List UInt8
  type : ℕ

structure IPv4Header where
  versionHeaderLength : UInt8
  typeOfService : UInt8
  totalLength : ℕ
  identification : ℕ
  fragment : ℕ
  ttl : UInt8
  protocol : UInt8
  checksum : ℕ
  source : List UInt8
  destination : List UInt8

structure UDPHeader where
  sourcePort : ℕ
  destinationPort : ℕ
  length : ℕ
  checksum : ℕ

/-- The fixed part of a BOOTP message, with the cookie that starts the options. -/
structure BootpMessage where
  op : UInt8
  htype : UInt8
  hlen : UInt8
  hops : UInt8
  xid : ℕ
  secs : ℕ
  flags : ℕ
  ciaddr : List UInt8
  yiaddr : List UInt8
  siaddr : List UInt8
  giaddr : List UInt8
  chaddr : List UInt8
  sname : List UInt8
  file : List UInt8
  cookie : ℕ

def ethernetHeader : Decoder EthernetHeader := do
  let destination ← takeBytes 6
  let source ← takeBytes 6
  let type ← be16
  return ⟨destination, source, type⟩

def ipv4Header : Decoder IPv4Header := do
  let versionHeaderLength ← byte
  let typeOfService ← byte
  let totalLength ← be16
  let identification ← be16
  let fragment ← be16
  let ttl ← byte
  let protocol ← byte
  let checksum ← be16
  let source ← takeBytes 4
  let destination ← takeBytes 4
  return ⟨versionHeaderLength, typeOfService, totalLength, identification, fragment, ttl, protocol,
    checksum, source, destination⟩

def udpHeader : Decoder UDPHeader := do
  let sourcePort ← be16
  let destinationPort ← be16
  let length ← be16
  let checksum ← be16
  return ⟨sourcePort, destinationPort, length, checksum⟩

def bootpMessage : Decoder BootpMessage := do
  let op ← byte
  let htype ← byte
  let hlen ← byte
  let hops ← byte
  let xid ← be32
  let secs ← be16
  let flags ← be16
  let ciaddr ← takeBytes 4
  let yiaddr ← takeBytes 4
  let siaddr ← takeBytes 4
  let giaddr ← takeBytes 4
  let chaddr ← takeBytes 16
  let sname ← takeBytes 64
  let file ← takeBytes 128
  let cookie ← be32
  return ⟨op, htype, hlen, hops, xid, secs, flags, ciaddr, yiaddr, siaddr, giaddr, chaddr, sname, file,
    cookie⟩

structure Decoded where
  ethernet : EthernetHeader
  ip : IPv4Header
  udp : UDPHeader
  message : BootpMessage
  options : List (UInt8 × List UInt8)
  /-- What follows END in the UDP payload. -/
  padding : List UInt8

/-- A DHCP message in UDP in IPv4 without options in Ethernet. -/
def decodeFrame (frame : List UInt8) : Option Decoded := do
  let (ethernet, l) ← ethernetHeader frame
  let (ip, l) ← ipv4Header l
  let (l, _) ← takeBytes (ip.totalLength - 20) l
  let (udp, l) ← udpHeader l
  let (l, _) ← takeBytes (udp.length - 8) l
  let (message, l) ← bootpMessage l
  let (options, padding) ← options l
  return ⟨ethernet, ip, udp, message, options, padding⟩

/-! ## What they read -/

theorem reads_ethernetHeader {destination source : List UInt8} (hd : destination.length = 6)
    (hs : source.length = 6) (a b : UInt8) : Reads ethernetHeader
      (destination ++ (source ++ [a, b])) ⟨destination, source, a.toNat * 2 ^ 8 + b.toNat⟩ :=
  (Reads.takeBytes hd).bind ((Reads.takeBytes hs).bind ((Reads.be16 a b).bind_pure _))

theorem reads_ipv4Header {source destination : List UInt8} (hs : source.length = 4)
    (hd : destination.length = 4) (v t l l' i i' f f' ttl p c c' : UInt8) : Reads ipv4Header
      ([v] ++ ([t] ++ ([l, l'] ++ ([i, i'] ++ ([f, f'] ++ ([ttl] ++ ([p] ++ ([c, c'] ++
        (source ++ destination)))))))))
      ⟨v, t, l.toNat * 2 ^ 8 + l'.toNat, i.toNat * 2 ^ 8 + i'.toNat, f.toNat * 2 ^ 8 + f'.toNat, ttl, p,
        c.toNat * 2 ^ 8 + c'.toNat, source, destination⟩ :=
  (Reads.byte v).bind ((Reads.byte t).bind ((Reads.be16 l l').bind ((Reads.be16 i i').bind
    ((Reads.be16 f f').bind ((Reads.byte ttl).bind ((Reads.byte p).bind ((Reads.be16 c c').bind
    ((Reads.takeBytes hs).bind ((Reads.takeBytes hd).bind_pure _)))))))))

theorem reads_udpHeader (s s' d d' l l' c c' : UInt8) : Reads udpHeader
    ([s, s'] ++ ([d, d'] ++ ([l, l'] ++ [c, c'])))
    ⟨s.toNat * 2 ^ 8 + s'.toNat, d.toNat * 2 ^ 8 + d'.toNat, l.toNat * 2 ^ 8 + l'.toNat,
      c.toNat * 2 ^ 8 + c'.toNat⟩ :=
  (Reads.be16 s s').bind ((Reads.be16 d d').bind ((Reads.be16 l l').bind ((Reads.be16 c c').bind_pure
    _)))

theorem reads_bootpMessage {ciaddr yiaddr siaddr giaddr chaddr sname file : List UInt8}
    (hci : ciaddr.length = 4) (hyi : yiaddr.length = 4) (hsi : siaddr.length = 4)
    (hgi : giaddr.length = 4) (hch : chaddr.length = 16) (hsname : sname.length = 64)
    (hfile : file.length = 128) (op htype hlen hops s s' f f' : UInt8) (xid cookie : UInt32) :
    Reads bootpMessage
      ([op] ++ ([htype] ++ ([hlen] ++ ([hops] ++ ((le32 xid).reverse ++ ([s, s'] ++ ([f, f'] ++
        (ciaddr ++ (yiaddr ++ (siaddr ++ (giaddr ++ (chaddr ++ (sname ++ (file ++
        (le32 cookie).reverse))))))))))))))
      ⟨op, htype, hlen, hops, xid.toNat, s.toNat * 2 ^ 8 + s'.toNat, f.toNat * 2 ^ 8 + f'.toNat,
        ciaddr, yiaddr, siaddr, giaddr, chaddr, sname, file, cookie.toNat⟩ :=
  (Reads.byte op).bind ((Reads.byte htype).bind ((Reads.byte hlen).bind ((Reads.byte hops).bind
    ((Reads.be32 xid).bind ((Reads.be16 s s').bind ((Reads.be16 f f').bind
    ((Reads.takeBytes hci).bind ((Reads.takeBytes hyi).bind ((Reads.takeBytes hsi).bind
    ((Reads.takeBytes hgi).bind ((Reads.takeBytes hch).bind ((Reads.takeBytes hsname).bind
    ((Reads.takeBytes hfile).bind ((Reads.be32 cookie).bind_pure _))))))))))))))

/-- Header by header: the lengths in the IPv4 and UDP headers have to match what follows them. -/
theorem decodeFrame_append {e i u b o : List UInt8} {ethernet : EthernetHeader} {ip : IPv4Header}
    {udp : UDPHeader} {message : BootpMessage} (he : Reads ethernetHeader e ethernet)
    (hi : Reads ipv4Header i ip) (hu : Reads udpHeader u udp) (hb : Reads bootpMessage b message)
    (hudp : (b ++ o).length = udp.length - 8)
    (hip : u.length + (udp.length - 8) = ip.totalLength - 20) :
    decodeFrame (e ++ (i ++ (u ++ (b ++ o)))) =
      (options o).map fun r => ⟨ethernet, ip, udp, message, r.1, r.2⟩ := by
  have hpayload : takeBytes (ip.totalLength - 20) (u ++ (b ++ o)) = some (u ++ (b ++ o), []) :=
    Reads.takeBytes_all (by rw [List.length_append, hudp, hip])
  have hdata := Reads.takeBytes_all hudp
  simp only [decodeFrame, he _, hi _, hu _, hb _, hpayload, hdata, Option.bind_eq_bind, Option.bind_some,
    Option.map_eq_bind]
  rfl

/-! ## The bytes of the frame -/

def discoverOptions : List UInt8 := [53, 1, 1, 55, 4, 1, 3, 6, 42, 255]

/-- The 298 bytes, header by header and member by member. -/
def discoverFrame (mac : MACAddress) (id : UInt32) : List UInt8 :=
  (List.replicate 6 255 ++ (mac.bytes ++ [8, 0])) ++
  (([0x45] ++ ([0] ++ ([1, 28] ++ ([0, 0] ++ ([0, 0] ++ ([128] ++ ([17] ++ ([0, 0] ++
    (List.replicate 4 0 ++ List.replicate 4 255))))))))) ++
  (([0, 67] ++ ([0, 68] ++ ([1, 8] ++ [0, 0]))) ++
  (([1] ++ ([1] ++ ([6] ++ ([0] ++ ((le32 id).reverse ++ ([0, 0] ++ ([0, 0] ++ (List.replicate 4 0 ++
    (List.replicate 4 0 ++ (List.replicate 4 0 ++ (List.replicate 4 0 ++
    ((mac.bytes ++ List.replicate 10 0) ++ (List.replicate 64 0 ++ (List.replicate 128 0 ++
    [0x63, 0x82, 0x53, 0x63])))))))))))))) ++
  (discoverOptions ++ List.replicate 6 0))))

theorem firstBytes_discoverMemory (mac : MACAddress) (id : UInt32) :
    firstBytes sizeofRawPacket (discoverMemory mac id) = discoverFrame mac id := by
  have hsplit : sizeofRawPacket = 6 + (6 + (2 + (4 + (2 + (4 + (2 + (8 + (6 + (2 + (3 + (1 + (4 + (20 +
      (6 + (202 + (14 + 6)))))))))))))))) := rfl
  have hmac := mac.length
  rw [firstBytes_eq_slice, hsplit]
  simp only [slice_add]
  simp only [Nat.reduceAdd, discoverMemory]
  simp (disch := simp [hmac]) only [slice_splice_same, slice_splice_disjoint, slice_const]
  have hsname : List.replicate 202 (0 : UInt8) =
      List.replicate 10 0 ++ (List.replicate 64 0 ++ List.replicate 128 0) := by
    rw [← List.replicate_add, ← List.replicate_add]
  rw [hsname]
  simp only [discoverFrame, discoverOptions, List.append_assoc]
  rfl

theorem discoverPacket_eq (mac : MACAddress) (id : UInt32) :
    discoverPacket mac id = some (discoverFrame mac id) := by
  obtain ⟨log, hrun⟩ := fillDiscover_does mac id []
  rw [discoverPacket, hrun, Option.map_some, firstBytes_discoverMemory]

theorem dhcpSendDiscover_eq (mac : MACAddress) (g : DhcpGlobals) : dhcpSendDiscover mac g =
    some (discoverFrame mac (g.generators.trng 0),
      ⟨(randomUInt32 g.generators).2, .sentDiscover, g.generators.trng 0⟩) := by
  simp only [dhcpSendDiscover, randomUInt32, discoverPacket_eq, Option.map_some]

theorem discoverFrame_length (mac : MACAddress) (id : UInt32) : (discoverFrame mac id).length = 298 := by
  rw [← firstBytes_discoverMemory, firstBytes_length]
  rfl

theorem options_discover (rest : List UInt8) : options (discoverOptions ++ rest) =
    some ([(53, [1]), (55, [1, 3, 6, 42])], rest) := by
  have htype : options (53 :: 1 :: ([1] ++ ([55, 4, 1, 3, 6, 42, 255] ++ rest))) =
      (options ([55, 4, 1, 3, 6, 42, 255] ++ rest)).map fun r => ((53, [1]) :: r.1, r.2) :=
    options_item (by decide) (by decide) rfl _
  have hlist : options (55 :: 4 :: ([1, 3, 6, 42] ++ (255 :: rest))) =
      (options (255 :: rest)).map fun r => ((55, [1, 3, 6, 42]) :: r.1, r.2) :=
    options_item (by decide) (by decide) rfl _
  rw [options_end] at hlist
  calc options (discoverOptions ++ rest)
      = (options ([55, 4, 1, 3, 6, 42, 255] ++ rest)).map fun r => ((53, [1]) :: r.1, r.2) := htype
    _ = ((some ([], rest)).map fun r => ((55, [1, 3, 6, 42]) :: r.1, r.2)).map
          fun r => ((53, [1]) :: r.1, r.2) := congrArg _ hlist
    _ = some ([(53, [1]), (55, [1, 3, 6, 42])], rest) := rfl

/-! ## The decoded frame -/

def discoverDecoded (mac : MACAddress) (id : UInt32) : Decoded where
  ethernet := ⟨List.replicate 6 255, mac.bytes, 0x0800⟩
  ip := ⟨0x45, 0, 284, 0, 0, 128, 17, 0, List.replicate 4 0, List.replicate 4 255⟩
  udp := ⟨67, 68, 264, 0⟩
  message := ⟨1, 1, 6, 0, id.toNat, 0, 0, List.replicate 4 0, List.replicate 4 0, List.replicate 4 0,
    List.replicate 4 0, mac.bytes ++ List.replicate 10 0, List.replicate 64 0, List.replicate 128 0,
    0x63825363⟩
  options := [(53, [1]), (55, [1, 3, 6, 42])]
  padding := List.replicate 6 0

theorem decodeFrame_discoverFrame (mac : MACAddress) (id : UInt32) :
    decodeFrame (discoverFrame mac id) = some (discoverDecoded mac id) := by
  have hmac := mac.length
  have hch : (mac.bytes ++ List.replicate 10 0).length = 16 := by simp [hmac]
  have he := reads_ethernetHeader (List.length_replicate (n := 6) (a := 255)) hmac 8 0
  have hi := reads_ipv4Header (List.length_replicate (n := 4) (a := 0))
    (List.length_replicate (n := 4) (a := 255)) 0x45 0 1 28 0 0 0 0 128 17 0 0
  have hu := reads_udpHeader 0 67 0 68 1 8 0 0
  have hzero := List.length_replicate (n := 4) (a := (0 : UInt8))
  have hb := reads_bootpMessage hzero hzero hzero hzero hch (List.length_replicate (n := 64) (a := 0))
    (List.length_replicate (n := 128) (a := 0)) 1 1 6 0 0 0 0 0 id 0x63825363
  rw [discoverFrame, show ([0x63, 0x82, 0x53, 0x63] : List UInt8) = (le32 0x63825363).reverse by decide,
    decodeFrame_append he hi hu hb, options_discover]
  · rfl
  · simp only [List.length_append, List.length_cons, List.length_nil, List.length_replicate,
      List.length_reverse, le32_length, hmac, discoverOptions]
    rfl
  · rfl

/-! ## The property -/

/-- A DISCOVER from `mac` to all stations under the transaction `id`, whatever its ports. -/
structure Discovers (mac : MACAddress) (id : UInt32) (frame : List UInt8) (m : Decoded) : Prop where
  destination : m.ethernet.destination = kBroadcastMACAddress.bytes
  source : m.ethernet.source = mac.bytes
  type : m.ethernet.type = 0x0800
  versionHeaderLength : m.ip.versionHeaderLength = 0x45
  totalLength : m.ip.totalLength = frame.length - 14
  protocol : m.ip.protocol = 17
  udpLength : m.udp.length = m.ip.totalLength - 20
  op : m.message.op = 1
  htype : m.message.htype = 1
  hlen : m.message.hlen = 6
  xid : m.message.xid = id.toNat
  chaddr : m.message.chaddr = mac.bytes ++ List.replicate 10 0
  cookie : m.message.cookie = 0x63825363
  options : m.options = [(53, [1]), (55, [1, 3, 6, 42])]
  padding : ∀ b ∈ m.padding, b = 0

def ClientToServer (m : Decoded) : Prop := m.udp.sourcePort = 68 ∧ m.udp.destinationPort = 67

/-- The decoder gives back what the encoder was given; the id is the word that the TRNG delivers. -/
def EncoderUndone (mac : MACAddress) (g : DhcpGlobals) : Prop :=
  ∃ frame g' m, dhcpSendDiscover mac g = some (frame, g') ∧ frame.length = 298 ∧
    decodeFrame frame = some m ∧ g'.currentTransactionId = g.generators.trng 0 ∧
    Discovers mac g'.currentTransactionId frame m ∧ ClientToServer m

theorem discovers_discoverDecoded (mac : MACAddress) (id : UInt32) :
    Discovers mac id (discoverFrame mac id) (discoverDecoded mac id) where
  destination := rfl
  source := rfl
  type := rfl
  versionHeaderLength := rfl
  totalLength := by
    rw [discoverFrame_length]
    rfl
  protocol := rfl
  udpLength := rfl
  op := rfl
  htype := rfl
  hlen := rfl
  xid := rfl
  chaddr := rfl
  cookie := rfl
  options := rfl
  padding := fun _ hb => List.eq_of_mem_replicate hb

/-- Whoever decodes the frame reads the client's port as its destination. -/
theorem destinationPort_of_decoded {mac : MACAddress} {g g' : DhcpGlobals} {frame : List UInt8}
    {m : Decoded} (hsent : dhcpSendDiscover mac g = some (frame, g'))
    (hdecode : decodeFrame frame = some m) : m.udp.destinationPort = 68 := by
  rw [dhcpSendDiscover_eq] at hsent
  cases hsent
  rw [decodeFrame_discoverFrame] at hdecode
  cases hdecode
  rfl

/-- For every address and every id the decoder gives back all of it but the ports. -/
theorem discover_from_server_port (mac : MACAddress) (g : DhcpGlobals) : ¬ EncoderUndone mac g ∧
    ∃ frame g' m, dhcpSendDiscover mac g = some (frame, g') ∧ frame.length = 298 ∧
      decodeFrame frame = some m ∧ g'.currentTransactionId = g.generators.trng 0 ∧
      Discovers mac g'.currentTransactionId frame m ∧
      m.udp.sourcePort = 67 ∧ m.udp.destinationPort = 68 := by
  constructor
  · rintro ⟨frame, g', m, hsent, -, hdecode, -, -, -, hport⟩
    have hclient := destinationPort_of_decoded hsent hdecode
    rw [hport] at hclient
    cases hclient
  · exact ⟨_, _, _, dhcpSendDiscover_eq mac g, discoverFrame_length mac _,
      decodeFrame_discoverFrame mac _, rfl, discovers_discoverDecoded mac _, rfl, rfl⟩

/-- The frame of `02:00:00:00:00:01` under the id `0x12345678`. -/
theorem discover_goes_to_client_port :
    ¬ ∀ (mac : MACAddress) (g : DhcpGlobals), EncoderUndone mac g := by
  intro h
  let generators : Generators :=
    ⟨fun _ => 0, 0, 0, ⟨0, 0⟩, fun _ => 0x12345678, fun _ => ⟨0, 0, 0⟩⟩
  obtain ⟨frame, g', m, hsent, -, hdecode, -, -, -, hport⟩ :=
    h ⟨[0x02, 0, 0, 0, 0, 0x01], rfl⟩ ⟨generators, .none, 0⟩
  have hclient := destinationPort_of_decoded hsent hdecode
  rw [hport] at hclient
  cases hclient

end Wchratum1.Dhcp
