import Wchratum1.Dhcp.Decode
import Wchratum1.Packet.Addressing
import Wchratum1.Packet.Serve
import Mathlib.Tactic.MkIffOfInductiveProp

/-! # The exchange as its other end sees it

The other end knows nothing of offsets: it decodes frames with the layouts of the standards
(`decodeIp`, `decodeArp`), and what it decodes from the reply is its own request with the ends turned round
and what the protocol says in place of what it asked (`IcmpMessage.pong`, …). The checksums are left to
the hardware, so they are decoded and not checked.
-/

namespace Wchratum1.Packet
open Bytes PointerCode Prng Ethernet Wire
set_option autoImplicit false

variable {host : Host} {m f : Bytes} {α : Type}

/-! ## Messages in Ethernet -/

structure IpMessage (α : Type) where
  ethernet : Dhcp.EthernetHeader
  ip : Dhcp.IPv4Header
  body : α

/-- A message in IPv4 without options in Ethernet; what follows the IPv4 packet is padding. -/
def decodeIp (body : Decoder α) (frame : List UInt8) : Option (IpMessage α) := do
  let (ethernet, l) ← Dhcp.ethernetHeader frame
  let (ip, l) ← Dhcp.ipv4Header l
  let (payload, _) ← takeBytes (ip.totalLength - 20) l
  let (body, _) ← body payload
  return ⟨ethernet, ip, body⟩

def ethernetAt (m : Bytes) : Dhcp.EthernetHeader :=
  ⟨slice m etherDhost 6, slice m etherShost 6, be16 m etherType⟩

def ipv4At (m : Bytes) : Dhcp.IPv4Header :=
  ⟨m ipHlV, m 15, be16 m ipLen, be16 m 18, be16 m 20, m ipTtl, m ipP, be16 m 24, slice m ipSrc 4,
    slice m ipDst 4⟩

theorem at_ethernetHeader (m : Bytes) : At Dhcp.ethernetHeader m 0 14 (ethernetAt m) :=
  (At.takeBytes m 0 6).bind ((At.takeBytes m 6 6).bind ((At.be16 m 12).bind_pure _))

theorem at_ipv4Header (m : Bytes) : At Dhcp.ipv4Header m 14 20 (ipv4At m) :=
  (At.byte m 14).bind ((At.byte m 15).bind ((At.be16 m 16).bind ((At.be16 m 18).bind
    ((At.be16 m 20).bind ((At.byte m 22).bind ((At.byte m 23).bind ((At.be16 m 24).bind
    ((At.takeBytes m 26 4).bind ((At.takeBytes m 30 4).bind_pure _)))))))))

theorem takes_ethernetHeader : Takes Dhcp.ethernetHeader 14 :=
  (Takes.takeBytes 6).bind fun _ => (Takes.takeBytes 6).bind fun _ => Takes.be16.bind_pure _

theorem takes_ipv4Header : Takes Dhcp.ipv4Header 20 :=
  Takes.byte.bind fun _ => Takes.byte.bind fun _ => Takes.be16.bind fun _ => Takes.be16.bind fun _ =>
    Takes.be16.bind fun _ => Takes.byte.bind fun _ => Takes.byte.bind fun _ => Takes.be16.bind fun _ =>
    (Takes.takeBytes 4).bind fun _ => (Takes.takeBytes 4).bind_pure _

theorem decodeIp_inv {body : Decoder α} {frame : List UInt8} {d : IpMessage α}
    (hd : decodeIp body frame = some d) : ∃ l l' payload rest rest',
      Dhcp.ethernetHeader frame = some (d.ethernet, l) ∧ Dhcp.ipv4Header l = some (d.ip, l') ∧
      takeBytes (d.ip.totalLength - 20) l' = some (payload, rest) ∧
      body payload = some (d.body, rest') := by
  obtain ⟨⟨ethernet, l⟩, he, hd⟩ := Option.bind_eq_some_iff.mp hd
  obtain ⟨⟨ip, l'⟩, hi, hd⟩ := Option.bind_eq_some_iff.mp hd
  obtain ⟨⟨payload, rest⟩, hp, hd⟩ := Option.bind_eq_some_iff.mp hd
  obtain ⟨⟨b, rest'⟩, hb, hd⟩ := Option.bind_eq_some_iff.mp hd
  obtain rfl := Option.some.inj hd
  exact ⟨l, l', payload, rest, rest', he, hi, hp, hb⟩

/-- What `n` bytes of memory decode to. -/
theorem decodeIp_iff {body : Decoder α} {n : ℕ} {d : IpMessage α} :
    decodeIp body (firstBytes n m) = some d ↔ 34 ≤ n ∧ 14 + be16 m ipLen ≤ n ∧
      d.ethernet = ethernetAt m ∧ d.ip = ipv4At m ∧
      ∃ rest, body (slice m 34 (be16 m ipLen - 20)) = some (d.body, rest) := by
  have hread : ∀ k, Dhcp.ethernetHeader (firstBytes (14 + (20 + k)) m) =
      some (ethernetAt m, slice m 14 (20 + k)) ∧
        Dhcp.ipv4Header (slice m 14 (20 + k)) = some (ipv4At m, slice m 34 k) := fun k => by
    rw [firstBytes_eq_slice]
    exact ⟨at_ethernetHeader m _, at_ipv4Header m k⟩
  constructor
  · intro hd
    obtain ⟨l, l', payload, rest, rest', he, hi, hp, hb⟩ := decodeIp_inv hd
    have hlong := takes_ethernetHeader _ _ _ he
    have hlong' := takes_ipv4Header _ _ _ hi
    have hlong'' := Takes.takeBytes _ _ _ _ hp
    rw [firstBytes_length] at hlong
    obtain ⟨k, rfl⟩ := Nat.exists_eq_add_of_le (show 34 ≤ n by omega)
    rw [show 34 + k = 14 + (20 + k) by omega] at he
    obtain ⟨hethernet, hl⟩ := Prod.mk.inj (Option.some.inj ((hread k).1.symm.trans he))
    rw [← hl] at hi
    obtain ⟨hip, hl'⟩ := Prod.mk.inj (Option.some.inj ((hread k).2.symm.trans hi))
    rw [← hl', ← hip] at hp
    rw [← hip, ← hl', slice_length] at hlong''
    have hlen : 14 + be16 m ipLen ≤ 34 + k := by
      change k = be16 m ipLen - 20 + rest.length at hlong''
      omega
    refine ⟨by omega, hlen, hethernet.symm, hip.symm, rest', ?_⟩
    have hpayload := At.takeBytes m 34 (be16 m ipLen - 20) (k - (be16 m ipLen - 20))
    rw [Nat.add_sub_cancel' (by omega)] at hpayload
    obtain ⟨hsame, -⟩ := Prod.mk.inj (Option.some.inj (hpayload.symm.trans hp))
    rw [hsame]
    exact hb
  · rintro ⟨hn, hlen, hethernet, hip, rest, hb⟩
    obtain ⟨k, rfl⟩ := Nat.exists_eq_add_of_le hn
    have hpayload := At.takeBytes m 34 (be16 m ipLen - 20) (k - (be16 m ipLen - 20))
    rw [Nat.add_sub_cancel' (by omega)] at hpayload
    have he := (hread k).1
    have hi := (hread k).2
    rw [show 14 + (20 + k) = 34 + k by omega] at he
    have hip' : (ipv4At m).totalLength = be16 m ipLen := rfl
    simp only [decodeIp, he, hi, hip', hpayload, hb, Option.bind_eq_bind, Option.bind_some]
    rw [← hethernet, ← hip]
    rfl

/-! ## Numbers -/

theorem be16_eq_iff (m : Bytes) (a : ℕ) (b c : UInt8) :
    be16 m a = b.toNat * 2 ^ 8 + c.toNat ↔ slice m a 2 = [b, c] := by
  have hm := (m a).toNat_lt
  have hm' := (m (a + 1)).toNat_lt
  have hb := b.toNat_lt
  have hc := c.toNat_lt
  have hslice : slice m a 2 = [m a, m (a + 1)] := rfl
  rw [hslice, be16, List.cons.injEq, List.cons.injEq, ← UInt8.toNat_inj, ← UInt8.toNat_inj]
  constructor
  · intro h
    exact ⟨by omega, by omega, rfl⟩
  · rintro ⟨h, h', -⟩
    rw [h, h']

theorem be16_congr {m' : Bytes} {a : ℕ} (h0 : m' a = m a) (h1 : m' (a + 1) = m (a + 1)) :
    be16 m' a = be16 m a := by
  rw [be16, be16, h0, h1]

theorem slice_congr {m' : Bytes} {a k : ℕ} (h : ∀ i, a ≤ i → i < a + k → m' i = m i) :
    slice m' a k = slice m a k := by
  rw [slice_eq_iff]
  intro j hj
  exact h _ (by omega) (by omega)

/-! ## Echo -/

structure IcmpMessage where
  type : UInt8
  code : UInt8
  checksum : ℕ
  identifier : ℕ
  sequence : ℕ
  data : List UInt8

def icmpMessage : Decoder IcmpMessage := do
  let type ← byte
  let code ← byte
  let checksum ← Wire.be16
  let identifier ← Wire.be16
  let sequence ← Wire.be16
  let data ← remainder
  return ⟨type, code, checksum, identifier, sequence, data⟩

def icmpAt (m : Bytes) (k : ℕ) : IcmpMessage :=
  ⟨m icmpType, m icmpCode, be16 m 36, be16 m 38, be16 m 40, slice m 42 k⟩

theorem icmpMessage_iff {k : ℕ} {b : IcmpMessage} : (∃ rest, icmpMessage (slice m 34 k) = some (b, rest)) ↔
    8 ≤ k ∧ b = icmpAt m (k - 8) := by
  have hread : ∀ r, icmpMessage (slice m 34 (8 + r)) = some (icmpAt m r, []) := by
    intro r
    have h8 : 8 + r = 1 + (1 + (2 + (2 + (2 + r)))) := by omega
    rw [h8, icmpMessage, (At.byte m 34).step, (At.byte m 35).step, (At.be16 m 36).step,
      (At.be16 m 38).step, (At.be16 m 40).step]
    rfl
  constructor
  · rintro ⟨rest, h⟩
    have hlong : 8 ≤ k := by
      unfold icmpMessage at h
      obtain ⟨⟨v1, l1⟩, h1, h⟩ := Option.bind_eq_some_iff.mp h
      obtain ⟨⟨v2, l2⟩, h2, h⟩ := Option.bind_eq_some_iff.mp h
      obtain ⟨⟨v3, l3⟩, h3, h⟩ := Option.bind_eq_some_iff.mp h
      obtain ⟨⟨v4, l4⟩, h4, h⟩ := Option.bind_eq_some_iff.mp h
      obtain ⟨⟨v5, l5⟩, h5, -⟩ := Option.bind_eq_some_iff.mp h
      have t1 := Takes.byte _ _ _ h1
      have t2 := Takes.byte _ _ _ h2
      have t3 := Takes.be16 _ _ _ h3
      have t4 := Takes.be16 _ _ _ h4
      have t5 := Takes.be16 _ _ _ h5
      rw [slice_length] at t1
      omega
    obtain ⟨r, rfl⟩ := Nat.exists_eq_add_of_le hlong
    rw [hread] at h
    obtain ⟨hb, -⟩ := Prod.mk.inj (Option.some.inj h)
    exact ⟨hlong, by rw [← hb, Nat.add_sub_cancel_left]⟩
  · rintro ⟨hlong, rfl⟩
    obtain ⟨r, rfl⟩ := Nat.exists_eq_add_of_le hlong
    exact ⟨[], by rw [hread, Nat.add_sub_cancel_left]⟩

/-- An echo request for `host`. -/
@[mk_iff ping_def]
structure Ping (host : Host) (d : IpMessage IcmpMessage) : Prop where
  ethernetType : d.ethernet.type = 0x0800
  versionHeaderLength : d.ip.versionHeaderLength = 0x45
  destination : d.ip.destination = le32 host.kIPv4Net
  protocol : d.ip.protocol = 1
  type : d.body.type = 8
  code : d.body.code = 0

/-- The same message back, as a reply. -/
def pong (host : Host) (d : IpMessage IcmpMessage) : IpMessage IcmpMessage where
  ethernet := ⟨d.ethernet.source, host.kMACAddress, d.ethernet.type⟩
  ip := { d.ip with ttl := 64, source := le32 host.kIPv4Net, destination := d.ip.source }
  body := { d.body with type := 0 }

theorem ping_iff {n : ℕ} {d : IpMessage IcmpMessage}
    (hd : decodeIp icmpMessage (firstBytes n f) = some d) : Ping host d ↔ EchoRequest host f := by
  obtain ⟨-, -, hethernet, hip, hbody⟩ := decodeIp_iff.mp hd
  replace hbody := (icmpMessage_iff.mp hbody).2
  obtain ⟨ethernet, ip, body⟩ := d
  dsimp only at hethernet hip hbody
  subst hethernet hip hbody
  rw [EchoRequest, echoFields, ipv4Fields, List.cons_append, List.cons_append, List.cons_append,
    List.nil_append, matches_cons, matches_byte, matches_cons, matches_byte, matches_byte, matches_byte,
    matches_nil, le32_length]
  constructor
  · rintro ⟨htype, hversion, hdst, hp, ht, hc⟩
    exact ⟨(be16_eq_iff _ _ 8 0).mp htype, hversion, hdst, hp, ht, hc, trivial⟩
  · rintro ⟨htype, hversion, hdst, hp, ht, hc, -⟩
    exact ⟨(be16_eq_iff _ _ 8 0).mpr htype, hversion, hdst, hp, ht, hc⟩

theorem decode_echoReply {n : ℕ} {d : IpMessage IcmpMessage}
    (hd : decodeIp icmpMessage (firstBytes n f) = some d) :
    decodeIp icmpMessage (firstBytes (14 + d.ip.totalLength) (echoReply host f)) =
      some (pong host d) := by
  obtain ⟨-, -, hethernet, hip, hbody⟩ := decodeIp_iff.mp hd
  obtain ⟨hlong, hbody⟩ := icmpMessage_iff.mp hbody
  have ha := echoReply_answers host f
  have hkeep : ∀ i, 12 ≤ i → i ≠ 22 → i < 26 ∨ 34 < i → echoReply host f i = f i := ha.others
  have hbe : ∀ a, 12 ≤ a → a < 21 ∨ 22 < a ∧ a < 25 ∨ 34 < a →
      be16 (echoReply host f) a = be16 f a := by
    intro a ha12 hrange
    exact be16_congr (hkeep _ ha12 (by omega) (by omega)) (hkeep _ (by omega) (by omega) (by omega))
  have hlen : d.ip.totalLength = be16 f ipLen := by rw [hip]; rfl
  have hlen' : be16 (echoReply host f) ipLen = be16 f ipLen := hbe _ (by decide) (by decide)
  have hethernet' : ethernetAt (echoReply host f) =
      ⟨slice f etherShost 6, host.kMACAddress, be16 f etherType⟩ := by
    rw [ethernetAt, ha.dhost, ha.shost, hbe etherType (by decide) (by decide)]
  have hip' : ipv4At (echoReply host f) = { ipv4At f with
      ttl := 64, source := le32 host.kIPv4Net, destination := slice f ipSrc 4 } := by
    rw [ipv4At, ha.ttl, ha.dst, ha.src, hlen', hbe 18 (by decide) (by decide),
      hbe 20 (by decide) (by decide), hbe 24 (by decide) (by decide),
      hkeep ipHlV (by decide) (by decide) (by decide), hkeep 15 (by decide) (by decide) (by decide),
      hkeep ipP (by decide) (by decide) (by decide)]
    rfl
  have hbody' : ∀ k, icmpAt (echoReply host f) k = { icmpAt f k with type := 0 } := by
    intro k
    rw [icmpAt, ha.type, hbe 36 (by decide) (by decide), hbe 38 (by decide) (by decide),
      hbe 40 (by decide) (by decide), hkeep icmpCode (by decide) (by decide) (by decide),
      slice_congr fun i hi _ => hkeep i (by omega) (by omega) (by omega)]
    rfl
  rw [decodeIp_iff, hlen, hlen', icmpMessage_iff, hethernet', hip', hbody']
  refine ⟨by omega, le_rfl, ?_, ?_, hlong, ?_⟩
  · rw [pong, hethernet]
    rfl
  · rw [pong, hip]
    rfl
  · rw [pong, hbody]

/-- **Ping.** Whatever bytes decode to an echo request for the host, the reply is as long as the request
and decodes to the same message with the ends turned round: type 0, TTL 64, and the same identifier,
sequence number and data. The generators are not touched. -/
theorem ping_pong (host : Host) (len : Int32) (g : Generators) {n : ℕ} {d : IpMessage IcmpMessage}
    (hd : decodeIp icmpMessage (firstBytes n f) = some d) (hping : Ping host d) :
    ∃ r, receive host len f g = some (14 + (d.ip.totalLength : ℤ), r) ∧ r.store.env = g ∧
      decodeIp icmpMessage (firstBytes (14 + d.ip.totalLength) r.store.bytes) =
        some (pong host d) := by
  obtain ⟨touched, hrun⟩ := receive_eq host len f g
  rw [answer_of_echo ((ping_iff hd).mp hping)] at hrun
  have hlen : d.ip.totalLength = be16 f ipLen := by
    rw [(decodeIp_iff.mp hd).2.2.2.1]
    rfl
  rw [hlen]
  refine ⟨_, hrun, rfl, ?_⟩
  rw [← hlen]
  exact decode_echoReply hd

/-- Twelve bytes of data behind the eight of the header. -/
def pingFrame : Bytes :=
  ipv4Frame 0 40 64 1 [8, 0, 0x12, 0x34, 0, 7, 0, 1, 0xDE, 0xAD, 0xBE, 0xEF, 1, 2, 3, 4, 5, 6, 7, 8] 0xEE

theorem ping_pong_with_data : ∃ r, receive prdk 60 pingFrame resting = some (54, r) ∧
    (decodeIp icmpMessage (firstBytes 54 r.store.bytes)).map (fun d => d.body.data) =
      some [0xDE, 0xAD, 0xBE, 0xEF, 1, 2, 3, 4, 5, 6, 7, 8] := by
  have hd : decodeIp icmpMessage (firstBytes 60 pingFrame) =
      some ⟨ethernetAt pingFrame, ipv4At pingFrame, icmpAt pingFrame 12⟩ :=
    decodeIp_iff.mpr ⟨by decide, by decide +kernel, rfl, rfl,
      icmpMessage_iff.mpr ⟨by decide +kernel, rfl⟩⟩
  obtain ⟨r, hrun, -, hdecode⟩ := ping_pong prdk 60 resting hd
    ⟨by decide +kernel, by decide +kernel, by decide +kernel, by decide +kernel, by decide +kernel,
      by decide +kernel⟩
  have hlen : (ipv4At pingFrame).totalLength = 40 := by decide +kernel
  rw [hlen] at hrun hdecode
  refine ⟨r, hrun, ?_⟩
  rw [hdecode, Option.map_some]
  decide +kernel

/-! ## ARP -/

structure ArpMessage where
  hardware : ℕ
  protocol : ℕ
  hardwareLength : UInt8
  protocolLength : UInt8
  operation : ℕ
  senderHardware : List UInt8
  senderProtocol : List UInt8
  targetHardware : List UInt8
  targetProtocol : List UInt8

structure ArpFrame where
  ethernet : Dhcp.EthernetHeader
  arp : ArpMessage

def arpMessage : Decoder ArpMessage := do
  let hardware ← Wire.be16
  let protocol ← Wire.be16
  let hardwareLength ← byte
  let protocolLength ← byte
  let operation ← Wire.be16
  let senderHardware ← takeBytes 6
  let senderProtocol ← takeBytes 4
  let targetHardware ← takeBytes 6
  let targetProtocol ← takeBytes 4
  return ⟨hardware, protocol, hardwareLength, protocolLength, operation, senderHardware, senderProtocol,
    targetHardware, targetProtocol⟩

def decodeArp (frame : List UInt8) : Option ArpFrame := do
  let (ethernet, l) ← Dhcp.ethernetHeader frame
  let (arp, _) ← arpMessage l
  return ⟨ethernet, arp⟩

def arpAt (m : Bytes) : ArpMessage :=
  ⟨be16 m arHrd, be16 m arPro, m arHln, m arPln, be16 m arOp, slice m arpSha 6, slice m arpSpa 4,
    slice m arpTha 6, slice m arpTpa 4⟩

theorem at_arpMessage (m : Bytes) : At arpMessage m 14 28 (arpAt m) :=
  (At.be16 m 14).bind ((At.be16 m 16).bind ((At.byte m 18).bind ((At.byte m 19).bind
    ((At.be16 m 20).bind ((At.takeBytes m 22 6).bind ((At.takeBytes m 28 4).bind
    ((At.takeBytes m 32 6).bind ((At.takeBytes m 38 4).bind_pure _))))))))

theorem takes_arpMessage : Takes arpMessage 28 :=
  Takes.be16.bind fun _ => Takes.be16.bind fun _ => Takes.byte.bind fun _ => Takes.byte.bind fun _ =>
    Takes.be16.bind fun _ => (Takes.takeBytes 6).bind fun _ => (Takes.takeBytes 4).bind fun _ =>
    (Takes.takeBytes 6).bind fun _ => (Takes.takeBytes 4).bind_pure _

theorem decodeArp_iff {n : ℕ} {d : ArpFrame} :
    decodeArp (firstBytes n m) = some d ↔ 42 ≤ n ∧ d = ⟨ethernetAt m, arpAt m⟩ := by
  have hread : ∀ k, decodeArp (firstBytes (14 + (28 + k)) m) = some ⟨ethernetAt m, arpAt m⟩ := by
    intro k
    have he := at_ethernetHeader m (28 + k)
    have ha := at_arpMessage m k
    rw [firstBytes_eq_slice]
    rw [Nat.zero_add] at he
    simp only [decodeArp, he, ha, Option.bind_eq_bind, Option.bind_some]
    rfl
  constructor
  · intro hd
    have hlong : 42 ≤ n := by
      obtain ⟨⟨ethernet, l⟩, he, hrest⟩ := Option.bind_eq_some_iff.mp hd
      obtain ⟨⟨arp, l'⟩, ha, -⟩ := Option.bind_eq_some_iff.mp hrest
      have h1 := takes_ethernetHeader _ _ _ he
      have h2 := takes_arpMessage _ _ _ ha
      rw [firstBytes_length] at h1
      omega
    obtain ⟨k, rfl⟩ := Nat.exists_eq_add_of_le hlong
    rw [show 42 + k = 14 + (28 + k) by omega, hread] at hd
    exact ⟨hlong, (Option.some.inj hd).symm⟩
  · rintro ⟨hlong, rfl⟩
    obtain ⟨k, rfl⟩ := Nat.exists_eq_add_of_le hlong
    rw [show 42 + k = 14 + (28 + k) by omega, hread]

/-- A question for the hardware address of `host`. -/
@[mk_iff whoHas_def]
structure WhoHas (host : Host) (d : ArpFrame) : Prop where
  ethernetType : d.ethernet.type = 0x0806
  hardware : d.arp.hardware = 1
  protocol : d.arp.protocol = 0x0800
  hardwareLength : d.arp.hardwareLength = 6
  protocolLength : d.arp.protocolLength = 4
  operation : d.arp.operation = 1
  targetProtocol : d.arp.targetProtocol = le32 host.kIPv4Net

def isAt (host : Host) (d : ArpFrame) : ArpFrame where
  ethernet := ⟨d.ethernet.source, host.kMACAddress, d.ethernet.type⟩
  arp := { d.arp with
    operation := 2
    senderHardware := host.kMACAddress
    senderProtocol := le32 host.kIPv4Net
    targetHardware := d.arp.senderHardware
    targetProtocol := d.arp.senderProtocol }

theorem whoHas_iff {n : ℕ} {d : ArpFrame} (hd : decodeArp (firstBytes n f) = some d) :
    WhoHas host d ↔ ArpRequest host f := by
  obtain ⟨-, rfl⟩ := decodeArp_iff.mp hd
  rw [ArpRequest, arpFields, matches_cons, matches_cons, matches_cons, matches_byte, matches_byte,
    matches_cons, matches_cons, matches_nil, le32_length]
  constructor
  · rintro ⟨htype, hhrd, hpro, hhln, hpln, hop, htpa⟩
    exact ⟨(be16_eq_iff _ _ 8 6).mp htype, (be16_eq_iff _ _ 0 1).mp hhrd,
      (be16_eq_iff _ _ 8 0).mp hpro, hhln, hpln, (be16_eq_iff _ _ 0 1).mp hop, htpa, trivial⟩
  · rintro ⟨htype, hhrd, hpro, hhln, hpln, hop, htpa, -⟩
    exact ⟨(be16_eq_iff _ _ 8 6).mpr htype, (be16_eq_iff _ _ 0 1).mpr hhrd,
      (be16_eq_iff _ _ 8 0).mpr hpro, hhln, hpln, (be16_eq_iff _ _ 0 1).mpr hop, htpa⟩

theorem decode_arpReply {n : ℕ} {d : ArpFrame} (hd : decodeArp (firstBytes n f) = some d) :
    decodeArp (firstBytes 42 (arpReply host f)) = some (isAt host d) := by
  refine decodeArp_iff.mpr ⟨le_rfl, ?_⟩
  obtain ⟨-, rfl⟩ := decodeArp_iff.mp hd
  have ha := arpReply_answers host f
  have hkeep : ∀ i, 12 ≤ i → i < 20 ∨ 42 ≤ i → arpReply host f i = f i := ha.others
  have hbe : ∀ a, 12 ≤ a → a < 19 → be16 (arpReply host f) a = be16 f a := by
    intro a hle hlt
    exact be16_congr (hkeep _ hle (by omega)) (hkeep _ (by omega) (by omega))
  have hethernet : ethernetAt (arpReply host f) =
      ⟨slice f etherShost 6, host.kMACAddress, be16 f etherType⟩ := by
    rw [ethernetAt, ha.dhost, ha.shost, hbe etherType (by decide) (by decide)]
  have harp : arpAt (arpReply host f) = ⟨be16 f arHrd, be16 f arPro, f arHln, f arPln, 2,
      host.kMACAddress, le32 host.kIPv4Net, slice f arpSha 6, slice f arpSpa 4⟩ := by
    rw [arpAt, ha.op, ha.sha, ha.spa, ha.tha, ha.tpa, hbe arHrd (by decide) (by decide),
      hbe arPro (by decide) (by decide), hkeep arHln (by decide) (by decide),
      hkeep arPln (by decide) (by decide)]
  rw [hethernet, harp]
  rfl

/-- **ARP.** Whatever bytes decode to a question for the host's address, the reply decodes to the answer:
the host's hardware address as sender, the asker as target, and all else as it was asked. -/
theorem who_has_is_at (host : Host) (len : Int32) (g : Generators) {n : ℕ} {d : ArpFrame}
    (hd : decodeArp (firstBytes n f) = some d) (hwho : WhoHas host d) :
    ∃ r, receive host len f g = some (42, r) ∧ r.store.env = g ∧
      decodeArp (firstBytes 42 r.store.bytes) = some (isAt host d) := by
  obtain ⟨touched, hrun⟩ := receive_eq host len f g
  rw [answer_of_arp ((whoHas_iff hd).mp hwho)] at hrun
  exact ⟨_, hrun, rfl, decode_arpReply hd⟩

/-- Who has 192.168.141.123? -/
def whoHasFrame : Bytes :=
  overlay ([0xFF, 0xFF, 0xFF, 0xFF, 0xFF, 0xFF, 0x02, 0, 0, 0, 0, 0x02, 0x08, 0x06] ++
    [0, 1, 0x08, 0x00, 6, 4, 0, 1, 0x02, 0, 0, 0, 0, 0x02, 192, 168, 141, 1, 0, 0, 0, 0, 0, 0] ++
    [192, 168, 141, 123]) fun _ => 0xEE

theorem who_has_is_at_broadcast : ∃ r, receive prdk 60 whoHasFrame resting = some (42, r) ∧
    decodeArp (firstBytes 42 r.store.bytes) =
      some (isAt prdk ⟨ethernetAt whoHasFrame, arpAt whoHasFrame⟩) := by
  obtain ⟨r, hrun, -, hdecode⟩ := who_has_is_at prdk 60 resting
    (decodeArp_iff.mpr ⟨by decide, rfl⟩ : decodeArp (firstBytes 60 whoHasFrame) = some _)
    ⟨by decide +kernel, by decide +kernel, by decide +kernel, by decide +kernel, by decide +kernel,
      by decide +kernel, by decide +kernel⟩
  exact ⟨r, hrun, hdecode⟩

/-! ## Chargen -/

structure UdpMessage where
  header : Dhcp.UDPHeader
  payload : List UInt8

def udpMessage : Decoder UdpMessage := do
  let header ← Dhcp.udpHeader
  let payload ← takeBytes (header.length - 8)
  return ⟨header, payload⟩

def udpAt (m : Bytes) : Dhcp.UDPHeader := ⟨be16 m uhSport, be16 m uhDport, be16 m uhUlen, be16 m 40⟩

theorem at_udpHeader (m : Bytes) : At Dhcp.udpHeader m 34 8 (udpAt m) :=
  (At.be16 m 34).bind ((At.be16 m 36).bind ((At.be16 m 38).bind ((At.be16 m 40).bind_pure _)))

theorem takes_udpHeader : Takes Dhcp.udpHeader 8 :=
  Takes.be16.bind fun _ => Takes.be16.bind fun _ => Takes.be16.bind fun _ => Takes.be16.bind_pure _

theorem udpMessage_iff {k : ℕ} {b : UdpMessage} : (∃ rest, udpMessage (slice m 34 k) = some (b, rest)) ↔
    8 ≤ k ∧ be16 m uhUlen ≤ k ∧ b = ⟨udpAt m, slice m udpPayload (be16 m uhUlen - 8)⟩ := by
  have hread : ∀ r, be16 m uhUlen - 8 ≤ r → udpMessage (slice m 34 (8 + r)) =
      some (⟨udpAt m, slice m udpPayload (be16 m uhUlen - 8)⟩,
        slice m (42 + (be16 m uhUlen - 8)) (r - (be16 m uhUlen - 8))) := by
    intro r hr
    obtain ⟨t, rfl⟩ := Nat.exists_eq_add_of_le hr
    rw [udpMessage, (at_udpHeader m).step, Nat.add_sub_cancel_left]
    exact (At.takeBytes m 42 (be16 m uhUlen - 8)).bind_pure _ t
  constructor
  · rintro ⟨rest, h⟩
    obtain ⟨⟨header, l⟩, hheader, hrest⟩ := Option.bind_eq_some_iff.mp h
    obtain ⟨⟨payload, l'⟩, hpayload, -⟩ := Option.bind_eq_some_iff.mp hrest
    have h1 := takes_udpHeader _ _ _ hheader
    have h2 := Takes.takeBytes _ _ _ _ hpayload
    rw [slice_length] at h1
    obtain ⟨r, rfl⟩ := Nat.exists_eq_add_of_le (show 8 ≤ k by omega)
    obtain ⟨hsame, -⟩ := Prod.mk.inj (Option.some.inj ((at_udpHeader m r).symm.trans hheader))
    rw [← hsame] at h2
    have hlen : be16 m uhUlen - 8 ≤ r := by
      change l.length = be16 m uhUlen - 8 + l'.length at h2
      omega
    rw [hread r hlen] at h
    obtain ⟨hb, -⟩ := Prod.mk.inj (Option.some.inj h)
    exact ⟨by omega, by omega, hb.symm⟩
  · rintro ⟨hk, hlen, rfl⟩
    obtain ⟨r, rfl⟩ := Nat.exists_eq_add_of_le hk
    exact ⟨_, hread r (by omega)⟩

/-- A request for the characters of `selector`. -/
@[mk_iff asksFor_def]
structure AsksFor (host : Host) (selector : UInt8) (d : IpMessage UdpMessage) : Prop where
  ethernetType : d.ethernet.type = 0x0800
  versionHeaderLength : d.ip.versionHeaderLength = 0x45
  destination : d.ip.destination = le32 host.kIPv4Net
  ttl : d.ip.ttl = 255
  protocol : d.ip.protocol = 17
  destinationPort : d.body.header.destinationPort = 19
  payload : d.body.payload.head? = some selector

/-- The datagram that answers it. -/
def chargenOf (host : Host) (payload : List UInt8) (d : IpMessage UdpMessage) : IpMessage UdpMessage where
  ethernet := ⟨d.ethernet.source, host.kMACAddress, d.ethernet.type⟩
  ip := { d.ip with
    totalLength := 1500, ttl := 1, source := le32 host.kIPv4Net, destination := d.ip.source }
  body :=
    { header := { d.body.header with
        sourcePort := 19, destinationPort := d.body.header.sourcePort, length := 1480 }
      payload := payload }

theorem asksFor_iff {n : ℕ} {d : IpMessage UdpMessage} {selector : UInt8}
    (hd : decodeIp udpMessage (firstBytes n f) = some d) :
    AsksFor host selector d ↔ ChargenRequest host f ∧ f udpPayload = selector := by
  obtain ⟨-, -, hethernet, hip, hbody⟩ := decodeIp_iff.mp hd
  replace hbody := (udpMessage_iff.mp hbody).2.2
  obtain ⟨ethernet, ip, body⟩ := d
  dsimp only at hethernet hip hbody
  subst hethernet hip hbody
  have hhead : (slice f udpPayload (be16 f uhUlen - 8)).head? = some selector ↔
      9 ≤ be16 f uhUlen ∧ f udpPayload = selector := by
    obtain hle | ⟨k, hk⟩ : be16 f uhUlen ≤ 8 ∨ ∃ k, be16 f uhUlen = 9 + k := by
      rcases Nat.lt_or_ge 8 (be16 f uhUlen) with hlt | hle
      · exact Or.inr (Nat.exists_eq_add_of_le hlt)
      · exact Or.inl hle
    · rw [Nat.sub_eq_zero_of_le hle]
      exact ⟨fun h => (Option.some_ne_none _ h.symm).elim, fun h => absurd h.1 (by omega)⟩
    · rw [show be16 f uhUlen - 8 = 1 + k by omega, At.slice_cons, List.head?_cons, Option.some_inj]
      exact ⟨fun h => ⟨by omega, h⟩, And.right⟩
  rw [ChargenRequest, chargenFields, ipv4Fields, List.cons_append, List.cons_append, List.cons_append,
    List.nil_append, matches_cons, matches_byte, matches_cons, matches_byte, matches_cons, matches_byte,
    matches_nil, le32_length]
  constructor
  · rintro ⟨htype, hversion, hdst, httl, hp, hport, hpayload⟩
    obtain ⟨hlong, hselector⟩ := hhead.mp hpayload
    exact ⟨⟨⟨(be16_eq_iff _ _ 8 0).mp htype, hversion, hdst, hp, (be16_eq_iff _ _ 0 19).mp hport, httl,
      trivial⟩, hlong⟩, hselector⟩
  · rintro ⟨⟨⟨htype, hversion, hdst, hp, hport, httl, -⟩, hlong⟩, hselector⟩
    exact ⟨(be16_eq_iff _ _ 8 0).mpr htype, hversion, hdst, httl, hp, (be16_eq_iff _ _ 0 19).mpr hport,
      hhead.mpr ⟨hlong, hselector⟩⟩

/-- The reply to a chargen request, over any payload that the loops leave. -/
theorem decode_chargen {r : Bytes} (hr : ∀ i < 42, r i = chargenHeaders host f i) :
    decodeIp udpMessage (firstBytes 1514 r) = some (chargenOf host (slice r udpPayload etherMtuUdp)
      ⟨ethernetAt f, ipv4At f, ⟨udpAt f, []⟩⟩) := by
  have ha := (chargenHeaders_answers host f).of_headers hr
  have hkeep : ∀ i, 12 ≤ i → i < 16 ∨ 18 ≤ i ∧ i < 22 ∨ 22 < i ∧ i < 26 ∨ 40 ≤ i ∧ i < 42 → r i = f i := by
    intro i hi hrange
    exact ha.others i (by omega) hi (by omega) (by simp only [ipTtl]; omega) (by omega)
  have hbe : ∀ a, 12 ≤ a → a < 15 ∨ 18 ≤ a ∧ a < 21 ∨ 22 < a ∧ a < 25 ∨ a = 40 → be16 r a = be16 f a := by
    intro a hle hrange
    exact be16_congr (hkeep _ hle (by omega)) (hkeep _ (by omega) (by omega))
  have hdport : be16 r uhDport = be16 f uhSport := by
    have h := ha.dport
    rw [slice_eq_iff] at h
    rw [be16, be16, h 1 (by decide)]
    exact congrArg (fun b : UInt8 => b.toNat * 2 ^ 8 + _) (h 0 (by decide))
  have hulen : be16 r uhUlen = 1480 := by rw [ha.ulen, ha.len]
  have hethernet : ethernetAt r = ⟨slice f etherShost 6, host.kMACAddress, be16 f etherType⟩ := by
    rw [ethernetAt, ha.dhost, ha.shost, hbe etherType (by decide) (by decide)]
  have hip : ipv4At r = { ipv4At f with
      totalLength := 1500, ttl := 1, source := le32 host.kIPv4Net, destination := slice f ipSrc 4 } := by
    rw [ipv4At, ha.len, ha.ttl, ha.dst, ha.src, hbe 18 (by decide) (by decide),
      hbe 20 (by decide) (by decide), hbe 24 (by decide) (by decide), hkeep ipHlV (by decide) (by decide),
      hkeep 15 (by decide) (by decide), hkeep ipP (by decide) (by decide)]
    rfl
  have hudp : udpAt r = ⟨19, be16 f uhSport, 1480, be16 f 40⟩ := by
    rw [udpAt, ha.sport, hdport, hulen, hbe 40 (by decide) (by decide)]
  rw [decodeIp_iff, ha.len, udpMessage_iff, hulen, hethernet, hip, hudp]
  exact ⟨by decide, by decide, rfl, rfl, by decide, by decide, rfl⟩

theorem decode_chargenReply {n : ℕ} {selector : UInt8} {d : IpMessage UdpMessage} {F : Filler}
    (hd : decodeIp udpMessage (firstBytes n f) = some d) (hF : filler selector = some F)
    (g : Generators) :
    decodeIp udpMessage (firstBytes 1514 (fillPayload selector ⟨chargenHeaders host f, g, 0⟩).bytes) =
      some (chargenOf host (F.payload g) d) := by
  have hpayload : slice (fillPayload selector ⟨chargenHeaders host f, g, 0⟩).bytes udpPayload
      etherMtuUdp = F.payload g := by
    rw [fillPayload, hF]
    exact slice_splice_same (F.payload_length g)
  obtain ⟨-, -, hethernet, hip, hbody⟩ := decodeIp_iff.mp hd
  obtain ⟨-, -, hbody⟩ := udpMessage_iff.mp hbody
  have hheaders : ∀ i < 42, (fillPayload selector ⟨chargenHeaders host f, g, 0⟩).bytes i =
      chargenHeaders host f i := fun i hi => fillPayload_outside (Or.inl hi)
  have hdecode := decode_chargen hheaders
  rw [hpayload] at hdecode
  rw [chargenOf, hethernet, hip, hbody]
  exact hdecode

/-- **Chargen.** Whatever bytes decode to a chargen request with one of the four selectors, the reply
decodes to a datagram of 1472 bytes for the asking port, filled by the selector's generator, which has
made exactly these calls. -/
theorem asks_for_gets (host : Host) (len : Int32) (g : Generators) {n : ℕ} {selector : UInt8}
    {d : IpMessage UdpMessage} {F : Filler} (hd : decodeIp udpMessage (firstBytes n f) = some d)
    (hasks : AsksFor host selector d) (hF : filler selector = some F) :
    ∃ r, receive host len f g = some (1514, r) ∧
      r.store.env = PrngCall.runs (fillCalls selector) g ∧
      decodeIp udpMessage (firstBytes 1514 r.store.bytes) = some (chargenOf host (F.payload g) d) := by
  obtain ⟨hreq, hselector⟩ := (asksFor_iff hd).mp hasks
  obtain ⟨touched, hrun⟩ := receive_eq host len f g
  rw [answer_of_chargen hreq, hselector] at hrun
  exact ⟨_, hrun, fillPayload_env _ _ _, decode_chargenReply hd hF g⟩

theorem asks_for_gets_pcg32 : ∃ r,
    receive prdk 60 (chargenFrame 'P'.toUInt8 0xEE) resting = some (1514, r) ∧
      (decodeIp udpMessage (firstBytes 1514 r.store.bytes)).map (fun d => d.body.header.destinationPort) =
        some 0x3039 := by
  have hd : decodeIp udpMessage (firstBytes 60 (chargenFrame 'P'.toUInt8 0xEE)) =
      some ⟨ethernetAt (chargenFrame 'P'.toUInt8 0xEE), ipv4At (chargenFrame 'P'.toUInt8 0xEE),
        ⟨udpAt (chargenFrame 'P'.toUInt8 0xEE), slice (chargenFrame 'P'.toUInt8 0xEE) udpPayload
          (be16 (chargenFrame 'P'.toUInt8 0xEE) uhUlen - 8)⟩⟩ :=
    decodeIp_iff.mpr ⟨by decide, by decide +kernel, rfl, rfl,
      udpMessage_iff.mpr ⟨by decide +kernel, by decide +kernel, rfl⟩⟩
  obtain ⟨r, hrun, -, hdecode⟩ := asks_for_gets prdk 60 resting hd
    ⟨by decide +kernel, by decide +kernel, by decide +kernel, by decide +kernel, by decide +kernel,
      by decide +kernel, by decide +kernel⟩ (rfl : filler 'P'.toUInt8 = some (wordFiller pcgUInt32))
  refine ⟨r, hrun, ?_⟩
  rw [hdecode, Option.map_some]
  decide +kernel

end Wchratum1.Packet
