import Wchratum1.Packet.PacketRx

/-! # What `PacketRxInterrupt` does to a frame

`answer` is `PacketRxInterrupt` without its order of statements: which frames are requests, given by
the bytes that make them so, and the frame and generators that each leaves, given by what was there
before. -/

namespace Wchratum1.Packet
open Bytes PointerCode Prng Ethernet
set_option autoImplicit false

/-! ## Requests -/

abbrev Fields := List (ℕ × List UInt8)

def Matches (m : Bytes) (fields : Fields) : Prop := ∀ q ∈ fields, slice m q.1 q.2.length = q.2

instance (m : Bytes) (fields : Fields) : Decidable (Matches m fields) :=
  inferInstanceAs (Decidable (∀ q ∈ fields, slice m q.1 q.2.length = q.2))

/-- A 16-bit field in network order. -/
def be16 (m : Bytes) (a : ℕ) : ℕ := (m a).toNat * 2 ^ 8 + (m (a + 1)).toNat

def ipv4Fields (host : Host) : Fields :=
  [(etherType, [0x08, 0x00]), (ipHlV, [0x45]), (ipDst, le32 host.kIPv4Net)]

def echoFields (host : Host) : Fields :=
  ipv4Fields host ++ [(ipP, [1]), (icmpType, [8]), (icmpCode, [0])]

def chargenFields (host : Host) : Fields :=
  ipv4Fields host ++ [(ipP, [17]), (uhDport, [0, 19]), (ipTtl, [255])]

def arpFields (host : Host) : Fields :=
  [(etherType, [0x08, 0x06]), (arHrd, [0, 1]), (arPro, [0x08, 0x00]), (arHln, [6]), (arPln, [4]),
    (arOp, [0, 1]), (arpTpa, le32 host.kIPv4Net)]

def EchoRequest (host : Host) (m : Bytes) : Prop := Matches m (echoFields host)

def ChargenRequest (host : Host) (m : Bytes) : Prop :=
  Matches m (chargenFields host) ∧ 9 ≤ be16 m uhUlen

def ArpRequest (host : Host) (m : Bytes) : Prop := Matches m (arpFields host)

instance (host : Host) (m : Bytes) : Decidable (EchoRequest host m) :=
  inferInstanceAs (Decidable (Matches _ _))

instance (host : Host) (m : Bytes) : Decidable (ChargenRequest host m) :=
  inferInstanceAs (Decidable (_ ∧ _))

instance (host : Host) (m : Bytes) : Decidable (ArpRequest host m) :=
  inferInstanceAs (Decidable (Matches _ _))

/-! ## Rewritten frames -/

def swapEther (host : Host) (m out : Bytes) : Bytes :=
  splice (splice out etherDhost (slice m etherShost etherAddrLen)) etherShost host.kMACAddress

def swapIp (host : Host) (m out : Bytes) : Bytes :=
  splice (splice out ipDst (slice m ipSrc sizeofInAddr)) ipSrc (le32 host.kIPv4Net)

def echoReply (host : Host) (m : Bytes) : Bytes :=
  swapEther host m (swapIp host m (splice (splice m icmpType [0]) ipTtl [64]))

/-- The headers of the chargen reply, over the payload of the request. -/
def chargenHeaders (host : Host) (m : Bytes) : Bytes :=
  let m1 := swapIp host m (splice (splice (swapEther host m m) ipTtl [1]) ipLen [0x05, 0xDC])
  let m2 := splice (splice m1 uhDport (slice m uhSport 2)) uhSport [0, 19]
  splice m2 uhUlen [0x05, 0xC8]

def arpReply (host : Host) (m : Bytes) : Bytes :=
  let m1 := splice (swapEther host m m) arOp [0, 2]
  let m2 := splice m1 arpTha (slice m arpSha (etherAddrLen + sizeofInAddr))
  splice (splice m2 arpSha host.kMACAddress) arpSpa (le32 host.kIPv4Net)

/-! ## Payloads -/

/-- One of the payload loops: what a turn writes, and how often it turns. -/
structure Filler where
  stride : ℕ
  turns : ℕ
  out : Generators → List UInt8
  next : Generators → Generators
  out_length : ∀ g, (out g).length = stride
  fills : turns * stride = etherMtuUdp

def wordFiller (draw : Generators → UInt32 × Generators) : Filler where
  stride := 4
  turns := 368
  out := fun g => le32 (draw g).1
  next := fun g => (draw g).2
  out_length := fun _ => rfl
  fills := by decide

def halfFiller (draw : Generators → UInt16 × Generators) : Filler where
  stride := 2
  turns := 736
  out := fun g => le16 (draw g).1
  next := fun g => (draw g).2
  out_length := fun _ => rfl
  fills := by decide

def groupFiller (draw : Generators → (UInt64 × UInt32 × UInt32) × Generators) : Filler where
  stride := 16
  turns := 92
  out := fun g => le32 (draw g).1.2.1 ++ le32 (draw g).1.2.2 ++ le32 (lowWord (draw g).1.1) ++
    le32 (highWord (draw g).1.1)
  next := fun g => (draw g).2
  out_length := fun _ => rfl
  fills := by decide

def filler (payload : UInt8) : Option Filler :=
  if payload = 'T'.toUInt8 then some (wordFiller randomUInt32)
  else if payload = 'P'.toUInt8 then some (wordFiller pcgUInt32)
  else if payload = 'p'.toUInt8 then some (halfFiller pcgUInt16)
  else if payload = 'C'.toUInt8 then some (groupFiller csPrngUInt64x2)
  else none

def Filler.payload (F : Filler) (g : Generators) : List UInt8 := written F.out F.next F.turns g

@[simp] theorem Filler.payload_length (F : Filler) (g : Generators) :
    (F.payload g).length = 1472 := by
  rw [Filler.payload, written_length F.out_length, F.fills]
  rfl

def fillPayload (payload : UInt8) (s : Store Generators) : Store Generators :=
  match filler payload with
  | none => s
  | some F =>
    ⟨splice s.bytes udpPayload (F.payload s.env), F.next^[F.turns] s.env, s.turns + F.turns⟩

theorem fillPayload_outside {payload : UInt8} {s : Store Generators} {i : ℕ}
    (hi : i < 42 ∨ 1514 ≤ i) : (fillPayload payload s).bytes i = s.bytes i := by
  unfold fillPayload
  cases filler payload with
  | none => rfl
  | some F => exact splice_outside (by rw [F.payload_length, udpPayload]; omega)

/-! ## The answer -/

def answer (host : Host) (s : Store Generators) : ℤ × Store Generators :=
  if EchoRequest host s.bytes then
    (14 + be16 s.bytes ipLen, { s with bytes := echoReply host s.bytes })
  else if ChargenRequest host s.bytes then
    (1514, fillPayload (s.bytes udpPayload) { s with bytes := chargenHeaders host s.bytes })
  else if ArpRequest host s.bytes then
    (42, { s with bytes := arpReply host s.bytes })
  else (packetProcessed, s)

/-! ## Fields and bytes -/

variable {host : Host} {m : Bytes}

theorem hton16_toNat (x : UInt16) :
    (hton16 x).toNat = x.toNat % 2 ^ 8 * 2 ^ 8 + x.toNat / 2 ^ 8 := by
  have hx := x.toNat_lt
  have hhigh : x.toNat / 2 ^ 8 < 2 ^ 8 := by omega
  have hmod : x.toNat * 2 ^ 8 % 2 ^ 16 = x.toNat % 2 ^ 8 * 2 ^ 8 := by omega
  have hor := Nat.shiftLeft_add_eq_or_of_lt hhigh (x.toNat % 2 ^ 8)
  rw [Nat.shiftLeft_eq] at hor
  rw [hor, ← hmod, Nat.lor_comm]
  simp [hton16, Nat.shiftLeft_eq, Nat.shiftRight_eq_div_pow]

theorem ntoh16_word16 (m : Bytes) (a : ℕ) : (ntoh16 (word16 m a)).toNat = be16 m a := by
  have h0 := (m a).toNat_lt
  have h1 := (m (a + 1)).toNat_lt
  rw [ntoh16, hton16_toNat, word16_toNat, be16]
  omega

theorem be16_splice {a b : ℕ} {data : List UInt8} (h : b + 2 ≤ a ∨ a + data.length ≤ b) :
    be16 (splice m a data) b = be16 m b := by
  rw [be16, be16, splice_outside (by omega), splice_outside (by omega)]

theorem slice_one (m : Bytes) (a : ℕ) (b : UInt8) : slice m a 1 = [b] ↔ m a = b := by
  simp [slice]

/-- The two nibbles that the code tests make one byte. -/
theorem versionAndLength_iff (b : UInt8) : b >>> 4 = 4 ∧ b &&& 0xF = 5 ↔ b = 0x45 := by
  have hall : ∀ n < 256, UInt8.ofNat n >>> 4 = 4 ∧ UInt8.ofNat n &&& 0xF = 5 ↔
      UInt8.ofNat n = 0x45 := by
    decide +kernel
  have hb := hall b.toNat b.toNat_lt
  rwa [UInt8.ofNat_toNat] at hb

theorem swapEther_outside {out : Bytes} {i : ℕ} (hi : 12 ≤ i) : swapEther host m out i = out i := by
  have hmac := host.mac_length
  unfold swapEther
  rw [splice_outside (by simp only [etherShost]; omega),
    splice_outside (by simp only [etherDhost, slice_length, etherAddrLen]; omega)]

theorem swapIp_outside {out : Bytes} {i : ℕ} (hi : i < 26 ∨ 34 ≤ i) :
    swapIp host m out i = out i := by
  unfold swapIp
  rw [splice_outside (by simp only [ipSrc, le32_length]; omega),
    splice_outside (by simp only [ipDst, slice_length, sizeofInAddr]; omega)]

theorem echoReply_outside {i : ℕ} (hi : 12 ≤ i) (httl : i ≠ ipTtl) (hip : i < 26 ∨ 34 < i) :
    echoReply host m i = m i := by
  unfold echoReply
  rw [swapEther_outside hi, swapIp_outside (by omega), splice_byte_outside httl,
    splice_byte_outside (by simp only [icmpType]; omega)]

theorem chargenHeaders_outside {i : ℕ} (hi : 12 ≤ i) (hlen : i < 16 ∨ 18 ≤ i) (httl : i ≠ ipTtl)
    (hip : i < 26 ∨ 40 ≤ i) : chargenHeaders host m i = m i := by
  simp only [chargenHeaders]
  rw [splice_two_outside (by simp only [uhUlen]; omega),
    splice_two_outside (by simp only [uhSport]; omega),
    splice_outside (by simp only [uhDport, slice_length]; omega), swapIp_outside (by omega),
    splice_two_outside (by simp only [ipLen]; omega), splice_byte_outside httl,
    swapEther_outside hi]

theorem arpReply_outside {i : ℕ} (hi : 12 ≤ i) (harp : i < 20 ∨ 42 ≤ i) :
    arpReply host m i = m i := by
  have hmac := host.mac_length
  simp only [arpReply]
  rw [splice_outside (by simp only [arpSpa, le32_length]; omega),
    splice_outside (by simp only [arpSha]; omega),
    splice_outside (by simp only [arpTha, slice_length, etherAddrLen, sizeofInAddr]; omega),
    splice_two_outside (by simp only [arOp]; omega), swapEther_outside hi]

/-! ## Requests in the code's own tests -/

theorem matches_nil : Matches m [] ↔ True := by simp [Matches]

theorem matches_cons (a : ℕ) (bs : List UInt8) (fields : Fields) :
    Matches m ((a, bs) :: fields) ↔ slice m a bs.length = bs ∧ Matches m fields := by
  simp [Matches]

theorem matches_byte (a : ℕ) (b : UInt8) (fields : Fields) :
    Matches m ((a, [b]) :: fields) ↔ m a = b ∧ Matches m fields := by
  rw [matches_cons, ← slice_one]
  rfl

theorem matches_word {x : UInt16} {b c : UInt8} (hx : le16 (hton16 x) = [b, c]) (a : ℕ)
    (fields : Fields) :
    Matches m ((a, [b, c]) :: fields) ↔ word16 m a = hton16 x ∧ Matches m fields := by
  rw [matches_cons, word16_eq_iff, hx]
  rfl

def IPv4ToUs (host : Host) (m : Bytes) : Prop :=
  m ipHlV >>> 4 = 4 ∧ m ipHlV &&& 0xF = 5 ∧ word32 m ipDst = host.kIPv4Net

theorem matches_ipv4_iff (fields : Fields) : Matches m (ipv4Fields host ++ fields) ↔
    word16 m etherType = hton16 ethertypeIP ∧ IPv4ToUs host m ∧ Matches m fields := by
  rw [IPv4ToUs, word32_eq_iff, ← and_assoc (a := _ = (4 : UInt8)), versionAndLength_iff, ipv4Fields,
    List.cons_append, List.cons_append, List.cons_append, List.nil_append,
    matches_word (x := ethertypeIP) (by decide), matches_byte, matches_cons, le32_length, and_assoc]

theorem echoRequest_iff : EchoRequest host m ↔ word16 m etherType = hton16 ethertypeIP ∧
    IPv4ToUs host m ∧ m ipP = ipprotoICMP ∧ m icmpType = icmpECHO ∧ m icmpCode = 0 := by
  rw [EchoRequest, echoFields, matches_ipv4_iff, matches_byte, matches_byte, matches_byte,
    matches_nil, and_true]
  rfl

theorem chargenRequest_iff : ChargenRequest host m ↔ word16 m etherType = hton16 ethertypeIP ∧
    IPv4ToUs host m ∧ m ipP = ipprotoUDP ∧ word16 m uhDport = hton16 svcChargen ∧
      m ipTtl = maxTtl ∧ sizeofUdphdr + 1 ≤ (ntoh16 (word16 m uhUlen)).toNat := by
  rw [ChargenRequest, chargenFields, matches_ipv4_iff, matches_byte,
    matches_word (x := svcChargen) (by decide), matches_byte, matches_nil, and_true, ntoh16_word16]
  simp only [and_assoc]
  rfl

theorem arpRequest_iff : ArpRequest host m ↔ word16 m etherType = hton16 ethertypeARP ∧
    (word16 m arHrd = hton16 arphrdEther ∧ word16 m arPro = hton16 ethertypeIP ∧
      m arHln = UInt8.ofNat etherAddrLen ∧ m arPln = UInt8.ofNat sizeofInAddr) ∧
    word16 m arOp = hton16 arpopRequest ∧ slice m arpTpa 4 = le32 host.kIPv4Net := by
  rw [ArpRequest, arpFields, matches_word (x := ethertypeARP) (by decide),
    matches_word (x := arphrdEther) (by decide), matches_word (x := ethertypeIP) (by decide),
    matches_byte, matches_byte, matches_word (x := arpopRequest) (by decide), matches_cons,
    matches_nil, and_true]
  simp only [and_assoc]
  rfl

/-! ## The requests exclude each other

Also when they are requests for different hosts. -/

theorem not_arp_of_ip (htype : word16 m etherType = hton16 ethertypeIP) : ¬ ArpRequest host m := by
  intro ha
  have harp := (arpRequest_iff.mp ha).1
  rw [htype] at harp
  revert harp
  decide

theorem not_ip_of_arp (htype : word16 m etherType = hton16 ethertypeARP) :
    ¬ EchoRequest host m ∧ ¬ ChargenRequest host m := by
  have hne : word16 m etherType ≠ hton16 ethertypeIP := by
    rw [htype]
    decide
  exact ⟨fun he => hne (echoRequest_iff.mp he).1, fun hc => hne (chargenRequest_iff.mp hc).1⟩

theorem not_chargen_of_icmp (hp : m ipP = ipprotoICMP) : ¬ ChargenRequest host m := by
  intro hc
  have hudp := (chargenRequest_iff.mp hc).2.2.1
  rw [hp] at hudp
  revert hudp
  decide

theorem not_echo_of_udp (hp : m ipP = ipprotoUDP) : ¬ EchoRequest host m := by
  intro he
  have hicmp := (echoRequest_iff.mp he).2.2.1
  rw [hp] at hicmp
  revert hicmp
  decide

/-! ## The answer, case by case -/

theorem answer_of_echo (hreq : EchoRequest host m) (g : Generators) (n : ℕ) :
    answer host ⟨m, g, n⟩ = (14 + (be16 m ipLen : ℤ), ⟨echoReply host m, g, n⟩) :=
  if_pos hreq

theorem answer_of_chargen (hreq : ChargenRequest host m) (g : Generators) (n : ℕ) :
    answer host ⟨m, g, n⟩ =
      (1514, fillPayload (m udpPayload) ⟨chargenHeaders host m, g, n⟩) := by
  have hne : ¬ EchoRequest host m := not_echo_of_udp (chargenRequest_iff.mp hreq).2.2.1
  exact (if_neg hne).trans (if_pos hreq)

theorem answer_of_arp (hreq : ArpRequest host m) (g : Generators) (n : ℕ) :
    answer host ⟨m, g, n⟩ = (42, ⟨arpReply host m, g, n⟩) := by
  obtain ⟨he, hc⟩ := not_ip_of_arp (arpRequest_iff.mp hreq).1
  exact (if_neg he).trans ((if_neg hc).trans (if_pos hreq))

theorem answer_of_none (he : ¬ EchoRequest host m) (hc : ¬ ChargenRequest host m)
    (ha : ¬ ArpRequest host m) (g : Generators) (n : ℕ) :
    answer host ⟨m, g, n⟩ = (packetProcessed, ⟨m, g, n⟩) :=
  (if_neg he).trans ((if_neg hc).trans (if_neg ha))

/-- A frame is answered exactly when it is a request. -/
theorem answer_nonneg_iff (host : Host) (m : Bytes) (g : Generators) (n : ℕ) :
    0 ≤ (answer host ⟨m, g, n⟩).1 ↔
      EchoRequest host m ∨ ChargenRequest host m ∨ ArpRequest host m := by
  by_cases he : EchoRequest host m
  · rw [answer_of_echo he]
    simp only [he, true_or, iff_true]
    omega
  by_cases hc : ChargenRequest host m
  · rw [answer_of_chargen hc]
    simp [hc]
  by_cases ha : ArpRequest host m
  · rw [answer_of_arp ha]
    simp [ha]
  · rw [answer_of_none he hc ha]
    simp [he, hc, ha, packetProcessed]

theorem answer_processed_or_nonneg (host : Host) (m : Bytes) (g : Generators) (n : ℕ) :
    (answer host ⟨m, g, n⟩).1 = packetProcessed ∨ 0 ≤ (answer host ⟨m, g, n⟩).1 := by
  rw [answer_nonneg_iff]
  by_cases hreq : EchoRequest host m ∨ ChargenRequest host m ∨ ArpRequest host m
  · exact Or.inr hreq
  · simp only [not_or] at hreq
    rw [answer_of_none hreq.1 hreq.2.1 hreq.2.2]
    exact Or.inl rfl

end Wchratum1.Packet
