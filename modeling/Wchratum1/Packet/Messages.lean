import Wchratum1.Packet.Client

/-! # A server of messages

`respond` says what the host answers in terms of decoded messages, and `converse` is the server that hears
one message after the other, among calls of its generators by other code. The server of frames is this
server, frame by frame, where the frames are honest (`serve_converses`): what decodes is no longer than
what was received, and what does not decode gets no answer.
-/

namespace Wchratum1.Packet
open Bytes PointerCode Prng Ethernet
set_option autoImplicit false

variable {B : Board} {host : Host} {m f : Bytes} {α : Type}

/-! ## Messages -/

inductive Message
  | icmp (d : IpMessage IcmpMessage)
  | udp (d : IpMessage UdpMessage)
  | arp (d : ArpFrame)

/-- IPv4 by the EtherType, and this protocol. -/
def IpMessage.carries (protocol : UInt8) (d : IpMessage α) : Bool :=
  d.ethernet.type == 0x0800 && d.ip.protocol == protocol

def parse (frame : List UInt8) : Option Message :=
  (((decodeIp icmpMessage frame).filter (IpMessage.carries 1)).map .icmp).or
    ((((decodeIp udpMessage frame).filter (IpMessage.carries 17)).map .udp).or
      (((decodeArp frame).filter fun d => d.ethernet.type == 0x0806).map .arp))

theorem decodeIp_carries {body : Wire.Decoder α} {n : ℕ} (protocol : UInt8) :
    (decodeIp body (firstBytes n m)).filter (IpMessage.carries protocol) =
      if be16 m etherType = 0x0800 ∧ m ipP = protocol then decodeIp body (firstBytes n m) else none := by
  cases hd : decodeIp body (firstBytes n m) with
  | none => rw [Option.filter_none, ite_self]
  | some d =>
    obtain ⟨-, -, hethernet, hip, -⟩ := decodeIp_iff.mp hd
    rw [Option.filter_some, IpMessage.carries, hethernet, hip]
    simp only [ethernetAt, ipv4At, Bool.and_eq_true, beq_iff_eq]

theorem decodeArp_carries {n : ℕ} : (decodeArp (firstBytes n m)).filter (fun d => d.ethernet.type == 0x0806) =
    if be16 m etherType = 0x0806 then decodeArp (firstBytes n m) else none := by
  cases hd : decodeArp (firstBytes n m) with
  | none => rw [Option.filter_none, ite_self]
  | some d =>
    obtain ⟨-, rfl⟩ := decodeArp_iff.mp hd
    rw [Option.filter_some]
    simp only [ethernetAt, beq_iff_eq]

theorem parse_icmp {n : ℕ} (htype : be16 m etherType = 0x0800) (hp : m ipP = 1) :
    parse (firstBytes n m) = (decodeIp icmpMessage (firstBytes n m)).map .icmp := by
  rw [parse, decodeIp_carries, decodeIp_carries, decodeArp_carries, if_pos ⟨htype, hp⟩, hp, htype]
  simp

theorem parse_udp {n : ℕ} (htype : be16 m etherType = 0x0800) (hp : m ipP = 17) :
    parse (firstBytes n m) = (decodeIp udpMessage (firstBytes n m)).map .udp := by
  rw [parse, decodeIp_carries, decodeIp_carries, decodeArp_carries, hp, htype]
  simp

theorem parse_arp {n : ℕ} (htype : be16 m etherType = 0x0806) :
    parse (firstBytes n m) = (decodeArp (firstBytes n m)).map .arp := by
  rw [parse, decodeIp_carries, decodeIp_carries, decodeArp_carries, htype]
  simp

/-- What a message says of its frame. -/
theorem parse_inv {n : ℕ} {msg : Message} (hmsg : parse (firstBytes n m) = some msg) :
    (∃ d, msg = .icmp d ∧ decodeIp icmpMessage (firstBytes n m) = some d ∧
        be16 m etherType = 0x0800 ∧ m ipP = 1) ∨
      (∃ d, msg = .udp d ∧ decodeIp udpMessage (firstBytes n m) = some d ∧
        be16 m etherType = 0x0800 ∧ m ipP = 17) ∨
      ∃ d, msg = .arp d ∧ decodeArp (firstBytes n m) = some d ∧ be16 m etherType = 0x0806 := by
  rw [parse, decodeIp_carries, decodeIp_carries, decodeArp_carries, Option.or_eq_some_iff,
    Option.or_eq_some_iff] at hmsg
  rcases hmsg with hicmp | ⟨-, hudp | ⟨-, harp⟩⟩
  · obtain ⟨d, hd, rfl⟩ := Option.map_eq_some_iff.mp hicmp
    split at hd
    · rename_i hhead
      exact Or.inl ⟨d, rfl, hd, hhead⟩
    · cases hd
  · obtain ⟨d, hd, rfl⟩ := Option.map_eq_some_iff.mp hudp
    split at hd
    · rename_i hhead
      exact Or.inr (Or.inl ⟨d, rfl, hd, hhead⟩)
    · cases hd
  · obtain ⟨d, hd, rfl⟩ := Option.map_eq_some_iff.mp harp
    split at hd
    · rename_i hhead
      exact Or.inr (Or.inr ⟨d, rfl, hd, hhead⟩)
    · cases hd

/-! ## Answers -/

instance decidablePing (d : IpMessage IcmpMessage) : Decidable (Ping host d) :=
  decidable_of_iff' _ (ping_def host d)

instance decidableAsksFor (selector : UInt8) (d : IpMessage UdpMessage) :
    Decidable (AsksFor host selector d) :=
  decidable_of_iff' _ (asksFor_def host selector d)

instance decidableWhoHas (d : ArpFrame) : Decidable (WhoHas host d) :=
  decidable_of_iff' _ (whoHas_def host d)

/-- What the host says to a message, and what this makes of the generators. For a character that is no
selector the data is left over in the buffer, so this says nothing of it. -/
def respond (host : Host) : Message → Generators → Option Message × Generators
  | .icmp d, g => (if Ping host d then some (.icmp (pong host d)) else none, g)
  | .udp d, g =>
    let selector := d.body.payload.headD 0
    if AsksFor host selector d then
      ((filler selector).map fun F => .udp (chargenOf host (F.payload g) d),
        PrngCall.runs (fillCalls selector) g)
    else (none, g)
  | .arp d, g => (if WhoHas host d then some (.arp (isAt host d)) else none, g)

/-- What `n` bytes of memory make the host do. -/
def hears (host : Host) (frame : List UInt8) (g : Generators) : Option Message × Generators :=
  match parse frame with
  | some msg => respond host msg g
  | none => (none, g)

/-- The first `n` bytes tell what the host answers. -/
@[mk_iff honest_def]
structure Honest (host : Host) (f : Bytes) (n : ℕ) : Prop where
  fits : n ≤ etherMaxLen
  decodes : EchoRequest host f ∨ ChargenRequest host f ∨ ArpRequest host f →
    (parse (firstBytes n f)).isSome = true
  selects : ChargenRequest host f → (filler (f udpPayload)).isSome = true

instance decidableHonest (f : Bytes) (n : ℕ) : Decidable (Honest host f n) :=
  decidable_of_iff' _ (honest_def host f n)

theorem sized_natCast {k : ℕ} (hfits : 14 + k ≤ etherMaxLen) {frame : Bytes} :
    B.sized (14 + (k : ℤ)) frame = firstBytes (14 + k) frame :=
  sized_eq B (Int.natCast_nonneg (14 + k)) (by exact_mod_cast hfits) frame

theorem reply_of_echo (hreq : EchoRequest host f) (len : ℤ) (g : Generators) :
    (callOf host f len g).reply B = some (B.sized (14 + be16 f ipLen) (echoReply host f)) := by
  have hpos : (0 : ℤ) ≤ 14 + (be16 f ipLen : ℤ) := Int.natCast_nonneg (14 + be16 f ipLen)
  rw [callOf, answer_of_echo hreq, Call.reply, if_pos hpos]

theorem reply_of_chargen (hreq : ChargenRequest host f) (len : ℤ) (g : Generators) :
    (callOf host f len g).reply B =
      some (firstBytes 1514 (fillPayload (f udpPayload) ⟨chargenHeaders host f, g, 0⟩).bytes) := by
  have hpos : (0 : ℤ) ≤ 1514 := by decide
  rw [callOf, answer_of_chargen hreq, Call.reply, if_pos hpos, sized_eq B hpos (by decide)]
  rfl

theorem reply_of_arp (hreq : ArpRequest host f) (len : ℤ) (g : Generators) :
    (callOf host f len g).reply B = some (firstBytes 42 (arpReply host f)) := by
  have hpos : (0 : ℤ) ≤ 42 := by decide
  rw [callOf, answer_of_arp hreq, Call.reply, if_pos hpos, sized_eq B hpos (by decide)]
  rfl

theorem reply_of_none (he : ¬ EchoRequest host f) (hc : ¬ ChargenRequest host f)
    (ha : ¬ ArpRequest host f) (len : ℤ) (g : Generators) : (callOf host f len g).reply B = none := by
  have hneg : ¬ (0 : ℤ) ≤ packetProcessed := by decide
  rw [callOf, answer_of_none he hc ha, Call.reply, if_neg hneg]

/-- A reply is of the request's type, and its protocol too. -/
theorem echoReply_heads (host : Host) (f : Bytes) :
    be16 (echoReply host f) etherType = be16 f etherType ∧ echoReply host f ipP = f ipP := by
  have hkeep := (echoReply_answers host f).others
  exact ⟨be16_congr (hkeep _ (by decide) (by decide) (by decide))
    (hkeep _ (by decide) (by decide) (by decide)), hkeep _ (by decide) (by decide) (by decide)⟩

theorem chargenReply_heads {r : Bytes} (hr : ∀ i < 42, r i = chargenHeaders host f i) :
    be16 r etherType = be16 f etherType ∧ r ipP = f ipP := by
  have hkeep := ((chargenHeaders_answers host f).of_headers hr).others
  exact ⟨be16_congr (hkeep _ (by decide) (by decide) (by decide) (by decide) (by decide))
    (hkeep _ (by decide) (by decide) (by decide) (by decide) (by decide)),
    hkeep _ (by decide) (by decide) (by decide) (by decide) (by decide)⟩

theorem arpReply_heads (host : Host) (f : Bytes) :
    be16 (arpReply host f) etherType = be16 f etherType := by
  have hkeep := (arpReply_answers host f).others
  exact be16_congr (hkeep _ (by decide) (by decide)) (hkeep _ (by decide) (by decide))

theorem word16_eq_hton16_iff {x : UInt16} {b c : UInt8} (hx : le16 (hton16 x) = [b, c]) (a : ℕ) :
    word16 m a = hton16 x ↔ be16 m a = b.toNat * 2 ^ 8 + c.toNat := by
  rw [be16_eq_iff, word16_eq_iff, hx]

theorem ethertypeIP_iff : word16 m etherType = hton16 ethertypeIP ↔ be16 m etherType = 0x0800 :=
  word16_eq_hton16_iff (b := 8) (c := 0) (by decide) etherType

theorem ethertypeARP_iff : word16 m etherType = hton16 ethertypeARP ↔ be16 m etherType = 0x0806 :=
  word16_eq_hton16_iff (b := 8) (c := 6) (by decide) etherType

/-- The call says what the message server says, and makes the same of the generators. -/
def Says (B : Board) (host : Host) (f : Bytes) (len : ℤ) (g : Generators)
    (said : Option Message × Generators) : Prop :=
  ((callOf host f len g).reply B).map parse = said.1.map some ∧
    PrngCall.runs (frameCalls host f) g = said.2

section
variable {n : ℕ} (len : ℤ) (g : Generators)

theorem says_nothing (he : ¬ EchoRequest host f) (hc : ¬ ChargenRequest host f)
    (ha : ¬ ArpRequest host f) : Says B host f len g (none, g) := by
  rw [Says, reply_of_none he hc ha, frameCalls, if_neg hc]
  exact ⟨rfl, rfl⟩

theorem says_icmp {d : IpMessage IcmpMessage} (hd : decodeIp icmpMessage (firstBytes n f) = some d)
    (htype : be16 f etherType = 0x0800) (hp : f ipP = 1) (hfits : n ≤ etherMaxLen) :
    Says B host f len g (respond host (.icmp d) g) := by
  have hc : ¬ ChargenRequest host f := not_chargen_of_icmp hp
  by_cases hping : Ping host d
  · have hreq := (ping_iff hd).mp hping
    obtain ⟨-, hlong, -, hip, -⟩ := decodeIp_iff.mp hd
    have hlen : d.ip.totalLength = be16 f ipLen := by
      rw [hip]
      rfl
    have hsized : B.sized (14 + be16 f ipLen) (echoReply host f) =
        firstBytes (14 + d.ip.totalLength) (echoReply host f) := by
      rw [hlen]
      exact sized_natCast (hlong.trans hfits)
    obtain ⟨htype', hp'⟩ := echoReply_heads host f
    rw [htype] at htype'
    rw [hp] at hp'
    rw [Says, reply_of_echo hreq, hsized, frameCalls, if_neg hc, Option.map_some, parse_icmp htype' hp',
      decode_echoReply hd]
    simp only [respond, if_pos hping]
    exact ⟨rfl, rfl⟩
  · simp only [respond, if_neg hping]
    exact says_nothing len g (fun he => hping ((ping_iff hd).mpr he)) hc
      (not_arp_of_ip (ethertypeIP_iff.mpr htype))

theorem says_udp {d : IpMessage UdpMessage} (hd : decodeIp udpMessage (firstBytes n f) = some d)
    (htype : be16 f etherType = 0x0800) (hp : f ipP = 17)
    (hselects : ChargenRequest host f → (filler (f udpPayload)).isSome = true) :
    Says B host f len g (respond host (.udp d) g) := by
  by_cases hasks : AsksFor host (d.body.payload.headD 0) d
  · obtain ⟨hreq, hselector⟩ := (asksFor_iff hd).mp hasks
    obtain ⟨F, hF⟩ := Option.isSome_iff_exists.mp (hselects hreq)
    rw [hselector] at hF
    have hheaders : ∀ i < 42, (fillPayload (f udpPayload) ⟨chargenHeaders host f, g, 0⟩).bytes i =
        chargenHeaders host f i := fun i hi => fillPayload_outside (Or.inl hi)
    obtain ⟨htype', hp'⟩ := chargenReply_heads hheaders
    rw [htype] at htype'
    rw [hp] at hp'
    rw [Says, reply_of_chargen hreq, frameCalls, if_pos hreq, Option.map_some, parse_udp htype' hp',
      hselector, decode_chargenReply hd hF]
    simp only [respond, if_pos hasks, hF]
    exact ⟨rfl, trivial⟩
  · have hc : ¬ ChargenRequest host f := by
      intro hreq
      have hasked : AsksFor host (f udpPayload) d := (asksFor_iff hd).mpr ⟨hreq, rfl⟩
      have hhead : d.body.payload.headD 0 = f udpPayload := by
        rw [List.headD_eq_head?_getD, hasked.payload]
        rfl
      rw [hhead] at hasks
      exact hasks hasked
    simp only [respond, if_neg hasks]
    exact says_nothing len g (not_echo_of_udp hp) hc (not_arp_of_ip (ethertypeIP_iff.mpr htype))

theorem says_arp {d : ArpFrame} (hd : decodeArp (firstBytes n f) = some d)
    (htype : be16 f etherType = 0x0806) : Says B host f len g (respond host (.arp d) g) := by
  obtain ⟨he, hc⟩ : ¬ EchoRequest host f ∧ ¬ ChargenRequest host f :=
    not_ip_of_arp (ethertypeARP_iff.mpr htype)
  by_cases hwho : WhoHas host d
  · have hreq := (whoHas_iff hd).mp hwho
    have htype' := arpReply_heads host f
    rw [htype] at htype'
    rw [Says, reply_of_arp hreq, frameCalls, if_neg hc, Option.map_some, parse_arp htype',
      decode_arpReply hd]
    simp only [respond, if_pos hwho]
    exact ⟨rfl, rfl⟩
  · simp only [respond, if_neg hwho]
    exact says_nothing len g he hc fun h => hwho ((whoHas_iff hd).mpr h)

/-- The answer to an honest frame is that to its message. -/
theorem Honest.spoken (hhonest : Honest host f n) : Says B host f len g (hears host (firstBytes n f) g) := by
  unfold hears
  cases hmsg : parse (firstBytes n f) with
  | none =>
    have hnone : ¬ (EchoRequest host f ∨ ChargenRequest host f ∨ ArpRequest host f) := by
      intro hreq
      have hsome := hhonest.decodes hreq
      rw [hmsg] at hsome
      cases hsome
    rw [not_or, not_or] at hnone
    exact says_nothing len g hnone.1 hnone.2.1 hnone.2.2
  | some msg =>
    obtain ⟨d, rfl, hd, htype, hp⟩ | ⟨d, rfl, hd, htype, hp⟩ | ⟨d, rfl, hd, htype⟩ := parse_inv hmsg
    · exact says_icmp len g hd htype hp hhonest.fits
    · exact says_udp len g hd htype hp hhonest.selects
    · exact says_arp len g hd htype

end

/-! ## The conversation -/

inductive Turn
  | heard (msg : Message)
  | outside (call : PrngCall)

def converse (host : Host) : List Turn → Generators → List Message × Generators
  | [], g => ([], g)
  | .heard msg :: turns, g =>
    let said := respond host msg g
    let rest := converse host turns said.2
    (said.1.toList ++ rest.1, rest.2)
  | .outside call :: turns, g => converse host turns (call.run g)

def Turn.message : Turn → Option Message
  | .heard msg => some msg
  | .outside _ => none

def Turn.call : Turn → Option PrngCall
  | .heard _ => none
  | .outside call => some call

/-- The message in what the handler was given. -/
def heardIn (request : Bytes × ℤ) : Option Message := parse (firstBytes request.2.toNat request.1)

def turnOf : Event PrngCall → Option Turn
  | .request frame len => (heardIn (frame, len)).map .heard
  | .outside call => some (.outside call)

theorem converse_hears (frame : List UInt8) (turns : List Turn) (g : Generators) :
    converse host (((parse frame).map Turn.heard).toList ++ turns) g =
      let said := hears host frame g
      let rest := converse host turns said.2
      (said.1.toList ++ rest.1, rest.2) := by
  unfold hears
  cases parse frame <;> rfl

/-- Where all frames are honest, the replies of the server decode to what the message server says. -/
theorem serve_converses (B : Board) {es : List (Event PrngCall)}
    (hhonest : ∀ request ∈ es.filterMap Event.asked, Honest host request.1 request.2.toNat)
    (g : Generators) :
    let served := serve (packetHandler host) PrngCall.run es g
    (served.1.filterMap (Call.reply B)).map parse = (converse host (es.filterMap turnOf) g).1.map some ∧
      served.2 = (converse host (es.filterMap turnOf) g).2 := by
  induction es generalizing g with
  | nil => exact ⟨rfl, rfl⟩
  | cons e es ih =>
    cases e with
    | request frame len =>
      have hfirst : Honest host frame len.toNat := hhonest (frame, len) List.mem_cons_self
      have hrest := ih fun request hmem => hhonest request (List.mem_cons_of_mem _ hmem)
      obtain ⟨hsaid, hgenerators⟩ := hfirst.spoken (B := B) len g
      obtain ⟨hreplies, hafter⟩ := hrest (hears host (firstBytes len.toNat frame) g).2
      have hturns : (Event.request frame len :: es).filterMap turnOf =
          ((parse (firstBytes len.toNat frame)).map Turn.heard).toList ++ es.filterMap turnOf := by
        simp only [List.filterMap_eq_flatMap_toList, List.flatMap_cons]
        rfl
      rw [hturns, converse_hears, serve_request, hgenerators]
      dsimp only
      refine ⟨?_, hafter⟩
      rw [List.filterMap_eq_flatMap_toList] at hreplies ⊢
      rw [List.flatMap_cons, List.map_append, hreplies, ← Option.toList_map, hsaid, List.map_append,
        ← Option.toList_map]
    | outside call => exact ih hhonest (call.run g)

/-! ## The data that chargen sends -/

def Message.chargenData : Message → List UInt8
  | .udp d => if d.body.header.sourcePort = 19 then d.body.payload else []
  | _ => []

/-- What a client of chargen takes from a frame. -/
def chargenData (frame : List UInt8) : List UInt8 := ((parse frame).map Message.chargenData).getD []

theorem chargenData_reply (B : Board) (host : Host) (f : Bytes) (len : ℤ) (g : Generators) :
    ((callOf host f len g).reply B).toList.flatMap chargenData =
      if ChargenRequest host f then slice (callOf host f len g).rewritten udpPayload etherMtuUdp
      else [] := by
  by_cases hc : ChargenRequest host f
  · have hheaders : ∀ i < 42, (fillPayload (f udpPayload) ⟨chargenHeaders host f, g, 0⟩).bytes i =
        chargenHeaders host f i := fun i hi => fillPayload_outside (Or.inl hi)
    obtain ⟨htype, hp⟩ := chargenReply_heads hheaders
    rw [ethertypeIP_iff.mp (chargenRequest_iff.mp hc).1] at htype
    rw [(chargenRequest_iff.mp hc).2.2.1] at hp
    rw [if_pos hc, reply_of_chargen hc, Option.toList_some, List.flatMap_singleton, chargenData,
      parse_udp htype hp, decode_chargen hheaders, Option.map_some, Option.map_some, Option.getD_some,
      callOf, answer_of_chargen hc]
    simp only [Message.chargenData, chargenOf, if_true]
  rw [if_neg hc]
  by_cases he : EchoRequest host f
  · obtain ⟨htype, hp⟩ := echoReply_heads host f
    rw [ethertypeIP_iff.mp (echoRequest_iff.mp he).1] at htype
    rw [(echoRequest_iff.mp he).2.2.1] at hp
    rw [reply_of_echo he, Option.toList_some, List.flatMap_singleton, chargenData, Board.sized,
      parse_icmp htype hp]
    cases decodeIp icmpMessage _ <;> rfl
  by_cases ha : ArpRequest host f
  · have htype := arpReply_heads host f
    rw [ethertypeARP_iff.mp (arpRequest_iff.mp ha).1] at htype
    rw [reply_of_arp ha, Option.toList_some, List.flatMap_singleton, chargenData, parse_arp htype]
    cases decodeArp _ <;> rfl
  · rw [reply_of_none he hc ha]
    rfl

/-- If chargen is asked for `selector` only, the replies carry its data and no other. -/
theorem replies_carry (B : Board) {decode : List UInt8 → List α} (hnil : decode [] = [])
    {selector : UInt8} {es : List (Event PrngCall)}
    (hselector : ∀ request ∈ es.filterMap Event.asked, ChargenRequest host request.1 →
      request.1 udpPayload = selector) (g : Generators) :
    let calls := (serve (packetHandler host) PrngCall.run es g).1
    (calls.filterMap (Call.reply B)).flatMap (fun frame => decode (chargenData frame)) =
      calls.flatMap (carried host selector decode) := by
  induction es generalizing g with
  | nil => rfl
  | cons e es ih =>
    cases e with
    | request frame len =>
      have hsel := hselector (frame, len) List.mem_cons_self
      have hrest := ih fun request hmem => hselector request (List.mem_cons_of_mem _ hmem)
      have hown : ∀ reply : Option (List UInt8), reply.toList.flatMap (fun f => decode (chargenData f)) =
          decode (reply.toList.flatMap chargenData) := by
        intro reply
        cases reply with
        | none => exact hnil.symm
        | some f => rw [Option.toList_some, List.flatMap_singleton, List.flatMap_singleton]
      have hfirst : ((callOf host frame len g).reply B).toList.flatMap (fun f => decode (chargenData f)) =
          carried host selector decode (callOf host frame len g) := by
        rw [hown, chargenData_reply, carried]
        by_cases hc : ChargenRequest host frame
        · rw [if_pos hc, if_pos ⟨hc, hsel hc⟩]
        · rw [if_neg hc, if_neg fun hand => hc hand.1, hnil]
      rw [serve_request]
      dsimp only
      rw [List.filterMap_eq_flatMap_toList, List.flatMap_cons, List.flatMap_append, hfirst,
        ← List.filterMap_eq_flatMap_toList, List.flatMap_cons]
      exact congrArg _ (hrest _)
    | outside call => exact ih hselector (call.run g)

end Wchratum1.Packet
