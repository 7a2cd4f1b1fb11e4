import Wchratum1.Packet.Execution

/-! # Which frames are answered, and where the answers go

The rewriting of `PacketRxInterrupt` field by field, in the terms of the protocols, with what it
leaves alone. -/

namespace Wchratum1.Packet
open Bytes PointerCode Prng Ethernet
set_option autoImplicit false

structure EchoAnswer (host : Host) (f : Bytes) (n : ℤ) (r : Bytes) : Prop where
  dhost : slice r etherDhost 6 = slice f etherShost 6
  shost : slice r etherShost 6 = host.kMACAddress
  dst : slice r ipDst 4 = slice f ipSrc 4
  src : slice r ipSrc 4 = le32 host.kIPv4Net
  type : r icmpType = 0
  ttl : r ipTtl = 64
  size : n = 14 + be16 r ipLen
  others : ∀ i, 12 ≤ i → i ≠ ipTtl → (i < 26 ∨ 34 < i) → r i = f i

structure ChargenAnswer (host : Host) (f : Bytes) (n : ℤ) (r : Bytes) : Prop where
  dhost : slice r etherDhost 6 = slice f etherShost 6
  shost : slice r etherShost 6 = host.kMACAddress
  dst : slice r ipDst 4 = slice f ipSrc 4
  src : slice r ipSrc 4 = le32 host.kIPv4Net
  ttl : r ipTtl = 1
  dport : slice r uhDport 2 = slice f uhSport 2
  sport : be16 r uhSport = 19
  len : be16 r ipLen = 1500
  ulen : be16 r uhUlen = be16 r ipLen - 20
  size : n = 14 + be16 r ipLen
  others : ∀ i < 42, 12 ≤ i → (i < 16 ∨ 18 ≤ i) → i ≠ ipTtl → (i < 26 ∨ 40 ≤ i) → r i = f i

structure ArpAnswer (host : Host) (f : Bytes) (n : ℤ) (r : Bytes) : Prop where
  dhost : slice r etherDhost 6 = slice f etherShost 6
  shost : slice r etherShost 6 = host.kMACAddress
  op : be16 r arOp = 2
  tha : slice r arpTha 6 = slice f arpSha 6
  tpa : slice r arpTpa 4 = slice f arpSpa 4
  sha : slice r arpSha 6 = host.kMACAddress
  spa : slice r arpSpa 4 = le32 host.kIPv4Net
  size : n = 42
  others : ∀ i, 12 ≤ i → (i < 20 ∨ 42 ≤ i) → r i = f i

/-! ## The replies -/

theorem echoReply_answers (host : Host) (f : Bytes) :
    EchoAnswer host f (14 + (be16 f ipLen : ℤ)) (echoReply host f) where
  dhost := by simp [echoReply, swapEther, slice_splice_disjoint, slice_splice_same]
  shost := by simp [echoReply, swapEther, slice_splice_same, host.mac_length]
  dst := by
    simp [echoReply, swapEther, swapIp, slice_splice_disjoint, slice_splice_same, host.mac_length]
  src := by
    simp [echoReply, swapEther, swapIp, slice_splice_disjoint, slice_splice_same, host.mac_length]
  type := by
    simp [echoReply, swapEther_outside, swapIp_outside, splice_outside, splice_inside]
  ttl := by
    simp [echoReply, swapEther_outside, swapIp_outside, splice_inside]
  size := by
    simp [echoReply, swapEther, swapIp, be16_splice, host.mac_length]
  others := fun _ => echoReply_outside

theorem chargenHeaders_answers (host : Host) (f : Bytes) :
    ChargenAnswer host f 1514 (chargenHeaders host f) where
  dhost := by
    simp [chargenHeaders, swapEther, swapIp, slice_splice_disjoint, slice_splice_same,
      host.mac_length]
  shost := by
    simp [chargenHeaders, swapEther, swapIp, slice_splice_disjoint, slice_splice_same,
      host.mac_length]
  dst := by
    simp [chargenHeaders, swapIp, slice_splice_disjoint, slice_splice_same]
  src := by
    simp [chargenHeaders, swapIp, slice_splice_disjoint, slice_splice_same]
  ttl := by
    simp [chargenHeaders, swapIp_outside, splice_outside, splice_inside]
  dport := by
    simp [chargenHeaders, slice_splice_disjoint, slice_splice_same]
  sport := by
    simp [chargenHeaders, be16, splice_outside, splice_inside]
  len := by
    simp [chargenHeaders, swapIp_outside, be16, splice_outside, splice_inside]
  ulen := by
    simp [chargenHeaders, swapIp_outside, be16, splice_outside, splice_inside]
  size := by
    simp [chargenHeaders, swapIp_outside, be16, splice_outside, splice_inside]
  others := fun _ _ => chargenHeaders_outside

theorem arpReply_answers (host : Host) (f : Bytes) : ArpAnswer host f 42 (arpReply host f) where
  dhost := by
    simp [arpReply, swapEther, slice_splice_disjoint, slice_splice_same, host.mac_length]
  shost := by
    simp [arpReply, swapEther, slice_splice_disjoint, slice_splice_same, host.mac_length]
  op := by
    simp [arpReply, be16, splice_outside, splice_inside]
  tha := by
    -- the one `memcpy` of ten bytes moves both sender fields
    have hcopy := slice_splice_slice (m := splice (swapEther host f f) 20 [0, 2]) (f := f)
      (a := 32) (b := 22) (show 0 + 6 ≤ 10 by decide)
    simpa [arpReply, slice_splice_disjoint, host.mac_length] using hcopy
  tpa := by
    have hcopy := slice_splice_slice (m := splice (swapEther host f f) 20 [0, 2]) (f := f)
      (a := 32) (b := 22) (show 6 + 4 ≤ 10 by decide)
    simpa [arpReply, slice_splice_disjoint, host.mac_length] using hcopy
  sha := by
    simp [arpReply, slice_splice_disjoint, slice_splice_same, host.mac_length]
  spa := by
    simp [arpReply, slice_splice_same]
  size := rfl
  others := fun _ => arpReply_outside

/-- The payload does not reach into the headers. -/
theorem ChargenAnswer.of_headers {host : Host} {f r r' : Bytes} {n : ℤ}
    (ha : ChargenAnswer host f n r) (heq : ∀ i < 42, r' i = r i) : ChargenAnswer host f n r' := by
  have hslice : ∀ a k, a + k ≤ 42 → slice r' a k = slice r a k := by
    intro a k hak
    rw [slice_eq_iff]
    intro j hj
    exact heq _ (by omega)
  have hbe : ∀ a, a + 1 < 42 → be16 r' a = be16 r a := by
    intro a hlt
    rw [be16, be16, heq _ (by omega), heq _ hlt]
  exact {
    dhost := (hslice _ _ (by decide)).trans ha.dhost
    shost := (hslice _ _ (by decide)).trans ha.shost
    dst := (hslice _ _ (by decide)).trans ha.dst
    src := (hslice _ _ (by decide)).trans ha.src
    ttl := (heq _ (by decide)).trans ha.ttl
    dport := (hslice _ _ (by decide)).trans ha.dport
    sport := (hbe _ (by decide)).trans ha.sport
    len := (hbe _ (by decide)).trans ha.len
    ulen := by rw [hbe _ (by decide), hbe _ (by decide), ha.ulen]
    size := by rw [hbe _ (by decide), ha.size]
    others := by
      intro i hlt hi hlen httl hip
      rw [heq i hlt, ha.others i hlt hi hlen httl hip] }

/-- **Answers.** A call always returns. It answers exactly the echo requests, the chargen requests
and the ARP requests for this host, each with the addresses turned round and nothing else of the
frame (for chargen: of its headers) changed than what the protocol's reply says. -/
theorem answers_exactly (host : Host) (len : Int32) (f : Bytes) (g : Generators) :
    ∃ n r, receive host len f g = some (n, r) ∧
      (0 ≤ n ↔ EchoRequest host f ∨ ChargenRequest host f ∨ ArpRequest host f) ∧
      (EchoRequest host f → EchoAnswer host f n r.store.bytes) ∧
      (ChargenRequest host f → ChargenAnswer host f n r.store.bytes) ∧
      (ArpRequest host f → ArpAnswer host f n r.store.bytes) := by
  obtain ⟨touched, hrun⟩ := receive_eq host len f g
  refine ⟨_, _, hrun, answer_nonneg_iff host f g 0, ?_, ?_, ?_⟩
  · intro hreq
    rw [answer_of_echo hreq]
    exact echoReply_answers host f
  · intro hreq
    rw [answer_of_chargen hreq]
    exact (chargenHeaders_answers host f).of_headers fun i hi => fillPayload_outside (Or.inl hi)
  · intro hreq
    rw [answer_of_arp hreq]
    exact arpReply_answers host f

end Wchratum1.Packet
