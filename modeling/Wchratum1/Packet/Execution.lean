import Wchratum1.Packet.Answer

/-! # `PacketRxInterrupt` gives the answer

Each block of the function does its part of `answer`, and `packetRxInterrupt_does` puts them together
for every length. The function always returns: the fuel of the payload loops is never used up. -/

namespace Wchratum1.Packet
open Bytes PointerCode Prng Ethernet
set_option autoImplicit false

variable {host : Host} {m : Bytes}

/-! ## The blocks -/

section blocks

variable {g : Generators} {n : ℕ}

theorem dump_does (len : Int32) : Does (dump len) ⟨m, g, n⟩ () ⟨m, g, n⟩ :=
  Does.forM (fun _ => (Does.load8 _).bind (.pure ())) _

theorem payloadLoop_does (F : Filler) {body : ℕ → Run Generators Unit}
    (hbody : ∀ p m g n, Does (body p) ⟨m, g, n⟩ () ⟨splice m p (F.out g), F.next g, n⟩) :
    Does (payloadLoop body F.stride) ⟨m, g, n⟩ ()
      ⟨splice m udpPayload (F.payload g), F.next^[F.turns] g, n + F.turns⟩ := by
  have hfills := F.fills
  have hstride : 0 < F.stride := by
    rcases Nat.eq_zero_or_pos F.stride with hzero | hpos
    · rw [hzero] at hfills
      cases hfills
    · exact hpos
  have hfuel : F.turns ≤ etherMaxLen := by
    have hle : F.turns * 1 ≤ F.turns * F.stride := Nat.mul_le_mul_left _ hstride
    have hmtu : etherMtuUdp ≤ etherMaxLen := by decide
    omega
  rw [payloadLoop, ← hfills]
  exact Does.forPointer hstride F.out_length hbody F.turns etherMaxLen udpPayload hfuel m g n

/-- The four stores of a `C` turn are one write. -/
theorem splice_four_words (m : Bytes) (p : ℕ) (a b c d : UInt32) :
    splice (splice (splice (splice m p (le32 a)) (p + 4) (le32 b)) (p + 8) (le32 c)) (p + 12)
      (le32 d) = splice m p (le32 a ++ le32 b ++ le32 c ++ le32 d) := by
  have hb := splice_append m p (le32 a) (le32 b)
  have hc := splice_append m p (le32 a ++ le32 b) (le32 c)
  have hd := splice_append m p (le32 a ++ le32 b ++ le32 c) (le32 d)
  simp only [List.length_append, le32_length] at hb hc hd
  rw [hb, hc, hd]

theorem chargenFill_does (payload : UInt8) :
    Does (chargenFill payload) ⟨m, g, n⟩ () (fillPayload payload ⟨m, g, n⟩) := by
  unfold chargenFill fillPayload filler
  by_cases hT : payload = 'T'.toUInt8
  · rw [if_pos hT, if_pos hT]
    exact payloadLoop_does (wordFiller randomUInt32)
      fun p _ _ _ => (Does.call randomUInt32).bind (Does.store32 p _)
  rw [if_neg hT, if_neg hT]
  by_cases hP : payload = 'P'.toUInt8
  · rw [if_pos hP, if_pos hP]
    exact payloadLoop_does (wordFiller pcgUInt32)
      fun p _ _ _ => (Does.call pcgUInt32).bind (Does.store32 p _)
  rw [if_neg hP, if_neg hP]
  by_cases hp : payload = 'p'.toUInt8
  · rw [if_pos hp, if_pos hp]
    exact payloadLoop_does (halfFiller pcgUInt16)
      fun p _ _ _ => (Does.call pcgUInt16).bind (Does.store16 p _)
  rw [if_neg hp, if_neg hp]
  by_cases hC : payload = 'C'.toUInt8
  · rw [if_pos hC, if_pos hC]
    refine payloadLoop_does (groupFiller csPrngUInt64x2) ?_
    intro p m g n
    refine Does.of_eq ((Does.call csPrngUInt64x2).bind ((Does.store32 p _).bind
      ((Does.store32 (p + 4) _).bind ((Does.store32 (p + 8) _).bind (Does.store32 (p + 12) _)))))
      rfl ?_
    rw [splice_four_words]
    rfl
  rw [if_neg hC, if_neg hC]
  exact .pure ()

variable {a : ℤ × Store Generators}

theorem icmpEcho_does
    (hyes : m icmpType = icmpECHO ∧ m icmpCode = 0 →
      a = (14 + (be16 m ipLen : ℤ), ⟨echoReply host m, g, n⟩))
    (hno : ¬(m icmpType = icmpECHO ∧ m icmpCode = 0) → a = (packetProcessed, ⟨m, g, n⟩)) :
    Does (icmpEcho host) ⟨m, g, n⟩ a.1 a.2 := by
  refine Does.branch (.both ((Does.load8 _).bind (.pure _)) ((Does.load8 _).bind (.pure _)))
    (by rw [Bool.and_eq_true, beq_iff_eq, beq_iff_eq]) ?_ ?_
  · intro hreq
    rw [hyes hreq]
    refine Does.of_eq ((Does.store8 _ _).bind ((Does.store8 _ _).bind ((Does.load32 _).bind
      ((Does.store32 _ _).bind ((Does.store32 _ _).bind ((Does.memcpy _ _ _).bind
      ((Does.write _ _).bind ((Does.load16 _).bind (.pure _))))))))) ?_ ?_
    · simp [ntoh16_word16, be16_splice, host.mac_length]
    · simp [le32_word32, slice_splice_disjoint, echoReply, swapEther, swapIp, icmpECHOREPLY,
        ipDefTtl]
  · intro hreq
    rw [hno hreq]
    exact .pure _

theorem udpChargen_does
    (hyes : word16 m uhDport = hton16 svcChargen ∧ m ipTtl = maxTtl ∧
        sizeofUdphdr + 1 ≤ (ntoh16 (word16 m uhUlen)).toNat →
      a = (1514, fillPayload (m udpPayload) ⟨chargenHeaders host m, g, n⟩))
    (hno : ¬(word16 m uhDport = hton16 svcChargen ∧ m ipTtl = maxTtl ∧
        sizeofUdphdr + 1 ≤ (ntoh16 (word16 m uhUlen)).toNat) →
      a = (packetProcessed, ⟨m, g, n⟩)) :
    Does (udpChargen host) ⟨m, g, n⟩ a.1 a.2 := by
  refine Does.branch (.both ((Does.load16 _).bind (.pure _))
      (.both ((Does.load8 _).bind (.pure _)) ((Does.load16 _).bind (.pure _))))
    (by rw [Bool.and_eq_true, Bool.and_eq_true, beq_iff_eq, beq_iff_eq, decide_eq_true_eq]) ?_ ?_
  · intro hreq
    rw [hyes hreq]
    refine (Does.load8 _).bind ((Does.memcpy _ _ _).bind ((Does.write _ _).bind
      ((Does.store8 _ _).bind ((Does.store16 _ _).bind ((Does.load32 _).bind
      ((Does.store32 _ _).bind ((Does.store32 _ _).bind ((Does.load16 _).bind
      ((Does.store16 _ _).bind ((Does.store16 _ _).bind ((Does.store16 _ _).bind ?_)))))))))))
    refine (Does.of_eq (chargenFill_does _) rfl ?_).bind (.pure _)
    have hmtu : le16 (hton16 1500) = [0x05, 0xDC] := by decide
    have hulen : le16 (hton16 1480) = [0x05, 0xC8] := by decide
    have hport : le16 (hton16 svcChargen) = [0, 19] := by decide
    simp [le32_word32, le16_word16, slice_splice_disjoint, host.mac_length, chargenHeaders,
      swapEther, swapIp, hmtu, hulen, hport]
  · intro hreq
    rw [hno hreq]
    exact .pure _

theorem arpRequest_does
    (hyes : word16 m arOp = hton16 arpopRequest ∧ slice m arpTpa 4 = le32 host.kIPv4Net →
      a = (42, ⟨arpReply host m, g, n⟩))
    (hno : ¬(word16 m arOp = hton16 arpopRequest ∧ slice m arpTpa 4 = le32 host.kIPv4Net) →
      a = (packetProcessed, ⟨m, g, n⟩)) :
    Does (arpRequest host) ⟨m, g, n⟩ a.1 a.2 := by
  refine Does.branch (.both ((Does.load16 _).bind (.pure _)) (Does.memcmp _ _))
    (by rw [Bool.and_eq_true, beq_iff_eq, beq_iff_eq, le32_length]) ?_ ?_
  · intro hreq
    rw [hyes hreq]
    refine Does.of_eq ((Does.memcpy _ _ _).bind ((Does.write _ _).bind ((Does.store16 _ _).bind
      ((Does.memcpy _ _ _).bind ((Does.write _ _).bind ((Does.write _ _).bind (.pure _))))))) rfl ?_
    have hop : le16 (hton16 arpopReply) = [0, 2] := by decide
    simp [slice_splice_disjoint, host.mac_length, arpReply, swapEther, hop]
  · intro hreq
    rw [hno hreq]
    exact .pure _

/-- `PacketRxInterrupt` returns, and gives the answer, whatever the length. -/
theorem packetRxInterrupt_does (host : Host) (len : Int32) (m : Bytes) (g : Generators) (n : ℕ) :
    Does (packetRxInterrupt host len) ⟨m, g, n⟩ (answer host ⟨m, g, n⟩).1
      (answer host ⟨m, g, n⟩).2 := by
  have hnone (he : ¬ EchoRequest host m) (hc : ¬ ChargenRequest host m)
      (ha : ¬ ArpRequest host m) : Does (pure packetProcessed) ⟨m, g, n⟩
        (answer host ⟨m, g, n⟩).1 (answer host ⟨m, g, n⟩).2 := by
    rw [answer_of_none he hc ha g n]
    exact .pure _
  refine (dump_does len).bind ((Does.load16 _).bind (.ite ?_ ?_))
  · intro htype
    have harp : ¬ ArpRequest host m := not_arp_of_ip htype
    refine Does.branch (.both ((Does.load8 _).bind (.pure _))
      (.both ((Does.load8 _).bind (.pure _)) ((Does.load32 _).bind (.pure _))))
      (p := IPv4ToUs host m)
      (by rw [Bool.and_eq_true, Bool.and_eq_true, beq_iff_eq, beq_iff_eq, beq_iff_eq]; rfl) ?_ ?_
    · intro hip
      refine (Does.load8 _).bind (.ite ?_ ?_)
      · intro hp
        refine icmpEcho_does ?_ ?_
        · intro hreq
          exact answer_of_echo (echoRequest_iff.mpr ⟨htype, hip, hp, hreq⟩) g n
        · intro hreq
          have hecho : ¬ EchoRequest host m := fun h => hreq (echoRequest_iff.mp h).2.2.2
          exact answer_of_none hecho (not_chargen_of_icmp hp) harp g n
      · intro hicmp
        have hecho : ¬ EchoRequest host m := fun h => hicmp (echoRequest_iff.mp h).2.2.1
        refine Does.ite ?_ ?_
        · intro hp
          refine udpChargen_does ?_ ?_
          · intro hreq
            exact answer_of_chargen (chargenRequest_iff.mpr ⟨htype, hip, hp, hreq⟩) g n
          · intro hreq
            have hchargen : ¬ ChargenRequest host m := fun h => hreq (chargenRequest_iff.mp h).2.2.2
            exact answer_of_none hecho hchargen harp g n
        · intro hudp
          exact hnone hecho (fun h => hudp (chargenRequest_iff.mp h).2.2.1) harp
    · intro hip
      exact hnone (fun h => hip (echoRequest_iff.mp h).2.1)
        (fun h => hip (chargenRequest_iff.mp h).2.1) harp
  · intro hnip
    have hecho : ¬ EchoRequest host m := fun h => hnip (echoRequest_iff.mp h).1
    have hchargen : ¬ ChargenRequest host m := fun h => hnip (chargenRequest_iff.mp h).1
    refine Does.ite ?_ ?_
    · intro htype
      refine Does.branch (.both ((Does.load16 _).bind (.pure _))
        (.both ((Does.load16 _).bind (.pure _))
          (.both ((Does.load8 _).bind (.pure _)) ((Does.load8 _).bind (.pure _)))))
        (by rw [Bool.and_eq_true, Bool.and_eq_true, Bool.and_eq_true, beq_iff_eq, beq_iff_eq,
          beq_iff_eq, beq_iff_eq]) ?_ ?_
      · intro hsizes
        refine arpRequest_does ?_ ?_
        · intro hreq
          exact answer_of_arp (arpRequest_iff.mpr ⟨htype, hsizes, hreq⟩) g n
        · intro hreq
          exact answer_of_none hecho hchargen (fun h => hreq (arpRequest_iff.mp h).2.2) g n
      · intro hsizes
        exact hnone hecho hchargen fun h => hsizes (arpRequest_iff.mp h).2.1
    · intro htype
      exact hnone hecho hchargen fun h => htype (arpRequest_iff.mp h).1

end blocks

/-! ## Calls -/

theorem receive_eq (host : Host) (len : Int32) (f : Bytes) (g : Generators) :
    ∃ touched, receive host len f g =
      some ((answer host ⟨f, g, 0⟩).1, ⟨(answer host ⟨f, g, 0⟩).2, touched⟩) :=
  packetRxInterrupt_does host len f g 0 []

theorem receive_answer {len : Int32} {f : Bytes} {g : Generators} {n : ℤ} {r : Machine Generators}
    (hrun : receive host len f g = some (n, r)) : answer host ⟨f, g, 0⟩ = (n, r.store) := by
  obtain ⟨hn, hstore⟩ := (packetRxInterrupt_does host len f g 0).result hrun
  rw [hn, hstore]

/-- `PacketRxInterrupt` as the driver calls it. -/
def packetHandler (host : Host) : Handler Generators where
  run g f len :=
    match receive host (Int32.ofInt len) f g with
    | some (n, r) => (n, r.store.bytes, r.store.env)
    | none => (packetProcessed, f, g)
  answers g f len := by
    obtain ⟨touched, hrun⟩ := receive_eq host (Int32.ofInt len) f g
    rw [hrun]
    exact answer_processed_or_nonneg host _ _ _

theorem packetHandler_run (host : Host) (g : Generators) (f : Bytes) (len : ℤ) :
    (packetHandler host).run g f len = ((answer host ⟨f, g, 0⟩).1,
      (answer host ⟨f, g, 0⟩).2.bytes, (answer host ⟨f, g, 0⟩).2.env) := by
  obtain ⟨touched, hrun⟩ := receive_eq host (Int32.ofInt len) f g
  simp only [packetHandler, hrun]

/-! ## Some frames -/

def prdk : Host where
  kMACAddress := [0x02, 0, 0, 0, 0, 0x01]
  kIPv4Net := mkIPv4Net 192 168 141 123
  mac_length := rfl

def resting : Generators where
  kPrngKey := fun _ => 0
  kInject := 0
  kInCount := 0
  pcg32 := ⟨0, 1⟩
  trng := fun _ => 0
  sysTick := fun _ => ⟨0, 0, 0⟩

/-- An IPv4 frame for `prdk` in a buffer that held `rest` before. -/
def ipv4Frame (lenHi lenLo ttl p : UInt8) (data : List UInt8) (rest : UInt8) : Bytes :=
  overlay ([0x02, 0, 0, 0, 0, 0x01, 0x02, 0, 0, 0, 0, 0x02, 0x08, 0x00,
    0x45, 0, lenHi, lenLo, 0, 0, 0, 0, ttl, p, 0, 0, 192, 168, 141, 1, 192, 168, 141, 123] ++ data)
    fun _ => rest

def echoFrame (lenHi lenLo rest : UInt8) : Bytes :=
  ipv4Frame lenHi lenLo 64 1 [8, 0, 0, 0, 0, 0, 0, 0] rest

def chargenFrame (selector rest : UInt8) : Bytes :=
  ipv4Frame 0 29 255 17 [0x30, 0x39, 0, 19, 0, 9, 0, 0, selector] rest

end Wchratum1.Packet
