import Wchratum1.Packet.Execution

/-! # Accesses to the frame

The bodies of `PacketRxInterrupt` stay inside `Frame` whatever is in it. The dump goes as far as its
length says, and that is the frame length without the CRC only when the subtraction in
`getRxFrameLength` does not wrap: descriptors of undersized frames are forwarded too. -/

namespace Wchratum1.Packet
open Bytes PointerCode Prng Ethernet
set_option autoImplicit false

variable {B : Board} {host : Host} {status : UInt32} {f : Bytes} {g : Generators} {len : Int32}

/-! ## The bodies -/

theorem icmpEcho_within (host : Host) : Within etherMaxLen (icmpEcho host) := by
  refine .branch (.both (.bind_pure (.load8 (by decide)) _)
    (.bind_pure (.load8 (by decide)) _)) ?_ (.pure _)
  refine .bind (.store8 (by decide)) fun _ => .bind (.store8 (by decide)) fun _ => ?_
  refine .bind (.load32 (by decide)) fun _ => .bind (.store32 (by decide)) fun _ => ?_
  refine .bind (.store32 (by decide)) fun _ => .bind (.memcpy (by decide) (by decide)) fun _ => ?_
  refine .bind (.write (by rw [host.mac_length]; decide)) fun _ => ?_
  exact .bind_pure (.load16 (by decide)) _

theorem payloadLoop_within {body : ℕ → Run Generators Unit} {stride k : ℕ}
    (hfills : k * stride = etherMtuUdp)
    (hbody : ∀ q, q + stride ≤ etherMaxLen → Within etherMaxLen (body q)) :
    Within etherMaxLen (payloadLoop body stride) := by
  have hend : udpPayload + k * stride ≤ etherMaxLen := by
    rw [hfills]
    decide
  rw [payloadLoop, ← hfills]
  exact .forPointer hend hbody _

theorem chargenFill_within (payload : UInt8) : Within etherMaxLen (chargenFill payload) := by
  refine .ite ?_ (.ite ?_ (.ite ?_ (.ite ?_ (.pure _))))
  · exact payloadLoop_within (k := 368) (by decide) fun q hq =>
      .bind (.call _) fun _ => .store32 hq
  · exact payloadLoop_within (k := 368) (by decide) fun q hq =>
      .bind (.call _) fun _ => .store32 hq
  · exact payloadLoop_within (k := 736) (by decide) fun q hq =>
      .bind (.call _) fun _ => .store16 hq
  · refine payloadLoop_within (k := 92) (by decide) fun q hq => .bind (.call _) ?_
    rintro ⟨r, d0, d1⟩
    refine .bind (.store32 (by omega)) fun _ => .bind (.store32 (by omega)) fun _ => ?_
    exact .bind (.store32 (by omega)) fun _ => .store32 (by omega)

theorem udpChargen_within (host : Host) : Within etherMaxLen (udpChargen host) := by
  refine .branch (.both (.bind_pure (.load16 (by decide)) _)
    (.both (.bind_pure (.load8 (by decide)) _)
      (.bind_pure (.load16 (by decide)) _))) ?_ (.pure _)
  refine .bind (.load8 (by decide)) fun payload => ?_
  refine .bind (.memcpy (by decide) (by decide)) fun _ => ?_
  refine .bind (.write (by rw [host.mac_length]; decide)) fun _ => ?_
  refine .bind (.store8 (by decide)) fun _ => .bind (.store16 (by decide)) fun _ => ?_
  refine .bind (.load32 (by decide)) fun _ => .bind (.store32 (by decide)) fun _ => ?_
  refine .bind (.store32 (by decide)) fun _ => .bind (.load16 (by decide)) fun _ => ?_
  refine .bind (.store16 (by decide)) fun _ => .bind (.store16 (by decide)) fun _ => ?_
  refine .bind (.store16 (by decide)) fun _ => ?_
  exact .bind (chargenFill_within payload) fun _ => .pure _

theorem arpRequest_within (host : Host) : Within etherMaxLen (arpRequest host) := by
  refine .branch (.both (.bind_pure (.load16 (by decide)) _)
    (.memcmp (by rw [le32_length]; decide))) ?_ (.pure _)
  refine .bind (.memcpy (by decide) (by decide)) fun _ => ?_
  refine .bind (.write (by rw [host.mac_length]; decide)) fun _ => ?_
  refine .bind (.store16 (by decide)) fun _ => ?_
  refine .bind (.memcpy (by decide) (by decide)) fun _ => ?_
  refine .bind (.write (by rw [host.mac_length]; decide)) fun _ => ?_
  exact .bind (.write (by rw [le32_length]; decide)) fun _ => .pure _

/-! ## The dump and the rest -/

theorem forM_load8 (l : List ℕ) (s : Store Generators) (log : List ℕ) :
    (l.forM fun i => do let _ ← load8 i : Run Generators Unit) ⟨s, log⟩ = some ((), ⟨s, log ++ l⟩) := by
  induction l generalizing log with
  | nil => rw [List.append_nil]; rfl
  | cons i l ih =>
    have hrest := ih (log ++ [i])
    rw [List.append_assoc, List.singleton_append] at hrest
    exact hrest

theorem dump_eq (len : Int32) (s : Store Generators) (log : List ℕ) :
    dump len ⟨s, log⟩ = some ((), ⟨s, log ++ List.range len.toUInt32.toNat⟩) := forM_load8 _ s log

/-- What comes after the dump is a call with no dump. -/
theorem packetRxInterrupt_eq (host : Host) (len : Int32) :
    packetRxInterrupt host len = dump len >>= fun _ => packetRxInterrupt host 0 := rfl

theorem packetRxInterrupt_within (host : Host) : Within etherMaxLen (packetRxInterrupt host 0) := by
  refine .bind (.pure ()) fun _ => .bind (.load16 (by decide)) fun _ => .ite ?_ (.ite ?_ (.pure _))
  · refine .branch (.both (.bind_pure (.load8 (by decide)) _)
      (.both (.bind_pure (.load8 (by decide)) _)
        (.bind_pure (.load32 (by decide)) _))) ?_ (.pure _)
    exact .bind (.load8 (by decide)) fun _ =>
      .ite (icmpEcho_within host) (.ite (udpChargen_within host) (.pure _))
  · exact .branch (.both (.bind_pure (.load16 (by decide)) _)
      (.both (.bind_pure (.load16 (by decide)) _)
        (.both (.bind_pure (.load8 (by decide)) _)
          (.bind_pure (.load8 (by decide)) _)))) (arpRequest_within host) (.pure _)

/-- A call touches what its dump reads, and then only offsets inside the frame. -/
theorem receive_touched (host : Host) (len : Int32) (f : Bytes) (g : Generators) :
    ∃ n r new, receive host len f g = some (n, r) ∧
      r.touched = List.range len.toUInt32.toNat ++ new ∧ ∀ i ∈ new, i < etherMaxLen := by
  obtain ⟨touched, hrun⟩ := receive_eq host len f g
  have hafter : packetRxInterrupt host 0 ⟨⟨f, g, 0⟩, [] ++ List.range len.toUInt32.toNat⟩ =
      receive host len f g := by
    rw [receive, packetRxInterrupt_eq host len]
    change _ = (dump len ⟨⟨f, g, 0⟩, []⟩).bind fun p => packetRxInterrupt host 0 p.2
    rw [dump_eq]
    rfl
  obtain ⟨new, htouched, hnew⟩ := packetRxInterrupt_within host _ _ _ _ _ (hafter.trans hrun)
  exact ⟨_, _, new, hrun, htouched, hnew⟩

/-! ## The length from the descriptor -/

/-- The field FL, which counts the CRC. -/
def frameLength (B : Board) (status : UInt32) : UInt32 := (status &&& B.ethDMARxDescFL) >>> 16

/-- `len` in `PacketRxInterrupt`, for a descriptor with this status. -/
def lenOf (B : Board) (status : UInt32) : Int32 := Int32.ofInt (B.lenArg status)

/-- What the driver calls. -/
theorem call_eq_receive (host : Host) (d : Driver Generators) {dma : EthDMADesc}
    (hok : B.errorFree dma.status = true) : ∃ n r,
      receive host (lenOf B dma.status) (d.kPacketPool dma.buffer1Addr) d.host = some (n, r) ∧
        (callPacketRxInterrupt B (packetHandler host) dma d).1 = n := by
  obtain ⟨touched, hrun⟩ := receive_eq host (lenOf B dma.status) (d.kPacketPool dma.buffer1Addr) d.host
  refine ⟨_, _, hrun, ?_⟩
  rw [callPacketRxInterrupt, if_pos hok]
  exact congrArg Prod.fst (packetHandler_run host _ _ _)

/-- Through `unsigned`, `int` and back to unsigned, the length is the same word. -/
theorem lenOf_toUInt32 (B : Board) (status : UInt32) :
    (lenOf B status).toUInt32 = frameLength B status - 4 := by
  rw [lenOf, Board.lenArg, Int32.ofInt_toInt]
  rfl

theorem lenOf_toNat (B : Board) (status : UInt32) :
    (lenOf B status).toUInt32.toNat =
      if 4 ≤ (frameLength B status).toNat then (frameLength B status).toNat - 4
      else 2 ^ 32 - 4 + (frameLength B status).toNat := by
  have hlt := (frameLength B status).toNat_lt
  rw [lenOf_toUInt32, UInt32.toNat_sub, show (4 : UInt32).toNat = 4 from rfl]
  split <;> omega

/-! ## In bounds -/

/-- The call for a descriptor with this status stays inside the frame, and its dump reads the bytes
of the frame without the CRC, each once. -/
structure InFrame (B : Board) (host : Host) (status : UInt32) (f : Bytes) (g : Generators) : Prop where
  inside : ∃ n r, receive host (lenOf B status) f g = some (n, r) ∧ ∀ i ∈ r.touched, i < etherMaxLen
  dumped : ∃ k : ℕ, (k : ℤ) = (frameLength B status).toNat - 4 ∧
    dump (lenOf B status) ⟨⟨f, g, 0⟩, []⟩ = some ((), ⟨⟨f, g, 0⟩, List.range k⟩)

/-- An underflowed length dumps bytes past the end of the frame. -/
theorem dumps_past_end (hshort : (frameLength B status).toNat < 4) (host : Host) (f : Bytes)
    (g : Generators) :
    ∃ n r, receive host (lenOf B status) f g = some (n, r) ∧ etherMaxLen ∈ r.touched := by
  obtain ⟨n, r, new, hrun, htouched, -⟩ := receive_touched host (lenOf B status) f g
  refine ⟨n, r, hrun, ?_⟩
  have hlen := lenOf_toNat B status
  rw [if_neg (by omega)] at hlen
  rw [htouched, hlen]
  exact List.mem_append_left _ (List.mem_range.mpr (by rw [etherMaxLen]; omega))

theorem not_inFrame_of_short (hshort : (frameLength B status).toNat < 4) (host : Host) (f : Bytes)
    (g : Generators) : ¬ InFrame B host status f g := by
  intro hin
  obtain ⟨n, r, hrun, hinside⟩ := hin.inside
  obtain ⟨n', r', hrun', hpast⟩ := dumps_past_end hshort host f g
  rw [hrun] at hrun'
  obtain ⟨-, rfl⟩ := Prod.mk.inj (Option.some.inj hrun')
  exact Nat.lt_irrefl _ (hinside _ hpast)

/-- **Bounds.** For every status with FL at most 1518 and every frame, the call stays in bounds and
dumps what was received if and only if FL is at least 4. -/
theorem inFrame_iff (B : Board) (host : Host) (status : UInt32) (f : Bytes) (g : Generators)
    (hmax : (frameLength B status).toNat ≤ 1518) :
    InFrame B host status f g ↔ 4 ≤ (frameLength B status).toNat := by
  constructor
  · intro hin
    by_contra hshort
    exact not_inFrame_of_short (Nat.lt_of_not_le hshort) host f g hin
  · intro hlong
    have hlen := lenOf_toNat B status
    rw [if_pos hlong] at hlen
    refine ⟨?_, (frameLength B status).toNat - 4, by omega, ?_⟩
    · obtain ⟨n, r, new, hrun, htouched, hnew⟩ := receive_touched host (lenOf B status) f g
      refine ⟨n, r, hrun, fun i hi => ?_⟩
      rw [htouched] at hi
      rcases List.mem_append.mp hi with hi | hi
      · have := List.mem_range.mp hi
        rw [etherMaxLen]
        omega
      · exact hnew i hi
    · rw [dump_eq, hlen, List.nil_append]

theorem inFrame_of_minimal_frame :
    InFrame ch32v307 prdk 0x00400300 (echoFrame 0 28 0xEE) resting :=
  (inFrame_iff ch32v307 prdk 0x00400300 _ resting (by decide)).mpr (by decide)

/-- A descriptor with FL 3, FS and LS: `len` is 0xFFFFFFFF and the dump leaves the frame. -/
theorem undersized_frame_dumps_past_end :
    ch32v307.errorFree 0x00030300 = true ∧ (frameLength ch32v307 0x00030300).toNat ≤ 1518 ∧
      (∃ n r, receive prdk (lenOf ch32v307 0x00030300) (echoFrame 0 28 0xEE) resting = some (n, r) ∧
        etherMaxLen ∈ r.touched) ∧
      ¬ InFrame ch32v307 prdk 0x00030300 (echoFrame 0 28 0xEE) resting :=
  ⟨by decide, by decide, dumps_past_end (by decide) _ _ _, not_inFrame_of_short (by decide) _ _ _⟩

end Wchratum1.Packet
