import Wchratum1.Ethernet.LastDescriptor

/-! # Frames go through in order

The pipeline is in order in every run (`Pipeline.InOrder`), and the driver's history is the pipeline's.
So the calls of `PacketRxInterrupt` are an initial part of the error-free arrivals, and what TxDMA has
sent is an initial part of the replies. The size field does not cut a reply that fits a `Frame`
(`sized_eq`).
-/

namespace Wchratum1.Ethernet
set_option autoImplicit false

variable {σ : Type} {B : Board} {h : Handler σ} {s : System σ}

theorem tbs1_toNat (B : Board) {len : ℤ} (hlen : 0 ≤ len) :
    (UInt32.ofInt len &&& B.ethDMATxDescTBS1).toNat = len.toNat % 2 ^ 13 := by
  have h32 : (UInt32.ofInt len).toNat = (len % 2 ^ 32).toNat := by
    rw [UInt32.ofInt, UInt32.toNat_ofNat']
    omega
  rw [B.tbs1_eq, UInt32.toNat_and, h32, show (0x1FFF : UInt32).toNat = 2 ^ 13 - 1 from rfl,
    Nat.and_two_pow_sub_one_eq_mod]
  omega

theorem sized_eq (B : Board) {len : ℤ} (hlen : 0 ≤ len) (hmax : len ≤ etherMaxLen)
    (frame : Bytes) : B.sized len frame = Bytes.firstBytes len.toNat frame := by
  have : len.toNat < 2 ^ 13 := by
    simp only [etherMaxLen] at hmax
    omega
  rw [Board.sized, tbs1_toNat B hlen, Nat.mod_eq_of_lt this]

/-- The reply of a call: the bytes that the handler left, as many as it returned. -/
def Call.answer (c : Call) : Option (List UInt8) :=
  if 0 ≤ c.next then some (Bytes.firstBytes c.next.toNat c.rewritten) else none

theorem reply_eq_answer (B : Board) {c : Call} (hmax : c.next ≤ etherMaxLen) :
    c.reply B = c.answer := by
  unfold Call.reply Call.answer
  split
  · rename_i hpos
    rw [sized_eq B hpos hmax]
  · rfl

/-! ## The recorded calls are calls -/

def Handler.Made (h : Handler σ) (c : Call) : Prop :=
  ∃ host host', h.run host c.frame c.len = (c.next, c.rewritten, host')

@[simp] theorem enqueueTxFromInterrupt_calls (B : Board) (pkt : UInt32) (len : ℤ) (d : Driver σ) :
    (enqueueTxFromInterrupt B pkt len d).history.calls = d.history.calls := by
  obtain ⟨-, hdone⟩ | ⟨-, _, _, _, hqueued⟩ := enqueueTxFromInterrupt_cases B pkt len d
  · rw [hdone, packetDoneFromInterrupt_calls]
  · rw [hqueued]

theorem callPacketRxInterrupt_made (dma : EthDMADesc) (d : Driver σ)
    (hd : ∀ c ∈ d.history.calls, h.Made c) :
    ∀ c ∈ (callPacketRxInterrupt B h dma d).2.history.calls, h.Made c := by
  unfold callPacketRxInterrupt
  split
  · intro c hc
    rcases List.mem_append.mp hc with hold | hnew
    · exact hd c hold
    · obtain rfl := List.mem_singleton.mp hnew
      exact ⟨_, _, rfl⟩
  · exact hd

theorem ethernetRXInterruptTurn_made {d d' : Driver σ} (hd : ∀ c ∈ d.history.calls, h.Made c)
    (hturn : ethernetRXInterruptTurn B h d = some d') : ∀ c ∈ d'.history.calls, h.Made c := by
  have hmade := callPacketRxInterrupt_made (B := B) (d.kReceiveRing d.kReceiveRd) (takeReceiveRd d) hd
  obtain ⟨-, -, next, e, hcall, -, ⟨-, rfl⟩ | ⟨-, rfl⟩⟩ := ethernetRXInterruptTurn_cases hturn
  · rw [hcall] at hmade
    rw [enqueueTxFromInterrupt_calls]
    exact hmade
  · rw [hcall] at hmade
    rw [packetDoneFromInterrupt_calls]
    exact hmade

theorem ethernetTXInterruptTurn_calls {d d' : Driver σ}
    (hturn : ethernetTXInterruptTurn B d = some d') : d'.history.calls = d.history.calls := by
  obtain ⟨-, rfl⟩ := ethernetTXInterruptTurn_some hturn
  exact packetDoneFromInterrupt_calls _ d

theorem reachable_made {allow : Driver σ → Prop} (hs : Reachable B h allow s) :
    ∀ c ∈ s.driver.history.calls, h.Made c := by
  refine hs.invariant (P := fun s => ∀ c ∈ s.driver.history.calls, h.Made c) ?_ ?_
  · intro pool host suspended c hc
    exact absurd hc List.not_mem_nil
  · rintro s s' hmade ⟨a, -, hstep⟩
    cases a with
    | rxDmaCompletes status data =>
      obtain ⟨-, rfl⟩ := step_rxDmaCompletes hstep
      exact hmade
    | txDmaCompletes status =>
      obtain ⟨-, rfl⟩ := step_txDmaCompletes hstep
      exact hmade
    | txDmaSuspends =>
      obtain rfl := step_txDmaSuspends hstep
      exact hmade
    | callRX =>
      obtain rfl := step_callRX hstep
      exact hmade
    | callTX =>
      obtain rfl := step_callTX hstep
      exact hmade
    | turn =>
      obtain ⟨-, ⟨-, rfl⟩ | ⟨d, hturn, rfl⟩⟩ | ⟨-, ⟨-, rfl⟩ | ⟨d, hturn, rfl⟩⟩ := step_turn hstep
      · exact hmade
      · exact ethernetRXInterruptTurn_made hmade hturn
      · exact hmade
      · exact ethernetTXInterruptTurn_calls hturn ▸ hmade

/-- **End to end.** Every recorded call is a call of the handler; the calls are, in order and each
once, an initial part of the error-free single-descriptor frames that RxDMA completed, with the
contents it left; and the frames that TxDMA completed are, in order and each once, an initial part of
the replies, each with exactly the bytes that the handler left. -/
theorem traffic_in_order (B : Board) (h : Handler σ)
    (hlen : ∀ host frame len, (h.run host frame len).1 ≤ etherMaxLen) {s : System σ}
    (hs : Reachable B h (leavesOne B) s) :
    (∀ c ∈ s.driver.history.calls, h.Made c) ∧
      s.driver.history.calls.map Call.request <+:
        (s.driver.history.arrived.filter fun a => B.errorFree a.status).map B.request ∧
      s.driver.history.sent <+: s.driver.history.calls.filterMap Call.answer := by
  obtain ⟨p, w, v, hr⟩ := reachable_refines (hs.mono leavesOne_safe)
  have hmade := reachable_made hs
  refine ⟨hmade, ?_, ?_⟩
  · rw [hr.calls, hr.arrived, hr.order.arrived, List.filter_append, List.map_append]
    exact List.prefix_append _ _
  · have hanswer : s.driver.history.calls.filterMap Call.answer = p.replies := by
      rw [← hr.replies]
      refine List.filterMap_congr fun c hc => (reply_eq_answer B ?_).symm
      obtain ⟨host, host', hrun⟩ := hmade c hc
      have := hlen host c.frame c.len
      rwa [hrun] at this
    rw [hanswer, hr.sent, hr.order.replies]
    exact List.prefix_append _ _

theorem traffic_in_order_mixed_traffic :
    ∃ s, runs ch32v307 scripted (leavesOne ch32v307) mixedTraffic mixedStart = some s ∧
      (∀ c ∈ s.driver.history.calls, scripted.Made c) ∧
      s.driver.history.calls.map Call.request <+:
        (s.driver.history.arrived.filter fun a => ch32v307.errorFree a.status).map
          ch32v307.request ∧
      s.driver.history.sent <+: s.driver.history.calls.filterMap Call.answer := by
  obtain ⟨s, hs⟩ := mixedTraffic_runs
  refine ⟨s, hs, traffic_in_order _ scripted ?_ (runs_reachable (start_reachable ..) hs)⟩
  rintro (_ | ⟨_ | _, rest⟩) frame len <;> simp [scripted, packetProcessed, etherMaxLen]

end Wchratum1.Ethernet
