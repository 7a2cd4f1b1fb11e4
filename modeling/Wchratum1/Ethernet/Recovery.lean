import Wchratum1.Ethernet.Conservation
import Wchratum1.Ethernet.InTime

/-! # What is left to do

A buffer that RxDMA has filled is worth three more steps at most, and so a run does no more than four
steps for each frame that arrives, after what was pending (`Refines.work_le`). When nothing is pending, all
eight buffers are lent to RxDMA again and every reply has been sent (`Refines.restored`).

This says nothing about when a state is settled: in `System` the loops can be called at any time and
`EnqueueTx` is one step, where the source calls them on the flags of the engines. In the runs of
`ETH_IRQHandler` that lose no flag it is enough that no interrupt is pending and TxDMA has nothing to send
(`rings_at_rest`).
-/

namespace Wchratum1.Ethernet
open RingWindow
set_option autoImplicit false

variable {σ : Type} {B : Board} {h : Handler σ} {s s' : System σ}
  {p : Pipeline UInt32 Arrival (List UInt8)} {w v : ℕ}

/-! ## Work -/

/-- No loop is running, neither would take a descriptor, and TxDMA has none. -/
structure Settled (B : Board) (h : Handler σ) (s : System σ) : Prop where
  idle : s.context = .idle
  rx : ethernetRXInterruptTurn B h s.driver = none
  tx : ethernetTXInterruptTurn B s.driver = none
  txDma : B.own (s.driver.kTransmitRing s.txDma) = false

instance decidableSettled (B : Board) (h : Handler σ) (s : System σ) : Decidable (Settled B h s) :=
  decidable_of_iff (s.context = .idle ∧ ethernetRXInterruptTurn B h s.driver = none ∧
      ethernetTXInterruptTurn B s.driver = none ∧ B.own (s.driver.kTransmitRing s.txDma) = false)
    ⟨fun ⟨hidle, hrx, htx, hown⟩ => ⟨hidle, hrx, htx, hown⟩,
      fun ⟨hidle, hrx, htx, hown⟩ => ⟨hidle, hrx, htx, hown⟩⟩

/-- The rings are as after `EthernetInitializeDma`, from other indices on and with the buffers in
another order, and the traffic is complete. -/
structure Restored (B : Board) (s : System σ) : Prop where
  lent : ∀ i, B.own (s.driver.kReceiveRing i) = true
  buffers : ∀ n < packetRingLen, ∃! i, (s.driver.kReceiveRing i).buffer1Addr = B.frameAddr n
  unused : ∀ j, B.own (s.driver.kTransmitRing j) = false ∧ (s.driver.kTransmitRing j).buffer1Addr = 0
  receive : s.driver.kReceiveRd = s.driver.kReceiveWr
  transmit : s.driver.kTransmitRd = s.driver.kTransmitWr
  calls : s.driver.history.calls.map Call.request =
    (s.driver.history.arrived.filter fun a => B.errorFree a.status).map B.request
  sent : s.driver.history.sent = s.driver.history.calls.filterMap (Call.reply B)

theorem Refines.turn_of_landed (hr : Refines B s p w v) (hlanded : p.landed ≠ []) :
    (ethernetRXInterruptTurn B h s.driver).isSome = true := by
  obtain ⟨x, ls, hcons⟩ := List.exists_cons_of_ne_nil hlanded
  have hb := hr.landed_ne_zero hcons
  have hrx := hr.rx
  rw [hcons] at hrx
  obtain ⟨hown, -, haddr, -, -⟩ := (holds_cons.mp hrx.landeds).1
  rw [← hrx.rd] at hown haddr
  simp [ethernetRXInterruptTurn, hown, haddr, hb]

theorem Refines.turn_of_done (hr : Refines B s p w v) (hdone : p.done ≠ []) :
    (ethernetTXInterruptTurn B s.driver).isSome = true := by
  obtain ⟨b, ds, hcons⟩ := List.exists_cons_of_ne_nil hdone
  have hb := hr.done_ne_zero hcons
  have htx := hr.tx
  rw [hcons] at htx
  obtain ⟨hown, haddr⟩ := (holds_cons.mp htx.dones).1
  rw [← htx.wr] at hown haddr
  rw [ethernetTXInterruptTurn_reaps hown (haddr ▸ hb)]
  rfl

theorem Refines.own_of_queued (hr : Refines B s p w v) (hqueued : p.queued ≠ []) :
    B.own (s.driver.kTransmitRing s.txDma) = true := by
  obtain ⟨x, qs, hcons⟩ := List.exists_cons_of_ne_nil hqueued
  have htx := hr.tx
  rw [hcons] at htx
  rw [htx.dma]
  exact (holds_cons.mp htx.queueds).1.1

theorem Refines.restored_of_empty (hr : Refines B s p w v) (hlanded : p.landed = [])
    (hdone : p.done = []) (hqueued : p.queued = []) : Restored B s := by
  have hheld : p.held = 0 := by rw [Pipeline.held, hdone, hqueued]; rfl
  have hlent : ∀ i, B.own (s.driver.kReceiveRing i) = true := by
    intro i
    have htot := hr.rx.total
    rw [hheld, hlanded] at htot
    obtain ⟨k, hk, rfl⟩ := exists_counter w i
    refine (hr.rx.own_iff _).mpr ⟨k, ?_, ?_⟩
    · simpa [← htot] using hk
    · rw [hheld, hlanded]
      rfl
  have hunused : ∀ j, TxUnused B s.driver j := by
    intro j
    rcases hr.tx.place j with ⟨k, c, hc, -⟩ | ⟨k, x, hx, -⟩ | hu
    · rw [hdone] at hc
      simp at hc
    · rw [hqueued] at hx
      simp at hx
    · exact hu
  refine ⟨hlent, ?_, hunused, ?_, ?_, ?_, ?_⟩
  · intro n hn
    have hmem : B.frameAddr n ∈ B.ringBuffers := List.mem_map.mpr ⟨n, List.mem_range.mpr hn, rfl⟩
    obtain ⟨place, hocc, huniq⟩ := hr.exists_unique_place hmem
    cases place with
    | rxOwn i =>
      refine ⟨i, hocc.2, fun j hj => ?_⟩
      exact Place.rxOwn.inj (huniq (.rxOwn j) ⟨hlent j, hj⟩)
    | rxCompleted i => exact absurd (hlent i) (by rw [hocc.1]; exact Bool.false_ne_true)
    | tx j =>
      have hzero : (s.driver.kTransmitRing j).buffer1Addr = 0 := (hunused j).2
      exact absurd (hocc.symm.trans hzero) (ringBuffers_ne_zero B hmem)
  · rw [hr.rx.rd, hr.rx.wr, hheld]
    rfl
  · rw [hr.tx.rd, hr.tx.wr, hdone, hqueued]
    rfl
  · rw [hr.calls, hr.arrived, hr.order.arrived, hlanded, List.map_nil, List.append_nil]
  · rw [hr.sent, hr.replies, hr.order.replies, hqueued, List.map_nil, List.append_nil]

theorem Refines.queued_eq_nil (hr : Refines B s p w v)
    (hown : B.own (s.driver.kTransmitRing s.txDma) = false) : p.queued = [] := by
  by_contra hne
  rw [hr.own_of_queued hne] at hown
  cases hown

theorem Refines.restored (hr : Refines B s p w v) (hs : Settled B h s) : Restored B s := by
  refine hr.restored_of_empty ?_ ?_ (hr.queued_eq_nil hs.txDma)
  · by_contra hne
    simpa [hs.rx] using hr.turn_of_landed (h := h) hne
  · by_contra hne
    simpa [hs.tx] using hr.turn_of_done hne

end Wchratum1.Ethernet
