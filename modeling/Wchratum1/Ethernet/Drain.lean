import Wchratum1.Ethernet.Simulation
import Wchratum1.Foundations.RingWalk

/-! # The drain loops return

Neither loop has a counter. A descriptor that is OWNed by DMA, or blank, halts the loop, and no turn
takes that away: a turn of `EthernetRXInterrupt` blanks the descriptor that it reads or lends the one at
`kReceiveWr` to RxDMA, and a turn of `EthernetTXInterrupt` blanks the one that it reads. So each loop is
a walk of its ring, from any contents. -/

namespace Wchratum1.Ethernet
open RingWalk
set_option autoImplicit false

variable {σ : Type} {B : Board} {h : Handler σ} {d d' : Driver σ}

/-! ## Receiving -/

def RxHalts (B : Board) (d : Driver σ) (j : Fin packetRingLen) : Prop :=
  B.own (d.kReceiveRing j) = true ∨ (d.kReceiveRing j).buffer1Addr = 0

/-- `d'` comes from `d` by a step that does not move `kReceiveRd` and undoes no halt. -/
structure KeepsRx (B : Board) (d d' : Driver σ) : Prop where
  rd : d'.kReceiveRd = d.kReceiveRd
  inPool : d'.kInPool = d.kInPool
  halts : ∀ j, RxHalts B d j → RxHalts B d' j

theorem KeepsRx.trans {d'' : Driver σ} (h₁ : KeepsRx B d d') (h₂ : KeepsRx B d' d'') :
    KeepsRx B d d'' where
  rd := h₂.rd.trans h₁.rd
  inPool := h₂.inPool.trans h₁.inPool
  halts := fun j hj => h₂.halts j (h₁.halts j hj)

/-- A descriptor that a step rewrites halts after it; the others are as they were. -/
theorem halts_update {e : Driver σ} {i : Fin packetRingLen} {dma : EthDMADesc}
    (hring : e.kReceiveRing = Function.update d.kReceiveRing i dma)
    (hdma : B.own dma = true ∨ dma.buffer1Addr = 0) :
    RxHalts B e i ∧ ∀ j, RxHalts B d j → RxHalts B e j := by
  have hi : RxHalts B e i := by
    rw [RxHalts, hring, Function.update_self]
    exact hdma
  refine ⟨hi, fun j hj => ?_⟩
  by_cases hij : j = i
  · rw [hij]
    exact hi
  · rw [RxHalts, hring, Function.update_of_ne hij]
    exact hj

theorem own_lent {dma : EthDMADesc} (hstatus : dma.status = B.ethDMARxDescOWN) :
    B.own dma = true := by
  rw [Board.own, hstatus, UInt32.and_self, bne_iff_ne]
  exact B.own_ne_zero

theorem packetDone_keepsRx (hpool : 0 ≤ d.kInPool) (pkt : UInt32) :
    KeepsRx B d (packetDoneFromInterrupt B pkt d) ∧
      RxHalts B (packetDoneFromInterrupt B pkt d) d.kReceiveWr := by
  obtain ⟨hneg, -⟩ | ⟨hown, hdone⟩ | ⟨-, hdone⟩ := packetDoneFromInterrupt_cases B pkt d
  · exact absurd hneg (Int8.not_lt.mpr hpool)
  · rw [hdone]
    exact ⟨⟨rfl, rfl, fun _ hj => hj⟩, Or.inl hown⟩
  · rw [hdone]
    exact ⟨⟨rfl, rfl, (halts_update rfl (Or.inl (own_lent rfl))).2⟩,
      (halts_update (d := d) rfl (Or.inl (own_lent rfl))).1⟩

theorem enqueueTx_keepsRx (hpool : 0 ≤ d.kInPool) (pkt : UInt32) (len : ℤ) :
    KeepsRx B d (enqueueTxFromInterrupt B pkt len d) := by
  obtain ⟨-, hdone⟩ | ⟨-, _, _, _, hqueued⟩ := enqueueTxFromInterrupt_cases B pkt len d
  · rw [hdone]
    exact (packetDone_keepsRx hpool pkt).1
  · rw [hqueued]
    exact ⟨rfl, rfl, fun _ hj => hj⟩

theorem clearRxBuffer_keepsRx (B : Board) (i : Fin packetRingLen) (d : Driver σ) :
    KeepsRx B d (clearRxBuffer i d) ∧ RxHalts B (clearRxBuffer i d) i := by
  obtain ⟨hi, hall⟩ := halts_update (B := B) (d := d) (e := clearRxBuffer i d) rfl (Or.inr rfl)
  exact ⟨⟨rfl, rfl, hall⟩, hi⟩

/-- The turn takes the descriptor at `kReceiveRd`, blanks it or puts its packet back, and leaves a
descriptor that halts. -/
theorem ethernetRXInterruptTurn_keepsRx (hpool : 0 ≤ d.kInPool)
    (hturn : ethernetRXInterruptTurn B h d = some d') :
    d'.kReceiveRd = packetRingInc d.kReceiveRd ∧ d'.kInPool = d.kInPool ∧
      (∀ j, RxHalts B d j → RxHalts B d' j) ∧ ∃ j, RxHalts B d' j := by
  obtain ⟨-, -, next, e, -, he, hd'⟩ := ethernetRXInterruptTurn_cases hturn
  have hstart : ∀ j, RxHalts B d j → RxHalts B e j := by
    intro j hj
    rwa [RxHalts, he.ring]
  have hall : KeepsRx B e d' ∧ ∃ j, RxHalts B d' j := by
    rcases hd' with ⟨-, rfl⟩ | ⟨-, rfl⟩
    · obtain ⟨hclear, hi⟩ := clearRxBuffer_keepsRx B d.kReceiveRd e
      have henqueue := enqueueTx_keepsRx (B := B) (d := clearRxBuffer d.kReceiveRd e)
        (by rw [hclear.inPool, he.inPool]; exact hpool)
        (getPacketFromRing (d.kReceiveRing d.kReceiveRd)) next
      exact ⟨hclear.trans henqueue, _, henqueue.halts _ hi⟩
    · obtain ⟨hdone, hwr⟩ := packetDone_keepsRx (B := B) (d := e) (by rw [he.inPool]; exact hpool)
        (getPacketFromRing (d.kReceiveRing d.kReceiveRd))
      exact ⟨hdone, _, hwr⟩
  exact ⟨hall.1.rd.trans he.rd, hall.1.inPool.trans he.inPool, fun j hj => hall.1.halts j (hstart j hj), hall.2⟩

theorem rx_walk (B : Board) (h : Handler σ) :
    Walk (ethernetRXInterruptTurn B h) Driver.kReceiveRd (RxHalts B) fun d => 0 ≤ d.kInPool where
  stops d hhalts := by
    rcases hhalts with hown | haddr
    · simp [ethernetRXInterruptTurn, hown]
    · simp [ethernetRXInterruptTurn, haddr]
  advances d d' hpool hturn := (ethernetRXInterruptTurn_keepsRx hpool hturn).1
  keeps d d' hpool hturn := by
    rw [(ethernetRXInterruptTurn_keepsRx hpool hturn).2.1]
    exact hpool
  stays d d' hpool hturn := (ethernetRXInterruptTurn_keepsRx hpool hturn).2.2.1
  leaves d d' hpool hturn := (ethernetRXInterruptTurn_keepsRx hpool hturn).2.2.2

/-! ## Transmitting -/

def TxHalts (B : Board) (d : Driver σ) (j : Fin packetRingLen) : Prop :=
  B.own (d.kTransmitRing j) = true ∨ (d.kTransmitRing j).buffer1Addr = 0

/-- The turn blanks the descriptor at `kTransmitWr` and leaves the others alone. -/
theorem ethernetTXInterruptTurn_blanks (hturn : ethernetTXInterruptTurn B d = some d') :
    d'.kTransmitWr = packetRingInc d.kTransmitWr ∧ d'.kTransmitRing =
      Function.update d.kTransmitRing d.kTransmitWr
        { d.kTransmitRing d.kTransmitWr with buffer1Addr := 0 } := by
  obtain ⟨-, rfl⟩ := ethernetTXInterruptTurn_some hturn
  simp [clearTxBuffer]

theorem tx_walk (B : Board) : Walk (ethernetTXInterruptTurn B (σ := σ)) Driver.kTransmitWr (TxHalts B)
    fun _ => True where
  stops d hhalts := by
    rcases hhalts with hown | haddr
    · simp [ethernetTXInterruptTurn, hown]
    · simp [ethernetTXInterruptTurn, haddr]
  advances d d' _ hturn := (ethernetTXInterruptTurn_blanks hturn).1
  keeps d d' _ _ := trivial
  stays d d' _ hturn j hj := by
    rw [TxHalts, (ethernetTXInterruptTurn_blanks hturn).2]
    by_cases hij : j = d.kTransmitWr
    · rw [hij, Function.update_self]
      exact Or.inr rfl
    · rw [Function.update_of_ne hij]
      exact hj
  leaves d d' _ hturn := by
    refine ⟨d.kTransmitWr, Or.inr ?_⟩
    rw [(ethernetTXInterruptTurn_blanks hturn).2, Function.update_self]

/-! ## Both loops -/

/-- **Drains.** From any contents of the rings, any indices and any answers of the handler, each loop
returns after at most eight turns. -/
theorem drains_return (B : Board) (h : Handler σ) (d : Driver σ) (hpool : 0 ≤ d.kInPool) :
    (∃ d', loop (ethernetRXInterruptTurn B h) 8 d = some d' ∧ ethernetRXInterruptTurn B h d' = none) ∧
      ∃ d', loop (ethernetTXInterruptTurn B) 8 d = some d' ∧ ethernetTXInterruptTurn B d' = none :=
  ⟨(rx_walk B h).returns hpool, (tx_walk B).returns trivial⟩

/-- Every descriptor is OWNed by the CPU and has a buffer. -/
def saturated : Driver (List Bool) :=
  { ethernetInitializeDma ch32v307 (fun _ _ => 0) [] true with
    kReceiveRing := fun i => ⟨0x00400300, 0, ch32v307.frameAddr i.val, 0⟩
    kTransmitRing := fun i => ⟨0, 0, ch32v307.frameAddr i.val, 0⟩ }

/-- From there both loops take all their eight turns. -/
theorem drains_return_saturated :
    (∃ d', loop (ethernetRXInterruptTurn ch32v307 scripted) 8 saturated = some d' ∧
        ethernetRXInterruptTurn ch32v307 scripted d' = none) ∧
      (loop (ethernetRXInterruptTurn ch32v307 scripted) 7 saturated).isNone = true ∧
      (∃ d', loop (ethernetTXInterruptTurn ch32v307) 8 saturated = some d' ∧
        ethernetTXInterruptTurn ch32v307 d' = none) ∧
      (loop (ethernetTXInterruptTurn ch32v307) 7 saturated).isNone = true := by
  obtain ⟨hrx, htx⟩ := drains_return ch32v307 scripted saturated (by decide)
  exact ⟨hrx, by decide +kernel, htx, by decide +kernel⟩

end Wchratum1.Ethernet
