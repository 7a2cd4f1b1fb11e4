import Wchratum1.Ethernet.Refinement

/-! # Every action of the driver and of the DMA engines is a pipeline step

One lemma per action: `Refines.land`, `Refines.send`, `Refines.turn_receiving`,
`Refines.turn_transmitting`. `Refines.step` puts them together and `reachable_refines` carries the
relation over every run.
-/

namespace Wchratum1.Ethernet
open RingWindow
set_option autoImplicit false

variable {σ : Type} {B : Board} {h : Handler σ} {s : System σ}
  {p : Pipeline UInt32 Arrival (List UInt8)} {w v : ℕ}

/-! ## A buffer is in one queue only -/

theorem Refines.fresh_of_free (hr : Refines B s p w v) {b : UInt32} {fs : List UInt32}
    (hfree : p.free = b :: fs) :
    (∀ x ∈ p.landed, x.1 ≠ b) ∧ ∀ x ∈ p.queued, x.1 ≠ b := by
  have hnd := hr.buffers_nodup
  simp only [Pipeline.buffers, hfree, List.cons_append, List.nodup_cons, List.mem_append,
    List.mem_map, not_or, not_exists, not_and] at hnd
  obtain ⟨⟨⟨⟨_, hl⟩, hq⟩, _⟩, _⟩ := hnd
  exact ⟨hl, hq⟩

theorem Refines.fresh_of_landed (hr : Refines B s p w v) {b : UInt32} {a : Arrival}
    {ls : List (UInt32 × Arrival)} (hlanded : p.landed = (b, a) :: ls) :
    (∀ x ∈ ls, x.1 ≠ b) ∧ ∀ x ∈ p.queued, x.1 ≠ b := by
  have hnd := hr.buffers_nodup
  have hperm : p.buffers.Perm
      (b :: (p.free ++ ls.map Prod.fst ++ p.queued.map Prod.fst ++ p.done)) := by
    simp only [Pipeline.buffers, hlanded, List.map_cons, List.append_assoc, List.cons_append]
    exact List.perm_middle
  rw [hperm.nodup_iff] at hnd
  simp only [List.nodup_cons, List.mem_append, List.mem_map, not_or, not_exists, not_and] at hnd
  obtain ⟨⟨⟨⟨_, hl⟩, hq⟩, _⟩, _⟩ := hnd
  exact ⟨hl, hq⟩

theorem Refines.landed_ne_zero (hr : Refines B s p w v) {b : UInt32} {a : Arrival}
    {ls : List (UInt32 × Arrival)} (hlanded : p.landed = (b, a) :: ls) : b ≠ 0 := by
  refine ringBuffers_ne_zero B (hr.buffers.subset ?_)
  simp [Pipeline.buffers, hlanded]

theorem Refines.done_ne_zero (hr : Refines B s p w v) {b : UInt32} {ds : List UInt32}
    (hdone : p.done = b :: ds) : b ≠ 0 := by
  refine ringBuffers_ne_zero B (hr.buffers.subset ?_)
  simp [Pipeline.buffers, hdone]

theorem Refines.buffers_step (hr : Refines B s p w v) {q : Pipeline UInt32 Arrival (List UInt8)}
    (hq : Pipeline.Step p q) : q.buffers.Perm B.ringBuffers :=
  hq.buffers_perm.trans hr.buffers

/-! ## The DMA engines -/

theorem Refines.land (hr : Refines B s p w v) {status : UInt32} {data : List UInt8}
    (hmay : rxDmaMay B s status data = true) (hsafe : safe B s.driver) :
    ∃ q, Pipeline.Step p q ∧ q.landed ≠ [] ∧ q.done = p.done ∧ Refines B
      { s with
        driver := rxDmaRelease s.rxDma status data s.driver, rxDma := packetRingInc s.rxDma }
      q w v := by
  simp only [rxDmaMay, Bool.and_eq_true, beq_iff_eq, decide_eq_true_eq] at hmay
  obtain ⟨⟨hown, hclear⟩, -⟩ := hmay
  obtain ⟨b, fs, hfree⟩ := hr.rx.free_of_own hown
  obtain ⟨hfl, hfq⟩ := hr.fresh_of_free hfree
  have hrx := hr.rx
  rw [hfree] at hrx
  obtain ⟨hhead, -⟩ := holds_cons.mp hrx.frees
  have haddr : (s.driver.kReceiveRing s.rxDma).buffer1Addr = b := by
    rw [hrx.dma]
    exact hhead.2.2
  -- completing the last lent descriptor is where `safe` is needed
  have hblank : fs = [] → ∀ k < p.held,
      (s.driver.kReceiveRing (slot packetRingLen (w + k))).buffer1Addr = 0 := by
    intro hfs k hk
    have hk' := hrx.blanks k () (by simp [hk])
    rcases hsafe with htwo | hall
    · rw [hrx.ownCount_eq, hfs] at htwo
      simp at htwo
    · exact hall _ hk'.1 hk'.2.1
  let a : Arrival := ⟨status, data, Bytes.overlay data (s.driver.kPacketPool b),
    Bytes.firstBytes_overlay data _⟩
  refine ⟨_, .land hfree a, by simp, rfl, ?_⟩
  refine ⟨hrx.land data hclear hfl hblank, ?_, ?_, hr.inPool, hr.leaked,
    hr.order.step (.land hfree _), ?_, hr.sent, hr.calls, hr.replies⟩
  · have hlen : (p.landed ++ [(b, a)]).length + fs.length = p.landed.length + p.free.length := by
      rw [hfree, List.length_append, List.length_singleton, List.length_cons]
      omega
    rw [hlen]
    refine hr.tx.congr rfl rfl rfl fun x hx => ?_
    simp only [rxDmaRelease, haddr, Function.update_of_ne (hfq x hx)]
  · exact hr.buffers_step (.land hfree _)
  · simp only [rxDmaRelease, haddr, hr.arrived]
    rfl

theorem Refines.send (hr : Refines B s p w v) {status : UInt32}
    (hmay : txDmaMay B s status = true) :
    ∃ q, Pipeline.Step p q ∧ q.landed = p.landed ∧ q.done ≠ [] ∧
      p.free.length ≤ q.free.length ∧ Refines B
      { s with driver := txDmaRelease B s.txDma status s.driver, txDma := packetRingInc s.txDma }
      q w v := by
  simp only [txDmaMay, Bool.and_eq_true, beq_iff_eq] at hmay
  obtain ⟨⟨hown, hclear⟩, -⟩ := hmay
  obtain ⟨⟨b, bytes⟩, qs, hqueued⟩ := hr.tx.queued_of_own hown
  have htx := hr.tx
  rw [hqueued] at htx
  obtain ⟨hbytes, htx'⟩ := htx.send hclear
  have hheld : (p.done ++ [b]).length + qs.length = p.held := by
    rw [Pipeline.held, hqueued, List.length_append, List.length_singleton, List.length_cons]
    omega
  refine ⟨_, .send hqueued, rfl, by simp, le_rfl, ?_⟩
  refine ⟨?_, htx', hr.buffers_step (.send hqueued), hr.inPool, hr.leaked,
    hr.order.step (.send hqueued), hr.arrived, ?_, hr.calls, hr.replies⟩
  · simp only [Pipeline.held, hheld]
    exact hr.rx.congr rfl rfl rfl rfl fun _ _ => rfl
  · simp only [txDmaRelease, hbytes, hr.sent]

/-! ## What becomes of a packet -/

theorem packetDoneFromInterrupt_cases (B : Board) (pkt : UInt32) (d : Driver σ) :
    (d.kInPool < 0 ∧ packetDoneFromInterrupt B pkt d = { d with kInPool := B.poolIndex pkt }) ∨
    (B.own (d.kReceiveRing d.kReceiveWr) = true ∧ packetDoneFromInterrupt B pkt d =
      { d with history := { d.history with leaked := d.history.leaked ++ [frameOf pkt] } }) ∨
    (B.own (d.kReceiveRing d.kReceiveWr) = false ∧ packetDoneFromInterrupt B pkt d = { d with
      kReceiveWr := packetRingInc d.kReceiveWr
      kReceiveRing := Function.update d.kReceiveRing d.kReceiveWr
        { d.kReceiveRing d.kReceiveWr with
          buffer1Addr := frameOf pkt, status := B.ethDMARxDescOWN } }) := by
  by_cases hpool : d.kInPool < 0
  · exact Or.inl ⟨hpool, by rw [packetDoneFromInterrupt, if_pos hpool]⟩
  · cases hown : B.own (d.kReceiveRing d.kReceiveWr)
    · exact Or.inr (Or.inr ⟨rfl, by simp [packetDoneFromInterrupt, hpool, hown]⟩)
    · exact Or.inr (Or.inl ⟨rfl, by simp [packetDoneFromInterrupt, hpool, hown]⟩)

/-- `PacketDoneFromInterrupt` touches the receive side only. -/
theorem packetDoneFromInterrupt_frame (B : Board) (pkt : UInt32) (d : Driver σ) :
    ∃ inPool wr ring leaked, packetDoneFromInterrupt B pkt d = { d with
      kInPool := inPool, kReceiveWr := wr, kReceiveRing := ring
      history := { d.history with leaked := leaked } } := by
  obtain ⟨-, h⟩ | ⟨-, h⟩ | ⟨-, h⟩ := packetDoneFromInterrupt_cases B pkt d
  · exact ⟨_, _, _, _, h⟩
  · exact ⟨_, _, _, _, h⟩
  · exact ⟨_, _, _, _, h⟩

@[simp] theorem packetDoneFromInterrupt_kTransmitRing (pkt : UInt32) (d : Driver σ) :
    (packetDoneFromInterrupt B pkt d).kTransmitRing = d.kTransmitRing := by
  obtain ⟨_, _, _, _, h⟩ := packetDoneFromInterrupt_frame B pkt d
  rw [h]

@[simp] theorem packetDoneFromInterrupt_kTransmitRd (pkt : UInt32) (d : Driver σ) :
    (packetDoneFromInterrupt B pkt d).kTransmitRd = d.kTransmitRd := by
  obtain ⟨_, _, _, _, h⟩ := packetDoneFromInterrupt_frame B pkt d
  rw [h]

@[simp] theorem packetDoneFromInterrupt_kTransmitWr (pkt : UInt32) (d : Driver σ) :
    (packetDoneFromInterrupt B pkt d).kTransmitWr = d.kTransmitWr := by
  obtain ⟨_, _, _, _, h⟩ := packetDoneFromInterrupt_frame B pkt d
  rw [h]

@[simp] theorem packetDoneFromInterrupt_isTxDmaSuspended (pkt : UInt32) (d : Driver σ) :
    (packetDoneFromInterrupt B pkt d).isTxDmaSuspended = d.isTxDmaSuspended := by
  obtain ⟨_, _, _, _, h⟩ := packetDoneFromInterrupt_frame B pkt d
  rw [h]

@[simp] theorem packetDoneFromInterrupt_calls (pkt : UInt32) (d : Driver σ) :
    (packetDoneFromInterrupt B pkt d).history.calls = d.history.calls := by
  obtain ⟨_, _, _, _, h⟩ := packetDoneFromInterrupt_frame B pkt d
  rw [h]

/-- A packet that is not queued is done with; queueing it touches the transmit side only. -/
theorem enqueueTxFromInterrupt_cases (B : Board) (pkt : UInt32) (len : ℤ) (d : Driver σ) :
    (B.own (d.kTransmitRing d.kTransmitRd) = true ∧
      enqueueTxFromInterrupt B pkt len d = packetDoneFromInterrupt B pkt d) ∨
    (B.own (d.kTransmitRing d.kTransmitRd) = false ∧
      ∃ rd ring suspended, enqueueTxFromInterrupt B pkt len d =
        { d with kTransmitRd := rd, kTransmitRing := ring, isTxDmaSuspended := suspended }) := by
  cases hown : B.own (d.kTransmitRing d.kTransmitRd)
  · exact Or.inr ⟨rfl, _, _, _, enqueueTxFromInterrupt_unused pkt len hown⟩
  · have hbusy := (own_eq_true_iff _).mp hown
    rw [← B.own_eq] at hbusy
    exact Or.inl ⟨rfl, by simp [enqueueTxFromInterrupt, hbusy]⟩

/-! ## `EthernetTXInterrupt` -/

theorem ethernetTXInterruptTurn_some {d d' : Driver σ}
    (hturn : ethernetTXInterruptTurn B d = some d') :
    (d.kTransmitRing d.kTransmitWr).buffer1Addr ≠ 0 ∧ d' = clearTxBuffer d.kTransmitWr
      (packetDoneFromInterrupt B (getPacketFromRing (d.kTransmitRing d.kTransmitWr)) d) := by
  unfold ethernetTXInterruptTurn at hturn
  dsimp only at hturn
  split at hturn
  · cases hturn
  split at hturn
  · cases hturn
  rename_i haddr
  exact ⟨haddr, (Option.some.inj hturn).symm⟩

theorem ethernetTXInterruptTurn_reaps {d : Driver σ}
    (hown : B.own (d.kTransmitRing d.kTransmitWr) = false)
    (haddr : (d.kTransmitRing d.kTransmitWr).buffer1Addr ≠ 0) :
    ethernetTXInterruptTurn B d = some (clearTxBuffer d.kTransmitWr
      (packetDoneFromInterrupt B (getPacketFromRing (d.kTransmitRing d.kTransmitWr)) d)) := by
  simp [ethernetTXInterruptTurn, hown, haddr]

theorem Refines.turn_transmitting (hr : Refines B s p w v) :
    ethernetTXInterruptTurn B s.driver = none ∨
      ∃ d q, ethernetTXInterruptTurn B s.driver = some d ∧ Pipeline.Step p q ∧
        q.landed = p.landed ∧ p.free.length ≤ q.free.length ∧ Refines B { s with driver := d } q (w + 1) (v + 1) := by
  have htx := hr.tx
  cases hdone : p.done with
  | nil =>
    left
    rw [hdone] at htx
    rcases htx.idle with hown | haddr
    · simp [ethernetTXInterruptTurn, hown]
    · simp [ethernetTXInterruptTurn, haddr]
  | cons b ds =>
    right
    rw [hdone] at htx
    obtain ⟨hown, haddr⟩ := (holds_cons.mp htx.dones).1
    rw [← htx.wr] at hown haddr
    have hb := hr.done_ne_zero hdone
    have hrx := hr.rx
    rw [show p.held = ds.length + p.queued.length + 1 by
      rw [Pipeline.held, hdone, List.length_cons]; omega] at hrx
    obtain ⟨hdoneEq, hrx'⟩ := hrx.refill hr.inPool_nonneg
      (getPacketFromRing (s.driver.kTransmitRing s.driver.kTransmitWr)) (p.free ++ [b] = [])
      (by simp)
    rw [frameOf_getPacketFromRing, haddr] at hrx' hdoneEq
    refine ⟨_, _, ethernetTXInterruptTurn_reaps hown (haddr ▸ hb), .reap hdone, rfl, by simp, ?_⟩
    rw [hdoneEq] at hrx' ⊢
    refine ⟨hrx'.congr rfl rfl rfl rfl fun _ _ => rfl, ?_, hr.buffers_step (.reap hdone), hr.inPool,
      hr.leaked, hr.order.step (.reap hdone), hr.arrived, hr.sent, hr.calls, hr.replies⟩
    have hspare : p.landed.length + (p.free ++ [b]).length =
        p.landed.length + p.free.length + 1 := by
      rw [List.length_append, List.length_singleton]
      omega
    rw [hspare]
    exact htx.reap rfl rfl rfl rfl

/-! ## `EthernetRXInterrupt` -/

/-- What the call of `PacketRxInterrupt` changes: the buffer, the handler's own state and the
record of calls. -/
theorem callPacketRxInterrupt_spec (B : Board) (h : Handler σ) (dma : EthDMADesc) (d : Driver σ) :
    ∃ next pool host calls, callPacketRxInterrupt B h dma d =
        (next, { d with
          kPacketPool := pool, host := host, history := { d.history with calls := calls } }) ∧
      (next = packetProcessed ∨ 0 ≤ next) ∧
      (∀ a, a ≠ dma.buffer1Addr → pool a = d.kPacketPool a) ∧
      calls.map Call.request = d.history.calls.map Call.request ++
        (if B.errorFree dma.status then
          [(d.kPacketPool dma.buffer1Addr, B.lenArg dma.status)] else []) ∧
      calls.filterMap (Call.reply B) = d.history.calls.filterMap (Call.reply B) ++
        (if 0 ≤ next then [B.sized next (pool dma.buffer1Addr)] else []) := by
  cases hok : B.errorFree dma.status
  · refine ⟨packetProcessed, _, _, _, by rw [callPacketRxInterrupt, hok]; rfl, Or.inl rfl,
      fun _ _ => rfl, by simp, ?_⟩
    simp [packetProcessed]
  · refine ⟨_, _, _, _, by rw [callPacketRxInterrupt, if_pos hok], h.answers _ _ _, ?_, ?_, ?_⟩
    · intro a ha
      simp only [Function.update_of_ne ha]
    · simp [Call.request]
    · simp only [List.filterMap_append, List.filterMap_cons, List.filterMap_nil, Call.reply,
        Function.update_self]
      split <;> simp_all

theorem ethernetRXInterruptTurn_taken {d d' : Driver σ}
    (hturn : ethernetRXInterruptTurn B h d = some d') :
    B.own (d.kReceiveRing d.kReceiveRd) = false ∧
      (d.kReceiveRing d.kReceiveRd).buffer1Addr ≠ 0 := by
  unfold ethernetRXInterruptTurn at hturn
  dsimp only at hturn
  split at hturn
  · cases hturn
  split at hturn
  · cases hturn
  rename_i hown haddr
  exact ⟨by simpa using hown, haddr⟩

theorem ethernetRXInterruptTurn_takes {d : Driver σ}
    (hown : B.own (d.kReceiveRing d.kReceiveRd) = false)
    (haddr : (d.kReceiveRing d.kReceiveRd).buffer1Addr ≠ 0) {next : ℤ} {d' : Driver σ}
    (hcall : callPacketRxInterrupt B h (d.kReceiveRing d.kReceiveRd) (takeReceiveRd d) = (next, d'))
    (hring : d'.kReceiveRing = d.kReceiveRing) (hnext : next = packetProcessed ∨ 0 ≤ next) :
    ethernetRXInterruptTurn B h d = some (
      if 0 ≤ next then
        enqueueTxFromInterrupt B (getPacketFromRing (d.kReceiveRing d.kReceiveRd)) next
          (clearRxBuffer d.kReceiveRd d')
      else packetDoneFromInterrupt B (getPacketFromRing (d.kReceiveRing d.kReceiveRd)) d') := by
  rcases hnext with rfl | hpos
  · simp [ethernetRXInterruptTurn, hown, haddr, hcall, packetProcessed, hring]
  · have hne : next ≠ packetProcessed := by
      simp only [packetProcessed]
      omega
    simp [ethernetRXInterruptTurn, hown, haddr, hcall, hpos, hne]

/-- `e` is `d` with the descriptor at `kReceiveRd` taken and `PacketRxInterrupt` called on it. -/
structure Called (d e : Driver σ) : Prop where
  ring : e.kReceiveRing = d.kReceiveRing
  rd : e.kReceiveRd = packetRingInc d.kReceiveRd
  wr : e.kReceiveWr = d.kReceiveWr
  inPool : e.kInPool = d.kInPool
  undispatched : e.history.undispatched = Function.update d.history.undispatched d.kReceiveRd false
  txRing : e.kTransmitRing = d.kTransmitRing
  txWr : e.kTransmitWr = d.kTransmitWr

theorem ethernetRXInterruptTurn_cases {d d' : Driver σ}
    (hturn : ethernetRXInterruptTurn B h d = some d') :
    B.own (d.kReceiveRing d.kReceiveRd) = false ∧ (d.kReceiveRing d.kReceiveRd).buffer1Addr ≠ 0 ∧
      ∃ next e, callPacketRxInterrupt B h (d.kReceiveRing d.kReceiveRd) (takeReceiveRd d) = (next, e) ∧
        Called d e ∧
        (0 ≤ next ∧ d' = enqueueTxFromInterrupt B (getPacketFromRing (d.kReceiveRing d.kReceiveRd))
            next (clearRxBuffer d.kReceiveRd e) ∨
          ¬ 0 ≤ next ∧
            d' = packetDoneFromInterrupt B (getPacketFromRing (d.kReceiveRing d.kReceiveRd)) e) := by
  obtain ⟨hown, haddr⟩ := ethernetRXInterruptTurn_taken hturn
  obtain ⟨next, pool, host, calls, hcall, hnext, -⟩ :=
    callPacketRxInterrupt_spec B h (d.kReceiveRing d.kReceiveRd) (takeReceiveRd d)
  rw [ethernetRXInterruptTurn_takes hown haddr hcall rfl hnext] at hturn
  obtain rfl := Option.some.inj hturn
  refine ⟨hown, haddr, next, _, hcall, ⟨rfl, rfl, rfl, rfl, rfl, rfl, rfl⟩, ?_⟩
  by_cases hpos : 0 ≤ next
  · exact Or.inl ⟨hpos, if_pos hpos⟩
  · exact Or.inr ⟨hpos, if_neg hpos⟩

theorem Refines.turn_receiving (hr : Refines B s p w v) (h : Handler σ) :
    ethernetRXInterruptTurn B h s.driver = none ∨
      ∃ d q w', ethernetRXInterruptTurn B h s.driver = some d ∧ Pipeline.Step p q ∧
        q.done = p.done ∧ p.free.length ≤ q.free.length ∧ Refines B { s with driver := d } q w' v := by
  have hrx := hr.rx
  cases hlanded : p.landed with
  | nil =>
    left
    rw [hlanded] at hrx
    rcases hrx.idle id with hown | haddr
    · simp [ethernetRXInterruptTurn, hown]
    · simp [ethernetRXInterruptTurn, haddr]
  | cons x ls =>
    right
    obtain ⟨b, a⟩ := x
    obtain ⟨hfl, hfq⟩ := hr.fresh_of_landed hlanded
    have hb := hr.landed_ne_zero hlanded
    rw [hlanded] at hrx
    obtain ⟨hown, -, haddr, hstatus, hframe⟩ := (holds_cons.mp hrx.landeds).1
    rw [← hrx.rd] at hown haddr hstatus
    obtain ⟨next, pool, host, calls, hcall, hnext, hpool, hcalls, hreplies⟩ :=
      callPacketRxInterrupt_spec B h (s.driver.kReceiveRing s.driver.kReceiveRd)
        (takeReceiveRd s.driver)
    rw [haddr] at hpool hcalls hreplies
    have hpkt : frameOf (getPacketFromRing (s.driver.kReceiveRing s.driver.kReceiveRd)) = b := by
      rw [frameOf_getPacketFromRing, haddr]
    -- the calls agree with what has been taken, whatever becomes of the buffer
    have hcalls' : calls.map Call.request =
        ((p.taken ++ [a]).filter fun a => B.errorFree a.status).map B.request := by
      rw [hcalls, hstatus, List.filter_append, List.map_append]
      congr 1
      · exact hr.calls
      · simp only [takeReceiveRd, hframe, List.filter_cons, List.filter_nil]
        split <;> simp [Board.request]
    have htake := ethernetRXInterruptTurn_takes hown (haddr ▸ hb) hcall rfl hnext
    have hlen : ls.length + (p.free.length + 1) = p.landed.length + p.free.length := by
      rw [hlanded, List.length_cons]
      omega
    rcases hnext with hdrop | hpos
    · have hneg : ¬ 0 ≤ next := by
        rw [hdrop]
        decide
      rw [if_neg hneg] at htake hreplies
      -- the descriptor keeps its address, but the buffer goes to the one at `kReceiveWr`
      have htaken := hrx.take (e := { takeReceiveRd s.driver with
          kPacketPool := pool, host := host,
          history := { (takeReceiveRd s.driver).history with calls := calls } })
        False.elim rfl rfl rfl (fun x hx => hpool x.1 (hfl x hx)) (fun _ _ => rfl) hown False.elim
      obtain ⟨hdoneEq, hrx'⟩ := htaken.refill hr.inPool_nonneg
        (getPacketFromRing (s.driver.kReceiveRing s.driver.kReceiveRd)) (p.free ++ [b] = [])
        (by simp)
      rw [hpkt] at hrx' hdoneEq
      refine ⟨_, _, w + 1, htake, .drop hlanded, rfl, by simp, ?_⟩
      rw [hdoneEq] at hrx' ⊢
      refine ⟨hrx', ?_, hr.buffers_step (.drop hlanded), hr.inPool, hr.leaked,
        hr.order.step (.drop hlanded), hr.arrived, hr.sent, hcalls', ?_⟩
      · rw [List.length_append, List.length_singleton, hlen]
        exact hr.tx.congr rfl rfl rfl fun x hx => hpool x.1 (hfq x hx)
      · rw [← hr.replies]
        exact hreplies.trans (List.append_nil _)
    · rw [if_pos hpos] at htake hreplies
      have htaken := hrx.take (e := clearRxBuffer s.driver.kReceiveRd { takeReceiveRd s.driver with
          kPacketPool := pool, host := host,
          history := { (takeReceiveRd s.driver).history with calls := calls } })
        id rfl rfl rfl (fun x hx => hpool x.1 (hfl x hx))
        (fun i hi => Function.update_of_ne hi _ _)
        (by simp only [clearRxBuffer, Function.update_self]; exact hown)
        (fun _ => by simp only [clearRxBuffer, Function.update_self])
      have htx : TxSide B (clearRxBuffer s.driver.kReceiveRd { takeReceiveRd s.driver with
          kPacketPool := pool, host := host,
          history := { (takeReceiveRd s.driver).history with calls := calls } }) s.txDma p.done
          p.queued (ls.length + p.free.length + 1) v := by
        rw [show ls.length + p.free.length + 1 = p.landed.length + p.free.length by omega]
        exact hr.tx.congr rfl rfl rfl fun x hx => hpool x.1 (hfq x hx)
      obtain ⟨rd, ring, henq, htx'⟩ := htx.enqueue
        (getPacketFromRing (s.driver.kReceiveRing s.driver.kReceiveRd)) next
      rw [hpkt] at htx'
      refine ⟨_, _, w, htake.trans (congrArg some henq),
        .answer hlanded (B.sized next (pool b)), rfl, le_rfl, ?_⟩
      refine ⟨?_, htx', hr.buffers_step (.answer hlanded _), hr.inPool, hr.leaked,
        hr.order.step (.answer hlanded _), hr.arrived, hr.sent, hcalls', ?_⟩
      · have hheld : p.done.length + (p.queued ++ [(b, B.sized next (pool b))]).length =
            p.held + 1 := by
          rw [List.length_append, List.length_singleton, Pipeline.held, Nat.add_assoc]
        simp only [Pipeline.held, hheld]
        exact htaken.congr rfl rfl rfl rfl fun _ _ => rfl
      · rw [← hr.replies]
        exact hreplies

/-! ## Runs -/

theorem Refines.context (hr : Refines B s p w v) (c : Context) :
    Refines B { s with context := c } p w v :=
  ⟨hr.rx, hr.tx, hr.buffers, hr.inPool, hr.leaked, hr.order, hr.arrived, hr.sent, hr.calls,
    hr.replies⟩

theorem Refines.suspend (hr : Refines B s p w v) :
    Refines B { s with driver := { s.driver with isTxDmaSuspended := true } } p w v :=
  ⟨hr.rx.congr rfl rfl rfl rfl fun _ _ => rfl, hr.tx.congr rfl rfl rfl fun _ _ => rfl,
    hr.buffers, hr.inPool, hr.leaked, hr.order, hr.arrived, hr.sent, hr.calls, hr.replies⟩

/-- **The simulation.** An action leaves the pipeline alone or is one step of it, and only a
completion of RxDMA takes from what is lent. -/
theorem Refines.step {allow : Driver σ → Prop} (hsafe : ∀ d, allow d → safe B d) {s' : System σ}
    (hr : Refines B s p w v) (hs : Step B h allow s s') :
    ∃ q w' v', (q = p ∨ Pipeline.Step p q) ∧ (p.free.length ≤ q.free.length ∨ allow s.driver) ∧
      Refines B s' q w' v' := by
  obtain ⟨a, hallow, hstep⟩ := hs
  cases a with
  | rxDmaCompletes status data =>
    obtain ⟨hmay, rfl⟩ := step_rxDmaCompletes hstep
    obtain ⟨q, hq, -, -, hr'⟩ := hr.land hmay (hsafe _ (hallow rfl))
    exact ⟨q, w, v, Or.inr hq, Or.inr (hallow rfl), hr'⟩
  | txDmaCompletes status =>
    obtain ⟨hmay, rfl⟩ := step_txDmaCompletes hstep
    obtain ⟨q, hq, -, -, hle, hr'⟩ := hr.send hmay
    exact ⟨q, w, v, Or.inr hq, Or.inl hle, hr'⟩
  | txDmaSuspends =>
    obtain rfl := step_txDmaSuspends hstep
    exact ⟨p, w, v, Or.inl rfl, Or.inl le_rfl, hr.suspend⟩
  | callRX =>
    obtain rfl := step_callRX hstep
    exact ⟨p, w, v, Or.inl rfl, Or.inl le_rfl, hr.context _⟩
  | callTX =>
    obtain rfl := step_callTX hstep
    exact ⟨p, w, v, Or.inl rfl, Or.inl le_rfl, hr.context _⟩
  | turn =>
    obtain ⟨-, ⟨-, rfl⟩ | ⟨d, hturn, rfl⟩⟩ | ⟨-, ⟨-, rfl⟩ | ⟨d, hturn, rfl⟩⟩ := step_turn hstep
    · exact ⟨p, w, v, Or.inl rfl, Or.inl le_rfl, hr.context _⟩
    · rcases hr.turn_receiving h with hnone | ⟨d', q, w', hsome, hq, -, hle, hr'⟩
      · rw [hnone] at hturn
        cases hturn
      · obtain rfl := Option.some.inj (hsome.symm.trans hturn)
        exact ⟨q, w', v, Or.inr hq, Or.inl hle, hr'⟩
    · exact ⟨p, w, v, Or.inl rfl, Or.inl le_rfl, hr.context _⟩
    · rcases hr.turn_transmitting with hnone | ⟨d', q, hsome, hq, -, hle, hr'⟩
      · rw [hnone] at hturn
        cases hturn
      · obtain rfl := Option.some.inj (hsome.symm.trans hturn)
        exact ⟨q, w + 1, v + 1, Or.inr hq, Or.inl hle, hr'⟩

/-- Every state of every run refines some pipeline. -/
theorem reachable_refines (hs : Reachable B h (safe B) s) : ∃ p w v, Refines B s p w v := by
  refine hs.invariant (P := fun s => ∃ p w v, Refines B s p w v) ?_ ?_
  · intro pool host suspended
    exact ⟨_, 0, 0, start_refines pool host suspended⟩
  · rintro s s' ⟨p, w, v, hr⟩ hstep
    obtain ⟨q, w', v', -, -, hr'⟩ := hr.step (fun _ => id) hstep
    exact ⟨q, w', v', hr'⟩

/-- While RxDMA leaves one descriptor alone, a buffer is always lent to it. -/
theorem reachable_lends (hs : Reachable B h (leavesOne B) s) :
    ∃ p w v, Refines B s p w v ∧ 0 < p.free.length := by
  refine hs.invariant (P := fun s => ∃ p w v, Refines B s p w v ∧ 0 < p.free.length) ?_ ?_
  · intro pool host suspended
    refine ⟨_, 0, 0, start_refines pool host suspended, ?_⟩
    simp [initialPipeline, Board.ringBuffers]
  · rintro s s' ⟨p, w, v, hr, hpos⟩ hstep
    obtain ⟨q, w', v', hq, hgrow, hr'⟩ := hr.step leavesOne_safe hstep
    refine ⟨q, w', v', hr', ?_⟩
    rcases hgrow with hle | htwo
    · omega
    · rw [leavesOne, hr.rx.ownCount_eq] at htwo
      have := Pipeline.free_length_le hq
      omega

end Wchratum1.Ethernet
