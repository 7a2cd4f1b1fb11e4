import Wchratum1.Ethernet.System
import Wchratum1.Foundations.RingWindow

/-! # What the two descriptor rings hold

`RxSide` reads the receive ring from `kReceiveWr` on: first the blank descriptors, as many as there
are buffers on the transmit side, then the completed ones, then those lent to RxDMA. `TxSide` reads
the transmit ring from `kTransmitWr` on: the sent buffers, the queued ones, then the unused
descriptors. Both are windows of eight counters, so a write at one descriptor leaves the rest alone.

Each operation of the source and each completion has one lemma: `RxSide.land`, `RxSide.take`,
`RxSide.refill`, `TxSide.enqueue`, `TxSide.send`, `TxSide.reap`.
-/

namespace Wchratum1.Ethernet
open RingWindow
set_option autoImplicit false

variable {σ : Type} {B : Board} {d : Driver σ}

/-! ## The bits of a status word -/

theorem own_eq_true_iff (dma : EthDMADesc) :
    B.own dma = true ↔ dma.status &&& B.ethDMARxDescOWN ≠ 0 := by
  simp [Board.own]

theorem own_eq_false_iff (dma : EthDMADesc) :
    B.own dma = false ↔ dma.status &&& B.ethDMARxDescOWN = 0 := by
  simp [Board.own]

theorem own_set (dma : EthDMADesc) (size addr : UInt32) :
    B.own { dma with
      controlBufferSize := size, buffer1Addr := addr,
      status := dma.status ||| B.ethDMATxDescOWN } = true := by
  rw [own_eq_true_iff, B.own_eq]
  intro h
  apply B.own_ne_zero
  have h' : (dma.status ||| B.ethDMARxDescOWN) &&& B.ethDMARxDescOWN = B.ethDMARxDescOWN := by
    apply UInt32.toBitVec_inj.mp
    ext i hi
    simpa using Or.inr
  rw [← h', h]

theorem frameOf_getPacketFromRing (dma : EthDMADesc) :
    frameOf (getPacketFromRing dma) = dma.buffer1Addr :=
  UInt32.sub_add_cancel dma.buffer1Addr etherAlign

/-! ## Descriptors by their place -/

/-- A dispatched receive descriptor. Its address may be left over, except where `dry` holds. -/
def RxBlank (B : Board) (d : Driver σ) (dry : Prop) (i : Fin packetRingLen) : Prop :=
  B.own (d.kReceiveRing i) = false ∧ d.history.undispatched i = false ∧
    (dry → (d.kReceiveRing i).buffer1Addr = 0)

def RxLanded (B : Board) (d : Driver σ) (i : Fin packetRingLen) (x : UInt32 × Arrival) : Prop :=
  B.own (d.kReceiveRing i) = false ∧ d.history.undispatched i = true ∧
    (d.kReceiveRing i).buffer1Addr = x.1 ∧ (d.kReceiveRing i).status = x.2.status ∧
    d.kPacketPool x.1 = x.2.frame

def RxFree (B : Board) (d : Driver σ) (i : Fin packetRingLen) (b : UInt32) : Prop :=
  B.own (d.kReceiveRing i) = true ∧ d.history.undispatched i = false ∧
    (d.kReceiveRing i).buffer1Addr = b

def TxDone (B : Board) (d : Driver σ) (j : Fin packetRingLen) (b : UInt32) : Prop :=
  B.own (d.kTransmitRing j) = false ∧ (d.kTransmitRing j).buffer1Addr = b

def TxQueued (B : Board) (d : Driver σ) (j : Fin packetRingLen) (x : UInt32 × List UInt8) : Prop :=
  B.own (d.kTransmitRing j) = true ∧ (d.kTransmitRing j).buffer1Addr = x.1 ∧
    wireBytes B d (d.kTransmitRing j) = x.2

def TxUnused (B : Board) (d : Driver σ) (j : Fin packetRingLen) : Prop :=
  B.own (d.kTransmitRing j) = false ∧ (d.kTransmitRing j).buffer1Addr = 0

/-! ## The receive ring -/

structure RxSide (B : Board) (d : Driver σ) (rxDma : Fin packetRingLen) (dry : Prop) (held : ℕ)
    (landed : List (UInt32 × Arrival)) (free : List UInt32) (w : ℕ) : Prop where
  wr : d.kReceiveWr = slot packetRingLen w
  rd : d.kReceiveRd = slot packetRingLen (w + held)
  dma : rxDma = slot packetRingLen (w + held + landed.length)
  total : held + landed.length + free.length = packetRingLen
  blanks : Holds (fun i _ => RxBlank B d dry i) w (List.replicate held ())
  landeds : Holds (RxLanded B d) (w + held) landed
  frees : Holds (RxFree B d) (w + held + landed.length) free

section Rx
variable {rxDma : Fin packetRingLen} {dry : Prop} {held w : ℕ} {landed : List (UInt32 × Arrival)}
  {free : List UInt32}

/-- Only the receive ring, its two indices, the dispatch record and the landed buffers matter. -/
theorem RxSide.congr (h : RxSide B d rxDma dry held landed free w) {d' : Driver σ}
    (hring : d'.kReceiveRing = d.kReceiveRing) (hwr : d'.kReceiveWr = d.kReceiveWr)
    (hrd : d'.kReceiveRd = d.kReceiveRd)
    (hund : d'.history.undispatched = d.history.undispatched)
    (hpool : ∀ x ∈ landed, d'.kPacketPool x.1 = d.kPacketPool x.1) :
    RxSide B d' rxDma dry held landed free w where
  wr := hwr.trans h.wr
  rd := hrd.trans h.rd
  dma := h.dma
  total := h.total
  blanks := by
    refine h.blanks.imp fun k _ _ _ hb => ?_
    simpa only [RxBlank, hring, hund] using hb
  landeds := by
    refine h.landeds.imp fun k x _ hx hl => ?_
    simpa only [RxLanded, hring, hund, hpool x hx] using hl
  frees := by
    refine h.frees.imp fun k b _ _ hf => ?_
    simpa only [RxFree, hring, hund] using hf

/-- RxDMA completes the first descriptor lent to it. When that was the last one, no blank
descriptor may carry a left-over address. -/
theorem RxSide.land {b : UInt32} {fs : List UInt32} {status : UInt32} (data : List UInt8)
    (h : RxSide B d rxDma dry held landed (b :: fs) w)
    (hown : status &&& B.ethDMARxDescOWN = 0) (hfresh : ∀ x ∈ landed, x.1 ≠ b) {dry' : Prop}
    (hdry : dry' → ∀ k < held, (d.kReceiveRing (slot packetRingLen (w + k))).buffer1Addr = 0) :
    RxSide B (rxDmaRelease rxDma status data d) (packetRingInc rxDma) dry' held
      (landed ++ [(b, ⟨status, data, Bytes.overlay data (d.kPacketPool b),
        Bytes.firstBytes_overlay data _⟩)]) fs w := by
  have htot := h.total
  rw [List.length_cons] at htot
  obtain ⟨hhead, hrest⟩ := holds_cons.mp h.frees
  obtain ⟨_, _, haddr⟩ := hhead
  rw [← h.dma] at haddr
  have hne : ∀ x, w ≤ x ∧ x < w + packetRingLen → x ≠ w + held + landed.length →
      slot packetRingLen x ≠ rxDma := fun x hx hxne => by
    rw [h.dma]
    exact slot_ne (a := w) hx (by omega) hxne
  refine ⟨h.wr, h.rd, ?_, ?_, ?_, ?_, ?_⟩
  · rw [packetRingInc, h.dma, ← slot_succ, List.length_append]
    rfl
  · rw [List.length_append, List.length_singleton]
    omega
  · intro k u hk
    have hk' : k < held := by simpa using (List.getElem?_eq_some_iff.mp hk).1
    have hn := hne (w + k) (by omega) (by omega)
    obtain ⟨h1, h2, _⟩ := h.blanks k u hk
    simp only [RxBlank, rxDmaRelease, Function.update_of_ne hn]
    exact ⟨h1, h2, fun hd => hdry hd k hk'⟩
  · rw [holds_append, holds_singleton, ← h.dma]
    constructor
    · refine h.landeds.imp fun k x hk hx hl => ?_
      have hn := hne (w + held + k) (by omega) (by omega)
      obtain ⟨h1, h2, h3, h4, h5⟩ := hl
      simp only [RxLanded, rxDmaRelease, Function.update_of_ne hn, haddr,
        Function.update_of_ne (hfresh x hx)]
      exact ⟨h1, h2, h3, h4, h5⟩
    · simp only [RxLanded, rxDmaRelease, Function.update_self, haddr, Board.own]
      exact ⟨by simp [hown], trivial, trivial, trivial, trivial⟩
  · rw [List.length_append, List.length_singleton, ← Nat.add_assoc]
    refine hrest.imp fun k x hk _ hf => ?_
    have hn := hne (w + held + landed.length + 1 + k) (by omega) (by omega)
    obtain ⟨h1, h2, h3⟩ := hf
    simp only [RxFree, rxDmaRelease, Function.update_of_ne hn]
    exact ⟨h1, h2, h3⟩

/-- The handler takes the first completed descriptor. `e` is any state in which nothing else of
the receive side has changed; the descriptor itself keeps or loses its address. -/
theorem RxSide.take {b : UInt32} {a : Arrival} {ls : List (UInt32 × Arrival)}
    (h : RxSide B d rxDma dry held ((b, a) :: ls) free w) {e : Driver σ} {dry' : Prop}
    (hdry : dry' → dry) (hwr : e.kReceiveWr = d.kReceiveWr)
    (hrd : e.kReceiveRd = packetRingInc d.kReceiveRd)
    (hund : e.history.undispatched = Function.update d.history.undispatched d.kReceiveRd false)
    (hpool : ∀ x ∈ ls, e.kPacketPool x.1 = d.kPacketPool x.1)
    (hring : ∀ i, i ≠ d.kReceiveRd → e.kReceiveRing i = d.kReceiveRing i)
    (hself : B.own (e.kReceiveRing d.kReceiveRd) = false)
    (hdry' : dry' → (e.kReceiveRing d.kReceiveRd).buffer1Addr = 0) :
    RxSide B e rxDma dry' (held + 1) ls free w := by
  have htot := h.total
  rw [List.length_cons] at htot
  obtain ⟨-, hrest⟩ := holds_cons.mp h.landeds
  have hne : ∀ x, w ≤ x ∧ x < w + packetRingLen → x ≠ w + held →
      slot packetRingLen x ≠ d.kReceiveRd := fun x hx hxne => by
    rw [h.rd]
    exact slot_ne (a := w) hx (by omega) hxne
  refine ⟨hwr.trans h.wr, ?_, ?_, by omega, ?_, ?_, ?_⟩
  · rw [hrd, packetRingInc, h.rd, ← slot_succ, Nat.add_assoc]
  · rw [h.dma, List.length_cons]
    congr 1
    omega
  · rw [List.replicate_succ', holds_append, holds_singleton, List.length_replicate, ← h.rd]
    constructor
    · refine h.blanks.imp fun k u hk _ hb => ?_
      rw [List.length_replicate] at hk
      have hn := hne (w + k) (by omega) (by omega)
      obtain ⟨h1, h2, h3⟩ := hb
      simp only [RxBlank, hring _ hn, hund, Function.update_of_ne hn]
      exact ⟨h1, h2, fun hd => h3 (hdry hd)⟩
    · exact ⟨hself, by rw [hund, Function.update_self], hdry'⟩
  · rw [← Nat.add_assoc]
    refine hrest.imp fun k x hk hx hl => ?_
    have hn := hne (w + held + 1 + k) (by omega) (by omega)
    simpa only [RxLanded, hring _ hn, hund, Function.update_of_ne hn, hpool x hx] using hl
  · have hfrees := h.frees
    rw [List.length_cons] at hfrees
    rw [show w + (held + 1) + ls.length = w + held + (ls.length + 1) by omega]
    refine hfrees.imp fun k x hk _ hf => ?_
    have hn := hne (w + held + (ls.length + 1) + k) (by omega) (by omega)
    simpa only [RxFree, hring _ hn, hund, Function.update_of_ne hn] using hf

/-- `PacketDoneFromInterrupt` finds a blank descriptor and lends the buffer to RxDMA again. -/
theorem RxSide.refill (h : RxSide B d rxDma dry (held + 1) landed free w)
    (hpool : ¬ d.kInPool < 0) (pkt : UInt32) (dry' : Prop) (hdry : ¬ dry') :
    packetDoneFromInterrupt B pkt d = { d with
        kReceiveWr := packetRingInc d.kReceiveWr
        kReceiveRing := Function.update d.kReceiveRing d.kReceiveWr
          { d.kReceiveRing d.kReceiveWr with
            buffer1Addr := frameOf pkt, status := B.ethDMARxDescOWN } } ∧
      RxSide B (packetDoneFromInterrupt B pkt d) rxDma dry' held landed (free ++ [frameOf pkt])
        (w + 1) := by
  have htot := h.total
  obtain ⟨hhead, hrest⟩ := holds_cons.mp (List.replicate_succ ▸ h.blanks)
  rw [← h.wr] at hhead
  have hdone : packetDoneFromInterrupt B pkt d = { d with
        kReceiveWr := packetRingInc d.kReceiveWr
        kReceiveRing := Function.update d.kReceiveRing d.kReceiveWr
          { d.kReceiveRing d.kReceiveWr with
            buffer1Addr := frameOf pkt, status := B.ethDMARxDescOWN } } := by
    simp [packetDoneFromInterrupt, hpool, hhead.1]
  refine ⟨hdone, ?_⟩
  rw [hdone]
  have hne : ∀ x, w < x ∧ x < w + packetRingLen → slot packetRingLen x ≠ d.kReceiveWr :=
    fun x hx => by
      rw [h.wr]
      exact slot_ne (a := w) (by omega) (by omega) (by omega)
  refine ⟨?_, ?_, ?_, ?_, ?_, ?_, ?_⟩
  · rw [packetRingInc, h.wr, ← slot_succ]
  · rw [h.rd]
    congr 1
    omega
  · rw [h.dma]
    congr 1
    omega
  · rw [List.length_append, List.length_singleton]
    omega
  · refine hrest.imp fun k u hk _ hb => ?_
    rw [List.length_replicate] at hk
    have hn := hne (w + 1 + k) (by omega)
    obtain ⟨h1, h2, _⟩ := hb
    simp only [RxBlank, Function.update_of_ne hn]
    exact ⟨h1, h2, fun hd => absurd hd hdry⟩
  · rw [show w + 1 + held = w + (held + 1) by omega]
    refine h.landeds.imp fun k x hk _ hl => ?_
    have hn := hne (w + (held + 1) + k) (by omega)
    simpa only [RxLanded, Function.update_of_ne hn] using hl
  · rw [show w + 1 + held + landed.length = w + (held + 1) + landed.length by omega, holds_append,
      holds_singleton]
    constructor
    · refine h.frees.imp fun k x hk _ hf => ?_
      have hn := hne (w + (held + 1) + landed.length + k) (by omega)
      simpa only [RxFree, Function.update_of_ne hn] using hf
    · -- the window is full: the descriptor after the last lent one is the one at `kReceiveWr`
      rw [show w + (held + 1) + landed.length + free.length = w + packetRingLen by omega,
        slot_add_size, ← h.wr]
      simp only [RxFree, Function.update_self, own_eq_true_iff, UInt32.and_self]
      exact ⟨B.own_ne_zero, hhead.2.1, trivial⟩

theorem RxSide.place (h : RxSide B d rxDma dry held landed free w) (i : Fin packetRingLen) :
    RxBlank B d dry i ∨
      (∃ k x, landed[k]? = some x ∧ i = slot packetRingLen (w + held + k) ∧ RxLanded B d i x) ∨
      ∃ k b, free[k]? = some b ∧ i = slot packetRingLen (w + held + landed.length + k) ∧
        RxFree B d i b := by
  have htot := h.total
  obtain ⟨k, hk, rfl⟩ := exists_counter w i
  by_cases h1 : k < held
  · exact Or.inl (h.blanks k () (by simp [h1]))
  by_cases h2 : k < held + landed.length
  · refine Or.inr (Or.inl ⟨k - held, landed[k - held], ?_, ?_, ?_⟩)
    · exact List.getElem?_eq_getElem (by omega)
    · congr 1
      omega
    · have := h.landeds.get (k - held) (by omega)
      rwa [show w + held + (k - held) = w + k by omega] at this
  · refine Or.inr (Or.inr ⟨k - (held + landed.length), free[k - (held + landed.length)], ?_, ?_, ?_⟩)
    · exact List.getElem?_eq_getElem (by omega)
    · congr 1
      omega
    · have := h.frees.get (k - (held + landed.length)) (by omega)
      rwa [show w + held + landed.length + (k - (held + landed.length)) = w + k by omega] at this

theorem RxSide.own_iff (h : RxSide B d rxDma dry held landed free w) (i : Fin packetRingLen) :
    B.own (d.kReceiveRing i) = true ↔
      ∃ k, k < free.length ∧ i = slot packetRingLen (w + held + landed.length + k) := by
  constructor
  · intro hown
    rcases h.place i with hb | ⟨k, x, -, -, hl⟩ | ⟨k, b, hb, hi, -⟩
    · simp [hb.1] at hown
    · simp [hl.1] at hown
    · exact ⟨k, (List.getElem?_eq_some_iff.mp hb).1, hi⟩
  · rintro ⟨k, hk, rfl⟩
    exact (h.frees.get k hk).1

theorem RxSide.ownCount_eq (h : RxSide B d rxDma dry held landed free w) :
    ownCount B d = free.length := by
  have htot := h.total
  exact card_stretch (by omega) h.own_iff

theorem RxSide.free_of_own (h : RxSide B d rxDma dry held landed free w)
    (hown : B.own (d.kReceiveRing rxDma) = true) : ∃ b fs, free = b :: fs := by
  obtain ⟨k, hk, -⟩ := (h.own_iff rxDma).mp hown
  exact List.exists_cons_of_length_pos (Nat.zero_lt_of_lt hk)

/-- The loop of `EthernetRXInterrupt` returns when no frame is waiting, provided that a ring with
nothing lent has no left-over address. -/
theorem RxSide.idle (h : RxSide B d rxDma dry held [] free w) (hdry : free = [] → dry) :
    B.own (d.kReceiveRing d.kReceiveRd) = true ∨
      (d.kReceiveRing d.kReceiveRd).buffer1Addr = 0 := by
  have htot := h.total
  rw [h.rd]
  cases free with
  | cons b fs => exact Or.inl (holds_cons.mp h.frees).1.1
  | nil =>
    right
    have hheld : held = packetRingLen := by simpa using htot
    have hblank := h.blanks 0 () (by simp [hheld])
    rw [hheld, slot_add_size]
    exact hblank.2.2 (hdry rfl)

end Rx

/-! ## The transmit ring -/

structure TxSide (B : Board) (d : Driver σ) (txDma : Fin packetRingLen) (done : List UInt32)
    (queued : List (UInt32 × List UInt8)) (spare v : ℕ) : Prop where
  wr : d.kTransmitWr = slot packetRingLen v
  dma : txDma = slot packetRingLen (v + done.length)
  rd : d.kTransmitRd = slot packetRingLen (v + done.length + queued.length)
  total : done.length + queued.length + spare = packetRingLen
  dones : Holds (TxDone B d) v done
  queueds : Holds (TxQueued B d) (v + done.length) queued
  unused : Holds (fun j _ => TxUnused B d j) (v + done.length + queued.length)
    (List.replicate spare ())

section Tx
variable {txDma : Fin packetRingLen} {done : List UInt32} {queued : List (UInt32 × List UInt8)}
  {spare v : ℕ}

theorem TxSide.congr (h : TxSide B d txDma done queued spare v) {d' : Driver σ}
    (hring : d'.kTransmitRing = d.kTransmitRing) (hwr : d'.kTransmitWr = d.kTransmitWr)
    (hrd : d'.kTransmitRd = d.kTransmitRd)
    (hpool : ∀ x ∈ queued, d'.kPacketPool x.1 = d.kPacketPool x.1) :
    TxSide B d' txDma done queued spare v where
  wr := hwr.trans h.wr
  dma := h.dma
  rd := hrd.trans h.rd
  total := h.total
  dones := by
    refine h.dones.imp fun k b _ _ hb => ?_
    simpa only [TxDone, hring] using hb
  queueds := by
    refine h.queueds.imp fun k x _ hx hq => ?_
    obtain ⟨h1, h2, h3⟩ := hq
    refine ⟨by rw [hring]; exact h1, by rw [hring]; exact h2, ?_⟩
    rw [← h3, wireBytes, wireBytes, hring, h2, hpool x hx]
  unused := by
    refine h.unused.imp fun k u _ _ hu => ?_
    simpa only [TxUnused, hring] using hu

theorem enqueueTxFromInterrupt_unused (pkt : UInt32) (len : ℤ)
    (hown : B.own (d.kTransmitRing d.kTransmitRd) = false) :
    enqueueTxFromInterrupt B pkt len d = { d with
      kTransmitRd := packetRingInc d.kTransmitRd
      kTransmitRing := Function.update d.kTransmitRing d.kTransmitRd
        { d.kTransmitRing d.kTransmitRd with
          controlBufferSize := UInt32.ofInt len &&& B.ethDMATxDescTBS1
          buffer1Addr := frameOf pkt
          status := (d.kTransmitRing d.kTransmitRd).status ||| B.ethDMATxDescOWN }
      isTxDmaSuspended := false } := by
  have hfree : (d.kTransmitRing d.kTransmitRd).status &&& B.ethDMATxDescOWN = 0 := by
    rw [B.own_eq]
    exact (own_eq_false_iff _).mp hown
  cases hs : d.isTxDmaSuspended <;>
    simp [enqueueTxFromInterrupt, hfree, hs, ethResumeDMATransmission]

/-- The descriptor at `kTransmitRd` is unused and the buffer joins the queue. The bytes that will be
sent are those the buffer holds now, as many as the size field keeps of `len`. -/
theorem TxSide.enqueue (h : TxSide B d txDma done queued (spare + 1) v) (pkt : UInt32) (len : ℤ) :
    ∃ rd ring, enqueueTxFromInterrupt B pkt len d =
        { d with kTransmitRd := rd, kTransmitRing := ring, isTxDmaSuspended := false } ∧
      TxSide B { d with kTransmitRd := rd, kTransmitRing := ring, isTxDmaSuspended := false } txDma
        done (queued ++ [(frameOf pkt,
          Bytes.firstBytes (UInt32.ofInt len &&& B.ethDMATxDescTBS1).toNat
            (d.kPacketPool (frameOf pkt)))]) spare v := by
  have htot := h.total
  obtain ⟨hhead, hrest⟩ := holds_cons.mp (List.replicate_succ ▸ h.unused)
  rw [← h.rd] at hhead
  obtain ⟨hown, -⟩ := hhead
  have hne : ∀ x, v ≤ x ∧ x < v + packetRingLen → x ≠ v + done.length + queued.length →
      slot packetRingLen x ≠ d.kTransmitRd := fun x hx hxne => by
    rw [h.rd]
    exact slot_ne (a := v) hx (by omega) hxne
  have henq := enqueueTxFromInterrupt_unused pkt len hown
  refine ⟨_, _, henq, ⟨h.wr, h.dma, ?_, ?_, ?_, ?_, ?_⟩⟩
  · rw [packetRingInc, h.rd, ← slot_succ, List.length_append]
    rfl
  · rw [List.length_append, List.length_singleton]
    omega
  · refine h.dones.imp fun k b hk _ hb => ?_
    have hn := hne (v + k) (by omega) (by omega)
    simpa only [TxDone, Function.update_of_ne hn] using hb
  · rw [holds_append, holds_singleton, ← h.rd]
    constructor
    · refine h.queueds.imp fun k x hk _ hq => ?_
      have hn := hne (v + done.length + k) (by omega) (by omega)
      simpa only [TxQueued, wireBytes, Function.update_of_ne hn] using hq
    · simp only [TxQueued, Function.update_self]
      refine ⟨own_set _ _ _, trivial, ?_⟩
      simp only [wireBytes, UInt32.and_assoc, UInt32.and_self]
  · rw [List.length_append, List.length_singleton, ← Nat.add_assoc]
    refine hrest.imp fun k u hk _ hu => ?_
    rw [List.length_replicate] at hk
    have hn := hne (v + done.length + queued.length + 1 + k) (by omega) (by omega)
    simpa only [TxUnused, Function.update_of_ne hn] using hu

theorem TxSide.send {b : UInt32} {bytes : List UInt8} {qs : List (UInt32 × List UInt8)}
    {status : UInt32} (h : TxSide B d txDma done ((b, bytes) :: qs) spare v)
    (hown : status &&& B.ethDMATxDescOWN = 0) :
    wireBytes B d (d.kTransmitRing txDma) = bytes ∧
      TxSide B (txDmaRelease B txDma status d) (packetRingInc txDma) (done ++ [b]) qs spare v := by
  have htot := h.total
  rw [List.length_cons] at htot
  obtain ⟨hhead, hrest⟩ := holds_cons.mp h.queueds
  rw [← h.dma] at hhead
  obtain ⟨-, haddr, hbytes⟩ := hhead
  refine ⟨hbytes, ?_⟩
  have hne : ∀ x, v ≤ x ∧ x < v + packetRingLen → x ≠ v + done.length →
      slot packetRingLen x ≠ txDma := fun x hx hxne => by
    rw [h.dma]
    exact slot_ne (a := v) hx (by omega) hxne
  refine ⟨h.wr, ?_, ?_, ?_, ?_, ?_, ?_⟩
  · rw [packetRingInc, h.dma, ← slot_succ, List.length_append]
    rfl
  · rw [txDmaRelease, h.rd, List.length_append, List.length_singleton, List.length_cons]
    congr 1
    omega
  · rw [List.length_append, List.length_singleton]
    omega
  · rw [holds_append, holds_singleton, ← h.dma]
    constructor
    · refine h.dones.imp fun k x hk _ hb => ?_
      have hn := hne (v + k) (by omega) (by omega)
      simpa only [TxDone, txDmaRelease, Function.update_of_ne hn] using hb
    · simp only [TxDone, txDmaRelease, Function.update_self, own_eq_false_iff]
      exact ⟨B.own_eq ▸ hown, haddr⟩
  · rw [List.length_append, List.length_singleton, ← Nat.add_assoc]
    refine hrest.imp fun k x hk _ hq => ?_
    have hn := hne (v + done.length + 1 + k) (by omega) (by omega)
    simpa only [TxQueued, wireBytes, txDmaRelease, Function.update_of_ne hn] using hq
  · have hunused := h.unused
    rw [List.length_cons] at hunused
    rw [List.length_append, List.length_singleton,
      show v + (done.length + 1) + qs.length = v + done.length + (qs.length + 1) by omega]
    refine hunused.imp fun k u hk _ hu => ?_
    rw [List.length_replicate] at hk
    have hn := hne (v + done.length + (qs.length + 1) + k) (by omega) (by omega)
    simpa only [TxUnused, txDmaRelease, Function.update_of_ne hn] using hu

/-- `EthernetTXInterrupt` blanks the first sent descriptor. `d'` is any state in which nothing else
of the transmit side has changed. -/
theorem TxSide.reap {b : UInt32} {ds : List UInt32}
    (h : TxSide B d txDma (b :: ds) queued spare v) {d' : Driver σ}
    (hwr : d'.kTransmitWr = packetRingInc d.kTransmitWr) (hrd : d'.kTransmitRd = d.kTransmitRd)
    (hring : d'.kTransmitRing = Function.update d.kTransmitRing d.kTransmitWr
      { d.kTransmitRing d.kTransmitWr with buffer1Addr := 0 })
    (hpool : d'.kPacketPool = d.kPacketPool) :
    TxSide B d' txDma ds queued (spare + 1) (v + 1) := by
  have htot := h.total
  rw [List.length_cons] at htot
  obtain ⟨hhead, hrest⟩ := holds_cons.mp h.dones
  rw [← h.wr] at hhead
  have hne : ∀ x, v < x ∧ x < v + packetRingLen → slot packetRingLen x ≠ d.kTransmitWr :=
    fun x hx => by
      rw [h.wr]
      exact slot_ne (a := v) (by omega) (by omega) (by omega)
  have hother : ∀ x, v < x ∧ x < v + packetRingLen →
      d'.kTransmitRing (slot packetRingLen x) = d.kTransmitRing (slot packetRingLen x) :=
    fun x hx => by rw [hring, Function.update_of_ne (hne x hx)]
  have hqueued := h.queueds
  have hunused := h.unused
  rw [List.length_cons] at hqueued hunused
  rw [show v + (ds.length + 1) = v + 1 + ds.length by omega] at hqueued hunused
  refine ⟨?_, ?_, ?_, by omega, ?_, ?_, ?_⟩
  · rw [hwr, packetRingInc, h.wr, ← slot_succ]
  · rw [h.dma, List.length_cons]
    congr 1
    omega
  · rw [hrd, h.rd, List.length_cons]
    congr 1
    omega
  · refine hrest.imp fun k x hk _ hb => ?_
    simpa only [TxDone, hother (v + 1 + k) (by omega)] using hb
  · refine hqueued.imp fun k x hk _ hq => ?_
    simpa only [TxQueued, wireBytes, hpool, hother (v + 1 + ds.length + k) (by omega)] using hq
  · rw [List.replicate_succ', holds_append, holds_singleton, List.length_replicate]
    constructor
    · refine hunused.imp fun k u hk _ hu => ?_
      rw [List.length_replicate] at hk
      simpa only [TxUnused, hother (v + 1 + ds.length + queued.length + k) (by omega)] using hu
    · -- the window is full: the last unused descriptor is the one just blanked
      rw [show v + 1 + ds.length + queued.length + spare = v + packetRingLen by omega,
        slot_add_size, ← h.wr, TxUnused, hring, Function.update_self]
      exact ⟨hhead.1, rfl⟩

theorem TxSide.place (h : TxSide B d txDma done queued spare v) (j : Fin packetRingLen) :
    (∃ k b, done[k]? = some b ∧ j = slot packetRingLen (v + k) ∧ TxDone B d j b) ∨
      (∃ k x, queued[k]? = some x ∧ j = slot packetRingLen (v + done.length + k) ∧
        TxQueued B d j x) ∨
      TxUnused B d j := by
  have htot := h.total
  obtain ⟨k, hk, rfl⟩ := exists_counter v j
  by_cases h1 : k < done.length
  · exact Or.inl ⟨k, done[k], List.getElem?_eq_getElem h1, rfl, h.dones.get k h1⟩
  by_cases h2 : k < done.length + queued.length
  · refine Or.inr (Or.inl ⟨k - done.length, queued[k - done.length], ?_, ?_, ?_⟩)
    · exact List.getElem?_eq_getElem (by omega)
    · congr 1
      omega
    · have := h.queueds.get (k - done.length) (by omega)
      rwa [show v + done.length + (k - done.length) = v + k by omega] at this
  · refine Or.inr (Or.inr ?_)
    have := h.unused (k - (done.length + queued.length)) () (by
      rw [List.getElem?_replicate, if_pos (by omega)])
    rwa [show v + done.length + queued.length + (k - (done.length + queued.length)) = v + k by
      omega] at this

theorem TxSide.queued_of_own (h : TxSide B d txDma done queued spare v)
    (hown : B.own (d.kTransmitRing txDma) = true) : ∃ x qs, queued = x :: qs := by
  have htot := h.total
  cases queued with
  | cons x qs => exact ⟨x, qs, rfl⟩
  | nil =>
    exfalso
    rw [h.dma] at hown
    cases spare with
    | succ n =>
      have := (holds_cons.mp (List.replicate_succ ▸ h.unused)).1
      rw [List.length_nil, Nat.add_zero] at this
      simp [this.1] at hown
    | zero =>
      have hlen : done.length = packetRingLen := by simpa using htot
      have := h.dones.get 0 (by rw [hlen]; decide)
      rw [hlen, slot_add_size] at hown
      rw [Nat.add_zero] at this
      exact Bool.false_ne_true (this.1.symm.trans hown)

/-- The loop of `EthernetTXInterrupt` returns when nothing sent is waiting. -/
theorem TxSide.idle (h : TxSide B d txDma [] queued spare v) :
    B.own (d.kTransmitRing d.kTransmitWr) = true ∨
      (d.kTransmitRing d.kTransmitWr).buffer1Addr = 0 := by
  have htot := h.total
  rw [h.wr]
  cases queued with
  | cons x qs => exact Or.inl (holds_cons.mp h.queueds).1.1
  | nil =>
    right
    obtain rfl : spare = packetRingLen := by simpa using htot
    exact (h.unused 0 () (by simp)).2

end Tx

end Wchratum1.Ethernet
