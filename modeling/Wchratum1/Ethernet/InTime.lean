import Wchratum1.Ethernet.Irq

/-! # Which completions come too late for `ETH_IRQHandler`

The handler looks at the receive ring until the last OWN check of `EthernetRXInterrupt`, or not at all
when RS is not in its snapshot of `DMASR`; the same goes for the transmit ring and TS. A completion
after that and before NIS is cleared is too late for this run of the handler and loses its flag.

If none of these comes, nothing is lost, whatever RxDMA does (`InTime.clearsNISQuiet`). If one comes,
the descriptor at `kReceiveRd` or at `kTransmitWr` waits from then on (`ClearsNISQuiet.inTime`); there
the rings have to be in step with the DMA engines, so this half is about runs that refine a pipeline.
-/

namespace Wchratum1.Ethernet
open RingWindow
set_option autoImplicit false

variable {σ : Type}

/-- The handler does not look at the receive ring any more before it clears NIS. -/
def pastReceive (s : IrqSystem σ) : Bool :=
  match s.point with
  | .idle | .receive => false
  | .clearRBU | .clearAIS | .normal => s.status.nis && !s.status.rs
  | _ => true

/-- The handler does not look at the transmit ring any more before it clears NIS. -/
def pastTransmit (s : IrqSystem σ) : Bool :=
  match s.point with
  | .idle | .transmit => false
  | .clearRBU | .clearAIS | .normal => s.status.nis && !s.status.ts
  | .receive | .clearR | .testTS => !s.status.ts
  | _ => true

def tooLate (s : IrqSystem σ) : IrqAction → Bool
  | .rxDmaCompletes _ _ => pastReceive s
  | .txDmaCompletes _ => pastTransmit s
  | _ => false

/-- Along the run `as` from `s`, the handler clears NIS only if no completion was too late for it.
`late` says that one was before `s`. -/
def InTime (B : Board) (h : Handler σ) : Bool → IrqSystem σ → List IrqAction → Prop
  | _, _, [] => True
  | late, s, a :: as => (a = .next → s.point = .clearNIS → late = false) ∧
      ∀ s', irqStep B h s a = some s' → InTime B h (late || tooLate s a) s' as

def IrqAction.isRxDma : IrqAction → Bool
  | .rxDmaCompletes _ _ => true
  | _ => false

/-- Along the run `as` from `s`, RxDMA completes a descriptor only where `allow` holds. -/
def RxDmaKeeps (B : Board) (h : Handler σ) (allow : Driver σ → Prop) :
    IrqSystem σ → List IrqAction → Prop
  | _, [] => True
  | s, a :: as => (a.isRxDma = true → allow s.sys.driver) ∧
      ∀ s', irqStep B h s a = some s' → RxDmaKeeps B h allow s' as

variable {B : Board} {h : Handler σ} {s s' : IrqSystem σ}

instance decidableInTime (B : Board) (h : Handler σ) :
    ∀ (late : Bool) (s : IrqSystem σ) (as : List IrqAction), Decidable (InTime B h late s as)
  | _, _, [] => .isTrue trivial
  | late, s, a :: as =>
    have := fun s' => decidableInTime B h (late || tooLate s a) s' as
    inferInstanceAs (Decidable ((a = .next → s.point = .clearNIS → late = false) ∧
      ∀ s' ∈ irqStep B h s a, InTime B h (late || tooLate s a) s' as))

instance decidableRxDmaKeeps (B : Board) (h : Handler σ) (allow : Driver σ → Prop)
    [DecidablePred allow] :
    ∀ (s : IrqSystem σ) (as : List IrqAction), Decidable (RxDmaKeeps B h allow s as)
  | _, [] => .isTrue trivial
  | s, a :: as =>
    have := fun s' => decidableRxDmaKeeps B h allow s' as
    inferInstanceAs (Decidable ((a.isRxDma = true → allow s.sys.driver) ∧
      ∀ s' ∈ irqStep B h s a, RxDmaKeeps B h allow s' as))

/-! ## Steps of the handler -/

/-- The loop that runs at a point of the handler. -/
def IrqPoint.context : IrqPoint → Context
  | .receive => .receiving
  | .transmit => .transmitting
  | _ => .idle

def SameFlags (s s' : IrqSystem σ) : Prop :=
  pastReceive s' = pastReceive s ∧ pastTransmit s' = pastTransmit s

/-- What one step of the handler does to the rings, and whether it was a last look at one of them. -/
inductive Looks (B : Board) (h : Handler σ) (s s' : IrqSystem σ) : Prop
  | receives (hturn : ethernetRXInterruptTurn B h s.sys.driver = some s'.sys.driver)
      (hpast : pastReceive s = false) (hsame : SameFlags s s')
  | drainedRx (hturn : ethernetRXInterruptTurn B h s.sys.driver = none)
      (hsys : s'.sys.driver = s.sys.driver) (hpast : pastReceive s = false)
      (hsame : pastTransmit s' = pastTransmit s)
  | transmits (hturn : ethernetTXInterruptTurn B s.sys.driver = some s'.sys.driver)
      (hpast : pastTransmit s = false) (hsame : SameFlags s s')
  | drainedTx (hturn : ethernetTXInterruptTurn B s.sys.driver = none)
      (hsys : s'.sys.driver = s.sys.driver) (hpast : pastTransmit s = false)
      (hsame : pastReceive s' = pastReceive s)
  | clears (hpoint : s.point = .clearNIS) (hidle : s'.point = .idle)
      (hsys : s'.sys.driver = s.sys.driver)
  | other (hpoint : s.point ≠ .clearNIS) (hsys : s'.sys.driver = s.sys.driver)
      (hsame : SameFlags s s')

/-- A loop runs exactly at its point of the handler. -/
def InStep (s : IrqSystem σ) : Prop := s.sys.context = s.point.context

theorem ethIRQHandlerNext_looks (hin : InStep s) (hnext : ethIRQHandlerNext B h s = some s') :
    InStep s' ∧ s'.sys.rxDma = s.sys.rxDma ∧ s'.sys.txDma = s.sys.txDma ∧ Looks B h s s' := by
  unfold ethIRQHandlerNext at hnext
  unfold InStep at hin ⊢
  cases hpoint : s.point <;> simp only [hpoint, IrqPoint.context] at hnext hin
  case idle => cases hnext
  case receive =>
    simp only [step, hin] at hnext
    cases hturn : ethernetRXInterruptTurn B h s.sys.driver with
    | none =>
      simp only [hturn, Option.map_some, if_true, Option.some.injEq] at hnext
      subst hnext
      exact ⟨rfl, rfl, rfl, .drainedRx hturn rfl (by simp [pastReceive, hpoint])
        (by simp [pastTransmit, hpoint])⟩
    | some d =>
      simp only [hturn, Option.map_some, reduceCtorEq, if_false, Option.some.injEq] at hnext
      subst hnext
      exact ⟨rfl, rfl, rfl, .receives hturn (by simp [pastReceive, hpoint])
        ⟨by simp [pastReceive, hpoint], by simp [pastTransmit, hpoint]⟩⟩
  case transmit =>
    simp only [step, hin] at hnext
    cases hturn : ethernetTXInterruptTurn B s.sys.driver with
    | none =>
      simp only [hturn, Option.map_some, if_true, Option.some.injEq] at hnext
      subst hnext
      exact ⟨rfl, rfl, rfl, .drainedTx hturn rfl (by simp [pastTransmit, hpoint])
        (by simp [pastReceive, hpoint])⟩
    | some d =>
      simp only [hturn, Option.map_some, reduceCtorEq, if_false, Option.some.injEq] at hnext
      subst hnext
      exact ⟨rfl, rfl, rfl, .transmits hturn (by simp [pastTransmit, hpoint])
        ⟨by simp [pastReceive, hpoint], by simp [pastTransmit, hpoint]⟩⟩
  case normal =>
    simp only [step, hin, if_true, Option.map_some] at hnext
    cases hnis : s.status.nis <;> cases hrs : s.status.rs <;>
      simp only [hnis, hrs, Bool.false_eq_true, if_false, if_true, Option.some.injEq] at hnext <;>
      subst hnext <;>
      refine ⟨by simp [IrqPoint.context, hin], rfl, rfl, .other (by simp [hpoint]) rfl ⟨?_, ?_⟩⟩ <;>
      simp [pastReceive, pastTransmit, hpoint, hnis, hrs]
  case testTS =>
    simp only [step, hin, if_true, Option.map_some] at hnext
    cases hts : s.status.ts <;>
      simp only [hts, Bool.false_eq_true, if_false, if_true, Option.some.injEq] at hnext <;>
      subst hnext <;>
      refine ⟨by simp [IrqPoint.context, hin], rfl, rfl, .other (by simp [hpoint]) rfl ⟨?_, ?_⟩⟩ <;>
      simp [pastReceive, pastTransmit, hpoint, hts]
  case clearNIS =>
    obtain rfl := Option.some.inj hnext
    exact ⟨hin, rfl, rfl, .clears hpoint rfl rfl⟩
  case clearR | clearT =>
    obtain rfl := Option.some.inj hnext
    exact ⟨hin, rfl, rfl, .other (by simp [hpoint]) rfl
      ⟨by simp [pastReceive, hpoint], by simp [pastTransmit, hpoint]⟩⟩
  case clearRBU | clearAIS | phyLink | clearTBU =>
    split at hnext <;> obtain rfl := Option.some.inj hnext <;>
      exact ⟨hin, rfl, rfl, .other (by simp [hpoint]) rfl
        ⟨by simp [pastReceive, hpoint], by simp [pastTransmit, hpoint]⟩⟩

theorem InStep.step {a : IrqAction} (hin : InStep s) (hstep : irqStep B h s a = some s') :
    InStep s' := by
  cases a with
  | rxDmaCompletes status data =>
    obtain ⟨sys, hsys, rfl⟩ := Option.map_eq_some_iff.mp hstep
    obtain ⟨-, rfl⟩ := step_rxDmaCompletes hsys
    exact hin
  | txDmaCompletes status =>
    obtain ⟨sys, hsys, rfl⟩ := Option.map_eq_some_iff.mp hstep
    obtain ⟨-, rfl⟩ := step_txDmaCompletes hsys
    exact hin
  | txDmaSuspends =>
    obtain ⟨sys, hsys, rfl⟩ := Option.map_eq_some_iff.mp hstep
    obtain rfl := step_txDmaSuspends hsys
    exact hin
  | otherFlags ais rbus phyLink tbus =>
    obtain rfl := Option.some.inj hstep
    exact hin
  | enter =>
    simp only [irqStep] at hstep
    split at hstep
    · rename_i hidle
      obtain rfl := Option.some.inj hstep
      rw [InStep, hidle] at hin
      exact hin
    · cases hstep
  | next => exact (ethIRQHandlerNext_looks hin hstep).1

/-- The driver's part of a step of the handler or of the hardware: nothing, or one action, and RxDMA
completes a descriptor only where the hardware does. -/
theorem irqStep_action {a : IrqAction} (hin : InStep s) (hstep : irqStep B h s a = some s') :
    s'.sys = s.sys ∨ ∃ b, step B h s.sys b = some s'.sys ∧ (b.isRxDma = true → a.isRxDma = true) := by
  have hkeeps : ∀ {b : Action}, step B h s.sys b = some s'.sys → s'.sys.rxDma = s.sys.rxDma →
      b.isRxDma = true → a.isRxDma = true := by
    intro b hb hsame hrx
    cases b with
    | rxDmaCompletes status data =>
      obtain ⟨-, hsys⟩ := step_rxDmaCompletes hb
      rw [hsys] at hsame
      have hmoved : packetRingInc s.sys.rxDma = s.sys.rxDma := hsame
      exact absurd hmoved (by rw [packetRingInc]; simp)
    | _ => cases hrx
  rcases irqStep_sys hstep with hsame | ⟨b, hb⟩
  · exact Or.inl hsame
  · refine Or.inr ⟨b, hb, ?_⟩
    cases a with
    | rxDmaCompletes status data => exact fun _ => rfl
    | txDmaCompletes status =>
      obtain ⟨sys, hsys, rfl⟩ := Option.map_eq_some_iff.mp hstep
      obtain ⟨-, rfl⟩ := step_txDmaCompletes hsys
      exact hkeeps hb rfl
    | txDmaSuspends =>
      obtain ⟨sys, hsys, rfl⟩ := Option.map_eq_some_iff.mp hstep
      obtain rfl := step_txDmaSuspends hsys
      exact hkeeps hb rfl
    | otherFlags ais rbus phyLink tbus =>
      obtain rfl := Option.some.inj hstep
      exact hkeeps hb rfl
    | enter =>
      simp only [irqStep] at hstep
      split at hstep
      · obtain rfl := Option.some.inj hstep
        exact hkeeps hb rfl
      · cases hstep
    | next => exact hkeeps hb (ethIRQHandlerNext_looks hin hstep).2.1

section Rings
variable {d d' : Driver σ}

/-- A receive descriptor that RxDMA owns or completed has a buffer. -/
def Filled (B : Board) (d : Driver σ) : Prop :=
  ∀ i, B.own (d.kReceiveRing i) = true ∨ d.history.undispatched i = true →
    (d.kReceiveRing i).buffer1Addr ≠ 0

theorem start_filled (B : Board) (pool : UInt32 → Bytes) (host : σ) (suspended : Bool) :
    Filled B (ethernetInitializeDma B pool host suspended) := by
  intro i _
  refine frameAddr_ne_zero B (Nat.lt_trans i.isLt ?_)
  decide

theorem Filled.packetDone (hf : Filled B d) {pkt : UInt32} (hpkt : frameOf pkt ≠ 0) :
    Filled B (packetDoneFromInterrupt B pkt d) := by
  obtain ⟨-, hdone⟩ | ⟨-, hdone⟩ | ⟨-, hdone⟩ := packetDoneFromInterrupt_cases B pkt d
  · rw [hdone]
    exact hf
  · rw [hdone]
    exact hf
  · rw [hdone]
    intro i hi
    by_cases hwr : i = d.kReceiveWr
    · simp only [hwr, Function.update_self]
      exact hpkt
    · simp only [Function.update_of_ne hwr] at hi ⊢
      exact hf i hi

theorem Filled.enqueue (hf : Filled B d) {pkt : UInt32} (hpkt : frameOf pkt ≠ 0) (len : ℤ) :
    Filled B (enqueueTxFromInterrupt B pkt len d) := by
  obtain ⟨-, hdone⟩ | ⟨-, _, _, _, hqueued⟩ := enqueueTxFromInterrupt_cases B pkt len d
  · rw [hdone]
    exact hf.packetDone hpkt
  · rw [hqueued]
    exact hf

theorem Filled.rxDma (hf : Filled B d) {i : Fin packetRingLen} {status : UInt32}
    (data : List UInt8) (hown : B.own (d.kReceiveRing i) = true) :
    Filled B (rxDmaRelease i status data d) := by
  intro j hj
  by_cases hji : j = i
  · simp only [rxDmaRelease, hji, Function.update_self]
    exact hf i (Or.inl hown)
  · simp only [rxDmaRelease, Function.update_of_ne hji] at hj ⊢
    exact hf j hj

/-- The turn enqueues the packet of the descriptor it takes or is done with it, in a state `e` that
differs from `d` in the receive side of that descriptor only. -/
theorem ethernetRXInterruptTurn_some (hturn : ethernetRXInterruptTurn B h d = some d') :
    ∃ e next, frameOf (getPacketFromRing (d.kReceiveRing d.kReceiveRd)) ≠ 0 ∧
      (d' = enqueueTxFromInterrupt B (getPacketFromRing (d.kReceiveRing d.kReceiveRd)) next e ∨
        d' = packetDoneFromInterrupt B (getPacketFromRing (d.kReceiveRing d.kReceiveRd)) e) ∧
      e.kTransmitRing = d.kTransmitRing ∧ e.kTransmitWr = d.kTransmitWr ∧
      (Filled B d → Filled B e) := by
  obtain ⟨hown, haddr, next, e, -, he, hd'⟩ := ethernetRXInterruptTurn_cases hturn
  have hpkt : frameOf (getPacketFromRing (d.kReceiveRing d.kReceiveRd)) ≠ 0 := by
    rw [frameOf_getPacketFromRing]
    exact haddr
  have hcalled : Filled B d → Filled B e := by
    intro hf i hi
    rw [he.ring] at hi ⊢
    refine hf i (hi.imp id fun hund => ?_)
    rw [he.undispatched] at hund
    by_cases hrd : i = d.kReceiveRd
    · rw [hrd, Function.update_self] at hund
      cases hund
    · rwa [Function.update_of_ne hrd] at hund
  rcases hd' with ⟨-, rfl⟩ | ⟨-, rfl⟩
  · refine ⟨_, next, hpkt, Or.inl rfl, he.txRing, he.txWr, fun hf i hi => ?_⟩
    by_cases hrd : i = d.kReceiveRd
    · -- the descriptor that loses its address is neither owned nor waiting
      exfalso
      simp only [hrd, clearRxBuffer, he.ring, he.undispatched, Function.update_self, Board.own,
        Bool.false_eq_true, or_false] at hi
      exact Bool.false_ne_true (hown.symm.trans hi)
    · simp only [clearRxBuffer, Function.update_of_ne hrd] at hi ⊢
      exact hcalled hf i hi
  · exact ⟨e, next, hpkt, Or.inr rfl, he.txRing, he.txWr, hcalled⟩

theorem Filled.step {sys sys' : System σ} {a : Action} (hf : Filled B sys.driver)
    (hstep : step B h sys a = some sys') : Filled B sys'.driver := by
  cases a with
  | rxDmaCompletes status data =>
    obtain ⟨hmay, rfl⟩ := step_rxDmaCompletes hstep
    simp only [rxDmaMay, Bool.and_eq_true] at hmay
    exact hf.rxDma data hmay.1.1
  | txDmaCompletes status =>
    obtain ⟨-, rfl⟩ := step_txDmaCompletes hstep
    exact hf
  | txDmaSuspends =>
    obtain rfl := step_txDmaSuspends hstep
    exact hf
  | callRX =>
    obtain rfl := step_callRX hstep
    exact hf
  | callTX =>
    obtain rfl := step_callTX hstep
    exact hf
  | turn =>
    obtain ⟨-, ⟨-, rfl⟩ | ⟨d, hturn, rfl⟩⟩ | ⟨-, ⟨-, rfl⟩ | ⟨d, hturn, rfl⟩⟩ := step_turn hstep
    · exact hf
    · obtain ⟨e, next, hpkt, rfl | rfl, -, -, hfe⟩ := ethernetRXInterruptTurn_some hturn
      · exact (hfe hf).enqueue hpkt next
      · exact (hfe hf).packetDone hpkt
    · exact hf
    · obtain ⟨haddr, rfl⟩ := ethernetTXInterruptTurn_some hturn
      exact hf.packetDone (by rw [frameOf_getPacketFromRing]; exact haddr)

/-- Lending a buffer to RxDMA makes nothing wait. -/
theorem waitingRx_of_packetDone (pkt : UInt32)
    (hw : WaitingRx B (packetDoneFromInterrupt B pkt d)) : WaitingRx B d := by
  obtain ⟨-, hdone⟩ | ⟨-, hdone⟩ | ⟨-, hdone⟩ := packetDoneFromInterrupt_cases B pkt d
  · rw [hdone] at hw
    exact hw
  · rw [hdone] at hw
    exact hw
  · rw [hdone] at hw
    by_cases hrd : d.kReceiveRd = d.kReceiveWr
    · have hown := hw.1
      simp only [hrd, Function.update_self, Board.own, UInt32.and_self] at hown
      exact absurd hown (by simpa using B.own_ne_zero)
    · simpa only [WaitingRx, Function.update_of_ne hrd] using hw

theorem waitingRx_of_turnTX (hturn : ethernetTXInterruptTurn B d = some d')
    (hw : WaitingRx B d') : WaitingRx B d := by
  obtain ⟨-, rfl⟩ := ethernetTXInterruptTurn_some hturn
  exact waitingRx_of_packetDone (getPacketFromRing (d.kTransmitRing d.kTransmitWr)) hw

theorem waitingTx_of_packetDone {pkt : UInt32}
    (hw : WaitingTx B (packetDoneFromInterrupt B pkt d)) : WaitingTx B d := by
  simpa [WaitingTx] using hw

/-- A reply that is queued is owned by TxDMA, so it makes nothing wait. -/
theorem waitingTx_of_enqueue {pkt : UInt32} {len : ℤ}
    (hw : WaitingTx B (enqueueTxFromInterrupt B pkt len d)) : WaitingTx B d := by
  obtain ⟨-, hdone⟩ | ⟨hfree, -⟩ := enqueueTxFromInterrupt_cases B pkt len d
  · rw [hdone] at hw
    exact waitingTx_of_packetDone hw
  · rw [enqueueTxFromInterrupt_unused pkt len hfree] at hw
    by_cases hwr : d.kTransmitWr = d.kTransmitRd
    · have hown := hw.1
      simp only [hwr, Function.update_self] at hown
      exact absurd (hown.symm.trans (own_set _ _ _)) (by decide)
    · simpa only [WaitingTx, Function.update_of_ne hwr] using hw

theorem waitingTx_of_turnRX (hturn : ethernetRXInterruptTurn B h d = some d')
    (hw : WaitingTx B d') : WaitingTx B d := by
  obtain ⟨e, next, -, hd', hring, hwr, -⟩ := ethernetRXInterruptTurn_some hturn
  have he : WaitingTx B e := by
    rcases hd' with rfl | rfl
    · exact waitingTx_of_enqueue hw
    · exact waitingTx_of_packetDone hw
  rw [WaitingTx, hring, hwr] at he
  exact he

/-- The loop of `EthernetRXInterrupt` returns only when no frame waits. -/
theorem not_waitingRx_of_drained (hf : Filled B d)
    (hturn : ethernetRXInterruptTurn B h d = none) : ¬ WaitingRx B d := by
  intro hw
  have haddr := hf d.kReceiveRd (Or.inr hw.2)
  simp [ethernetRXInterruptTurn, hw.1, haddr] at hturn

theorem not_waitingTx_of_drained (hturn : ethernetTXInterruptTurn B d = none) :
    ¬ WaitingTx B d := by
  intro hw
  simp [ethernetTXInterruptTurn, hw.1, hw.2] at hturn

end Rings

/-! ## Nothing waits unless a completion came too late -/

/-- A frame that waits where the handler is past the receive ring waited there before, or has just
come too late. -/
theorem waitingRx_origin {a : IrqAction} (hin : InStep s) (hf : Filled B s.sys.driver)
    (hopen : AnnouncedAtOpening B s) (hstep : irqStep B h s a = some s')
    (hpast : pastReceive s' = true) (hw : WaitingRx B s'.sys.driver) :
    tooLate s a = true ∨ pastReceive s = true ∧ WaitingRx B s.sys.driver := by
  cases a with
  | rxDmaCompletes status data =>
    obtain ⟨sys, -, rfl⟩ := Option.map_eq_some_iff.mp hstep
    exact Or.inl hpast
  | txDmaCompletes status =>
    obtain ⟨sys, hsys, rfl⟩ := Option.map_eq_some_iff.mp hstep
    exact Or.inr ⟨hpast, waitingRx_of_txDma hsys hw⟩
  | txDmaSuspends =>
    obtain ⟨sys, hsys, rfl⟩ := Option.map_eq_some_iff.mp hstep
    exact Or.inr ⟨hpast, (waiting_of_suspends hsys).1 hw⟩
  | otherFlags ais rbus phyLink tbus =>
    obtain rfl := Option.some.inj hstep
    exact Or.inr ⟨hpast, hw⟩
  | enter =>
    simp only [irqStep] at hstep
    split at hstep
    · rename_i hidle
      obtain rfl := Option.some.inj hstep
      -- what waited at the snapshot is in it
      have hrs := ((hopen (by rw [hidle]; rfl)).1 hw).1
      simp [pastReceive, hrs] at hpast
    · cases hstep
  | next =>
    obtain ⟨-, -, -, hlooks⟩ := ethIRQHandlerNext_looks hin hstep
    cases hlooks with
    | receives hturn hnot hsame => exact absurd (hsame.1.symm.trans hpast) (by simp [hnot])
    | drainedRx hturn hsys hnot hsame =>
      rw [hsys] at hw
      exact absurd hw (not_waitingRx_of_drained hf hturn)
    | transmits hturn hnot hsame =>
      exact Or.inr ⟨hsame.1.symm.trans hpast, waitingRx_of_turnTX hturn hw⟩
    | drainedTx hturn hsys hnot hsame => exact Or.inr ⟨hsame.symm.trans hpast, hsys ▸ hw⟩
    | clears hpoint hidle hsys => simp [pastReceive, hidle] at hpast
    | other hpoint hsys hsame => exact Or.inr ⟨hsame.1.symm.trans hpast, hsys ▸ hw⟩

theorem waitingTx_origin {a : IrqAction} (hin : InStep s) (hopen : AnnouncedAtOpening B s)
    (hstep : irqStep B h s a = some s') (hpast : pastTransmit s' = true)
    (hw : WaitingTx B s'.sys.driver) :
    tooLate s a = true ∨ pastTransmit s = true ∧ WaitingTx B s.sys.driver := by
  cases a with
  | rxDmaCompletes status data =>
    obtain ⟨sys, hsys, rfl⟩ := Option.map_eq_some_iff.mp hstep
    exact Or.inr ⟨hpast, waitingTx_of_rxDma hsys hw⟩
  | txDmaCompletes status =>
    obtain ⟨sys, -, rfl⟩ := Option.map_eq_some_iff.mp hstep
    exact Or.inl hpast
  | txDmaSuspends =>
    obtain ⟨sys, hsys, rfl⟩ := Option.map_eq_some_iff.mp hstep
    exact Or.inr ⟨hpast, (waiting_of_suspends hsys).2 hw⟩
  | otherFlags ais rbus phyLink tbus =>
    obtain rfl := Option.some.inj hstep
    exact Or.inr ⟨hpast, hw⟩
  | enter =>
    simp only [irqStep] at hstep
    split at hstep
    · rename_i hidle
      obtain rfl := Option.some.inj hstep
      have hts := ((hopen (by rw [hidle]; rfl)).2 hw).1
      simp [pastTransmit, hts] at hpast
    · cases hstep
  | next =>
    obtain ⟨-, -, -, hlooks⟩ := ethIRQHandlerNext_looks hin hstep
    cases hlooks with
    | receives hturn hnot hsame =>
      exact Or.inr ⟨hsame.2.symm.trans hpast, waitingTx_of_turnRX hturn hw⟩
    | drainedRx hturn hsys hnot hsame => exact Or.inr ⟨hsame.symm.trans hpast, hsys ▸ hw⟩
    | transmits hturn hnot hsame => exact absurd (hsame.2.symm.trans hpast) (by simp [hnot])
    | drainedTx hturn hsys hnot hsame =>
      rw [hsys] at hw
      exact absurd hw (not_waitingTx_of_drained hturn)
    | clears hpoint hidle hsys => simp [pastTransmit, hidle] at hpast
    | other hpoint hsys hsame => exact Or.inr ⟨hsame.2.symm.trans hpast, hsys ▸ hw⟩

/-- What holds along a run as long as the handler clears NIS in time. -/
structure Clean (B : Board) (late : Bool) (s : IrqSystem σ) : Prop where
  inStep : InStep s
  filled : Filled B s.sys.driver
  opening : AnnouncedAtOpening B s
  rx : late = false → pastReceive s = true → ¬ WaitingRx B s.sys.driver
  tx : late = false → pastTransmit s = true → ¬ WaitingTx B s.sys.driver

theorem irqStart_clean (B : Board) (pool : UInt32 → Bytes) (host : σ) (suspended : Bool)
    (dmasr : Dmasr) : Clean B false (irqStart B pool host suspended dmasr) where
  inStep := rfl
  filled := start_filled B pool host suspended
  opening := irqStart_announced B pool host suspended dmasr
  rx := by
    intro _ hpast
    cases hpast
  tx := by
    intro _ hpast
    cases hpast

theorem Clean.quiet {late : Bool} (hc : Clean B late s) (hlate : late = false)
    (hpoint : s.point = .clearNIS) : Quiet B s :=
  ⟨hc.rx hlate (by simp [pastReceive, hpoint]), hc.tx hlate (by simp [pastTransmit, hpoint])⟩

theorem Clean.step {late : Bool} {a : IrqAction} (hc : Clean B late s)
    (hclear : a = .next → s.point = .clearNIS → late = false)
    (hstep : irqStep B h s a = some s') : Clean B (late || tooLate s a) s' where
  inStep := hc.inStep.step hstep
  filled := by
    rcases irqStep_sys hstep with hsame | ⟨b, hb⟩
    · rw [hsame]
      exact hc.filled
    · exact hc.filled.step hb
  opening := hc.opening.step (fun ha hpoint => hc.quiet (hclear ha hpoint) hpoint) hstep
  rx := by
    intro hnot hpast hw
    rw [Bool.or_eq_false_iff] at hnot
    rcases waitingRx_origin hc.inStep hc.filled hc.opening hstep hpast hw with hlate | ⟨hp, hold⟩
    · exact Bool.false_ne_true (hnot.2.symm.trans hlate)
    · exact hc.rx hnot.1 hp hold
  tx := by
    intro hnot hpast hw
    rw [Bool.or_eq_false_iff] at hnot
    rcases waitingTx_origin hc.inStep hc.opening hstep hpast hw with hlate | ⟨hp, hold⟩
    · exact Bool.false_ne_true (hnot.2.symm.trans hlate)
    · exact hc.tx hnot.1 hp hold

theorem InTime.clearsNISQuiet {late : Bool} {as : List IrqAction} (ht : InTime B h late s as)
    (hc : Clean B late s) : ClearsNISQuiet B h s as := by
  induction as generalizing s late with
  | nil => trivial
  | cons a as ih =>
    refine ⟨fun ha hpoint => hc.quiet (ht.1 ha hpoint) hpoint, ?_⟩
    intro s' hstep
    exact ih (ht.2 s' hstep) (hc.step ht.1 hstep)

/-! ## A completion that came too late waits -/

theorem Refines.waitingRx {sys : System σ} {p : Pipeline UInt32 Arrival (List UInt8)} {w v : ℕ}
    (hr : Refines B sys p w v) (hlanded : p.landed ≠ []) : WaitingRx B sys.driver := by
  obtain ⟨x, ls, hcons⟩ := List.exists_cons_of_ne_nil hlanded
  have hhead := (holds_cons.mp (hcons ▸ hr.rx.landeds)).1
  rw [WaitingRx, hr.rx.rd]
  exact ⟨hhead.1, hhead.2.1⟩

theorem Refines.waitingTx {sys : System σ} {p : Pipeline UInt32 Arrival (List UInt8)} {w v : ℕ}
    (hr : Refines B sys p w v) (hdone : p.done ≠ []) : WaitingTx B sys.driver := by
  obtain ⟨b, ds, hcons⟩ := List.exists_cons_of_ne_nil hdone
  have hhead := (holds_cons.mp (hcons ▸ hr.tx.dones)).1
  rw [WaitingTx, hr.tx.wr]
  exact ⟨hhead.1, hhead.2 ▸ hr.done_ne_zero hcons⟩

/-- The state refines a pipeline in which what came too late is still there. -/
def Stranded (B : Board) (late : Bool) (s : IrqSystem σ) : Prop :=
  ∃ p w v, Refines B s.sys p w v ∧ (late = true →
    pastReceive s = true ∧ p.landed ≠ [] ∨ pastTransmit s = true ∧ p.done ≠ [])

theorem Stranded.not_quiet (hs : Stranded B true s) : ¬ Quiet B s := by
  obtain ⟨p, w, v, hr, hlate⟩ := hs
  intro hq
  rcases hlate rfl with ⟨-, hlanded⟩ | ⟨-, hdone⟩
  · exact hq.1 (hr.waitingRx hlanded)
  · exact hq.2 (hr.waitingTx hdone)

theorem Stranded.step {late : Bool} {a : IrqAction} (hs : Stranded B late s) (hin : InStep s)
    (hsafe : a.isRxDma = true → safe B s.sys.driver)
    (hclear : a = .next → s.point = .clearNIS → late = false)
    (hstep : irqStep B h s a = some s') : Stranded B (late || tooLate s a) s' := by
  obtain ⟨p, w, v, hr, hold⟩ := hs
  cases a with
  | rxDmaCompletes status data =>
    obtain ⟨sys, hsys, rfl⟩ := Option.map_eq_some_iff.mp hstep
    obtain ⟨hmay, rfl⟩ := step_rxDmaCompletes hsys
    obtain ⟨q, -, hlanded, hdone, hr'⟩ := hr.land hmay (hsafe rfl)
    refine ⟨q, w, v, hr', fun hlate => ?_⟩
    rcases Bool.or_eq_true_iff.mp hlate with hbefore | hnow
    · rw [hdone]
      exact (hold hbefore).imp (fun hp => ⟨hp.1, hlanded⟩) id
    · exact Or.inl ⟨hnow, hlanded⟩
  | txDmaCompletes status =>
    obtain ⟨sys, hsys, rfl⟩ := Option.map_eq_some_iff.mp hstep
    obtain ⟨hmay, rfl⟩ := step_txDmaCompletes hsys
    obtain ⟨q, -, hlanded, hdone, -, hr'⟩ := hr.send hmay
    refine ⟨q, w, v, hr', fun hlate => ?_⟩
    rcases Bool.or_eq_true_iff.mp hlate with hbefore | hnow
    · rw [hlanded]
      exact (hold hbefore).imp id fun hp => ⟨hp.1, hdone⟩
    · exact Or.inr ⟨hnow, hdone⟩
  | txDmaSuspends =>
    obtain ⟨sys, hsys, rfl⟩ := Option.map_eq_some_iff.mp hstep
    obtain rfl := step_txDmaSuspends hsys
    exact ⟨p, w, v, hr.suspend, fun hlate => hold (by simpa [tooLate] using hlate)⟩
  | otherFlags ais rbus phyLink tbus =>
    obtain rfl := Option.some.inj hstep
    exact ⟨p, w, v, hr, fun hlate => hold (by simpa [tooLate] using hlate)⟩
  | enter =>
    simp only [irqStep] at hstep
    split at hstep
    · rename_i hidle
      obtain rfl := Option.some.inj hstep
      refine ⟨p, w, v, hr, fun hlate => ?_⟩
      -- outside the handler nothing is past
      rcases hold (by simpa [tooLate] using hlate) with ⟨hp, -⟩ | ⟨hp, -⟩
      · simp [pastReceive, hidle] at hp
      · simp [pastTransmit, hidle] at hp
    · cases hstep
  | next =>
    obtain ⟨-, hrxDma, htxDma, hlooks⟩ := ethIRQHandlerNext_looks hin hstep
    have hsys : s'.sys = { s.sys with driver := s'.sys.driver, context := s'.sys.context } := by
      simp only [← hrxDma, ← htxDma]
    have hlate' : (late || tooLate s .next) = true → late = true := by simp [tooLate]
    have hkeep : s'.sys.driver = s.sys.driver → Refines B s'.sys p w v := by
      intro hdriver
      rw [hsys, hdriver]
      exact hr.context _
    cases hlooks with
    | receives hturn hnot hsame =>
      rcases hr.turn_receiving h with hnone | ⟨d, q, w', hsome, -, hdone, -, hr'⟩
      · cases hnone.symm.trans hturn
      · obtain rfl := Option.some.inj (hsome.symm.trans hturn)
        refine ⟨q, w', v, hsys ▸ hr'.context _, fun hlate => ?_⟩
        rcases hold (hlate' hlate) with ⟨hp, -⟩ | ⟨hp, hd⟩
        · exact absurd hp (by simp [hnot])
        · exact Or.inr ⟨hsame.2.trans hp, hdone ▸ hd⟩
    | transmits hturn hnot hsame =>
      rcases hr.turn_transmitting with hnone | ⟨d, q, hsome, -, hlanded, -, hr'⟩
      · cases hnone.symm.trans hturn
      · obtain rfl := Option.some.inj (hsome.symm.trans hturn)
        refine ⟨q, w + 1, v + 1, hsys ▸ hr'.context _, fun hlate => ?_⟩
        rcases hold (hlate' hlate) with ⟨hp, hl⟩ | ⟨hp, -⟩
        · exact Or.inl ⟨hsame.1.trans hp, hlanded ▸ hl⟩
        · exact absurd hp (by simp [hnot])
    | drainedRx hturn hdriver hnot hsame =>
      refine ⟨p, w, v, hkeep hdriver, fun hlate => ?_⟩
      rcases hold (hlate' hlate) with ⟨hp, -⟩ | ⟨hp, hd⟩
      · exact absurd hp (by simp [hnot])
      · exact Or.inr ⟨hsame.trans hp, hd⟩
    | drainedTx hturn hdriver hnot hsame =>
      refine ⟨p, w, v, hkeep hdriver, fun hlate => ?_⟩
      rcases hold (hlate' hlate) with ⟨hp, hl⟩ | ⟨hp, -⟩
      · exact Or.inl ⟨hsame.trans hp, hl⟩
      · exact absurd hp (by simp [hnot])
    | clears hpoint hidle hdriver =>
      refine ⟨p, w, v, hkeep hdriver, fun hlate => ?_⟩
      exact absurd (hlate' hlate) (by simp [hclear rfl hpoint])
    | other hpoint hdriver hsame =>
      refine ⟨p, w, v, hkeep hdriver, fun hlate => ?_⟩
      exact (hold (hlate' hlate)).imp (fun hp => ⟨hsame.1.trans hp.1, hp.2⟩)
        fun hp => ⟨hsame.2.trans hp.1, hp.2⟩

theorem ClearsNISQuiet.inTime {late : Bool} {as : List IrqAction}
    (hq : ClearsNISQuiet B h s as) (hkeeps : RxDmaKeeps B h (safe B) s as)
    (hs : Stranded B late s) (hin : InStep s) : InTime B h late s as := by
  induction as generalizing s late with
  | nil => trivial
  | cons a as ih =>
    have hclear : a = .next → s.point = .clearNIS → late = false := by
      intro ha hpoint
      cases late with
      | false => rfl
      | true => exact absurd (hq.1 ha hpoint) hs.not_quiet
    refine ⟨hclear, ?_⟩
    intro s' hstep
    exact ih (hq.2 s' hstep) (hkeeps.2 s' hstep) (hs.step hin hkeeps.1 hclear hstep)
      (hin.step hstep)

/-- **Interrupts.** In a run from `EthernetInitializeDma` everything that waits is announced whenever
the handler is not running, provided that the handler never clears NIS after a completion that came
too late for it; and with the rings in step with RxDMA this is necessary. -/
theorem nothing_lost_iff_in_time (B : Board) (h : Handler σ) (pool : UInt32 → Bytes) (host : σ)
    (suspended : Bool) (dmasr : Dmasr) (as : List IrqAction) :
    (InTime B h false (irqStart B pool host suspended dmasr) as →
      NothingLost B h (irqStart B pool host suspended dmasr) as) ∧
    (RxDmaKeeps B h (safe B) (irqStart B pool host suspended dmasr) as →
      NothingLost B h (irqStart B pool host suspended dmasr) as →
      InTime B h false (irqStart B pool host suspended dmasr) as) := by
  have hiff := nothingLost_iff_clearsNISQuiet B h pool host suspended dmasr as
  constructor
  · intro ht
    exact hiff.mpr (ht.clearsNISQuiet (irqStart_clean B pool host suspended dmasr))
  · intro hkeeps hn
    refine (hiff.mp hn).inTime hkeeps ⟨_, 0, 0, start_refines pool host suspended, ?_⟩ rfl
    intro hlate
    cases hlate

/-- A second frame while the first is drained, the reply to the first after the handler has returned,
and the handler once more. -/
def frameDuringDrain : List IrqAction :=
  let goodFrame : IrqAction := .rxDmaCompletes 0x00400300 (List.replicate 64 0xAA)
  [goodFrame, .enter] ++ List.replicate 3 .next ++ [goodFrame] ++ List.replicate 8 .next ++
    [.txDmaCompletes 0x70C00000, .enter] ++ List.replicate 10 .next

theorem nothing_lost_during_drain :
    (∃ s, irqRuns ch32v307 scripted frameDuringDrain
      (irqStart ch32v307 (fun _ _ => 0) [true, false] false .clear) = some s ∧ s.point = .idle) ∧
    NothingLost ch32v307 scripted (irqStart ch32v307 (fun _ _ => 0) [true, false] false .clear)
      frameDuringDrain ∧
    InTime ch32v307 scripted false (irqStart ch32v307 (fun _ _ => 0) [true, false] false .clear)
      frameDuringDrain := by
  have hrun : ((irqRuns ch32v307 scripted frameDuringDrain
      (irqStart ch32v307 (fun _ _ => 0) [true, false] false .clear)).any fun s =>
      decide (s.point = .idle)) = true := by
    decide +kernel
  have hkeeps : RxDmaKeeps ch32v307 scripted (safe ch32v307)
      (irqStart ch32v307 (fun _ _ => 0) [true, false] false .clear) frameDuringDrain := by
    decide +kernel
  obtain ⟨hto, hfrom⟩ := nothing_lost_iff_in_time ch32v307 scripted (fun _ _ => 0) [true, false] false
    .clear frameDuringDrain
  have hn := hto (by decide +kernel)
  obtain ⟨s, hs, hidle⟩ := (Option.any_eq_true _ _).mp hrun
  exact ⟨⟨s, hs, of_decide_eq_true hidle⟩, hn, hfrom hkeeps hn⟩

end Wchratum1.Ethernet
