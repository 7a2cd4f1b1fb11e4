import Wchratum1.Ethernet.Fifo

/-! # `ETH_IRQHandler` and the sticky flags of `DMASR`

`ETH_IRQHandler` takes a snapshot of `DMASR`, drains the receive ring, clears R, drains the transmit
ring, clears T, and at the end clears NIS. Each of these is a step here, and so is each turn of a drain
loop; the DMA engines may complete descriptors between any two steps. `DMASR` is sticky: a completion
sets its flag and NIS, and only `ETH_DMAClearITPendingBit` resets one. Which flags are enabled as
interrupts does not matter: the handler may be entered at any time.

Acknowledging after draining loses interrupts (`completion_between_drain_and_clear_is_lost`). What is
lost is decided by the state in which NIS is cleared: a run loses nothing exactly when at each of these
steps nothing waits (`nothingLost_iff_clearsNISQuiet`).
-/

namespace Wchratum1.Ethernet
set_option autoImplicit false

variable {σ : Type}

/-- The flags of `ETH->DMASR` that the handler looks at. -/
structure Dmasr where
  ais : Bool
  nis : Bool
  rbus : Bool
  rs : Bool
  ts : Bool
  phyLink : Bool
  tbus : Bool
  deriving DecidableEq

/-- Where `ETH_IRQHandler` is; `idle` when it is not running. -/
inductive IrqPoint
  | idle
  | clearRBU
  | clearAIS
  | normal
  | receive
  | clearR
  | testTS
  | transmit
  | clearT
  | phyLink
  | clearTBU
  | clearNIS
  deriving DecidableEq

structure IrqSystem (σ : Type) where
  sys : System σ
  dmasr : Dmasr
  status : Dmasr
  point : IrqPoint

def Dmasr.clear : Dmasr := ⟨false, false, false, false, false, false, false⟩

inductive IrqAction
  | rxDmaCompletes (status : UInt32) (data : List UInt8)
  | txDmaCompletes (status : UInt32)
  | txDmaSuspends
  /-- The other flags are raised by conditions that the rings do not show. -/
  | otherFlags (ais rbus phyLink tbus : Bool)
  | enter
  | next
  deriving DecidableEq

def ethIRQHandlerNext (B : Board) (h : Handler σ) (s : IrqSystem σ) : Option (IrqSystem σ) :=
  match s.point with
  | .idle => none
  | .clearRBU =>
    if s.status.ais && s.status.rbus then
      some { s with dmasr := { s.dmasr with rbus := false }, point := .clearAIS }
    else some { s with point := .clearAIS }
  | .clearAIS =>
    if s.status.ais then
      some { s with dmasr := { s.dmasr with ais := false }, point := .normal }
    else some { s with point := .normal }
  | .normal =>
    if s.status.nis then
      if s.status.rs then
        (step B h s.sys .callRX).map fun sys => { s with sys := sys, point := .receive }
      else some { s with point := .testTS }
    else some { s with point := .idle }
  | .receive =>
    (step B h s.sys .turn).map fun sys =>
      { s with sys := sys, point := if sys.context = .idle then .clearR else .receive }
  | .clearR => some { s with dmasr := { s.dmasr with rs := false }, point := .testTS }
  | .testTS =>
    if s.status.ts then
      (step B h s.sys .callTX).map fun sys => { s with sys := sys, point := .transmit }
    else some { s with point := .phyLink }
  | .transmit =>
    (step B h s.sys .turn).map fun sys =>
      { s with sys := sys, point := if sys.context = .idle then .clearT else .transmit }
  | .clearT => some { s with dmasr := { s.dmasr with ts := false }, point := .phyLink }
  | .phyLink =>
    -- EthernetProcessPHYLinkInterrupt() only talks to the PHY
    if s.status.phyLink then
      some { s with dmasr := { s.dmasr with phyLink := false }, point := .clearTBU }
    else some { s with point := .clearTBU }
  | .clearTBU =>
    if s.status.tbus then
      some { s with dmasr := { s.dmasr with tbus := false }, point := .clearNIS }
    else some { s with point := .clearNIS }
  | .clearNIS => some { s with dmasr := { s.dmasr with nis := false }, point := .idle }

def irqStep (B : Board) (h : Handler σ) (s : IrqSystem σ) : IrqAction → Option (IrqSystem σ)
  | .rxDmaCompletes status data =>
    (step B h s.sys (.rxDmaCompletes status data)).map fun sys =>
      { s with sys := sys, dmasr := { s.dmasr with rs := true, nis := true } }
  | .txDmaCompletes status =>
    (step B h s.sys (.txDmaCompletes status)).map fun sys =>
      { s with sys := sys, dmasr := { s.dmasr with ts := true, nis := true } }
  | .txDmaSuspends => (step B h s.sys .txDmaSuspends).map fun sys => { s with sys := sys }
  | .otherFlags ais rbus phyLink tbus =>
    some { s with dmasr := { s.dmasr with
      ais := s.dmasr.ais || ais
      rbus := s.dmasr.rbus || rbus
      phyLink := s.dmasr.phyLink || phyLink
      tbus := s.dmasr.tbus || tbus } }
  | .enter =>
    if s.point = .idle then some { s with status := s.dmasr, point := .clearRBU } else none
  | .next => ethIRQHandlerNext B h s

/-- After `EthernetInitializeDma`, with any flags. -/
def irqStart (B : Board) (pool : UInt32 → Bytes) (host : σ) (suspended : Bool) (dmasr : Dmasr) :
    IrqSystem σ where
  sys := start B pool host suspended
  dmasr := dmasr
  status := dmasr
  point := .idle

/-! ## What waits for the handler -/

/-- The descriptor at `kReceiveRd` holds a completed frame that was not dispatched. -/
def WaitingRx (B : Board) (d : Driver σ) : Prop :=
  B.own (d.kReceiveRing d.kReceiveRd) = false ∧ d.history.undispatched d.kReceiveRd = true

/-- The descriptor at `kTransmitWr` is completed and not reaped. -/
def WaitingTx (B : Board) (d : Driver σ) : Prop :=
  B.own (d.kTransmitRing d.kTransmitWr) = false ∧
    (d.kTransmitRing d.kTransmitWr).buffer1Addr ≠ 0

instance (B : Board) (d : Driver σ) : Decidable (WaitingRx B d) :=
  inferInstanceAs (Decidable (_ ∧ _))

instance (B : Board) (d : Driver σ) : Decidable (WaitingTx B d) :=
  inferInstanceAs (Decidable (_ ∧ _))

def Announced (B : Board) (s : IrqSystem σ) : Prop :=
  (WaitingRx B s.sys.driver → s.dmasr.rs = true ∧ s.dmasr.nis = true) ∧
    (WaitingTx B s.sys.driver → s.dmasr.ts = true ∧ s.dmasr.nis = true)

def Quiet (B : Board) (s : IrqSystem σ) : Prop :=
  ¬ WaitingRx B s.sys.driver ∧ ¬ WaitingTx B s.sys.driver

/-- Along the run `as` from `s`, what waits is announced whenever the handler is not running. -/
def NothingLost (B : Board) (h : Handler σ) : IrqSystem σ → List IrqAction → Prop
  | s, [] => s.point = .idle → Announced B s
  | s, a :: as => (s.point = .idle → Announced B s) ∧
      ∀ s', irqStep B h s a = some s' → NothingLost B h s' as

/-- Along the run `as` from `s`, nothing waits whenever the handler clears NIS. -/
def ClearsNISQuiet (B : Board) (h : Handler σ) : IrqSystem σ → List IrqAction → Prop
  | _, [] => True
  | s, a :: as => (a = .next → s.point = .clearNIS → Quiet B s) ∧
      ∀ s', irqStep B h s a = some s' → ClearsNISQuiet B h s' as

/-! ## Steps -/

variable {B : Board} {h : Handler σ} {s s' : IrqSystem σ}

theorem ethIRQHandlerNext_sys (hnext : ethIRQHandlerNext B h s = some s') :
    s'.sys = s.sys ∨ ∃ a, step B h s.sys a = some s'.sys := by
  have hmap : ∀ {a : Action} {f : System σ → IrqSystem σ}, (∀ sys, (f sys).sys = sys) →
      (step B h s.sys a).map f = some s' → ∃ a, step B h s.sys a = some s'.sys := by
    intro a f hf ha
    obtain ⟨sys, hsys, rfl⟩ := Option.map_eq_some_iff.mp ha
    exact ⟨a, by rw [hf]; exact hsys⟩
  have hsome : ∀ {t : IrqSystem σ}, some t = some s' → t.sys = s.sys → s'.sys = s.sys := by
    intro t hs ht
    rw [← Option.some.inj hs]
    exact ht
  unfold ethIRQHandlerNext at hnext
  cases hpoint : s.point <;> simp only [hpoint] at hnext
  case idle => cases hnext
  case receive => exact Or.inr (hmap (fun _ => rfl) hnext)
  case transmit => exact Or.inr (hmap (fun _ => rfl) hnext)
  case normal =>
    split at hnext
    · split at hnext
      · exact Or.inr (hmap (fun _ => rfl) hnext)
      · exact Or.inl (hsome hnext rfl)
    · exact Or.inl (hsome hnext rfl)
  case testTS =>
    split at hnext
    · exact Or.inr (hmap (fun _ => rfl) hnext)
    · exact Or.inl (hsome hnext rfl)
  case clearR | clearT | clearNIS => exact Or.inl (hsome hnext rfl)
  case clearRBU | clearAIS | phyLink | clearTBU =>
    split at hnext
    · exact Or.inl (hsome hnext rfl)
    · exact Or.inl (hsome hnext rfl)

theorem irqStep_sys {a : IrqAction} (hstep : irqStep B h s a = some s') :
    s'.sys = s.sys ∨ ∃ b, step B h s.sys b = some s'.sys := by
  unfold irqStep at hstep
  cases a with
  | rxDmaCompletes status data =>
    obtain ⟨sys, hsys, rfl⟩ := Option.map_eq_some_iff.mp hstep
    exact Or.inr ⟨_, hsys⟩
  | txDmaCompletes status =>
    obtain ⟨sys, hsys, rfl⟩ := Option.map_eq_some_iff.mp hstep
    exact Or.inr ⟨_, hsys⟩
  | txDmaSuspends =>
    obtain ⟨sys, hsys, rfl⟩ := Option.map_eq_some_iff.mp hstep
    exact Or.inr ⟨_, hsys⟩
  | otherFlags ais rbus phyLink tbus =>
    rw [← Option.some.inj hstep]
    exact Or.inl rfl
  | enter =>
    by_cases hidle : s.point = .idle
    · simp only [hidle, if_true, Option.some.injEq] at hstep
      rw [← hstep]
      exact Or.inl rfl
    · simp [hidle] at hstep
  | next => exact ethIRQHandlerNext_sys hstep

def IrqPoint.opening : IrqPoint → Bool
  | .idle | .clearRBU | .clearAIS | .normal => true
  | _ => false

/-- The handler comes to an opening point from one, without touching rings, R, T or NIS, or from the
acknowledgement of NIS. -/
theorem ethIRQHandlerNext_opening (hnext : ethIRQHandlerNext B h s = some s')
    (hopen : s'.point.opening = true) :
    s.point = .clearNIS ∧ s'.sys = s.sys ∨
      s.point.opening = true ∧ s'.sys = s.sys ∧ s'.dmasr.rs = s.dmasr.rs ∧
        s'.dmasr.ts = s.dmasr.ts ∧ s'.dmasr.nis = s.dmasr.nis := by
  unfold ethIRQHandlerNext at hnext
  cases hpoint : s.point <;> simp only [hpoint] at hnext
  case idle => cases hnext
  case clearNIS =>
    rw [← Option.some.inj hnext]
    exact Or.inl ⟨rfl, rfl⟩
  case clearRBU | clearAIS =>
    split at hnext <;> rw [← Option.some.inj hnext] <;> exact Or.inr ⟨rfl, rfl, rfl, rfl, rfl⟩
  case normal =>
    split at hnext
    · split at hnext
      · obtain ⟨sys, -, rfl⟩ := Option.map_eq_some_iff.mp hnext
        cases hopen
      · rw [← Option.some.inj hnext] at hopen
        cases hopen
    · rw [← Option.some.inj hnext]
      exact Or.inr ⟨rfl, rfl, rfl, rfl, rfl⟩
  case receive | transmit =>
    obtain ⟨sys, -, rfl⟩ := Option.map_eq_some_iff.mp hnext
    dsimp only at hopen
    split at hopen <;> cases hopen
  case testTS =>
    split at hnext
    · obtain ⟨sys, -, rfl⟩ := Option.map_eq_some_iff.mp hnext
      cases hopen
    · rw [← Option.some.inj hnext] at hopen
      cases hopen
  case clearR | clearT =>
    rw [← Option.some.inj hnext] at hopen
    cases hopen
  case phyLink | clearTBU =>
    split at hnext <;> rw [← Option.some.inj hnext] at hopen <;> cases hopen

/-! ## The invariant -/

theorem Quiet.announced (hq : Quiet B s) : Announced B s :=
  ⟨fun hrx => absurd hrx hq.1, fun htx => absurd htx hq.2⟩

theorem Announced.congr (ha : Announced B s) (hsys : s'.sys = s.sys)
    (hrs : s'.dmasr.rs = s.dmasr.rs) (hts : s'.dmasr.ts = s.dmasr.ts)
    (hnis : s'.dmasr.nis = s.dmasr.nis) : Announced B s' := by
  unfold Announced
  rw [hsys, hrs, hts, hnis]
  exact ha

theorem waitingTx_of_rxDma {sys sys' : System σ} {status : UInt32} {data : List UInt8}
    (hstep : step B h sys (.rxDmaCompletes status data) = some sys')
    (hw : WaitingTx B sys'.driver) : WaitingTx B sys.driver := by
  obtain ⟨-, rfl⟩ := step_rxDmaCompletes hstep
  exact hw

theorem waitingRx_of_txDma {sys sys' : System σ} {status : UInt32}
    (hstep : step B h sys (.txDmaCompletes status) = some sys')
    (hw : WaitingRx B sys'.driver) : WaitingRx B sys.driver := by
  obtain ⟨-, rfl⟩ := step_txDmaCompletes hstep
  exact hw

theorem waiting_of_suspends {sys sys' : System σ}
    (hstep : step B h sys .txDmaSuspends = some sys') :
    (WaitingRx B sys'.driver → WaitingRx B sys.driver) ∧
      (WaitingTx B sys'.driver → WaitingTx B sys.driver) := by
  obtain rfl := step_txDmaSuspends hstep
  exact ⟨id, id⟩

/-- As long as the handler has not started to drain, what waits is announced. -/
def AnnouncedAtOpening (B : Board) (s : IrqSystem σ) : Prop :=
  s.point.opening = true → Announced B s

theorem irqStart_announced (B : Board) (pool : UInt32 → Bytes) (host : σ) (suspended : Bool)
    (dmasr : Dmasr) : AnnouncedAtOpening B (irqStart B pool host suspended dmasr) := by
  intro _
  constructor
  · intro hrx
    cases hrx.2
  · intro htx
    exact absurd rfl htx.2

theorem AnnouncedAtOpening.step {a : IrqAction} (ha : AnnouncedAtOpening B s)
    (hquiet : a = .next → s.point = .clearNIS → Quiet B s)
    (hstep : irqStep B h s a = some s') : AnnouncedAtOpening B s' := by
  intro hopen
  unfold irqStep at hstep
  cases a with
  | rxDmaCompletes status data =>
    obtain ⟨sys, hsys, rfl⟩ := Option.map_eq_some_iff.mp hstep
    exact ⟨fun _ => ⟨rfl, rfl⟩, fun htx =>
      ⟨((ha hopen).2 (waitingTx_of_rxDma hsys htx)).1, rfl⟩⟩
  | txDmaCompletes status =>
    obtain ⟨sys, hsys, rfl⟩ := Option.map_eq_some_iff.mp hstep
    exact ⟨fun hrx => ⟨((ha hopen).1 (waitingRx_of_txDma hsys hrx)).1, rfl⟩,
      fun _ => ⟨rfl, rfl⟩⟩
  | txDmaSuspends =>
    obtain ⟨sys, hsys, rfl⟩ := Option.map_eq_some_iff.mp hstep
    obtain ⟨hrx, htx⟩ := waiting_of_suspends hsys
    exact ⟨fun hw => (ha hopen).1 (hrx hw), fun hw => (ha hopen).2 (htx hw)⟩
  | otherFlags ais rbus phyLink tbus =>
    obtain rfl := Option.some.inj hstep
    exact (ha hopen).congr rfl rfl rfl rfl
  | enter =>
    by_cases hidle : s.point = .idle
    · simp only [hidle, if_true, Option.some.injEq] at hstep
      subst hstep
      exact (ha (by rw [hidle]; rfl)).congr rfl rfl rfl rfl
    · simp [hidle] at hstep
  | next =>
    rcases ethIRQHandlerNext_opening hstep hopen with ⟨hclear, hsys⟩ | ⟨hfrom, hsys, hrs, hts, hnis⟩
    · have hq := hquiet rfl hclear
      exact Quiet.announced (by unfold Quiet; rw [hsys]; exact hq)
    · exact (ha hfrom).congr hsys hrs hts hnis

/-! ## Runs -/

theorem AnnouncedAtOpening.nothingLost {as : List IrqAction} (ha : AnnouncedAtOpening B s)
    (hquiet : ClearsNISQuiet B h s as) : NothingLost B h s as := by
  induction as generalizing s with
  | nil => exact fun hidle => ha (by rw [hidle]; rfl)
  | cons a as ih =>
    refine ⟨fun hidle => ha (by rw [hidle]; rfl), ?_⟩
    intro s' hstep
    exact ih (ha.step hquiet.1 hstep) (hquiet.2 s' hstep)

theorem NothingLost.head {as : List IrqAction} (hn : NothingLost B h s as)
    (hidle : s.point = .idle) : Announced B s := by
  cases as with
  | nil => exact hn hidle
  | cons a as => exact hn.1 hidle

theorem NothingLost.clearsNISQuiet {as : List IrqAction} (hn : NothingLost B h s as) :
    ClearsNISQuiet B h s as := by
  induction as generalizing s with
  | nil => trivial
  | cons a as ih =>
    refine ⟨?_, fun s' hstep => ih (hn.2 s' hstep)⟩
    intro hnext hpoint
    have hstep : irqStep B h s a =
        some { s with dmasr := { s.dmasr with nis := false }, point := .idle } := by
      rw [hnext]
      simp only [irqStep, ethIRQHandlerNext, hpoint]
    have hafter := (hn.2 _ hstep).head rfl
    constructor
    · intro hrx
      cases (hafter.1 hrx).2
    · intro htx
      cases (hafter.2 htx).2

/-- A run from `EthernetInitializeDma` has everything that waits announced whenever the handler is not
running if and only if nothing waits each time the handler clears NIS. -/
theorem nothingLost_iff_clearsNISQuiet (B : Board) (h : Handler σ) (pool : UInt32 → Bytes) (host : σ)
    (suspended : Bool) (dmasr : Dmasr) (as : List IrqAction) :
    NothingLost B h (irqStart B pool host suspended dmasr) as ↔
      ClearsNISQuiet B h (irqStart B pool host suspended dmasr) as :=
  ⟨NothingLost.clearsNISQuiet, (irqStart_announced B pool host suspended dmasr).nothingLost⟩

def irqRuns (B : Board) (h : Handler σ) : List IrqAction → IrqSystem σ → Option (IrqSystem σ)
  | [], s => some s
  | a :: as, s => (irqStep B h s a).bind (irqRuns B h as)

theorem NothingLost.last {as : List IrqAction} (hn : NothingLost B h s as)
    (hrun : irqRuns B h as s = some s') (hidle : s'.point = .idle) : Announced B s' := by
  induction as generalizing s with
  | nil =>
    obtain rfl := Option.some.inj hrun
    exact hn hidle
  | cons a as ih =>
    obtain ⟨t, ht, hrest⟩ := Option.bind_eq_some_iff.mp hrun
    exact ih (hn.2 t ht) hrest

/-- RxDMA receives a 60-byte frame and raises R; a second one arrives after the drain loop of
`EthernetRXInterrupt` has returned and before R is cleared. -/
def frameBeforeClearR : List IrqAction :=
  let goodFrame : IrqAction := .rxDmaCompletes 0x00400300 (List.replicate 64 0xAA)
  [goodFrame, .enter] ++ List.replicate 5 .next ++ [goodFrame] ++ List.replicate 5 .next

theorem completion_between_drain_and_clear_is_lost :
    (∃ s, irqRuns ch32v307 scripted frameBeforeClearR
      (irqStart ch32v307 (fun _ _ => 0) [] false .clear) = some s ∧
      s.point = .idle ∧ WaitingRx ch32v307 s.sys.driver ∧ s.dmasr.rs = false ∧
      s.dmasr.nis = false) ∧
    ¬ NothingLost ch32v307 scripted (irqStart ch32v307 (fun _ _ => 0) [] false .clear)
      frameBeforeClearR := by
  have hrun : ((irqRuns ch32v307 scripted frameBeforeClearR
      (irqStart ch32v307 (fun _ _ => 0) [] false .clear)).any fun s =>
      decide (s.point = .idle) && decide (WaitingRx ch32v307 s.sys.driver) && !s.dmasr.rs &&
        !s.dmasr.nis) = true := by
    decide +kernel
  obtain ⟨s, hs, hbad⟩ := (Option.any_eq_true _ _).mp hrun
  simp only [Bool.and_eq_true, decide_eq_true_eq, Bool.not_eq_true'] at hbad
  obtain ⟨⟨⟨hidle, hwait⟩, hrs⟩, hnis⟩ := hbad
  refine ⟨⟨s, hs, hidle, hwait, hrs, hnis⟩, ?_⟩
  intro hn
  have := ((hn.last hs hidle).1 hwait).1
  rw [hrs] at this
  cases this

end Wchratum1.Ethernet
