import Wchratum1.Dhcp.Decode
import Wchratum1.Ethernet.InTime
import Wchratum1.Firmware.Link
import Wchratum1.Packet.Serve

/-! # The whole program

`main` boots the generators and the driver and then loops; `ETH_IRQHandler` preempts it. `Program` is what
the two share: the rings, engines and flags of `IrqSystem`, whose handler state is the generators, the link
and DHCP. A step is one of the hardware, one step of the interrupt handler, or one statement of the main
loop, which takes place only while the handler is not running.

An interrupt can come between any two statements of `main`, `ProcessDHCP` and `DHCPSendDiscover`. It does
not come inside `main`'s calls of the generators, which are atomic here. In the source it can fall into
`kInCount += 32` or `kPrngKey[ndx] ^= …` of `CSPrngInjectRandom`, which then overwrite what
`CSPrngInjectLowbits` did.

`EthernetTransmit` has no body but code that is compiled out, so what `main` hands to it goes nowhere.
`Record` is not in the source.
-/

namespace Wchratum1.Firmware
open Ethernet Prng Packet Dhcp
set_option autoImplicit false

/-! ## State -/

/-- The statement of `main` that comes next; three of them are in `DHCPSendDiscover`. -/
inductive MainPoint
  | injectRandom
  | transmitTest
  | processDHCP
  | drawTransactionId
  | transmitDiscover
  | setSentDiscover
  | delay
  deriving DecidableEq

/-- What writes to `dhcp_state` or to the link: a run of `EthernetProcessPHYLinkInterrupt`, and the
assignment at the end of `DHCPSendDiscover`. -/
inductive LinkEvent
  | phy (r : PhyReads)
  | discover
  deriving DecidableEq

structure Record where
  /-- Calls of the generators by `main` and at the end of the handler, oldest first. -/
  calls : List PrngCall
  /-- Packets that `DHCPSendDiscover` handed to `EthernetTransmit`, oldest first. -/
  discovers : List (List UInt8)
  /-- Oldest first. -/
  link : List LinkEvent

structure Program where
  irq : IrqSystem Generators
  /-- The local variable of `ETH_IRQHandler`. -/
  irqTick : UInt32
  /-- `EthernetProcessPHYLinkInterrupt` has returned, and PHYLINK is not yet cleared. -/
  phyProcessed : Bool
  link : Link
  currentTransactionId : UInt32
  main : MainPoint
  record : Record

def Program.generators (s : Program) : Generators := s.irq.sys.driver.host

def Program.call (s : Program) (call : PrngCall) : Program :=
  { s with
    irq := { s.irq with sys := disturb call.run s.irq.sys }
    record := { s.record with calls := s.record.calls ++ [call] } }

/-! ## `main.c` and `dhcp.c` -/

/-- The body of `EthernetTransmit` is compiled out. -/
def ethernetTransmit (_packet : List UInt8) (s : Program) : Program := s

def macAddress (host : Host) : MACAddress := ⟨host.kMACAddress, host.mac_length⟩

/-- `current_transaction_id = RandomUInt32()`. -/
def drawTransactionId (s : Program) : Program :=
  { s.call .randomUInt32 with currentTransactionId := (randomUInt32 s.generators).1 }

/-- `raw_packet` is filled, and handed to `EthernetTransmit`. -/
def transmitDiscover (host : Host) (s : Program) : Option Program :=
  (discoverPacket (macAddress host) s.currentTransactionId).map fun packet =>
    ethernetTransmit packet
      { s with record := { s.record with discovers := s.record.discovers ++ [packet] } }

/-- `dhcp_state = DHCP_STATE_SENT_DISCOVER`. -/
def setSentDiscover (s : Program) : Program :=
  { s with
    link := { s.link with dhcpState := .sentDiscover }
    record := { s.record with link := s.record.link ++ [.discover] } }

/-- What comes after the `switch` of `ProcessDHCP`: `DHCPSendDiscover`, or the end of the turn. -/
def processDHCP (dhcpState : DHCPState) : MainPoint :=
  match dhcpState with
  | .none | .sentDiscover => .drawTransactionId
  | .sentRequest | .ready => .delay

/-- One statement of the loop of `main`. -/
def mainNext (host : Host) (s : Program) : Option Program :=
  match s.main with
  | .injectRandom => some { s.call .csPrngInjectRandom with main := .transmitTest }
  | .transmitTest => some { s with main := .processDHCP }
  | .processDHCP => some { s with main := processDHCP s.link.dhcpState }
  | .drawTransactionId => some { drawTransactionId s with main := .transmitDiscover }
  | .transmitDiscover => (transmitDiscover host s).map fun s => { s with main := .setSentDiscover }
  | .setSentDiscover => some { setSentDiscover s with main := .delay }
  | .delay => some { s with main := .injectRandom }

/-! ## Steps -/

inductive ProgramAction
  | rxDmaCompletes (status : UInt32) (data : List UInt8)
  | txDmaCompletes (status : UInt32)
  | txDmaSuspends
  | otherFlags (ais rbus phyLink tbus : Bool)
  /-- `ETH_IRQHandler` starts, and `SysTickCnt32` returns `irqTick`. -/
  | enter (irqTick : UInt32)
  /-- `EthernetProcessPHYLinkInterrupt`, called by the handler. -/
  | processPHYLink (r : PhyReads)
  /-- Any other step of the handler; its last one is `CSPrngInjectLowbits`. -/
  | next
  | main

def ProgramAction.isRxDma : ProgramAction → Bool
  | .rxDmaCompletes _ _ => true
  | _ => false

/-- The handler is where it calls `EthernetProcessPHYLinkInterrupt`. -/
def Program.atPHYLink (s : Program) : Bool :=
  decide (s.irq.point = .phyLink) && s.irq.status.phyLink && !s.phyProcessed

def programStep (B : Board) (V : PhyBoard) (host : Host) (s : Program) :
    ProgramAction → Option Program
  | .rxDmaCompletes status data =>
    (irqStep B (packetHandler host) s.irq (.rxDmaCompletes status data)).map fun irq => { s with irq }
  | .txDmaCompletes status =>
    (irqStep B (packetHandler host) s.irq (.txDmaCompletes status)).map fun irq => { s with irq }
  | .txDmaSuspends =>
    (irqStep B (packetHandler host) s.irq .txDmaSuspends).map fun irq => { s with irq }
  | .otherFlags ais rbus phyLink tbus =>
    (irqStep B (packetHandler host) s.irq (.otherFlags ais rbus phyLink tbus)).map fun irq =>
      { s with irq }
  | .enter irqTick =>
    (irqStep B (packetHandler host) s.irq .enter).map fun irq => { s with irq, irqTick }
  | .processPHYLink r =>
    if s.atPHYLink then
      some { s with
        link := ethernetProcessPHYLinkInterrupt V r s.link
        phyProcessed := true
        record := { s.record with link := s.record.link ++ [.phy r] } }
    else none
  | .next =>
    if s.atPHYLink then none
    else
      (irqStep B (packetHandler host) s.irq .next).map fun irq =>
        let s' := { s with irq, phyProcessed := false }
        if irq.point = .idle then s'.call (.csPrngInjectLowbits s.irqTick) else s'
  | .main => if s.irq.point = .idle then mainNext host s else none

/-! ## Boot -/

/-- `uBench`: nine words of PCG, and `count` words of the TRNG, which it adds up. -/
def uBenchCalls : List PrngCall :=
  List.replicate 9 .pcgUInt32 ++ List.replicate 4096 .randomUInt32

/-- The calls of `main` after `PrngInit` and before the loop: the boot message, and `uBench`. -/
def bootCalls : List PrngCall := .pcgUInt32 :: uBenchCalls

/-- What the hardware and the memory hold when `main` starts. -/
structure Reset where
  generators : Generators
  pool : UInt32 → Bytes
  suspended : Bool
  dmasr : Dmasr
  maccr : UInt32
  extenCtr : UInt32

@[irreducible] def Reset.booted (r : Reset) : Generators := PrngCall.runs bootCalls (prngInit r.generators)

/-- The loop of `main` begins. `EthernetInitialize` has set EXTEN_ETH_10M_EN and reset the PHY; `maccr` is
what it left in `MACCR`. -/
def boot (B : Board) (V : PhyBoard) (r : Reset) : Program where
  irq := irqStart B r.pool r.booted r.suspended r.dmasr
  irqTick := 0
  phyProcessed := false
  link :=
    { maccr := r.maccr
      extenCtr := r.extenCtr ||| V.extenEth10MEn
      phyLinkReady := false
      dhcpState := .none
      phyWrites := [.reset, .mdixAuto] }
  currentTransactionId := 0
  main := .injectRandom
  record := { calls := [], discovers := [], link := [] }

/-- Take the actions in order; RxDMA completes a descriptor only as the chip does. -/
def programRuns (B : Board) (V : PhyBoard) (host : Host) :
    List ProgramAction → Program → Option Program
  | [], s => some s
  | a :: as, s =>
    if a.isRxDma = true → leavesOne B s.irq.sys.driver then
      (programStep B V host s a).bind (programRuns B V host as)
    else none

theorem programRuns_induction {B : Board} {V : PhyBoard} {host : Host} {P : Program → Prop}
    (hstep : ∀ s s' a, (a.isRxDma = true → leavesOne B s.irq.sys.driver) →
      programStep B V host s a = some s' → P s → P s') {as : List ProgramAction} {s s' : Program}
    (hs : P s) (hrun : programRuns B V host as s = some s') : P s' := by
  induction as generalizing s with
  | nil =>
    obtain rfl := Option.some.inj hrun
    exact hs
  | cons a as ih =>
    rw [programRuns] at hrun
    split at hrun
    · rename_i hallow
      obtain ⟨t, ht, hrest⟩ := Option.bind_eq_some_iff.mp hrun
      exact ih (hstep s t a hallow ht hs) hrest
    · cases hrun

/-! ## What a step does -/

variable {B : Board} {V : PhyBoard} {host : Host} {s s' : Program}

/-- After `EthernetTransmit` was called with the DISCOVER of the current transaction. -/
def Program.handedOver (host : Host) (s : Program) : Program :=
  { s with record := { s.record with
      discovers := s.record.discovers ++ [discoverFrame (macAddress host) s.currentTransactionId] } }

theorem transmitDiscover_eq (host : Host) (s : Program) :
    transmitDiscover host s = some (s.handedOver host) := by
  rw [transmitDiscover, discoverPacket_eq]
  rfl

/-- If no interrupt comes between them, the three statements are `DHCPSendDiscover`. -/
theorem sendDiscover_uninterrupted (host : Host) (s : Program) :
    ∃ t packet, transmitDiscover host (drawTransactionId s) = some t ∧
      t.record.discovers = s.record.discovers ++ [packet] ∧
      dhcpSendDiscover (macAddress host) ⟨s.generators, s.link.dhcpState, s.currentTransactionId⟩ =
        some (packet, ⟨(setSentDiscover t).generators, (setSentDiscover t).link.dhcpState,
          (setSentDiscover t).currentTransactionId⟩) := by
  refine ⟨_, _, transmitDiscover_eq host _, rfl, ?_⟩
  rw [dhcpSendDiscover_eq]
  rfl

/-- What a statement of `main` does. -/
theorem mainNext_cases (hstep : mainNext host s = some s') :
    (∃ m, s.main ≠ .transmitDiscover ∧ m ≠ .transmitDiscover ∧ s' = { s with main := m }) ∨
      s.main = .injectRandom ∧ s' = { s.call .csPrngInjectRandom with main := .transmitTest } ∨
      s.main = .drawTransactionId ∧ s' = { drawTransactionId s with main := .transmitDiscover } ∨
      s.main = .transmitDiscover ∧ s' = { s.handedOver host with main := .setSentDiscover } ∨
      s.main = .setSentDiscover ∧ s' = { setSentDiscover s with main := .delay } := by
  unfold mainNext at hstep
  cases hmain : s.main <;> simp only [hmain] at hstep
  case transmitTest | delay => exact Or.inl ⟨_, by decide, by decide, (Option.some.inj hstep).symm⟩
  case processDHCP =>
    refine Or.inl ⟨_, by decide, ?_, (Option.some.inj hstep).symm⟩
    cases s.link.dhcpState <;> decide
  case injectRandom => exact Or.inr (Or.inl ⟨rfl, (Option.some.inj hstep).symm⟩)
  case drawTransactionId => exact Or.inr (Or.inr (Or.inl ⟨rfl, (Option.some.inj hstep).symm⟩))
  case transmitDiscover =>
    rw [transmitDiscover_eq] at hstep
    exact Or.inr (Or.inr (Or.inr (Or.inl ⟨rfl, (Option.some.inj hstep).symm⟩)))
  case setSentDiscover =>
    exact Or.inr (Or.inr (Or.inr (Or.inr ⟨rfl, (Option.some.inj hstep).symm⟩)))

/-- After a step of the handler other than `EthernetProcessPHYLinkInterrupt`. -/
def Program.handled (irq : IrqSystem Generators) (s : Program) : Program :=
  let s' := { s with irq, phyProcessed := false }
  if irq.point = .idle then s'.call (.csPrngInjectLowbits s.irqTick) else s'

def Program.linkProcessed (V : PhyBoard) (r : PhyReads) (s : Program) : Program :=
  { s with
    link := ethernetProcessPHYLinkInterrupt V r s.link
    phyProcessed := true
    record := { s.record with link := s.record.link ++ [.phy r] } }

/-- What a step of the program does. -/
theorem programStep_cases {a : ProgramAction} (hstep : programStep B V host s a = some s') :
    (∃ b irq irqTick, (b.isRxDma = true → a.isRxDma = true) ∧
        irqStep B (packetHandler host) s.irq b = some irq ∧ s' = { s with irq, irqTick }) ∨
      (∃ r, s.atPHYLink = true ∧ s' = s.linkProcessed V r) ∨
      (∃ irq, s.atPHYLink = false ∧ irqStep B (packetHandler host) s.irq .next = some irq ∧
        s' = s.handled irq) ∨
      s.irq.point = .idle ∧ mainNext host s = some s' := by
  unfold programStep at hstep
  cases a with
  | rxDmaCompletes status data =>
    obtain ⟨irq, hirq, rfl⟩ := Option.map_eq_some_iff.mp hstep
    exact Or.inl ⟨_, irq, s.irqTick, fun _ => rfl, hirq, rfl⟩
  | txDmaCompletes status =>
    obtain ⟨irq, hirq, rfl⟩ := Option.map_eq_some_iff.mp hstep
    exact Or.inl ⟨_, irq, s.irqTick, Bool.noConfusion, hirq, rfl⟩
  | txDmaSuspends =>
    obtain ⟨irq, hirq, rfl⟩ := Option.map_eq_some_iff.mp hstep
    exact Or.inl ⟨_, irq, s.irqTick, Bool.noConfusion, hirq, rfl⟩
  | otherFlags ais rbus phyLink tbus =>
    obtain ⟨irq, hirq, rfl⟩ := Option.map_eq_some_iff.mp hstep
    exact Or.inl ⟨_, irq, s.irqTick, Bool.noConfusion, hirq, rfl⟩
  | enter irqTick =>
    obtain ⟨irq, hirq, rfl⟩ := Option.map_eq_some_iff.mp hstep
    exact Or.inl ⟨_, irq, irqTick, Bool.noConfusion, hirq, rfl⟩
  | processPHYLink r =>
    dsimp only at hstep
    split at hstep
    · rename_i hat
      exact Or.inr (Or.inl ⟨r, hat, (Option.some.inj hstep).symm⟩)
    · cases hstep
  | next =>
    dsimp only at hstep
    split at hstep
    · cases hstep
    · rename_i hat
      obtain ⟨irq, hirq, rfl⟩ := Option.map_eq_some_iff.mp hstep
      exact Or.inr (Or.inr (Or.inl ⟨irq, Bool.not_eq_true _ ▸ hat, hirq, rfl⟩))
  | main =>
    dsimp only at hstep
    split at hstep
    · rename_i hidle
      exact Or.inr (Or.inr (Or.inr ⟨hidle, hstep⟩))
    · cases hstep

end Wchratum1.Firmware
