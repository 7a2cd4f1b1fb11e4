import Wchratum1.Ethernet.Driver
import Mathlib.Logic.Relation
import Mathlib.Data.Finset.Card

/-! # Runs of the driver against the two DMA engines

A `System` is the driver's memory, the in-order pointers of RxDMA and TxDMA, and whether one of the
two interrupt loops is running. `step` takes one `Action`: a completion by one of the engines, a call
of a handler, or one turn of the loop that is running. DMA actions are enabled between any two turns.

* RxDMA writes a prefix of the buffer (at most the programmed 1518 bytes) and any status word with
  OWN clear. Which of its OWN descriptors it may complete is the parameter `allow` of `Step`:
  `leavesOne` is the documented behaviour of the chip, `always` drops it.
* TxDMA sends what the size field and `Buffer1Addr` say at the moment of completion, clears OWN and
  keeps the control bits; the rest of the status word is its own.
-/

namespace Wchratum1.Ethernet
set_option autoImplicit false

variable {σ : Type}

inductive Context
  | idle
  | receiving
  | transmitting
  deriving DecidableEq

structure System (σ : Type) where
  driver : Driver σ
  rxDma : Fin packetRingLen
  txDma : Fin packetRingLen
  context : Context

inductive Action
  | rxDmaCompletes (status : UInt32) (data : List UInt8)
  | txDmaCompletes (status : UInt32)
  | txDmaSuspends
  | callRX
  | callTX
  | turn
  deriving DecidableEq

def Board.txControl (B : Board) : UInt32 :=
  B.ethDMATxDescCICTCPUDPICMPFull ||| B.ethDMATxDescFS ||| B.ethDMATxDescLS |||
    B.ethDMATxDescIC ||| B.ethDMATxDescTER

/-- The bytes that TxDMA takes from memory for a descriptor. -/
def wireBytes (B : Board) (d : Driver σ) (dma : EthDMADesc) : List UInt8 :=
  Bytes.firstBytes (dma.controlBufferSize &&& B.ethDMATxDescTBS1).toNat
    (d.kPacketPool dma.buffer1Addr)

def rxDmaRelease (i : Fin packetRingLen) (status : UInt32) (data : List UInt8) (d : Driver σ) :
    Driver σ :=
  let dma := d.kReceiveRing i
  let frame := Bytes.overlay data (d.kPacketPool dma.buffer1Addr)
  { d with
    kPacketPool := Function.update d.kPacketPool dma.buffer1Addr frame
    kReceiveRing := Function.update d.kReceiveRing i { dma with status := status }
    history := { d.history with
      arrived := d.history.arrived ++
        [{ status, data, frame, wrote := Bytes.firstBytes_overlay data _ }]
      undispatched := Function.update d.history.undispatched i true } }

def txDmaRelease (B : Board) (i : Fin packetRingLen) (status : UInt32) (d : Driver σ) : Driver σ :=
  let dma := d.kTransmitRing i
  { d with
    kTransmitRing := Function.update d.kTransmitRing i { dma with status := status }
    history := { d.history with sent := d.history.sent ++ [wireBytes B d dma] } }

def rxDmaMay (B : Board) (s : System σ) (status : UInt32) (data : List UInt8) : Bool :=
  B.own (s.driver.kReceiveRing s.rxDma) && (status &&& B.ethDMARxDescOWN == 0) &&
    decide (data.length ≤ etherMaxLen)

def txDmaMay (B : Board) (s : System σ) (status : UInt32) : Bool :=
  B.own (s.driver.kTransmitRing s.txDma) && (status &&& B.ethDMATxDescOWN == 0) &&
    (status &&& B.txControl == (s.driver.kTransmitRing s.txDma).status &&& B.txControl)

def step (B : Board) (h : Handler σ) (s : System σ) : Action → Option (System σ)
  | .rxDmaCompletes status data =>
    if rxDmaMay B s status data then
      some { s with
        driver := rxDmaRelease s.rxDma status data s.driver
        rxDma := packetRingInc s.rxDma }
    else none
  | .txDmaCompletes status =>
    if txDmaMay B s status then
      some { s with
        driver := txDmaRelease B s.txDma status s.driver
        txDma := packetRingInc s.txDma }
    else none
  | .txDmaSuspends =>
    if B.own (s.driver.kTransmitRing s.txDma) then none
    else some { s with driver := { s.driver with isTxDmaSuspended := true } }
  | .callRX => if s.context = .idle then some { s with context := .receiving } else none
  | .callTX => if s.context = .idle then some { s with context := .transmitting } else none
  | .turn =>
    match s.context with
    | .idle => none
    | .receiving =>
      match ethernetRXInterruptTurn B h s.driver with
      | none => some { s with context := .idle }
      | some d => some { s with driver := d }
    | .transmitting =>
      match ethernetTXInterruptTurn B s.driver with
      | none => some { s with context := .idle }
      | some d => some { s with driver := d }

theorem step_rxDmaCompletes {B : Board} {h : Handler σ} {s s' : System σ} {status : UInt32}
    {data : List UInt8} (hstep : step B h s (.rxDmaCompletes status data) = some s') :
    rxDmaMay B s status data = true ∧ s' = { s with
      driver := rxDmaRelease s.rxDma status data s.driver
      rxDma := packetRingInc s.rxDma } := by
  simp only [step] at hstep
  split at hstep
  · rename_i hmay
    exact ⟨hmay, (Option.some.inj hstep).symm⟩
  · cases hstep

theorem step_txDmaCompletes {B : Board} {h : Handler σ} {s s' : System σ} {status : UInt32}
    (hstep : step B h s (.txDmaCompletes status) = some s') :
    txDmaMay B s status = true ∧ s' = { s with
      driver := txDmaRelease B s.txDma status s.driver
      txDma := packetRingInc s.txDma } := by
  simp only [step] at hstep
  split at hstep
  · rename_i hmay
    exact ⟨hmay, (Option.some.inj hstep).symm⟩
  · cases hstep

theorem step_txDmaSuspends {B : Board} {h : Handler σ} {s s' : System σ}
    (hstep : step B h s .txDmaSuspends = some s') :
    s' = { s with driver := { s.driver with isTxDmaSuspended := true } } := by
  simp only [step] at hstep
  split at hstep
  · cases hstep
  · exact (Option.some.inj hstep).symm

theorem step_callRX {B : Board} {h : Handler σ} {s s' : System σ}
    (hstep : step B h s .callRX = some s') : s' = { s with context := .receiving } := by
  simp only [step] at hstep
  split at hstep
  · exact (Option.some.inj hstep).symm
  · cases hstep

theorem step_callTX {B : Board} {h : Handler σ} {s s' : System σ}
    (hstep : step B h s .callTX = some s') : s' = { s with context := .transmitting } := by
  simp only [step] at hstep
  split at hstep
  · exact (Option.some.inj hstep).symm
  · cases hstep

/-- A turn of the loop that is running, which returns or changes the driver. -/
theorem step_turn {B : Board} {h : Handler σ} {s s' : System σ}
    (hstep : step B h s .turn = some s') :
    (s.context = .receiving ∧
      (ethernetRXInterruptTurn B h s.driver = none ∧ s' = { s with context := .idle } ∨
        ∃ d, ethernetRXInterruptTurn B h s.driver = some d ∧ s' = { s with driver := d })) ∨
    (s.context = .transmitting ∧
      (ethernetTXInterruptTurn B s.driver = none ∧ s' = { s with context := .idle } ∨
        ∃ d, ethernetTXInterruptTurn B s.driver = some d ∧ s' = { s with driver := d })) := by
  simp only [step] at hstep
  cases hctx : s.context with
  | idle =>
    rw [hctx] at hstep
    cases hstep
  | receiving =>
    refine Or.inl ⟨rfl, ?_⟩
    rw [hctx] at hstep
    cases hturn : ethernetRXInterruptTurn B h s.driver with
    | none =>
      rw [hturn] at hstep
      exact Or.inl ⟨rfl, (Option.some.inj hstep).symm⟩
    | some d =>
      rw [hturn] at hstep
      exact Or.inr ⟨d, rfl, (Option.some.inj hstep).symm⟩
  | transmitting =>
    refine Or.inr ⟨rfl, ?_⟩
    rw [hctx] at hstep
    cases hturn : ethernetTXInterruptTurn B s.driver with
    | none =>
      rw [hturn] at hstep
      exact Or.inl ⟨rfl, (Option.some.inj hstep).symm⟩
    | some d =>
      rw [hturn] at hstep
      exact Or.inr ⟨d, rfl, (Option.some.inj hstep).symm⟩

/-- `EthernetInitializeDma` has run and both engines start at their first descriptor. -/
def start (B : Board) (pool : UInt32 → Bytes) (host : σ) (suspended : Bool) : System σ where
  driver := ethernetInitializeDma B pool host suspended
  rxDma := 0
  txDma := 0
  context := .idle

/-! ## Which descriptors RxDMA may complete -/

def ownCount (B : Board) (d : Driver σ) : ℕ :=
  (Finset.univ.filter fun i => B.own (d.kReceiveRing i) = true).card

def always (_ : Driver σ) : Prop := True

/-- The behaviour documented in `EthernetRXInterrupt`: RxDMA does not take its last buffer. -/
def leavesOne (B : Board) (d : Driver σ) : Prop := 2 ≤ ownCount B d

instance : DecidablePred (always : Driver σ → Prop) := fun _ => .isTrue trivial

instance (B : Board) : DecidablePred (leavesOne B : Driver σ → Prop) :=
  fun d => inferInstanceAs (Decidable (2 ≤ ownCount B d))

def Action.isRxDma : Action → Bool
  | .rxDmaCompletes _ _ => true
  | _ => false

/-- One action of a run in which RxDMA completes a descriptor only where `allow` holds. -/
def Step (B : Board) (h : Handler σ) (allow : Driver σ → Prop) (s s' : System σ) : Prop :=
  ∃ a, (a.isRxDma = true → allow s.driver) ∧ step B h s a = some s'

def Reachable (B : Board) (h : Handler σ) (allow : Driver σ → Prop) (s : System σ) : Prop :=
  ∃ pool host suspended, Relation.ReflTransGen (Step B h allow) (start B pool host suspended) s

/-- Take the actions in order; `none` when one of them is not enabled. -/
def runs (B : Board) (h : Handler σ) (allow : Driver σ → Prop) [DecidablePred allow] :
    List Action → System σ → Option (System σ)
  | [], s => some s
  | a :: as, s =>
    if a.isRxDma = true → allow s.driver then (step B h s a).bind (runs B h allow as) else none

theorem runs_reachable {B : Board} {h : Handler σ} {allow : Driver σ → Prop} [DecidablePred allow] :
    ∀ {as : List Action} {s s' : System σ}, Reachable B h allow s → runs B h allow as s = some s' →
      Reachable B h allow s'
  | [], s, s', hs, hrun => by
    obtain rfl := Option.some.inj hrun
    exact hs
  | a :: as, s, s', hs, hrun => by
    rw [runs] at hrun
    split at hrun
    · rename_i hallow
      obtain ⟨t, ht, hrest⟩ := Option.bind_eq_some_iff.mp hrun
      obtain ⟨pool, host, suspended, hto⟩ := hs
      exact runs_reachable ⟨pool, host, suspended, hto.tail ⟨a, hallow, ht⟩⟩ hrest
    · cases hrun

theorem start_reachable (B : Board) (h : Handler σ) (allow : Driver σ → Prop)
    (pool : UInt32 → Bytes) (host : σ) (suspended : Bool) :
    Reachable B h allow (start B pool host suspended) :=
  ⟨pool, host, suspended, .refl⟩

theorem Step.mono {B : Board} {h : Handler σ} {allow allow' : Driver σ → Prop}
    (hle : ∀ d, allow d → allow' d) {s s' : System σ} (hs : Step B h allow s s') :
    Step B h allow' s s' := by
  obtain ⟨a, ha, hstep⟩ := hs
  exact ⟨a, fun hr => hle _ (ha hr), hstep⟩

theorem Reachable.mono {B : Board} {h : Handler σ} {allow allow' : Driver σ → Prop}
    (hle : ∀ d, allow d → allow' d) {s : System σ} (hs : Reachable B h allow s) :
    Reachable B h allow' s := by
  obtain ⟨pool, host, suspended, hrun⟩ := hs
  refine ⟨pool, host, suspended, ?_⟩
  exact Relation.ReflTransGen.mono (fun _ _ (h : Step _ _ _ _ _) => h.mono hle) _ _ hrun

theorem Reachable.invariant {B : Board} {h : Handler σ} {allow : Driver σ → Prop}
    {P : System σ → Prop} (hstart : ∀ pool host suspended, P (start B pool host suspended))
    (hstep : ∀ s s', P s → Step B h allow s s' → P s') {s : System σ}
    (hs : Reachable B h allow s) : P s := by
  obtain ⟨pool, host, suspended, hrun⟩ := hs
  induction hrun with
  | refl => exact hstart pool host suspended
  | tail _ hlast ih => exact hstep _ _ ih hlast

/-! ## A handler that follows a script -/

def scripted : Handler (List Bool) where
  run
    | true :: rest, frame, _ => (60, frame, rest)
    | false :: rest, frame, _ => (packetProcessed, frame, rest)
    | [], frame, _ => (packetProcessed, frame, [])
  answers := by
    rintro (_ | ⟨_ | _, rest⟩) frame len <;> simp

def goodFrame : Action := .rxDmaCompletes 0x00400300 (List.replicate 64 0xAA)

def sentFrame : Action := .txDmaCompletes 0x70C00000

/-- Three frames, of which the script of `mixedStart` answers the first and the third; the first reply
is sent and reaped. -/
def mixedTraffic : List Action :=
  [goodFrame, goodFrame, .callRX, .turn, goodFrame, .turn, .turn, .turn, sentFrame, .callTX, .turn]

def mixedStart : System (List Bool) := start ch32v307 (fun _ _ => 0) [true, false, true] false

end Wchratum1.Ethernet
