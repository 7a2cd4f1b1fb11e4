import Wchratum1.Foundations.Bytes
import Mathlib.Data.Fintype.Card

/-! # The two DMA rings and the interrupt handlers that move packet buffers between them

Translated from `src/src/ethernet.c`. A `PacketBuffer` is known by the address of its `Frame`, as in
the descriptors; `Driver.kPacketPool` gives the bytes of the `Frame` at each address.

* `Board` holds what `ethernet.c` takes from outside the repository: the descriptor bits of the
  vendor's `ch32v30x_eth.h` and the address the linker gives to `kPacketPool`, with what the code
  relies on about them as fields.
* The four ring indices are `Fin 8`: they start at 0 and only `PACKET_RING_INC` writes them.
* `PacketRxInterrupt` is a parameter here (`Handler`): any in-place rewriting of one `Frame` that
  returns `PACKET_PROCESSED` or a length.
* One turn of each `while (1)` is a function to `Option`: `none` is the `return` of the loop.
* `History` is not in the source. It records what the hardware and the handlers did, for the
  statements.
-/

namespace Wchratum1.Ethernet
set_option autoImplicit false
set_option maxRecDepth 4000

/-! ## Constants -/

def etherMaxLen : ℕ := 1518

/-- `ETHER_ALIGN`, the padding in front of `Frame`: `offsetof(PacketBuffer, Frame)`. -/
def etherAlign : UInt32 := 2

def sizeofPacketBuffer : ℕ := 1520

def packetPoolLen : ℕ := 9

abbrev packetRingLen : ℕ := 8

instance packetRingLenNeZero : NeZero packetRingLen := ⟨by decide⟩

def packetProcessed : ℤ := -1

/-- Descriptor bits of the vendor SDK and the linker's address of `kPacketPool`. -/
structure Board where
  ethDMARxDescOWN : UInt32
  ethDMARxDescES : UInt32
  ethDMARxDescFS : UInt32
  ethDMARxDescLS : UInt32
  ethDMARxDescFL : UInt32
  ethDMARxDescRBS1 : UInt32
  ethDMARxDescRER : UInt32
  ethDMATxDescOWN : UInt32
  ethDMATxDescCICTCPUDPICMPFull : UInt32
  ethDMATxDescFS : UInt32
  ethDMATxDescLS : UInt32
  ethDMATxDescIC : UInt32
  ethDMATxDescTER : UInt32
  ethDMATxDescTBS1 : UInt32
  kPacketPool : UInt32
  /-- OWN is a real bit, and the same one in both rings: the Tx handler tests the Rx name. -/
  own_ne_zero : ethDMARxDescOWN ≠ 0
  own_eq : ethDMATxDescOWN = ethDMARxDescOWN
  /-- No control bit of a Tx descriptor overlaps OWN. -/
  control_own : (ethDMATxDescCICTCPUDPICMPFull ||| ethDMATxDescFS ||| ethDMATxDescLS |||
    ethDMATxDescIC ||| ethDMATxDescTER) &&& ethDMARxDescOWN = 0
  /-- The transmit size field has 13 bits. -/
  tbs1_eq : ethDMATxDescTBS1 = 0x1FFF
  /-- An object is not at the null address and does not wrap around the address space. -/
  pool_pos : 0 < kPacketPool.toNat
  pool_fits : kPacketPool.toNat + packetPoolLen * sizeofPacketBuffer ≤ 2 ^ 32

/-- The CH32V307: the bits of `ch32v30x_eth.h` and a pool in its RAM. -/
def ch32v307 : Board where
  ethDMARxDescOWN := 0x80000000
  ethDMARxDescES := 0x00008000
  ethDMARxDescFS := 0x00000200
  ethDMARxDescLS := 0x00000100
  ethDMARxDescFL := 0x3FFF0000
  ethDMARxDescRBS1 := 0x00001FFF
  ethDMARxDescRER := 0x00008000
  ethDMATxDescOWN := 0x80000000
  ethDMATxDescCICTCPUDPICMPFull := 0x00C00000
  ethDMATxDescFS := 0x10000000
  ethDMATxDescLS := 0x20000000
  ethDMATxDescIC := 0x40000000
  ethDMATxDescTER := 0x00200000
  ethDMATxDescTBS1 := 0x00001FFF
  kPacketPool := 0x20000400
  own_ne_zero := by decide
  own_eq := rfl
  control_own := by decide
  tbs1_eq := rfl
  pool_pos := by decide
  pool_fits := by decide

def Board.frameAddr (B : Board) (i : ℕ) : UInt32 :=
  B.kPacketPool + UInt32.ofNat (i * sizeofPacketBuffer) + etherAlign

/-- The buffers that `EthernetInitializeDma` puts into the receive ring, in ring order. -/
def Board.ringBuffers (B : Board) : List UInt32 := (List.range packetRingLen).map B.frameAddr

/-! ## State -/

structure EthDMADesc where
  status : UInt32
  controlBufferSize : UInt32
  buffer1Addr : UInt32
  buffer2NextDescAddr : UInt32

/-- `PacketRxInterrupt(frame, len)` with whatever state `σ` it keeps: the value it returns, the
bytes it leaves in `frame` and its new state. -/
structure Handler (σ : Type) where
  run : σ → Bytes → ℤ → ℤ × Bytes × σ
  answers : ∀ s f len, (run s f len).1 = packetProcessed ∨ 0 ≤ (run s f len).1

/-- A descriptor that RxDMA released: the status and the bytes it wrote, and what was then in the
buffer. -/
structure Arrival where
  status : UInt32
  data : List UInt8
  frame : Bytes
  wrote : Bytes.firstBytes data.length frame = data

/-- A call of `PacketRxInterrupt`: what it was given, what it returned and what it left. -/
structure Call where
  frame : Bytes
  len : ℤ
  next : ℤ
  rewritten : Bytes

structure History where
  /-- Completions of RxDMA, oldest first. -/
  arrived : List Arrival
  /-- Rx descriptors that RxDMA has completed since `EthernetRXInterrupt` last took them. -/
  undispatched : Fin packetRingLen → Bool
  /-- Calls of `PacketRxInterrupt`, oldest first. -/
  calls : List Call
  /-- Frames that TxDMA has sent, oldest first. -/
  sent : List (List UInt8)
  /-- Buffers dropped with "IMPOSSIBRU! PacketBuffer leaks". -/
  leaked : List UInt32

/-- The globals of `ethernet.c`, with the state of the handler and of the one register field that
`EnqueueTxFromInterrupt` reads. -/
structure Driver (σ : Type) where
  kPacketPool : UInt32 → Bytes
  kReceiveRing : Fin packetRingLen → EthDMADesc
  kTransmitRing : Fin packetRingLen → EthDMADesc
  kReceiveRd : Fin packetRingLen
  kReceiveWr : Fin packetRingLen
  kTransmitRd : Fin packetRingLen
  kTransmitWr : Fin packetRingLen
  kInPool : Int8
  /-- `(ETH->DMASR & ETH_DMASR_TPS) == ETH_DMASR_TPS_Suspended`. -/
  isTxDmaSuspended : Bool
  host : σ
  history : History

variable {σ : Type}

/-! ## Functions of `ethernet.c` -/

def packetRingInc (x : Fin packetRingLen) : Fin packetRingLen := x + 1

/-- The masked increment of the source, on the values 0..7. -/
theorem packetRingInc_val (x : Fin packetRingLen) :
    (packetRingInc x).val = (x.val + 1) &&& (packetRingLen - 1) := by
  revert x
  decide

/-- OWN is set: the test of both handlers, which use the Rx name for both rings. -/
def Board.own (B : Board) (dma : EthDMADesc) : Bool := dma.status &&& B.ethDMARxDescOWN != 0

def getPacketFromRing (dma : EthDMADesc) : UInt32 := dma.buffer1Addr - etherAlign

def frameOf (pkt : UInt32) : UInt32 := pkt + etherAlign

def Board.getRxFrameLength (B : Board) (status : UInt32) : UInt32 :=
  ((status &&& B.ethDMARxDescFL) >>> 16) - 4

def Board.errorFree (B : Board) (rxStatus : UInt32) : Bool :=
  rxStatus &&& B.ethDMARxDescES == 0 &&
    (rxStatus &&& B.ethDMARxDescFS != 0 && rxStatus &&& B.ethDMARxDescLS != 0)

/-- The length argument of `PacketRxInterrupt`: an `unsigned` passed as `int`. -/
def Board.lenArg (B : Board) (rxStatus : UInt32) : ℤ :=
  (B.getRxFrameLength rxStatus).toInt32.toInt

/-- `pkt - kPacketPool`, stored into an `int8_t`. -/
def Board.poolIndex (B : Board) (pkt : UInt32) : Int8 :=
  Int8.ofInt (((pkt.toNat : ℤ) - B.kPacketPool.toNat) / sizeofPacketBuffer)

def packetDoneFromInterrupt (B : Board) (pkt : UInt32) (d : Driver σ) : Driver σ :=
  if d.kInPool < 0 then
    { d with kInPool := B.poolIndex pkt }
  else
    let dma := d.kReceiveRing d.kReceiveWr
    if B.own dma then
      { d with history := { d.history with leaked := d.history.leaked ++ [frameOf pkt] } }
    else
      { d with
        kReceiveWr := packetRingInc d.kReceiveWr
        kReceiveRing := Function.update d.kReceiveRing d.kReceiveWr
          { dma with buffer1Addr := frameOf pkt, status := B.ethDMARxDescOWN } }

/-- `ETH_ResumeDMATransmission()`: TxDMA leaves the Suspended state. -/
def ethResumeDMATransmission (d : Driver σ) : Driver σ := { d with isTxDmaSuspended := false }

def enqueueTxFromInterrupt (B : Board) (pkt : UInt32) (len : ℤ) (d : Driver σ) : Driver σ :=
  let dma := d.kTransmitRing d.kTransmitRd
  let txStatus := dma.status
  if txStatus &&& B.ethDMATxDescOWN != 0 then
    packetDoneFromInterrupt B pkt d
  else
    let d := { d with
      kTransmitRd := packetRingInc d.kTransmitRd
      kTransmitRing := Function.update d.kTransmitRing d.kTransmitRd
        { dma with
          controlBufferSize := UInt32.ofInt len &&& B.ethDMATxDescTBS1
          buffer1Addr := frameOf pkt
          status := txStatus ||| B.ethDMATxDescOWN } }
    if d.isTxDmaSuspended then ethResumeDMATransmission d else d

/-- The call of `PacketRxInterrupt` on the descriptor just taken, when its status allows it. -/
def callPacketRxInterrupt (B : Board) (h : Handler σ) (dma : EthDMADesc) (d : Driver σ) :
    ℤ × Driver σ :=
  if B.errorFree dma.status then
    let frame := d.kPacketPool dma.buffer1Addr
    let len := B.lenArg dma.status
    let r := h.run d.host frame len
    (r.1, { d with
      kPacketPool := Function.update d.kPacketPool dma.buffer1Addr r.2.1
      host := r.2.2
      history := { d.history with
        calls := d.history.calls ++ [{ frame, len, next := r.1, rewritten := r.2.1 }] } })
  else
    (packetProcessed, d)

def takeReceiveRd (d : Driver σ) : Driver σ :=
  { d with
    kReceiveRd := packetRingInc d.kReceiveRd
    history := { d.history with
      undispatched := Function.update d.history.undispatched d.kReceiveRd false } }

def clearRxBuffer (i : Fin packetRingLen) (d : Driver σ) : Driver σ :=
  { d with
    kReceiveRing := Function.update d.kReceiveRing i { d.kReceiveRing i with buffer1Addr := 0 } }

/-- One turn of the loop of `EthernetRXInterrupt`; `none` when it returns. -/
def ethernetRXInterruptTurn (B : Board) (h : Handler σ) (d : Driver σ) : Option (Driver σ) :=
  let i := d.kReceiveRd
  let dma := d.kReceiveRing i
  if B.own dma then none
  else if dma.buffer1Addr = 0 then none
  else
    let r := callPacketRxInterrupt B h dma (takeReceiveRd d)
    let next := r.1
    let d := if 0 ≤ next then
        enqueueTxFromInterrupt B (getPacketFromRing dma) next (clearRxBuffer i r.2)
      else r.2
    let d := if next = packetProcessed then
        packetDoneFromInterrupt B (getPacketFromRing (d.kReceiveRing i)) d
      else d
    some d

/-- `dma->Buffer1Addr = 0` on a transmit descriptor, and `PACKET_RING_INC(kTransmitWr)`. -/
def clearTxBuffer (i : Fin packetRingLen) (d : Driver σ) : Driver σ :=
  { d with
    kTransmitRing := Function.update d.kTransmitRing i { d.kTransmitRing i with buffer1Addr := 0 }
    kTransmitWr := packetRingInc d.kTransmitWr }

/-- One turn of the loop of `EthernetTXInterrupt`; `none` when it returns. -/
def ethernetTXInterruptTurn (B : Board) (d : Driver σ) : Option (Driver σ) :=
  let i := d.kTransmitWr
  let dma := d.kTransmitRing i
  if B.own dma then none
  else if dma.buffer1Addr = 0 then none
  else
    some (clearTxBuffer i (packetDoneFromInterrupt B (getPacketFromRing dma) d))

/-- `EthernetInitializeDma`, over any earlier contents of the pool. -/
def ethernetInitializeDma (B : Board) (pool : UInt32 → Bytes) (host : σ) (suspended : Bool) :
    Driver σ where
  kPacketPool := pool
  kReceiveRing := fun i =>
    { status := B.ethDMARxDescOWN
      controlBufferSize := (B.ethDMARxDescRBS1 &&& UInt32.ofNat etherMaxLen) |||
        if i.val = packetRingLen - 1 then B.ethDMARxDescRER else 0
      buffer1Addr := B.frameAddr i.val
      buffer2NextDescAddr := 0 }
  kTransmitRing := fun i =>
    { status := (B.ethDMATxDescCICTCPUDPICMPFull ||| B.ethDMATxDescFS ||| B.ethDMATxDescLS |||
        B.ethDMATxDescIC) ||| if i.val = packetRingLen - 1 then B.ethDMATxDescTER else 0
      controlBufferSize := 0
      buffer1Addr := 0
      buffer2NextDescAddr := 0 }
  kReceiveRd := 0
  kReceiveWr := 0
  kTransmitRd := 0
  kTransmitWr := 0
  kInPool := Int8.ofNat (packetPoolLen - 1)
  isTxDmaSuspended := suspended
  host := host
  history := { arrived := [], undispatched := fun _ => false, calls := [], sent := [], leaked := [] }

end Wchratum1.Ethernet
