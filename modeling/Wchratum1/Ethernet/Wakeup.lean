import Wchratum1.Ethernet.Simulation
import Wchratum1.Foundations.Runs

/-! # Waking TxDMA up

TxDMA fetches the descriptor at its pointer. If it is OWNed, TxDMA sends it, clears OWN and advances;
if not, TxDMA is committed to suspending and shows `Suspended` in TPS a step later, until
`ETH_ResumeDMATransmission`. `EnqueueTxFromInterrupt` is three steps here: up to the store of OWN, the
read of TPS, and the resume. `enqueue_uninterrupted` says that they make up the function.

A call that stores OWN and reads TPS while TxDMA is committed to suspending finds it not suspended,
does not resume it, and leaves it to suspend in front of an OWNed descriptor. This is the only way
(`never_stranded_iff`).
-/

namespace Wchratum1.Ethernet
open RingWindow Runs
set_option autoImplicit false

/-! ## The two parties -/

inductive TxPhase
  | fetching
  | sending
  /-- The descriptor at the pointer was fetched and not OWNed; TPS does not say `Suspended` yet. -/
  | suspending
  | suspended
  deriving DecidableEq

/-- Where `EnqueueTxFromInterrupt` is: not called, before the read of TPS, before the resume. -/
inductive EnqueuePoint
  | outside
  | sample
  | resume
  deriving DecidableEq

structure WakeSystem (σ : Type) where
  driver : Driver σ
  txDma : Fin packetRingLen
  phase : TxPhase
  point : EnqueuePoint
  /-- Not in the source: the last call stored OWN while TxDMA was committed to suspending. -/
  raced : Bool

inductive WakeAction
  | fetch
  | complete (status : UInt32)
  | suspend
  | enqueue (pkt : UInt32) (len : ℤ)
  | sample
  | resume
  /-- A turn of `EthernetTXInterrupt`, which runs when no call is in progress. -/
  | reap
  deriving DecidableEq

variable {σ : Type}

/-- `EnqueueTxFromInterrupt` up to the store of OWN, on a descriptor that was not OWNed. -/
def storeTxDescriptor (B : Board) (pkt : UInt32) (len : ℤ) (d : Driver σ) : Driver σ :=
  let dma := d.kTransmitRing d.kTransmitRd
  { d with
    kTransmitRd := packetRingInc d.kTransmitRd
    kTransmitRing := Function.update d.kTransmitRing d.kTransmitRd
      { dma with
        controlBufferSize := UInt32.ofInt len &&& B.ethDMATxDescTBS1
        buffer1Addr := frameOf pkt
        status := dma.status ||| B.ethDMATxDescOWN } }

def wakeStep (B : Board) (s : WakeSystem σ) : WakeAction → Option (WakeSystem σ)
  | .fetch =>
    if s.phase = .fetching then
      some { s with
        phase := if B.own (s.driver.kTransmitRing s.txDma) then .sending else .suspending }
    else none
  | .complete status =>
    if s.phase = .sending ∧ status &&& B.ethDMARxDescOWN = 0 ∧
        status &&& B.txControl = (s.driver.kTransmitRing s.txDma).status &&& B.txControl then
      some { s with
        driver := txDmaRelease B s.txDma status s.driver
        txDma := packetRingInc s.txDma
        phase := .fetching }
    else none
  | .suspend =>
    if s.phase = .suspending then
      some { s with driver := { s.driver with isTxDmaSuspended := true }, phase := .suspended }
    else none
  | .enqueue pkt len =>
    if s.point = .outside then
      if (s.driver.kTransmitRing s.driver.kTransmitRd).status &&& B.ethDMATxDescOWN != 0 then
        some { s with driver := packetDoneFromInterrupt B pkt s.driver }
      else
        some { s with
          driver := storeTxDescriptor B pkt len s.driver
          point := .sample
          raced := decide (s.phase = .suspending) }
    else none
  | .sample =>
    if s.point = .sample then
      some { s with point := if s.driver.isTxDmaSuspended then .resume else .outside }
    else none
  | .resume =>
    if s.point = .resume then
      some { s with
        driver := ethResumeDMATransmission s.driver
        phase := if s.phase = .suspended then .fetching else s.phase
        point := .outside }
    else none
  | .reap =>
    if s.point = .outside then
      (ethernetTXInterruptTurn B s.driver).map fun d => { s with driver := d }
    else none

/-- After `EthernetInitializeDma`, with TxDMA at the first descriptor. -/
def wakeStart (B : Board) (pool : UInt32 → Bytes) (host : σ) (suspended : Bool) : WakeSystem σ where
  driver := ethernetInitializeDma B pool host suspended
  txDma := 0
  phase := if suspended then .suspended else .fetching
  point := .outside
  raced := false

variable {B : Board} {s s' : WakeSystem σ}

/-- With no step of TxDMA in between, the steps of a call are the function. -/
theorem enqueue_uninterrupted (pkt : UInt32) (len : ℤ) (hpoint : s.point = .outside) :
    ∃ as s', as <+: [.sample, .resume] ∧ run (wakeStep B) (.enqueue pkt len :: as) s = some s' ∧
      s'.point = .outside ∧ s'.driver = enqueueTxFromInterrupt B pkt len s.driver := by
  by_cases hown : (s.driver.kTransmitRing s.driver.kTransmitRd).status &&& B.ethDMATxDescOWN = 0
  · cases hsusp : s.driver.isTxDmaSuspended
    · refine ⟨[.sample], { s with
        driver := storeTxDescriptor B pkt len s.driver
        raced := decide (s.phase = .suspending) }, by simp, ?_, hpoint, ?_⟩
      · simp [run, wakeStep, hpoint, hown, storeTxDescriptor, hsusp]
      · simp [enqueueTxFromInterrupt, hown, storeTxDescriptor, hsusp]
    · refine ⟨_, { s with
        driver := ethResumeDMATransmission (storeTxDescriptor B pkt len s.driver)
        phase := if s.phase = .suspended then .fetching else s.phase
        raced := decide (s.phase = .suspending) }, List.prefix_refl _, ?_, hpoint, ?_⟩
      · simp [run, wakeStep, hpoint, hown, storeTxDescriptor, hsusp]
      · simp [enqueueTxFromInterrupt, hown, storeTxDescriptor, hsusp]
  · refine ⟨[], { s with driver := packetDoneFromInterrupt B pkt s.driver }, by simp, ?_, hpoint, ?_⟩
    · simp [run, wakeStep, hpoint, hown]
    · simp [enqueueTxFromInterrupt, hown]

/-! ## Which descriptors are queued -/

/-- The descriptor at the pointer of TxDMA is OWNed. -/
def WakeSystem.queued (B : Board) (s : WakeSystem σ) : Bool :=
  B.own (s.driver.kTransmitRing s.txDma)

/-- The OWNed descriptors are the `n` from the pointer of TxDMA, at counter `a`, to `kTransmitRd`. -/
structure TxWindow (B : Board) (d : Driver σ) (txDma : Fin packetRingLen) (a n : ℕ) : Prop where
  dma : txDma = slot packetRingLen a
  rd : d.kTransmitRd = slot packetRingLen (a + n)
  le : n ≤ packetRingLen
  own : ∀ k, k < packetRingLen → B.own (d.kTransmitRing (slot packetRingLen (a + k))) = decide (k < n)

namespace TxWindow
variable {d d' : Driver σ} {txDma : Fin packetRingLen} {a n : ℕ}

theorem congr (h : TxWindow B d txDma a n) (hrd : d'.kTransmitRd = d.kTransmitRd)
    (hown : ∀ j, B.own (d'.kTransmitRing j) = B.own (d.kTransmitRing j)) :
    TxWindow B d' txDma a n where
  dma := h.dma
  rd := hrd.trans h.rd
  le := h.le
  own k hk := (hown _).trans (h.own k hk)

theorem own_dma (h : TxWindow B d txDma a n) : B.own (d.kTransmitRing txDma) = decide (0 < n) := by
  rw [h.dma]
  exact h.own 0 (by decide)

/-- A free descriptor at `kTransmitRd` is the next one of the window. -/
theorem store (h : TxWindow B d txDma a n) (hfree : B.own (d.kTransmitRing d.kTransmitRd) = false)
    (pkt : UInt32) (len : ℤ) : TxWindow B (storeTxDescriptor B pkt len d) txDma a (n + 1) := by
  have hlt : n < packetRingLen := by
    rcases Nat.lt_or_eq_of_le h.le with hlt | heq
    · exact hlt
    · rw [h.rd, heq, slot_add_size, ← h.dma, h.own_dma, heq] at hfree
      cases hfree
  refine ⟨h.dma, ?_, hlt, ?_⟩
  · simp only [storeTxDescriptor, packetRingInc, h.rd]
    rw [← Nat.add_assoc, slot_succ]
  · intro k hk
    by_cases hkn : k = n
    · have hset := own_set (B := B) (d.kTransmitRing d.kTransmitRd)
        (UInt32.ofInt len &&& B.ethDMATxDescTBS1) (frameOf pkt)
      simp only [storeTxDescriptor, hkn, ← h.rd, Function.update_self, hset]
      exact (decide_eq_true (Nat.lt_succ_self n)).symm
    · have hne : slot packetRingLen (a + k) ≠ d.kTransmitRd := by
        rw [h.rd]
        exact slot_ne (a := a) (by omega) (by omega) (by omega)
      simp only [storeTxDescriptor, Function.update_of_ne hne, h.own k hk, decide_eq_decide]
      omega

/-- The descriptor that TxDMA releases leaves the window. -/
theorem release (h : TxWindow B d txDma a n) (hown : B.own (d.kTransmitRing txDma) = true)
    {status : UInt32} (hstatus : status &&& B.ethDMARxDescOWN = 0) :
    TxWindow B (txDmaRelease B txDma status d) (packetRingInc txDma) (a + 1) (n - 1) := by
  have hpos : 0 < n := by
    rw [h.own_dma] at hown
    exact of_decide_eq_true hown
  have hle := h.le
  refine ⟨?_, ?_, by omega, ?_⟩
  · rw [h.dma, packetRingInc, slot_succ]
  · rw [show a + 1 + (n - 1) = a + n by omega]
    exact h.rd
  · intro k hk
    by_cases hlast : k + 1 = packetRingLen
    · have hself : slot packetRingLen (a + 1 + k) = txDma := by
        rw [show a + 1 + k = a + packetRingLen by omega, slot_add_size, h.dma]
      have hclear : B.own { d.kTransmitRing txDma with status := status } = false :=
        (own_eq_false_iff _).mpr hstatus
      simp only [txDmaRelease, hself, Function.update_self, hclear]
      exact (decide_eq_false (by omega)).symm
    · have hne : slot packetRingLen (a + 1 + k) ≠ txDma := by
        rw [h.dma]
        exact slot_ne (a := a) (by omega) (by omega) (by omega)
      simp only [txDmaRelease, Function.update_of_ne hne]
      rw [show a + 1 + k = a + (k + 1) by omega, h.own (k + 1) (by omega), decide_eq_decide]
      omega

theorem clearTxBuffer (h : TxWindow B d txDma a n) (i : Fin packetRingLen) :
    TxWindow B (clearTxBuffer i d) txDma a n := by
  refine h.congr rfl fun j => ?_
  by_cases hji : j = i
  · simp [Ethernet.clearTxBuffer, hji, Board.own]
  · simp only [Ethernet.clearTxBuffer, Function.update_of_ne hji]

theorem packetDone (h : TxWindow B d txDma a n) (pkt : UInt32) :
    TxWindow B (packetDoneFromInterrupt B pkt d) txDma a n := by
  refine h.congr (packetDoneFromInterrupt_kTransmitRd pkt d) fun j => ?_
  rw [packetDoneFromInterrupt_kTransmitRing]

end TxWindow

/-! ## Stranded descriptors -/

def TxPhase.stopping : TxPhase → Bool
  | .suspending | .suspended => true
  | .fetching | .sending => false

def NotStranded (B : Board) (s : WakeSystem σ) : Prop :=
  s.point = .outside → s.phase.stopping = true → s.queued B = false

/-- TPS is read while TxDMA is still committed to the suspension that it was committed to when the
call stored OWN. -/
def TooEarly (s : WakeSystem σ) (a : WakeAction) : Prop :=
  a = .sample ∧ s.phase = .suspending ∧ s.raced = true

/-- What the two parties know about each other. -/
structure Handshake (B : Board) (s : WakeSystem σ) : Prop where
  window : ∃ a n, TxWindow B s.driver s.txDma a n
  tps : s.driver.isTxDmaSuspended = decide (s.phase = .suspended)
  resumes : s.point = .resume → s.phase = .suspended
  sends : s.phase = .sending → s.queued B = true
  stored : s.point = .sample → s.raced = true → s.phase.stopping = true ∧ s.queued B = true
  raced : s.point = .sample → s.phase = .suspending → s.queued B = true → s.raced = true

theorem wakeStart_handshake (B : Board) (pool : UInt32 → Bytes) (host : σ) (suspended : Bool) :
    Handshake B (wakeStart B pool host suspended) where
  window := ⟨0, 0, rfl, rfl, Nat.zero_le _, fun _ _ => initialize_transmit_own pool host suspended _⟩
  tps := by cases suspended <;> rfl
  resumes hp := by cases hp
  sends hp := by cases suspended <;> cases hp
  stored hp := by cases hp
  raced hp := by cases hp

theorem wakeStart_notStranded (B : Board) (pool : UInt32 → Bytes) (host : σ) (suspended : Bool) :
    NotStranded B (wakeStart B pool host suspended) :=
  fun _ _ => initialize_transmit_own pool host suspended _

/-! ## Steps of TxDMA -/

namespace Handshake

theorem fetch (hs : Handshake B s) (hstep : wakeStep B s .fetch = some s') :
    Handshake B s' ∧ NotStranded B s' := by
  simp only [wakeStep] at hstep
  split at hstep
  · rename_i hphase
    obtain rfl := Option.some.inj hstep
    have hnot : s.point = .sample → s.raced = false := by
      intro hp
      cases hraced : s.raced
      · rfl
      · have := (hs.stored hp hraced).1
        rw [hphase] at this
        cases this
    have htps := hs.tps
    rw [hphase] at htps
    have hresume : s.point ≠ .resume := by
      intro hp
      have := hs.resumes hp
      rw [hphase] at this
      cases this
    cases hown : B.own (s.driver.kTransmitRing s.txDma)
    · refine ⟨⟨hs.window, htps, fun hp => absurd hp hresume, nofun, fun hp hr => ?_, fun _ _ hq => ?_⟩,
        fun _ _ => hown⟩
      · rw [hnot hp] at hr
        cases hr
      · rw [← hq]
        exact absurd hq (by simp [WakeSystem.queued, hown])
    · refine ⟨⟨hs.window, htps, fun hp => absurd hp hresume, fun _ => hown, fun hp hr => ?_, nofun⟩, nofun⟩
      rw [hnot hp] at hr
      cases hr
  · cases hstep

theorem complete (hs : Handshake B s) {status : UInt32}
    (hstep : wakeStep B s (.complete status) = some s') :
    Handshake B s' ∧ NotStranded B s' := by
  simp only [wakeStep] at hstep
  split at hstep
  · rename_i hmay
    obtain ⟨hphase, hstatus, -⟩ := hmay
    obtain rfl := Option.some.inj hstep
    obtain ⟨a, n, hwindow⟩ := hs.window
    have htps := hs.tps
    rw [hphase] at htps
    refine ⟨⟨⟨a + 1, n - 1, hwindow.release (hs.sends hphase) hstatus⟩, htps, fun hp => ?_, nofun,
      fun hp hr => ?_, nofun⟩, nofun⟩
    · have := hs.resumes hp
      rw [hphase] at this
      cases this
    · have := (hs.stored hp hr).1
      rw [hphase] at this
      cases this
  · cases hstep

theorem suspend (hs : Handshake B s) (hn : NotStranded B s)
    (hstep : wakeStep B s .suspend = some s') : Handshake B s' ∧ NotStranded B s' := by
  simp only [wakeStep] at hstep
  split at hstep
  · rename_i hphase
    obtain rfl := Option.some.inj hstep
    obtain ⟨a, n, hwindow⟩ := hs.window
    have hstopping : s.phase.stopping = true := by rw [hphase]; rfl
    exact ⟨⟨⟨a, n, hwindow.congr rfl fun _ => rfl⟩, rfl, fun _ => rfl, nofun,
      fun hp hr => ⟨rfl, (hs.stored hp hr).2⟩, nofun⟩, fun hp _ => hn hp hstopping⟩
  · cases hstep

/-! ## Steps of the CPU -/

theorem enqueue (hs : Handshake B s) (hn : NotStranded B s) {pkt : UInt32} {len : ℤ}
    (hstep : wakeStep B s (.enqueue pkt len) = some s') :
    Handshake B s' ∧ NotStranded B s' := by
  simp only [wakeStep] at hstep
  split at hstep
  · rename_i hpoint
    obtain ⟨a, n, hwindow⟩ := hs.window
    split at hstep
    · obtain rfl := Option.some.inj hstep
      have hqueued : ({ s with driver := packetDoneFromInterrupt B pkt s.driver } : WakeSystem σ).queued B =
          s.queued B := by
        simp only [WakeSystem.queued, packetDoneFromInterrupt_kTransmitRing]
      refine ⟨⟨⟨a, n, hwindow.packetDone pkt⟩, (packetDoneFromInterrupt_isTxDmaSuspended pkt s.driver).trans hs.tps,
        hs.resumes, fun hp => hqueued.trans (hs.sends hp), fun hp => ?_, fun hp => ?_⟩,
        fun hp hst => hqueued.trans (hn hp hst)⟩
      · exact absurd (hpoint.symm.trans hp) nofun
      · exact absurd (hpoint.symm.trans hp) nofun
    · rename_i hfree
      obtain rfl := Option.some.inj hstep
      have hfree' : B.own (s.driver.kTransmitRing s.driver.kTransmitRd) = false := by
        rw [own_eq_false_iff, ← B.own_eq]
        simpa using hfree
      have hstored := hwindow.store hfree' pkt len
      have hqueued : B.own ((storeTxDescriptor B pkt len s.driver).kTransmitRing s.txDma) = true := by
        rw [hstored.own_dma]
        exact decide_eq_true (Nat.succ_pos n)
      refine ⟨⟨⟨a, n + 1, hstored⟩, hs.tps, nofun, fun _ => hqueued, fun _ hr => ⟨?_, hqueued⟩,
        fun _ hp _ => decide_eq_true hp⟩, nofun⟩
      rw [of_decide_eq_true hr]
      rfl
  · cases hstep

/-- The read of TPS strands a descriptor exactly when the call raced. -/
theorem sample (hs : Handshake B s) (hstep : wakeStep B s .sample = some s') :
    Handshake B s' ∧ (NotStranded B s' ↔ (s.phase = .suspending → s.raced = false)) := by
  simp only [wakeStep] at hstep
  split at hstep
  · rename_i hpoint
    obtain rfl := Option.some.inj hstep
    obtain ⟨a, n, hwindow⟩ := hs.window
    have htps := hs.tps
    by_cases hsusp : s.phase = .suspended
    · rw [decide_eq_true hsusp] at htps
      simp only [htps, if_true]
      refine ⟨⟨hs.window, htps.trans (decide_eq_true hsusp).symm, fun _ => hsusp, hs.sends, nofun, nofun⟩,
        fun _ hp => ?_, fun _ => nofun⟩
      rw [hsusp] at hp
      cases hp
    · rw [decide_eq_false hsusp] at htps
      simp only [htps, Bool.false_eq_true, if_false]
      refine ⟨⟨hs.window, htps.trans (decide_eq_false hsusp).symm, nofun, hs.sends, nofun, nofun⟩,
        fun hnot hp => ?_, fun htimely _ hstop => ?_⟩
      · cases hraced : s.raced
        · rfl
        · have hqueued := (hs.stored hpoint hraced).2
          have := hnot rfl (by rw [hp]; rfl)
          rw [WakeSystem.queued] at hqueued
          exact absurd (this.symm.trans hqueued) nofun
      · have hphase : s.phase = .suspending := by
          cases hp : s.phase <;> simp_all [TxPhase.stopping]
        cases hqueued : s.queued B
        · exact hqueued
        · have := hs.raced hpoint hphase hqueued
          rw [htimely hphase] at this
          cases this
  · cases hstep

theorem resume (hs : Handshake B s) (hstep : wakeStep B s .resume = some s') :
    Handshake B s' ∧ NotStranded B s' := by
  simp only [wakeStep] at hstep
  split at hstep
  · rename_i hpoint
    obtain rfl := Option.some.inj hstep
    obtain ⟨a, n, hwindow⟩ := hs.window
    simp only [hs.resumes hpoint, if_true]
    exact ⟨⟨⟨a, n, hwindow.congr rfl fun _ => rfl⟩, rfl, nofun, nofun, nofun, nofun⟩, fun _ => nofun⟩
  · cases hstep

theorem reap (hs : Handshake B s) (hn : NotStranded B s)
    (hstep : wakeStep B s .reap = some s') : Handshake B s' ∧ NotStranded B s' := by
  simp only [wakeStep] at hstep
  split at hstep
  · rename_i hpoint
    obtain ⟨d, hturn, rfl⟩ := Option.map_eq_some_iff.mp hstep
    obtain ⟨-, rfl⟩ := ethernetTXInterruptTurn_some hturn
    obtain ⟨a, n, hwindow⟩ := hs.window
    have hreaped := (hwindow.packetDone
      (getPacketFromRing (s.driver.kTransmitRing s.driver.kTransmitWr))).clearTxBuffer s.driver.kTransmitWr
    have hqueued := hreaped.own_dma.trans hwindow.own_dma.symm
    refine ⟨⟨⟨a, n, hreaped⟩, (packetDoneFromInterrupt_isTxDmaSuspended _ s.driver).trans hs.tps,
      hs.resumes,
      fun hp => hqueued.trans (hs.sends hp), fun hp => ?_, fun hp => ?_⟩,
      fun hp hst => hqueued.trans (hn hp hst)⟩
    · exact absurd (hpoint.symm.trans hp) nofun
    · exact absurd (hpoint.symm.trans hp) nofun
  · cases hstep

/-- A step strands a descriptor exactly when it is a read of TPS that comes too early. -/
theorem step (hs : Handshake B s) (hn : NotStranded B s) {a : WakeAction}
    (hstep : wakeStep B s a = some s') : Handshake B s' ∧ (NotStranded B s' ↔ ¬ TooEarly s a) := by
  have hother : a ≠ .sample → Handshake B s' ∧ NotStranded B s' →
      Handshake B s' ∧ (NotStranded B s' ↔ ¬ TooEarly s a) :=
    fun hne ⟨hs', hn'⟩ => ⟨hs', iff_of_true hn' fun hearly => hne hearly.1⟩
  cases a with
  | fetch => exact hother nofun (hs.fetch hstep)
  | complete status => exact hother nofun (hs.complete hstep)
  | suspend => exact hother nofun (hs.suspend hn hstep)
  | enqueue pkt len => exact hother nofun (hs.enqueue hn hstep)
  | sample =>
    obtain ⟨hs', hiff⟩ := hs.sample hstep
    refine ⟨hs', hiff.trans ?_⟩
    simp [TooEarly]
  | resume => exact hother nofun (hs.resume hstep)
  | reap => exact hother nofun (hs.reap hn hstep)

end Handshake

/-- **Wake-up.** In every run, no transmit is stranded in any state if and only if no call both stores
OWN and reads TPS while TxDMA is committed to suspending. -/
theorem never_stranded_iff (B : Board) (pool : UInt32 → Bytes) (host : σ) (suspended : Bool)
    (as : List WakeAction) :
    Throughout (wakeStep B) (NotStranded B) (wakeStart B pool host suspended) as ↔
      Avoids (wakeStep B) TooEarly (wakeStart B pool host suspended) as :=
  throughout_iff_avoids (fun _ _ _ hs hn hstep => hs.step hn hstep)
    (wakeStart_handshake B pool host suspended) (wakeStart_notStranded B pool host suspended)

/-- TxDMA fetches the first descriptor; before it suspends, a reply is queued there and TPS is read. -/
theorem reply_queued_before_suspension_is_stranded :
    (∃ s, run (wakeStep ch32v307) [.fetch, .enqueue 0x20000400 60, .sample, .suspend]
        (wakeStart ch32v307 (fun _ _ => 0) () false) = some s ∧
        s.point = .outside ∧ s.phase = .suspended ∧ s.queued ch32v307 = true) ∧
      ¬ Throughout (wakeStep ch32v307) (NotStranded ch32v307)
        (wakeStart ch32v307 (fun _ _ => 0) () false)
        [.fetch, .enqueue 0x20000400 60, .sample, .suspend] := by
  have hrun : ((run (wakeStep ch32v307) [.fetch, .enqueue 0x20000400 60, .sample, .suspend]
      (wakeStart ch32v307 (fun _ _ => 0) () false)).any fun s =>
      decide (s.point = .outside) && decide (s.phase = .suspended) && s.queued ch32v307) = true := by
    decide +kernel
  obtain ⟨s, hs, hbad⟩ := (Option.any_eq_true _ _).mp hrun
  simp only [Bool.and_eq_true, decide_eq_true_eq] at hbad
  obtain ⟨⟨hpoint, hphase⟩, hqueued⟩ := hbad
  refine ⟨⟨s, hs, hpoint, hphase, hqueued⟩, fun hn => ?_⟩
  have hfree := hn.last hs hpoint (by rw [hphase]; rfl)
  rw [hqueued] at hfree
  cases hfree

end Wchratum1.Ethernet
