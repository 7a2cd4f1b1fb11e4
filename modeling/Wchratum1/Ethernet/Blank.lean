import Wchratum1.Ethernet.Conservation
import Wchratum1.Ethernet.Drain
import Wchratum1.Foundations.Runs

/-! # Descriptors without a packet buffer

The handlers tell a descriptor that has no packet buffer by two things: it is OWNed by the CPU, and its
`Buffer1Addr` is 0. A queued reply and a reaped descriptor are blanked. A frame that is processed in
place goes back to the descriptor at `kReceiveWr`; when that is another descriptor, the one that the
frame came from keeps the address. This is the only way to get a descriptor that is empty and not blank
(`always_blank_iff`).
-/

namespace Wchratum1.Ethernet
open RingWindow Runs
set_option autoImplicit false

variable {σ : Type} {B : Board} {h : Handler σ} {d : Driver σ} {s s' : System σ}

/-! ## The test of the handlers -/

inductive Descriptor
  | rx (i : Fin packetRingLen)
  | tx (j : Fin packetRingLen)
  deriving DecidableEq

def Driver.desc (d : Driver σ) : Descriptor → EthDMADesc
  | .rx i => d.kReceiveRing i
  | .tx j => d.kTransmitRing j

/-- Where a buffer can be at a descriptor. -/
def Descriptor.places : Descriptor → List Place
  | .rx i => [.rxOwn i, .rxCompleted i]
  | .tx j => [.tx j]

def HasPacketBuffer (B : Board) (d : Driver σ) (x : Descriptor) : Prop :=
  ∃ b ∈ B.ringBuffers, ∃ place ∈ x.places, Occupies B d b place

/-- OWNed by the CPU and dispatched since RxDMA last completed it. -/
def Dispatched (B : Board) (d : Driver σ) (i : Fin packetRingLen) : Prop :=
  B.own (d.kReceiveRing i) = false ∧ d.history.undispatched i = false

def AllBlank (B : Board) (d : Driver σ) : Prop :=
  ∀ i, Dispatched B d i → (d.kReceiveRing i).buffer1Addr = 0

structure EmptyAreBlank (B : Board) (d : Driver σ) : Prop where
  blank : AllBlank B d
  distinct : ∀ x y, (d.desc x).buffer1Addr ≠ 0 → (d.desc x).buffer1Addr = (d.desc y).buffer1Addr → x = y
  test : ∀ x, B.own (d.desc x) = false ∧ (d.desc x).buffer1Addr = 0 ↔ ¬ HasPacketBuffer B d x

/-- While dispatched descriptors are blank, an address stands at the one place of its buffer. -/
theorem occupies_of_address (hblank : AllBlank B d) {x : Descriptor} (haddr : (d.desc x).buffer1Addr ≠ 0) :
    ∃ place ∈ x.places, Occupies B d (d.desc x).buffer1Addr place := by
  cases x with
  | rx i =>
    cases hown : B.own (d.kReceiveRing i)
    · cases hund : d.history.undispatched i
      · exact absurd (hblank i ⟨hown, hund⟩) haddr
      · exact ⟨.rxCompleted i, by simp [Descriptor.places], hown, hund, rfl⟩
    · exact ⟨.rxOwn i, by simp [Descriptor.places], hown, rfl⟩
  | tx j => exact ⟨.tx j, by simp [Descriptor.places], rfl⟩

theorem Descriptor.places_disjoint {x y : Descriptor} {place : Place} (hx : place ∈ x.places)
    (hy : place ∈ y.places) : x = y := by
  cases x <;> cases y <;> simp only [places, List.mem_cons, List.not_mem_nil, or_false] at hx hy <;>
    rcases hx with rfl | rfl <;> simp_all

variable {p : Pipeline UInt32 Arrival (List UInt8)} {w v : ℕ}

theorem Refines.mem_ringBuffers (hr : Refines B s p w v) {b : UInt32} (hb : b ≠ 0) {place : Place}
    (hocc : Occupies B s.driver b place) : b ∈ B.ringBuffers := by
  have hmem := List.mem_map_of_mem (f := Prod.fst) ((hr.occupies_iff hb place).mp hocc)
  rw [placed_fst] at hmem
  exact hr.buffers.subset hmem

theorem Refines.address_of_own (hr : Refines B s p w v) {x : Descriptor}
    (hown : B.own (s.driver.desc x) = true) : (s.driver.desc x).buffer1Addr ≠ 0 := by
  have hmem : ∀ b ∈ p.buffers, b ≠ 0 := fun b hb => ringBuffers_ne_zero B (hr.buffers.subset hb)
  cases x with
  | rx i =>
    rcases hr.rx.place i with hb | ⟨k, y, -, -, hl⟩ | ⟨k, b, hb, -, hf⟩
    · exact absurd (hown.symm.trans hb.1) Bool.false_ne_true.symm
    · exact absurd (hown.symm.trans hl.1) Bool.false_ne_true.symm
    · rw [Driver.desc, hf.2.2]
      refine hmem b ?_
      simp only [Pipeline.buffers, List.mem_append]
      exact Or.inl (Or.inl (Or.inl (List.mem_of_getElem? hb)))
  | tx j =>
    rcases hr.tx.place j with ⟨k, c, -, -, hd⟩ | ⟨k, y, hy, -, hq⟩ | hu
    · exact absurd (hown.symm.trans hd.1) Bool.false_ne_true.symm
    · rw [Driver.desc, hq.2.1]
      refine hmem y.1 ?_
      simp only [Pipeline.buffers, List.mem_append, List.mem_map]
      exact Or.inl (Or.inr ⟨y, List.mem_of_getElem? hy, rfl⟩)
    · exact absurd (hown.symm.trans hu.1) Bool.false_ne_true.symm

/-- In a state that refines a pipeline, the first clause is all it takes. -/
theorem Refines.emptyAreBlank (hr : Refines B s p w v) (hblank : AllBlank B s.driver) :
    EmptyAreBlank B s.driver where
  blank := hblank
  distinct := by
    intro x y hx hxy
    obtain ⟨place, hplace, hocc⟩ := occupies_of_address hblank hx
    obtain ⟨place', hplace', hocc'⟩ := occupies_of_address hblank (hxy ▸ hx)
    rw [← hxy] at hocc'
    obtain ⟨only, -, honly⟩ := hr.exists_unique_place (hr.mem_ringBuffers hx hocc)
    have hsame : place = place' := (honly place hocc).trans (honly place' hocc').symm
    exact Descriptor.places_disjoint hplace (hsame ▸ hplace')
  test := by
    intro x
    constructor
    · rintro ⟨hown, haddr⟩ ⟨b, hb, place, hplace, hocc⟩
      have haddr' : b = 0 := by
        cases x with
        | rx i =>
          simp only [Descriptor.places, List.mem_cons, List.not_mem_nil, or_false] at hplace
          rcases hplace with rfl | rfl
          · exact absurd (hocc.1.symm.trans hown) Bool.false_ne_true.symm
          · exact hocc.2.2.symm.trans haddr
        | tx j =>
          obtain rfl := List.mem_singleton.mp hplace
          exact Eq.trans (Eq.symm hocc) haddr
      exact ringBuffers_ne_zero B hb haddr'
    · intro hnone
      have haddr : (s.driver.desc x).buffer1Addr = 0 := by
        by_contra hne
        obtain ⟨place, hplace, hocc⟩ := occupies_of_address hblank hne
        exact hnone ⟨_, hr.mem_ringBuffers hne hocc, place, hplace, hocc⟩
      refine ⟨?_, haddr⟩
      cases hown : B.own (s.driver.desc x)
      · rfl
      · exact absurd haddr (hr.address_of_own hown)

/-! ## Steps -/

namespace AllBlank

theorem congr {d' : Driver σ} (hb : AllBlank B d) (hring : d'.kReceiveRing = d.kReceiveRing)
    (hund : d'.history.undispatched = d.history.undispatched) : AllBlank B d' := by
  intro i hi
  rw [Dispatched, hring, hund] at hi
  rw [hring]
  exact hb i hi

theorem rxDma (hb : AllBlank B d) (i : Fin packetRingLen) (status : UInt32) (data : List UInt8) :
    AllBlank B (rxDmaRelease i status data d) := by
  intro j hj
  by_cases hji : j = i
  · have hund := hj.2
    simp only [rxDmaRelease, hji, Function.update_self] at hund
    cases hund
  · simp only [Dispatched, rxDmaRelease, Function.update_of_ne hji] at hj ⊢
    exact hb j hj

theorem packetDone (hb : AllBlank B d) (pkt : UInt32) :
    AllBlank B (packetDoneFromInterrupt B pkt d) := by
  obtain ⟨-, hdone⟩ | ⟨-, hdone⟩ | ⟨-, hdone⟩ := packetDoneFromInterrupt_cases B pkt d
  · rw [hdone]
    exact hb
  · rw [hdone]
    exact hb
  · rw [hdone]
    intro i hi
    by_cases hwr : i = d.kReceiveWr
    · have hown := hi.1
      simp only [hwr, Function.update_self] at hown
      exact absurd (hown.symm.trans (own_lent rfl)) Bool.false_ne_true
    · simp only [Dispatched, Function.update_of_ne hwr] at hi ⊢
      exact hb i hi

theorem enqueue (hb : AllBlank B d) (pkt : UInt32) (len : ℤ) :
    AllBlank B (enqueueTxFromInterrupt B pkt len d) := by
  obtain ⟨-, hdone⟩ | ⟨-, _, _, _, hqueued⟩ := enqueueTxFromInterrupt_cases B pkt len d
  · rw [hdone]
    exact hb.packetDone pkt
  · rw [hqueued]
    exact hb

end AllBlank

/-- The frame at `kReceiveRd` is passed to `PacketRxInterrupt`, which returns a length. -/
def answered (B : Board) (h : Handler σ) (d : Driver σ) : Bool :=
  let dma := d.kReceiveRing d.kReceiveRd
  B.errorFree dma.status &&
    decide (0 ≤ (h.run d.host (d.kPacketPool dma.buffer1Addr) (B.lenArg dma.status)).1)

theorem answered_iff (B : Board) (h : Handler σ) (d : Driver σ) : answered B h d = true ↔
    0 ≤ (callPacketRxInterrupt B h (d.kReceiveRing d.kReceiveRd) (takeReceiveRd d)).1 := by
  cases hok : B.errorFree (d.kReceiveRing d.kReceiveRd).status
  · simp [answered, callPacketRxInterrupt, hok, packetProcessed]
  · simp [answered, callPacketRxInterrupt, hok, takeReceiveRd]

/-- After a turn all dispatched descriptors are blank again, if the frame was answered or its buffer
went back to the descriptor that it came from. -/
theorem ethernetRXInterruptTurn_blank_iff {d' : Driver σ} (hpool : ¬ d.kInPool < 0)
    (hb : AllBlank B d) (hturn : ethernetRXInterruptTurn B h d = some d') :
    AllBlank B d' ↔ answered B h d = true ∨ d.kReceiveWr = d.kReceiveRd := by
  obtain ⟨hown, haddr, next, e, hcall, he, hd'⟩ := ethernetRXInterruptTurn_cases hturn
  rw [answered_iff, hcall]
  -- nothing but the descriptor just taken can have an address without a buffer
  have hothers : ∀ i, i ≠ d.kReceiveRd → Dispatched B e i → (e.kReceiveRing i).buffer1Addr = 0 := by
    intro i hi hdis
    rw [Dispatched, he.ring, he.undispatched, Function.update_of_ne hi] at hdis
    rw [he.ring]
    exact hb i hdis
  rcases hd' with ⟨hpos, rfl⟩ | ⟨hpos, rfl⟩
  · refine iff_of_true (AllBlank.enqueue ?_ _ _) (Or.inl hpos)
    intro i hdis
    by_cases hi : i = d.kReceiveRd
    · simp only [clearRxBuffer, hi, Function.update_self]
    · simp only [Dispatched, clearRxBuffer, Function.update_of_ne hi] at hdis ⊢
      exact hothers i hi hdis
  · rw [or_iff_right hpos]
    have hself : Dispatched B e d.kReceiveRd := by
      rw [Dispatched, he.ring, he.undispatched, Function.update_self]
      exact ⟨hown, rfl⟩
    have hleft : (e.kReceiveRing d.kReceiveRd).buffer1Addr ≠ 0 := by rw [he.ring]; exact haddr
    obtain ⟨hneg, -⟩ | ⟨hlent, hdone⟩ | ⟨-, hdone⟩ := packetDoneFromInterrupt_cases B
      (getPacketFromRing (d.kReceiveRing d.kReceiveRd)) e
    · rw [he.inPool] at hneg
      exact absurd hneg hpool
    · -- a descriptor of RxDMA at `kReceiveWr` is not the one just taken
      rw [hdone]
      refine iff_of_false (fun hall => hleft (hall d.kReceiveRd hself)) fun hsame => ?_
      rw [he.wr, hsame, hself.1] at hlent
      cases hlent
    · rw [hdone, he.wr]
      by_cases hsame : d.kReceiveWr = d.kReceiveRd
      · refine iff_of_true (fun i hdis => ?_) hsame
        by_cases hi : i = d.kReceiveRd
        · have hlent := hdis.1
          simp only [hi, hsame, Function.update_self] at hlent
          exact absurd (hlent.symm.trans (own_lent rfl)) Bool.false_ne_true
        · simp only [Dispatched, hsame, Function.update_of_ne hi] at hdis ⊢
          exact hothers i hi hdis
      · refine iff_of_false (fun hall => ?_) hsame
        have hput := hall d.kReceiveRd
        simp only [Dispatched, Function.update_of_ne (Ne.symm hsame)] at hput
        exact hleft (hput hself)

/-! ## Runs -/

/-- `EthernetRXInterrupt` takes a frame that is processed in place while `kReceiveWr` lags behind. -/
def PutsElsewhere (B : Board) (h : Handler σ) (s : System σ) (a : Action) : Prop :=
  a = .turn ∧ s.context = .receiving ∧ (ethernetRXInterruptTurn B h s.driver).isSome = true ∧
    answered B h s.driver = false ∧ s.driver.kReceiveWr ≠ s.driver.kReceiveRd

/-- `step`, with RxDMA leaving its last descriptor alone. -/
def stepLeavingOne (B : Board) (h : Handler σ) (s : System σ) (a : Action) : Option (System σ) :=
  if a.isRxDma = true → leavesOne B s.driver then step B h s a else none

theorem stepLeavingOne_step {a : Action} (hstep : stepLeavingOne B h s a = some s') :
    Step B h (leavesOne B) s s' ∧ step B h s a = some s' := by
  unfold stepLeavingOne at hstep
  split at hstep
  · rename_i hallow
    exact ⟨⟨a, hallow, hstep⟩, hstep⟩
  · cases hstep

theorem step_blank_iff {a : Action} (hpool : ¬ s.driver.kInPool < 0) (hb : AllBlank B s.driver)
    (hstep : step B h s a = some s') : AllBlank B s'.driver ↔ ¬ PutsElsewhere B h s a := by
  have hother : a ≠ .turn → AllBlank B s'.driver → (AllBlank B s'.driver ↔ ¬ PutsElsewhere B h s a) :=
    fun hne hb' => iff_of_true hb' fun hputs => hne hputs.1
  cases a with
  | rxDmaCompletes status data =>
    obtain ⟨-, rfl⟩ := step_rxDmaCompletes hstep
    exact hother (by simp) (hb.rxDma s.rxDma status data)
  | txDmaCompletes status =>
    obtain ⟨-, rfl⟩ := step_txDmaCompletes hstep
    exact hother (by simp) (hb.congr rfl rfl)
  | txDmaSuspends =>
    obtain rfl := step_txDmaSuspends hstep
    exact hother (by simp) (hb.congr rfl rfl)
  | callRX =>
    obtain rfl := step_callRX hstep
    exact hother (by simp) hb
  | callTX =>
    obtain rfl := step_callTX hstep
    exact hother (by simp) hb
  | turn =>
    have hnot : s.context = .transmitting → ¬ PutsElsewhere B h s .turn := by
      intro hctx hputs
      have hreceiving := hputs.2.1
      rw [hctx] at hreceiving
      cases hreceiving
    obtain ⟨hctx, ⟨hturn, rfl⟩ | ⟨d, hturn, rfl⟩⟩ | ⟨hctx, ⟨hturn, rfl⟩ | ⟨d, hturn, rfl⟩⟩ :=
      step_turn hstep
    · refine iff_of_true hb fun hputs => ?_
      have htaken := hputs.2.2.1
      rw [hturn] at htaken
      cases htaken
    · refine (ethernetRXInterruptTurn_blank_iff hpool hb hturn).trans ?_
      simp only [PutsElsewhere, hctx, hturn, Option.isSome_some, true_and, not_and, not_not]
      cases answered B h s.driver <;> simp
    · exact iff_of_true hb (hnot hctx)
    · obtain ⟨-, rfl⟩ := ethernetTXInterruptTurn_some hturn
      exact iff_of_true ((hb.packetDone _).congr rfl rfl) (hnot hctx)

/-- **Empty descriptors.** In every run, the test recognises the descriptors without a buffer in every
state if and only if no frame is processed in place while `kReceiveWr` lags behind `kReceiveRd`. -/
theorem always_blank_iff (B : Board) (h : Handler σ) (pool : UInt32 → Bytes) (host : σ)
    (suspended : Bool) (as : List Action) :
    Throughout (stepLeavingOne B h) (fun s => EmptyAreBlank B s.driver) (start B pool host suspended)
        as ↔
      Avoids (stepLeavingOne B h) (PutsElsewhere B h) (start B pool host suspended) as := by
  have hiff : ∀ s : System σ, Reachable B h (leavesOne B) s →
      (EmptyAreBlank B s.driver ↔ AllBlank B s.driver) := by
    intro s hs
    obtain ⟨p, w, v, hr⟩ := reachable_refines (hs.mono leavesOne_safe)
    exact ⟨EmptyAreBlank.blank, hr.emptyAreBlank⟩
  have hstart := start_reachable B h (leavesOne B) pool host suspended
  refine throughout_iff_avoids (I := Reachable B h (leavesOne B)) ?_ hstart ((hiff _ hstart).mpr ?_)
  · intro s a s' hs hblank hstep
    obtain ⟨hallowed, hstep⟩ := stepLeavingOne_step hstep
    have hs' : Reachable B h (leavesOne B) s' := by
      obtain ⟨pool, host, suspended, hto⟩ := hs
      exact ⟨pool, host, suspended, hto.tail hallowed⟩
    obtain ⟨p, w, v, hr⟩ := reachable_refines (hs.mono leavesOne_safe)
    exact ⟨hs', (hiff s' hs').trans (step_blank_iff hr.inPool_nonneg hblank.blank hstep)⟩
  · intro i hi
    exact absurd (hi.1.symm.trans (own_lent rfl)) Bool.false_ne_true

/-- The first frame is answered; the second is processed in place and its buffer goes to descriptor 0,
so that descriptors 0 and 1 have one address. -/
theorem processed_behind_a_reply_keeps_address :
    (∃ s, run (stepLeavingOne ch32v307 scripted) [goodFrame, goodFrame, .callRX, .turn, .turn]
        (start ch32v307 (fun _ _ => 0) [true, false] false) = some s ∧
        Dispatched ch32v307 s.driver 1 ∧ (s.driver.kReceiveRing 1).buffer1Addr ≠ 0 ∧
        (s.driver.kReceiveRing 0).buffer1Addr = (s.driver.kReceiveRing 1).buffer1Addr) ∧
      ¬ Throughout (stepLeavingOne ch32v307 scripted) (fun s => EmptyAreBlank ch32v307 s.driver)
        (start ch32v307 (fun _ _ => 0) [true, false] false)
        [goodFrame, goodFrame, .callRX, .turn, .turn] := by
  have hrun : ((run (stepLeavingOne ch32v307 scripted) [goodFrame, goodFrame, .callRX, .turn, .turn]
      (start ch32v307 (fun _ _ => 0) [true, false] false)).any fun s =>
      !ch32v307.own (s.driver.kReceiveRing 1) && !s.driver.history.undispatched 1 &&
        (s.driver.kReceiveRing 1).buffer1Addr != 0 &&
        (s.driver.kReceiveRing 0).buffer1Addr == (s.driver.kReceiveRing 1).buffer1Addr) = true := by
    decide +kernel
  obtain ⟨s, hs, hbad⟩ := (Option.any_eq_true _ _).mp hrun
  simp only [Bool.and_eq_true, Bool.not_eq_true', bne_iff_ne, beq_iff_eq] at hbad
  obtain ⟨⟨⟨hown, hund⟩, haddr⟩, hsame⟩ := hbad
  exact ⟨⟨s, hs, ⟨hown, hund⟩, haddr, hsame⟩,
    fun hall => haddr ((hall.last hs).blank 1 ⟨hown, hund⟩)⟩

end Wchratum1.Ethernet
