import Wchratum1.Ethernet.Conservation

/-! # What the driver owes to RxDMA leaving its last descriptor alone

The handler tells a received descriptor from an empty one by OWN and `Buffer1Addr` alone, and a frame
that is processed while `kReceiveWr` lags behind `kReceiveRd` leaves its address in the descriptor it
came from. As long as some descriptor is lent to RxDMA, `kReceiveRd` stops there before it comes round
to such a descriptor. Without that (`always`), the left-over address is dispatched a second time while
its buffer is queued for TxDMA (`leftover_address_dispatched`). It is enough that RxDMA completes its
last descriptor only while no address is left over (`ownership_safe`).
-/

namespace Wchratum1.Ethernet
open RingWindow
set_option autoImplicit false

variable {σ : Type} {B : Board} {h : Handler σ} {s : System σ}

/-- `EthernetRXInterrupt` takes a descriptor only when RxDMA has completed it since it was last taken,
and no buffer is lent to RxDMA while a transmit descriptor references it. -/
def OwnershipSafe (B : Board) (h : Handler σ) (d : Driver σ) : Prop :=
  ((ethernetRXInterruptTurn B h d).isSome = true → d.history.undispatched d.kReceiveRd = true) ∧
    ∀ i j, B.own (d.kReceiveRing i) = true → (d.kTransmitRing j).buffer1Addr ≠ 0 →
      (d.kReceiveRing i).buffer1Addr ≠ (d.kTransmitRing j).buffer1Addr

instance (B : Board) : DecidablePred (safe B : Driver σ → Prop) := fun d =>
  inferInstanceAs (Decidable (2 ≤ ownCount B d ∨ ∀ i, B.own (d.kReceiveRing i) = false →
    d.history.undispatched i = false → (d.kReceiveRing i).buffer1Addr = 0))

/-- A reply, a processed frame that leaves its address in descriptor 1, and seven more replies: RxDMA
has then completed every descriptor, TxDMA has sent none, and `kReceiveRd` is back at descriptor 1. -/
def wrapRound : List Action :=
  [goodFrame, goodFrame, .callRX, .turn, .turn] ++ List.replicate 7 goodFrame ++
    List.replicate 7 .turn

/-- RxDMA completing its last descriptor is enough to have a descriptor dispatched that it has not
completed again, and to lend a buffer to RxDMA that is queued for TxDMA. -/
theorem leftover_address_dispatched :
    ∃ s s', Reachable ch32v307 scripted always s ∧
      (ethernetRXInterruptTurn ch32v307 scripted s.driver).isSome = true ∧
      s.driver.history.undispatched s.driver.kReceiveRd = false ∧
      step ch32v307 scripted s .turn = some s' ∧
      ch32v307.own (s'.driver.kReceiveRing 1) = true ∧
      (s'.driver.kTransmitRing 7).buffer1Addr ≠ 0 ∧
      (s'.driver.kReceiveRing 1).buffer1Addr = (s'.driver.kTransmitRing 7).buffer1Addr := by
  have hrun : ((runs ch32v307 scripted always wrapRound
      (start ch32v307 (fun _ _ => 0) ([true, false] ++ List.replicate 7 true) false)).any fun s =>
        (ethernetRXInterruptTurn ch32v307 scripted s.driver).isSome &&
        !s.driver.history.undispatched s.driver.kReceiveRd &&
        (step ch32v307 scripted s .turn).any fun s' =>
          ch32v307.own (s'.driver.kReceiveRing 1) &&
          (s'.driver.kTransmitRing 7).buffer1Addr != 0 &&
          (s'.driver.kReceiveRing 1).buffer1Addr == (s'.driver.kTransmitRing 7).buffer1Addr) =
      true := by
    decide +kernel
  obtain ⟨s, hs, hbad⟩ := (Option.any_eq_true _ _).mp hrun
  simp only [Bool.and_eq_true, Bool.not_eq_true'] at hbad
  obtain ⟨⟨hsome, hund⟩, hstep⟩ := hbad
  obtain ⟨s', hs', hshared⟩ := (Option.any_eq_true _ _).mp hstep
  simp only [Bool.and_eq_true, bne_iff_ne, beq_iff_eq] at hshared
  obtain ⟨⟨hown, hne⟩, haddr⟩ := hshared
  exact ⟨s, s', runs_reachable (start_reachable ..) hs, hsome, hund, hs', hown, hne, haddr⟩

/-- **Ownership.** Let RxDMA complete any descriptor it owns, the last one only while no dispatched
descriptor has a left-over address. Then each completion is dispatched at most once and RxDMA is lent
no buffer that the transmit ring still references. -/
theorem ownership_safe (B : Board) (h : Handler σ) {s : System σ} (hs : Reachable B h (safe B) s) :
    OwnershipSafe B h s.driver := by
  obtain ⟨p, w, v, hr⟩ := reachable_refines hs
  constructor
  · intro hsome
    have hrx := hr.rx
    cases hlanded : p.landed with
    | nil =>
      rw [hlanded] at hrx
      rcases hrx.idle id with hown | haddr
      · simp [ethernetRXInterruptTurn, hown] at hsome
      · simp [ethernetRXInterruptTurn, haddr] at hsome
    | cons x ls =>
      rw [hlanded] at hrx
      rw [hrx.rd]
      exact (holds_cons.mp hrx.landeds).1.2.1
  · intro i j hown hne haddr
    obtain ⟨k, hk, hi⟩ := (hr.rx.own_iff i).mp hown
    have hmem : (s.driver.kReceiveRing i).buffer1Addr ∈ B.ringBuffers := by
      rw [hi, (hr.rx.frees.get k hk).2.2]
      refine hr.buffers.subset ?_
      simp only [Pipeline.buffers, List.mem_append]
      exact Or.inl (Or.inl (Or.inl (List.getElem_mem hk)))
    obtain ⟨place, -, huniq⟩ := hr.exists_unique_place hmem
    have hrx := huniq (.rxOwn i) ⟨hown, rfl⟩
    have htx := huniq (.tx j) haddr.symm
    cases hrx.trans htx.symm

theorem ownership_safe_all_completed :
    ∃ s, runs ch32v307 scripted (safe ch32v307) (List.replicate 8 goodFrame ++ [.callRX, .turn, .turn])
        (start ch32v307 (fun _ _ => 0) [true, false] false) = some s ∧
      OwnershipSafe ch32v307 scripted s.driver := by
  obtain ⟨s, hs⟩ := Option.isSome_iff_exists.mp (show Option.isSome (runs ch32v307 scripted
    (safe ch32v307) (List.replicate 8 goodFrame ++ [.callRX, .turn, .turn])
    (start ch32v307 (fun _ _ => 0) [true, false] false)) = true by decide +kernel)
  exact ⟨s, hs, ownership_safe _ _ (runs_reachable (start_reachable ..) hs)⟩

end Wchratum1.Ethernet
