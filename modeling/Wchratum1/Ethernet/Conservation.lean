import Wchratum1.Ethernet.Simulation

/-! # No packet buffer is lost or duplicated

`Occupies` reads off the descriptors where a buffer is. In a state that refines a pipeline the places
that are occupied are those of the pipeline's buffers (`Refines.occupies_iff`), and these are the eight
buffers of the ring, each once.
-/

namespace Wchratum1.Ethernet
open RingWindow
set_option autoImplicit false

variable {σ : Type} {B : Board} {h : Handler σ} {s : System σ}
  {p : Pipeline UInt32 Arrival (List UInt8)} {w v : ℕ}

inductive Place
  | rxOwn (i : Fin packetRingLen)
  | rxCompleted (i : Fin packetRingLen)
  | tx (j : Fin packetRingLen)
  deriving DecidableEq

/-- The buffer at address `b` is lent to RxDMA at a receive descriptor, or waits there completed and
not yet dispatched, or is referenced by a transmit descriptor. -/
def Occupies (B : Board) (d : Driver σ) (b : UInt32) : Place → Prop
  | .rxOwn i => B.own (d.kReceiveRing i) = true ∧ (d.kReceiveRing i).buffer1Addr = b
  | .rxCompleted i => B.own (d.kReceiveRing i) = false ∧ d.history.undispatched i = true ∧
      (d.kReceiveRing i).buffer1Addr = b
  | .tx j => (d.kTransmitRing j).buffer1Addr = b

def stretch {β : Type} (buffer : β → UInt32) (place : ℕ → Place) (l : List β) :
    List (UInt32 × Place) := l.mapIdx fun k x => (buffer x, place k)

theorem stretch_fst {β : Type} (buffer : β → UInt32) (place : ℕ → Place) (l : List β) :
    (stretch buffer place l).map Prod.fst = l.map buffer := by
  apply List.ext_getElem?
  intro k
  cases hk : l[k]? <;> simp [stretch, hk]

theorem mem_stretch {β : Type} {buffer : β → UInt32} {place : ℕ → Place} {l : List β} {b : UInt32}
    {pl : Place} :
    (b, pl) ∈ stretch buffer place l ↔ ∃ k x, l[k]? = some x ∧ buffer x = b ∧ place k = pl := by
  simp only [stretch, List.mem_mapIdx, Prod.mk.injEq]
  constructor
  · rintro ⟨k, hk, hb, hpl⟩
    exact ⟨k, l[k], List.getElem?_eq_getElem hk, hb, hpl⟩
  · rintro ⟨k, x, hx, hb, hpl⟩
    obtain ⟨hk, rfl⟩ := List.getElem?_eq_some_iff.mp hx
    exact ⟨k, hk, hb, hpl⟩

/-- The buffers of a pipeline with the descriptors they are at. -/
def placed (p : Pipeline UInt32 Arrival (List UInt8)) (w v : ℕ) : List (UInt32 × Place) :=
  stretch id (fun k => .rxOwn (slot packetRingLen (w + p.held + p.landed.length + k))) p.free ++
  stretch Prod.fst (fun k => .rxCompleted (slot packetRingLen (w + p.held + k))) p.landed ++
  stretch Prod.fst (fun k => .tx (slot packetRingLen (v + p.done.length + k))) p.queued ++
  stretch id (fun k => .tx (slot packetRingLen (v + k))) p.done

theorem placed_fst (p : Pipeline UInt32 Arrival (List UInt8)) (w v : ℕ) :
    (placed p w v).map Prod.fst = p.buffers := by
  simp only [placed, Pipeline.buffers, List.map_append, stretch_fst, List.map_id]

theorem mem_placed {b : UInt32} {place : Place} :
    (b, place) ∈ placed p w v ↔
      (∃ k, p.free[k]? = some b ∧
        .rxOwn (slot packetRingLen (w + p.held + p.landed.length + k)) = place) ∨
      (∃ k x, p.landed[k]? = some x ∧ x.1 = b ∧
        .rxCompleted (slot packetRingLen (w + p.held + k)) = place) ∨
      (∃ k x, p.queued[k]? = some x ∧ x.1 = b ∧
        .tx (slot packetRingLen (v + p.done.length + k)) = place) ∨
      ∃ k, p.done[k]? = some b ∧ .tx (slot packetRingLen (v + k)) = place := by
  simp only [placed, List.mem_append, mem_stretch, id_eq, or_assoc]
  constructor
  · rintro (⟨k, x, hx, rfl, hp⟩ | h | h | ⟨k, x, hx, rfl, hp⟩)
    · exact Or.inl ⟨k, hx, hp⟩
    · exact Or.inr (Or.inl h)
    · exact Or.inr (Or.inr (Or.inl h))
    · exact Or.inr (Or.inr (Or.inr ⟨k, hx, hp⟩))
  · rintro (⟨k, hx, hp⟩ | h | h | ⟨k, hx, hp⟩)
    · exact Or.inl ⟨k, b, hx, rfl, hp⟩
    · exact Or.inr (Or.inl h)
    · exact Or.inr (Or.inr (Or.inl h))
    · exact Or.inr (Or.inr (Or.inr ⟨k, b, hx, rfl, hp⟩))

/-- The descriptors say of every buffer address what the pipeline says. -/
theorem Refines.occupies_iff (hr : Refines B s p w v) {b : UInt32} (hb : b ≠ 0) (place : Place) :
    Occupies B s.driver b place ↔ (b, place) ∈ placed p w v := by
  rw [mem_placed]
  constructor
  · intro hocc
    cases place with
    | rxOwn i =>
      obtain ⟨hown, haddr⟩ := hocc
      rcases hr.rx.place i with hi | ⟨k, x, -, -, hi⟩ | ⟨k, c, hc, rfl, hi⟩
      · exact absurd (hown.symm.trans hi.1) (by decide)
      · exact absurd (hown.symm.trans hi.1) (by decide)
      · refine Or.inl ⟨k, ?_, rfl⟩
        rw [hc, ← haddr, hi.2.2]
    | rxCompleted i =>
      obtain ⟨hown, hund, haddr⟩ := hocc
      rcases hr.rx.place i with hi | ⟨k, x, hx, rfl, hi⟩ | ⟨k, c, -, -, hi⟩
      · exact absurd (hund.symm.trans hi.2.1) (by decide)
      · exact Or.inr (Or.inl ⟨k, x, hx, hi.2.2.1.symm.trans haddr, rfl⟩)
      · exact absurd (hown.symm.trans hi.1) (by decide)
    | tx j =>
      rcases hr.tx.place j with ⟨k, c, hc, rfl, hj⟩ | ⟨k, x, hx, rfl, hj⟩ | hj
      · refine Or.inr (Or.inr (Or.inr ⟨k, ?_, rfl⟩))
        rw [hc, ← hj.2, show _ = b from hocc]
      · exact Or.inr (Or.inr (Or.inl ⟨k, x, hx, hj.2.1.symm.trans hocc, rfl⟩))
      · exact absurd (hocc.symm.trans hj.2) hb
  · rintro (⟨k, hk, rfl⟩ | ⟨k, x, hx, rfl, rfl⟩ | ⟨k, x, hx, rfl, rfl⟩ | ⟨k, hk, rfl⟩)
    · have := hr.rx.frees k b hk
      exact ⟨this.1, this.2.2⟩
    · have := hr.rx.landeds k x hx
      exact ⟨this.1, this.2.1, this.2.2.1⟩
    · exact (hr.tx.queueds k x hx).2.1
    · exact (hr.tx.dones k b hk).2

theorem Refines.exists_unique_place (hr : Refines B s p w v) {b : UInt32}
    (hb : b ∈ B.ringBuffers) : ∃! place, Occupies B s.driver b place := by
  have hb0 := ringBuffers_ne_zero B hb
  have hmem : b ∈ (placed p w v).map Prod.fst := by
    rw [placed_fst]
    exact hr.buffers.mem_iff.mpr hb
  obtain ⟨⟨b', place⟩, hplace, rfl⟩ := List.mem_map.mp hmem
  refine ⟨place, (hr.occupies_iff hb0 place).mpr hplace, fun place' hocc => ?_⟩
  have hplace' := (hr.occupies_iff hb0 place').mp hocc
  have hnd : ((placed p w v).map Prod.fst).Nodup := placed_fst p w v ▸ hr.buffers_nodup
  exact congrArg Prod.snd (List.inj_on_of_nodup_map hnd hplace' hplace rfl)

/-! ## The indices count the buffers on the transmit side -/

def txCount (d : Driver σ) : ℕ :=
  (Finset.univ.filter fun j => (d.kTransmitRing j).buffer1Addr ≠ 0).card

theorem Refines.txCount_eq (hr : Refines B s p w v) : txCount s.driver = p.held := by
  have htot := hr.tx.total
  refine card_stretch (a := v) (by rw [Pipeline.held]; omega) fun j => ?_
  have hmem : ∀ b ∈ p.buffers, b ≠ 0 := fun b hb =>
    ringBuffers_ne_zero B (hr.buffers.subset hb)
  constructor
  · intro hj
    rcases hr.tx.place j with ⟨k, c, hc, rfl, -⟩ | ⟨k, x, hx, rfl, -⟩ | hu
    · have := (List.getElem?_eq_some_iff.mp hc).1
      exact ⟨k, by rw [Pipeline.held]; omega, rfl⟩
    · have := (List.getElem?_eq_some_iff.mp hx).1
      exact ⟨p.done.length + k, by rw [Pipeline.held]; omega, by rw [Nat.add_assoc]⟩
    · exact absurd hu.2 hj
  · rintro ⟨k, hk, rfl⟩
    by_cases h1 : k < p.done.length
    · rw [(hr.tx.dones.get k h1).2]
      exact hmem _ (by simp [Pipeline.buffers])
    · rw [Pipeline.held] at hk
      have := (hr.tx.queueds.get (k - p.done.length) (by omega)).2.1
      rw [show v + p.done.length + (k - p.done.length) = v + k by omega] at this
      rw [this]
      refine hmem _ ?_
      simp only [Pipeline.buffers, List.mem_append, List.mem_map]
      exact Or.inl (Or.inr ⟨_, List.getElem_mem _, rfl⟩)

theorem Refines.index_distance (hr : Refines B s p w v) (hlt : p.held < packetRingLen) :
    (s.driver.kReceiveRd - s.driver.kReceiveWr).val = p.held ∧
      (s.driver.kTransmitRd - s.driver.kTransmitWr).val = p.held := by
  have hval : (slot packetRingLen p.held).val = p.held := Nat.mod_eq_of_lt hlt
  constructor
  · rw [hr.rx.rd, hr.rx.wr, slot_add, add_sub_cancel_left, hval]
  · rw [hr.tx.rd, hr.tx.wr, Nat.add_assoc, slot_add, add_sub_cancel_left]
    exact hval

/-- **Buffer conservation.** In every state of every run, with any handler, each of the eight buffers
of the ring is in exactly one place; the two pairs of indices are the same distance apart, which is
the number of buffers that transmit descriptors reference; and no buffer has leaked. -/
theorem buffers_conserved (B : Board) (h : Handler σ) {s : System σ}
    (hs : Reachable B h (leavesOne B) s) :
    (∀ i < packetRingLen, ∃! place, Occupies B s.driver (B.frameAddr i) place) ∧
      (s.driver.kReceiveRd - s.driver.kReceiveWr).val =
        (s.driver.kTransmitRd - s.driver.kTransmitWr).val ∧
      (s.driver.kTransmitRd - s.driver.kTransmitWr).val = txCount s.driver ∧
      s.driver.kInPool = Int8.ofNat (packetPoolLen - 1) ∧ s.driver.history.leaked = [] := by
  obtain ⟨p, w, v, hr, hpos⟩ := reachable_lends hs
  have htot := hr.rx.total
  obtain ⟨hrxd, htxd⟩ := hr.index_distance (by omega)
  refine ⟨fun i hi => ?_, hrxd.trans htxd.symm, htxd.trans hr.txCount_eq.symm, hr.inPool, hr.leaked⟩
  exact hr.exists_unique_place (List.mem_map.mpr ⟨i, List.mem_range.mpr hi, rfl⟩)

theorem mixedTraffic_runs :
    ∃ s, runs ch32v307 scripted (leavesOne ch32v307) mixedTraffic mixedStart = some s :=
  Option.isSome_iff_exists.mp (by decide +kernel)

theorem buffers_conserved_mixed_traffic :
    ∃ s, runs ch32v307 scripted (leavesOne ch32v307) mixedTraffic mixedStart = some s ∧
      (∀ i < packetRingLen, ∃! place, Occupies ch32v307 s.driver (ch32v307.frameAddr i) place) ∧
      (s.driver.kReceiveRd - s.driver.kReceiveWr).val =
        (s.driver.kTransmitRd - s.driver.kTransmitWr).val ∧
      (s.driver.kTransmitRd - s.driver.kTransmitWr).val = txCount s.driver ∧
      s.driver.kInPool = Int8.ofNat (packetPoolLen - 1) ∧ s.driver.history.leaked = [] := by
  obtain ⟨s, hs⟩ := mixedTraffic_runs
  exact ⟨s, hs, buffers_conserved _ _ (runs_reachable (start_reachable ..) hs)⟩

end Wchratum1.Ethernet
