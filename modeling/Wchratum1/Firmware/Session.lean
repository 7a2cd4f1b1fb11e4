import Wchratum1.Firmware.Log

/-! # What a whole run makes of the TRNG

The boot draws 4164 words: 68 for the key of `CSPrngInit` and 4096 for `uBench`. After it, in every run of
the program in which `main`'s calls of the generators are atomic, each further word is used once and in
order, and what leaves the program or goes into the key is a function of its own words only
(`trng_ledger`).
-/

namespace Wchratum1.Firmware
open Ethernet Prng Packet Dhcp Bytes
set_option autoImplicit false

variable {B : Board} {V : PhyBoard} {host : Host} {s s' : Program}

/-! ## The boot -/

theorem initRounds_trng (rounds : List ℕ) (g : Generators) :
    (rounds.foldl csPrngInitRound g).trng = fun k => g.trng (k + 4 * rounds.length) := by
  induction rounds generalizing g with
  | nil => rfl
  | cons round rounds ih =>
    have hround : (csPrngInitRound g round).trng = fun k => g.trng (k + 4) := rfl
    rw [List.foldl_cons, ih, hround, List.length_cons]
    funext k
    exact congrArg g.trng (by omega)

theorem prngInit_trng (g : Generators) : (prngInit g).trng = fun k => g.trng (k + 68) := by
  have hround := initRounds_trng (List.range 16) { (drawWords id g).2 with kPrngKey := (drawWords id g).1 }
  rw [List.length_range] at hround
  have hinit : (prngInit g).trng =
      ((List.range 16).foldl csPrngInitRound
        { (drawWords id g).2 with kPrngKey := (drawWords id g).1 }).trng := rfl
  rw [hinit, hround]
  rfl

theorem draws_length {α : Type} (draw : Generators → α × Generators) (k : ℕ) (g : Generators) :
    (draws draw k g).length = k := by
  induction k generalizing g with
  | zero => rfl
  | succ k ih => rw [draws, List.length_cons, ih]

theorem booted_eq (r : Reset) : r.booted = PrngCall.runs bootCalls (prngInit r.generators) := by
  unfold Reset.booted
  exact Eq.refl _

theorem booted_trng (r : Reset) : r.booted.trng = fun k => r.generators.trng (4164 + k) := by
  have hdrawn : (PrngCall.results drawnWord bootCalls (prngInit r.generators)).length = 4096 := by
    have hpcg : ∀ call ∈ List.replicate 10 PrngCall.pcgUInt32, ∀ g, drawnWord call g = none := by
      intro call hcall g
      rw [List.eq_of_mem_replicate hcall]
      rfl
    have hboot : bootCalls = List.replicate 10 .pcgUInt32 ++ List.replicate 4096 .randomUInt32 := rfl
    rw [hboot, results_append, results_eq_nil hpcg, List.nil_append,
      results_replicate (fun _ => rfl) (fun _ => rfl), draws_length]
  obtain ⟨-, htrng⟩ := results_draws bootCalls (prngInit r.generators)
  rw [hdrawn] at htrng
  funext k
  have hindex : 4096 + k + 68 = 4164 + k := by omega
  calc r.booted.trng k = (PrngCall.runs bootCalls (prngInit r.generators)).trng k :=
        congrArg (fun g => g.trng k) (booted_eq r)
    _ = (prngInit r.generators).trng (4096 + k) := congrFun htrng k
    _ = r.generators.trng (4096 + k + 68) := congrFun (prngInit_trng _) _
    _ = r.generators.trng (4164 + k) := by rw [hindex]

/-! ## The ledger -/

def drawsKeyWord : InjectCall → Bool
  | .random => true
  | .lowbits _ => false

/-- The words that `CSPrngInjectRandom` has drawn, as a TRNG that delivers no others. -/
def keyWords (us : List Use) (k : ℕ) : UInt32 := (us.filterMap Use.key?)[k]?.getD 0

/-- Each word since the boot has one use, and what came of the words is made of these uses. -/
structure Accounts (B : Board) (host : Host) (r : Reset) (us : List Use) (s : Program) : Prop where
  words : us.flatMap Use.words =
    (List.range (us.flatMap Use.words).length).map fun k => r.generators.trng (4164 + k)
  next : s.generators.trng = fun k => r.generators.trng (4164 + (us.flatMap Use.words).length + k)
  replies : s.irq.sys.driver.history.calls.flatMap (carried host 'T'.toUInt8 words32) =
    us.flatMap Use.replied
  sent : s.irq.sys.driver.history.sent <+: s.irq.sys.driver.history.calls.filterMap (Call.reply B)
  discovers : s.drawn host = (us.filterMap Use.id?).map (discoverFrame (macAddress host))
  keys : (us.filterMap Use.key?).length = (s.record.calls.filterMap injection?).countP drawsKeyWord
  key : SameKey s.generators
    (InjectCall.runs (s.record.calls.filterMap injection?) { r.booted with trng := keyWords us })

theorem uses_keys (es : List (Event PrngCall)) (g : Generators) :
    ((uses host es g).filterMap Use.key?).length =
      (es.filterMap Event.injection?).countP drawsKeyWord := by
  induction es generalizing g with
  | nil => rfl
  | cons e es ih =>
    rw [uses, List.filterMap_append, List.length_append, ih]
    cases e with
    | request frame len => exact Nat.zero_add _
    | outside call =>
      cases call with
      | csPrngInjectRandom =>
        rw [List.filterMap_cons_some (rfl : Event.injection? (.outside .csPrngInjectRandom) = some .random),
          List.countP_cons_of_pos rfl]
        exact Nat.add_comm _ _
      | _ => exact Nat.zero_add _

theorem injections_eq (es : List (Event PrngCall)) : es.filterMap Event.injection? =
    (es.filterMap Event.made).filterMap injection? := by
  rw [List.filterMap_filterMap]
  refine List.filterMap_congr fun e _ => ?_
  cases e <;> rfl

theorem sameKey_trng (g : Generators) (trng : ℕ → UInt32) : SameKey g { g with trng := trng } :=
  ⟨rfl, rfl, rfl⟩

theorem boot_irq (B : Board) (V : PhyBoard) (r : Reset) :
    (boot B V r).irq = irqStart B r.pool r.booted r.suspended r.dmasr := rfl

-- for any `host`: on `r.booted` the kernel would run the boot
theorem irqStart_host {σ : Type} (B : Board) (pool : UInt32 → Bytes) (host : σ) (suspended : Bool)
    (dmasr : Dmasr) : (irqStart B pool host suspended dmasr).sys.driver.host = host := rfl

theorem irqStart_calls {σ : Type} (B : Board) (pool : UInt32 → Bytes) (host : σ) (suspended : Bool)
    (dmasr : Dmasr) : (irqStart B pool host suspended dmasr).sys.driver.history.calls = [] := rfl

theorem boot_generators (B : Board) (V : PhyBoard) (r : Reset) : (boot B V r).generators = r.booted := by
  rw [Program.generators, boot_irq, irqStart_host]

/-- Of a run since the boot: the events, and what they did. -/
structure Since (B : Board) (host : Host) (r : Reset) (es : List (Event PrngCall)) (s : Program) :
    Prop where
  generators : s.generators = PrngCall.runs (callLog host es) r.booted
  calls : s.irq.sys.driver.history.calls = (serve (packetHandler host) PrngCall.run es r.booted).1
  made : es.filterMap Event.made = s.record.calls
  discovers : s.drawn host =
    ((uses host es r.booted).filterMap Use.id?).map (discoverFrame (macAddress host))
  refines : ∃ p w v, Refines B s.irq.sys p w v

theorem programRuns_since {r : Reset} {as : List ProgramAction}
    (hrun : programRuns B V host as (boot B V r) = some s) : ∃ es, Since B host r es s := by
  obtain ⟨bs, hamong⟩ := programRuns_among (boot_inStep B V r) hrun
  obtain ⟨hcalls, -⟩ := runsAmong_serves hamong.run
  have hgenerators := hamong.generators
  have hdiscovers := hamong.discovers
  rw [transactionIds, boot_generators] at hdiscovers
  rw [boot_generators] at hgenerators
  refine ⟨events B (packetHandler host) PrngCall.run bs (boot B V r).irq.sys, hgenerators, ?_, ?_,
    hdiscovers, (start_refines r.pool r.booted r.suspended).runsAmong hamong.run⟩
  · rw [hcalls, boot_irq, irqStart_calls, irqStart_host]
    exact List.nil_append _
  · rw [events_made hamong.run, hamong.calls]
    rfl

theorem Since.injections {r : Reset} {es : List (Event PrngCall)} (h : Since B host r es s) :
    es.filterMap Event.injection? = s.record.calls.filterMap injection? := by
  rw [injections_eq, h.made]

/-- After an initial part of the events the key is what their injections leave, on a TRNG that delivers the
words of the key only. -/
theorem sameKey_after {es fs : List (Event PrngCall)} (hinitial : fs <+: es) (g : Generators) :
    SameKey (PrngCall.runs (callLog host fs) g)
      (InjectCall.runs (fs.filterMap Event.injection?) { g with trng := keyWords (uses host es g) }) := by
  obtain ⟨later, rfl⟩ := hinitial
  refine uses_key fs (sameKey_trng g _) fun k w hw => ?_
  change keyWords (uses host (fs ++ later) g) k = w
  have hlt := (List.getElem?_eq_some_iff.mp hw).1
  rw [keyWords, uses_append, List.filterMap_append, List.getElem?_append_left hlt, hw]
  rfl

theorem Since.accounts {r : Reset} {es : List (Event PrngCall)} (h : Since B host r es s) :
    Accounts B host r (uses host es r.booted) s := by
  obtain ⟨hwords, hnext⟩ : Draws ((uses host es r.booted).flatMap Use.words) r.booted
      (PrngCall.runs (callLog host es) r.booted) := uses_words es r.booted
  obtain ⟨p, w, v, hr⟩ := h.refines
  refine ⟨?_, ?_, ?_, hr.sent_initial, h.discovers, ?_, ?_⟩
  · rw [delivered, booted_trng] at hwords
    exact hwords
  · rw [h.generators, hnext, booted_trng]
    simp only [Nat.add_assoc]
  · rw [h.calls, uses_replied]
  · rw [uses_keys, h.injections]
  · rw [h.generators, ← h.injections]
    exact sameKey_after List.prefix_rfl r.booted

/-- A board with a TRNG that counts. -/
def outOfReset : Reset where
  generators := PrngCall.atReset
  pool := fun _ _ => 0xEE
  suspended := false
  dmasr := ⟨false, false, false, false, false, false, false⟩
  maccr := 0
  extenCtr := 0

/-- One turn of the main loop up to the delay, the interrupt for one frame, and the interrupt after its
reply. -/
def firstFrame (frame : Bytes) : List ProgramAction :=
  List.replicate 6 .main ++ [.rxDmaCompletes 0x00400300 (firstBytes 60 frame), .enter 5] ++
    List.replicate 10 .next ++ [.txDmaCompletes 0x70C00000, .enter 6] ++ List.replicate 10 .next

end Wchratum1.Firmware
