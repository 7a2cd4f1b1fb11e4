import Wchratum1.Firmware.Ledger
import Wchratum1.Firmware.Main

/-! # A run of the program is a run of the driver among calls of its generators

`programRuns_among` turns a run of the program into one of `runsAmong`: the interrupt handler's steps are
actions of the driver or none, and `main` and the end of the handler are outside changes, namely the calls
that `Record.calls` lists. So what is proved about `serve` and `events` holds of the whole program.
-/

namespace Wchratum1.Firmware
open Ethernet Prng Packet Dhcp
set_option autoImplicit false

variable {B : Board} {V : PhyBoard} {host : Host} {s s' : Program}

/-! ## Events -/

/-- The DISCOVERs whose id is drawn: those handed to `EthernetTransmit`, and the one that is to be. -/
def Program.drawn (host : Host) (s : Program) : List (List UInt8) :=
  s.record.discovers ++ if s.main = .transmitDiscover then
    [discoverFrame (macAddress host) s.currentTransactionId] else []

/-- The words that the transactions of `DHCPSendDiscover` get from the events of `as`. -/
def transactionIds (B : Board) (host : Host) (as : List (Activity PrngCall)) (s : Program) :
    List UInt32 :=
  (uses host (events B (packetHandler host) PrngCall.run as s.irq.sys) s.generators).filterMap Use.id?

/-- `as` does to the driver and the generators what the program did between `s` and `s'`. -/
structure Among (B : Board) (host : Host) (as : List (Activity PrngCall)) (s s' : Program) : Prop where
  run : runsAmong B (packetHandler host) PrngCall.run (leavesOne B) as s.irq.sys = some s'.irq.sys
  calls : s'.record.calls = s.record.calls ++ as.filterMap Activity.made
  discovers : s'.drawn host = s.drawn host ++
    (transactionIds B host as s).map (discoverFrame (macAddress host))

theorem Among.generators {as : List (Activity PrngCall)} (h : Among B host as s s') :
    s'.generators = PrngCall.runs
      (callLog host (events B (packetHandler host) PrngCall.run as s.irq.sys)) s.generators := by
  rw [← serve_generators]
  exact (runsAmong_serves h.run).2

theorem Among.none (hsys : s'.irq.sys = s.irq.sys) (hcalls : s'.record.calls = s.record.calls)
    (hdiscovers : s'.drawn host = s.drawn host) : Among B host [] s s' where
  run := by
    rw [hsys]
    rfl
  calls := by rw [hcalls, List.filterMap_nil, List.append_nil]
  discovers := by
    rw [hdiscovers]
    exact (List.append_nil _).symm

theorem Among.trans {as bs : List (Activity PrngCall)} {t : Program} (hfirst : Among B host as s t)
    (hrest : Among B host bs t s') : Among B host (as ++ bs) s s' where
  run := by
    rw [runsAmong_append, hfirst.run]
    exact hrest.run
  calls := by rw [hrest.calls, hfirst.calls, List.filterMap_append, List.append_assoc]
  discovers := by
    have hids : transactionIds B host (as ++ bs) s =
        transactionIds B host as s ++ transactionIds B host bs t := by
      rw [transactionIds, events_append bs hfirst.run, uses_append, List.filterMap_append,
        ← hfirst.generators]
      rfl
    rw [hrest.discovers, hfirst.discovers, hids, List.map_append, List.append_assoc]

theorem transactionIds_driver (B : Board) (host : Host) (b : Action) (s : Program) :
    transactionIds B host [.driver b] s = [] := by
  have hevents : events B (packetHandler host) PrngCall.run [.driver b] s.irq.sys =
      dispatched B (packetHandler host) s.irq.sys b := by
    rw [events]
    cases step B (packetHandler host) s.irq.sys b <;> exact List.append_nil _
  rw [transactionIds, hevents]
  unfold dispatched
  dsimp only
  split <;> rfl

theorem Among.irq {a : IrqAction} {irq : IrqSystem Generators} (hin : InStep s.irq)
    (hallow : a.isRxDma = true → leavesOne B s.irq.sys.driver)
    (hstep : irqStep B (packetHandler host) s.irq a = some irq) (hsys : s'.irq.sys = irq.sys)
    (hcalls : s'.record.calls = s.record.calls)
    (hdiscovers : s'.drawn host = s.drawn host) : ∃ as, Among B host as s s' := by
  rcases irqStep_action hin hstep with hsame | ⟨b, hb, hrx⟩
  · exact ⟨[], .none (hsys.trans hsame) hcalls hdiscovers⟩
  · refine ⟨[.driver b], ?_, ?_, ?_⟩
    · rw [runsAmong, if_pos fun hb => hallow (hrx hb), hb, hsys]
      rfl
    · rw [hcalls]
      exact (List.append_nil _).symm
    · rw [hdiscovers, transactionIds_driver]
      exact (List.append_nil _).symm

theorem drawn_eq_discovers (hmain : s.main ≠ .transmitDiscover) : s.drawn host = s.record.discovers := by
  rw [Program.drawn, if_neg hmain, List.append_nil]

/-- A statement of `main` leaves the handler alone. -/
theorem mainNext_among (hstep : mainNext host s = some s') :
    s'.irq.point = s.irq.point ∧ s'.irq.sys.context = s.irq.sys.context ∧ ∃ as, Among B host as s s' := by
  obtain ⟨m, hfrom, hto, rfl⟩ | ⟨hmain, rfl⟩ | ⟨hmain, rfl⟩ | ⟨hmain, rfl⟩ | ⟨hmain, rfl⟩ :=
    mainNext_cases hstep
  · refine ⟨rfl, rfl, [], .none rfl rfl ?_⟩
    rw [drawn_eq_discovers hfrom]
    exact drawn_eq_discovers hto
  · refine ⟨rfl, rfl, [.outside .csPrngInjectRandom], rfl, rfl, ?_⟩
    rw [drawn_eq_discovers (s := s) (by simp [hmain])]
    rfl
  · refine ⟨rfl, rfl, [.outside .randomUInt32], rfl, rfl, ?_⟩
    rw [drawn_eq_discovers (s := s) (by simp [hmain])]
    rfl
  · refine ⟨rfl, rfl, [], .none rfl rfl ?_⟩
    rw [Program.drawn, Program.drawn, if_pos hmain]
    exact List.append_nil _
  · refine ⟨rfl, rfl, [], .none rfl rfl ?_⟩
    rw [drawn_eq_discovers (s := s) (by simp [hmain])]
    exact List.append_nil _

theorem handled_among {irq : IrqSystem Generators} (hin : InStep s.irq)
    (hirq : irqStep B (packetHandler host) s.irq .next = some irq) :
    InStep (s.handled irq).irq ∧ ∃ as, Among B host as s (s.handled irq) := by
  have hin' := hin.step hirq
  obtain ⟨as, hamong⟩ : ∃ as, Among B host as s { s with irq, phyProcessed := false } :=
    Among.irq hin Bool.noConfusion hirq rfl rfl rfl
  unfold Program.handled
  dsimp only
  split
  · refine ⟨hin', as ++ [.outside (.csPrngInjectLowbits s.irqTick)], hamong.trans ?_⟩
    exact ⟨rfl, rfl, (List.append_nil _).symm⟩
  · exact ⟨hin', as, hamong⟩

theorem programStep_among (hin : InStep s.irq) {a : ProgramAction}
    (hallow : a.isRxDma = true → leavesOne B s.irq.sys.driver)
    (hstep : programStep B V host s a = some s') : InStep s'.irq ∧ ∃ as, Among B host as s s' := by
  obtain ⟨b, irq, irqTick, hrx, hirq, rfl⟩ | ⟨r, -, rfl⟩ | ⟨irq, -, hirq, rfl⟩ | ⟨-, hmain⟩ :=
    programStep_cases hstep
  · exact ⟨hin.step hirq, Among.irq hin (fun hb => hallow (hrx hb)) hirq rfl rfl rfl⟩
  · exact ⟨hin, [], .none rfl rfl rfl⟩
  · exact handled_among hin hirq
  · obtain ⟨hpoint, hcontext, hamong⟩ := mainNext_among (B := B) hmain
    refine ⟨?_, hamong⟩
    rw [InStep, hpoint, hcontext]
    exact hin

/-- A run of the program is one of the driver among the calls of the record. -/
theorem programRuns_among {as : List ProgramAction} (hin : InStep s.irq)
    (hrun : programRuns B V host as s = some s') : ∃ bs, Among B host bs s s' := by
  have hboth : InStep s'.irq ∧ ∃ bs, Among B host bs s s' := by
    refine programRuns_induction (P := fun t => InStep t.irq ∧ ∃ bs, Among B host bs s t) ?_ ?_ hrun
    · rintro t t' a hallow hstep ⟨hin', bs, hbs⟩
      obtain ⟨hin'', cs, hcs⟩ := programStep_among hin' hallow hstep
      exact ⟨hin'', bs ++ cs, hbs.trans hcs⟩
    · exact ⟨hin, [], .none rfl rfl rfl⟩
  exact hboth.2

/-! ## The calls of other code -/

/-- The calls that `main` and the handler make. -/
inductive OwnCall : PrngCall → Prop
  | randomUInt32 : OwnCall .randomUInt32
  | injectLowbits (x : UInt32) : OwnCall (.csPrngInjectLowbits x)
  | injectRandom : OwnCall .csPrngInjectRandom

theorem OwnCall.steps {call : PrngCall} (h : OwnCall call) : call.steps = 0 := by
  cases h <;> rfl

/-- The program has made these calls between `s` and `s'`. -/
def OwnCalls (s s' : Program) : Prop :=
  ∃ calls, s'.record.calls = s.record.calls ++ calls ∧ ∀ call ∈ calls, OwnCall call

theorem OwnCalls.none (h : s'.record.calls = s.record.calls) : OwnCalls s s' :=
  ⟨[], by rw [h, List.append_nil], fun _ hmem => absurd hmem List.not_mem_nil⟩

theorem OwnCalls.one {call : PrngCall} (h : s'.record.calls = s.record.calls ++ [call])
    (hown : OwnCall call) : OwnCalls s s' := by
  refine ⟨[call], h, fun c hc => ?_⟩
  rw [List.mem_singleton.mp hc]
  exact hown

theorem programStep_own {a : ProgramAction} (hstep : programStep B V host s a = some s') :
    OwnCalls s s' := by
  obtain ⟨b, irq, irqTick, -, -, rfl⟩ | ⟨r, -, rfl⟩ | ⟨irq, -, -, rfl⟩ | ⟨-, hmain⟩ :=
    programStep_cases hstep
  · exact .none rfl
  · exact .none rfl
  · unfold Program.handled
    dsimp only
    split
    · exact .one rfl (.injectLowbits _)
    · exact .none rfl
  · obtain ⟨m, -, -, rfl⟩ | ⟨-, rfl⟩ | ⟨-, rfl⟩ | ⟨-, rfl⟩ | ⟨-, rfl⟩ := mainNext_cases hmain
    · exact .none rfl
    · exact .one rfl .injectRandom
    · exact .one rfl .randomUInt32
    · exact .none rfl
    · exact .none rfl

theorem programRuns_own {r : Reset} {as : List ProgramAction}
    (hrun : programRuns B V host as (boot B V r) = some s) : ∀ call ∈ s.record.calls, OwnCall call := by
  refine programRuns_induction (P := fun t => ∀ call ∈ t.record.calls, OwnCall call) ?_ ?_ hrun
  · intro t t' a _ hstep hcalls
    obtain ⟨calls, hmade, hown⟩ := programStep_own hstep
    rw [hmade]
    intro call hcall
    rcases List.mem_append.mp hcall with hold | hnew
    · exact hcalls call hold
    · exact hown call hnew
  · exact fun call hcall => absurd hcall List.not_mem_nil

/-- After the boot only chargen steps the PCG. -/
theorem programRuns_spares {r : Reset} {as : List ProgramAction}
    (hrun : programRuns B V host as (boot B V r) = some s) : ∀ call ∈ s.record.calls, call.steps = 0 :=
  fun call hcall => (programRuns_own hrun call hcall).steps

theorem boot_inStep (B : Board) (V : PhyBoard) (r : Reset) : InStep (boot B V r).irq := rfl

end Wchratum1.Firmware
