import Wchratum1.Firmware.Session

/-! # The link over a whole run

What the handler of the PHY and DHCP leave is told by what happened: `Follows` reads the duplex mode, the
link and the DHCP state off the last events that matter to them, in any order of readings of the PHY and
assignments at the end of `DHCPSendDiscover`. It holds after the boot, a reading keeps it, an assignment
keeps it, and nothing else in the program touches the link.

A reading can come while `main` is in `DHCPSendDiscover`: if it finds the link up, the assignment overwrites
what `DHCPReset` left, though no DISCOVER was handed over since (`link_follows_overwritten`).
-/

namespace Wchratum1.Firmware
open Ethernet Prng Packet Dhcp
set_option autoImplicit false

variable {B : Board} {V : PhyBoard} {host : Host} {s s' : Program} {es : List LinkEvent} {l : Link}

/-! ## What an event matters to -/

def LinkEvent.reading? : LinkEvent → Option PhyReads
  | .phy r => some r
  | .discover => none

/-- The readings that found the link up. -/
def ups (V : PhyBoard) (es : List LinkEvent) : List PhyReads :=
  (es.filterMap LinkEvent.reading?).filter fun r => decide (r.Up V)

/-- An assignment of SENT_DISCOVER, or a reading that makes DHCP start again. -/
def LinkEvent.ofDHCP (V : PhyBoard) : LinkEvent → Bool
  | .phy r => decide (r.Up V)
  | .discover => true

/-- The last event that matters to DHCP was an assignment of SENT_DISCOVER. -/
def discovering (V : PhyBoard) (es : List LinkEvent) : Bool :=
  match (es.filter (LinkEvent.ofDHCP V)).getLast? with
  | some .discover => true
  | _ => false

structure Follows (V : PhyBoard) (es : List LinkEvent) (l : Link) : Prop where
  enabled : l.extenCtr &&& V.extenEth10MEn = V.extenEth10MEn
  ready : l.phyLinkReady = true ↔ ∃ r, (es.filterMap LinkEvent.reading?).getLast? = some r ∧ r.Up V
  duplex : ∀ r, (ups V es).getLast? = some r →
    l.maccr &&& V.ethModeFullDuplex = if r.fullDuplex then V.ethModeFullDuplex else 0
  speed : ups V es ≠ [] → l.maccr &&& (V.ethSpeed100M ||| V.ethSpeed1000M) = 0
  dhcp : l.dhcpState = if discovering V es then .sentDiscover else .none
  writes : l.phyWrites = [.reset, .mdixAuto] ++
    (es.filterMap LinkEvent.reading?).flatMap fun r => if r.Up V then [] else [.reset, .mdixAuto]

/-! ## One event -/

theorem readings_phy (es : List LinkEvent) (r : PhyReads) :
    (es ++ [LinkEvent.phy r]).filterMap LinkEvent.reading? = es.filterMap LinkEvent.reading? ++ [r] := by
  rw [List.filterMap_append]
  rfl

theorem readings_discover (es : List LinkEvent) :
    (es ++ [LinkEvent.discover]).filterMap LinkEvent.reading? = es.filterMap LinkEvent.reading? := by
  rw [List.filterMap_append]
  exact List.append_nil _

theorem ups_up {r : PhyReads} (hup : r.Up V) (es : List LinkEvent) :
    ups V (es ++ [.phy r]) = ups V es ++ [r] := by
  rw [ups, readings_phy, List.filter_append, List.filter_cons_of_pos (by simpa using hup)]
  rfl

theorem ups_down {r : PhyReads} (hdown : ¬ r.Up V) (es : List LinkEvent) :
    ups V (es ++ [.phy r]) = ups V es := by
  rw [ups, readings_phy, List.filter_append, List.filter_cons_of_neg (by simpa using hdown)]
  exact List.append_nil _

theorem discovering_up {r : PhyReads} (hup : r.Up V) (es : List LinkEvent) :
    discovering V (es ++ [.phy r]) = false := by
  have hmatters : LinkEvent.ofDHCP V (.phy r) = true := decide_eq_true hup
  rw [discovering, List.filter_append, List.filter_cons_of_pos hmatters, List.filter_nil,
    List.getLast?_concat]

theorem discovering_down {r : PhyReads} (hdown : ¬ r.Up V) (es : List LinkEvent) :
    discovering V (es ++ [.phy r]) = discovering V es := by
  have hmatters : ¬ LinkEvent.ofDHCP V (.phy r) = true := by simpa [LinkEvent.ofDHCP] using hdown
  rw [discovering, List.filter_append, List.filter_cons_of_neg hmatters, List.filter_nil,
    List.append_nil]
  rfl

theorem discovering_discover (V : PhyBoard) (es : List LinkEvent) :
    discovering V (es ++ [.discover]) = true := by
  have hmatters : LinkEvent.ofDHCP V .discover = true := rfl
  rw [discovering, List.filter_append, List.filter_cons_of_pos hmatters, List.filter_nil,
    List.getLast?_concat]

/-- A reading that finds the link up. -/
theorem Follows.up (h : Follows V es l) {r : PhyReads} (hup : r.Up V) :
    Follows V (es ++ [.phy r]) (ethernetProcessPHYLinkInterrupt V r l) := by
  obtain ⟨hduplex, hspeed⟩ := maccr_up V r.fullDuplex l.maccr
  rw [process_up hup]
  refine ⟨h.enabled, ?_, ?_, fun _ => hspeed, ?_, ?_⟩
  · rw [readings_phy, List.getLast?_concat]
    exact ⟨fun _ => ⟨r, rfl, hup⟩, fun _ => rfl⟩
  · rw [ups_up hup, List.getLast?_concat]
    intro r' hr'
    obtain rfl := Option.some.inj hr'
    exact hduplex
  · rw [discovering_up hup]
    rfl
  · rw [readings_phy, List.flatMap_append, List.flatMap_singleton, if_pos hup, List.append_nil]
    exact h.writes

/-- A reading that does not: the PHY is reset. -/
theorem Follows.down (h : Follows V es l) {r : PhyReads} (hdown : ¬ r.Up V) :
    Follows V (es ++ [.phy r]) (ethernetProcessPHYLinkInterrupt V r l) := by
  rw [process_down hdown, phyReset_eq]
  refine ⟨and_or_self _ _, ?_, ?_, ?_, ?_, ?_⟩
  · rw [readings_phy, List.getLast?_concat]
    constructor
    · exact fun hready => absurd hready Bool.false_ne_true
    · rintro ⟨r', hr', hup⟩
      obtain rfl := Option.some.inj hr'
      exact absurd hup hdown
  · rw [ups_down hdown]
    exact h.duplex
  · rw [ups_down hdown]
    exact h.speed
  · rw [discovering_down hdown]
    exact h.dhcp
  · rw [readings_phy, List.flatMap_append, List.flatMap_singleton, if_neg hdown, ← List.append_assoc,
      ← h.writes]

theorem Follows.discover (h : Follows V es l) :
    Follows V (es ++ [.discover]) { l with dhcpState := .sentDiscover } := by
  have hups : ups V (es ++ [.discover]) = ups V es := by rw [ups, readings_discover, ups]
  refine ⟨h.enabled, ?_, ?_, ?_, ?_, ?_⟩
  · rw [readings_discover]
    exact h.ready
  · rw [hups]
    exact h.duplex
  · rw [hups]
    exact h.speed
  · rw [discovering_discover]
    rfl
  · rw [readings_discover]
    exact h.writes

/-! ## Runs -/

theorem boot_follows (B : Board) (V : PhyBoard) (r : Reset) :
    Follows V (boot B V r).record.link (boot B V r).link where
  enabled := and_or_self _ _
  ready := ⟨fun h => absurd h Bool.false_ne_true, fun ⟨_, hr, _⟩ => by cases hr⟩
  duplex := fun _ hr => by cases hr
  speed := fun h => absurd rfl h
  dhcp := rfl
  writes := rfl

theorem programStep_follows {a : ProgramAction} (h : Follows V s.record.link s.link)
    (hstep : programStep B V host s a = some s') : Follows V s'.record.link s'.link := by
  obtain ⟨b, irq, irqTick, -, -, rfl⟩ | ⟨r, -, rfl⟩ | ⟨irq, -, -, rfl⟩ | ⟨-, hmain⟩ :=
    programStep_cases hstep
  · exact h
  · by_cases hup : r.Up V
    · exact h.up hup
    · exact h.down hup
  · unfold Program.handled
    dsimp only
    split
    · exact h
    · exact h
  · obtain ⟨m, -, -, rfl⟩ | ⟨-, rfl⟩ | ⟨-, rfl⟩ | ⟨-, rfl⟩ | ⟨-, rfl⟩ := mainNext_cases hmain
    · exact h
    · exact h
    · exact h
    · exact h
    · exact h.discover

/-- **The link follows the PHY.** In every run of the program, whatever the PHY answers and between whichever
statements of `main` its readings come: after the boot and after each reading the 10M PHY is enabled; the
link is ready exactly when the last reading found it up; duplex and speed are those of the last reading that
did; `dhcp_state` is SENT_DISCOVER exactly when the assignment at the end of `DHCPSendDiscover` was made
after the last such reading, and NONE otherwise; and the PHY was reset at the boot and once for each reading
that found the link down, and only then. -/
theorem link_follows (B : Board) (V : PhyBoard) (host : Host) (r : Reset) {as : List ProgramAction}
    {s : Program} (hrun : programRuns B V host as (boot B V r) = some s) :
    Follows V s.record.link s.link :=
  programRuns_induction (fun _ _ _ _ hstep h => programStep_follows h hstep) (boot_follows B V r) hrun

/-- The PHY reports a link, full duplex, while `main` is between `EthernetTransmit` and the assignment. -/
def linkComesUp : List ProgramAction :=
  List.replicate 5 .main ++ [.rxDmaCompletes 0x00400300 (List.replicate 60 0),
    .otherFlags false false true false, .enter 5] ++ List.replicate 7 .next ++
    [.processPHYLink ⟨0x0041, 0x0024, 0x0004⟩] ++ List.replicate 3 .next ++ [.main]

theorem link_follows_overwritten :
    ∃ s, programRuns ch32v307 ch32v307Phy prdk linkComesUp (boot ch32v307 ch32v307Phy outOfReset) =
        some s ∧ s.record.link = [.phy ⟨0x0041, 0x0024, 0x0004⟩, .discover] ∧
      s.record.discovers.length = 1 ∧ Follows ch32v307Phy s.record.link s.link := by
  obtain ⟨s, hs, hend⟩ : ∃ s, programRuns ch32v307 ch32v307Phy prdk linkComesUp
      (boot ch32v307 ch32v307Phy outOfReset) = some s ∧
        decide (s.record.link = [.phy ⟨0x0041, 0x0024, 0x0004⟩, .discover] ∧
          s.record.discovers.length = 1) = true :=
    (Option.any_eq_true _ _).mp (by decide +kernel)
  obtain ⟨hlink, hone⟩ := of_decide_eq_true hend
  exact ⟨s, hs, hlink, hone, link_follows ch32v307 ch32v307Phy prdk outOfReset hs⟩

end Wchratum1.Firmware
