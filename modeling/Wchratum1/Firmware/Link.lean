import Wchratum1.Dhcp.Discover
import Mathlib.Data.UInt

/-! # The link of the internal 10M PHY

Translated from `src/src/ethernet.c` (`EthernetProcessPHYLinkInterrupt`, `Internal10MPhyReset`), `src/src/main.c`
(`EthernetPHYLinkChangeInterrupt`) and `src/src/dhcp.c` (`DHCPReset`). `Link` is what these functions write;
what the PHY answers to the three reads is `PhyReads`.

`PhyBoard` holds what they take from the vendor's SDK: bits of the PHY, of `MACCR` and of `EXTEN_CTR`, and
the bits of `MACCR` that `ETH_Start` sets. The busy wait between the two writes of `EXTEN_CTR` does nothing
here.
-/

namespace Wchratum1.Firmware
open Dhcp
set_option autoImplicit false

structure PhyBoard where
  phyLinkedStatus : UInt16
  phyAutoNegoComplete : UInt16
  ethModeFullDuplex : UInt32
  ethSpeed100M : UInt32
  ethSpeed1000M : UInt32
  extenEth10MEn : UInt32
  ethStartEnables : UInt32
  /-- The duplex bit is not a speed bit, and `ETH_Start` sets neither. -/
  duplex_speed : ethModeFullDuplex &&& (ethSpeed100M ||| ethSpeed1000M) = 0
  start_duplex : ethStartEnables &&& ethModeFullDuplex = 0
  start_speed : ethStartEnables &&& (ethSpeed100M ||| ethSpeed1000M) = 0

/-- The bits of `ch32v30x_eth.h` and `ch32v30x.h`; `ETH_Start` sets TE and RE. -/
def ch32v307Phy : PhyBoard where
  phyLinkedStatus := 0x0004
  phyAutoNegoComplete := 0x0020
  ethModeFullDuplex := 0x00000800
  ethSpeed100M := 0x00004000
  ethSpeed1000M := 0x00008000
  extenEth10MEn := 0x00000004
  ethStartEnables := 0x0000000C
  duplex_speed := by decide
  start_duplex := by decide
  start_speed := by decide

def phySRFull10M : UInt16 := (1 : UInt16) <<< 2

def phyAnlparSelector : UInt16 := 0x1F

def phyAnlparSelectCSMACD : UInt16 := 0x01

structure PhyReads where
  phyAnlpar : UInt16
  phyBasicStatus : UInt16
  phyStatus : UInt16
  deriving DecidableEq

/-- `ETH_WritePHYRegister(…, PHY_BCR, PHY_Reset)` and `(…, PHY_MDIX, PHY_PN_SWITCH_AUTO)`. -/
inductive PhyWrite
  | reset
  | mdixAuto
  deriving DecidableEq

structure Link where
  maccr : UInt32
  extenCtr : UInt32
  phyLinkReady : Bool
  dhcpState : DHCPState
  /-- The calls of `ETH_WritePHYRegister`, oldest first. -/
  phyWrites : List PhyWrite

variable {V : PhyBoard}

/-! ## Functions -/

def ethWritePHYRegister (w : PhyWrite) (l : Link) : Link := { l with phyWrites := l.phyWrites ++ [w] }

def dhcpReset (l : Link) : Link := { l with dhcpState := .none }

def ethernetPHYLinkChangeInterrupt (phyLinkReady : Bool) (l : Link) : Link :=
  if phyLinkReady then dhcpReset l else l

def internal10MPhyReset (V : PhyBoard) (l : Link) : Link :=
  let l := ethWritePHYRegister .reset l
  let l := { l with extenCtr := l.extenCtr &&& ~~~V.extenEth10MEn }
  let l := { l with extenCtr := l.extenCtr ||| V.extenEth10MEn }
  let l := { l with phyLinkReady := false }
  let l := ethernetPHYLinkChangeInterrupt l.phyLinkReady l
  ethWritePHYRegister .mdixAuto l

def ethStart (V : PhyBoard) (l : Link) : Link := { l with maccr := l.maccr ||| V.ethStartEnables }

def ethernetProcessPHYLinkInterrupt (V : PhyBoard) (r : PhyReads) (l : Link) : Link :=
  if r.phyBasicStatus &&& V.phyLinkedStatus ≠ 0 ∧ r.phyAnlpar = 0 then internal10MPhyReset V l
  else if r.phyBasicStatus &&& V.phyLinkedStatus ≠ 0 ∧
      r.phyBasicStatus &&& V.phyAutoNegoComplete ≠ 0 then
    let l :=
      if r.phyStatus &&& phySRFull10M ≠ 0 then { l with maccr := l.maccr ||| V.ethModeFullDuplex }
      else if r.phyAnlpar &&& phyAnlparSelector ≠ phyAnlparSelectCSMACD then
        { l with maccr := l.maccr ||| V.ethModeFullDuplex }
      else { l with maccr := l.maccr &&& ~~~V.ethModeFullDuplex }
    let l := { l with maccr := l.maccr &&& ~~~(V.ethSpeed100M ||| V.ethSpeed1000M) }
    let l := { l with phyLinkReady := true }
    let l := ethernetPHYLinkChangeInterrupt l.phyLinkReady l
    ethStart V l
  else internal10MPhyReset V l

/-! ## What the PHY reported -/

/-- Linked, negotiated, and with a partner that said something. -/
def PhyReads.Up (V : PhyBoard) (r : PhyReads) : Prop :=
  r.phyBasicStatus &&& V.phyLinkedStatus ≠ 0 ∧ r.phyBasicStatus &&& V.phyAutoNegoComplete ≠ 0 ∧
    r.phyAnlpar ≠ 0

instance decidableUp (V : PhyBoard) : DecidablePred (PhyReads.Up V) :=
  fun _ => inferInstanceAs (Decidable (_ ∧ _ ∧ _))

def PhyReads.fullDuplex (r : PhyReads) : Bool :=
  r.phyStatus &&& phySRFull10M != 0 || r.phyAnlpar &&& phyAnlparSelector != phyAnlparSelectCSMACD

theorem phyReset_eq (V : PhyBoard) (l : Link) : internal10MPhyReset V l = { l with
    extenCtr := l.extenCtr &&& ~~~V.extenEth10MEn ||| V.extenEth10MEn
    phyLinkReady := false
    phyWrites := l.phyWrites ++ [.reset, .mdixAuto] } := by
  simp [internal10MPhyReset, ethernetPHYLinkChangeInterrupt, ethWritePHYRegister]

theorem process_down {r : PhyReads} (hdown : ¬ r.Up V) (l : Link) :
    ethernetProcessPHYLinkInterrupt V r l = internal10MPhyReset V l := by
  unfold ethernetProcessPHYLinkInterrupt
  by_cases hlinked : r.phyBasicStatus &&& V.phyLinkedStatus ≠ 0
  · by_cases hanlpar : r.phyAnlpar = 0
    · rw [if_pos ⟨hlinked, hanlpar⟩]
    · rw [if_neg fun hand => hanlpar hand.2, if_neg fun hand => hdown ⟨hlinked, hand.2, hanlpar⟩]
  · rw [if_neg fun hand => hlinked hand.1, if_neg fun hand => hlinked hand.1]

theorem process_up {r : PhyReads} (hup : r.Up V) (l : Link) :
    ethernetProcessPHYLinkInterrupt V r l = { l with
      maccr := (if r.fullDuplex then l.maccr ||| V.ethModeFullDuplex
        else l.maccr &&& ~~~V.ethModeFullDuplex) &&& ~~~(V.ethSpeed100M ||| V.ethSpeed1000M) |||
          V.ethStartEnables
      phyLinkReady := true
      dhcpState := .none } := by
  obtain ⟨hlinked, hnego, hanlpar⟩ := hup
  unfold ethernetProcessPHYLinkInterrupt PhyReads.fullDuplex
  rw [if_neg fun hand => hanlpar hand.2, if_pos ⟨hlinked, hnego⟩]
  by_cases hfull : r.phyStatus &&& phySRFull10M = 0
  · by_cases hselector : r.phyAnlpar &&& phyAnlparSelector = phyAnlparSelectCSMACD
    · simp [hfull, hselector, ethernetPHYLinkChangeInterrupt, dhcpReset, ethStart]
    · simp [hfull, hselector, ethernetPHYLinkChangeInterrupt, dhcpReset, ethStart]
  · simp [hfull, ethernetPHYLinkChangeInterrupt, dhcpReset, ethStart]

/-! ## Bits -/

theorem and_or_self (x b : UInt32) : (x ||| b) &&& b = b := by
  apply UInt32.toBitVec_inj.mp
  ext i hi
  simpa using Or.inr

theorem and_not_and_self (x b : UInt32) : x &&& ~~~b &&& b = 0 := by
  apply UInt32.toBitVec_inj.mp
  ext i hi
  simp

theorem bits_disjoint {x y : UInt32} (h : x &&& y = 0) (i : ℕ) (hi : i < 32) :
    (x.toBitVec[i] && y.toBitVec[i]) = false := by
  have hbit := congrArg (fun w : UInt32 => w.toBitVec[i]) h
  simpa using hbit

theorem or_and_of_disjoint {x y b : UInt32} (h : y &&& b = 0) : (x ||| y) &&& b = x &&& b := by
  apply UInt32.toBitVec_inj.mp
  ext i hi
  have hbit := bits_disjoint h i hi
  simp only [UInt32.toBitVec_and, UInt32.toBitVec_or, BitVec.getElem_and, BitVec.getElem_or]
  rw [Bool.and_or_distrib_right, hbit, Bool.or_false]

theorem and_not_and_of_disjoint {x b c : UInt32} (h : b &&& c = 0) :
    x &&& ~~~c &&& b = x &&& b := by
  apply UInt32.toBitVec_inj.mp
  ext i hi
  have hbit := bits_disjoint h i hi
  simp only [UInt32.toBitVec_and, UInt32.toBitVec_not, BitVec.getElem_and, BitVec.getElem_not]
  revert hbit
  cases b.toBitVec[i] <;> cases c.toBitVec[i] <;> simp

/-- What a link-up writes into the duplex bit and the speed bits. -/
theorem maccr_up (V : PhyBoard) (full : Bool) (x : UInt32) :
    let maccr := (if full then x ||| V.ethModeFullDuplex else x &&& ~~~V.ethModeFullDuplex) &&&
      ~~~(V.ethSpeed100M ||| V.ethSpeed1000M) ||| V.ethStartEnables
    maccr &&& V.ethModeFullDuplex = (if full then V.ethModeFullDuplex else 0) ∧
      maccr &&& (V.ethSpeed100M ||| V.ethSpeed1000M) = 0 := by
  constructor
  · rw [or_and_of_disjoint V.start_duplex, and_not_and_of_disjoint V.duplex_speed]
    cases full with
    | true => exact and_or_self _ _
    | false => exact and_not_and_self _ _
  · rw [or_and_of_disjoint V.start_speed, and_not_and_self]

end Wchratum1.Firmware
