import Wchratum1.Firmware.Session
import Wchratum1.Packet.Messages

/-! # What the network sees of a whole run

From outside, a run of the program is a conversation: the frames that it sends are, in order, what the
server of messages says to what it hears (`program_converses`). And a client that asks for one of the two
PCG streams and strings the data of the datagrams together has the generator's outputs, without a gap
(`chargen_streams`).
-/

namespace Wchratum1.Firmware
open Ethernet Prng Packet Dhcp Bytes
set_option autoImplicit false

variable {B : Board} {V : PhyBoard} {host : Host} {r : Reset} {s : Program} {es : List (Event PrngCall)}

/-! ## Frames -/

theorem Since.asked (h : Since B host r es s) :
    es.filterMap Event.asked = s.irq.sys.driver.history.calls.map Call.request := by
  rw [h.calls, serve_requests]

theorem Since.asked_initial (h : Since B host r es s) :
    es.filterMap Event.asked <+: B.received s.irq.sys.driver := by
  obtain ⟨p, w, v, hr⟩ := h.refines
  rw [h.asked]
  exact hr.calls_initial

theorem Since.sent_initial (h : Since B host r es s) : s.irq.sys.driver.history.sent <+:
    (serve (packetHandler host) PrngCall.run es r.booted).1.filterMap (Call.reply B) := by
  obtain ⟨p, w, v, hr⟩ := h.refines
  rw [← h.calls]
  exact hr.sent_initial

/-- Nothing is on its way. -/
theorem Since.settled (h : Since B host r es s) (hs : Settled B (packetHandler host) s.irq.sys) :
    es.filterMap Event.asked = B.received s.irq.sys.driver ∧ s.irq.sys.driver.history.sent =
      (serve (packetHandler host) PrngCall.run es r.booted).1.filterMap (Call.reply B) := by
  obtain ⟨p, w, v, hr⟩ := h.refines
  have hrestored := hr.restored hs
  rw [h.asked, ← h.calls]
  exact ⟨hrestored.calls, hrestored.sent⟩

/-! ## The conversation -/

theorem turns_calls (es : List (Event PrngCall)) :
    (es.filterMap turnOf).filterMap Turn.call = es.filterMap Event.made := by
  rw [List.filterMap_filterMap]
  refine List.filterMap_congr fun e _ => ?_
  cases e with
  | request frame len =>
    rw [turnOf]
    cases heardIn (frame, len) <;> rfl
  | outside call => rfl

theorem turns_messages (es : List (Event PrngCall)) : (es.filterMap turnOf).filterMap Turn.message =
    (es.filterMap Event.asked).filterMap heardIn := by
  rw [List.filterMap_filterMap, List.filterMap_filterMap]
  refine List.filterMap_congr fun e _ => ?_
  cases e with
  | request frame len =>
    rw [turnOf, Event.asked, Option.bind_some]
    cases heardIn (frame, len) <;> rfl
  | outside call => rfl

/-- **The program converses.** In every run of the program in which the frames that arrive are honest,
the frames that it sends decode, in order and each once, to what the server of messages says to the
messages that arrive, where the calls of `main` and of the interrupt handler stand among them; and this
server leaves the generators as the program does, `main`'s calls of them taken as atomic. When nothing is on
its way, everything has been said. -/
theorem program_converses (B : Board) (V : PhyBoard) (host : Host) (r : Reset)
    {as : List ProgramAction} {s : Program} (hrun : programRuns B V host as (boot B V r) = some s)
    (hhonest : ∀ request ∈ B.received s.irq.sys.driver, Honest host request.1 request.2.toNat) :
    ∃ turns : List Turn,
      let said := converse host turns r.booted
      let heard := (B.received s.irq.sys.driver).filterMap heardIn
      let sent := s.irq.sys.driver.history.sent.map parse
      turns.filterMap Turn.call = s.record.calls ∧ turns.filterMap Turn.message <+: heard ∧
        sent <+: said.1.map some ∧ s.generators = said.2 ∧
        (Settled B (packetHandler host) s.irq.sys →
          turns.filterMap Turn.message = heard ∧ sent = said.1.map some) := by
  obtain ⟨es, hsince⟩ := programRuns_since hrun
  have hinitial := hsince.asked_initial
  obtain ⟨hreplies, hafter⟩ := serve_converses B
    (fun request hmem => hhonest request (hinitial.subset hmem)) r.booted
  refine ⟨es.filterMap turnOf, ?_, ?_, ?_, ?_, ?_⟩
  · rw [turns_calls, hsince.made]
  · rw [turns_messages]
    exact hinitial.filterMap heardIn
  · rw [← hreplies]
    exact hsince.sent_initial.map parse
  · rw [← hafter, hsince.generators, serve_generators]
  · intro hsettled
    obtain ⟨hasked, hsent⟩ := hsince.settled hsettled
    rw [turns_messages, hasked, hsent, hreplies]
    exact ⟨rfl, rfl⟩

theorem program_converses_first_frame :
    ∃ s turns, programRuns ch32v307 ch32v307Phy prdk (firstFrame pingFrame)
        (boot ch32v307 ch32v307Phy outOfReset) = some s ∧
      let said := converse prdk turns outOfReset.booted
      s.irq.sys.driver.history.sent.length = 1 ∧
      s.irq.sys.driver.history.sent.map parse = said.1.map some ∧
      turns.filterMap Turn.message = (ch32v307.received s.irq.sys.driver).filterMap heardIn ∧
      turns.filterMap Turn.call = s.record.calls ∧ s.generators = said.2 := by
  obtain ⟨s, hs, hend⟩ : ∃ s, programRuns ch32v307 ch32v307Phy prdk (firstFrame pingFrame)
      (boot ch32v307 ch32v307Phy outOfReset) = some s ∧ decide
        ((∀ request ∈ ch32v307.received s.irq.sys.driver, Honest prdk request.1 request.2.toNat) ∧
          Settled ch32v307 (packetHandler prdk) s.irq.sys ∧
          s.irq.sys.driver.history.sent.length = 1) = true :=
    (Option.any_eq_true _ _).mp (by decide +kernel)
  obtain ⟨hhonest, hsettled, hone⟩ := of_decide_eq_true hend
  obtain ⟨turns, hcalls, -, -, hgenerators, hall⟩ :=
    program_converses ch32v307 ch32v307Phy prdk outOfReset hs hhonest
  obtain ⟨hheard, hsaid⟩ := hall hsettled
  exact ⟨s, turns, hs, hone, hsaid, hheard, hcalls, hgenerators⟩

/-! ## The streams of PCG -/

theorem pcgSteps_append (calls calls' : List PrngCall) :
    PrngCall.pcgSteps (calls ++ calls') = PrngCall.pcgSteps calls + PrngCall.pcgSteps calls' := by
  rw [PrngCall.pcgSteps, List.map_append, List.sum_append]
  rfl

theorem steps_of_mem_callLog {call : PrngCall} (hcall : call ∈ callLog host es)
    (hspares : ∀ c ∈ es.filterMap Event.made, c.steps = 0) :
    call.steps = 0 ∨ ∃ request ∈ es.filterMap Event.asked, call ∈ frameCalls host request.1 := by
  obtain ⟨e, he, hmem⟩ := List.mem_flatMap.mp hcall
  cases e with
  | request frame len =>
    exact Or.inr ⟨(frame, len), List.mem_filterMap.mpr ⟨_, he, rfl⟩, hmem⟩
  | outside c =>
    obtain rfl := List.mem_singleton.mp hmem
    exact Or.inl (hspares call (List.mem_filterMap.mpr ⟨_, he, rfl⟩))

/-- How far a frame moves the PCG state. -/
def pcgCost (host : Host) (f : Bytes) : ℕ :=
  if ChargenRequest host f then
    if f udpPayload = 'P'.toUInt8 then 368 else if f udpPayload = 'p'.toUInt8 then 736 else 0
  else 0

theorem pcgSteps_frameCalls (host : Host) (f : Bytes) :
    PrngCall.pcgSteps (frameCalls host f) = pcgCost host f := by
  have hsteps : ∀ k call, PrngCall.pcgSteps (List.replicate k call) = k * call.steps := by
    intro k call
    rw [PrngCall.pcgSteps, List.map_replicate, List.sum_replicate_nat]
  unfold frameCalls pcgCost fillCalls
  by_cases hc : ChargenRequest host f
  · rw [if_pos hc, if_pos hc]
    by_cases hT : f udpPayload = 'T'.toUInt8
    · rw [if_pos hT, hT, hsteps]
      rfl
    rw [if_neg hT]
    split
    · exact hsteps 368 .pcgUInt32
    split
    · exact hsteps 736 .pcgUInt16
    split
    · exact hsteps 92 .csPrngUInt64x2
    · rfl
  · rw [if_neg hc, if_neg hc]
    rfl

theorem pcgSteps_callLog (hspares : ∀ c ∈ es.filterMap Event.made, c.steps = 0) :
    PrngCall.pcgSteps (callLog host es) =
      ((es.filterMap Event.asked).map fun request => pcgCost host request.1).sum := by
  induction es with
  | nil => rfl
  | cons e es ih =>
    rw [callLog_cons, pcgSteps_append]
    cases e with
    | request frame len =>
      rw [ih hspares, eventCalls, pcgSteps_frameCalls]
      rfl
    | outside c =>
      have hown : c.steps = 0 := hspares c List.mem_cons_self
      rw [ih fun d hd => hspares d (List.mem_cons_of_mem _ hd), eventCalls, PrngCall.pcgSteps,
        List.map_singleton, List.sum_singleton, hown, Nat.zero_add]
      rfl

theorem sum_cost {α : Type} {l : List α} {cost : α → ℕ} {p : α → Prop} [DecidablePred p] {k : ℕ}
    (hcost : ∀ x ∈ l, cost x = if p x then k else 0) :
    (l.map cost).sum = k * l.countP fun x => p x := by
  induction l with
  | nil => rfl
  | cons x l ih =>
    rw [List.map_cons, List.sum_cons, ih fun y hy => hcost y (List.mem_cons_of_mem _ hy),
      hcost x List.mem_cons_self, List.countP_cons, Nat.mul_add, Nat.add_comm]
    by_cases hp : p x
    · simp [hp]
    · simp [hp]

section
variable {α : Type} {decode : List UInt8 → List α} {value : PrngCall → Generators → Option α}
  {out : UInt32 → α} {selector : UInt8} {call : PrngCall} {k : ℕ}

theorem outputs_of_append {xs ys : List α} {n : ℕ} {rng : Pcg32i}
    (h : xs ++ ys = PrngCall.outputs out n rng) : xs = PrngCall.outputs out xs.length rng := by
  have hlength := congrArg List.length h
  rw [List.length_append, PrngCall.outputs, List.length_map, List.length_range] at hlength
  rw [← hlength, PrngCall.outputs_add] at h
  refine (List.append_inj h ?_).1
  rw [PrngCall.outputs, List.length_map, List.length_range]

/-- If every request is for `selector`, the replies string together to the outputs of its generator. -/
theorem Since.stream (hsince : Since B host r es s) (hspares : ∀ c ∈ s.record.calls, c.steps = 0)
    (hselector : ∀ request ∈ B.received s.irq.sys.driver, ChargenRequest host request.1 →
      request.1 udpPayload = selector)
    (hcarries : Carries host selector decode value) (hnil : decode [] = [])
    (hfill : fillCalls selector = List.replicate k call)
    (hcost : ∀ f, ChargenRequest host f → f udpPayload = selector → pcgCost host f = k)
    (hvalue : ∀ c, c.steps = 0 ∨ c = call → ∀ g,
      (value c g).toList = PrngCall.outputs out c.steps g.pcg32) :
    let xs := s.irq.sys.driver.history.sent.flatMap fun frame => decode (chargenData frame)
    xs = PrngCall.outputs out xs.length r.booted.pcg32 ∧
      (Settled B (packetHandler host) s.irq.sys → xs.length =
        k * (B.received s.irq.sys.driver).countP fun request => ChargenRequest host request.1) := by
  rw [← hsince.made] at hspares
  have hasked := fun request hmem => hselector request (hsince.asked_initial.subset hmem)
  have hcalls : ∀ c ∈ callLog host es, c.steps = 0 ∨ c = call := by
    intro c hc
    rcases steps_of_mem_callLog hc hspares with hzero | ⟨request, hmem, hframe⟩
    · exact Or.inl hzero
    · unfold frameCalls at hframe
      split at hframe
      · rename_i hreq
        rw [hasked request hmem hreq, hfill] at hframe
        exact Or.inr (List.eq_of_mem_replicate hframe)
      · cases hframe
  have hnone : ∀ c, Event.outside c ∈ es → ∀ g, value c g = none := by
    intro c hc g
    have hzero := hspares c (List.mem_filterMap.mpr ⟨_, hc, rfl⟩)
    have hlist := hvalue c (Or.inl hzero) g
    rw [hzero] at hlist
    exact Option.toList_eq_nil_iff.mp hlist
  have hall := replies_carry B hnil hasked r.booted
  dsimp only at hall ⊢
  rw [serve_carries hcarries hnone,
    PrngCall.results_eq_outputs fun c hc g => hvalue c (hcalls c hc) g] at hall
  constructor
  · obtain ⟨rest, hrest⟩ := hsince.sent_initial
    rw [← hrest, List.flatMap_append] at hall
    exact outputs_of_append hall
  · intro hsettled
    obtain ⟨hreceived, hsent⟩ := hsince.settled hsettled
    rw [hsent, hall, PrngCall.outputs, List.length_map, List.length_range, pcgSteps_callLog hspares,
      hreceived]
    refine sum_cost fun request hmem => ?_
    split
    · rename_i hreq
      exact hcost _ hreq (hselector request hmem hreq)
    · rename_i hreq
      exact if_neg hreq

end

/-- **A client has the stream.** In every run of the program in which all chargen requests are for `P`,
the words in the data that it sends are the outputs of `PcgUInt32` from the state that the boot left, one
after the other; in which all are for `p`, the half words are those of `PcgUInt16`. When nothing is on its
way, each request has got its datagram's worth. -/
theorem chargen_streams (B : Board) (V : PhyBoard) (host : Host) (r : Reset) {as : List ProgramAction}
    {s : Program} (hrun : programRuns B V host as (boot B V r) = some s) :
    let received := B.received s.irq.sys.driver
    let asked := received.countP fun request => ChargenRequest host request.1
    let words := s.irq.sys.driver.history.sent.flatMap fun frame => words32 (chargenData frame)
    let halfwords := s.irq.sys.driver.history.sent.flatMap fun frame => words16 (chargenData frame)
    ((∀ request ∈ received, ChargenRequest host request.1 → request.1 udpPayload = 'P'.toUInt8) →
      words = PrngCall.outputs outputRxsMXs words.length r.booted.pcg32 ∧
        (Settled B (packetHandler host) s.irq.sys → words.length = 368 * asked)) ∧
    ((∀ request ∈ received, ChargenRequest host request.1 → request.1 udpPayload = 'p'.toUInt8) →
      halfwords = PrngCall.outputs outputXshRs halfwords.length r.booted.pcg32 ∧
        (Settled B (packetHandler host) s.irq.sys → halfwords.length = 736 * asked)) := by
  obtain ⟨es, hsince⟩ := programRuns_since hrun
  have hspares := programRuns_spares hrun
  constructor
  · intro hselector
    refine hsince.stream hspares hselector carries_words rfl rfl ?_ fun c hc => ?_
    · intro f hreq hP
      rw [pcgCost, if_pos hreq, if_pos hP]
    refine PrngCall.word_toList fun heq => ?_
    rw [heq] at hc
    rcases hc with h | h <;> cases h
  · intro hselector
    refine hsince.stream hspares hselector carries_halfwords rfl rfl ?_ fun c hc => ?_
    · intro f hreq hp
      rw [pcgCost, if_pos hreq, hp]
      rfl
    refine PrngCall.halfword_toList fun heq => ?_
    rw [heq] at hc
    rcases hc with h | h <;> cases h

theorem chargen_streams_first_frame :
    ∃ s, programRuns ch32v307 ch32v307Phy prdk (firstFrame (chargenFrame 'P'.toUInt8 0xEE))
        (boot ch32v307 ch32v307Phy outOfReset) = some s ∧
      let words := s.irq.sys.driver.history.sent.flatMap fun frame => words32 (chargenData frame)
      s.irq.sys.driver.history.sent.length = 1 ∧ words.length = 368 ∧
        words = PrngCall.outputs outputRxsMXs 368 outOfReset.booted.pcg32 := by
  obtain ⟨s, hs, hend⟩ : ∃ s, programRuns ch32v307 ch32v307Phy prdk
      (firstFrame (chargenFrame 'P'.toUInt8 0xEE)) (boot ch32v307 ch32v307Phy outOfReset) = some s ∧
        decide ((∀ request ∈ ch32v307.received s.irq.sys.driver, ChargenRequest prdk request.1 →
            request.1 udpPayload = 'P'.toUInt8) ∧
          Settled ch32v307 (packetHandler prdk) s.irq.sys ∧
          s.irq.sys.driver.history.sent.length = 1 ∧
          (ch32v307.received s.irq.sys.driver).countP (fun q => ChargenRequest prdk q.1) = 1) = true :=
    (Option.any_eq_true _ _).mp (by decide +kernel)
  obtain ⟨hselector, hsettled, hsent, hasked⟩ := of_decide_eq_true hend
  obtain ⟨hwords, -⟩ := chargen_streams ch32v307 ch32v307Phy prdk outOfReset hs
  obtain ⟨hstream, hall⟩ := hwords hselector
  have hlength := hall hsettled
  rw [hasked] at hlength
  rw [hlength] at hstream
  exact ⟨s, hs, hsent, hlength, hstream⟩

/-- **No word comes twice.** In every run of the program, whatever the network asks for, the words in the
replies to requests for `P` are among the outputs of the PCG since the boot, in order; and they are pairwise
distinct until the requests for `P` and `p` have moved its state `2 ^ 32` times. -/
theorem pcg_words_distinct (B : Board) (V : PhyBoard) (host : Host) (r : Reset)
    {as : List ProgramAction} {s : Program} (hrun : programRuns B V host as (boot B V r) = some s) :
    let calls := s.irq.sys.driver.history.calls
    let words := calls.flatMap (carried host 'P'.toUInt8 words32)
    let moved := (calls.map fun c => pcgCost host c.frame).sum
    words.Sublist (PrngCall.outputs outputRxsMXs moved r.booted.pcg32) ∧
      (moved ≤ 2 ^ 32 → words.Nodup) := by
  obtain ⟨es, hsince⟩ := programRuns_since hrun
  have hspares := programRuns_spares hrun
  rw [← hsince.made] at hspares
  have hnone : ∀ c, Event.outside c ∈ es → ∀ g, PrngCall.word c g = none := by
    intro c hc g
    have hzero := hspares c (List.mem_filterMap.mpr ⟨_, hc, rfl⟩)
    cases c with
    | pcgUInt32 => cases hzero
    | _ => rfl
  have hmoved : (s.irq.sys.driver.history.calls.map fun c => pcgCost host c.frame).sum =
      PrngCall.pcgSteps (callLog host es) := by
    rw [pcgSteps_callLog hspares, hsince.asked, List.map_map]
    rfl
  have hsublist := PrngCall.results_sublist PrngCall.word_sublist (callLog host es) r.booted
  rw [← serve_carries carries_words hnone, ← hsince.calls, ← hmoved] at hsublist
  refine ⟨hsublist, fun hfew => ?_⟩
  have hodd : r.booted.pcg32.Odd := by
    rw [booted_eq]
    exact PrngCall.runs_odd _ (prngInit_odd _)
  exact (PrngCall.outputs_nodup hodd hfew).sublist hsublist

theorem pcg_words_distinct_first_frame :
    ∃ s, programRuns ch32v307 ch32v307Phy prdk (firstFrame (chargenFrame 'P'.toUInt8 0xEE))
        (boot ch32v307 ch32v307Phy outOfReset) = some s ∧
      (s.irq.sys.driver.history.calls.flatMap (carried prdk 'P'.toUInt8 words32)).Nodup := by
  obtain ⟨s, hs, hfew⟩ : ∃ s, programRuns ch32v307 ch32v307Phy prdk
      (firstFrame (chargenFrame 'P'.toUInt8 0xEE)) (boot ch32v307 ch32v307Phy outOfReset) = some s ∧
        decide ((s.irq.sys.driver.history.calls.map fun c => pcgCost prdk c.frame).sum ≤ 2 ^ 32) = true :=
    (Option.any_eq_true _ _).mp (by decide +kernel)
  obtain ⟨-, hnodup⟩ := pcg_words_distinct ch32v307 ch32v307Phy prdk outOfReset hs
  exact ⟨s, hs, hnodup (of_decide_eq_true hfew)⟩

end Wchratum1.Firmware
