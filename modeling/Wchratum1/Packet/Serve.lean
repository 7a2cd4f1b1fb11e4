import Wchratum1.Packet.Chargen
import Wchratum1.Ethernet.Linear
import Wchratum1.Prng.Pcg

/-! # What a server does with its generators

A frame makes `frameCalls` of the generators, so all that a server does with them is one list of calls
(`callLog`), in which the calls of other code stand where they were made (`serve_generators`). The words
that the chargen replies carry are the results of these calls, in order (`serve_carries`).
-/

namespace Wchratum1.Packet
open Bytes PointerCode Prng Ethernet
set_option autoImplicit false

variable {host : Host}

/-! ## The calls that a frame makes -/

/-- The calls of the payload loop. -/
def fillCalls (payload : UInt8) : List PrngCall :=
  if payload = 'T'.toUInt8 then List.replicate 368 .randomUInt32
  else if payload = 'P'.toUInt8 then List.replicate 368 .pcgUInt32
  else if payload = 'p'.toUInt8 then List.replicate 736 .pcgUInt16
  else if payload = 'C'.toUInt8 then List.replicate 92 .csPrngUInt64x2
  else []

def frameCalls (host : Host) (f : Bytes) : List PrngCall :=
  if ChargenRequest host f then fillCalls (f udpPayload) else []

theorem runs_replicate (call : PrngCall) (k : ℕ) (g : Generators) :
    PrngCall.runs (List.replicate k call) g = call.run^[k] g := by
  induction k generalizing g with
  | zero => rfl
  | succ k ih =>
    rw [List.replicate_succ, Function.iterate_succ_apply, ← ih]
    rfl

theorem fillPayload_env (payload : UInt8) (m : Bytes) (g : Generators) :
    (fillPayload payload ⟨m, g, 0⟩).env = PrngCall.runs (fillCalls payload) g := by
  unfold fillPayload filler fillCalls
  by_cases hT : payload = 'T'.toUInt8
  · simp only [if_pos hT, runs_replicate]
    rfl
  by_cases hP : payload = 'P'.toUInt8
  · simp only [if_neg hT, if_pos hP, runs_replicate]
    rfl
  by_cases hp : payload = 'p'.toUInt8
  · simp only [if_neg hT, if_neg hP, if_pos hp, runs_replicate]
    rfl
  by_cases hC : payload = 'C'.toUInt8
  · simp only [if_neg hT, if_neg hP, if_neg hp, if_pos hC, runs_replicate]
    rfl
  · simp only [if_neg hT, if_neg hP, if_neg hp, if_neg hC]
    rfl

theorem answer_env (host : Host) (f : Bytes) (g : Generators) :
    (answer host ⟨f, g, 0⟩).2.env = PrngCall.runs (frameCalls host f) g := by
  unfold frameCalls
  by_cases he : EchoRequest host f
  · have hc : ¬ ChargenRequest host f := not_chargen_of_icmp (echoRequest_iff.mp he).2.2.1
    rw [answer_of_echo he, if_neg hc]
    rfl
  by_cases hc : ChargenRequest host f
  · rw [answer_of_chargen hc, if_pos hc]
    exact fillPayload_env _ _ _
  by_cases ha : ArpRequest host f
  · rw [answer_of_arp ha, if_neg hc]
    rfl
  · rw [answer_of_none he hc ha, if_neg hc]
    rfl

/-! ## The calls of a whole log -/

def eventCalls (host : Host) : Event PrngCall → List PrngCall
  | .request frame _ => frameCalls host frame
  | .outside call => [call]

def callLog (host : Host) (es : List (Event PrngCall)) : List PrngCall := es.flatMap (eventCalls host)

theorem callLog_cons (host : Host) (e : Event PrngCall) (es : List (Event PrngCall)) :
    callLog host (e :: es) = eventCalls host e ++ callLog host es := List.flatMap_cons

theorem runs_append (calls calls' : List PrngCall) (g : Generators) :
    PrngCall.runs (calls ++ calls') g = PrngCall.runs calls' (PrngCall.runs calls g) :=
  List.foldl_append

/-- The server leaves the generators as the calls of its log do. -/
theorem serve_generators (host : Host) (es : List (Event PrngCall)) (g : Generators) :
    (serve (packetHandler host) PrngCall.run es g).2 = PrngCall.runs (callLog host es) g := by
  induction es generalizing g with
  | nil => rfl
  | cons e es ih =>
    rw [callLog_cons, runs_append]
    cases e with
    | request frame len =>
      simp only [serve, packetHandler_run]
      rw [ih, answer_env]
      rfl
    | outside call => exact ih (call.run g)

/-! ## What the replies carry -/

section Results

variable {α : Type} {value : PrngCall → Generators → Option α}

theorem results_append (calls calls' : List PrngCall) (g : Generators) :
    PrngCall.results value (calls ++ calls') g =
      PrngCall.results value calls g ++ PrngCall.results value calls' (PrngCall.runs calls g) := by
  induction calls generalizing g with
  | nil => rfl
  | cons call calls ih =>
    rw [List.cons_append, PrngCall.results, PrngCall.results, ih, List.append_assoc]
    rfl

theorem results_eq_nil {calls : List PrngCall} (hnone : ∀ call ∈ calls, ∀ g, value call g = none)
    (g : Generators) : PrngCall.results value calls g = [] := by
  induction calls generalizing g with
  | nil => rfl
  | cons call calls ih =>
    rw [PrngCall.results, hnone call List.mem_cons_self,
      ih fun c hc => hnone c (List.mem_cons_of_mem _ hc)]
    rfl

theorem results_replicate {draw : Generators → α × Generators} {call : PrngCall}
    (hvalue : ∀ g, value call g = some (draw g).1) (hrun : ∀ g, call.run g = (draw g).2) (k : ℕ)
    (g : Generators) : PrngCall.results value (List.replicate k call) g = draws draw k g := by
  induction k generalizing g with
  | zero => rfl
  | succ k ih =>
    rw [List.replicate_succ, PrngCall.results, hvalue, hrun, ih, draws]
    rfl

/-- What the reply to a chargen request for `selector` carries, as its receiver decodes it. -/
def carried (host : Host) (selector : UInt8) (decode : List UInt8 → List α) (c : Call) : List α :=
  if ChargenRequest host c.frame ∧ c.frame udpPayload = selector then
    decode (slice c.rewritten udpPayload etherMtuUdp)
  else []

/-- The call that the server makes for a request. -/
def callOf (host : Host) (f : Bytes) (len : ℤ) (g : Generators) : Call where
  frame := f
  len := len
  next := (answer host ⟨f, g, 0⟩).1
  rewritten := (answer host ⟨f, g, 0⟩).2.bytes

theorem serve_request (frame : Bytes) (len : ℤ) (es : List (Event PrngCall)) (g : Generators) :
    serve (packetHandler host) PrngCall.run (.request frame len :: es) g =
      let rest := serve (packetHandler host) PrngCall.run es (PrngCall.runs (frameCalls host frame) g)
      (callOf host frame len g :: rest.1, rest.2) := by
  simp only [serve, packetHandler_run, answer_env]
  rfl

/-- A reply carries what the calls of its frame returned. -/
def Carries (host : Host) (selector : UInt8) (decode : List UInt8 → List α)
    (value : PrngCall → Generators → Option α) : Prop :=
  ∀ f len g, carried host selector decode (callOf host f len g) =
    PrngCall.results value (frameCalls host f) g

theorem carries_of_fills (F : Filler) (draw : Generators → α × Generators) (bytes : α → List UInt8)
    (call : PrngCall) {decode : List UInt8 → List α} {selector : UInt8} (hF : filler selector = some F)
    (hout : F.out = fun g => bytes (draw g).1) (hnext : F.next = fun g => (draw g).2)
    (hcalls : fillCalls selector = List.replicate F.turns call)
    (hdecode : ∀ xs : List α, decode (xs.flatMap bytes) = xs)
    (hvalue : ∀ g, value call g = some (draw g).1) (hrun : ∀ g, call.run g = (draw g).2)
    (hother : ∀ payload, payload ≠ selector → ∀ c ∈ fillCalls payload, ∀ g, value c g = none) :
    Carries host selector decode value := by
  intro f len g
  by_cases hc : ChargenRequest host f
  · by_cases hsel : f udpPayload = selector
    · have hfills := fillPayload_fills hF hout hnext (chargenHeaders host f) g
      rw [carried, if_pos ⟨hc, hsel⟩, frameCalls, if_pos hc, hsel, hcalls,
        results_replicate hvalue hrun, callOf, answer_of_chargen hc, hsel]
      exact (congrArg decode hfills.payload).trans (hdecode _)
    · rw [carried, if_neg fun hand => hsel hand.2, frameCalls, if_pos hc]
      exact (results_eq_nil (hother _ hsel) g).symm
  · rw [carried, if_neg fun hand => hc hand.1, frameCalls, if_neg hc]
    rfl

/-- What the replies of a server carry are the results of its log, when the calls of other code have
none. -/
theorem serve_carries {selector : UInt8} {decode : List UInt8 → List α}
    (hcarries : Carries host selector decode value) {es : List (Event PrngCall)}
    (hout : ∀ call, Event.outside call ∈ es → ∀ g, value call g = none) (g : Generators) :
    (serve (packetHandler host) PrngCall.run es g).1.flatMap (carried host selector decode) =
      PrngCall.results value (callLog host es) g := by
  induction es generalizing g with
  | nil => rfl
  | cons e es ih =>
    have hrest := ih fun call hcall => hout call (List.mem_cons_of_mem _ hcall)
    rw [callLog_cons, results_append]
    cases e with
    | request frame len =>
      have hfirst := hcarries frame len g
      rw [serve_request]
      dsimp only
      rw [List.flatMap_cons, hrest, hfirst]
      rfl
    | outside call =>
      have hnone := hout call List.mem_cons_self g
      rw [eventCalls, PrngCall.results, hnone]
      exact hrest (call.run g)

end Results

theorem mem_fillCalls {payload : UInt8} {call : PrngCall} (hcall : call ∈ fillCalls payload) :
    payload = 'T'.toUInt8 ∧ call = .randomUInt32 ∨ payload = 'P'.toUInt8 ∧ call = .pcgUInt32 ∨
      payload = 'p'.toUInt8 ∧ call = .pcgUInt16 ∨ payload = 'C'.toUInt8 ∧ call = .csPrngUInt64x2 := by
  unfold fillCalls at hcall
  split at hcall
  · exact Or.inl ⟨‹_›, List.eq_of_mem_replicate hcall⟩
  split at hcall
  · exact Or.inr (Or.inl ⟨‹_›, List.eq_of_mem_replicate hcall⟩)
  split at hcall
  · exact Or.inr (Or.inr (Or.inl ⟨‹_›, List.eq_of_mem_replicate hcall⟩))
  split at hcall
  · exact Or.inr (Or.inr (Or.inr ⟨‹_›, List.eq_of_mem_replicate hcall⟩))
  · cases hcall

/-- The word that `RandomUInt32` returns to its caller. -/
def trngWord : PrngCall → Generators → Option UInt32
  | .randomUInt32, g => some (randomUInt32 g).1
  | _, _ => none

theorem carries_words : Carries host 'P'.toUInt8 words32 PrngCall.word := by
  refine carries_of_fills (wordFiller pcgUInt32) pcgUInt32 le32 .pcgUInt32 rfl rfl rfl rfl
    words32_flatMap (fun _ => rfl) (fun _ => rfl) ?_
  intro payload hne c hc g
  obtain ⟨-, rfl⟩ | ⟨heq, -⟩ | ⟨-, rfl⟩ | ⟨-, rfl⟩ := mem_fillCalls hc
  · rfl
  · exact absurd heq hne
  · rfl
  · rfl

theorem carries_halfwords : Carries host 'p'.toUInt8 words16 PrngCall.halfword := by
  refine carries_of_fills (halfFiller pcgUInt16) pcgUInt16 le16 .pcgUInt16 rfl rfl rfl rfl
    words16_flatMap (fun _ => rfl) (fun _ => rfl) ?_
  intro payload hne c hc g
  obtain ⟨-, rfl⟩ | ⟨-, rfl⟩ | ⟨heq, -⟩ | ⟨-, rfl⟩ := mem_fillCalls hc
  · rfl
  · rfl
  · exact absurd heq hne
  · rfl

theorem carries_trngWords : Carries host 'T'.toUInt8 words32 trngWord := by
  refine carries_of_fills (wordFiller randomUInt32) randomUInt32 le32 .randomUInt32 rfl rfl rfl rfl
    words32_flatMap (fun _ => rfl) (fun _ => rfl) ?_
  intro payload hne c hc g
  obtain ⟨heq, -⟩ | ⟨-, rfl⟩ | ⟨-, rfl⟩ | ⟨-, rfl⟩ := mem_fillCalls hc
  · exact absurd heq hne
  · rfl
  · rfl
  · rfl

end Wchratum1.Packet
