import Wchratum1.Packet.Serve
import Wchratum1.Prng.Refresh

/-! # What becomes of the words of the TRNG

`uses` lists, for a log of events, what was done with each word that was drawn: it went into a reply, it
became the id of a DHCP transaction, or it was XORed into the key. Together these are the words of the TRNG
in the order of delivery, each once (`uses_words`); and the key is what `CSPrngInjectLowbits` and
`CSPrngInjectRandom` make of it with the third kind alone (`uses_key`).
-/

namespace Wchratum1.Firmware
open Ethernet Prng Packet Bytes
set_option autoImplicit false

inductive Use
  | reply (words : List UInt32)
  | transactionId (word : UInt32)
  | key (word : UInt32)

namespace Use

def words : Use → List UInt32
  | reply ws => ws
  | transactionId w => [w]
  | key w => [w]

def replied : Use → List UInt32
  | reply ws => ws
  | _ => []

def id? : Use → Option UInt32
  | transactionId w => some w
  | _ => none

def key? : Use → Option UInt32
  | key w => some w
  | _ => none

end Use

variable {host : Host}

def eventUses (host : Host) : Event PrngCall → Generators → List Use
  | .request frame _, g => [.reply (PrngCall.results trngWord (frameCalls host frame) g)]
  | .outside .randomUInt32, g => [.transactionId (randomUInt32 g).1]
  | .outside .csPrngInjectRandom, g => [.key (randomUInt32 g).1]
  | .outside _, _ => []

def uses (host : Host) : List (Event PrngCall) → Generators → List Use
  | [], _ => []
  | e :: es, g => eventUses host e g ++ uses host es (PrngCall.runs (eventCalls host e) g)

theorem uses_append (es fs : List (Event PrngCall)) (g : Generators) : uses host (es ++ fs) g =
    uses host es g ++ uses host fs (PrngCall.runs (callLog host es) g) := by
  induction es generalizing g with
  | nil => rfl
  | cons e es ih =>
    rw [List.cons_append, uses, uses, ih, List.append_assoc, callLog_cons, runs_append]

/-! ## Every word is used once -/

/-- The next `n` words of the TRNG. -/
def delivered (n : ℕ) (g : Generators) : List UInt32 := (List.range n).map g.trng

/-- The calls have drawn exactly these words. -/
def Draws (ws : List UInt32) (g g' : Generators) : Prop :=
  ws = delivered ws.length g ∧ g'.trng = fun k => g.trng (ws.length + k)

theorem Draws.nil {g g' : Generators} (h : g'.trng = g.trng) : Draws [] g g' :=
  ⟨rfl, by rw [h]; simp⟩

theorem Draws.one {g g' : Generators} (h : g'.trng = fun k => g.trng (k + 1)) :
    Draws [g.trng 0] g g' :=
  ⟨rfl, by rw [h]; funext k; rw [List.length_singleton, Nat.add_comm]⟩

theorem Draws.append {ws vs : List UInt32} {g g' g'' : Generators} (hws : Draws ws g g')
    (hvs : Draws vs g' g'') : Draws (ws ++ vs) g g'' := by
  obtain ⟨hws, htrng⟩ := hws
  obtain ⟨hvs, htrng'⟩ := hvs
  rw [htrng] at htrng'
  refine ⟨?_, by rw [htrng', List.length_append]; simp only [Nat.add_assoc]⟩
  rw [List.length_append, delivered, List.range_add, List.map_append, List.map_map]
  congr 1
  rw [hvs, delivered, htrng, List.length_map, List.length_range]
  rfl

/-- The word that a call draws. -/
def drawnWord : PrngCall → Generators → Option UInt32
  | .randomUInt32, g => some (g.trng 0)
  | .csPrngInjectRandom, g => some (g.trng 0)
  | _, _ => none

theorem drawnWord_draws (call : PrngCall) (g : Generators) :
    Draws (drawnWord call g).toList g (call.run g) := by
  obtain ⟨key, inject, count, pcg, trng, ticks⟩ := g
  cases call with
  | randomUInt32 => exact .one rfl
  | csPrngInjectRandom => exact .one rfl
  | csPrngInjectLowbits x => exact .nil rfl
  | pcgUInt16 => exact .nil rfl
  | pcgUInt32 => exact .nil rfl
  | csPrngUInt64 => exact .nil rfl
  | csPrngUInt64x2 => exact .nil rfl

theorem results_draws (calls : List PrngCall) (g : Generators) :
    Draws (PrngCall.results drawnWord calls g) g (PrngCall.runs calls g) := by
  induction calls generalizing g with
  | nil => exact .nil rfl
  | cons call calls ih => exact (drawnWord_draws call g).append (ih (call.run g))

/-- A frame draws for its reply only. -/
theorem frameCalls_drawn (host : Host) (f : Bytes) (g : Generators) :
    PrngCall.results trngWord (frameCalls host f) g =
      PrngCall.results drawnWord (frameCalls host f) g := by
  have hsame : ∀ calls : List PrngCall, .csPrngInjectRandom ∉ calls → ∀ g,
      PrngCall.results trngWord calls g = PrngCall.results drawnWord calls g := by
    intro calls hcalls
    induction calls with
    | nil => exact fun _ => rfl
    | cons call calls ih =>
      intro g
      have hrest := ih (fun hmem => hcalls (List.mem_cons_of_mem _ hmem)) (call.run g)
      rw [PrngCall.results, PrngCall.results, hrest]
      cases call with
      | csPrngInjectRandom => exact absurd List.mem_cons_self hcalls
      | _ => rfl
  refine hsame _ (fun hmem => ?_) g
  unfold frameCalls at hmem
  split at hmem
  · obtain ⟨-, h⟩ | ⟨-, h⟩ | ⟨-, h⟩ | ⟨-, h⟩ := mem_fillCalls hmem <;> cases h
  · cases hmem

theorem eventUses_words (e : Event PrngCall) (g : Generators) : (eventUses host e g).flatMap Use.words =
    PrngCall.results drawnWord (eventCalls host e) g := by
  cases e with
  | request frame len =>
    rw [eventUses, frameCalls_drawn, List.flatMap_singleton]
    rfl
  | outside call => cases call <;> rfl

theorem uses_words (es : List (Event PrngCall)) (g : Generators) :
    Draws ((uses host es g).flatMap Use.words) g (PrngCall.runs (callLog host es) g) := by
  induction es generalizing g with
  | nil => exact .nil rfl
  | cons e es ih =>
    have hfirst := results_draws (eventCalls host e) g
    rw [← eventUses_words] at hfirst
    rw [uses, List.flatMap_append, callLog_cons, runs_append]
    exact hfirst.append (ih _)

/-! ## The words of the replies -/

theorem uses_replied (es : List (Event PrngCall)) (g : Generators) :
    (uses host es g).flatMap Use.replied =
      (serve (packetHandler host) PrngCall.run es g).1.flatMap
        (carried host 'T'.toUInt8 words32) := by
  induction es generalizing g with
  | nil => rfl
  | cons e es ih =>
    rw [uses, List.flatMap_append, ih]
    cases e with
    | request frame len =>
      have hfirst : carried host 'T'.toUInt8 words32 (callOf host frame len g) =
          PrngCall.results trngWord (frameCalls host frame) g := carries_trngWords frame len g
      simp only [serve, packetHandler_run, List.flatMap_cons, answer_env]
      rw [eventUses, List.flatMap_singleton, Use.replied, ← hfirst]
      rfl
    | outside call =>
      rw [serve]
      cases call <;> exact List.nil_append _

/-! ## The words in the key -/

/-- The calls of a log that `InjectCall` describes. -/
def injection? : PrngCall → Option InjectCall
  | .csPrngInjectLowbits x => some (.lowbits x)
  | .csPrngInjectRandom => some .random
  | _ => none

/-- The same key, the same collected bits, the same counter. -/
structure SameKey (g g' : Generators) : Prop where
  key : g.kPrngKey = g'.kPrngKey
  inject : g.kInject = g'.kInject
  count : g.kInCount = g'.kInCount

theorem SameKey.lowbits {g g' : Generators} (h : SameKey g g') (x : UInt32) :
    SameKey (csPrngInjectLowbits x g) (csPrngInjectLowbits x g') := by
  constructor
  · simp only [csPrngInjectLowbits, h.key, h.inject, h.count]
  · simp only [csPrngInjectLowbits, h.inject, h.count]
  · simp only [csPrngInjectLowbits, h.count]

theorem SameKey.random {g g' : Generators} (h : SameKey g g') (hword : g.trng 0 = g'.trng 0) :
    SameKey (csPrngInjectRandom g) (csPrngInjectRandom g') := by
  constructor
  · simp only [csPrngInjectRandom, randomUInt32, h.key, h.count, hword]
  · exact h.inject
  · simp only [csPrngInjectRandom, randomUInt32, h.count]

/-- No other call touches the key. -/
theorem run_sameKey {call : PrngCall} (hcall : injection? call = none) {g g' : Generators}
    (h : SameKey g g') : SameKey (call.run g) g' := by
  obtain ⟨key, inject, count, pcg, trng, ticks⟩ := g
  cases call with
  | csPrngInjectLowbits x => cases hcall
  | csPrngInjectRandom => cases hcall
  | _ => exact ⟨h.key, h.inject, h.count⟩

theorem runs_sameKey {calls : List PrngCall} (hcalls : ∀ call ∈ calls, injection? call = none)
    {g g' : Generators} (h : SameKey g g') : SameKey (PrngCall.runs calls g) g' := by
  induction calls generalizing g with
  | nil => exact h
  | cons call calls ih =>
    exact ih (fun c hc => hcalls c (List.mem_cons_of_mem _ hc))
      (run_sameKey (hcalls call List.mem_cons_self) h)

theorem frameCalls_injection (host : Host) (f : Bytes) :
    ∀ call ∈ frameCalls host f, injection? call = none := by
  intro call hcall
  unfold frameCalls at hcall
  split at hcall
  · obtain ⟨-, rfl⟩ | ⟨-, rfl⟩ | ⟨-, rfl⟩ | ⟨-, rfl⟩ := mem_fillCalls hcall <;> rfl
  · cases hcall

def Event.injection? : Event PrngCall → Option InjectCall
  | .request _ _ => none
  | .outside call => Firmware.injection? call

/-- The key comes from the injections of other code, with a TRNG that delivers the key's words only. -/
theorem uses_key (es : List (Event PrngCall)) {g g' : Generators} (h : SameKey g g')
    (hkeys : ∀ (k : ℕ) (w : UInt32), ((uses host es g).filterMap Use.key?)[k]? = some w →
      g'.trng k = w) :
    SameKey (PrngCall.runs (callLog host es) g)
      (InjectCall.runs (es.filterMap Event.injection?) g') := by
  induction es generalizing g g' with
  | nil => exact h
  | cons e es ih =>
    rw [callLog_cons, runs_append]
    rw [uses, List.filterMap_append] at hkeys
    cases e with
    | request frame len => exact ih (runs_sameKey (frameCalls_injection host frame) h) hkeys
    | outside call =>
      cases hinj : Firmware.injection? call with
      | none =>
        have hrest : (Event.outside call :: es).filterMap Event.injection? =
            es.filterMap Event.injection? := List.filterMap_cons_none hinj
        rw [hrest]
        refine ih (run_sameKey hinj h) ?_
        cases call <;> first | exact hkeys | cases hinj
      | some i =>
        have hrest : (Event.outside call :: es).filterMap Event.injection? =
            i :: es.filterMap Event.injection? := List.filterMap_cons_some hinj
        rw [hrest]
        cases call with
        | csPrngInjectLowbits x =>
          cases hinj
          exact ih (h.lowbits x) hkeys
        | csPrngInjectRandom =>
          cases hinj
          refine ih (h.random (hkeys 0 _ rfl).symm) ?_
          intro k w hk
          exact hkeys (k + 1) w hk
        | _ => cases hinj

end Wchratum1.Firmware
