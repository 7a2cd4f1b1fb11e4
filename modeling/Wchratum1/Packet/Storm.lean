import Wchratum1.Packet.Addressing
import Wchratum1.Ethernet.Fifo

/-! # Replies are not requests

Whatever host a reply reaches, with its TTL lowered on the way or not, it is none of the three
requests there: an echo reply has the wrong ICMP type, a chargen reply the wrong TTL, an ARP reply the
wrong operation. So an exchange between hosts, however they are chosen, ends after one reply. -/

namespace Wchratum1.Packet
open Bytes PointerCode Prng Ethernet
set_option autoImplicit false

variable {host : Host} {f r : Bytes}

/-- A frame on its way through routers: only `ip_ttl` may change. -/
def withTtl (f : Bytes) (ttl : UInt8) : Bytes := splice f ipTtl [ttl]

theorem withTtl_outside {i : ℕ} (ttl : UInt8) (hi : i ≠ ipTtl) : withTtl f ttl i = f i :=
  splice_byte_outside hi

theorem withTtl_ttl (f : Bytes) (ttl : UInt8) : withTtl f ttl ipTtl = ttl := by
  simp [withTtl, splice_inside]

def Unanswerable (f : Bytes) : Prop :=
  ∀ host, ¬ EchoRequest host f ∧ ¬ ChargenRequest host f ∧ ¬ ArpRequest host f

theorem unanswerable_of_ip (htype : word16 f etherType = hton16 ethertypeIP)
    (hicmp : f ipP = ipprotoICMP → f icmpType ≠ icmpECHO)
    (hudp : f ipP = ipprotoUDP → f ipTtl ≠ maxTtl) : Unanswerable f := by
  intro host
  refine ⟨?_, ?_, not_arp_of_ip htype⟩
  · intro he
    obtain ⟨-, -, hp, hecho, -⟩ := echoRequest_iff.mp he
    exact hicmp hp hecho
  · intro hc
    obtain ⟨-, -, hp, -, httl, -⟩ := chargenRequest_iff.mp hc
    exact hudp hp httl

theorem echoReply_unanswerable (hreq : EchoRequest host f) (ttl : UInt8) :
    Unanswerable (withTtl (echoReply host f) ttl) := by
  obtain ⟨htype, -, hp, -, -⟩ := echoRequest_iff.mp hreq
  have ha := echoReply_answers host f
  have hkeep : ∀ i, 12 ≤ i → i < 22 ∨ i = ipP → withTtl (echoReply host f) ttl i = f i := by
    intro i hi hlt
    rw [withTtl_outside ttl (by simp only [ipTtl, ipP] at hlt ⊢; omega)]
    exact echoReply_outside hi (by simp only [ipTtl, ipP] at hlt ⊢; omega)
      (by simp only [ipP] at hlt; omega)
  have hudp : ipprotoICMP ≠ ipprotoUDP := by decide
  refine unanswerable_of_ip ?_ ?_ ?_
  · rw [word16_congr (hkeep _ (by decide) (by decide)) (hkeep _ (by decide) (by decide)), htype]
  · intro _
    rw [withTtl_outside ttl (by decide), ha.type]
    decide
  · intro hp'
    rw [hkeep _ (by decide) (by decide), hp] at hp'
    exact absurd hp' hudp

theorem chargenReply_unanswerable (hreq : ChargenRequest host f)
    (heq : ∀ i < 42, r i = chargenHeaders host f i) {ttl : UInt8} (hle : ttl ≤ r ipTtl) :
    Unanswerable (withTtl r ttl) := by
  obtain ⟨htype, -, hp, -⟩ := chargenRequest_iff.mp hreq
  have ha := (chargenHeaders_answers host f).of_headers heq
  have hkeep : ∀ i, 12 ≤ i → i < 16 ∨ i = ipP → withTtl r ttl i = f i := by
    intro i hi hlt
    simp only [ipP] at hlt
    rw [withTtl_outside ttl (by simp only [ipTtl]; omega)]
    exact ha.others i (by omega) hi (by omega) (by simp only [ipTtl]; omega) (by omega)
  have hicmp : ipprotoUDP ≠ ipprotoICMP := by decide
  refine unanswerable_of_ip ?_ ?_ ?_
  · rw [word16_congr (hkeep _ (by decide) (by decide)) (hkeep _ (by decide) (by decide)), htype]
  · intro hp'
    rw [hkeep _ (by decide) (by decide), hp] at hp'
    exact absurd hp' hicmp
  · intro _ hmax
    rw [withTtl_ttl] at hmax
    rw [ha.ttl, hmax] at hle
    revert hle
    decide

theorem arpReply_unanswerable (hreq : ArpRequest host f) (ttl : UInt8) :
    Unanswerable (withTtl (arpReply host f) ttl) := by
  obtain ⟨htype, -, -⟩ := arpRequest_iff.mp hreq
  have ha := arpReply_answers host f
  have hkeep : ∀ i, 12 ≤ i → i < 20 → withTtl (arpReply host f) ttl i = f i := by
    intro i hi hlt
    rw [withTtl_outside ttl (by simp only [ipTtl]; omega)]
    exact ha.others i hi (Or.inl hlt)
  have htype' : word16 (withTtl (arpReply host f) ttl) etherType = hton16 ethertypeARP := by
    rw [word16_congr (hkeep _ (by decide) (by decide)) (hkeep _ (by decide) (by decide)), htype]
  intro host'
  refine ⟨(not_ip_of_arp htype').1, (not_ip_of_arp htype').2, ?_⟩
  intro h
  obtain ⟨-, -, hop, -⟩ := arpRequest_iff.mp h
  have hreply : (ntoh16 (word16 (withTtl (arpReply host f) ttl) arOp)).toNat = 2 := by
    rw [ntoh16_word16, withTtl, be16_splice (Or.inl (by decide)), ha.op]
  rw [hop] at hreply
  revert hreply
  decide

theorem reply_unanswerable (host : Host) (f : Bytes) (g : Generators)
    (hn : 0 ≤ (answer host ⟨f, g, 0⟩).1) {ttl : UInt8}
    (hle : ttl ≤ (answer host ⟨f, g, 0⟩).2.bytes ipTtl) :
    Unanswerable (withTtl (answer host ⟨f, g, 0⟩).2.bytes ttl) := by
  rcases (answer_nonneg_iff host f g 0).mp hn with he | hc | ha
  · rw [answer_of_echo he]
    exact echoReply_unanswerable he ttl
  · rw [answer_of_chargen hc] at hle ⊢
    exact chargenReply_unanswerable hc (fun i hi => fillPayload_outside (Or.inl hi)) hle
  · rw [answer_of_arp ha]
    exact arpReply_unanswerable ha ttl

theorem receive_unanswerable (hf : Unanswerable f) (host : Host) (len : Int32) (g : Generators) :
    ∃ r, receive host len f g = some (packetProcessed, r) ∧ r.store.bytes = f := by
  obtain ⟨touched, hrun⟩ := receive_eq host len f g
  obtain ⟨he, hc, ha⟩ := hf host
  rw [answer_of_none he hc ha] at hrun
  exact ⟨_, hrun, rfl⟩

/-! ## The device -/

/-- In every run of the driver with `PacketRxInterrupt` as its handler, the recorded calls are answers. -/
theorem reachable_calls_answer {B : Board} {allow : Driver Generators → Prop}
    {s : System Generators} (hs : Reachable B (packetHandler host) allow s) :
    ∀ c ∈ s.driver.history.calls, ∃ g, c.next = (answer host ⟨c.frame, g, 0⟩).1 ∧
      c.rewritten = (answer host ⟨c.frame, g, 0⟩).2.bytes := by
  intro c hc
  obtain ⟨g, g', hrun⟩ := reachable_made hs c hc
  rw [packetHandler_run] at hrun
  simp only [Prod.mk.injEq] at hrun
  exact ⟨g, hrun.1.symm, hrun.2.1.symm⟩

theorem reachable_replies_unanswerable {B : Board} {allow : Driver Generators → Prop}
    {s : System Generators} (hs : Reachable B (packetHandler host) allow s) {c : Call}
    (hc : c ∈ s.driver.history.calls) (hn : 0 ≤ c.next) {ttl : UInt8}
    (hle : ttl ≤ c.rewritten ipTtl) : Unanswerable (withTtl c.rewritten ttl) := by
  obtain ⟨g, hnext, hrewritten⟩ := reachable_calls_answer hs c hc
  rw [hnext] at hn
  rw [hrewritten] at hle ⊢
  exact reply_unanswerable host c.frame g hn hle

/-! ## Exchanges -/

/-- A host that the frame reaches, and what the routers on the way there do to the TTL. -/
structure Hop where
  host : Host
  len : Int32
  gen : Generators
  route : UInt8 → UInt8
  route_le : ∀ ttl, route ttl ≤ ttl

/-- The replies sent when a frame, and then each reply, goes to the next of the hosts. -/
def replies : List Hop → Bytes → List Bytes
  | [], _ => []
  | hop :: hops, f =>
    match receive hop.host hop.len (withTtl f (hop.route (f ipTtl))) hop.gen with
    | some (n, r) => if 0 ≤ n then r.store.bytes :: replies hops r.store.bytes else []
    | none => []

theorem replies_of_unanswerable (hops : List Hop)
    (hf : ∀ ttl ≤ f ipTtl, Unanswerable (withTtl f ttl)) : replies hops f = [] := by
  cases hops with
  | nil => rfl
  | cons hop hops =>
    obtain ⟨r, hrun, -⟩ := receive_unanswerable (hf _ (hop.route_le _)) hop.host hop.len hop.gen
    rw [replies, hrun]
    rfl

/-- **No storm.** A reply that reaches any host, with its TTL lowered or not, is processed there
without an answer and without a change; hence an exchange has at most one reply, whatever its first
frame is and whichever hosts it visits. -/
theorem replies_end_exchange :
    (∀ (host host' : Host) (len len' : Int32) (f : Bytes) (g g' : Generators) (n : ℤ)
      (r : Machine Generators) (ttl : UInt8),
      receive host len f g = some (n, r) → 0 ≤ n → ttl ≤ r.store.bytes ipTtl →
      ∃ r', receive host' len' (withTtl r.store.bytes ttl) g' = some (packetProcessed, r') ∧
        r'.store.bytes = withTtl r.store.bytes ttl) ∧
    ∀ (hops : List Hop) (f : Bytes), (replies hops f).length ≤ 1 := by
  have hreply : ∀ {host : Host} {len : Int32} {f : Bytes} {g : Generators} {n : ℤ}
      {r : Machine Generators}, receive host len f g = some (n, r) → 0 ≤ n →
      ∀ ttl ≤ r.store.bytes ipTtl, Unanswerable (withTtl r.store.bytes ttl) := by
    intro host len f g n r hrun hn ttl hle
    have hanswer := receive_answer hrun
    have hbytes : (answer host ⟨f, g, 0⟩).2.bytes = r.store.bytes := by rw [hanswer]
    rw [← hbytes] at hle ⊢
    exact reply_unanswerable host f g (by rw [hanswer]; exact hn) hle
  constructor
  · intro host host' len len' f g g' n r ttl hrun hn hle
    exact receive_unanswerable (hreply hrun hn ttl hle) host' len' g'
  · intro hops f
    cases hops with
    | nil => exact Nat.zero_le 1
    | cons hop hops =>
      rw [replies]
      split
      · rename_i n r hrun
        split
        · rename_i hn
          rw [replies_of_unanswerable hops (hreply hrun hn)]
          exact Nat.le_refl 1
        · exact Nat.zero_le 1
      · exact Nat.zero_le 1

/-- An echo reply that reaches its own sender's twin with a TTL of 3. -/
theorem replies_end_exchange_of_echo : ∃ r r',
    receive prdk 42 (echoFrame 0 28 0xEE) resting = some (42, r) ∧
      receive prdk 60 (withTtl r.store.bytes 3) resting = some (packetProcessed, r') ∧
      r'.store.bytes = withTtl r.store.bytes 3 := by
  obtain ⟨touched, hrun⟩ := receive_eq prdk 42 (echoFrame 0 28 0xEE) resting
  have hreq : EchoRequest prdk (echoFrame 0 28 0xEE) := by decide +kernel
  rw [answer_of_echo hreq] at hrun
  have hn : (14 : ℤ) + (be16 (echoFrame 0 28 0xEE) ipLen : ℤ) = 42 := by decide +kernel
  have httl : (3 : UInt8) ≤ echoReply prdk (echoFrame 0 28 0xEE) ipTtl := by
    rw [(echoReply_answers prdk _).ttl]
    decide
  dsimp only at hrun
  rw [hn] at hrun
  obtain ⟨r', hagain, hsame⟩ :=
    replies_end_exchange.1 prdk prdk 42 60 _ resting resting 42 _ 3 hrun (by decide) httl
  exact ⟨_, r', hrun, hagain, hsame⟩

end Wchratum1.Packet
