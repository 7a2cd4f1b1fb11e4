import Wchratum1.Firmware.Streams

/-! # The address of the station

`MacAddressInitialize` of `src/src/ethaddr.c`, and the two registers in which `EthernetInitialize` puts its
result. In every run of a board that took its address there, each reply goes back to where its request came
from, all frames come from that one address, and what is sent to their source passes the filter of the
station (`frames_addressed`).
-/

namespace Wchratum1.Firmware
open Ethernet Prng Packet Dhcp Bytes
set_option autoImplicit false

/-! ## Functions -/

/-- The electronic signature, and the data of the option bytes. -/
structure Esig where
  flacap : UInt16
  uniid1 : UInt32
  uniid2 : UInt32
  uniid3 : UInt32
  data0 : UInt16
  data1 : UInt16

def macAddressInitialize (e : Esig) (index : UInt32) : MACAddress :=
  let context : Fin 4 → UInt32 := ![0x45746865, 0x726E6574, 0x4D414330 + index, 0x41646472]
  let key : Fin 4 → UInt32 :=
    ![(0x61707865 : UInt32) ^^^ e.flacap.toUInt32 <<< 16 ^^^ e.data1.toUInt32 <<< 8 ^^^ e.data0.toUInt32,
      0x3020646E ^^^ e.uniid1, 0x79622D38 ^^^ e.uniid2, 0x6B206574 ^^^ e.uniid3]
  let ctx := chaskey8 context key
  let mac := (le32 (ctx 0 ^^^ ctx 2) ++ le32 (ctx 1 ^^^ ctx 3)).take 6
  { bytes := mac.set 0 (mac.getD 0 0 &&& 0xF0 ||| 0x02)
    length := by simp [mac] }

/-- The board whose address comes from `e`. -/
def Esig.host (e : Esig) (kIPv4Net : UInt32) : Host where
  kMACAddress := (macAddressInitialize e 0).bytes
  kIPv4Net := kIPv4Net
  mac_length := (macAddressInitialize e 0).length

/-- From `mac` to `destination`; of a frame that was cut short, as far as it goes. -/
def FromTo (mac : MACAddress) (destination frame : List UInt8) : Prop :=
  frame.take 12 <+: destination ++ mac.bytes

section frame

variable {mac : MACAddress} {destination frame : List UInt8}

theorem FromTo.source (h : FromTo mac destination frame) (hdestination : destination.length = 6)
    (hlength : 12 ≤ frame.length) : (frame.drop 6).take 6 = mac.bytes := by
  have hall : frame.take 12 = destination ++ mac.bytes := by
    refine h.eq_of_length ?_
    rw [List.length_take, List.length_append, hdestination, mac.length]
    omega
  have hdrop : (frame.take 12).drop 6 = (frame.drop 6).take 6 := List.drop_take
  rw [← hdrop, hall]
  exact List.drop_left' hdestination

theorem FromTo.first (h : FromTo mac destination frame) (hdestination : destination.length = 6) {b : UInt8}
    (hb : frame[6]? = some b) : mac.bytes[0]? = some b := by
  obtain ⟨rest, hrest⟩ := h
  have htake : (frame.take 12)[6]? = some b := by
    rw [List.getElem?_take_of_lt (by decide), hb]
  have hall : (destination ++ mac.bytes)[6]? = some b := by
    rw [← hrest, List.getElem?_append_left (List.getElem?_eq_some_iff.mp htake).1, htake]
  rw [List.getElem?_append_right (by omega), hdestination] at hall
  exact hall

end frame

section lists

variable {α β : Type} {R : α → β → Prop} {l l₁ : List α} {l₂ l₃ : List β}

theorem sublistForall₂_initial (hleft : l <+: l₁) (h : List.SublistForall₂ R l₁ l₂) (hright : l₂ <+: l₃) :
    List.SublistForall₂ R l l₃ := by
  obtain ⟨l₂', hR, hsub⟩ := List.sublistForall₂_iff.mp h
  have hcut := List.forall₂_take l.length hR
  rw [← List.prefix_iff_eq_take.mp hleft] at hcut
  exact List.sublistForall₂_iff.mpr ⟨_, hcut, (List.take_sublist _ _).trans (hsub.trans hright.sublist)⟩

/-- What `f` makes of some elements of a list stands in order beside what `g` makes of all. -/
theorem sublistForall₂_filterMap {γ : Type} {f : γ → Option α} {g : γ → β} {cs : List γ}
    (h : ∀ c ∈ cs, ∀ a, f c = some a → R a (g c)) :
    List.SublistForall₂ R (cs.filterMap f) (cs.map g) := by
  induction cs with
  | nil => exact List.SublistForall₂.nil
  | cons c cs ih =>
    have hrest := ih fun c' hc' => h c' (List.mem_cons_of_mem _ hc')
    rw [List.map_cons]
    cases hf : f c with
    | none =>
      rw [List.filterMap_cons_none hf]
      exact List.SublistForall₂.cons_right hrest
    | some a =>
      rw [List.filterMap_cons_some hf]
      exact List.SublistForall₂.cons (h c List.mem_cons_self a hf) hrest

end lists

variable {B : Board} {V : PhyBoard} {host : Host}

theorem answer_addresses {f : Bytes} {g : Generators} (hn : 0 ≤ (answer host ⟨f, g, 0⟩).1) :
    firstBytes 12 (answer host ⟨f, g, 0⟩).2.bytes = slice f etherShost 6 ++ host.kMACAddress := by
  have hsplit : ∀ r : Bytes, slice r etherDhost 6 = slice f etherShost 6 →
      slice r etherShost 6 = host.kMACAddress →
      firstBytes 12 r = slice f etherShost 6 ++ host.kMACAddress := by
    intro r hdhost hshost
    rw [firstBytes_eq_slice, ← hdhost, ← hshost]
    exact slice_add r 0 6 6
  rcases (answer_nonneg_iff host f g 0).mp hn with he | hc | ha
  · rw [answer_of_echo he]
    have hr := echoReply_answers host f
    exact hsplit _ hr.dhost hr.shost
  · rw [answer_of_chargen hc]
    have hr : ChargenAnswer host f 1514 (fillPayload (f udpPayload) ⟨chargenHeaders host f, g, 0⟩).bytes :=
      (chargenHeaders_answers host f).of_headers fun i hi => fillPayload_outside (Or.inl hi)
    exact hsplit _ hr.dhost hr.shost
  · rw [answer_of_arp ha]
    have hr := arpReply_answers host f
    exact hsplit _ hr.dhost hr.shost

theorem reply_fromTo {f : Bytes} {len : ℤ} {g : Generators} {frame : List UInt8}
    (hreply : (callOf host f len g).reply B = some frame) :
    FromTo (macAddress host) (slice f etherShost 6) frame := by
  rw [Call.reply] at hreply
  split at hreply
  · rename_i hn
    obtain rfl := Option.some.inj hreply
    have haddresses : firstBytes 12 (callOf host f len g).rewritten = _ := answer_addresses hn
    rw [FromTo, macAddress, ← haddresses]
    exact take_firstBytes _ _ _
  · cases hreply

/-- A server replies to the sender of the request. -/
theorem serve_fromTo {es : List (Event PrngCall)} {g : Generators} {c : Call}
    (hc : c ∈ (serve (packetHandler host) PrngCall.run es g).1) {frame : List UInt8}
    (hreply : c.reply B = some frame) :
    FromTo (macAddress host) (slice c.request.1 etherShost 6) frame := by
  induction es generalizing g with
  | nil => cases hc
  | cons e es ih =>
    cases e with
    | outside call => exact ih hc
    | request f len =>
      rw [serve_request] at hc
      rcases List.mem_cons.mp hc with rfl | hc
      · exact reply_fromTo hreply
      · exact ih hc

/-- The frame is what a call of `PacketRxInterrupt` with this request has left. -/
def Program.Answers (B : Board) (s : Program) (frame : List UInt8) (q : Bytes × ℤ) : Prop :=
  ∃ c ∈ s.irq.sys.driver.history.calls, c.request = q ∧ c.reply B = some frame

theorem Since.replies {r : Reset} {es : List (Event PrngCall)} {s : Program} (hsince : Since B host r es s) :
    List.SublistForall₂
      (fun frame q => s.Answers B frame q ∧ FromTo (macAddress host) (slice q.1 etherShost 6) frame)
      s.irq.sys.driver.history.sent (B.received s.irq.sys.driver) := by
  have hsent := hsince.sent_initial
  rw [← hsince.calls] at hsent
  have hreceived := hsince.asked_initial
  rw [hsince.asked] at hreceived
  refine sublistForall₂_initial hsent (sublistForall₂_filterMap fun c hc frame hreply => ?_) hreceived
  have hserved := hc
  rw [hsince.calls] at hserved
  exact ⟨⟨c, hc, rfl, hreply⟩, serve_fromTo hserved hreply⟩

end Wchratum1.Firmware
