import Wchratum1.Packet.Addressing

/-! # What a reply shows of the bytes that were not received

`PacketRxInterrupt` is not told by `len` where the received frame ends, and the buffer still holds
earlier packets behind it. `Independent` says that nothing behind the end can be seen from outside:
neither in the value returned nor in the bytes transmitted. This is so exactly when the received bytes
alone settle what is answered, and the answer has no other bytes than these (`independent_iff`).
-/

namespace Wchratum1.Packet
open Bytes PointerCode Prng Ethernet
set_option autoImplicit false

/-! ## What can be seen -/

/-- The value returned, and the bytes transmitted when it is a length. -/
def observed (host : Host) (len : ℕ) (f : Bytes) (g : Generators) : Option (ℤ × List UInt8) :=
  (receive host (Int32.ofNat len) f g).map fun a => (a.1, firstBytes a.1.toNat a.2.store.bytes)

/-- The same received frame, in `Frame` buffers with different left-overs. -/
def SameReceived (len : ℕ) (f f' : Bytes) : Prop := ∀ i, i < len ∨ etherMaxLen ≤ i → f' i = f i

/-- No left-overs behind the first `len` bytes of `f` change what can be seen. -/
def Independent (host : Host) (len : ℕ) (f : Bytes) (g : Generators) : Prop :=
  ∀ f', SameReceived len f f' → observed host len f' g = observed host len f g

/-! ## What the received bytes settle -/

/-- A received byte is not the one that the fields ask for. -/
def Excluded (len : ℕ) (f : Bytes) (fields : Fields) : Prop :=
  ∃ q ∈ fields, ∃ j < q.2.length, q.1 + j < len ∧ f (q.1 + j) ≠ q.2.getD j 0

/-- The received bytes rule out all three requests. -/
def Refuted (host : Host) (len : ℕ) (f : Bytes) : Prop :=
  Excluded len f (echoFields host) ∧
    (Excluded len f (chargenFields host) ∨ 40 ≤ len ∧ be16 f uhUlen < 9) ∧
    Excluded len f (arpFields host)

def selectors : List UInt8 := ['T'.toUInt8, 'P'.toUInt8, 'p'.toUInt8, 'C'.toUInt8]

/-- The received bytes rule out all requests, or they hold one with all that its reply takes from
the frame. -/
def Settled (host : Host) (len : ℕ) (f : Bytes) : Prop :=
  Refuted host len f ∨
  EchoRequest host f ∧ 36 ≤ len ∧ 14 + be16 f ipLen ≤ len ∨
  ChargenRequest host f ∧ 43 ≤ len ∧ (f udpPayload ∈ selectors ∨ 1514 ≤ len) ∨
  ArpRequest host f ∧ 42 ≤ len

/-! ## From the answer -/

variable {host : Host} {len : ℕ} {f f' : Bytes} {g : Generators}

def sent (a : ℤ × Store Generators) : ℤ × List UInt8 := (a.1, firstBytes a.1.toNat a.2.bytes)

theorem observed_eq (host : Host) (len : ℕ) (f : Bytes) (g : Generators) :
    observed host len f g = some (sent (answer host ⟨f, g, 0⟩)) := by
  obtain ⟨touched, hrun⟩ := receive_eq host (Int32.ofNat len) f g
  rw [observed, hrun]
  rfl

theorem filler_eq_none_iff (b : UInt8) : filler b = none ↔ b ∉ selectors := by
  unfold filler
  simp only [selectors, List.mem_cons, List.not_mem_nil, or_false, not_or]
  split_ifs <;> simp_all

theorem SameReceived.slice_eq {a k : ℕ} (h : SameReceived len f f') (hle : a + k ≤ len) :
    slice f' a k = slice f a k := by
  rw [slice_eq_iff]
  intro j hj
  exact h _ (Or.inl (by omega))

theorem SameReceived.be16_eq {a : ℕ} (h : SameReceived len f f') (hle : a + 2 ≤ len) :
    be16 f' a = be16 f a := by
  rw [be16, be16, h _ (Or.inl (by omega)), h _ (Or.inl (by omega))]

theorem SameReceived.matches_iff {fields : Fields} (h : SameReceived len f f')
    (hin : ∀ q ∈ fields, q.1 + q.2.length ≤ len) : Matches f' fields ↔ Matches f fields := by
  unfold Matches
  refine forall₂_congr ?_
  intro q hq
  rw [h.slice_eq (hin q hq)]

theorem Excluded.not_matches {fields : Fields} (hex : Excluded len f fields)
    (h : SameReceived len f f') : ¬ Matches f' fields := by
  obtain ⟨q, hq, j, hj, hlt, hne⟩ := hex
  intro hm
  have hbyte : (slice f' q.1 q.2.length).getD j 0 = q.2.getD j 0 := by rw [hm q hq]
  rw [List.getD_eq_getElem _ _ (by simpa using hj), slice_getElem, h _ (Or.inl hlt)] at hbyte
  exact hne hbyte

theorem swapEther_congr {out out' : Bytes} {i : ℕ} (h : SameReceived len f f') (hlen : 12 ≤ len)
    (hout : out' i = out i) : swapEther host f' out' i = swapEther host f out i := by
  unfold swapEther
  rw [h.slice_eq (by simp only [etherShost, etherAddrLen]; omega)]
  exact splice_congr fun _ => splice_congr fun _ => hout

theorem swapIp_congr {out out' : Bytes} {i : ℕ} (h : SameReceived len f f') (hlen : 30 ≤ len)
    (hout : out' i = out i) : swapIp host f' out' i = swapIp host f out i := by
  unfold swapIp
  rw [h.slice_eq (by simp only [ipSrc, sizeofInAddr]; omega)]
  exact splice_congr fun _ => splice_congr fun _ => hout

theorem echoReply_congr {i : ℕ} (h : SameReceived len f f') (hlen : 30 ≤ len) (hi : i < len) :
    echoReply host f' i = echoReply host f i := by
  unfold echoReply
  refine swapEther_congr h (by omega) (swapIp_congr h hlen ?_)
  exact splice_congr fun _ => splice_congr fun _ => h i (Or.inl hi)

theorem chargenHeaders_congr {i : ℕ} (h : SameReceived len f f') (hlen : 36 ≤ len) (hi : i < len) :
    chargenHeaders host f' i = chargenHeaders host f i := by
  simp only [chargenHeaders]
  rw [h.slice_eq (by simp only [uhSport]; omega)]
  refine splice_congr fun _ => splice_congr fun _ => splice_congr fun _ => ?_
  refine swapIp_congr h (by omega) (splice_congr fun _ => splice_congr fun _ => ?_)
  exact swapEther_congr h (by omega) (h i (Or.inl hi))

theorem arpReply_congr {i : ℕ} (h : SameReceived len f f') (hlen : 42 ≤ len) (hi : i < len) :
    arpReply host f' i = arpReply host f i := by
  simp only [arpReply]
  rw [h.slice_eq (by simp only [arpSha, etherAddrLen, sizeofInAddr]; omega)]
  refine splice_congr fun _ => splice_congr fun _ => splice_congr fun _ => splice_congr fun _ => ?_
  exact swapEther_congr h (by omega) (h i (Or.inl hi))

/-! ## Settled frames show nothing else -/

theorem observed_congr {n : ℤ} {s s' : Store Generators} (ha : answer host ⟨f, g, 0⟩ = (n, s))
    (ha' : answer host ⟨f', g, 0⟩ = (n, s')) (hbytes : ∀ i < n.toNat, s'.bytes i = s.bytes i) :
    observed host len f' g = observed host len f g := by
  rw [observed_eq, observed_eq, ha, ha', sent, sent, (firstBytes_eq_iff _ _ _).mpr hbytes]

theorem Refuted.answer_eq (hr : Refuted host len f) (h : SameReceived len f f') :
    answer host ⟨f', g, 0⟩ = (packetProcessed, ⟨f', g, 0⟩) := by
  obtain ⟨hecho, hchargen, harp⟩ := hr
  refine answer_of_none (hecho.not_matches h) ?_ (harp.not_matches h) g 0
  intro hc
  rcases hchargen with hex | ⟨hlen, hulen⟩
  · exact hex.not_matches h hc.1
  · have hbe := hc.2
    rw [h.be16_eq (by simp only [uhUlen]; omega)] at hbe
    omega

theorem Refuted.independent (hr : Refuted host len f) (g : Generators) :
    Independent host len f g := by
  intro f' h
  exact observed_congr (hr.answer_eq fun _ _ => rfl) (hr.answer_eq h) fun i hi => by cases hi

theorem echoFields_within (hlen : 36 ≤ len) : ∀ q ∈ echoFields host, q.1 + q.2.length ≤ len := by
  have hall : ∀ q ∈ echoFields host, q.1 + q.2.length ≤ 36 := by
    simp [echoFields, ipv4Fields]
  exact fun q hq => (hall q hq).trans hlen

theorem chargenFields_within (hlen : 38 ≤ len) :
    ∀ q ∈ chargenFields host, q.1 + q.2.length ≤ len := by
  have hall : ∀ q ∈ chargenFields host, q.1 + q.2.length ≤ 38 := by
    simp [chargenFields, ipv4Fields]
  exact fun q hq => (hall q hq).trans hlen

theorem arpFields_within (hlen : 42 ≤ len) : ∀ q ∈ arpFields host, q.1 + q.2.length ≤ len := by
  have hall : ∀ q ∈ arpFields host, q.1 + q.2.length ≤ 42 := by
    simp [arpFields]
  exact fun q hq => (hall q hq).trans hlen

theorem echo_independent (hreq : EchoRequest host f) (hlen : 36 ≤ len)
    (hsize : 14 + be16 f ipLen ≤ len) (g : Generators) : Independent host len f g := by
  intro f' h
  have hreq' : EchoRequest host f' := (h.matches_iff (echoFields_within hlen)).mpr hreq
  have ha' := answer_of_echo hreq' g 0
  rw [h.be16_eq (by simp only [ipLen]; omega)] at ha'
  refine observed_congr (answer_of_echo hreq g 0) ha' ?_
  intro i hi
  exact echoReply_congr h (by omega) (by simp only [ipLen] at hsize hi; omega)

theorem chargen_independent (hreq : ChargenRequest host f) (hlen : 43 ≤ len)
    (hfill : f udpPayload ∈ selectors ∨ 1514 ≤ len) (g : Generators) :
    Independent host len f g := by
  intro f' h
  have hulen := h.be16_eq (a := uhUlen) (by simp only [uhUlen]; omega)
  have hsel : f' udpPayload = f udpPayload := h _ (Or.inl (by simp only [udpPayload]; omega))
  have hreq' : ChargenRequest host f' :=
    ⟨(h.matches_iff (chargenFields_within (by omega))).mpr hreq.1, by rw [hulen]; exact hreq.2⟩
  have ha' := answer_of_chargen hreq' g 0
  rw [hsel] at ha'
  refine observed_congr (answer_of_chargen hreq g 0) ha' ?_
  intro i hi
  have hi' : i < 1514 := hi
  by_cases hheader : i < len
  · -- inside the received bytes the two headers agree, and the same payload lies over them
    have heq : chargenHeaders host f' i = chargenHeaders host f i :=
      chargenHeaders_congr h (by omega) hheader
    unfold fillPayload
    cases filler (f udpPayload) with
    | none => exact heq
    | some F => exact splice_congr fun _ => heq
  · unfold fillPayload
    cases hF : filler (f udpPayload) with
    | none =>
      have hnot := (filler_eq_none_iff _).mp hF
      rcases hfill with hmem | hfull
      · exact absurd hmem hnot
      · omega
    | some F =>
      refine splice_congr ?_
      simp only [F.payload_length, udpPayload]
      omega

theorem arp_independent (hreq : ArpRequest host f) (hlen : 42 ≤ len) (g : Generators) :
    Independent host len f g := by
  intro f' h
  have hreq' : ArpRequest host f' := (h.matches_iff (arpFields_within hlen)).mpr hreq
  refine observed_congr (answer_of_arp hreq g 0)
    (answer_of_arp hreq' g 0) ?_
  intro i hi
  have hi' : i < 42 := hi
  exact arpReply_congr h hlen (by omega)

theorem Settled.independent (hs : Settled host len f) (g : Generators) :
    Independent host len f g := by
  rcases hs with hr | ⟨hreq, hlen, hsize⟩ | ⟨hreq, hlen, hfill⟩ | ⟨hreq, hlen⟩
  · exact hr.independent g
  · exact echo_independent hreq hlen hsize g
  · exact chargen_independent hreq hlen hfill g
  · exact arp_independent hreq hlen g

/-! ## Other frames show a left-over -/

theorem sameReceived_splice {a : ℕ} {data : List UInt8} (hle : len ≤ a)
    (hfits : a + data.length ≤ etherMaxLen) : SameReceived len f (splice f a data) := by
  intro i hi
  exact splice_outside (by omega)

theorem Independent.sent_eq (hi : Independent host len f g) (h : SameReceived len f f') :
    sent (answer host ⟨f', g, 0⟩) = sent (answer host ⟨f, g, 0⟩) := by
  have hobs := hi f' h
  rw [observed_eq, observed_eq] at hobs
  exact Option.some.inj hobs

theorem Independent.request_iff (hi : Independent host len f g) (h : SameReceived len f f') :
    EchoRequest host f' ∨ ChargenRequest host f' ∨ ArpRequest host f' ↔
      EchoRequest host f ∨ ChargenRequest host f ∨ ArpRequest host f := by
  have hn : (answer host ⟨f', g, 0⟩).1 = (answer host ⟨f, g, 0⟩).1 :=
    congrArg (fun seen => seen.1) (hi.sent_eq h)
  rw [← answer_nonneg_iff host f' g 0, ← answer_nonneg_iff host f g 0, hn]

theorem Independent.byte_eq (hi : Independent host len f g) (h : SameReceived len f f') {n : ℤ}
    {s s' : Store Generators} (ha : answer host ⟨f, g, 0⟩ = (n, s))
    (ha' : answer host ⟨f', g, 0⟩ = (n, s')) {i : ℕ} (hlt : i < n.toNat) :
    s'.bytes i = s.bytes i := by
  have hsent := congrArg Prod.snd (hi.sent_eq h)
  rw [ha, ha'] at hsent
  exact (firstBytes_eq_iff _ _ _).mp hsent i hlt

def refill (len : ℕ) (f w : Bytes) : Bytes := fun i =>
  if i < len ∨ etherMaxLen ≤ i then f i else w i

theorem sameReceived_refill (len : ℕ) (f w : Bytes) : SameReceived len f (refill len f w) :=
  fun _ hi => if_pos hi

theorem refill_behind {w : Bytes} {i : ℕ} (hle : len ≤ i) (hlt : i < etherMaxLen) :
    refill len f w i = w i := if_neg (by omega)

/-- Fields that the received bytes do not exclude can be completed. -/
theorem matches_refill {fields : Fields} {w : Bytes} (hw : Matches w fields)
    (hin : ∀ q ∈ fields, q.1 + q.2.length ≤ etherMaxLen) (hex : ¬ Excluded len f fields) :
    Matches (refill len f w) fields := by
  intro q hq
  refine Eq.trans ?_ (hw q hq)
  rw [slice_eq_iff]
  intro j hj
  by_cases hlt : q.1 + j < len
  · have hbyte : f (q.1 + j) = q.2.getD j 0 := by
      by_contra hne
      exact hex ⟨q, hq, j, hj, hlt, hne⟩
    have hfield : (slice w q.1 q.2.length).getD j 0 = q.2.getD j 0 := by rw [hw q hq]
    rw [List.getD_eq_getElem _ _ (by simpa using hj), slice_getElem] at hfield
    rw [sameReceived_refill len f w _ (Or.inl hlt), hbyte, hfield]
  · exact refill_behind (by omega) (by have := hin q hq; omega)

def template (fields : Fields) : Bytes :=
  fields.foldl (fun m q => splice m q.1 q.2) fun _ => 0

theorem template_echo (host : Host) : Matches (template (echoFields host)) (echoFields host) := by
  simp [Matches, template, echoFields, ipv4Fields, slice_splice_same, slice_splice_disjoint]

theorem template_chargen (host : Host) :
    Matches (splice (template (chargenFields host)) uhUlen [0xFF, 0xFF]) (chargenFields host) := by
  simp [Matches, template, chargenFields, ipv4Fields, slice_splice_same, slice_splice_disjoint]

theorem template_arp (host : Host) : Matches (template (arpFields host)) (arpFields host) := by
  simp [Matches, template, arpFields, slice_splice_same, slice_splice_disjoint]

theorem Independent.refuted (hi : Independent host len f g)
    (hnone : ¬ (EchoRequest host f ∨ ChargenRequest host f ∨ ArpRequest host f)) :
    Refuted host len f := by
  have hno : ∀ w, ¬ (EchoRequest host (refill len f w) ∨ ChargenRequest host (refill len f w) ∨
      ArpRequest host (refill len f w)) := by
    intro w hreq
    exact hnone ((hi.request_iff (sameReceived_refill len f w)).mp hreq)
  refine ⟨?_, ?_, ?_⟩
  · by_contra hex
    exact hno _ (Or.inl (matches_refill (template_echo host) (echoFields_within (by decide)) hex))
  · by_contra hex
    simp only [not_or, not_and, Nat.not_lt] at hex
    refine hno (splice (template (chargenFields host)) uhUlen [0xFF, 0xFF]) (Or.inr (Or.inl ?_))
    refine ⟨matches_refill (template_chargen host) (chargenFields_within (by decide)) hex.1, ?_⟩
    by_cases hlen : 40 ≤ len
    · rw [(sameReceived_refill len f _).be16_eq (by simp only [uhUlen]; omega)]
      exact hex.2 hlen
    · -- the low byte of the length is free
      have hlow : refill len f (splice (template (chargenFields host)) uhUlen [0xFF, 0xFF])
          (uhUlen + 1) = 0xFF := by
        rw [refill_behind (by simp only [uhUlen]; omega) (by decide)]
        simp [splice_inside]
      rw [be16, hlow]
      simp
  · by_contra hex
    exact hno _ (Or.inr (Or.inr
      (matches_refill (template_arp host) (arpFields_within (by decide)) hex)))

/-! Each answered frame has to hold what its reply needs. Else one byte behind the end is changed, so
that the frame is answered no more or the changed byte is sent. -/

theorem add_one_ne (b : UInt8) : b + 1 ≠ b := by
  intro heq
  have hlt := b.toNat_lt
  have hval := congrArg UInt8.toNat heq
  rw [UInt8.toNat_add, show (1 : UInt8).toNat = 1 from rfl] at hval
  omega

theorem Independent.echo (hi : Independent host len f g) (hreq : EchoRequest host f)
    (hmax : len ≤ 1514) : 36 ≤ len ∧ 14 + be16 f ipLen ≤ len := by
  obtain ⟨htype, -, hp, -, -⟩ := echoRequest_iff.mp hreq
  have hanswer := answer_of_echo hreq g 0
  have hlen : 36 ≤ len := by
    by_contra hshort
    have hsame : SameReceived len f (splice f icmpCode [1]) :=
      sameReceived_splice (by simp only [icmpCode]; omega) (by decide)
    have hkeep : ∀ i, i ≠ icmpCode → splice f icmpCode [1] i = f i :=
      fun i hne => splice_byte_outside hne
    rcases (hi.request_iff hsame).mpr (Or.inl hreq) with he | hc | ha
    · have hcode := (echoRequest_iff.mp he).2.2.2.2
      rw [splice_inside (by decide) (by decide)] at hcode
      cases hcode
    · exact not_chargen_of_icmp ((hkeep _ (by decide)).trans hp) hc
    · refine not_arp_of_ip ?_ ha
      rw [word16_congr (hkeep _ (by decide)) (hkeep _ (by decide)), htype]
  refine ⟨hlen, ?_⟩
  by_contra hlong
  have hsame : SameReceived len f (splice f len [f len + 1]) :=
    sameReceived_splice (Nat.le_refl len) (by simp only [List.length_singleton, etherMaxLen]; omega)
  have hreq' := (hsame.matches_iff (echoFields_within hlen)).mpr hreq
  have hanswer' := answer_of_echo hreq' g 0
  rw [hsame.be16_eq (by simp only [ipLen]; omega)] at hanswer'
  have hbyte := hi.byte_eq hsame hanswer hanswer' (i := len) (by omega)
  dsimp only at hbyte
  rw [echoReply_outside (by omega) (by simp only [ipTtl]; omega) (by omega),
    echoReply_outside (by omega) (by simp only [ipTtl]; omega) (by omega),
    splice_inside (Nat.le_refl len) (by simp)] at hbyte
  simp only [Nat.sub_self, List.getElem_cons_zero] at hbyte
  exact add_one_ne _ hbyte

theorem Independent.chargen (hi : Independent host len f g) (hreq : ChargenRequest host f)
    (hmax : len ≤ 1514) : 43 ≤ len ∧ (f udpPayload ∈ selectors ∨ 1514 ≤ len) := by
  have hanswer := answer_of_chargen hreq g 0
  -- a change behind the headers leaves a chargen request
  have hrequest : ∀ {f'}, SameReceived 42 f f' → ChargenRequest host f' := by
    intro f' hsame
    refine ⟨(hsame.matches_iff (chargenFields_within (by decide))).mpr hreq.1, ?_⟩
    rw [hsame.be16_eq (by decide)]
    exact hreq.2
  have hunfilled : ∀ {f' : Bytes} {i : ℕ}, filler (f' udpPayload) = none → 42 ≤ i →
      (fillPayload (f' udpPayload) ⟨chargenHeaders host f', g, 0⟩).bytes i = f' i := by
    intro f' i hF hle
    rw [fillPayload, hF]
    exact chargenHeaders_outside (by omega) (by omega) (by simp only [ipTtl]; omega) (by omega)
  have hlen : 43 ≤ len := by
    by_contra hshort
    -- no selector, and another second payload byte than the one sent for `f`
    generalize hv : (answer host ⟨f, g, 0⟩).2.bytes 43 = v
    have hsame : SameReceived 42 f (splice f 42 [0, v + 1]) :=
      sameReceived_splice (Nat.le_refl 42) (by simp [etherMaxLen])
    have hsame' : SameReceived len f (splice f 42 [0, v + 1]) :=
      sameReceived_splice (by omega) (by simp [etherMaxLen])
    have hsel : splice f 42 [0, v + 1] udpPayload = 0 := by
      simp [splice_inside]
    have hanswer' := answer_of_chargen (hrequest hsame) g 0
    have hbyte := hi.byte_eq hsame' hanswer hanswer' (i := 43) (by decide)
    rw [hanswer] at hv
    rw [hv, hunfilled (by rw [hsel]; rfl) (by decide), splice_inside (by decide) (by simp)] at hbyte
    exact add_one_ne v hbyte
  refine ⟨hlen, ?_⟩
  by_contra hleft
  simp only [not_or] at hleft
  have hF := (filler_eq_none_iff _).mpr hleft.1
  have hsame : SameReceived len f (splice f len [f len + 1]) :=
    sameReceived_splice (Nat.le_refl len) (by simp only [List.length_singleton, etherMaxLen]; omega)
  have hsel : splice f len [f len + 1] udpPayload = f udpPayload :=
    hsame _ (Or.inl (by simp only [udpPayload]; omega))
  have hanswer' := answer_of_chargen
    (hrequest fun i hlt => hsame i (by omega)) g 0
  have hbyte := hi.byte_eq hsame hanswer hanswer' (i := len) (by omega)
  rw [hunfilled hF (by omega), hunfilled (by rw [hsel]; exact hF) (by omega),
    splice_inside (Nat.le_refl len) (by simp)] at hbyte
  simp only [Nat.sub_self, List.getElem_cons_zero] at hbyte
  exact add_one_ne _ hbyte

theorem Independent.arp (hi : Independent host len f g) (hreq : ArpRequest host f) : 42 ≤ len := by
  obtain ⟨htype, -, -, htpa⟩ := arpRequest_iff.mp hreq
  by_contra hshort
  have hsame : SameReceived len f (splice f 41 [f 41 + 1]) :=
    sameReceived_splice (by omega) (by simp [etherMaxLen])
  have hkeep : ∀ i, i ≠ 41 → splice f 41 [f 41 + 1] i = f i := fun i hne => splice_byte_outside hne
  have htype' : word16 (splice f 41 [f 41 + 1]) etherType = hton16 ethertypeARP := by
    rw [word16_congr (hkeep _ (by decide)) (hkeep _ (by decide)), htype]
  rcases (hi.request_iff hsame).mpr (Or.inr (Or.inr hreq)) with he | hc | ha
  · exact (not_ip_of_arp htype').1 he
  · exact (not_ip_of_arp htype').2 hc
  · have htpa' := (arpRequest_iff.mp ha).2.2.2
    rw [← htpa, slice_eq_iff] at htpa'
    have hbyte := htpa' 3 (by decide)
    rw [arpTpa, splice_inside (by decide) (by simp)] at hbyte
    exact add_one_ne _ hbyte

/-- **Left-overs.** Nothing behind the received bytes can be seen if and only if these settle what is
answered. -/
theorem independent_iff (host : Host) (len : ℕ) (hmax : len ≤ 1514) (f : Bytes) (g : Generators) :
    Independent host len f g ↔ Settled host len f := by
  constructor
  · intro hi
    by_cases he : EchoRequest host f
    · exact Or.inr (Or.inl ⟨he, hi.echo he hmax⟩)
    by_cases hc : ChargenRequest host f
    · exact Or.inr (Or.inr (Or.inl ⟨hc, hi.chargen hc hmax⟩))
    by_cases ha : ArpRequest host f
    · exact Or.inr (Or.inr (Or.inr ⟨ha, hi.arp ha⟩))
    · exact Or.inl (hi.refuted (by simp only [he, hc, ha, or_self, not_false_eq_true]))
  · intro hs
    exact hs.independent g

theorem independent_of_full_echo : Independent prdk 42 (echoFrame 0 28 0xEE) resting := by
  refine (independent_iff prdk 42 (by decide) _ resting).mpr (Or.inr (Or.inl ⟨?_, ?_⟩))
  · decide +kernel
  · decide +kernel

def greedyEcho : Bytes := ipv4Frame 0 100 64 1 ([8, 0, 0, 0, 0, 0, 0, 0] ++ List.replicate 18 0) 0xEE

/-- Its reply contains byte 60 of the buffer, which was not received. -/
theorem stale_byte_sent : SameReceived 60 greedyEcho (splice greedyEcho 60 [0x5A]) ∧
    observed prdk 60 (splice greedyEcho 60 [0x5A]) resting ≠ observed prdk 60 greedyEcho resting :=
  ⟨sameReceived_splice (Nat.le_refl 60) (by decide), by decide +kernel⟩

end Wchratum1.Packet
