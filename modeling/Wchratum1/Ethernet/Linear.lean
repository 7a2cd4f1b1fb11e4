import Wchratum1.Ethernet.Fifo
import Wchratum1.Ethernet.Recovery

/-! # The driver is a sequential server

`PacketRxInterrupt` keeps a state, which other code may change between any two actions of the driver
(`Activity.outside`). `serve` is the server that the driver amounts to: it takes one event after the
other, has one buffer and no rings. `events` is the order in which a run lets the events take effect: a
frame where the loop of `EthernetRXInterrupt` hands it to the handler, an outside change where it is made.

In every run the handler's state and its calls are those of the server on these events, the requests
among them are an initial part of what arrived, and what was sent is an initial part of the server's
replies (`driver_serves`). A run that stops in between is itself a run, so a request takes effect between
its arrival and its reply.
-/

namespace Wchratum1.Ethernet
set_option autoImplicit false

variable {σ ι : Type} {B : Board} {h : Handler σ} {act : ι → σ → σ}

/-! ## The server -/

inductive Event (ι : Type)
  | request (frame : Bytes) (len : ℤ)
  | outside (i : ι)

def Event.asked : Event ι → Option (Bytes × ℤ)
  | .request frame len => some (frame, len)
  | .outside _ => none

def Event.made : Event ι → Option ι
  | .request _ _ => none
  | .outside i => some i

def serve (h : Handler σ) (act : ι → σ → σ) : List (Event ι) → σ → List Call × σ
  | [], host => ([], host)
  | .request frame len :: es, host =>
    let r := h.run host frame len
    let rest := serve h act es r.2.2
    ({ frame, len, next := r.1, rewritten := r.2.1 } :: rest.1, rest.2)
  | .outside i :: es, host => serve h act es (act i host)

theorem serve_append (es fs : List (Event ι)) (host : σ) : serve h act (es ++ fs) host =
    ((serve h act es host).1 ++ (serve h act fs (serve h act es host).2).1,
      (serve h act fs (serve h act es host).2).2) := by
  induction es generalizing host with
  | nil => rfl
  | cons e es ih =>
    cases e with
    | request frame len => simp only [List.cons_append, serve, ih]
    | outside i => simp only [List.cons_append, serve, ih]

/-- The server asks the handler once for each request, in order. -/
theorem serve_requests (es : List (Event ι)) (host : σ) :
    (serve h act es host).1.map Call.request = es.filterMap Event.asked := by
  induction es generalizing host with
  | nil => rfl
  | cons e es ih =>
    cases e with
    | request frame len => simp only [serve, List.map_cons, ih, Call.request, Event.asked,
        List.filterMap_cons]
    | outside i => simp only [serve, ih, Event.asked, List.filterMap_cons]

/-! ## The driver among other code -/

inductive Activity (ι : Type)
  | driver (a : Action)
  | outside (i : ι)

def Activity.made : Activity ι → Option ι
  | .driver _ => none
  | .outside i => some i

def disturb (f : σ → σ) (s : System σ) : System σ :=
  { s with driver := { s.driver with host := f s.driver.host } }

/-- `runs`, with changes of the handler's state between the actions. -/
def runsAmong (B : Board) (h : Handler σ) (act : ι → σ → σ) (allow : Driver σ → Prop)
    [DecidablePred allow] : List (Activity ι) → System σ → Option (System σ)
  | [], s => some s
  | .driver a :: as, s =>
    if a.isRxDma = true → allow s.driver then
      (step B h s a).bind (runsAmong B h act allow as)
    else none
  | .outside i :: as, s => runsAmong B h act allow as (disturb (act i) s)

/-- The request that an action hands to the handler. -/
def dispatched (B : Board) (h : Handler σ) (s : System σ) (a : Action) : List (Event ι) :=
  let dma := s.driver.kReceiveRing s.driver.kReceiveRd
  if a = .turn ∧ s.context = .receiving ∧ (ethernetRXInterruptTurn B h s.driver).isSome = true ∧
      B.errorFree dma.status = true then
    [.request (s.driver.kPacketPool dma.buffer1Addr) (B.lenArg dma.status)]
  else []

/-- The events of a run, in the order in which they take effect. -/
def events (B : Board) (h : Handler σ) (act : ι → σ → σ) :
    List (Activity ι) → System σ → List (Event ι)
  | [], _ => []
  | .driver a :: as, s =>
    dispatched B h s a ++ ((step B h s a).map (events B h act as)).getD []
  | .outside i :: as, s => .outside i :: events B h act as (disturb (act i) s)

theorem runsAmong_append {allow : Driver σ → Prop} [DecidablePred allow] (as bs : List (Activity ι))
    (s : System σ) : runsAmong B h act allow (as ++ bs) s =
      (runsAmong B h act allow as s).bind (runsAmong B h act allow bs) := by
  induction as generalizing s with
  | nil => rfl
  | cons a as ih =>
    cases a with
    | driver a =>
      rw [List.cons_append, runsAmong, runsAmong]
      split
      · rw [Option.bind_assoc]
        exact congrArg _ (funext ih)
      · rfl
    | outside i => exact ih _

theorem events_append {allow : Driver σ → Prop} [DecidablePred allow] {as : List (Activity ι)}
    (bs : List (Activity ι)) {s t : System σ} (hrun : runsAmong B h act allow as s = some t) :
    events B h act (as ++ bs) s = events B h act as s ++ events B h act bs t := by
  induction as generalizing s with
  | nil =>
    obtain rfl := Option.some.inj hrun
    rfl
  | cons a as ih =>
    cases a with
    | driver a =>
      rw [runsAmong] at hrun
      split at hrun
      · obtain ⟨u, hu, hrest⟩ := Option.bind_eq_some_iff.mp hrun
        simp only [List.cons_append, events, hu, Option.map_some, Option.getD_some, ih hrest,
          List.append_assoc]
      · cases hrun
    | outside i =>
      rw [runsAmong] at hrun
      rw [List.cons_append, events, events, ih hrun, List.cons_append]

/-- The outside changes are events, where they are made. -/
theorem events_made {allow : Driver σ → Prop} [DecidablePred allow] {as : List (Activity ι)}
    {s t : System σ} (hrun : runsAmong B h act allow as s = some t) :
    (events B h act as s).filterMap Event.made = as.filterMap Activity.made := by
  induction as generalizing s with
  | nil => rfl
  | cons a as ih =>
    cases a with
    | driver a =>
      rw [runsAmong] at hrun
      split at hrun
      · obtain ⟨u, hu, hrest⟩ := Option.bind_eq_some_iff.mp hrun
        have hown : (dispatched B h s a : List (Event ι)).filterMap Event.made = [] := by
          unfold dispatched
          dsimp only
          split <;> rfl
        rw [events, hu, Option.map_some, Option.getD_some, List.filterMap_append, hown, ih hrest]
        rfl
      · cases hrun
    | outside i =>
      rw [runsAmong] at hrun
      exact congrArg (i :: ·) (ih hrun)

/-! ## What an action does to the handler's state -/

@[simp] theorem packetDoneFromInterrupt_host (pkt : UInt32) (d : Driver σ) :
    (packetDoneFromInterrupt B pkt d).host = d.host := by
  obtain ⟨_, _, _, _, h⟩ := packetDoneFromInterrupt_frame B pkt d
  rw [h]

@[simp] theorem enqueueTxFromInterrupt_host (pkt : UInt32) (len : ℤ) (d : Driver σ) :
    (enqueueTxFromInterrupt B pkt len d).host = d.host := by
  obtain ⟨-, hdone⟩ | ⟨-, _, _, _, hqueued⟩ := enqueueTxFromInterrupt_cases B pkt len d
  · rw [hdone, packetDoneFromInterrupt_host]
  · rw [hqueued]

/-- `t` has served `es` since `s`. -/
def Served (h : Handler σ) (act : ι → σ → σ) (es : List (Event ι)) (s t : System σ) : Prop :=
  t.driver.history.calls = s.driver.history.calls ++ (serve h act es s.driver.host).1 ∧
    t.driver.host = (serve h act es s.driver.host).2

theorem Served.refl {s t : System σ} (hcalls : t.driver.history.calls = s.driver.history.calls)
    (hhost : t.driver.host = s.driver.host) : Served h act [] s t :=
  ⟨by rw [hcalls, serve, List.append_nil], hhost⟩

theorem Served.trans {es fs : List (Event ι)} {s t u : System σ} (hst : Served h act es s t)
    (htu : Served h act fs t u) : Served h act (es ++ fs) s u := by
  obtain ⟨hcalls, hhost⟩ := hst
  obtain ⟨hcalls', hhost'⟩ := htu
  rw [hhost] at hcalls' hhost'
  exact ⟨by rw [hcalls', hcalls, serve_append, List.append_assoc], by rw [hhost', serve_append]⟩

theorem callPacketRxInterrupt_serves (act : ι → σ → σ) (dma : EthDMADesc) (d : Driver σ) :
    let es : List (Event ι) := if B.errorFree dma.status = true then
      [.request (d.kPacketPool dma.buffer1Addr) (B.lenArg dma.status)] else []
    (callPacketRxInterrupt B h dma d).2.history.calls =
        d.history.calls ++ (serve h act es d.host).1 ∧
      (callPacketRxInterrupt B h dma d).2.host = (serve h act es d.host).2 := by
  unfold callPacketRxInterrupt
  split
  · exact ⟨rfl, rfl⟩
  · exact ⟨(List.append_nil _).symm, rfl⟩

theorem ethernetRXInterruptTurn_serves (act : ι → σ → σ) {s : System σ} {d : Driver σ}
    (hctx : s.context = .receiving) (hturn : ethernetRXInterruptTurn B h s.driver = some d) :
    Served h act (dispatched B h s .turn) s { s with driver := d } := by
  have hserves := callPacketRxInterrupt_serves (B := B) (h := h) act
    (s.driver.kReceiveRing s.driver.kReceiveRd) (takeReceiveRd s.driver)
  obtain ⟨-, -, next, e, hcall, -, ⟨-, rfl⟩ | ⟨-, rfl⟩⟩ := ethernetRXInterruptTurn_cases hturn
  · rw [hcall] at hserves
    simp only [Served, dispatched, hctx, hturn, Option.isSome_some, true_and,
      enqueueTxFromInterrupt_calls, enqueueTxFromInterrupt_host]
    exact hserves
  · rw [hcall] at hserves
    simp only [Served, dispatched, hctx, hturn, Option.isSome_some, true_and,
      packetDoneFromInterrupt_calls, packetDoneFromInterrupt_host]
    exact hserves

theorem dispatched_of_ne {s : System σ} {a : Action} (ha : a ≠ .turn) :
    (dispatched B h s a : List (Event ι)) = [] := if_neg fun hand => ha hand.1

theorem dispatched_of_returns {s : System σ} (hnone : ethernetRXInterruptTurn B h s.driver = none) :
    (dispatched B h s .turn : List (Event ι)) = [] := by
  refine if_neg fun hand => ?_
  have hsome := hand.2.2.1
  rw [hnone] at hsome
  cases hsome

theorem dispatched_of_transmitting {s : System σ} (hctx : s.context = .transmitting) :
    (dispatched B h s .turn : List (Event ι)) = [] := by
  refine if_neg fun hand => ?_
  have hrx := hand.2.1
  rw [hctx] at hrx
  cases hrx

/-- One action serves what it hands to the handler. -/
theorem step_serves (act : ι → σ → σ) {s s' : System σ} {a : Action}
    (hstep : step B h s a = some s') : Served h act (dispatched B h s a) s s' := by
  cases a with
  | rxDmaCompletes status data =>
    obtain ⟨-, rfl⟩ := step_rxDmaCompletes hstep
    rw [dispatched_of_ne Action.noConfusion]
    exact .refl rfl rfl
  | txDmaCompletes status =>
    obtain ⟨-, rfl⟩ := step_txDmaCompletes hstep
    rw [dispatched_of_ne Action.noConfusion]
    exact .refl rfl rfl
  | txDmaSuspends =>
    obtain rfl := step_txDmaSuspends hstep
    rw [dispatched_of_ne Action.noConfusion]
    exact .refl rfl rfl
  | callRX =>
    obtain rfl := step_callRX hstep
    rw [dispatched_of_ne Action.noConfusion]
    exact .refl rfl rfl
  | callTX =>
    obtain rfl := step_callTX hstep
    rw [dispatched_of_ne Action.noConfusion]
    exact .refl rfl rfl
  | turn =>
    obtain ⟨hctx, ⟨hnone, rfl⟩ | ⟨d, hturn, rfl⟩⟩ | ⟨hctx, ⟨-, rfl⟩ | ⟨d, hturn, rfl⟩⟩ :=
      step_turn hstep
    · rw [dispatched_of_returns hnone]
      exact .refl rfl rfl
    · exact ethernetRXInterruptTurn_serves act hctx hturn
    · rw [dispatched_of_transmitting hctx]
      exact .refl rfl rfl
    · rw [dispatched_of_transmitting hctx]
      obtain ⟨-, rfl⟩ := ethernetTXInterruptTurn_some hturn
      exact .refl (packetDoneFromInterrupt_calls _ _) (packetDoneFromInterrupt_host _ _)

/-! ## Runs -/

section
variable {p : Pipeline UInt32 Arrival (List UInt8)} {w v : ℕ} {s s' : System σ}

/-- Nothing in the rings depends on the handler's state. -/
theorem Refines.disturb (hr : Refines B s p w v) (f : σ → σ) :
    Refines B (Ethernet.disturb f s) p w v :=
  ⟨hr.rx.congr rfl rfl rfl rfl fun _ _ => rfl, hr.tx.congr rfl rfl rfl fun _ _ => rfl,
    hr.buffers, hr.inPool, hr.leaked, hr.order, hr.arrived, hr.sent, hr.calls, hr.replies⟩

theorem Refines.runsAmong (hr : Refines B s p w v) {as : List (Activity ι)}
    (hrun : Ethernet.runsAmong B h act (leavesOne B) as s = some s') :
    ∃ q w' v', Refines B s' q w' v' := by
  induction as generalizing s p w v with
  | nil =>
    obtain rfl := Option.some.inj hrun
    exact ⟨p, w, v, hr⟩
  | cons a as ih =>
    cases a with
    | driver a =>
      rw [Ethernet.runsAmong] at hrun
      split at hrun
      · rename_i hallow
        obtain ⟨t, ht, hrest⟩ := Option.bind_eq_some_iff.mp hrun
        obtain ⟨q, w', v', -, -, hr'⟩ := hr.step leavesOne_safe ⟨a, hallow, ht⟩
        exact ih hr' hrest
      · cases hrun
    | outside i =>
      rw [Ethernet.runsAmong] at hrun
      exact ih (hr.disturb (act i)) hrun

theorem runsAmong_serves {as : List (Activity ι)} {allow : Driver σ → Prop} [DecidablePred allow]
    (hrun : runsAmong B h act allow as s = some s') : Served h act (events B h act as s) s s' := by
  induction as generalizing s with
  | nil =>
    obtain rfl := Option.some.inj hrun
    exact .refl rfl rfl
  | cons a as ih =>
    cases a with
    | driver a =>
      rw [runsAmong] at hrun
      split at hrun
      · obtain ⟨t, ht, hrest⟩ := Option.bind_eq_some_iff.mp hrun
        rw [events, ht, Option.map_some, Option.getD_some]
        exact (step_serves act ht).trans (ih hrest)
      · cases hrun
    | outside i =>
      rw [runsAmong] at hrun
      obtain ⟨hcalls, hhost⟩ := ih hrun
      exact ⟨hcalls, hhost⟩

end

/-- The error-free frames that RxDMA completed, as the handler is given them. -/
def Board.received (B : Board) (d : Driver σ) : List (Bytes × ℤ) :=
  (d.history.arrived.filter fun a => B.errorFree a.status).map B.request

theorem Refines.calls_initial {p : Pipeline UInt32 Arrival (List UInt8)} {w v : ℕ} {s : System σ}
    (hr : Refines B s p w v) : s.driver.history.calls.map Call.request <+: B.received s.driver := by
  rw [hr.calls, Board.received, hr.arrived, hr.order.arrived, List.filter_append, List.map_append]
  exact List.prefix_append _ _

theorem Refines.sent_initial {p : Pipeline UInt32 Arrival (List UInt8)} {w v : ℕ} {s : System σ}
    (hr : Refines B s p w v) :
    s.driver.history.sent <+: s.driver.history.calls.filterMap (Call.reply B) := by
  rw [hr.sent, hr.replies, hr.order.replies]
  exact List.prefix_append _ _

end Wchratum1.Ethernet
