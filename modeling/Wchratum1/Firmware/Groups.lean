import Wchratum1.Firmware.Streams

/-! # What the network sees of Chaskey

The replies to chargen requests for `C` are Chaskey in counter mode: over a whole run each group is the
next reading of the tick counter under the key of the moment, and a datagram is made under one key, which
is what an initial part of the injections leaves (`chaskey_counter_mode`). So a group comes twice in a datagram exactly when the counter was read twice with
the same value.
-/

namespace Wchratum1.Firmware
open Ethernet Prng Packet Dhcp Bytes
set_option autoImplicit false

variable {host : Host} {g : Generators} {es : List (Event PrngCall)}

/-! ## Groups -/

/-- `dst[0]`, `dst[1]`, low word, high word. -/
def groupWords (x : UInt64 × UInt32 × UInt32) : List UInt32 := [x.2.1, x.2.2, lowWord x.1, highWord x.1]

def groupsOf : List UInt32 → List (UInt64 × UInt32 × UInt32)
  | w0 :: w1 :: w2 :: w3 :: rest => (wideWord w3 w2, w0, w1) :: groupsOf rest
  | _ => []

/-- The groups of a stream of groups. -/
def groups (data : List UInt8) : List (UInt64 × UInt32 × UInt32) := groupsOf (words32 data)

theorem groupsOf_flatMap (xs : List (UInt64 × UInt32 × UInt32)) : groupsOf (xs.flatMap groupWords) = xs := by
  induction xs with
  | nil => rfl
  | cons x xs ih =>
    have hcons : groupsOf ((x :: xs).flatMap groupWords) =
        (wideWord (highWord x.1) (lowWord x.1), x.2.1, x.2.2) :: groupsOf (xs.flatMap groupWords) := rfl
    rw [hcons, ih, wideWord_halves]

theorem groups_flatMap (xs : List (UInt64 × UInt32 × UInt32)) : groups (xs.flatMap groupBytes) = xs := by
  have hbytes : xs.flatMap groupBytes = (xs.flatMap groupWords).flatMap le32 := by
    rw [List.flatMap_assoc]
    refine List.flatMap_congr fun x _ => ?_
    simp only [groupBytes, groupWords, List.flatMap_cons, List.flatMap_nil, List.append_nil,
      List.append_assoc]
  rw [groups, hbytes, words32_flatMap, groupsOf_flatMap]

/-- The group that `CSPrngUInt64x2` returns to its caller. -/
def groupValue : PrngCall → Generators → Option (UInt64 × UInt32 × UInt32)
  | .csPrngUInt64x2, g => some (csPrngUInt64x2 g).1
  | _, _ => none

theorem carries_groups : Carries host 'C'.toUInt8 groups groupValue := by
  refine carries_of_fills (groupFiller csPrngUInt64x2) csPrngUInt64x2 groupBytes .csPrngUInt64x2 rfl rfl rfl
    rfl groups_flatMap (fun _ => rfl) (fun _ => rfl) ?_
  intro payload hne c hc g
  obtain ⟨-, rfl⟩ | ⟨-, rfl⟩ | ⟨-, rfl⟩ | ⟨heq, -⟩ := mem_fillCalls hc
  · rfl
  · rfl
  · rfl
  · exact absurd heq hne

/-! ## Readings of the counter -/

def readings : PrngCall → ℕ
  | .csPrngUInt64 | .csPrngUInt64x2 => 1
  | _ => 0

theorem OwnCall.readings {call : PrngCall} (h : OwnCall call) :
    Firmware.readings call = 0 ∧ ∀ g, groupValue call g = none := by
  cases h <;> exact ⟨rfl, fun _ => rfl⟩

theorem run_sysTick (call : PrngCall) (g : Generators) :
    (call.run g).sysTick = fun j => g.sysTick (j + readings call) := by
  cases call <;> rfl

theorem runs_sysTick (calls : List PrngCall) (g : Generators) :
    (PrngCall.runs calls g).sysTick = fun j => g.sysTick (j + (calls.map readings).sum) := by
  induction calls generalizing g with
  | nil => rfl
  | cons call calls ih =>
    have hruns : PrngCall.runs (call :: calls) g = PrngCall.runs calls (call.run g) := rfl
    rw [hruns, ih, run_sysTick, List.map_cons, List.sum_cons]
    funext j
    exact congrArg g.sysTick (by omega)

/-! ## Counter mode -/

def tickOf (r : SysTickReads) : UInt64 := sysTickCnt64 r.hiBefore r.lo r.hiAfter

def groupOf (key : Fin 4 → UInt32) (tick : UInt64) : UInt64 × UInt32 × UInt32 :=
  chaskey8_64x128 (lowWord tick) (highWord tick) key

/-- A datagram: 92 readings under one key. -/
def counterBlock (key : Fin 4 → UInt32) (reads : ℕ → SysTickReads) : List (UInt64 × UInt32 × UInt32) :=
  (List.range 92).map fun j => groupOf key (tickOf (reads j))

/-- One datagram for each key, each with the next readings. -/
def counterBlocks : List (Fin 4 → UInt32) → (ℕ → SysTickReads) → List (UInt64 × UInt32 × UInt32)
  | [], _ => []
  | key :: keys, reads => counterBlock key reads ++ counterBlocks keys fun j => reads (j + 92)

theorem counterBlock_nodup (key : Fin 4 → UInt32) (reads : ℕ → SysTickReads) :
    (counterBlock key reads).Nodup ↔ ((List.range 92).map fun j => tickOf (reads j)).Nodup := by
  have hmap : counterBlock key reads = ((List.range 92).map fun j => tickOf (reads j)).map (groupOf key) := by
    rw [List.map_map]
    rfl
  rw [hmap]
  exact List.nodup_map_iff (chaskey8_64x128_injective key)

theorem draws_groups (k : ℕ) (g : Generators) : draws csPrngUInt64x2 k g =
    (List.range k).map fun j => groupOf g.kPrngKey (tickOf (g.sysTick j)) := by
  induction k generalizing g with
  | zero => rfl
  | succ k ih =>
    rw [draws, ih, List.range_succ_eq_map, List.map_cons, List.map_map]
    rfl

/-! ## The log -/

def AsksChaskey (host : Host) (f : Bytes) : Prop := ChargenRequest host f ∧ f udpPayload = 'C'.toUInt8

instance decidableAsksChaskey (host : Host) (f : Bytes) : Decidable (AsksChaskey host f) :=
  inferInstanceAs (Decidable (_ ∧ _))

theorem frameCalls_chaskey {f : Bytes} (h : AsksChaskey host f) :
    frameCalls host f = List.replicate 92 .csPrngUInt64x2 := by
  rw [frameCalls, if_pos h.1, h.2]
  rfl

theorem frameCalls_other {f : Bytes} (h : ¬ AsksChaskey host f) :
    ∀ call ∈ frameCalls host f, readings call = 0 ∧ ∀ g, groupValue call g = none := by
  intro call hcall
  unfold frameCalls at hcall
  split at hcall
  · rename_i hreq
    obtain ⟨-, rfl⟩ | ⟨-, rfl⟩ | ⟨-, rfl⟩ | ⟨heq, -⟩ := mem_fillCalls hcall
    · exact ⟨rfl, fun _ => rfl⟩
    · exact ⟨rfl, fun _ => rfl⟩
    · exact ⟨rfl, fun _ => rfl⟩
    · exact absurd ⟨hreq, heq⟩ h
  · cases hcall

/-- Calls that read nothing and return no group. -/
theorem quiet_calls {calls : List PrngCall}
    (h : ∀ call ∈ calls, readings call = 0 ∧ ∀ g, groupValue call g = none) (g : Generators) :
    PrngCall.results groupValue calls g = [] ∧ (PrngCall.runs calls g).sysTick = g.sysTick := by
  refine ⟨results_eq_nil (fun call hcall => (h call hcall).2) g, ?_⟩
  have hzero : (calls.map readings).sum = 0 :=
    List.sum_eq_zero fun n hn => by
      obtain ⟨call, hcall, rfl⟩ := List.mem_map.mp hn
      exact (h call hcall).1
  rw [runs_sysTick, hzero]
  rfl

/-- The key when the first `n` events are over. -/
def keyAfter (host : Host) (es : List (Event PrngCall)) (g : Generators) (n : ℕ) : Fin 4 → UInt32 :=
  (PrngCall.runs (callLog host (es.take n)) g).kPrngKey

theorem keyAfter_cons (e : Event PrngCall) (es : List (Event PrngCall)) (g : Generators) (ns : List ℕ) :
    (ns.map (· + 1)).map (keyAfter host (e :: es) g) =
      ns.map (keyAfter host es (PrngCall.runs (eventCalls host e) g)) := by
  rw [List.map_map]
  refine List.map_congr_left fun n _ => ?_
  rw [Function.comp_apply, keyAfter, List.take_succ_cons, callLog_cons, runs_append]
  rfl

theorem pairwise_succ {ns : List ℕ} (h : ns.Pairwise (· < ·)) : (ns.map (· + 1)).Pairwise (· < ·) :=
  h.map _ fun _ _ hlt => Nat.succ_lt_succ hlt

/-- The groups of a log: its datagrams are made after `ns` events each, in order. -/
theorem callLog_blocks (hown : ∀ call, Event.outside call ∈ es → OwnCall call) (g : Generators) :
    ∃ ns : List ℕ, ns.Pairwise (· < ·) ∧
      PrngCall.results groupValue (callLog host es) g =
        counterBlocks (ns.map (keyAfter host es g)) g.sysTick ∧
      ns.length = (es.filterMap Event.asked).countP (fun q => AsksChaskey host q.1) := by
  induction es generalizing g with
  | nil => exact ⟨[], List.Pairwise.nil, rfl, rfl⟩
  | cons e es ih =>
    obtain ⟨ns, hordered, hgroups, hlength⟩ :=
      ih (fun call hcall => hown call (List.mem_cons_of_mem _ hcall)) (PrngCall.runs (eventCalls host e) g)
    rw [callLog_cons, results_append, hgroups, ← keyAfter_cons]
    cases e with
    | outside call =>
      have hcall : ∀ c ∈ [call], readings c = 0 ∧ ∀ g, groupValue c g = none := by
        intro c hc
        rw [List.mem_singleton.mp hc]
        exact (hown call List.mem_cons_self).readings
      obtain ⟨hnone, hsame⟩ := quiet_calls hcall g
      refine ⟨ns.map (· + 1), pairwise_succ hordered, ?_, ?_⟩
      · rw [eventCalls, hnone, hsame, List.nil_append]
      · rw [List.length_map, hlength]
        rfl
    | request f len =>
      have hasked : (Event.request f len :: es).filterMap Event.asked =
          (f, len) :: es.filterMap Event.asked := rfl
      rw [hasked, List.countP_cons]
      by_cases hasks : AsksChaskey host f
      · refine ⟨0 :: ns.map (· + 1), List.pairwise_cons.mpr ⟨?_, pairwise_succ hordered⟩, ?_, ?_⟩
        · intro n hn
          obtain ⟨m, -, rfl⟩ := List.mem_map.mp hn
          exact Nat.succ_pos m
        · have hshift : (PrngCall.runs (eventCalls host (.request f len)) g).sysTick =
              fun j => g.sysTick (j + 92) := by
            rw [eventCalls, frameCalls_chaskey hasks, runs_sysTick]
            rfl
          rw [List.map_cons, counterBlocks, hshift, eventCalls, frameCalls_chaskey hasks,
            results_replicate (fun _ => rfl) (fun _ => rfl), draws_groups]
          rfl
        · rw [List.length_cons, List.length_map, hlength, if_pos (decide_eq_true hasks)]
      · obtain ⟨hnone, hsame⟩ := quiet_calls (frameCalls_other hasks) g
        refine ⟨ns.map (· + 1), pairwise_succ hordered, ?_, ?_⟩
        · rw [eventCalls, hnone, hsame, List.nil_append]
        · rw [List.length_map, if_neg (by simpa using hasks), Nat.add_zero, hlength]

/-! ## Runs -/

/-- The key that the first `n` injections of the program leave, the words being those that the ledger `us`
has for the key. -/
def injectedKey (r : Reset) (us : List Use) (s : Program) (n : ℕ) : Fin 4 → UInt32 :=
  (InjectCall.runs ((s.record.calls.filterMap injection?).take n)
    { r.booted with trng := keyWords us }).kPrngKey

/-- What the 'C' datagrams of a run are made of: the readings since the boot, in order, and keys, of which
`ns` says after how many injections. -/
structure CounterMode (host : Host) (r : Reset) (us : List Use) (s : Program) (ns : List ℕ) : Prop where
  sent : s.irq.sys.driver.history.calls.flatMap (carried host 'C'.toUInt8 groups) =
    counterBlocks (ns.map (injectedKey r us s)) r.booted.sysTick
  datagrams : ns.length = s.irq.sys.driver.history.calls.countP fun c => AsksChaskey host c.frame
  ordered : ns.Pairwise (· ≤ ·)
  made : ∀ n ∈ ns, n ≤ (s.record.calls.filterMap injection?).length
  repeats : ∀ n k, (counterBlock (injectedKey r us s n) fun j => r.booted.sysTick (j + k)).Nodup ↔
    ((List.range 92).map fun j => tickOf (r.booted.sysTick (j + k))).Nodup

/-- How many injections there are among the first `n` events. -/
def injectionsAmong (es : List (Event PrngCall)) (n : ℕ) : ℕ :=
  ((es.take n).filterMap Event.injection?).length

theorem injectionsAmong_mono (es : List (Event PrngCall)) {n m : ℕ} (h : n ≤ m) :
    injectionsAmong es n ≤ injectionsAmong es m :=
  ((List.take_prefix_take_left h).filterMap _).length_le

theorem injectionsAmong_le (es : List (Event PrngCall)) (n : ℕ) :
    injectionsAmong es n ≤ (es.filterMap Event.injection?).length :=
  ((List.take_prefix n es).filterMap _).length_le

theorem Since.keyAfter {B : Board} {r : Reset} {s : Program} (h : Since B host r es s) (n : ℕ) :
    Firmware.keyAfter host es r.booted n = injectedKey r (uses host es r.booted) s (injectionsAmong es n) := by
  have hinitial := List.take_prefix n es
  have htake := List.prefix_iff_eq_take.mp (hinitial.filterMap Event.injection?)
  rw [injectedKey, ← h.injections, injectionsAmong, ← htake]
  exact (sameKey_after hinitial r.booted).key

/-- **Chaskey in counter mode.** In every run of the program, `main`'s calls of the generators taken as
atomic, the groups in the replies to requests for `C` are the encipherings of the readings of the tick
counter since the boot, each used once and in order; a datagram has one key, which an initial part of the
injections has left, on the words that the ledger of the TRNG has for the key, and later datagrams have no
shorter part; and in a datagram two groups are equal only if two readings are. -/
theorem chaskey_counter_mode (B : Board) (V : PhyBoard) (host : Host) (r : Reset)
    {as : List ProgramAction} {s : Program} (hrun : programRuns B V host as (boot B V r) = some s) :
    ∃ us ns, Accounts B host r us s ∧ CounterMode host r us s ns := by
  obtain ⟨es, hsince⟩ := programRuns_since hrun
  have hown : ∀ call, Event.outside call ∈ es → OwnCall call := by
    intro call hcall
    refine programRuns_own hrun call ?_
    rw [← hsince.made]
    exact List.mem_filterMap.mpr ⟨_, hcall, rfl⟩
  obtain ⟨ns, hordered, hgroups, hlength⟩ := callLog_blocks hown r.booted
  refine ⟨uses host es r.booted, ns.map (injectionsAmong es), hsince.accounts, ?_, ?_, ?_, ?_,
    fun n k => counterBlock_nodup _ _⟩
  · rw [hsince.calls, serve_carries carries_groups fun call hcall => (hown call hcall).readings.2, hgroups,
      List.map_map]
    congr 1
    exact List.map_congr_left fun n _ => hsince.keyAfter n
  · rw [List.length_map, hlength, hsince.asked, List.countP_map]
    rfl
  · exact hordered.map _ fun n m hlt => injectionsAmong_mono es hlt.le
  · intro n hn
    obtain ⟨m, -, rfl⟩ := List.mem_map.mp hn
    rw [← hsince.injections]
    exact injectionsAmong_le es m

theorem chaskey_counter_mode_first_frame :
    ∃ s us ns, programRuns ch32v307 ch32v307Phy prdk (firstFrame (chargenFrame 'C'.toUInt8 0xEE))
        (boot ch32v307 ch32v307Phy outOfReset) = some s ∧ Accounts ch32v307 prdk outOfReset us s ∧
      CounterMode prdk outOfReset us s ns ∧ ns.length = 1 := by
  obtain ⟨s, hs, hone⟩ : ∃ s, programRuns ch32v307 ch32v307Phy prdk
      (firstFrame (chargenFrame 'C'.toUInt8 0xEE)) (boot ch32v307 ch32v307Phy outOfReset) = some s ∧
        decide ((s.irq.sys.driver.history.calls.countP fun c => AsksChaskey prdk c.frame) = 1) = true :=
    (Option.any_eq_true _ _).mp (by decide +kernel)
  obtain ⟨us, ns, haccounts, hmode⟩ := chaskey_counter_mode ch32v307 ch32v307Phy prdk outOfReset hs
  exact ⟨s, us, ns, hs, haccounts, hmode, hmode.datagrams.trans (of_decide_eq_true hone)⟩

end Wchratum1.Firmware
