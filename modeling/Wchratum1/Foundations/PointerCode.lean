import Wchratum1.Foundations.Bytes
import Mathlib.Logic.Function.Iterate

/-! # Imperative code over one pointer

`Run ε` is code that reads and writes bytes at offsets from one pointer, over some other state `ε`.
It may fail to finish (`none`), and keeps two records that the program cannot see: how many turns its
pointer loops took, and which offsets it touched, in order.

`Does x s r t`: from the state `s`, whatever was touched before, `x` finishes with `r` in the state
`t`. There is one rule for each way to build code. A loop `for (; p != end; p += stride)` is run on a
bound that has to be shown large enough (`Does.forPointer`).

`Within n x`: from any state, what `x` touches is below `n`, with the same rules.
-/

namespace Wchratum1.PointerCode
open Bytes
set_option autoImplicit false

structure Store (ε : Type) where
  bytes : Bytes
  env : ε
  turns : ℕ

structure Machine (ε : Type) where
  store : Store ε
  touched : List ℕ

abbrev Run (ε : Type) := StateT (Machine ε) Option

variable {ε α β : Type}

/-! ## Statements -/

def access (a n : ℕ) : Run ε Bytes := fun m =>
  some (m.store.bytes, { m with touched := m.touched ++ List.range' a n })

def load8 (a : ℕ) : Run ε UInt8 := do return (← access a 1) a

def load16 (a : ℕ) : Run ε UInt16 := do return word16 (← access a 2) a

def load32 (a : ℕ) : Run ε UInt32 := do return word32 (← access a 4) a

def write (a : ℕ) (data : List UInt8) : Run ε Unit := fun m =>
  some ((), {
    store := { m.store with bytes := splice m.store.bytes a data }
    touched := m.touched ++ List.range' a data.length })

def store8 (a : ℕ) (b : UInt8) : Run ε Unit := write a [b]

def store16 (a : ℕ) (w : UInt16) : Run ε Unit := write a (le16 w)

def store32 (a : ℕ) (w : UInt32) : Run ε Unit := write a (le32 w)

/-- `memcpy` between disjoint parts of the memory. -/
def memcpy (dst src n : ℕ) : Run ε Unit := do write dst (slice (← access src n) src n)

/-- `memcmp(p + a, data, n) == 0` with an object that holds `data`. -/
def memcmp (a : ℕ) (data : List UInt8) : Run ε Bool := do
  return slice (← access a data.length) a data.length == data

def call (f : ε → α × ε) : Run ε α := fun m =>
  some ((f m.store.env).1, { m with store := { m.store with env := (f m.store.env).2 } })

/-- `x && y`. -/
def both (x y : Run ε Bool) : Run ε Bool := do if ← x then y else return false

def countTurn : Run ε Unit := fun m =>
  some ((), { m with store := { m.store with turns := m.store.turns + 1 } })

/-- `for (; p != stop; p += stride) body(p)`, given up after `fuel` turns. -/
def forPointer (body : ℕ → Run ε Unit) (stride stop : ℕ) : ℕ → ℕ → Run ε Unit
  | 0, p => if p = stop then return () else failure
  | fuel + 1, p =>
    if p = stop then return ()
    else do
      body p
      countTurn
      forPointer body stride stop fuel (p + stride)

/-! ## What code does -/

def Does (x : Run ε α) (s : Store ε) (r : α) (t : Store ε) : Prop :=
  ∀ log, ∃ log', x ⟨s, log⟩ = some (r, ⟨t, log'⟩)

variable {s t u : Store ε}

theorem Does.result {x : Run ε α} {r r' : α} {m : Machine ε} {log : List ℕ} (hx : Does x s r t)
    (hrun : x ⟨s, log⟩ = some (r', m)) : r' = r ∧ m.store = t := by
  obtain ⟨log', h⟩ := hx log
  rw [h] at hrun
  obtain ⟨rfl, rfl⟩ := Prod.mk.inj (Option.some.inj hrun)
  exact ⟨rfl, rfl⟩

theorem Does.of_eq {x : Run ε α} {r r' : α} {t' : Store ε} (hx : Does x s r t) (hr : r = r')
    (ht : t = t') : Does x s r' t' := hr ▸ ht ▸ hx

theorem Does.pure (r : α) : Does (pure r : Run ε α) s r s := fun log => ⟨log, rfl⟩

theorem Does.bind {x : Run ε α} {f : α → Run ε β} {a : α} {b : β} (hx : Does x s a t)
    (hf : Does (f a) t b u) : Does (x >>= f) s b u := by
  intro log
  obtain ⟨log', h⟩ := hx log
  obtain ⟨log'', h'⟩ := hf log'
  refine ⟨log'', ?_⟩
  change (x ⟨s, log⟩).bind _ = _
  rw [h]
  exact h'

section primitives

variable {m : Bytes} {e : ε} {n : ℕ}

theorem Does.access (a k : ℕ) : Does (access a k : Run ε Bytes) ⟨m, e, n⟩ m ⟨m, e, n⟩ :=
  fun log => ⟨log ++ List.range' a k, rfl⟩

theorem Does.load8 (a : ℕ) : Does (load8 a : Run ε UInt8) ⟨m, e, n⟩ (m a) ⟨m, e, n⟩ :=
  (Does.access a 1).bind (.pure _)

theorem Does.load16 (a : ℕ) : Does (load16 a : Run ε UInt16) ⟨m, e, n⟩ (word16 m a) ⟨m, e, n⟩ :=
  (Does.access a 2).bind (.pure _)

theorem Does.load32 (a : ℕ) : Does (load32 a : Run ε UInt32) ⟨m, e, n⟩ (word32 m a) ⟨m, e, n⟩ :=
  (Does.access a 4).bind (.pure _)

theorem Does.write (a : ℕ) (data : List UInt8) :
    Does (write a data) ⟨m, e, n⟩ () ⟨splice m a data, e, n⟩ :=
  fun log => ⟨log ++ List.range' a data.length, rfl⟩

theorem Does.store8 (a : ℕ) (b : UInt8) :
    Does (store8 a b) ⟨m, e, n⟩ () ⟨splice m a [b], e, n⟩ := Does.write a _

theorem Does.store16 (a : ℕ) (w : UInt16) :
    Does (store16 a w) ⟨m, e, n⟩ () ⟨splice m a (le16 w), e, n⟩ := Does.write a _

theorem Does.store32 (a : ℕ) (w : UInt32) :
    Does (store32 a w) ⟨m, e, n⟩ () ⟨splice m a (le32 w), e, n⟩ := Does.write a _

theorem Does.memcpy (dst src k : ℕ) :
    Does (memcpy dst src k) ⟨m, e, n⟩ () ⟨splice m dst (slice m src k), e, n⟩ :=
  (Does.access src k).bind (.write dst _)

theorem Does.memcmp (a : ℕ) (data : List UInt8) :
    Does (memcmp a data) ⟨m, e, n⟩ (slice m a data.length == data) ⟨m, e, n⟩ :=
  (Does.access a _).bind (.pure _)

theorem Does.call (f : ε → α × ε) : Does (call f) ⟨m, e, n⟩ (f e).1 ⟨m, (f e).2, n⟩ :=
  fun log => ⟨log, rfl⟩

theorem Does.countTurn : Does countTurn ⟨m, e, n⟩ () ⟨m, e, n + 1⟩ := fun log => ⟨log, rfl⟩

end primitives

theorem Does.both {x y : Run ε Bool} {a b : Bool} (hx : Does x s a s) (hy : Does y s b s) :
    Does (both x y) s (a && b) s := by
  refine hx.bind ?_
  cases a with
  | true => exact hy
  | false => exact .pure false

theorem Does.ite {p : Prop} [Decidable p] {x y : Run ε α} {r : α} (hx : p → Does x s r t)
    (hy : ¬p → Does y s r t) : Does (if p then x else y) s r t := by
  by_cases hp : p
  · rw [if_pos hp]
    exact hx hp
  · rw [if_neg hp]
    exact hy hp

/-- `if (c) x else y` with a condition that only reads. -/
theorem Does.branch {c : Run ε Bool} {b : Bool} {p : Prop} {x y : Run ε α} {r : α}
    (hc : Does c s b s) (hb : b = true ↔ p) (hx : p → Does x s r t) (hy : ¬p → Does y s r t) :
    Does (do if ← c then x else y) s r t := by
  refine hc.bind (.ite ?_ ?_)
  · intro htrue
    exact hx (hb.mp htrue)
  · intro hfalse
    exact hy fun hp => hfalse (hb.mpr hp)

theorem Does.forM {ι : Type} {x : ι → Run ε Unit} (hx : ∀ i, Does (x i) s () s) (l : List ι) :
    Does (l.forM x) s () s := by
  induction l with
  | nil => exact .pure ()
  | cons i l ih => exact (hx i).bind ih

/-! ## Pointer loops -/

/-- What `k` turns write when each writes `out` and steps the other state by `next`. -/
def written (out : ε → List UInt8) (next : ε → ε) : ℕ → ε → List UInt8
  | 0, _ => []
  | k + 1, e => out e ++ written out next k (next e)

theorem written_length {out : ε → List UInt8} {stride : ℕ} (hout : ∀ e, (out e).length = stride)
    (next : ε → ε) (k : ℕ) (e : ε) : (written out next k e).length = k * stride := by
  induction k generalizing e with
  | zero => simp [written]
  | succ k ih =>
    rw [written, List.length_append, hout, ih, Nat.succ_mul, Nat.add_comm]

/-- A loop whose end is `k` strides away takes `k` turns and fills everything up to the end. -/
theorem Does.forPointer {body : ℕ → Run ε Unit} {stride : ℕ} {out : ε → List UInt8}
    {next : ε → ε} (hstride : 0 < stride) (hout : ∀ e, (out e).length = stride)
    (hbody : ∀ p m e n, Does (body p) ⟨m, e, n⟩ () ⟨splice m p (out e), next e, n⟩)
    (k fuel p : ℕ) (hfuel : k ≤ fuel) (m : Bytes) (e : ε) (n : ℕ) :
    Does (forPointer body stride (p + k * stride) fuel p) ⟨m, e, n⟩ ()
      ⟨splice m p (written out next k e), next^[k] e, n + k⟩ := by
  induction k generalizing fuel p m e n with
  | zero =>
    rw [written, splice_nil]
    cases fuel <;> simpa [PointerCode.forPointer] using Does.pure ()
  | succ k ih =>
    obtain ⟨fuel, rfl⟩ : ∃ i, fuel = i + 1 := ⟨fuel - 1, by omega⟩
    have hne : ¬ p = p + (k + 1) * stride := by
      have : 0 < (k + 1) * stride := Nat.mul_pos (Nat.succ_pos k) hstride
      omega
    have hstop : p + (k + 1) * stride = p + stride + k * stride := by
      rw [Nat.succ_mul]
      omega
    have hrest := ih fuel (p + stride) (by omega) (splice m p (out e)) (next e) (n + 1)
    have happ := splice_append m p (out e) (written out next k (next e))
    rw [hout] at happ
    rw [happ, Nat.add_assoc n 1 k, Nat.add_comm 1 k] at hrest
    rw [PointerCode.forPointer, if_neg hne, hstop]
    exact (hbody p m e n).bind (Does.countTurn.bind hrest)

/-! ## Where code reads and writes -/

def Within (n : ℕ) (x : Run ε α) : Prop :=
  ∀ s log r t log', x ⟨s, log⟩ = some (r, ⟨t, log'⟩) → ∃ new, log' = log ++ new ∧ ∀ i ∈ new, i < n

namespace Within
variable {n : ℕ}

theorem pure (r : α) : Within n (pure r : Run ε α) := by
  intro s log r' t log' h
  obtain ⟨-, hm⟩ := Prod.mk.inj (Option.some.inj h)
  obtain ⟨-, rfl⟩ := Machine.mk.inj hm
  exact ⟨[], (List.append_nil _).symm, fun i hi => absurd hi List.not_mem_nil⟩

theorem failure : Within n (failure : Run ε α) := by
  intro s log r t log' h
  cases h

theorem bind {x : Run ε α} {f : α → Run ε β} (hx : Within n x) (hf : ∀ a, Within n (f a)) :
    Within n (x >>= f) := by
  intro s log r t log' h
  change (x ⟨s, log⟩).bind (fun p => f p.1 p.2) = _ at h
  obtain ⟨⟨a, ⟨u, mid⟩⟩, hrun, hrest⟩ := Option.bind_eq_some_iff.mp h
  obtain ⟨new, rfl, hnew⟩ := hx s log a u mid hrun
  obtain ⟨new', rfl, hnew'⟩ := hf a u _ r t log' hrest
  refine ⟨new ++ new', List.append_assoc _ _ _, ?_⟩
  intro i hi
  rcases List.mem_append.mp hi with hi | hi
  · exact hnew i hi
  · exact hnew' i hi

/-- A test of what was read. -/
theorem bind_pure {x : Run ε α} (hx : Within n x) (f : α → β) :
    Within n (x >>= fun a => Pure.pure (f a)) := hx.bind fun a => pure (f a)

theorem range {a k : ℕ} (h : a + k ≤ n) : ∀ i ∈ List.range' a k, i < n := by
  intro i hi
  have := List.mem_range'_1.mp hi
  omega

theorem access {a k : ℕ} (h : a + k ≤ n) : Within n (access a k : Run ε Bytes) := by
  intro s log r t log' hrun
  obtain ⟨-, hm⟩ := Prod.mk.inj (Option.some.inj hrun)
  obtain ⟨-, rfl⟩ := Machine.mk.inj hm
  exact ⟨_, rfl, range h⟩

theorem write {a : ℕ} {data : List UInt8} (h : a + data.length ≤ n) :
    Within n (write a data : Run ε Unit) := by
  intro s log r t log' hrun
  obtain ⟨-, hm⟩ := Prod.mk.inj (Option.some.inj hrun)
  obtain ⟨-, rfl⟩ := Machine.mk.inj hm
  exact ⟨_, rfl, range h⟩

/-- Code that touches nothing. -/
theorem untouched {x : Run ε α} (h : ∀ m, ∃ r s, x m = some (r, ⟨s, m.touched⟩)) : Within n x := by
  intro s log r t log' hrun
  obtain ⟨r', s', hx⟩ := h ⟨s, log⟩
  rw [hx] at hrun
  obtain ⟨-, hm⟩ := Prod.mk.inj (Option.some.inj hrun)
  obtain ⟨-, rfl⟩ := Machine.mk.inj hm
  exact ⟨[], (List.append_nil _).symm, fun i hi => absurd hi List.not_mem_nil⟩

theorem call (f : ε → α × ε) : Within n (call f) := untouched fun _ => ⟨_, _, rfl⟩

theorem countTurn : Within n (countTurn : Run ε Unit) := untouched fun _ => ⟨_, _, rfl⟩

theorem load8 {a : ℕ} (h : a + 1 ≤ n) : Within n (load8 a : Run ε UInt8) :=
  (access h).bind_pure _

theorem load16 {a : ℕ} (h : a + 2 ≤ n) : Within n (load16 a : Run ε UInt16) :=
  (access h).bind_pure _

theorem load32 {a : ℕ} (h : a + 4 ≤ n) : Within n (load32 a : Run ε UInt32) :=
  (access h).bind_pure _

theorem store8 {a : ℕ} {b : UInt8} (h : a + 1 ≤ n) : Within n (store8 a b : Run ε Unit) := write h

theorem store16 {a : ℕ} {w : UInt16} (h : a + 2 ≤ n) : Within n (store16 a w : Run ε Unit) := write h

theorem store32 {a : ℕ} {w : UInt32} (h : a + 4 ≤ n) : Within n (store32 a w : Run ε Unit) := write h

theorem memcpy {dst src k : ℕ} (hdst : dst + k ≤ n) (hsrc : src + k ≤ n) :
    Within n (memcpy dst src k : Run ε Unit) :=
  (access hsrc).bind fun m => write (by rw [slice_length]; exact hdst)

theorem memcmp {a : ℕ} {data : List UInt8} (h : a + data.length ≤ n) :
    Within n (memcmp a data : Run ε Bool) :=
  (access h).bind_pure _

theorem ite {p : Prop} [Decidable p] {x y : Run ε α} (hx : Within n x) (hy : Within n y) :
    Within n (if p then x else y) := by
  split
  · exact hx
  · exact hy

theorem both {x y : Run ε Bool} (hx : Within n x) (hy : Within n y) : Within n (both x y) :=
  hx.bind fun _ => ite hy (.pure false)

theorem branch {c : Run ε Bool} {x y : Run ε α} (hc : Within n c) (hx : Within n x)
    (hy : Within n y) : Within n (do if ← c then x else y) :=
  hc.bind fun _ => ite hx hy

theorem forM {ι : Type} {x : ι → Run ε Unit} {l : List ι} (hx : ∀ i ∈ l, Within n (x i)) :
    Within n (l.forM x) := by
  induction l with
  | nil => exact .pure ()
  | cons i l ih =>
    have hrest := ih fun j hj => hx j (List.mem_cons_of_mem i hj)
    exact (hx i List.mem_cons_self).bind fun _ => hrest

/-- The pointer of a loop whose end is `k` strides away stays below the end. -/
theorem forPointer {body : ℕ → Run ε Unit} {stride k p : ℕ} (hend : p + k * stride ≤ n)
    (hbody : ∀ q, q + stride ≤ n → Within n (body q)) (fuel : ℕ) :
    Within n (forPointer body stride (p + k * stride) fuel p) := by
  induction fuel generalizing k p with
  | zero => exact ite (.pure ()) .failure
  | succ fuel ih =>
    cases k with
    | zero =>
      rw [PointerCode.forPointer, if_pos (by rw [Nat.zero_mul, Nat.add_zero])]
      exact .pure ()
    | succ k =>
      have hstop : p + (k + 1) * stride = p + stride + k * stride := by
        rw [Nat.succ_mul]
        omega
      rw [hstop] at hend ⊢
      have hfirst : p + stride ≤ n := by omega
      exact ite (.pure ()) ((hbody p hfirst).bind fun _ => countTurn.bind fun _ => ih hend)

end Within

end Wchratum1.PointerCode
