import Mathlib.Algebra.Ring.Nat
import Mathlib.Data.List.Perm.Basic
import Mathlib.Data.List.Nodup
import Mathlib.Logic.Relation
import Mathlib.Tactic.Common

/-! # A zero-copy pipeline of buffers

Buffers of type `β` travel through four queues: lent to a receiver (`free`), filled and waiting
(`landed`, with what arrived), waiting to be sent (`queued`, with what will be sent), sent and waiting
to be lent again (`done`). A waiting buffer is either answered, and goes on to `queued`, or dropped,
and goes back to `free`. `arrived`, `taken`, `replies` and `sent` record the traffic.

In every run no buffer is lost or duplicated (`Step.buffers_perm`), what has been taken is an initial
part of what has arrived, and what has been sent is an initial part of the replies (`InOrder`).
-/

namespace Wchratum1
set_option autoImplicit false

structure Pipeline (β α ω : Type*) where
  free : List β
  landed : List (β × α)
  queued : List (β × ω)
  done : List β
  arrived : List α
  taken : List α
  replies : List ω
  sent : List ω

namespace Pipeline

variable {β α ω : Type*}

/-- Every buffer, once for each place it is in. -/
def buffers (p : Pipeline β α ω) : List β :=
  p.free ++ p.landed.map Prod.fst ++ p.queued.map Prod.fst ++ p.done

/-- How many buffers the transmit side holds. -/
def held (p : Pipeline β α ω) : ℕ := p.done.length + p.queued.length

inductive Step : Pipeline β α ω → Pipeline β α ω → Prop
  | land {p : Pipeline β α ω} {b : β} {fs : List β} (h : p.free = b :: fs) (a : α) :
      Step p { p with free := fs, landed := p.landed ++ [(b, a)], arrived := p.arrived ++ [a] }
  | answer {p : Pipeline β α ω} {b : β} {a : α} {ls : List (β × α)} (h : p.landed = (b, a) :: ls)
      (w : ω) :
      Step p { p with
        landed := ls, queued := p.queued ++ [(b, w)], taken := p.taken ++ [a],
        replies := p.replies ++ [w] }
  | drop {p : Pipeline β α ω} {b : β} {a : α} {ls : List (β × α)} (h : p.landed = (b, a) :: ls) :
      Step p { p with landed := ls, free := p.free ++ [b], taken := p.taken ++ [a] }
  | send {p : Pipeline β α ω} {b : β} {w : ω} {qs : List (β × ω)} (h : p.queued = (b, w) :: qs) :
      Step p { p with queued := qs, done := p.done ++ [b], sent := p.sent ++ [w] }
  | reap {p : Pipeline β α ω} {b : β} {ds : List β} (h : p.done = b :: ds) :
      Step p { p with done := ds, free := p.free ++ [b] }

/-- Nothing overtakes: the queues are what is left of the traffic. -/
structure InOrder (p : Pipeline β α ω) : Prop where
  arrived : p.arrived = p.taken ++ p.landed.map Prod.snd
  replies : p.replies = p.sent ++ p.queued.map Prod.snd

theorem InOrder.step {p q : Pipeline β α ω} (hp : p.InOrder) (h : Step p q) : q.InOrder := by
  obtain ⟨harr, hrep⟩ := hp
  cases h with
  | land h a => exact ⟨by simp [harr], hrep⟩
  | answer h w => exact ⟨by simp [harr, h], by simp [hrep]⟩
  | drop h => exact ⟨by simp [harr, h], hrep⟩
  | send h => exact ⟨harr, by simp [hrep, h]⟩
  | reap h => exact ⟨harr, hrep⟩

/-- A step moves one buffer: none is lost and none is duplicated. -/
theorem Step.buffers_perm {p q : Pipeline β α ω} (h : Step p q) : q.buffers.Perm p.buffers := by
  classical
  rw [List.perm_iff_count]
  intro x
  cases h with
  | land h a => simp only [buffers, h, List.count_append, List.map_append, List.map_cons,
      List.map_nil, List.count_cons, List.count_nil]; omega
  | answer h w => simp only [buffers, h, List.count_append, List.map_append, List.map_cons,
      List.map_nil, List.count_cons, List.count_nil]; omega
  | drop h => simp only [buffers, h, List.count_append, List.map_cons, List.count_cons,
      List.count_nil]; omega
  | send h => simp only [buffers, h, List.count_append, List.map_cons, List.count_cons,
      List.count_nil]; omega
  | reap h => simp only [buffers, h, List.count_append, List.count_cons, List.count_nil]; omega

theorem free_length_le {p q : Pipeline β α ω} (h : q = p ∨ Step p q) :
    p.free.length ≤ q.free.length + 1 := by
  rcases h with rfl | h
  · exact Nat.le_succ _
  · cases h with
    | land h a => simp [h]
    | answer h w => simp
    | drop h => simp [Nat.add_assoc]
    | send h => simp
    | reap h => simp [Nat.add_assoc]

/-! ## How much is left to do -/

end Pipeline
end Wchratum1
