import Wchratum1.Foundations.Bytes

/-! # Decoders of a wire format

A `Decoder` takes its value from the front of a list of bytes and leaves the rest. `Reads x bytes a`:
in front of whatever follows, `x` takes exactly `bytes` and gives `a`. There is one rule for each way to
build a decoder; numbers are in network order, and `options` are the type-length-value items of BOOTP
with their one-byte PAD (0) and END (255). -/

namespace Wchratum1.Wire
open Bytes
set_option autoImplicit false

abbrev Decoder := StateT (List UInt8) Option

variable {α β : Type}

def takeBytes (n : ℕ) : Decoder (List UInt8) := fun l =>
  if n ≤ l.length then some (l.take n, l.drop n) else none

def byte : Decoder UInt8
  | [] => none
  | b :: l => some (b, l)

def be16 : Decoder ℕ
  | a :: b :: l => some (a.toNat * 2 ^ 8 + b.toNat, l)
  | _ => none

def be32 : Decoder ℕ
  | a :: b :: c :: d :: l =>
    some (a.toNat * 2 ^ 24 + b.toNat * 2 ^ 16 + c.toNat * 2 ^ 8 + d.toNat, l)
  | _ => none

def Reads (x : Decoder α) (bytes : List UInt8) (a : α) : Prop :=
  ∀ rest, x (bytes ++ rest) = some (a, rest)

namespace Reads

theorem pure (a : α) : Reads (pure a) [] a := fun _ => rfl

theorem bind {x : Decoder α} {f : α → Decoder β} {bytes bytes' : List UInt8} {a : α} {b : β}
    (hx : Reads x bytes a) (hf : Reads (f a) bytes' b) : Reads (x >>= f) (bytes ++ bytes') b := by
  intro rest
  rw [List.append_assoc]
  change (x (bytes ++ (bytes' ++ rest))).bind (fun p => f p.1 p.2) = _
  rw [hx]
  exact hf rest

/-- The last step of a decoder. -/
theorem bind_pure {x : Decoder α} {bytes : List UInt8} {a : α} (hx : Reads x bytes a) (f : α → β) :
    Reads (x >>= fun a => Pure.pure (f a)) bytes (f a) := by
  have h := hx.bind (f := fun a => Pure.pure (f a)) (pure (f a))
  rwa [List.append_nil] at h

theorem takeBytes {n : ℕ} {bytes : List UInt8} (hn : bytes.length = n) :
    Reads (takeBytes n) bytes bytes := by
  intro rest
  have hle : n ≤ (bytes ++ rest).length := by
    rw [List.length_append]
    omega
  rw [Wire.takeBytes, if_pos hle, List.take_left' hn, List.drop_left' hn]

theorem takeBytes_all {n : ℕ} {bytes : List UInt8} (hn : bytes.length = n) :
    Wire.takeBytes n bytes = some (bytes, []) := by
  have h := takeBytes hn []
  rwa [List.append_nil] at h

theorem byte (b : UInt8) : Reads byte [b] b := fun _ => rfl

theorem be16 (a b : UInt8) : Reads be16 [a, b] (a.toNat * 2 ^ 8 + b.toNat) := fun _ => rfl

/-- A 32-bit word in network order. -/
theorem be32 (w : UInt32) : Reads be32 (le32 w).reverse w.toNat := by
  intro rest
  have hw := w.toNat_lt
  simp only [le32, List.reverse_cons, List.reverse_nil, List.nil_append, List.cons_append, Wire.be32,
    UInt8.toNat_ofNat']
  congr 2
  omega

end Reads

/-! ## Frames in memory -/

/-- In memory, and with more behind it, `x` takes the `k` bytes at `a` and gives `v`. -/
def At (x : Decoder α) (m : Bytes) (a k : ℕ) (v : α) : Prop :=
  ∀ n, x (slice m a (k + n)) = some (v, slice m (a + k) n)

namespace At

variable {m : Bytes} {a k k' : ℕ} {v : α} {w : β}

/-- A decoder that begins with `x` goes on behind what `x` took. -/
theorem step {x : Decoder α} (hx : At x m a k v) (f : α → Decoder β) (n : ℕ) :
    (x >>= f) (slice m a (k + n)) = f v (slice m (a + k) n) := by
  change (x (slice m a (k + n))).bind (fun p => f p.1 p.2) = _
  rw [hx]
  rfl

theorem pure (v : α) : At (pure v) m a 0 v := by
  intro n
  rw [Nat.zero_add]
  rfl

theorem bind {x : Decoder α} {f : α → Decoder β} (hx : At x m a k v) (hf : At (f v) m (a + k) k' w) :
    At (x >>= f) m a (k' + k) w := by
  intro n
  rw [Nat.add_comm k' k, Nat.add_assoc, hx.step, hf, Nat.add_assoc]

/-- The last step of a decoder. -/
theorem bind_pure {x : Decoder α} (hx : At x m a k v) (f : α → β) :
    At (x >>= fun v => Pure.pure (f v)) m a k (f v) := by
  have h := hx.bind (f := fun v => Pure.pure (f v)) (pure (f v))
  rwa [Nat.zero_add] at h

theorem slice_cons (m : Bytes) (a n : ℕ) : slice m a (1 + n) = m a :: slice m (a + 1) n := by
  rw [slice_add]
  rfl

theorem byte (m : Bytes) (a : ℕ) : At byte m a 1 (m a) := by
  intro n
  rw [slice_cons]
  rfl

theorem be16 (m : Bytes) (a : ℕ) : At be16 m a 2 ((m a).toNat * 2 ^ 8 + (m (a + 1)).toNat) := by
  intro n
  rw [show 2 + n = 1 + (1 + n) by omega, slice_cons, slice_cons]
  rfl

theorem takeBytes (m : Bytes) (a n : ℕ) : At (takeBytes n) m a n (slice m a n) := by
  intro r
  rw [slice_add]
  exact Reads.takeBytes (slice_length m a n) _

end At

/-- Whenever it succeeds, `x` has taken `k` bytes. -/
def Takes (x : Decoder α) (k : ℕ) : Prop :=
  ∀ l v rest, x l = some (v, rest) → l.length = k + rest.length

namespace Takes

theorem pure (v : α) : Takes (pure v) 0 := by
  intro l v' rest h
  obtain ⟨-, rfl⟩ := Prod.mk.inj (Option.some.inj h)
  exact (Nat.zero_add _).symm

theorem bind {x : Decoder α} {f : α → Decoder β} {k k' : ℕ} (hx : Takes x k) (hf : ∀ v, Takes (f v) k') :
    Takes (x >>= f) (k' + k) := by
  intro l w rest h
  obtain ⟨⟨v, l'⟩, hfirst, hrest⟩ := Option.bind_eq_some_iff.mp h
  have h1 := hx l v l' hfirst
  have h2 := hf v l' w rest hrest
  omega

theorem bind_pure {x : Decoder α} {k : ℕ} (hx : Takes x k) (f : α → β) :
    Takes (x >>= fun v => Pure.pure (f v)) k := by
  have h := hx.bind fun v => pure (f v)
  rwa [Nat.zero_add] at h

theorem byte : Takes byte 1 := by
  intro l v rest h
  cases l with
  | nil => cases h
  | cons b l =>
    obtain ⟨-, rfl⟩ := Prod.mk.inj (Option.some.inj h)
    rw [List.length_cons, Nat.add_comm]

theorem be16 : Takes be16 2 := by
  intro l v rest h
  match l, h with
  | a :: b :: l, h =>
    obtain ⟨-, rfl⟩ := Prod.mk.inj (Option.some.inj h)
    rw [List.length_cons, List.length_cons]
    omega

theorem takeBytes (n : ℕ) : Takes (takeBytes n) n := by
  intro l v rest h
  unfold Wire.takeBytes at h
  split at h
  · obtain ⟨-, rfl⟩ := Prod.mk.inj (Option.some.inj h)
    rw [List.length_drop]
    omega
  · cases h

end Takes

/-- Everything that is left. -/
def remainder : Decoder (List UInt8) := fun l => some (l, [])

/-! ## Options -/

/-- The items up to END, and what follows END. -/
def options (l : List UInt8) : Option (List (UInt8 × List UInt8) × List UInt8) :=
  match l with
  | [] => none
  | type :: l =>
    if type = 255 then some ([], l)
    else if type = 0 then options l
    else
      match l with
      | [] => none
      | n :: l =>
        if n.toNat ≤ l.length then
          (options (l.drop n.toNat)).map fun r => ((type, l.take n.toNat) :: r.1, r.2)
        else none
termination_by l.length
decreasing_by
  · simp
  · simp only [List.length_cons, List.length_drop]
    omega

theorem options_end (rest : List UInt8) : options (255 :: rest) = some ([], rest) := by
  rw [options.eq_def]
  exact if_pos rfl

theorem options_item {type n : UInt8} (hend : type ≠ 255) (hpad : type ≠ 0) {data : List UInt8}
    (hn : data.length = n.toNat) (rest : List UInt8) : options (type :: n :: (data ++ rest)) =
      (options rest).map fun r => ((type, data) :: r.1, r.2) := by
  have hle : n.toNat ≤ (data ++ rest).length := by
    rw [List.length_append]
    omega
  rw [options.eq_def]
  dsimp only
  rw [if_neg hend, if_neg hpad, if_pos hle, List.take_left' hn, List.drop_left' hn]

end Wchratum1.Wire
