import Mathlib.Algebra.Ring.Nat
import Mathlib.Data.List.GetD
import Mathlib.Data.List.Range
import Mathlib.Logic.Function.Basic
import Mathlib.Tactic.Common

/-! # Byte memory seen from a pointer

`Bytes` gives the byte at every offset from a pointer, so that an access past the end of the object
is an access to some byte and not an error of the model; whether accesses stay inside is something
to prove. `firstBytes` reads a prefix, `overlay` writes one; `slice` and `splice` do so at any offset,
and `word16`, `word32`, `le16`, `le32` are the little-endian words there.
-/

namespace Wchratum1
set_option autoImplicit false

/-- The bytes at the offsets from a pointer. -/
abbrev Bytes := ℕ → UInt8

namespace Bytes

def firstBytes (n : ℕ) (m : Bytes) : List UInt8 := (List.range n).map m

/-- Write `data` at offset 0. -/
def overlay (data : List UInt8) (m : Bytes) : Bytes := fun i => data.getD i (m i)

@[simp] theorem firstBytes_length (n : ℕ) (m : Bytes) : (firstBytes n m).length = n := by
  simp [firstBytes]

theorem firstBytes_eq_iff (n : ℕ) (m m' : Bytes) :
    firstBytes n m = firstBytes n m' ↔ ∀ i < n, m i = m' i := by
  simp [firstBytes, List.map_inj_left]

theorem firstBytes_overlay (data : List UInt8) (m : Bytes) :
    firstBytes data.length (overlay data m) = data := by
  apply List.ext_getElem
  · simp
  · intro i h1 h2
    simp [firstBytes, overlay, h2]

theorem take_firstBytes (n k : ℕ) (m : Bytes) : (firstBytes k m).take n <+: firstBytes n m := by
  have htake : (List.range k).take n = (List.range n).take k := by
    rw [List.take_range, List.take_range, Nat.min_comm]
  rw [firstBytes, ← List.map_take, htake]
  exact (List.take_prefix k _).map m

/-! ## Slices -/

/-- The `n` bytes at offset `a`. -/
def slice (m : Bytes) (a n : ℕ) : List UInt8 := (List.range n).map fun j => m (a + j)

/-- Write `data` at offset `a`. -/
def splice (m : Bytes) (a : ℕ) (data : List UInt8) : Bytes :=
  fun i => if a ≤ i then data.getD (i - a) (m i) else m i

@[simp] theorem slice_length (m : Bytes) (a n : ℕ) : (slice m a n).length = n := by
  simp [slice]

theorem slice_getElem (m : Bytes) (a n j : ℕ) (hj : j < (slice m a n).length) :
    (slice m a n)[j] = m (a + j) := by
  simp [slice]

theorem slice_eq_iff (m m' : Bytes) (a b n : ℕ) :
    slice m a n = slice m' b n ↔ ∀ j < n, m (a + j) = m' (b + j) := by
  simp [slice, List.map_inj_left]

theorem splice_outside {m : Bytes} {a i : ℕ} {data : List UInt8}
    (h : i < a ∨ a + data.length ≤ i) : splice m a data i = m i := by
  unfold splice
  by_cases hle : a ≤ i
  · rw [if_pos hle, List.getD_eq_default]
    omega
  · rw [if_neg hle]

theorem splice_inside {m : Bytes} {a i : ℕ} {data : List UInt8} (hle : a ≤ i)
    (hlt : i - a < data.length) : splice m a data i = data[i - a] := by
  unfold splice
  rw [if_pos hle, List.getD_eq_getElem _ _ hlt]

theorem splice_byte_outside {m : Bytes} {a i : ℕ} {b : UInt8} (hi : i ≠ a) :
    splice m a [b] i = m i :=
  splice_outside (by rw [List.length_singleton]; omega)

theorem splice_two_outside {m : Bytes} {a i : ℕ} {b c : UInt8} (hi : i < a ∨ a + 2 ≤ i) :
    splice m a [b, c] i = m i := splice_outside hi

theorem splice_congr {m m' : Bytes} {a i : ℕ} {data : List UInt8}
    (h : i < a ∨ a + data.length ≤ i → m' i = m i) :
    splice m' a data i = splice m a data i := by
  by_cases hin : a ≤ i ∧ i - a < data.length
  · rw [splice_inside hin.1 hin.2, splice_inside hin.1 hin.2]
  · rw [splice_outside (by omega), splice_outside (by omega)]
    exact h (by omega)

theorem slice_splice_same {m : Bytes} {a n : ℕ} {data : List UInt8} (hn : data.length = n) :
    slice (splice m a data) a n = data := by
  apply List.ext_getElem
  · rw [slice_length, hn]
  · intro j h1 h2
    rw [slice_getElem, splice_inside (by omega) (by omega)]
    congr 1
    omega

theorem slice_splice_disjoint {m : Bytes} {a b n : ℕ} {data : List UInt8}
    (h : b + n ≤ a ∨ a + data.length ≤ b) : slice (splice m a data) b n = slice m b n := by
  rw [slice_eq_iff]
  intro j hj
  exact splice_outside (by omega)

theorem slice_splice_slice {m f : Bytes} {a b n off k : ℕ} (h : off + k ≤ n) :
    slice (splice m a (slice f b n)) (a + off) k = slice f (b + off) k := by
  rw [slice_eq_iff]
  intro j hj
  rw [splice_inside (by omega) (by rw [slice_length]; omega), slice_getElem]
  congr 1
  omega

@[simp] theorem splice_nil (m : Bytes) (a : ℕ) : splice m a [] = m := by
  funext i
  simp [splice]

theorem splice_append (m : Bytes) (a : ℕ) (xs ys : List UInt8) :
    splice (splice m a xs) (a + xs.length) ys = splice m a (xs ++ ys) := by
  funext i
  unfold splice
  by_cases hle : a ≤ i
  · by_cases hin : i - a < xs.length
    · rw [if_neg (by omega), if_pos hle, if_pos hle, List.getD_append _ _ _ _ hin]
    · rw [if_pos (by omega), if_pos hle, if_pos hle, List.getD_append_right _ _ _ _ (by omega),
        List.getD_eq_default xs _ (by omega)]
      congr 1
      omega
  · rw [if_neg (by omega), if_neg hle, if_neg hle]

theorem slice_add (m : Bytes) (a n k : ℕ) : slice m a (n + k) = slice m a n ++ slice m (a + n) k := by
  simp [slice, List.range_add, Nat.add_assoc]

theorem firstBytes_eq_slice (n : ℕ) (m : Bytes) : firstBytes n m = slice m 0 n := by
  simp [firstBytes, slice]

theorem slice_const (b : UInt8) (a n : ℕ) : slice (fun _ => b) a n = List.replicate n b := by
  simp [slice]

/-! ## Little-endian words -/

def le16 (w : UInt16) : List UInt8 := [UInt8.ofNat w.toNat, UInt8.ofNat (w.toNat / 2 ^ 8)]

def le32 (w : UInt32) : List UInt8 :=
  [UInt8.ofNat w.toNat, UInt8.ofNat (w.toNat / 2 ^ 8), UInt8.ofNat (w.toNat / 2 ^ 16),
    UInt8.ofNat (w.toNat / 2 ^ 24)]

def word16 (m : Bytes) (a : ℕ) : UInt16 :=
  UInt16.ofNat ((m a).toNat + 2 ^ 8 * (m (a + 1)).toNat)

def word32 (m : Bytes) (a : ℕ) : UInt32 :=
  UInt32.ofNat ((m a).toNat + 2 ^ 8 * (m (a + 1)).toNat + 2 ^ 16 * (m (a + 2)).toNat +
    2 ^ 24 * (m (a + 3)).toNat)

@[simp] theorem le16_length (w : UInt16) : (le16 w).length = 2 := by simp [le16]

@[simp] theorem le32_length (w : UInt32) : (le32 w).length = 4 := by simp [le32]

theorem word16_toNat (m : Bytes) (a : ℕ) :
    (word16 m a).toNat = (m a).toNat + 2 ^ 8 * (m (a + 1)).toNat := by
  have h0 := (m a).toNat_lt
  have h1 := (m (a + 1)).toNat_lt
  simp only [word16, UInt16.toNat_ofNat']
  omega

theorem word32_toNat (m : Bytes) (a : ℕ) :
    (word32 m a).toNat = (m a).toNat + 2 ^ 8 * (m (a + 1)).toNat + 2 ^ 16 * (m (a + 2)).toNat +
      2 ^ 24 * (m (a + 3)).toNat := by
  have h0 := (m a).toNat_lt
  have h1 := (m (a + 1)).toNat_lt
  have h2 := (m (a + 2)).toNat_lt
  have h3 := (m (a + 3)).toNat_lt
  simp only [word32, UInt32.toNat_ofNat']
  omega

theorem word16_congr {m m' : Bytes} {a : ℕ} (h0 : m' a = m a) (h1 : m' (a + 1) = m (a + 1)) :
    word16 m' a = word16 m a := by
  rw [word16, word16, h0, h1]

theorem ofNat_eq_of_mod {n : ℕ} {b : UInt8} (h : n % 2 ^ 8 = b.toNat) : UInt8.ofNat n = b := by
  rw [← UInt8.toNat_inj, UInt8.toNat_ofNat', h]

theorem le16_word16 (m : Bytes) (a : ℕ) : le16 (word16 m a) = slice m a 2 := by
  have h0 := (m a).toNat_lt
  have h1 := (m (a + 1)).toNat_lt
  have hw := word16_toNat m a
  have e0 : UInt8.ofNat (word16 m a).toNat = m a := ofNat_eq_of_mod (by omega)
  have e1 : UInt8.ofNat ((word16 m a).toNat / 2 ^ 8) = m (a + 1) := ofNat_eq_of_mod (by omega)
  rw [le16, e0, e1]
  rfl

theorem le32_word32 (m : Bytes) (a : ℕ) : le32 (word32 m a) = slice m a 4 := by
  have h0 := (m a).toNat_lt
  have h1 := (m (a + 1)).toNat_lt
  have h2 := (m (a + 2)).toNat_lt
  have h3 := (m (a + 3)).toNat_lt
  have hw := word32_toNat m a
  have e0 : UInt8.ofNat (word32 m a).toNat = m a := ofNat_eq_of_mod (by omega)
  have e1 : UInt8.ofNat ((word32 m a).toNat / 2 ^ 8) = m (a + 1) := ofNat_eq_of_mod (by omega)
  have e2 : UInt8.ofNat ((word32 m a).toNat / 2 ^ 16) = m (a + 2) := ofNat_eq_of_mod (by omega)
  have e3 : UInt8.ofNat ((word32 m a).toNat / 2 ^ 24) = m (a + 3) := ofNat_eq_of_mod (by omega)
  rw [le32, e0, e1, e2, e3]
  rfl

theorem le16_injective {w w' : UInt16} (h : le16 w = le16 w') : w = w' := by
  simp only [le16, List.cons.injEq, and_true, ← UInt8.toNat_inj, UInt8.toNat_ofNat'] at h
  have hw := w.toNat_lt
  have hw' := w'.toNat_lt
  rw [← UInt16.toNat_inj]
  omega

theorem le32_injective {w w' : UInt32} (h : le32 w = le32 w') : w = w' := by
  simp only [le32, List.cons.injEq, and_true, ← UInt8.toNat_inj, UInt8.toNat_ofNat'] at h
  have hw := w.toNat_lt
  have hw' := w'.toNat_lt
  rw [← UInt32.toNat_inj]
  omega

theorem word16_eq_iff (m : Bytes) (a : ℕ) (w : UInt16) :
    word16 m a = w ↔ slice m a 2 = le16 w := by
  rw [← le16_word16]
  exact ⟨congrArg le16, le16_injective⟩

theorem word32_eq_iff (m : Bytes) (a : ℕ) (w : UInt32) :
    word32 m a = w ↔ slice m a 4 = le32 w := by
  rw [← le32_word32]
  exact ⟨congrArg le32, le32_injective⟩

/-- The words of a stream of 16-bit words. -/
def words16 : List UInt8 → List UInt16
  | a :: b :: rest => UInt16.ofNat (a.toNat + 2 ^ 8 * b.toNat) :: words16 rest
  | _ => []

/-- The words of a stream of 32-bit words. -/
def words32 : List UInt8 → List UInt32
  | a :: b :: c :: d :: rest =>
    UInt32.ofNat (a.toNat + 2 ^ 8 * b.toNat + 2 ^ 16 * c.toNat + 2 ^ 24 * d.toNat) :: words32 rest
  | _ => []

theorem words16_flatMap (ws : List UInt16) : words16 (ws.flatMap le16) = ws := by
  induction ws with
  | nil => rfl
  | cons w ws ih =>
    have hw := w.toNat_lt
    simp only [List.flatMap_cons, le16, List.cons_append, List.nil_append, words16, ih,
      UInt8.toNat_ofNat', List.cons.injEq, and_true]
    rw [← UInt16.toNat_inj, UInt16.toNat_ofNat']
    omega

theorem words32_flatMap (ws : List UInt32) : words32 (ws.flatMap le32) = ws := by
  induction ws with
  | nil => rfl
  | cons w ws ih =>
    have hw := w.toNat_lt
    simp only [List.flatMap_cons, le32, List.cons_append, List.nil_append, words32, ih,
      UInt8.toNat_ofNat', List.cons.injEq, and_true]
    rw [← UInt32.toNat_inj, UInt32.toNat_ofNat']
    omega

end Bytes
end Wchratum1
