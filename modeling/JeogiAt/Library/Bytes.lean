import Mathlib.Tactic.Ring

/-!
# Byte strings: exclusive-or checksums, big-endian and little-endian numbers

`xorFold seed bytes` is the running exclusive or of a byte string; it is linear
(`xorFold_zipWith`), so an error is noticed unless its own bytes cancel. `bigEndian k n` writes the
last `k` base-256 digits of `n`, most significant first, and `ofBigEndian` reads them back.
`littleEndian` has them in the other order.
-/

namespace JeogiAt.Bytes

def xorFold (seed : UInt8) (bytes : List UInt8) : UInt8 := bytes.foldl (· ^^^ ·) seed

@[simp] theorem xorFold_nil (seed : UInt8) : xorFold seed [] = seed := rfl

@[simp] theorem xorFold_cons (seed b : UInt8) (bytes : List UInt8) :
    xorFold seed (b :: bytes) = xorFold (seed ^^^ b) bytes := rfl

/-- A factor of the seed can be taken out of the running checksum. -/
theorem xorFold_xor (seed e : UInt8) (bytes : List UInt8) :
    xorFold (seed ^^^ e) bytes = xorFold seed bytes ^^^ e := by
  induction bytes generalizing seed with
  | nil => rfl
  | cons b bytes ih =>
    have hswap : seed ^^^ e ^^^ b = seed ^^^ b ^^^ e := by
      rw [UInt8.xor_assoc, UInt8.xor_comm e b, ← UInt8.xor_assoc]
    rw [xorFold_cons, xorFold_cons, hswap, ih]

theorem xorFold_append (seed : UInt8) (xs ys : List UInt8) :
    xorFold seed (xs ++ ys) = xorFold (xorFold seed xs) ys := List.foldl_append

theorem xorFold_zipWith {xs ys : List UInt8} (h : xs.length = ys.length) (s t : UInt8) :
    xorFold (s ^^^ t) (List.zipWith (· ^^^ ·) xs ys) = xorFold s xs ^^^ xorFold t ys := by
  induction xs generalizing ys s t with
  | nil =>
    obtain rfl := List.eq_nil_of_length_eq_zero h.symm
    rfl
  | cons x xs ih =>
    obtain _ | ⟨y, ys⟩ := ys
    · cases h
    · have hswap : s ^^^ t ^^^ (x ^^^ y) = s ^^^ x ^^^ (t ^^^ y) := by
        rw [UInt8.xor_assoc, ← UInt8.xor_assoc t, UInt8.xor_comm t x, UInt8.xor_assoc x,
          ← UInt8.xor_assoc]
      rw [List.zipWith_cons_cons, xorFold_cons, xorFold_cons, xorFold_cons, hswap]
      exact ih (Nat.succ.inj h) _ _

theorem xorFold_of_zeros {bytes : List UInt8} (h : ∀ b ∈ bytes, b = 0) (seed : UInt8) :
    xorFold seed bytes = seed := by
  induction bytes with
  | nil => rfl
  | cons b bytes ih =>
    obtain ⟨rfl, hrest⟩ := List.forall_mem_cons.mp h
    rw [xorFold_cons, UInt8.xor_zero, ih hrest]

theorem xorFold_ne_zero {bytes : List UInt8} (h : bytes.countP (· ≠ 0) = 1) :
    xorFold 0 bytes ≠ 0 := by
  induction bytes with
  | nil => cases h
  | cons b bytes ih =>
    rw [xorFold_cons, UInt8.zero_xor]
    by_cases hb : b = 0
    · rw [List.countP_cons_of_neg (by simp [hb])] at h
      rw [hb]
      exact ih h
    · have hzeros : ∀ c ∈ bytes, c = 0 := by
        rw [List.countP_cons_of_pos (by simp [hb])] at h
        simpa using Nat.succ.inj h
      rwa [xorFold_of_zeros hzeros]

def bigEndian : ℕ → ℕ → List UInt8
  | 0, _ => []
  | k + 1, n => bigEndian k (n / 256) ++ [UInt8.ofNat n]

def ofBigEndian (bytes : List UInt8) : ℕ := bytes.foldl (fun n b => n * 256 + b.toNat) 0

@[simp] theorem length_bigEndian (k n : ℕ) : (bigEndian k n).length = k := by
  induction k generalizing n with
  | zero => rfl
  | succ k ih => rw [bigEndian, List.length_append, ih, List.length_singleton]

theorem ofBigEndian_concat (bytes : List UInt8) (b : UInt8) :
    ofBigEndian (bytes ++ [b]) = ofBigEndian bytes * 256 + b.toNat := by
  simp only [ofBigEndian, List.foldl_append, List.foldl_cons, List.foldl_nil]

/-- Reading the digits back gives the number, when they were enough for it. -/
theorem ofBigEndian_bigEndian (k n : ℕ) (h : n < 256 ^ k) : ofBigEndian (bigEndian k n) = n := by
  induction k generalizing n with
  | zero =>
    have hn : n = 0 := by simpa using h
    subst n
    rfl
  | succ k ih =>
    have hk : n / 256 < 256 ^ k := by
      apply Nat.div_lt_of_lt_mul
      rwa [pow_succ, Nat.mul_comm] at h
    rw [bigEndian, ofBigEndian_concat, ih _ hk, UInt8.toNat_ofNat']
    omega

def littleEndian (k n : ℕ) : List UInt8 := (bigEndian k n).reverse

def ofLittleEndian (bytes : List UInt8) : ℕ := ofBigEndian bytes.reverse

@[simp] theorem length_littleEndian (k n : ℕ) : (littleEndian k n).length = k := by
  rw [littleEndian, List.length_reverse, length_bigEndian]

theorem ofLittleEndian_littleEndian (k n : ℕ) (h : n < 256 ^ k) :
    ofLittleEndian (littleEndian k n) = n := by
  rw [ofLittleEndian, littleEndian, List.reverse_reverse, ofBigEndian_bigEndian k n h]

end JeogiAt.Bytes
