import Mathlib.Data.List.Basic
import Mathlib.Tactic.Common
import Mathlib.Tactic.TypeStar

/-!
# Copies into an array

`memcpy` puts a block over a part of an array. Blocks copied one behind the other are one copy of
all of them (`memcpy_memcpy`, `foldl_memcpy`), and a copy over the whole array is what is left of it
(`memcpy_whole`).
-/

namespace JeogiAt

variable {α : Type*}

/-- `src` copied over the elements of `dst` from index `i` on. -/
def memcpy (dst : List α) (i : ℕ) (src : List α) : List α :=
  dst.take i ++ src ++ dst.drop (i + src.length)

variable {dst src : List α} {i : ℕ}

/-- A copy that stays inside the array leaves it as long as it was. -/
theorem length_memcpy (h : i + src.length ≤ dst.length) :
    (memcpy dst i src).length = dst.length := by
  simp only [memcpy, List.length_append, List.length_take, List.length_drop]
  omega

theorem getElem?_memcpy (h : i + src.length ≤ dst.length) (j : ℕ) :
    (memcpy dst i src)[j]? =
      if i ≤ j ∧ j < i + src.length then src[j - i]? else dst[j]? := by
  have htake : (dst.take i).length = i := by
    rw [List.length_take]
    omega
  rw [memcpy, List.append_assoc, List.getElem?_append, htake, List.getElem?_append]
  by_cases hlow : j < i
  · rw [if_pos hlow, if_neg (by omega), List.getElem?_take_of_lt hlow]
  · by_cases hhigh : j - i < src.length
    · rw [if_neg hlow, if_pos hhigh, if_pos (by omega)]
    · rw [if_neg hlow, if_neg hhigh, if_neg (by omega), List.getElem?_drop]
      congr 1
      omega

theorem take_memcpy (h : i ≤ dst.length) :
    (memcpy dst i src).take (i + src.length) = dst.take i ++ src := by
  refine List.take_left' ?_
  rw [List.length_append, List.length_take_of_le h]

theorem memcpy_nil (dst : List α) (i : ℕ) : memcpy dst i [] = dst := by
  rw [memcpy, List.append_nil, List.length_nil, Nat.add_zero, List.take_append_drop]

theorem memcpy_whole (h : src.length = dst.length) : memcpy dst 0 src = src := by
  rw [memcpy, List.take_zero, List.nil_append, Nat.zero_add, h, List.drop_length, List.append_nil]

theorem memcpy_memcpy (a b : List α) (h : i + a.length + b.length ≤ dst.length) :
    memcpy (memcpy dst i a) (i + a.length) b = memcpy dst i (a ++ b) := by
  have htake : (memcpy dst i a).take (i + a.length) = dst.take i ++ a := take_memcpy (by omega)
  have hdrop : (memcpy dst i a).drop (i + a.length + b.length) =
      dst.drop (i + (a ++ b).length) := by
    have hlength : (dst.take i ++ a).length = i + a.length := by
      rw [List.length_append, List.length_take_of_le (by omega)]
    rw [memcpy, ← List.drop_drop, List.drop_left' hlength, List.drop_drop, List.length_append,
      Nat.add_assoc]
  rw [memcpy, htake, hdrop, memcpy, List.append_assoc (dst.take i)]

theorem foldl_memcpy {len : ℕ} (block : ℕ → List α) (hblock : ∀ k, (block k).length = len) (n : ℕ)
    (h : i + n * len ≤ dst.length) :
    (List.range n).foldl (fun buffer k => memcpy buffer (i + k * len) (block k)) dst =
      memcpy dst i ((List.range n).flatMap block) := by
  induction n with
  | zero => exact (memcpy_nil dst i).symm
  | succ n ih =>
    have hlength : ((List.range n).flatMap block).length = n * len := by
      simp only [List.length_flatMap, hblock, List.map_const', List.sum_replicate_nat,
        List.length_range]
    rw [Nat.succ_mul] at h
    rw [List.range_succ, List.foldl_append, List.foldl_cons, List.foldl_nil, ih (by omega),
      ← hlength, memcpy_memcpy _ _ (by rw [hlength, hblock]; omega), List.flatMap_append,
      List.flatMap_singleton]

end JeogiAt
