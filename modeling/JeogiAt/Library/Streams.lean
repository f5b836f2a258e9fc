import Mathlib.Data.Stream.Init

/-!
# The first elements of an infinite stream, and a list repeated forever

`take_add` cuts the first elements of a stream in two. `exists_drop_cycle`: wherever one comes in,
the copies of a repeated list go on with the rest of one copy and then with whole copies.
-/

namespace JeogiAt.Streams

open Stream'

variable {α : Type*}

theorem take_add (s : Stream' α) (m n : ℕ) : s.take (m + n) = s.take m ++ (s.drop m).take n := by
  induction m generalizing s with
  | zero => rw [Nat.zero_add, take_zero, List.nil_append, drop_zero]
  | succ m ih => rw [Nat.succ_add, take_succ, take_succ, ih, List.cons_append, drop_succ]

theorem take_length_append (xs : List α) (s : Stream' α) : (xs ++ₛ s).take xs.length = xs := by
  induction xs with
  | nil => rfl
  | cons x xs ih => rw [cons_append_stream, List.length_cons, take_succ_cons, ih]

theorem exists_drop_cycle {xs : List α} (h : xs ≠ []) (n : ℕ) :
    ∃ k < xs.length, (cycle xs h).drop n = xs.drop k ++ₛ cycle xs h := by
  induction n with
  | zero => exact ⟨0, List.length_pos_iff.mpr h, cycle_eq xs h⟩
  | succ n ih =>
    obtain ⟨k, hk, hdrop⟩ := ih
    have hnext : (cycle xs h).drop (n + 1) = xs.drop (k + 1) ++ₛ cycle xs h := by
      rw [← tail_drop', hdrop, List.drop_eq_getElem_cons hk, cons_append_stream, tail_cons]
    by_cases hlast : k + 1 < xs.length
    · exact ⟨k + 1, hlast, hnext⟩
    · rw [List.drop_eq_nil_of_le (Nat.not_lt.mp hlast), nil_append_stream] at hnext
      exact ⟨0, List.length_pos_iff.mpr h, hnext.trans (cycle_eq xs h)⟩

end JeogiAt.Streams
