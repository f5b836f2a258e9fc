import JeogiAt.Library.Memcpy

/-!
# Strings of C in memory

A list of bytes is the memory from some address on. `cString` reads what is before the first zero.
`strncpy` copies at most `n` bytes and fills up with zeros, so a string of that length is left
without an end. With a zero stored by hand in the last place of its room, what is in memory is the
string cut to the room (`set_strncpy`), and it reads back (`cString_rightpad`).
-/

namespace JeogiAt.CStrings

def cString (memory : List UInt8) : List UInt8 := memory.takeWhile (· ≠ 0)

def strncpy (dst src : List UInt8) (n : ℕ) : List UInt8 :=
  memcpy dst 0 (((cString src).take n).rightpad n 0)

/-- A string that fits into a room of `n` bytes with its end. -/
structure Fits (n : ℕ) (name : List UInt8) : Prop where
  length_lt : name.length < n
  nonzero : 0 ∉ name

variable {n k : ℕ} {name src dst : List UInt8}

theorem zero_notMem_cString (memory : List UInt8) : 0 ∉ cString memory := by
  intro hzero
  have hall : (cString memory).all (· ≠ 0) = true := List.all_takeWhile
  exact absurd (List.all_eq_true.mp hall 0 hzero) (by decide)

theorem fits_take (src : List UInt8) (n : ℕ) : Fits (n + 1) ((cString src).take n) where
  length_lt := Nat.lt_succ_of_le (List.length_take_le ..)
  nonzero h := zero_notMem_cString src (List.mem_of_mem_take h)

theorem cString_of_notMem (h : 0 ∉ name) (rest : List UInt8) :
    cString (name ++ 0 :: rest) = name := by
  have hname : ∀ b ∈ name, (decide (b ≠ 0) : Bool) = true := fun b hb =>
    decide_eq_true fun hzero => h (hzero ▸ hb)
  rw [cString, List.takeWhile_append_of_pos hname, List.takeWhile_cons_of_neg (by decide),
    List.append_nil]

theorem cString_rightpad (h : Fits n name) (rest : List UInt8) :
    cString (name.rightpad n 0 ++ rest) = name := by
  have hlt := h.length_lt
  have hzeros : n - name.length = n - name.length - 1 + 1 := by omega
  rw [List.rightpad, hzeros, List.replicate_succ, List.append_assoc, List.cons_append]
  exact cString_of_notMem h.nonzero _

theorem length_rightpad_take (name : List UInt8) (n : ℕ) :
    ((name.take n).rightpad n 0).length = n := by
  rw [List.length_rightpad, List.length_take]
  omega

theorem getElem?_rightpad (h : name.length ≤ n) (rest : List UInt8) (j : ℕ) :
    (name.rightpad n 0 ++ rest)[j]? =
      if j < n then some (name[j]?.getD 0) else rest[j - n]? := by
  have hlength : (name.rightpad n 0).length = n := by
    rw [List.length_rightpad]
    omega
  rw [List.getElem?_append, hlength]
  split_ifs with hj
  · rw [List.rightpad, List.getElem?_append]
    split_ifs with hname
    · rw [List.getElem?_eq_getElem hname, Option.getD_some]
    · rw [List.getElem?_eq_none (Nat.not_lt.mp hname), List.getElem?_replicate, if_pos (by omega),
        Option.getD_none]
  · rfl

theorem strncpy_eq (dst src : List UInt8) (k : ℕ) :
    strncpy dst src k = ((cString src).take k).rightpad k 0 ++ dst.drop k := by
  rw [strncpy, memcpy, length_rightpad_take, List.take_zero, List.nil_append, Nat.zero_add]

theorem length_strncpy (dst src : List UInt8) (k : ℕ) :
    (strncpy dst src k).length = max k dst.length := by
  rw [strncpy_eq, List.length_append, length_rightpad_take, List.length_drop]
  omega

/-- After a copy of all the room but its last byte, or of all of it. -/
theorem set_strncpy (hk : n ≤ k) (hk' : k ≤ n + 1) (h : n < max k dst.length)
    (src : List UInt8) : (strncpy dst src k).set n 0 =
      ((cString src).take n).rightpad (n + 1) 0 ++ dst.drop (n + 1) := by
  have hlength : ((cString src).take n).length ≤ n := List.length_take_le ..
  apply List.ext_getElem?
  intro j
  rw [List.getElem?_set, length_strncpy, strncpy_eq, getElem?_rightpad (List.length_take_le ..),
    getElem?_rightpad (by omega), List.getElem?_drop, List.getElem?_drop]
  rcases Nat.lt_trichotomy j n with hlt | rfl | hgt
  · rw [if_neg (by omega), if_pos (by omega), if_pos (by omega), List.getElem?_take_of_lt hlt,
      List.getElem?_take_of_lt (by omega)]
  · rw [if_pos rfl, if_pos h, if_pos (Nat.lt_succ_self j), List.getElem?_eq_none hlength,
      Option.getD_none]
  · rw [if_neg (by omega), if_neg (by omega), if_neg (by omega)]
    congr 1
    omega

end JeogiAt.CStrings
