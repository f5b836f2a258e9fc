import JeogiAt.Library.Machine
import JeogiAt.Library.Memcpy
import Mathlib.Data.List.Rotate
import Mathlib.Tactic.SplitIfs

/-!
# A ring buffer with block operations

A block is pushed and read in at most two copies, one up to the end of the array and one from its
start. A push stores what fits of its block.

`contents` are the elements stored, oldest first. `ring_refines_fifo`: seen through `contents`, any
sequence of pushes and reads is one on a bounded queue of elements.
-/

namespace JeogiAt

/-- The array, the two indices and the number of elements stored. -/
structure RingBuffer (α : Type*) where
  buf : List α
  write : ℕ
  read : ℕ
  count : ℕ

namespace RingBuffer

variable {α : Type*} (size : ℕ)

/-- Stores the front of `src` that fits; the second component is its length. -/
def push (r : RingBuffer α) (src : List α) : RingBuffer α × ℕ :=
  let len := src.length
  let freeSize := size - r.count
  let pushLen := if len ≤ freeSize then len else freeSize
  let firstChunk := if pushLen < size - r.write then pushLen else size - r.write
  let secondChunk := pushLen - firstChunk
  let buf := memcpy r.buf r.write (src.take firstChunk)
  let buf := if 0 < secondChunk then memcpy buf 0 ((src.drop firstChunk).take secondChunk) else buf
  let write := r.write + pushLen
  let write := if size ≤ write then write - size else write
  ({ r with buf := buf, write := write, count := r.count + pushLen }, pushLen)

def get (r : RingBuffer α) (len : ℕ) : RingBuffer α × List α :=
  let readLen := if len ≤ r.count then len else r.count
  let firstChunk := if readLen < size - r.read then readLen else size - r.read
  let secondChunk := readLen - firstChunk
  let first := (r.buf.drop r.read).take firstChunk
  let dst := if 0 < secondChunk then first ++ r.buf.take secondChunk else first
  let read := r.read + readLen
  let read := if size ≤ read then read - size else read
  ({ r with read := read, count := r.count - readLen }, dst)

structure WellFormed (r : RingBuffer α) : Prop where
  length_buf : r.buf.length = size
  read_lt : r.read < size
  count_le : r.count ≤ size
  write_eq : r.write = (r.read + r.count) % size

theorem WellFormed.write_lt {r : RingBuffer α} (h : r.WellFormed size) : r.write < size := by
  rw [h.write_eq]
  exact Nat.mod_lt _ (by have := h.read_lt; omega)

def contents (r : RingBuffer α) : List α := (r.buf.rotate r.read).take r.count

variable {size} {r : RingBuffer α}

theorem length_contents (h : r.WellFormed size) : r.contents.length = r.count := by
  have := h.count_le
  rw [contents, List.length_take, List.length_rotate, h.length_buf]
  omega

theorem getElem?_contents (h : r.WellFormed size) (k : ℕ) :
    r.contents[k]? = if k < r.count then r.buf[(r.read + k) % size]? else none := by
  have hle := h.count_le
  unfold contents
  split_ifs with hk
  · rw [List.getElem?_take_of_lt hk, List.getElem?_rotate (by rw [h.length_buf]; omega),
      h.length_buf, Nat.add_comm]
  · rw [List.getElem?_take, if_neg hk]

theorem wrap_eq_mod {a n : ℕ} (ha : a < size) (hn : n ≤ size) :
    (if size ≤ a + n then a + n - size else a + n) = (a + n) % size := by
  split_ifs with h
  · rw [Nat.mod_eq_sub_mod h, Nat.mod_eq_of_lt (by omega)]
  · rw [Nat.mod_eq_of_lt (by omega)]

theorem length_get_snd_le (r : RingBuffer α) (len : ℕ) : (r.get size len).2.length ≤ len := by
  simp only [get]
  split_ifs <;> simp only [List.length_append, List.length_take, List.length_drop] <;> omega

theorem get_snd (h : r.WellFormed size) (len : ℕ) : (r.get size len).2 = r.contents.take len := by
  have hread := h.read_lt
  have hcount := h.count_le
  have hlen := h.length_buf
  have hmin : (if len ≤ r.count then len else r.count) = min len r.count := by
    split_ifs <;> omega
  have hcontents : r.contents.take len = (r.buf.drop r.read).take (min len r.count) ++
      r.buf.take (min len r.count - (size - r.read)) := by
    rw [contents, List.take_take, List.rotate_eq_drop_append_take (by omega), List.take_append,
      List.length_drop, hlen, List.take_take]
    congr 2
    omega
  rw [hcontents]
  simp only [get, hmin]
  by_cases hfit : min len r.count < size - r.read
  · rw [if_pos hfit, Nat.sub_self, if_neg (by omega), Nat.sub_eq_zero_of_le hfit.le,
      List.take_zero, List.append_nil]
  · rw [if_neg hfit, List.take_of_length_le (i := size - r.read) (by rw [List.length_drop]; omega),
      List.take_of_length_le (i := min len r.count) (by rw [List.length_drop]; omega)]
    split_ifs with hsecond
    · rfl
    · rw [Nat.eq_zero_of_not_pos hsecond, List.take_zero, List.append_nil]

theorem get_fst (h : r.WellFormed size) (len : ℕ) :
    (r.get size len).1 =
      { r with read := (r.read + min len r.count) % size, count := r.count - len } := by
  have hcount := h.count_le
  have hmin : (if len ≤ r.count then len else r.count) = min len r.count := by
    split_ifs <;> omega
  simp only [get, hmin, wrap_eq_mod h.read_lt (show min len r.count ≤ size by omega)]
  congr 1
  omega

theorem wellFormed_get (h : r.WellFormed size) (len : ℕ) :
    (r.get size len).1.WellFormed size := by
  have hpos : 0 < size := by have := h.read_lt; omega
  rw [get_fst h]
  refine ⟨h.length_buf, Nat.mod_lt _ hpos, ?_, ?_⟩
  · have := h.count_le
    dsimp only
    omega
  · dsimp only
    rw [h.write_eq, Nat.mod_add_mod]
    congr 1
    omega

theorem contents_get (h : r.WellFormed size) (len : ℕ) :
    (r.get size len).1.contents = r.contents.drop len := by
  apply List.ext_getElem?
  intro k
  rw [getElem?_contents (wellFormed_get h len), List.getElem?_drop, getElem?_contents h,
    get_fst h]
  dsimp only
  by_cases hk : k < r.count - len
  · rw [if_pos hk, if_pos (by omega), Nat.mod_add_mod]
    congr 2
    omega
  · rw [if_neg hk, if_neg (by omega)]

/-- A block copied in two parts, the second one to the start of the array. -/
def copyRound (size : ℕ) (buf : List α) (write : ℕ) (block : List α) : List α :=
  let firstChunk := min block.length (size - write)
  memcpy (memcpy buf write (block.take firstChunk)) 0 (block.drop firstChunk)

section CopyRound

variable {buf block : List α} {write : ℕ} (hbuf : buf.length = size) (hwrite : write < size)
  (hblock : block.length ≤ size)
include hbuf hwrite hblock

theorem copyRound_bounds :
    write + (block.take (min block.length (size - write))).length ≤ buf.length ∧
      0 + (block.drop (min block.length (size - write))).length ≤
        (memcpy buf write (block.take (min block.length (size - write)))).length := by
  have hinner : write + (block.take (min block.length (size - write))).length ≤ buf.length := by
    rw [List.length_take]
    omega
  refine ⟨hinner, ?_⟩
  rw [length_memcpy hinner, List.length_drop]
  omega

theorem length_copyRound : (copyRound size buf write block).length = size := by
  obtain ⟨hinner, houter⟩ := copyRound_bounds hbuf hwrite hblock
  rw [copyRound, length_memcpy houter, length_memcpy hinner, hbuf]

theorem getElem?_copyRound (j : ℕ) :
    (copyRound size buf write block)[j]? =
      if write ≤ j ∧ j < write + block.length ∧ j < size then block[j - write]?
      else if j + size < write + block.length then block[j + size - write]? else buf[j]? := by
  obtain ⟨hinner, houter⟩ := copyRound_bounds hbuf hwrite hblock
  rw [copyRound, getElem?_memcpy houter, getElem?_memcpy hinner, List.length_take,
    List.length_drop]
  by_cases hlow : j < block.length - (size - write)
  · rw [if_pos (by omega), if_neg (by omega), if_pos (by omega), List.getElem?_drop]
    congr 1
    omega
  · rw [if_neg (by omega), if_neg (by omega : ¬ j + size < write + block.length)]
    by_cases hhigh : write ≤ j ∧ j < write + block.length ∧ j < size
    · rw [if_pos hhigh, if_pos (by omega), List.getElem?_take_of_lt (by omega)]
    · rw [if_neg hhigh, if_neg (by omega)]

end CopyRound

theorem push_snd (r : RingBuffer α) (src : List α) :
    (r.push size src).2 = min src.length (size - r.count) := by
  simp only [push]
  split_ifs <;> omega

theorem push_fst (h : r.WellFormed size) (src : List α) :
    (r.push size src).1 =
      { r with
        buf := copyRound size r.buf r.write (src.take (size - r.count))
        write := (r.read + (r.count + min src.length (size - r.count))) % size
        count := r.count + min src.length (size - r.count) } := by
  have hwrite := h.write_lt
  have hmin : (if src.length ≤ size - r.count then src.length else size - r.count) =
      min src.length (size - r.count) := by
    split_ifs <;> omega
  have hfirst : (if min src.length (size - r.count) < size - r.write then
        min src.length (size - r.count) else size - r.write) =
      min (min src.length (size - r.count)) (size - r.write) := by
    split_ifs <;> omega
  have hblock : (src.take (size - r.count)).length = min src.length (size - r.count) := by
    rw [List.length_take]
    omega
  have htake : (src.take (size - r.count)).take
        (min (min src.length (size - r.count)) (size - r.write)) =
      src.take (min (min src.length (size - r.count)) (size - r.write)) := by
    rw [List.take_take]
    congr 1
    omega
  have hindex : (r.read + (r.count + min src.length (size - r.count))) % size =
      (r.write + min src.length (size - r.count)) % size := by
    rw [h.write_eq, Nat.mod_add_mod, Nat.add_assoc]
  simp only [push, hmin, hfirst, copyRound, hblock, htake, hindex,
    wrap_eq_mod hwrite (show min src.length (size - r.count) ≤ size by omega)]
  congr 1
  generalize min (min src.length (size - r.count)) (size - r.write) = first
  have hdrop : (src.drop first).take (min src.length (size - r.count) - first) =
      (src.take (size - r.count)).drop first := by
    rw [List.drop_take, List.take_eq_take_iff, List.length_drop]
    omega
  rw [hdrop]
  split_ifs with hsecond
  · rfl
  · have hempty : (src.take (size - r.count)).drop first = [] := by
      apply List.eq_nil_of_length_eq_zero
      rw [List.length_drop, hblock]
      omega
    rw [hempty, memcpy_nil]

theorem wellFormed_push (h : r.WellFormed size) (src : List α) :
    (r.push size src).1.WellFormed size := by
  have hcount := h.count_le
  have hblock : (src.take (size - r.count)).length ≤ size := by
    rw [List.length_take]
    omega
  rw [push_fst h]
  refine ⟨length_copyRound h.length_buf h.write_lt hblock, h.read_lt, ?_, rfl⟩
  dsimp only
  omega

theorem contents_push (h : r.WellFormed size) (src : List α) :
    (r.push size src).1.contents = r.contents ++ src.take (size - r.count) := by
  have hcount := h.count_le
  have hread := h.read_lt
  have hblock : (src.take (size - r.count)).length = min src.length (size - r.count) := by
    rw [List.length_take]
    omega
  apply List.ext_getElem?
  intro k
  rw [getElem?_contents (wellFormed_push h src), List.getElem?_append, length_contents h,
    getElem?_contents h, push_fst h]
  dsimp only
  rw [getElem?_copyRound h.length_buf h.write_lt (by omega), hblock, h.write_eq,
    ← wrap_eq_mod hread hcount]
  by_cases hk : k < r.count + min src.length (size - r.count)
  · rw [if_pos hk, ← wrap_eq_mod hread (show k ≤ size by omega)]
    by_cases hold : k < r.count
    · rw [if_pos hold, if_pos hold, if_neg, if_neg]
      · split_ifs <;> omega
      · split_ifs <;> omega
    · rw [if_neg hold]
      by_cases hw : size ≤ r.read + r.count
      · rw [if_pos hw, if_pos (by omega : size ≤ r.read + k), if_pos (by omega)]
        congr 1
        omega
      · rw [if_neg hw]
        by_cases hj : size ≤ r.read + k
        · rw [if_pos hj, if_neg (by omega), if_pos (by omega)]
          congr 1
          omega
        · rw [if_neg hj, if_pos (by omega)]
          congr 1
          omega
  · rw [if_neg hk, if_neg (by omega), List.getElem?_eq_none (by omega)]

inductive Op (α : Type*)
  | push (src : List α)
  | get (len : ℕ)

variable (size) in
/-- A push answers with what did not fit, a read with what was read. -/
def ring : Machine (RingBuffer α) (Op α) (List α) where
  step r
    | .push src => ((r.push size src).1, src.drop (r.push size src).2)
    | .get len => r.get size len

variable (size) in
def fifo : Machine (List α) (Op α) (List α) where
  step q
    | .push src => (q ++ src.take (size - q.length), src.drop (size - q.length))
    | .get len => (q.drop len, q.take len)

/-- One operation on a ring buffer is the same operation on its contents. -/
theorem step_refines (h : r.WellFormed size) (op : Op α) :
    ((ring size).next r op).WellFormed size ∧
      ((ring size).next r op).contents = (fifo size).next r.contents op ∧
      (ring size).output r op = (fifo size).output r.contents op := by
  cases op with
  | push src =>
    refine ⟨wellFormed_push h src, ?_, ?_⟩
    · simp only [Machine.next, ring, fifo, contents_push h, length_contents h]
    · simp only [Machine.output, ring, fifo, push_snd, length_contents h]
      rw [List.drop_eq_drop_iff]
      omega
  | get len => exact ⟨wellFormed_get h len, contents_get h len, get_snd h len⟩

theorem ring_refines_fifo (h : r.WellFormed size) (ops : List (Op α)) :
    ((ring size).run r ops).WellFormed size ∧
      ((ring size).run r ops).contents = (fifo size).run r.contents ops ∧
      (ring size).trace r ops = (fifo size).trace r.contents ops := by
  have hrefines := Machine.run_refines (M := ring size) (N := fifo size)
    (R := fun r q => r.WellFormed size ∧ r.contents = q) ?_ ⟨h, rfl⟩ ops
  · exact ⟨hrefines.1.1, hrefines.1.2, hrefines.2⟩
  · rintro r _ op ⟨hr, rfl⟩
    obtain ⟨hwf, hcontents, hout⟩ := step_refines hr op
    exact ⟨⟨hwf, hcontents⟩, hout⟩

section Records

variable {β : Type*} {f : β → List α} {k : ℕ}

theorem length_flatMap_of_length (hf : ∀ x, (f x).length = k) (xs : List β) :
    (xs.flatMap f).length = k * xs.length := by
  induction xs with
  | nil => rfl
  | cons x xs ih =>
    rw [List.flatMap_cons, List.length_append, hf, ih, List.length_cons, Nat.mul_succ, Nat.add_comm]

theorem take_flatMap_of_length (hf : ∀ x, (f x).length = k) (xs : List β) (n : ℕ) :
    (xs.flatMap f).take (k * n) = (xs.take n).flatMap f := by
  induction xs generalizing n with
  | nil => simp only [List.flatMap_nil, List.take_nil]
  | cons x xs ih =>
    cases n with
    | zero => rw [Nat.mul_zero, List.take_zero, List.take_zero, List.flatMap_nil]
    | succ n =>
      have hsub : k * n + k - k = k * n := Nat.add_sub_cancel ..
      rw [List.flatMap_cons, List.take_append, hf, Nat.mul_succ, hsub, ih,
        List.take_of_length_le (by rw [hf]; omega), List.take_succ_cons, List.flatMap_cons]

theorem drop_flatMap_of_length (hf : ∀ x, (f x).length = k) (xs : List β) (n : ℕ) :
    (xs.flatMap f).drop (k * n) = (xs.drop n).flatMap f := by
  have hsplit := congrArg (List.flatMap f) (List.take_append_drop n xs)
  rw [List.flatMap_append, ← take_flatMap_of_length hf] at hsplit
  exact (List.append_right_inj _).mp ((List.take_append_drop (k * n) _).trans hsplit.symm)

/-- Where blocks and reads are of whole records, a queue holds whole records. -/
def Op.flatMap (f : β → List α) (k : ℕ) : Op β → Op α
  | .push src => .push (src.flatMap f)
  | .get len => .get (k * len)

theorem fifo_flatMap (size : ℕ) (hf : ∀ x, (f x).length = k) (q : List β) (op : Op β) :
    (fifo (k * size)).next (q.flatMap f) (op.flatMap f k) = ((fifo size).next q op).flatMap f ∧
      (fifo (k * size)).output (q.flatMap f) (op.flatMap f k) =
        ((fifo size).output q op).flatMap f := by
  cases op with
  | push src =>
    simp only [Machine.next, Machine.output, fifo, Op.flatMap, length_flatMap_of_length hf,
      ← Nat.mul_sub, take_flatMap_of_length hf, drop_flatMap_of_length hf, List.flatMap_append,
      and_self]
  | get len =>
    simp only [Machine.next, Machine.output, fifo, Op.flatMap, take_flatMap_of_length hf,
      drop_flatMap_of_length hf, and_self]

end Records
end RingBuffer

end JeogiAt
