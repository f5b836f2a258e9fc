import Mathlib.Algebra.CharP.Two
import Mathlib.Algebra.Field.ZMod
import Mathlib.Algebra.Polynomial.FieldDivision
import Mathlib.Algebra.Polynomial.RingDivision
import Mathlib.RingTheory.PrincipalIdealDomain

/-!
# Cyclic redundancy checks

Bits are polynomials over `ZMod 2`, the most significant bit first (`ofBits`). A step of the
register multiplies by `X` modulo the generator (`generator_dvd_shift`), so what the register holds
after a message is a remainder (`ofBits_crc`), and a frame of a message and its checksum is a
multiple of the generator (`eq_crc_iff`). A nonzero error confined to as many bits as the
register has is no such multiple (`Burst.not_dvd`).
-/

namespace JeogiAt.Crc

open Polynomial

noncomputable def ofBits (bits : List Bool) : (ZMod 2)[X] :=
  bits.foldl (fun p bit => X * p + C (bit.toNat : ZMod 2)) 0

@[simp] theorem ofBits_nil : ofBits [] = 0 := rfl

theorem ofBits_concat (bits : List Bool) (bit : Bool) :
    ofBits (bits ++ [bit]) = X * ofBits bits + C (bit.toNat : ZMod 2) := List.foldl_concat ..

theorem ofBits_append (xs ys : List Bool) :
    ofBits (xs ++ ys) = X ^ ys.length * ofBits xs + ofBits ys := by
  induction ys using List.reverseRecOn with
  | nil => rw [List.append_nil, List.length_nil, pow_zero, one_mul, ofBits_nil, add_zero]
  | append_singleton ys bit ih =>
    rw [← List.append_assoc, ofBits_concat, ofBits_concat, ih, List.length_append,
      List.length_singleton]
    ring

theorem coeff_ofBits (bits : List Bool) (i : ℕ) :
    (ofBits bits).coeff i = ((bits.reverse[i]?.getD false).toNat : ZMod 2) := by
  induction bits using List.reverseRecOn generalizing i with
  | nil => simp
  | append_singleton bits bit ih =>
    rw [ofBits_concat, List.reverse_append, List.reverse_singleton, List.singleton_append,
      coeff_add]
    cases i with
    | zero => simp
    | succ i => rw [coeff_X_mul, coeff_C_succ, add_zero, ih, List.getElem?_cons_succ]

theorem toNat_cast_injective : Function.Injective fun bit : Bool => (bit.toNat : ZMod 2) := by
  decide

theorem toNat_xor (a b : Bool) :
    (((a ^^ b).toNat : ℕ) : ZMod 2) = (a.toNat : ZMod 2) + (b.toNat : ZMod 2) := by
  revert a b
  decide

theorem ofBits_eq_zero {bits : List Bool} (h : ofBits bits = 0) : true ∉ bits := by
  intro htrue
  obtain ⟨i, hi⟩ := List.mem_iff_getElem?.mp (List.mem_reverse.mpr htrue)
  have hcoeff := coeff_ofBits bits i
  rw [h, hi, coeff_zero] at hcoeff
  exact absurd hcoeff (by decide)

/-- Bits set within `w` consecutive ones, and one of them at least. -/
structure Burst (w : ℕ) (bits : List Bool) : Prop where
  nonzero : true ∈ bits
  confined : ∃ start, ∀ i, bits[i]? = some true → start ≤ i ∧ i < start + w

/-- What `X` does not divide divides no polynomial of as few terms in a row as its degree. -/
theorem eq_zero_of_dvd {K : Type*} [Field K] {g p : K[X]} (lo : ℕ) (hg : g.coeff 0 ≠ 0)
    (h : g ∣ p) (hlow : ∀ i < lo, p.coeff i = 0)
    (hhigh : ∀ i, lo + g.natDegree ≤ i → p.coeff i = 0) : p = 0 := by
  obtain ⟨q, rfl⟩ := X_pow_dvd_iff.mpr hlow
  have hX : Irreducible (X : K[X]) := irreducible_X
  have hcoprime : IsCoprime g (X ^ lo) := by
    apply IsCoprime.pow_right
    exact (hX.coprime_iff_not_dvd.mpr (mt X_dvd_iff.mp hg)).symm
  have hdvd : g ∣ q := hcoprime.dvd_of_dvd_mul_left h
  have hne : g ≠ 0 := fun hzero => hg (by rw [hzero, coeff_zero])
  have hdegree : q.degree < g.degree := by
    rw [degree_eq_natDegree hne, degree_lt_iff_coeff_zero]
    intro i hi
    rw [← coeff_X_pow_mul q lo i]
    exact hhigh _ (by omega)
  rw [eq_zero_of_dvd_of_degree_lt hdvd hdegree, mul_zero]

theorem Burst.not_dvd {g : (ZMod 2)[X]} {w : ℕ} {bits : List Bool} (hburst : Burst w bits)
    (hg : g.coeff 0 ≠ 0) (hdegree : g.natDegree = w) : ¬ g ∣ ofBits bits := by
  intro hdvd
  subst hdegree
  obtain ⟨start, hconfined⟩ := hburst.confined
  have hcoeff : ∀ i, (i < bits.length → bits.length - 1 - i < start ∨
      start + g.natDegree ≤ bits.length - 1 - i) → (ofBits bits).coeff i = 0 := by
    intro i hi
    rw [coeff_ofBits]
    by_cases hlt : i < bits.length
    · rw [List.getElem?_reverse hlt]
      cases hbit : bits[bits.length - 1 - i]? with
      | none => rfl
      | some bit =>
        cases bit with
        | false => rfl
        | true =>
          have hset := hconfined _ hbit
          have hout := hi hlt
          omega
    · rw [List.getElem?_eq_none (by rw [List.length_reverse]; omega)]
      rfl
  apply ofBits_eq_zero _ hburst.nonzero
  apply eq_zero_of_dvd (bits.length - (start + g.natDegree)) hg hdvd
  · intro i hi
    apply hcoeff
    omega
  · intro i hi
    apply hcoeff
    omega

variable {w : ℕ}

def bits (word : BitVec w) : List Bool := List.ofFn fun i : Fin w => word.getMsbD i

@[simp] theorem length_bits (word : BitVec w) : (bits word).length = w := List.length_ofFn

theorem coeff_bits (word : BitVec w) (i : ℕ) :
    (ofBits (bits word)).coeff i = ((word.getLsbD i).toNat : ZMod 2) := by
  rw [coeff_ofBits]
  by_cases hi : i < w
  · rw [List.getElem?_reverse (by rwa [length_bits]), length_bits, bits, List.getElem?_ofFn,
      dif_pos (by omega), Option.getD_some, BitVec.getMsbD_eq_getLsbD, decide_eq_true (by omega),
      Bool.true_and]
    congr 3
    change w - 1 - (w - 1 - i) = i
    omega
  · rw [List.getElem?_eq_none (by rw [List.length_reverse, length_bits]; omega),
      BitVec.getLsbD_of_ge word i (Nat.not_lt.mp hi)]
    rfl

theorem ofBits_bits_injective : Function.Injective fun word : BitVec w => ofBits (bits word) := by
  intro a b h
  apply BitVec.eq_of_getLsbD_eq
  intro i _
  have hcoeff := congrArg (fun p => coeff p i) h
  simp only [coeff_bits] at hcoeff
  exact toNat_cast_injective hcoeff

theorem ofBits_bits_zero : ofBits (bits (0 : BitVec w)) = 0 := by
  have hbit (i : ℕ) : (0 : BitVec w).getLsbD i = false := BitVec.getLsbD_zero
  ext i
  rw [coeff_bits, coeff_zero, hbit]
  rfl

theorem ofBits_xor (a b : BitVec w) :
    ofBits (bits (a ^^^ b)) = ofBits (bits a) + ofBits (bits b) := by
  ext i
  rw [coeff_add, coeff_bits, coeff_bits, coeff_bits, BitVec.getLsbD_xor, toNat_xor]

theorem degree_bits_lt (word : BitVec w) : (ofBits (bits word)).degree < w := by
  rw [degree_lt_iff_coeff_zero]
  intro i hi
  rw [coeff_bits, BitVec.getLsbD_of_ge word i hi]
  rfl

def shift (poly register : BitVec w) : BitVec w :=
  if register.msb then register <<< 1 ^^^ poly else register <<< 1

def crc (poly : BitVec w) (words : List (BitVec w)) : BitVec w :=
  words.foldl (fun register word => (shift poly)^[w] (register ^^^ word)) 0

noncomputable def generator (poly : BitVec w) : (ZMod 2)[X] := X ^ w + ofBits (bits poly)

theorem generator_monic (poly : BitVec w) : (generator poly).Monic :=
  monic_X_pow_add (degree_bits_lt poly)

theorem natDegree_generator (poly : BitVec w) : (generator poly).natDegree = w := by
  have hlt : (ofBits (bits poly)).degree < (X ^ w : (ZMod 2)[X]).degree := by
    rw [degree_X_pow]
    exact degree_bits_lt poly
  rw [generator, natDegree_add_eq_left_of_degree_lt hlt, natDegree_X_pow]

theorem degree_bits_lt_generator (poly word : BitVec w) :
    (ofBits (bits word)).degree < (generator poly).degree := by
  rw [degree_eq_natDegree (generator_monic poly).ne_zero, natDegree_generator]
  exact degree_bits_lt word

theorem coeff_generator_zero {poly : BitVec w} (h : poly.getLsbD 0 = true) :
    (generator poly).coeff 0 ≠ 0 := by
  have hw : w ≠ 0 := by
    rintro rfl
    rw [BitVec.getLsbD_of_ge poly 0 le_rfl] at h
    cases h
  rw [generator, coeff_add, coeff_X_pow, if_neg hw.symm, coeff_bits, h]
  decide

theorem X_mul_bits (register : BitVec w) :
    X * ofBits (bits register) =
      ofBits (bits (register <<< 1)) + C (register.msb.toNat : ZMod 2) * X ^ w := by
  ext i
  rw [coeff_add, coeff_C_mul, coeff_X_pow, coeff_bits, BitVec.getLsbD_shiftLeft,
    BitVec.msb_eq_getLsbD_last]
  cases i with
  | zero =>
    cases w with
    | zero => simp
    | succ w => simp
  | succ i =>
    rw [coeff_X_mul, coeff_bits, Nat.add_sub_cancel]
    rcases Nat.lt_trichotomy (i + 1) w with hlt | rfl | hgt
    · rw [if_neg hlt.ne]
      simp [hlt]
    · simp
    · rw [if_neg hgt.ne', BitVec.getLsbD_of_ge register i (Nat.le_of_lt_succ hgt)]
      simp

theorem generator_dvd_shift (poly register : BitVec w) :
    generator poly ∣ X * ofBits (bits register) - ofBits (bits (shift poly register)) := by
  rw [X_mul_bits, shift]
  split_ifs with hmsb
  · rw [hmsb, ofBits_xor, Bool.toNat_true, Nat.cast_one, C_1, one_mul, add_sub_add_left_eq_sub,
      CharTwo.sub_eq_add]
    exact dvd_rfl
  · rw [Bool.eq_false_of_not_eq_true hmsb, Bool.toNat_false, Nat.cast_zero, C_0, zero_mul, add_zero,
      sub_self]
    exact dvd_zero _

theorem generator_dvd_iterate (poly register : BitVec w) (k : ℕ) :
    generator poly ∣
      X ^ k * ofBits (bits register) - ofBits (bits ((shift poly)^[k] register)) := by
  induction k with
  | zero =>
    rw [pow_zero, one_mul, Function.iterate_zero_apply, sub_self]
    exact dvd_zero _
  | succ k ih =>
    have hstep := generator_dvd_shift poly ((shift poly)^[k] register)
    have hsum := (ih.mul_left X).add hstep
    rw [Function.iterate_succ_apply']
    have hsplit : X ^ (k + 1) * ofBits (bits register) -
        ofBits (bits (shift poly ((shift poly)^[k] register))) =
        X * (X ^ k * ofBits (bits register) - ofBits (bits ((shift poly)^[k] register))) +
          (X * ofBits (bits ((shift poly)^[k] register)) -
            ofBits (bits (shift poly ((shift poly)^[k] register)))) := by
      ring
    rw [hsplit]
    exact hsum

def wordBits (words : List (BitVec w)) : List Bool := words.flatMap bits

theorem ofBits_wordBits_concat (words : List (BitVec w)) (word : BitVec w) :
    ofBits (wordBits (words ++ [word])) =
      X ^ w * ofBits (wordBits words) + ofBits (bits word) := by
  rw [wordBits, List.flatMap_append, List.flatMap_singleton, ofBits_append, length_bits]
  rfl

theorem length_wordBits (words : List (BitVec w)) :
    (wordBits words).length = words.length * w := by
  induction words with
  | nil => rw [List.length_nil, zero_mul]; rfl
  | cons word words ih =>
    rw [wordBits, List.flatMap_cons, List.length_append, length_bits, ← wordBits, ih,
      List.length_cons]
    ring

theorem ofBits_wordBits_zipWith {xs ys : List (BitVec w)} (h : xs.length = ys.length) :
    ofBits (wordBits (List.zipWith (· ^^^ ·) xs ys)) =
      ofBits (wordBits xs) + ofBits (wordBits ys) := by
  induction xs generalizing ys with
  | nil =>
    obtain rfl := List.eq_nil_of_length_eq_zero h.symm
    exact (add_zero 0).symm
  | cons x xs ih =>
    obtain _ | ⟨y, ys⟩ := ys
    · cases h
    · have hrest := Nat.succ.inj h
      have hcons (z : BitVec w) (zs : List (BitVec w)) : ofBits (wordBits (z :: zs)) =
          X ^ (zs.length * w) * ofBits (bits z) + ofBits (wordBits zs) := by
        rw [wordBits, List.flatMap_cons, ofBits_append, ← wordBits, length_wordBits]
      rw [List.zipWith_cons_cons, hcons, hcons, hcons, ih hrest, ofBits_xor, List.length_zipWith,
        ← hrest, Nat.min_self]
      ring

theorem generator_dvd_crc (poly : BitVec w) (words : List (BitVec w)) :
    generator poly ∣ X ^ w * ofBits (wordBits words) - ofBits (bits (crc poly words)) := by
  induction words using List.reverseRecOn with
  | nil =>
    have hcrc : ofBits (bits (crc poly [])) = 0 := ofBits_bits_zero
    rw [hcrc, sub_zero]
    exact (dvd_zero _).mul_left _
  | append_singleton words word ih =>
    have hstep := generator_dvd_iterate poly (crc poly words ^^^ word) w
    have hcrc : crc poly (words ++ [word]) = (shift poly)^[w] (crc poly words ^^^ word) :=
      List.foldl_concat ..
    have hsplit : X ^ w * ofBits (wordBits (words ++ [word])) -
        ofBits (bits ((shift poly)^[w] (crc poly words ^^^ word))) =
        X ^ w * (X ^ w * ofBits (wordBits words) - ofBits (bits (crc poly words))) +
          (X ^ w * ofBits (bits (crc poly words ^^^ word)) -
            ofBits (bits ((shift poly)^[w] (crc poly words ^^^ word)))) := by
      rw [ofBits_wordBits_concat, ofBits_xor]
      ring
    rw [hcrc, hsplit]
    exact (ih.mul_left _).add hstep

/-- The checksum is the remainder of the message with `w` bits behind it. -/
theorem ofBits_crc (poly : BitVec w) (words : List (BitVec w)) :
    ofBits (bits (crc poly words)) = (X ^ w * ofBits (wordBits words)) %ₘ generator poly := by
  rw [modByMonic_eq_of_dvd_sub (generator_monic poly) (generator_dvd_crc poly words)]
  exact ((modByMonic_eq_self_iff (generator_monic poly)).mpr
    (degree_bits_lt_generator poly _)).symm

/-- A word is the checksum exactly when the frame is a multiple of the generator. -/
theorem eq_crc_iff (poly word : BitVec w) (words : List (BitVec w)) :
    word = crc poly words ↔ generator poly ∣ ofBits (wordBits (words ++ [word])) := by
  have hword : ofBits (bits word) %ₘ generator poly = ofBits (bits word) :=
    (modByMonic_eq_self_iff (generator_monic poly)).mpr (degree_bits_lt_generator poly word)
  rw [← modByMonic_eq_zero_iff_dvd (generator_monic poly), ofBits_wordBits_concat, add_modByMonic,
    ← ofBits_crc, hword, CharTwo.add_eq_zero, eq_comm]
  exact ofBits_bits_injective.eq_iff.symm

/-- A frame that a burst has changed no longer ends with the checksum of its message. -/
theorem crc_ne_of_burst {poly : BitVec w} (hpoly : poly.getLsbD 0 = true)
    {message words error : List (BitVec w)} {word : BitVec w}
    (hlength : error.length = message.length + 1) (hburst : Burst w (wordBits error))
    (hframe : words ++ [word] = List.zipWith (· ^^^ ·) (message ++ [crc poly message]) error) :
    word ≠ crc poly words := by
  intro hword
  have hsent := (eq_crc_iff poly (crc poly message) message).mp rfl
  have hreceived := (eq_crc_iff poly word words).mp hword
  rw [hframe, ofBits_wordBits_zipWith (by rw [List.length_append, hlength]; rfl)] at hreceived
  exact hburst.not_dvd (coeff_generator_zero hpoly) (natDegree_generator poly)
    ((dvd_add_right hsent).mp hreceived)

end JeogiAt.Crc
