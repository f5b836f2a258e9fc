import Mathlib.Data.List.DropRight
import Mathlib.Data.Nat.Digits.Lemmas
import Mathlib.Data.Rat.Defs
import Mathlib.Tactic.SplitIfs

/-!
# Decimal numbers in ASCII text

Printing and reading of decimal numbers as the C library does it: the conversions `%d` and `%0wu`,
`atoi`, and of `scanf` the literals and the decimal form of `%f`, without an exponent.
`scanFloat_fixed` says what the reader makes of a number printed as a whole part, a point and the
padded hundredths: they come back exactly, under the sign that the whole part was printed with.
-/

namespace JeogiAt.Decimal

def isSpace (b : UInt8) : Bool := b == 0x20 || (9 ≤ b && b ≤ 13)

def isDigit (b : UInt8) : Bool := 0x30 ≤ b && b ≤ 0x39

def point : UInt8 := 0x2E
def minus : UInt8 := 0x2D
def plus : UInt8 := 0x2B

def digit (d : ℕ) : UInt8 := UInt8.ofNat (0x30 + d)

def digitValue (b : UInt8) : ℕ := b.toNat - 0x30

def number (ds : List UInt8) : ℕ := Nat.ofDigits 10 (ds.reverse.map digitValue)

/-- `%u` -/
def decimal (n : ℕ) : List UInt8 :=
  if n = 0 then [digit 0] else (Nat.digits 10 n).reverse.map digit

/-- `%d` -/
def decimalInt (n : ℤ) : List UInt8 :=
  if n < 0 then minus :: decimal n.natAbs else decimal n.natAbs

/-- `%0wu` -/
def padded (w n : ℕ) : List UInt8 :=
  List.replicate (w - (decimal n).length) (digit 0) ++ decimal n

def readSign : List UInt8 → Bool × List UInt8
  | b :: s => if b = minus then (true, s) else if b = plus then (false, s) else (false, b :: s)
  | [] => (false, [])

/-- `atoi`, saturating at the limits of a 32-bit `long`. -/
def atoi (s : List UInt8) : ℤ :=
  let (negative, s) := readSign (s.dropWhile isSpace)
  let n : ℤ := number (s.takeWhile isDigit)
  if negative then max (-n) (-2147483648) else min n 2147483647

theorem atoi_nil : atoi [] = 0 := rfl

def readFraction : List UInt8 → List UInt8 × List UInt8
  | b :: s => if b = point then (s.takeWhile isDigit, s.dropWhile isDigit) else ([], b :: s)
  | [] => ([], [])

/-- `%f`: the value and what follows it, or `none` if no number is there. -/
def scanFloat (s : List UInt8) : Option (ℚ × List UInt8) :=
  let (negative, s) := readSign (s.dropWhile isSpace)
  let whole := s.takeWhile isDigit
  let (frac, s) := readFraction (s.dropWhile isDigit)
  if whole = [] ∧ frac = [] then none
  else
    let value : ℚ := number (whole ++ frac) / 10 ^ frac.length
    some (if negative then -value else value, s)

/-- A literal part of a `scanf` format. White space in it stands for any amount of it. -/
def scanLiteral : List UInt8 → List UInt8 → Option (List UInt8)
  | [], s => some s
  | c :: format, s =>
      if isSpace c then scanLiteral format (s.dropWhile isSpace)
      else
        match s with
        | b :: s => if b = c then scanLiteral format s else none
        | [] => none

theorem toNat_digit {d : ℕ} (h : d < 10) : (digit d).toNat = 0x30 + d := by
  rw [digit, UInt8.toNat_ofNat']
  omega

theorem isDigit_digit {d : ℕ} (h : d < 10) : isDigit (digit d) = true := by
  have hd := toNat_digit h
  simp only [isDigit, Bool.and_eq_true, decide_eq_true_eq, UInt8.le_iff_toNat_le, hd]
  exact ⟨Nat.le_add_right _ _, Nat.add_le_add_left (Nat.le_of_lt_succ h) 0x30⟩

theorem digitValue_digit {d : ℕ} (h : d < 10) : digitValue (digit d) = d := by
  rw [digitValue, toNat_digit h, Nat.add_sub_cancel_left]

theorem isDigit_decimal (n : ℕ) : ∀ b ∈ decimal n, isDigit b = true := by
  intro b hb
  rw [decimal] at hb
  split_ifs at hb
  · rw [List.mem_singleton.mp hb]
    exact isDigit_digit (by omega)
  · obtain ⟨d, hd, rfl⟩ := List.mem_map.mp hb
    exact isDigit_digit (Nat.digits_lt_base (by omega) (List.mem_reverse.mp hd))

theorem decimal_ne_nil (n : ℕ) : decimal n ≠ [] := by
  rw [decimal]
  split_ifs with hn
  · exact List.cons_ne_nil _ _
  · simpa using Nat.digits_ne_nil_iff_ne_zero.mpr hn

theorem number_decimal (n : ℕ) : number (decimal n) = n := by
  rw [number, decimal]
  split_ifs with hn
  · rw [hn]
    rfl
  · have hdigits : ((Nat.digits 10 n).map digit).map digitValue = Nat.digits 10 n := by
      rw [List.map_map]
      exact (List.map_congr_left fun d hd =>
        digitValue_digit (Nat.digits_lt_base (by omega) hd)).trans (List.map_id _)
    rw [← List.map_reverse, List.reverse_reverse, hdigits, Nat.ofDigits_digits]

theorem length_decimal_le {n k : ℕ} (hk : 0 < k) (h : n < 10 ^ k) : (decimal n).length ≤ k := by
  rw [decimal]
  split_ifs with hn
  · exact hk
  · rw [List.length_map, List.length_reverse]
    exact (Nat.digits_length_le_iff (by omega) n).mpr h

/-- A number is read off the digits in front of it in its text. -/
theorem number_append (ds es : List UInt8) :
    number (ds ++ es) = number ds * 10 ^ es.length + number es := by
  rw [number, List.reverse_append, List.map_append, Nat.ofDigits_append, List.length_map,
    List.length_reverse, ← number, ← number]
  ring

theorem number_replicate_zero (k : ℕ) : number (List.replicate k (digit 0)) = 0 := by
  induction k with
  | zero => rfl
  | succ k ih =>
    rw [List.replicate_succ', number_append, ih]
    rfl

theorem number_padded (w n : ℕ) : number (padded w n) = n := by
  rw [padded, number_append, number_replicate_zero, number_decimal]
  omega

theorem length_padded {w n : ℕ} (hw : 0 < w) (h : n < 10 ^ w) : (padded w n).length = w := by
  have := length_decimal_le hw h
  rw [padded, List.length_append, List.length_replicate]
  omega

theorem isDigit_padded (w n : ℕ) : ∀ b ∈ padded w n, isDigit b = true := by
  intro b hb
  rcases List.mem_append.mp hb with hzero | hdec
  · rw [List.eq_of_mem_replicate hzero]
    exact isDigit_digit (by omega)
  · exact isDigit_decimal n b hdec

def NoDigit (s : List UInt8) : Prop := ∀ b ∈ s.head?, isDigit b = false

theorem span_digits {ds s : List UInt8} (hds : ∀ b ∈ ds, isDigit b = true) (hs : NoDigit s) :
    (ds ++ s).takeWhile isDigit = ds ∧ (ds ++ s).dropWhile isDigit = s := by
  rw [List.takeWhile_append_of_pos hds, List.dropWhile_append_of_pos hds]
  cases s with
  | nil => exact ⟨List.append_nil ds, rfl⟩
  | cons b s =>
    have hb := hs b rfl
    rw [List.takeWhile_cons_of_neg (by simp [hb]), List.dropWhile_cons_of_neg (by simp [hb])]
    exact ⟨List.append_nil ds, rfl⟩

theorem of_isDigit {b : UInt8} (h : isDigit b = true) :
    isSpace b = false ∧ b ≠ minus ∧ b ≠ plus := by
  simp only [isDigit, Bool.and_eq_true, decide_eq_true_eq] at h
  have hlow (c : UInt8) (hc : ¬ 0x30 ≤ c) : b ≠ c := by
    rintro rfl
    exact hc h.1
  have hhigh : ¬ b ≤ 13 := fun hle => absurd (UInt8.le_trans h.1 hle) (by decide)
  refine ⟨?_, hlow minus (by decide), hlow plus (by decide)⟩
  simp only [isSpace, Bool.or_eq_false_iff, Bool.and_eq_false_iff, beq_eq_false_iff_ne,
    decide_eq_false_iff_not]
  exact ⟨hlow 0x20 (by decide), .inr hhigh⟩

theorem eq_digit {b : UInt8} (h : isDigit b = true) :
    b = digit (digitValue b) ∧ digitValue b < 10 := by
  simp only [isDigit, Bool.and_eq_true, decide_eq_true_eq, UInt8.le_iff_toNat_le] at h
  obtain ⟨hlow, hhigh⟩ := h
  have hlow : 0x30 ≤ b.toNat := hlow
  have hhigh : b.toNat ≤ 0x39 := hhigh
  have hvalue : digitValue b < 10 := by
    rw [digitValue]
    omega
  refine ⟨UInt8.toNat_inj.mp ?_, hvalue⟩
  rw [toNat_digit hvalue, digitValue]
  omega

theorem number_cons (b : UInt8) (ds : List UInt8) :
    number (b :: ds) = digitValue b * 10 ^ ds.length + number ds := by
  have hone : number [b] = digitValue b := Nat.ofDigits_singleton
  rw [← List.singleton_append, number_append, hone]

theorem digits_of_number {ds : List UInt8} (hds : ∀ b ∈ ds, isDigit b = true)
    (h0 : 0 < number ds) (h : number ds < 10) :
    ∃ zeros, ds = List.replicate zeros (digit 0) ++ [digit (number ds)] := by
  induction ds with
  | nil => exact absurd h0 (Nat.lt_irrefl 0)
  | cons b ds ih =>
    obtain ⟨hb, hrest⟩ := List.forall_mem_cons.mp hds
    obtain ⟨hdigit, -⟩ := eq_digit hb
    rw [number_cons] at h0 h ⊢
    rcases Nat.eq_zero_or_pos (digitValue b) with hzero | hpos
    · rw [hzero, Nat.zero_mul, Nat.zero_add] at h0 h ⊢
      obtain ⟨zeros, heq⟩ := ih hrest h0 h
      refine ⟨zeros + 1, ?_⟩
      rw [List.replicate_succ, List.cons_append, ← heq, ← hzero, ← hdigit]
    · -- the digit is not zero, so no other follows
      have hle : 10 ^ ds.length ≤ digitValue b * 10 ^ ds.length := Nat.le_mul_of_pos_left _ hpos
      have hlength : ds.length = 0 := by
        by_contra hne
        have := Nat.le_self_pow hne 10
        omega
      have hnil := List.eq_nil_of_length_eq_zero hlength
      subst hnil
      refine ⟨0, ?_⟩
      have hvalue : digitValue b * 10 ^ ([] : List UInt8).length + number [] = digitValue b := by
        rw [List.length_nil, Nat.pow_zero, Nat.mul_one]
        rfl
      rw [hvalue, ← hdigit]
      rfl

/-- Blanks, perhaps a plus, zeros, the digit `k`, and then no further digit. -/
def Spells (k : ℕ) (s : List UInt8) : Prop :=
  ∃ blanks sign zeros rest,
    s = blanks ++ (sign ++ (List.replicate zeros (digit 0) ++ digit k :: rest)) ∧
      (∀ b ∈ blanks, isSpace b = true) ∧ (sign = [] ∨ sign = [plus]) ∧ NoDigit rest

theorem noDigit_dropWhile (s : List UInt8) : NoDigit (s.dropWhile isDigit) := by
  intro b hb
  have hnot := List.head?_dropWhile_not isDigit s
  rw [Option.mem_def.mp hb] at hnot
  exact hnot

theorem readSign_cases (s : List UInt8) :
    (∃ t, readSign s = (true, t)) ∨
      ∃ sign t, (sign = [] ∨ sign = [plus]) ∧ s = sign ++ t ∧ readSign s = (false, t) := by
  cases s with
  | nil => exact .inr ⟨[], [], .inl rfl, rfl, rfl⟩
  | cons b s =>
    rw [readSign]
    split_ifs with hminus hplus
    · exact .inl ⟨s, rfl⟩
    · exact .inr ⟨[plus], s, .inr rfl, by rw [hplus, List.singleton_append], rfl⟩
    · exact .inr ⟨[], b :: s, .inl rfl, rfl, rfl⟩

theorem readSign_digits {ds : List UInt8} (hds : ∀ b ∈ ds, isDigit b = true) (hne : ds ≠ [])
    (s : List UInt8) : readSign ((ds ++ s).dropWhile isSpace) = (false, ds ++ s) := by
  obtain ⟨b, ds, rfl⟩ := List.exists_cons_of_ne_nil hne
  obtain ⟨hspace, hminus, hplus⟩ := of_isDigit (hds b List.mem_cons_self)
  rw [List.cons_append, List.dropWhile_cons_of_neg (by simp [hspace]), readSign,
    if_neg hminus, if_neg hplus]

theorem atoi_eq_iff {k : ℕ} (h0 : 0 < k) (h : k < 10) (s : List UInt8) :
    atoi s = k ↔ Spells k s := by
  have hdigits (zeros : ℕ) : ∀ b ∈ List.replicate zeros (digit 0) ++ [digit k],
      isDigit b = true := by
    intro b hb
    rcases List.mem_append.mp hb with hzero | hk
    · rw [List.eq_of_mem_replicate hzero]
      exact isDigit_digit (by omega)
    · rw [List.mem_singleton.mp hk]
      exact isDigit_digit h
  have hnumber (zeros : ℕ) : number (List.replicate zeros (digit 0) ++ [digit k]) = k := by
    rw [number_append, number_replicate_zero, number_cons, digitValue_digit h, Nat.zero_mul,
      Nat.zero_add, List.length_nil, Nat.pow_zero, Nat.mul_one]
    rfl
  constructor
  · intro hatoi
    rw [atoi] at hatoi
    rcases readSign_cases (s.dropWhile isSpace) with ⟨t, hread⟩ | ⟨sign, t, hsign, ht, hread⟩
    · rw [hread] at hatoi
      dsimp only at hatoi
      rw [if_pos rfl] at hatoi
      omega
    · rw [hread] at hatoi
      dsimp only at hatoi
      rw [if_neg Bool.false_ne_true] at hatoi
      have hk : number (t.takeWhile isDigit) = k := by omega
      have htake : ∀ b ∈ t.takeWhile isDigit, isDigit b = true := fun _ hb =>
        List.mem_takeWhile_imp hb
      obtain ⟨zeros, hzeros⟩ := digits_of_number htake (by omega) (by omega)
      refine ⟨s.takeWhile isSpace, sign, zeros, t.dropWhile isDigit, ?_, fun _ hb =>
        List.mem_takeWhile_imp hb, hsign, noDigit_dropWhile t⟩
      calc s = s.takeWhile isSpace ++ s.dropWhile isSpace :=
            List.takeWhile_append_dropWhile.symm
        _ = s.takeWhile isSpace ++ (sign ++ (t.takeWhile isDigit ++ t.dropWhile isDigit)) := by
            rw [ht, List.takeWhile_append_dropWhile]
        _ = _ := by
            rw [hzeros, hk, List.append_assoc, List.singleton_append]
  · rintro ⟨blanks, sign, zeros, rest, rfl, hblanks, hsign, hrest⟩
    have hne : List.replicate zeros (digit 0) ++ [digit k] ≠ [] :=
      List.append_ne_nil_of_right_ne_nil _ (List.cons_ne_nil _ _)
    have hread : readSign ((sign ++ (List.replicate zeros (digit 0) ++ [digit k] ++ rest)).dropWhile
        isSpace) = (false, List.replicate zeros (digit 0) ++ [digit k] ++ rest) := by
      rcases hsign with rfl | rfl
      · exact readSign_digits (hdigits zeros) hne rest
      · rw [List.singleton_append, List.dropWhile_cons_of_neg (by decide), readSign,
          if_neg (by decide), if_pos rfl]
    rw [← List.singleton_append, ← List.append_assoc (List.replicate _ _), atoi,
      List.dropWhile_append_of_pos hblanks, hread]
    dsimp only
    rw [(span_digits (hdigits zeros) hrest).1, hnumber, if_neg Bool.false_ne_true]
    omega

theorem readSign_decimal (n : ℕ) (s : List UInt8) :
    readSign ((decimal n ++ s).dropWhile isSpace) = (false, decimal n ++ s) :=
  readSign_digits (isDigit_decimal n) (decimal_ne_nil n) s

theorem readSign_decimalInt (n : ℤ) (s : List UInt8) :
    readSign ((decimalInt n ++ s).dropWhile isSpace) = (decide (n < 0), decimal n.natAbs ++ s) := by
  rw [decimalInt]
  split_ifs with hn
  · rw [List.cons_append, List.dropWhile_cons_of_neg (by decide), readSign, if_pos rfl,
      decide_eq_true hn]
  · rw [readSign_decimal, decide_eq_false hn]

theorem readFraction_point {ds s : List UInt8} (hds : ∀ b ∈ ds, isDigit b = true)
    (hs : NoDigit s) : readFraction (point :: (ds ++ s)) = (ds, s) := by
  obtain ⟨htake, hdrop⟩ := span_digits hds hs
  rw [readFraction, if_pos rfl, htake, hdrop]

theorem scanFloat_dropWhile (s : List UInt8) : scanFloat (s.dropWhile isSpace) = scanFloat s := by
  rw [scanFloat, List.dropWhile_idempotent]
  rfl

/-- The value of a whole part and its hundredths, under the sign of the whole part alone. -/
def fixed (whole : ℤ) (hundredths : ℕ) : ℚ :=
  if whole < 0 then -(whole.natAbs + hundredths / 100) else whole.natAbs + hundredths / 100

theorem scanFloat_fixed (whole : ℤ) {hundredths : ℕ} (h : hundredths < 100) {s : List UInt8}
    (hs : NoDigit s) :
    scanFloat (decimalInt whole ++ point :: (padded 2 hundredths ++ s)) =
      some (fixed whole hundredths, s) := by
  have hpoint : NoDigit (point :: (padded 2 hundredths ++ s)) := by
    rintro b hb
    cases hb
    rfl
  obtain ⟨hwhole, hrest⟩ := span_digits (isDigit_decimal whole.natAbs) hpoint
  have hvalue : (number (decimal whole.natAbs ++ padded 2 hundredths) : ℚ) /
      10 ^ (padded 2 hundredths).length = whole.natAbs + hundredths / 100 := by
    rw [number_append, length_padded (by omega) h, number_decimal, number_padded]
    push_cast
    ring
  simp only [scanFloat, readSign_decimalInt, hwhole, hrest,
    readFraction_point (isDigit_padded 2 hundredths) hs, decimal_ne_nil, false_and, if_false,
    hvalue, fixed, decide_eq_true_eq]

end JeogiAt.Decimal
