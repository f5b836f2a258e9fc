import JeogiAt.DwellLaw
import JeogiAt.Library.Loops

/-!
# The initialisation of the SD card

`sd_init` (`sd_spi.c`) is called once before the main loop of the firmware. What the card shifts
out is a sequence of bytes and the time is a sequence of milliseconds, one of each for a transfer;
a call of `HAL_Delay` takes one place of the sequences too. The state of the program is the number
of places passed. `f_mount` is a parameter.

The waits for an answer are bounded by the tick and the tries of CMD0 by their number. The loop
around ACMD41 is bounded by neither, so `sd_init` returns only for a card that is not identified or
becomes ready.
-/

namespace JeogiAt.SdCard

open Loops Relation
open Display (halGetTick toNat_tick_sub)

def cmd0 : UInt8 := 0
def cmd8 : UInt8 := 8
def cmd17 : UInt8 := 17
def cmd55 : UInt8 := 55
def cmd58 : UInt8 := 58
def acmd41 : UInt8 := 41

/-- The bytes that the card shifts out and the milliseconds that have passed, by the number of
transfers. -/
structure Bus where
  rx : ℕ → UInt8
  tick : ℕ → ℕ

def packet (cmd : UInt8) (arg : UInt32) (crc : UInt8) : List UInt8 :=
  [0x40 ||| cmd, (arg >>> 24).toUInt8, (arg >>> 16).toUInt8, (arg >>> 8).toUInt8, arg.toUInt8, crc]

def sdAddr (is_sdhc : Bool) (lba : UInt32) : UInt32 := if is_sdhc then lba else lba * 512

namespace Bus

variable (bus : Bus)

def spiReadBuf (len n : ℕ) : List UInt8 × ℕ := ((List.range' n len).map bus.rx, n + len)

/-- The body of the loops that wait for a byte until the time is up. -/
def await (accept : UInt8 → Bool) (timeout_ms : UInt32) (start n : ℕ) :
    Computation ((Option UInt8 × ℕ) ⊕ ℕ) :=
  if accept (bus.rx n) then pure (.inl (some (bus.rx n), n + 1))
  else if halGetTick (bus.tick (n + 1)) - halGetTick (bus.tick start) < timeout_ms then
    pure (.inr (n + 1))
  else pure (.inl (none, n + 1))

def awaitByte (accept : UInt8 → Bool) (timeout_ms : UInt32) (n : ℕ) :
    Computation (Option UInt8 × ℕ) :=
  loop (bus.await accept timeout_ms n) n

def sdWaitToken (token : UInt8) (timeout_ms : UInt32) (n : ℕ) : Computation (ℤ × ℕ) := do
  let (r, n) ← bus.awaitByte (· == token) timeout_ms n
  return (if r.isSome then 0 else -1, n)

def sdCmdR1 (cmd : UInt8) (arg : UInt32) (crc : UInt8) (n : ℕ) : Computation (UInt8 × ℕ) := do
  let (r, n) ← bus.awaitByte (· &&& 0x80 == 0) 10 (n + (packet cmd arg crc).length)
  return (r.getD 0xFF, n)

def exchange (cmd : UInt8) (arg : UInt32) (crc : UInt8) (n : ℕ) : Computation (UInt8 × ℕ) := do
  let (r, n) ← bus.sdCmdR1 cmd arg crc n
  return (r, n + 1)

/-- The loop around CMD0, with the tries left and the last answer. -/
def cmd0Tries : ℕ → UInt8 → ℕ → Computation (UInt8 × ℕ)
  | 0, r, n => return (r, n)
  | tries + 1, _, n => do
      let (r, n) ← bus.exchange cmd0 0 0x95 n
      -- `HAL_Delay(10)` before the next try
      if r = 0x01 then return (r, n) else cmd0Tries tries r (n + 1)

/-- The part of `sd_init` before the loop around ACMD41, with the code it returns, or 0 when it
goes on. -/
def sdIdentify (n : ℕ) : Computation (UInt8 × ℕ) := do
  let (r, n) ← bus.cmd0Tries 50 0 (n + 10)
  if r ≠ 0x01 then return (1, n)
  else
    let (r, n) ← bus.sdCmdR1 cmd8 0x1AA 0x87 n
    if r ≠ 0x01 then return (2, n + 1)
    else
      let (r7, n) := bus.spiReadBuf 4 n
      if r7.getD 3 0 ≠ 0xAA then return (3, n + 1) else return (0, n + 1)

/-- The body of the loop around ACMD41. `continue` goes to its test, which such an `r` passes. -/
def askReady (n : ℕ) : Computation (ℕ ⊕ ℕ) := do
  let (r, n) ← bus.exchange cmd55 0 0x01 n
  if 0x01 < r then return .inr n
  else
    let (r, n) ← bus.exchange acmd41 0x40000000 0x01 n
    if r ≠ 0x00 then return .inr n else return .inl n

def sdReadBlock (is_sdhc : Bool) (lba : UInt32) (n : ℕ) : Computation (ℤ × ℕ) := do
  let (r, n) ← bus.sdCmdR1 cmd17 (sdAddr is_sdhc lba) 0x01 n
  if r ≠ 0x00 then return (1, n + 1)
  else
    let (token, n) ← bus.sdWaitToken 0xFE 50 n
    if token ≠ 0 then return (2, n + 1) else return (0, n + 512 + 2 + 1)

def sdMount (fMount : ℕ → Computation ℕ) (n : ℕ) : Computation (UInt8 × Bool) := do
  let (r, n) ← bus.sdCmdR1 cmd58 0 0x01 n
  let (ocr, n) := bus.spiReadBuf 4 n
  if r ≠ 0x00 then return (4, false)
  else
    let is_sdhc := ocr.getD 0 0 &&& 0x40 != 0
    let (res, n) ← bus.sdReadBlock is_sdhc 0 (n + 1)
    if res = 0 then
      let _ ← fMount n
      return (0, is_sdhc)
    else return (0, is_sdhc)

/-- `sd_init`, with the code it returns and the kind of the card. -/
def sdInit (fMount : ℕ → Computation ℕ) (n : ℕ) : Computation (UInt8 × Bool) := do
  let (code, n) ← bus.sdIdentify n
  if code ≠ 0 then return (code, false)
  else
    let n ← loop bus.askReady n
    bus.sdMount fMount n

/-- The tick advances at least once in `k` transfers, and a single one takes less than 2^31 ms. -/
structure Advances (k : ℕ) : Prop where
  step : ∀ n, bus.tick n ≤ bus.tick (n + 1)
  advance : ∀ n, bus.tick n + 1 ≤ bus.tick (n + k)
  short : ∀ n, bus.tick (n + 1) < bus.tick n + 2 ^ 31

inductive Idle : ℕ → ℕ → ℕ → Prop
  | answered {tries n n' : ℕ} (h : (0x01, n') ∈ bus.exchange cmd0 0 0x95 n) : Idle (tries + 1) n n'
  | again {tries n m n' : ℕ} {r : UInt8} (h : (r, m) ∈ bus.exchange cmd0 0 0x95 n) (hr : r ≠ 0x01)
      (hidle : Idle tries (m + 1) n') : Idle (tries + 1) n n'

def Checked (n n' : ℕ) : Prop :=
  ∃ m, (0x01, m) ∈ bus.sdCmdR1 cmd8 0x1AA 0x87 n ∧ bus.rx (m + 3) = 0xAA ∧ n' = m + 4 + 1

/-- A round in which it refuses CMD55, or answers ACMD41 with something else than 0. -/
def Busy (n n' : ℕ) : Prop :=
  (∃ r, (r, n') ∈ bus.exchange cmd55 0 0x01 n ∧ 0x01 < r) ∨
    ∃ r m r', (r, m) ∈ bus.exchange cmd55 0 0x01 n ∧ ¬0x01 < r ∧
      (r', n') ∈ bus.exchange acmd41 0x40000000 0x01 m ∧ r' ≠ 0x00

def Ready (n : ℕ) : Prop :=
  ∃ r m n', (r, m) ∈ bus.exchange cmd55 0 0x01 n ∧ ¬0x01 < r ∧
    (0x00, n') ∈ bus.exchange acmd41 0x40000000 0x01 m

/-- A card that is identified becomes ready after some busy rounds. -/
def BecomesReady (n : ℕ) : Prop :=
  ∀ n₀ n₁, bus.Idle 50 (n + 10) n₀ → bus.Checked n₀ n₁ →
    ∃ n₂, ReflTransGen bus.Busy n₁ n₂ ∧ bus.Ready n₂

variable {bus} {k : ℕ}

namespace Advances

theorem mono (h : bus.Advances k) {n m : ℕ} (hnm : n ≤ m) : bus.tick n ≤ bus.tick m :=
  monotone_nat_of_le_succ h.step hnm

theorem add_le (h : bus.Advances k) (n j : ℕ) : bus.tick n + j ≤ bus.tick (n + j * k) := by
  induction j with
  | zero => simp
  | succ j ih =>
    have hstep := h.advance (n + j * k)
    have hsplit : n + (j + 1) * k = n + j * k + k := by
      rw [Nat.succ_mul, Nat.add_assoc]
    rw [hsplit]
    omega

theorem awaitByte (h : bus.Advances k) (accept : UInt8 → Bool) {timeout_ms : UInt32}
    (hpos : 0 < timeout_ms.toNat) (hlt : timeout_ms.toNat ≤ 2 ^ 31) (n : ℕ) :
    (bus.awaitByte accept timeout_ms n).Terminates := by
  let I (m : ℕ) : Prop := n ≤ m ∧ bus.tick m < bus.tick n + timeout_ms.toNat
  refine terminates_of_measure (I := I) (fun m => n + timeout_ms.toNat * k - m) ?_
    ⟨le_rfl, by omega⟩
  rintro m ⟨hnm, htime⟩
  have hbound : m < n + timeout_ms.toNat * k := by
    by_contra hle
    have hmono := h.mono (not_lt.mp hle)
    have hall := h.add_le n timeout_ms.toNat
    omega
  have hshort := h.short m
  have hdiff : (halGetTick (bus.tick (m + 1)) - halGetTick (bus.tick n)).toNat =
      bus.tick (m + 1) - bus.tick n :=
    toNat_tick_sub (h.mono (by omega)) (by omega)
  unfold await
  split_ifs with haccept hgo
  · exact ⟨_, Computation.ret_mem _, nofun⟩
  · refine ⟨_, Computation.ret_mem _, ?_⟩
    rintro s' ⟨⟩
    rw [UInt32.lt_iff_toNat_lt, hdiff] at hgo
    have hstep := h.step m
    have hmono := h.mono hnm
    exact ⟨⟨by omega, by omega⟩, by omega⟩
  · exact ⟨_, Computation.ret_mem _, nofun⟩

theorem sdCmdR1 (h : bus.Advances k) (cmd : UInt8) (arg : UInt32) (crc : UInt8) (n : ℕ) :
    (bus.sdCmdR1 cmd arg crc n).Terminates :=
  terminates_bind_of (h.awaitByte _ (by decide) (by decide) _)
    fun _ _ => Computation.ret_terminates _

theorem sdWaitToken (h : bus.Advances k) (token : UInt8) (n : ℕ) :
    (bus.sdWaitToken token 50 n).Terminates :=
  terminates_bind_of (h.awaitByte _ (by decide) (by decide) _)
    fun _ _ => Computation.ret_terminates _

theorem exchange (h : bus.Advances k) (cmd : UInt8) (arg : UInt32) (crc : UInt8) (n : ℕ) :
    (bus.exchange cmd arg crc n).Terminates :=
  terminates_bind_of (h.sdCmdR1 cmd arg crc n) fun _ _ => Computation.ret_terminates _

theorem cmd0Tries (h : bus.Advances k) (tries : ℕ) (r : UInt8) (n : ℕ) :
    (bus.cmd0Tries tries r n).Terminates := by
  induction tries generalizing r n with
  | zero => exact Computation.ret_terminates _
  | succ tries ih =>
    refine terminates_bind_of (h.exchange _ _ _ n) fun a _ => ?_
    dsimp only
    split_ifs
    · exact Computation.ret_terminates _
    · exact ih _ _

theorem sdIdentify (h : bus.Advances k) (n : ℕ) : (bus.sdIdentify n).Terminates := by
  refine terminates_bind_of (h.cmd0Tries 50 0 _) fun a _ => ?_
  dsimp only
  split_ifs
  · exact Computation.ret_terminates _
  · refine terminates_bind_of (h.sdCmdR1 _ _ _ _) fun b _ => ?_
    split_ifs <;> exact Computation.ret_terminates _

theorem sdReadBlock (h : bus.Advances k) (is_sdhc : Bool) (lba : UInt32) (n : ℕ) :
    (bus.sdReadBlock is_sdhc lba n).Terminates := by
  refine terminates_bind_of (h.sdCmdR1 _ _ _ n) fun a _ => ?_
  dsimp only
  split_ifs
  · exact Computation.ret_terminates _
  · refine terminates_bind_of (h.sdWaitToken _ _) fun b _ => ?_
    split_ifs <;> exact Computation.ret_terminates _

theorem sdMount (h : bus.Advances k) {fMount : ℕ → Computation ℕ}
    (hmount : ∀ n, (fMount n).Terminates) (n : ℕ) : (bus.sdMount fMount n).Terminates := by
  refine terminates_bind_of (h.sdCmdR1 _ _ _ n) fun a _ => ?_
  dsimp only
  split_ifs
  · exact Computation.ret_terminates _
  · refine terminates_bind_of (h.sdReadBlock _ _ _) fun b _ => ?_
    split_ifs
    · exact terminates_bind_of (hmount _) fun _ _ => Computation.ret_terminates _
    · exact Computation.ret_terminates _

end Advances

theorem mem_askReady_iff {n : ℕ} {x : ℕ ⊕ ℕ} : x ∈ bus.askReady n ↔
    ∃ r m, (r, m) ∈ bus.exchange cmd55 0 0x01 n ∧
      (0x01 < r ∧ x = .inr m ∨ ¬0x01 < r ∧
        ∃ r' m', (r', m') ∈ bus.exchange acmd41 0x40000000 0x01 m ∧
          x = if r' ≠ 0x00 then .inr m' else .inl m') := by
  simp only [askReady, mem_bind_iff, Prod.exists]
  refine exists_congr fun r => exists_congr fun m => and_congr_right fun _ => ?_
  by_cases hr : 0x01 < r
  · simp only [hr, if_true, true_and, not_true_eq_false, false_and, or_false]
    exact Computation.mem_pure_iff _ _
  · simp only [hr, if_false, false_and, not_false_eq_true, true_and, false_or, mem_bind_iff,
      Prod.exists]
    refine exists_congr fun r' => exists_congr fun m' => and_congr_right fun _ => ?_
    split_ifs <;> exact Computation.mem_pure_iff _ _

theorem again_askReady_iff {n n' : ℕ} : Again bus.askReady n n' ↔ bus.Busy n n' := by
  rw [Again, mem_askReady_iff, Busy]
  constructor
  · rintro ⟨r, m, hr, ⟨hlt, heq⟩ | ⟨hle, r', m', hr', heq⟩⟩
    · cases heq
      exact .inl ⟨r, hr, hlt⟩
    · split_ifs at heq with hzero
      cases heq
      exact .inr ⟨r, m, r', hr, hle, hr', hzero⟩
  · rintro (⟨r, hr, hlt⟩ | ⟨r, m, r', hr, hle, hr', hzero⟩)
    · exact ⟨r, n', hr, .inl ⟨hlt, rfl⟩⟩
    · exact ⟨r, m, hr, .inr ⟨hle, r', n', hr', (if_pos hzero).symm⟩⟩

theorem ready_iff {n : ℕ} : (∃ n', .inl n' ∈ bus.askReady n) ↔ bus.Ready n := by
  simp only [mem_askReady_iff, Ready]
  constructor
  · rintro ⟨n', r, m, hr, ⟨-, heq⟩ | ⟨hle, r', m', hr', heq⟩⟩
    · cases heq
    · split_ifs at heq with hzero
      cases heq
      rw [ne_eq, not_not] at hzero
      exact ⟨r, m, n', hr, hle, hzero ▸ hr'⟩
  · rintro ⟨r, m, n', hr, hle, hr'⟩
    exact ⟨n', r, m, hr, .inr ⟨hle, 0x00, n', hr', rfl⟩⟩

theorem terminates_askReady_iff {n : ℕ} : (loop bus.askReady n).Terminates ↔
    ∃ n₂, ReflTransGen bus.Busy n n₂ ∧ bus.Ready n₂ := by
  have hagain : Again bus.askReady = bus.Busy := by
    funext n n'
    exact propext again_askReady_iff
  simp only [terminates_loop_iff, hagain, ready_iff]

theorem mem_cmd0Tries_iff {tries n n' : ℕ} {r : UInt8} (hr : r ≠ 0x01) :
    (0x01, n') ∈ bus.cmd0Tries tries r n ↔ bus.Idle tries n n' := by
  induction tries generalizing r n with
  | zero =>
    refine iff_of_false (fun hmem => ?_) nofun
    cases (Computation.mem_pure_iff _ _).mp hmem
    exact hr rfl
  | succ tries ih =>
    simp only [cmd0Tries, mem_bind_iff, Prod.exists]
    constructor
    · rintro ⟨r', m, hr', hmem⟩
      split_ifs at hmem with hone
      · cases (Computation.mem_pure_iff _ _).mp hmem
        exact .answered hr'
      · exact .again hr' hone ((ih hone).mp hmem)
    · rintro (⟨hanswer⟩ | ⟨hanswer, hone, hidle⟩)
      · exact ⟨0x01, n', hanswer, Computation.ret_mem _⟩
      · refine ⟨_, _, hanswer, ?_⟩
        rw [if_neg hone]
        exact (ih hone).mpr hidle

/-- `sd_init` comes to the loop around ACMD41 with a card that is identified. -/
theorem mem_sdIdentify_iff {n n₁ : ℕ} : (0, n₁) ∈ bus.sdIdentify n ↔
    ∃ n₀, bus.Idle 50 (n + 10) n₀ ∧ bus.Checked n₀ n₁ := by
  simp only [sdIdentify, mem_bind_iff, Prod.exists]
  constructor
  · rintro ⟨r, n₀, hr, hmem⟩
    split_ifs at hmem with hone
    · cases (Computation.mem_pure_iff _ _).mp hmem
    · rw [ne_eq, not_not] at hone
      subst hone
      refine ⟨n₀, (mem_cmd0Tries_iff (by decide)).mp hr, ?_⟩
      obtain ⟨⟨r', m⟩, hr', hmem⟩ := mem_bind_iff.mp hmem
      dsimp only at hmem
      split_ifs at hmem with hone hecho
      · cases (Computation.mem_pure_iff _ _).mp hmem
      · cases (Computation.mem_pure_iff _ _).mp hmem
      · rw [ne_eq, not_not] at hone hecho
        subst hone
        cases (Computation.mem_pure_iff _ _).mp hmem
        exact ⟨m, hr', hecho, rfl⟩
  · rintro ⟨n₀, hidle, m, hm, hecho, rfl⟩
    refine ⟨0x01, n₀, (mem_cmd0Tries_iff (by decide)).mpr hidle, ?_⟩
    rw [if_neg (not_not.mpr rfl)]
    refine mem_bind_iff.mpr ⟨_, hm, ?_⟩
    dsimp only
    rw [if_neg (not_not.mpr rfl), if_neg]
    · exact Computation.ret_mem _
    · exact not_not.mpr hecho

/-- `sd_init` returns if and only if a card that is identified becomes ready. -/
theorem sdInit_terminates_iff (h : bus.Advances k) {fMount : ℕ → Computation ℕ}
    (hmount : ∀ n, (fMount n).Terminates) (n : ℕ) :
    (bus.sdInit fMount n).Terminates ↔ bus.BecomesReady n := by
  obtain ⟨⟨code, n₁⟩, hcode⟩ := (Computation.terminates_iff _).mp (h.sdIdentify n)
  rw [sdInit, terminates_bind_iff]
  constructor
  · rintro ⟨a, ha, hterm⟩ n₀ n₁' hidle hchecked
    cases Computation.mem_unique ha (mem_sdIdentify_iff.mpr ⟨n₀, hidle, hchecked⟩)
    dsimp only at hterm
    rw [if_neg (not_not.mpr rfl)] at hterm
    obtain ⟨n₂, hn₂, -⟩ := terminates_bind_iff.mp hterm
    exact terminates_askReady_iff.mp (Computation.terminates_of_mem hn₂)
  · intro hready
    refine ⟨(code, n₁), hcode, ?_⟩
    dsimp only
    split_ifs with hne
    · exact Computation.ret_terminates _
    · rw [ne_eq, not_not] at hne
      subst hne
      obtain ⟨n₀, hidle, hchecked⟩ := mem_sdIdentify_iff.mp hcode
      exact terminates_bind_of (terminates_askReady_iff.mpr (hready n₀ n₁ hidle hchecked))
        fun n₂ _ => h.sdMount hmount n₂

theorem exists_rx_of_mem_sdCmdR1 {cmd crc r : UInt8} {arg : UInt32} {n m : ℕ}
    (h : (r, m) ∈ bus.sdCmdR1 cmd arg crc n) : r = 0xFF ∨ ∃ i, bus.rx i = r := by
  obtain ⟨⟨answer, m'⟩, hanswer, hr⟩ := mem_bind_iff.mp h
  cases (Computation.mem_pure_iff _ _).mp hr
  obtain ⟨i, -, hend⟩ := mem_loop_iff.mp hanswer
  unfold await at hend
  split_ifs at hend
  · cases (Computation.mem_pure_iff _ _).mp hend
    exact .inr ⟨i, rfl⟩
  · cases (Computation.mem_pure_iff _ _).mp hend
  · cases (Computation.mem_pure_iff _ _).mp hend
    exact .inl rfl

theorem exists_rx_of_mem_exchange {cmd crc r : UInt8} {arg : UInt32} {n m : ℕ}
    (h : (r, m) ∈ bus.exchange cmd arg crc n) : r = 0xFF ∨ ∃ i, bus.rx i = r := by
  obtain ⟨⟨r', m'⟩, hr', hr⟩ := mem_bind_iff.mp h
  cases (Computation.mem_pure_iff _ _).mp hr
  exact exists_rx_of_mem_sdCmdR1 hr'

theorem mem_sdCmdR1 (cmd crc : UInt8) (arg : UInt32) {n : ℕ} (h : bus.rx (n + 6) &&& 0x80 = 0) :
    (bus.rx (n + 6), n + 7) ∈ bus.sdCmdR1 cmd arg crc n := by
  refine mem_bind_iff.mpr ⟨(some (bus.rx (n + 6)), n + 7), ?_, Computation.ret_mem _⟩
  refine mem_loop_iff.mpr ⟨n + 6, .refl, ?_⟩
  rw [await, if_pos (beq_iff_eq.mpr h)]
  exact Computation.ret_mem _

theorem mem_exchange (cmd crc : UInt8) (arg : UInt32) {n : ℕ} (h : bus.rx (n + 6) &&& 0x80 = 0) :
    (bus.rx (n + 6), n + 8) ∈ bus.exchange cmd arg crc n :=
  mem_bind_iff.mpr ⟨_, mem_sdCmdR1 cmd crc arg h, Computation.ret_mem _⟩

theorem not_ready (h : ∀ i, bus.rx i ≠ 0) (n : ℕ) : ¬bus.Ready n := by
  rintro ⟨r, m, n', -, -, hzero⟩
  rcases exists_rx_of_mem_exchange hzero with hff | ⟨i, hi⟩
  · cases hff
  · exact h i hi

end Bus

open Bus

/-- A card that is identified, is busy for a round and then ready. -/
def slowCard : Bus := ⟨fun n => if n = 28 then 0xAA else if n < 60 then 0x01 else 0x00, id⟩

theorem advances_slowCard : slowCard.Advances 1 :=
  ⟨Nat.le_succ, fun _ => le_rfl, fun n => by simp [slowCard]⟩

theorem identified_slowCard : (0, 30) ∈ slowCard.sdIdentify 0 :=
  mem_sdIdentify_iff.mpr ⟨18, .answered (mem_exchange cmd0 0x95 0 (by decide)),
    25, mem_sdCmdR1 cmd8 0x87 0x1AA (by decide), rfl, rfl⟩

theorem busy_slowCard : slowCard.Busy 30 46 :=
  .inr ⟨0x01, 38, 0x01, mem_exchange cmd55 0x01 0 (by decide), by decide,
    mem_exchange acmd41 0x01 0x40000000 (by decide), by decide⟩

theorem ready_slowCard : slowCard.Ready 46 :=
  ⟨0x01, 54, 62, mem_exchange cmd55 0x01 0 (by decide), by decide,
    mem_exchange acmd41 0x01 0x40000000 (by decide)⟩

theorem becomesReady_slowCard : slowCard.BecomesReady 0 := by
  intro n₀ n₁ hidle hchecked
  have hidentified : (0, n₁) ∈ slowCard.sdIdentify 0 :=
    mem_sdIdentify_iff.mpr ⟨n₀, hidle, hchecked⟩
  cases Computation.mem_unique hidentified identified_slowCard
  exact ⟨46, .single busy_slowCard, ready_slowCard⟩

theorem sdInit_slowCard : (slowCard.sdInit pure 0).Terminates :=
  (sdInit_terminates_iff advances_slowCard (fun _ => Computation.ret_terminates _) 0).mpr
    becomesReady_slowCard

/-- A card that answers CMD0 and CMD8, echoes the check pattern, and stays busy. -/
def busyCard : Bus := ⟨fun n => if n = 28 then 0xAA else 0x01, id⟩

theorem advances_busyCard : busyCard.Advances 1 :=
  ⟨Nat.le_succ, fun _ => le_rfl, fun n => by simp [busyCard]⟩

theorem rx_busyCard_ne_zero (n : ℕ) : busyCard.rx n ≠ 0 := by
  simp only [busyCard]
  split_ifs <;> decide

theorem checked_busyCard : busyCard.Checked 18 30 :=
  ⟨25, mem_sdCmdR1 cmd8 0x87 0x1AA (by decide), rfl, rfl⟩

theorem idle_busyCard : busyCard.Idle 50 10 18 :=
  .answered (mem_exchange cmd0 0x95 0 (by decide))

theorem busyCard_hangs : ¬∀ (bus : Bus) (k : ℕ), bus.Advances k →
    ∀ fMount : ℕ → Computation ℕ, (∀ n, (fMount n).Terminates) →
      (bus.sdInit fMount 0).Terminates := by
  intro hall
  have hterm := hall busyCard 1 advances_busyCard pure fun _ => Computation.ret_terminates _
  obtain ⟨a, ha, hrest⟩ := terminates_bind_iff.mp hterm
  cases Computation.mem_unique ha (mem_sdIdentify_iff.mpr ⟨18, idle_busyCard, checked_busyCard⟩)
  dsimp only at hrest
  rw [if_neg (not_not.mpr rfl)] at hrest
  obtain ⟨n₂, hn₂, -⟩ := terminates_bind_iff.mp hrest
  obtain ⟨n₃, -, hready⟩ := terminates_askReady_iff.mp (Computation.terminates_of_mem hn₂)
  exact not_ready rx_busyCard_ne_zero n₃ hready

end JeogiAt.SdCard
