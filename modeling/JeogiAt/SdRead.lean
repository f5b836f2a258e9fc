import JeogiAt.SdInit

/-!
# Reading from the SD card

`USER_read` is what FatFs reads sectors with: a single block by CMD17, and several by CMD18, which
the card goes on to send until CMD12. `Answered` says when an answer of the card is in time, and
`Sends` what the card has to send, so that `userRead_law` is independent of how the driver waits.
-/

namespace JeogiAt.SdCard

open Loops Relation
open Display (halGetTick toNat_tick_sub)

def cmd12 : UInt8 := 12
def cmd18 : UInt8 := 18

/-- `DRESULT`, as far as `USER_read` returns it. -/
inductive DResult
  | resOk | resError | resParerr
  deriving DecidableEq

namespace Bus

variable (bus : Bus)

/-- The body of the loop of `sd_wait_ready`, whose test is not that of the other waits. -/
def awaitReady (timeout_ms : UInt32) (start n : ℕ) : Computation ((Option UInt8 × ℕ) ⊕ ℕ) :=
  if bus.rx n == 0xFF then pure (.inl (some (bus.rx n), n + 1))
  else if timeout_ms < halGetTick (bus.tick (n + 1)) - halGetTick (bus.tick start) then
    pure (.inl (none, n + 1))
  else pure (.inr (n + 1))

def sdWaitReady (timeout_ms : UInt32) (n : ℕ) : Computation (ℤ × ℕ) := do
  let (r, n) ← loop (bus.awaitReady timeout_ms n) n
  return (if r.isSome then 0 else -1, n)

/-- `sd_send_cmd12`, which does not look at the answer. -/
def sdSendCmd12 (n : ℕ) : Computation (ℤ × ℕ) := do
  let (_, n) ← bus.awaitByte (· &&& 0x80 == 0) 10 (n + 1 + (packet cmd12 0 0x01).length)
  let (ready, n) ← bus.sdWaitReady 50 n
  if ready ≠ 0 then return (-1, n) else return (0, n)

/-- `sd_read_block`, with what it stores to its buffer. -/
def sdReadBlockData (is_sdhc : Bool) (lba : UInt32) (n : ℕ) :
    Computation (ℤ × List UInt8 × ℕ) := do
  let (r, n) ← bus.sdCmdR1 cmd17 (sdAddr is_sdhc lba) 0x01 n
  if r ≠ 0x00 then return (1, [], n + 1)
  else
    let (token, n) ← bus.sdWaitToken 0xFE 50 n
    if token ≠ 0 then return (2, [], n + 1)
    else
      let (buf, n) := bus.spiReadBuf 512 n
      return (0, buf, n + 2 + 1)

/-- The loop of `sd_read_multi`, with whether all tokens came. -/
def readBlocks : ℕ → ℕ → Computation (Bool × List UInt8 × ℕ)
  | 0, n => return (true, [], n)
  | count + 1, n => do
      let (token, n) ← bus.sdWaitToken 0xFE 50 n
      if token ≠ 0 then return (false, [], n)
      else
        let (buf, n) := bus.spiReadBuf 512 n
        let (ok, rest, n) ← readBlocks count (n + 2)
        return (ok, buf ++ rest, n)

def sdReadMulti (is_sdhc : Bool) (lba : UInt32) (count n : ℕ) :
    Computation (ℤ × List UInt8 × ℕ) := do
  if count ≤ 1 then bus.sdReadBlockData is_sdhc lba n
  else
    let (r, n) ← bus.sdCmdR1 cmd18 (sdAddr is_sdhc lba) 0x01 n
    if r ≠ 0x00 then return (-1, [], n + 1)
    else
      let (ok, buf, n) ← bus.readBlocks count n
      let (_, n) ← bus.sdSendCmd12 n
      return (if ok then 0 else -2, buf, n + 1)

/-- `USER_read`, with what it stores to `buff`. -/
def userRead (pdrv : UInt8) (is_sdhc : Bool) (sector : UInt32) (count n : ℕ) :
    Computation (DResult × List UInt8) := do
  if pdrv ≠ 0 then return (.resParerr, [])
  else
    let (ret, buff, _) ←
      if 1 < count then bus.sdReadMulti is_sdhc sector count n
      else bus.sdReadBlockData is_sdhc sector n
    return (if ret = 0 then .resOk else .resError, buff)

/-- The sectors that are read, which is one also when none are asked for. -/
def sectorsRead (count : ℕ) : ℕ := if count ≤ 1 then 1 else count

/-- The first acceptable byte from `n` on is at `m`, and the time was not up before. -/
structure Answered (accept : UInt8 → Bool) (timeout_ms n m : ℕ) : Prop where
  le : n ≤ m
  accepted : accept (bus.rx m) = true
  first : ∀ i, n ≤ i → i < m → accept (bus.rx i) = false
  in_time : n < m → bus.tick m < bus.tick n + timeout_ms

def block (n : ℕ) : List UInt8 := (List.range' n 512).map bus.rx

/-- Blocks from `n` on, each behind a token in time and before two bytes of a checksum. -/
inductive Sends : ℕ → List (List UInt8) → Prop
  | done {n : ℕ} : Sends n []
  | next {n m : ℕ} {blocks : List (List UInt8)} (h : bus.Answered (· == 0xFE) 50 n m)
      (hrest : Sends (m + 1 + 512 + 2) blocks) : Sends n (bus.block (m + 1) :: blocks)

/-- The card accepts a command that is sent at `n`, and then sends the blocks. -/
def Accepts (n : ℕ) (blocks : List (List UInt8)) : Prop :=
  ∃ m, bus.Answered (· &&& 0x80 == 0) 10 (n + 6) m ∧ bus.rx m = 0x00 ∧ bus.Sends (m + 1) blocks

variable {bus} {k : ℕ}

theorem again_await_iff {accept : UInt8 → Bool} {timeout_ms : UInt32} {start n n' : ℕ} :
    Again (bus.await accept timeout_ms start) n n' ↔ n' = n + 1 ∧ accept (bus.rx n) = false ∧
      halGetTick (bus.tick (n + 1)) - halGetTick (bus.tick start) < timeout_ms := by
  unfold Again await
  split_ifs with haccept hgo
  · refine iff_of_false (fun hmem => ?_) fun h => Bool.false_ne_true (h.2.1.symm.trans haccept)
    cases (Computation.mem_pure_iff _ _).mp hmem
  · rw [Bool.not_eq_true] at haccept
    refine (Computation.mem_pure_iff _ _).trans ⟨fun heq => ?_, fun h => congrArg Sum.inr h.1⟩
    exact ⟨Sum.inr.inj heq, haccept, hgo⟩
  · refine iff_of_false (fun hmem => ?_) fun h => hgo h.2.2
    cases (Computation.mem_pure_iff _ _).mp hmem

theorem end_await_iff {accept : UInt8 → Bool} {timeout_ms : UInt32} {start n n' : ℕ} {r : UInt8} :
    .inl (some r, n') ∈ bus.await accept timeout_ms start n ↔
      accept (bus.rx n) = true ∧ r = bus.rx n ∧ n' = n + 1 := by
  unfold await
  split_ifs with haccept hgo
  · refine (Computation.mem_pure_iff _ _).trans ⟨fun heq => ?_, fun h => by rw [h.2.1, h.2.2]⟩
    cases heq
    exact ⟨haccept, rfl, rfl⟩
  · refine iff_of_false (fun hmem => ?_) fun h => haccept h.1
    cases (Computation.mem_pure_iff _ _).mp hmem
  · refine iff_of_false (fun hmem => ?_) fun h => haccept h.1
    cases (Computation.mem_pure_iff _ _).mp hmem

namespace Advances

theorem in_time_iff (h : bus.Advances k) {timeout_ms : UInt32} (hle : timeout_ms.toNat ≤ 2 ^ 31)
    {n m : ℕ} (hnm : n ≤ m) (htime : bus.tick m < bus.tick n + timeout_ms.toNat ∨ m = n) :
    halGetTick (bus.tick (m + 1)) - halGetTick (bus.tick n) < timeout_ms ↔
      bus.tick (m + 1) < bus.tick n + timeout_ms.toNat := by
  have hshort := h.short m
  have hmono := h.mono (show n ≤ m + 1 by omega)
  have hfits : bus.tick (m + 1) < bus.tick n + 2 ^ 32 := by
    rcases htime with htime | rfl <;> omega
  rw [UInt32.lt_iff_toNat_lt, toNat_tick_sub hmono hfits]
  omega

/-- The turns of a wait go past the bytes that it does not accept. -/
theorem waits_iff (h : bus.Advances k) {accept : UInt8 → Bool} {timeout_ms : UInt32}
    (hle : timeout_ms.toNat ≤ 2 ^ 31) {n m : ℕ} :
    ReflTransGen (Again (bus.await accept timeout_ms n)) n m ↔
      n ≤ m ∧ (∀ i, n ≤ i → i < m → accept (bus.rx i) = false) ∧
        (n < m → bus.tick m < bus.tick n + timeout_ms.toNat) := by
  constructor
  · intro hwait
    induction hwait with
    | refl => exact ⟨le_rfl, fun i hi hlt => by omega, fun hlt => by omega⟩
    | tail _ hagain ih =>
      obtain ⟨rfl, hother, hgo⟩ := again_await_iff.mp hagain
      obtain ⟨hnm, hfirst, htime⟩ := ih
      refine ⟨by omega, fun i hi hlt => ?_, fun _ => ?_⟩
      · rcases Nat.lt_succ_iff_lt_or_eq.mp hlt with hlt | rfl
        · exact hfirst i hi hlt
        · exact hother
      · refine (h.in_time_iff hle hnm ?_).mp hgo
        rcases Nat.lt_or_eq_of_le hnm with hlt | rfl
        · exact .inl (htime hlt)
        · exact .inr rfl
  · rintro ⟨hnm, hfirst, htime⟩
    induction m, hnm using Nat.le_induction with
    | base => exact .refl
    | succ m hnm ih =>
      have hin := htime (by omega)
      have hstep := h.step m
      have hbefore := ih (fun i hi hlt => hfirst i hi (by omega)) fun _ => by omega
      refine hbefore.tail (again_await_iff.mpr ⟨rfl, hfirst m hnm (by omega), ?_⟩)
      exact (h.in_time_iff hle hnm (.inl (by omega))).mpr hin

theorem mem_awaitByte_iff (h : bus.Advances k) {accept : UInt8 → Bool} {timeout_ms : UInt32}
    (hle : timeout_ms.toNat ≤ 2 ^ 31) {n n' : ℕ} {r : UInt8} :
    (some r, n') ∈ bus.awaitByte accept timeout_ms n ↔
      ∃ m, bus.Answered accept timeout_ms.toNat n m ∧ r = bus.rx m ∧ n' = m + 1 := by
  unfold Bus.awaitByte
  rw [mem_loop_iff]
  refine exists_congr fun m => ?_
  rw [h.waits_iff hle, end_await_iff]
  constructor
  · rintro ⟨⟨hnm, hfirst, htime⟩, haccept, hr, hn'⟩
    exact ⟨⟨hnm, haccept, hfirst, htime⟩, hr, hn'⟩
  · rintro ⟨hanswered, hr, hn'⟩
    exact ⟨⟨hanswered.le, hanswered.first, hanswered.in_time⟩, hanswered.accepted, hr, hn'⟩

theorem mem_sdWaitToken_iff (h : bus.Advances k) {n n' : ℕ} :
    (0, n') ∈ bus.sdWaitToken 0xFE 50 n ↔
      ∃ m, bus.Answered (· == 0xFE) 50 n m ∧ n' = m + 1 := by
  unfold Bus.sdWaitToken
  simp only [mem_bind_iff, Prod.exists]
  constructor
  · rintro ⟨r, n₁, hr, hmem⟩
    cases r with
    | none => cases (Computation.mem_pure_iff _ _).mp hmem
    | some r =>
      cases (Computation.mem_pure_iff _ _).mp hmem
      obtain ⟨m, hanswered, -, hn'⟩ := (h.mem_awaitByte_iff (by decide)).mp hr
      exact ⟨m, hanswered, hn'⟩
  · rintro ⟨m, hanswered, rfl⟩
    exact ⟨some (bus.rx m), m + 1, (h.mem_awaitByte_iff (by decide)).mpr ⟨m, hanswered, rfl, rfl⟩,
      Computation.ret_mem _⟩

theorem mem_sdCmdR1_iff (h : bus.Advances k) {cmd crc : UInt8} {arg : UInt32} {n n' : ℕ} :
    (0x00, n') ∈ bus.sdCmdR1 cmd arg crc n ↔
      ∃ m, bus.Answered (· &&& 0x80 == 0) 10 (n + 6) m ∧ bus.rx m = 0x00 ∧ n' = m + 1 := by
  unfold Bus.sdCmdR1
  simp only [mem_bind_iff, Prod.exists]
  constructor
  · rintro ⟨r, n₁, hr, hmem⟩
    cases r with
    | none => cases (Computation.mem_pure_iff _ _).mp hmem
    | some r =>
      obtain ⟨m, hanswered, rfl, rfl⟩ := (h.mem_awaitByte_iff (by decide)).mp hr
      obtain ⟨hzero, rfl⟩ := Prod.mk.inj ((Computation.mem_pure_iff _ _).mp hmem)
      exact ⟨m, hanswered, hzero.symm, rfl⟩
  · rintro ⟨m, hanswered, hzero, rfl⟩
    refine ⟨some (bus.rx m), m + 1, (h.mem_awaitByte_iff (by decide)).mpr
      ⟨m, hanswered, rfl, rfl⟩, ?_⟩
    rw [hzero]
    exact Computation.ret_mem _

theorem mem_readBlocks_iff (h : bus.Advances k) {count n : ℕ} {buf : List UInt8} :
    (∃ n', (true, buf, n') ∈ bus.readBlocks count n) ↔
      ∃ blocks, bus.Sends n blocks ∧ blocks.length = count ∧ buf = blocks.flatten := by
  induction count generalizing n buf with
  | zero =>
    constructor
    · rintro ⟨n', hmem⟩
      cases (Computation.mem_pure_iff _ _).mp hmem
      exact ⟨[], .done, rfl, rfl⟩
    · rintro ⟨blocks, -, hlength, rfl⟩
      rw [List.eq_nil_of_length_eq_zero hlength]
      exact ⟨n, Computation.ret_mem _⟩
  | succ count ih =>
    constructor
    · rintro ⟨n', hmem⟩
      obtain ⟨⟨token, n₁⟩, htoken, hmem⟩ := mem_bind_iff.mp hmem
      dsimp only at hmem
      split_ifs at hmem with hnone
      · cases (Computation.mem_pure_iff _ _).mp hmem
      · rw [ne_eq, not_not] at hnone
        subst hnone
        obtain ⟨m, hanswered, rfl⟩ := h.mem_sdWaitToken_iff.mp htoken
        obtain ⟨⟨ok, rest, n₂⟩, hrest, hmem⟩ := mem_bind_iff.mp hmem
        cases (Computation.mem_pure_iff _ _).mp hmem
        obtain ⟨blocks, hsends, hlength, rfl⟩ := ih.mp ⟨_, hrest⟩
        exact ⟨_, .next hanswered hsends, congrArg Nat.succ hlength, rfl⟩
    · rintro ⟨blocks, hsends, hlength, rfl⟩
      cases hsends with
      | done => cases hlength
      | @next _ m blocks hanswered hsends =>
        obtain ⟨n', hrest⟩ := ih.mpr ⟨blocks, hsends, Nat.succ.inj hlength, rfl⟩
        refine ⟨n', mem_bind_iff.mpr
          ⟨(0, m + 1), h.mem_sdWaitToken_iff.mpr ⟨m, hanswered, rfl⟩, ?_⟩⟩
        dsimp only
        rw [if_neg (not_not.mpr rfl)]
        exact mem_bind_iff.mpr ⟨_, hrest, Computation.ret_mem _⟩

theorem mem_sdReadBlockData_iff (h : bus.Advances k) {is_sdhc : Bool} {lba : UInt32} {n : ℕ}
    {buf : List UInt8} : (∃ n', (0, buf, n') ∈ bus.sdReadBlockData is_sdhc lba n) ↔
      ∃ blocks, bus.Accepts n blocks ∧ blocks.length = 1 ∧ buf = blocks.flatten := by
  constructor
  · rintro ⟨n', hmem⟩
    obtain ⟨⟨r, n₁⟩, hr, hmem⟩ := mem_bind_iff.mp hmem
    dsimp only at hmem
    split_ifs at hmem with hrefused
    · cases (Computation.mem_pure_iff _ _).mp hmem
    · rw [ne_eq, not_not] at hrefused
      subst hrefused
      obtain ⟨m, hanswered, hzero, rfl⟩ := h.mem_sdCmdR1_iff.mp hr
      obtain ⟨⟨token, n₂⟩, htoken, hmem⟩ := mem_bind_iff.mp hmem
      dsimp only at hmem
      split_ifs at hmem with hnone
      · cases (Computation.mem_pure_iff _ _).mp hmem
      · rw [ne_eq, not_not] at hnone
        subst hnone
        obtain ⟨m', htaken, rfl⟩ := h.mem_sdWaitToken_iff.mp htoken
        cases (Computation.mem_pure_iff _ _).mp hmem
        exact ⟨_, ⟨m, hanswered, hzero, .next htaken .done⟩, rfl, (List.append_nil _).symm⟩
  · rintro ⟨blocks, ⟨m, hanswered, hzero, hsends⟩, hlength, rfl⟩
    cases hsends with
    | done => cases hlength
    | @next _ m' blocks htaken hsends =>
      obtain rfl : blocks = [] := List.eq_nil_of_length_eq_zero (Nat.succ.inj hlength)
      refine ⟨m' + 1 + 512 + 2 + 1, mem_bind_iff.mpr ⟨(0x00, m + 1),
        h.mem_sdCmdR1_iff.mpr ⟨m, hanswered, hzero, rfl⟩, ?_⟩⟩
      dsimp only
      rw [if_neg (not_not.mpr rfl)]
      refine mem_bind_iff.mpr ⟨(0, m' + 1), h.mem_sdWaitToken_iff.mpr ⟨m', htaken, rfl⟩, ?_⟩
      dsimp only
      rw [if_neg (not_not.mpr rfl), List.flatten_singleton]
      exact Computation.ret_mem _

theorem awaitReady_eq (bus : Bus) (start : ℕ) :
    bus.awaitReady 50 start = bus.await (· == 0xFF) 51 start := by
  funext n
  have hlimit (elapsed : UInt32) : 50 < elapsed ↔ ¬elapsed < 51 := by
    rw [UInt32.lt_iff_toNat_lt, UInt32.lt_iff_toNat_lt]
    exact (Nat.not_lt (a := elapsed.toNat) (b := 51)).symm
  unfold awaitReady await
  simp only [hlimit, ite_not]

theorem sdWaitReady (h : bus.Advances k) (n : ℕ) : (bus.sdWaitReady 50 n).Terminates := by
  unfold Bus.sdWaitReady
  rw [awaitReady_eq]
  have hwait : (bus.awaitByte (· == 0xFF) 51 n).Terminates :=
    h.awaitByte _ (by decide) (by decide) n
  exact terminates_bind_of hwait fun _ _ => Computation.ret_terminates _

theorem sdSendCmd12 (h : bus.Advances k) (n : ℕ) : (bus.sdSendCmd12 n).Terminates := by
  refine terminates_bind_of (h.awaitByte _ (by decide) (by decide) _) fun a _ => ?_
  refine terminates_bind_of (h.sdWaitReady _) fun b _ => ?_
  dsimp only
  split_ifs <;> exact Computation.ret_terminates _

theorem sdReadBlockData (h : bus.Advances k) (is_sdhc : Bool) (lba : UInt32) (n : ℕ) :
    (bus.sdReadBlockData is_sdhc lba n).Terminates := by
  refine terminates_bind_of (h.sdCmdR1 _ _ _ n) fun a _ => ?_
  dsimp only
  split_ifs
  · exact Computation.ret_terminates _
  · refine terminates_bind_of (h.sdWaitToken _ _) fun b _ => ?_
    split_ifs <;> exact Computation.ret_terminates _

theorem readBlocks (h : bus.Advances k) (count n : ℕ) : (bus.readBlocks count n).Terminates := by
  induction count generalizing n with
  | zero => exact Computation.ret_terminates _
  | succ count ih =>
    refine terminates_bind_of (h.sdWaitToken _ _) fun a _ => ?_
    dsimp only
    split_ifs
    · exact Computation.ret_terminates _
    · exact terminates_bind_of (ih _) fun _ _ => Computation.ret_terminates _

theorem sdReadMulti (h : bus.Advances k) (is_sdhc : Bool) (lba : UInt32) (count n : ℕ) :
    (bus.sdReadMulti is_sdhc lba count n).Terminates := by
  unfold Bus.sdReadMulti
  split_ifs
  · exact h.sdReadBlockData _ _ _
  · refine terminates_bind_of (h.sdCmdR1 _ _ _ _) fun a _ => ?_
    dsimp only
    split_ifs
    · exact Computation.ret_terminates _
    · exact terminates_bind_of (h.readBlocks _ _) fun b _ =>
        terminates_bind_of (h.sdSendCmd12 _) fun _ _ => Computation.ret_terminates _

theorem mem_sdReadMulti_iff (h : bus.Advances k) {is_sdhc : Bool} {lba : UInt32} {count n : ℕ}
    {buf : List UInt8} : (∃ n', (0, buf, n') ∈ bus.sdReadMulti is_sdhc lba count n) ↔
      ∃ blocks, bus.Accepts n blocks ∧ blocks.length = sectorsRead count ∧
        buf = blocks.flatten := by
  unfold Bus.sdReadMulti sectorsRead
  split_ifs with hcount
  · exact h.mem_sdReadBlockData_iff
  constructor
  · rintro ⟨n', hmem⟩
    obtain ⟨⟨r, n₁⟩, hr, hmem⟩ := mem_bind_iff.mp hmem
    dsimp only at hmem
    split_ifs at hmem with hrefused
    · cases (Computation.mem_pure_iff _ _).mp hmem
    · rw [ne_eq, not_not] at hrefused
      subst hrefused
      obtain ⟨m, hanswered, hzero, rfl⟩ := h.mem_sdCmdR1_iff.mp hr
      obtain ⟨⟨ok, buf', n₂⟩, hblocks, hmem⟩ := mem_bind_iff.mp hmem
      obtain ⟨stop, -, hmem⟩ := mem_bind_iff.mp hmem
      cases ok with
      | false => cases (Computation.mem_pure_iff _ _).mp hmem
      | true =>
        cases (Computation.mem_pure_iff _ _).mp hmem
        obtain ⟨blocks, hsends, hlength, hbuf⟩ := h.mem_readBlocks_iff.mp ⟨_, hblocks⟩
        exact ⟨blocks, ⟨m, hanswered, hzero, hsends⟩, hlength, hbuf⟩
  · rintro ⟨blocks, ⟨m, hanswered, hzero, hsends⟩, hlength, hbuf⟩
    obtain ⟨n₂, hblocks⟩ := h.mem_readBlocks_iff.mpr ⟨blocks, hsends, hlength, hbuf⟩
    obtain ⟨stop, hstop⟩ := (Computation.terminates_iff _).mp (h.sdSendCmd12 n₂)
    refine ⟨stop.2 + 1, mem_bind_iff.mpr ⟨(0x00, m + 1),
      h.mem_sdCmdR1_iff.mpr ⟨m, hanswered, hzero, rfl⟩, ?_⟩⟩
    dsimp only
    rw [if_neg (not_not.mpr rfl)]
    exact mem_bind_iff.mpr ⟨_, hblocks, mem_bind_iff.mpr ⟨stop, hstop, Computation.ret_mem _⟩⟩

/-- Also without all of its tokens a read stores blocks that the card sends. -/
theorem sends_of_mem_readBlocks (h : bus.Advances k) {count n n' : ℕ} {ok : Bool}
    {buf : List UInt8} (hmem : (ok, buf, n') ∈ bus.readBlocks count n) :
    ∃ blocks, bus.Sends n blocks ∧ (ok = false → blocks.length < count) ∧
      buf = blocks.flatten := by
  induction count generalizing n n' ok buf with
  | zero =>
    cases (Computation.mem_pure_iff _ _).mp hmem
    exact ⟨[], .done, fun hfail => Bool.noConfusion hfail, rfl⟩
  | succ count ih =>
    obtain ⟨⟨token, n₁⟩, htoken, hmem⟩ := mem_bind_iff.mp hmem
    dsimp only at hmem
    split_ifs at hmem with hnone
    · cases (Computation.mem_pure_iff _ _).mp hmem
      exact ⟨[], .done, fun _ => Nat.succ_pos _, rfl⟩
    · rw [ne_eq, not_not] at hnone
      subst hnone
      obtain ⟨m, hanswered, rfl⟩ := h.mem_sdWaitToken_iff.mp htoken
      obtain ⟨⟨ok', rest, n₂⟩, hrest, hmem⟩ := mem_bind_iff.mp hmem
      cases (Computation.mem_pure_iff _ _).mp hmem
      obtain ⟨blocks, hsends, hless, rfl⟩ := ih hrest
      exact ⟨_, .next hanswered hsends, fun hfail => Nat.succ_lt_succ (hless hfail), rfl⟩

theorem buf_of_mem_sdReadBlockData {is_sdhc : Bool} {lba : UInt32} {n n' : ℕ} {r : ℤ}
    {buf : List UInt8} (hr : r ≠ 0) (hmem : (r, buf, n') ∈ bus.sdReadBlockData is_sdhc lba n) :
    buf = [] := by
  obtain ⟨a, -, hmem⟩ := mem_bind_iff.mp hmem
  dsimp only at hmem
  split_ifs at hmem
  · cases (Computation.mem_pure_iff _ _).mp hmem
    rfl
  · obtain ⟨b, -, hmem⟩ := mem_bind_iff.mp hmem
    split_ifs at hmem
    · cases (Computation.mem_pure_iff _ _).mp hmem
      rfl
    · cases (Computation.mem_pure_iff _ _).mp hmem
      exact absurd rfl hr

/-- A read of several blocks that fails has stored fewer, the first that the card sends. -/
theorem blocks_of_mem_sdReadMulti (h : bus.Advances k) {is_sdhc : Bool} {lba : UInt32}
    {count n n' : ℕ} {r : ℤ} {buf : List UInt8} (hr : r ≠ 0)
    (hmem : (r, buf, n') ∈ bus.sdReadMulti is_sdhc lba count n) :
    ∃ blocks, buf = blocks.flatten ∧ blocks.length < sectorsRead count ∧
      (blocks = [] ∨ bus.Accepts n blocks) := by
  unfold Bus.sdReadMulti at hmem
  split_ifs at hmem with hcount
  · refine ⟨[], buf_of_mem_sdReadBlockData hr hmem, ?_, .inl rfl⟩
    rw [sectorsRead, if_pos hcount]
    exact Nat.one_pos
  rw [sectorsRead, if_neg hcount]
  obtain ⟨⟨r', n₁⟩, hr', hmem⟩ := mem_bind_iff.mp hmem
  dsimp only at hmem
  split_ifs at hmem with hrefused
  · cases (Computation.mem_pure_iff _ _).mp hmem
    exact ⟨[], rfl, by rw [List.length_nil]; omega, .inl rfl⟩
  · rw [ne_eq, not_not] at hrefused
    subst hrefused
    obtain ⟨m, hanswered, hzero, rfl⟩ := h.mem_sdCmdR1_iff.mp hr'
    obtain ⟨⟨ok, buf', n₂⟩, hblocks, hmem⟩ := mem_bind_iff.mp hmem
    obtain ⟨stop, -, hmem⟩ := mem_bind_iff.mp hmem
    cases ok with
    | true =>
      cases (Computation.mem_pure_iff _ _).mp hmem
      exact absurd rfl hr
    | false =>
      cases (Computation.mem_pure_iff _ _).mp hmem
      obtain ⟨blocks, hsends, hless, hbuf⟩ := h.sends_of_mem_readBlocks hblocks
      exact ⟨blocks, hbuf, hless rfl, .inr ⟨m, hanswered, hzero, hsends⟩⟩

end Advances

theorem userRead_zero (bus : Bus) (is_sdhc : Bool) (sector : UInt32) (count n : ℕ) :
    bus.userRead 0 is_sdhc sector count n = (bus.sdReadMulti is_sdhc sector count n).bind
      fun a => Computation.pure (if a.1 = 0 then .resOk else .resError, a.2.1) := by
  rw [userRead, if_neg (not_not.mpr rfl)]
  dsimp only
  split_ifs with hcount
  · rfl
  · rw [Bus.sdReadMulti, if_pos (not_lt.mp hcount)]
    rfl

theorem userRead_of_ne (bus : Bus) {pdrv : UInt8} (hne : pdrv ≠ 0) (is_sdhc : Bool)
    (sector : UInt32) (count n : ℕ) :
    bus.userRead pdrv is_sdhc sector count n = Computation.pure (.resParerr, []) := by
  rw [userRead, if_pos hne]
  rfl

theorem sectorsRead_pos (count : ℕ) : 0 < sectorsRead count := by
  unfold sectorsRead
  split_ifs <;> omega

/-- `USER_read` returns. It has read the sectors exactly when the card accepts the command and sends
them all in time, and otherwise it has stored fewer, the first that the card sends. -/
theorem userRead_law (h : bus.Advances k) (pdrv : UInt8) (is_sdhc : Bool) (sector : UInt32)
    (count n : ℕ) :
    (bus.userRead pdrv is_sdhc sector count n).Terminates ∧
      (∀ buff, (.resOk, buff) ∈ bus.userRead pdrv is_sdhc sector count n ↔
        pdrv = 0 ∧ ∃ blocks, bus.Accepts n blocks ∧ blocks.length = sectorsRead count ∧
          buff = blocks.flatten) ∧
      ∀ r buff, r ≠ .resOk → (r, buff) ∈ bus.userRead pdrv is_sdhc sector count n →
        ∃ blocks, buff = blocks.flatten ∧ blocks.length < sectorsRead count ∧
          (blocks = [] ∨ bus.Accepts n blocks) := by
  by_cases hpdrv : pdrv = 0
  · subst hpdrv
    rw [userRead_zero]
    refine ⟨terminates_bind_of (h.sdReadMulti _ _ _ _) fun _ _ => Computation.ret_terminates _,
      fun buff => ?_, fun r buff hr hmem => ?_⟩
    · rw [eq_self_iff_true, true_and, ← @Advances.mem_sdReadMulti_iff _ _ h is_sdhc sector]
      constructor
      · intro hmem
        obtain ⟨⟨ret, buf, n'⟩, hret, hmem⟩ := mem_bind_iff.mp hmem
        obtain ⟨hok, rfl⟩ := Prod.mk.inj ((Computation.mem_pure_iff _ _).mp hmem)
        split_ifs at hok with hzero
        subst hzero
        exact ⟨n', hret⟩
      · rintro ⟨n', hret⟩
        exact mem_bind_iff.mpr ⟨_, hret, Computation.ret_mem _⟩
    · obtain ⟨⟨ret, buf, n'⟩, hret, hmem⟩ := mem_bind_iff.mp hmem
      obtain ⟨rfl, rfl⟩ := Prod.mk.inj ((Computation.mem_pure_iff _ _).mp hmem)
      refine h.blocks_of_mem_sdReadMulti (fun hzero => hr ?_) hret
      rw [if_pos hzero]
  · rw [userRead_of_ne bus hpdrv]
    refine ⟨Computation.ret_terminates _, fun buff => iff_of_false (fun hmem => ?_) fun hread =>
      hpdrv hread.1, fun r buff _ hmem => ?_⟩
    · cases (Computation.mem_pure_iff _ _).mp hmem
    · cases (Computation.mem_pure_iff _ _).mp hmem
      exact ⟨[], rfl, sectorsRead_pos count, .inl rfl⟩

end Bus

open Bus

/-- A card that accepts the command at once and then shifts out nothing but tokens. -/
def tokenCard : Bus := ⟨fun n => if n = 6 then 0x00 else 0xFE, id⟩

theorem advances_tokenCard : tokenCard.Advances 1 :=
  ⟨Nat.le_succ, fun _ => le_rfl, fun n => by simp [tokenCard]⟩

theorem answered_tokenCard {n : ℕ} (hn : 7 ≤ n) : tokenCard.Answered (· == 0xFE) 50 n n := by
  refine ⟨le_rfl, ?_, fun i hi hlt => by omega, fun hlt => by omega⟩
  simp only [tokenCard, if_neg (show ¬n = 6 by omega)]
  rfl

theorem accepts_tokenCard :
    tokenCard.Accepts 0 [tokenCard.block 8, tokenCard.block (8 + 512 + 2 + 1)] :=
  ⟨6, ⟨le_rfl, rfl, fun i hi hlt => by omega, fun hlt => by omega⟩, rfl,
    .next (answered_tokenCard (by decide)) (.next (answered_tokenCard (by decide)) .done)⟩

theorem userRead_tokenCard :
    (.resOk, [tokenCard.block 8, tokenCard.block (8 + 512 + 2 + 1)].flatten) ∈
      tokenCard.userRead 0 true 0 2 0 :=
  ((userRead_law advances_tokenCard 0 true 0 2 0).2.1 _).mpr
    ⟨rfl, _, accepts_tokenCard, rfl, rfl⟩

end JeogiAt.SdCard
