import JeogiAt.ClientSoundness

/-!
# How long the client's buffer gets

The guard after the loop cuts a long buffer once, to the next magic, and what remains can be too
long still. `Overflows` is exactly when: the first packet of admissible sizes is incomplete, and a
magic after its own begins more than the bound before the end. A read keeps the bound if and only
if the buffer with what it appends does not overflow in this sense.
-/

namespace JeogiAt.NetworkClient

open CamProtocol

/-- At `p` stands the first header of admissible sizes, its packet is incomplete, and the magic
at `q` after it begins more than the bound before the end. -/
structure OverflowsAt (buffer : List UInt8) (p q : ℕ) : Prop where
  magic : OccursAt magicPattern buffer p
  header_le : p + 16 ≤ buffer.length
  normal : ¬ Abnormal (PacketHeader.ofBytes (buffer.drop p))
  incomplete : buffer.length < p + (PacketHeader.ofBytes (buffer.drop p)).size
  first : ∀ m < p, OccursAt magicPattern buffer m → Abnormal (PacketHeader.ofBytes (buffer.drop m))
  later : p + 4 ≤ q
  nextMagic : OccursAt magicPattern buffer q
  long : q + maxBuffer < buffer.length

def Overflows (buffer : List UInt8) : Prop := ∃ p q, OverflowsAt buffer p q

theorem overflowGuard_long_iff (buffer : List UInt8) :
    maxBuffer < (overflowGuard buffer).length ↔
      ∃ q, 4 ≤ q ∧ OccursAt magicPattern buffer q ∧ q + maxBuffer < buffer.length := by
  unfold overflowGuard indexOfFrom
  constructor
  · intro h
    split_ifs at h with hlong
    · cases hidx : indexOf magicPattern (buffer.drop 4) with
      | none => simp [hidx] at h
      | some n =>
        obtain ⟨hat, -⟩ := (indexOf_eq_some_iff magicPattern_ne_nil).mp hidx
        simp only [hidx, Option.map_some, Nat.add_pos_left (Nat.zero_lt_succ 3), if_true,
          List.length_drop] at h
        exact ⟨4 + n, Nat.le_add_right 4 n, occursAt_drop.mp hat, by omega⟩
    · exact absurd h hlong
  · rintro ⟨q, hq, hat, hlong⟩
    have hocc : OccursAt magicPattern (buffer.drop 4) (q - 4) := by
      rwa [occursAt_drop, Nat.add_sub_cancel' hq]
    rw [if_pos (by omega)]
    cases hidx : indexOf magicPattern (buffer.drop 4) with
    | none =>
      exact absurd (infix_iff_occursAt.mpr ⟨_, hocc⟩) (indexOf_eq_none_iff.mp hidx)
    | some n =>
      obtain ⟨-, hmin⟩ := (indexOf_eq_some_iff magicPattern_ne_nil).mp hidx
      have hle : n ≤ q - 4 := by
        by_contra hlt
        exact hmin _ (by omega) hocc
      simp only [Option.map_some, Nat.add_pos_left (Nat.zero_lt_succ 3), if_true, List.length_drop]
      omega

/-- Where a buffer overflows is counted from the bytes that are skipped, if only abnormal headers
stand among them. -/
theorem overflowsAt_drop {buffer : List UInt8} {n : ℕ}
    (hskip : ∀ m < n, OccursAt magicPattern buffer m →
      Abnormal (PacketHeader.ofBytes (buffer.drop m))) {p q : ℕ} :
    OverflowsAt (buffer.drop n) p q ↔ OverflowsAt buffer (n + p) (n + q) := by
  constructor
  · rintro ⟨hmagic, hheader, hnormal, hincomplete, hfirst, hlater, hnext, hlong⟩
    rw [List.length_drop] at hheader hincomplete hlong
    rw [List.drop_drop] at hnormal hincomplete
    refine ⟨occursAt_drop.mp hmagic, by omega, hnormal, by omega, ?_, by omega,
      occursAt_drop.mp hnext, by omega⟩
    intro m hm hat
    by_cases hmn : m < n
    · exact hskip m hmn hat
    · have hshift := hfirst (m - n) (by omega)
      rw [occursAt_drop, List.drop_drop, Nat.add_sub_cancel' (by omega)] at hshift
      exact hshift hat
  · rintro ⟨hmagic, hheader, hnormal, hincomplete, hfirst, hlater, hnext, hlong⟩
    have hlength : (buffer.drop n).length = buffer.length - n := List.length_drop
    refine ⟨occursAt_drop.mpr hmagic, by omega, ?_, ?_, ?_, by omega,
      occursAt_drop.mpr hnext, by omega⟩
    · rwa [List.drop_drop]
    · rw [List.drop_drop]
      omega
    · intro m hm hat
      rw [List.drop_drop]
      exact hfirst (n + m) (by omega) (occursAt_drop.mp hat)

theorem overflows_drop {buffer : List UInt8} {n : ℕ}
    (hskip : ∀ m < n, OccursAt magicPattern buffer m →
      Abnormal (PacketHeader.ofBytes (buffer.drop m))) :
    Overflows buffer ↔ Overflows (buffer.drop n) := by
  constructor
  · rintro ⟨p, q, h⟩
    have hp : n ≤ p := by
      by_contra hlt
      exact h.normal (hskip p (by omega) h.magic)
    have hq : n ≤ q := by
      have := h.later
      omega
    refine ⟨p - n, q - n, (overflowsAt_drop hskip).mpr ?_⟩
    rwa [Nat.add_sub_cancel' hp, Nat.add_sub_cancel' hq]
  · rintro ⟨p, q, h⟩
    exact ⟨n + p, n + q, (overflowsAt_drop hskip).mp h⟩

theorem OverflowsAt.eq_zero {buffer : List UInt8} {p q : ℕ} (h : OverflowsAt buffer p q)
    (hmagic : magicPattern <+: buffer) (hnorm : ¬ Abnormal (PacketHeader.ofBytes buffer)) :
    p = 0 := by
  by_contra hp
  exact hnorm (h.first 0 (Nat.pos_of_ne_zero hp) hmagic)

theorem parse_long_iff (buffer : List UInt8) :
    maxBuffer < (overflowGuard (parse buffer).1).length ↔ Overflows buffer := by
  induction buffer using parse.induct with
  | case1 buffer rest h =>
    rw [parse_stop h, overflowGuard_long_iff]
    have hit := iterates buffer
    rw [h] at hit
    have hshort : buffer.length < 16 →
        ((∃ q, 4 ≤ q ∧ OccursAt magicPattern buffer q ∧ q + maxBuffer < buffer.length) ↔
          Overflows buffer) := by
      intro hlen
      apply iff_of_false
      · rintro ⟨q, -, -, hlong⟩
        have := maxBuffer_eq
        omega
      · rintro ⟨p, q, ho⟩
        have := ho.header_le
        omega
    cases hit with
    | short hlen => exact hshort (by omega)
    | shortHeader _ hlen => exact hshort hlen
    | noMagic _ hno =>
      apply iff_of_false
      · rintro ⟨q, -, -, hlong⟩
        rw [List.length_nil] at hlong
        omega
      · rintro ⟨p, q, ho⟩
        exact hno (infix_iff_occursAt.mpr ⟨p, ho.magic⟩)
    | incomplete hmagic hlen hnorm hlt =>
      constructor
      · rintro ⟨q, hq, hat, hlong⟩
        refine ⟨0, q, hmagic, by omega, hnorm, ?_, ?_, by omega, hat, hlong⟩
        · rw [Nat.zero_add]
          exact hlt
        · intro m hm
          exact absurd hm (Nat.not_lt_zero m)
      · rintro ⟨p, q, ho⟩
        have hp := ho.eq_zero hmagic hnorm
        have := ho.later
        exact ⟨q, by omega, ho.nextMagic, ho.long⟩
  | case2 buffer rest delivered h ih =>
    rw [parse_again h]
    dsimp only
    have hit := iterates buffer
    rw [h] at hit
    cases hit with
    | skip n _ _ hmin =>
      rw [ih]
      exact (overflows_drop fun m hm hat => absurd hat (hmin m hm)).symm
    | abnormal hmagic _ habn =>
      rw [ih]
      refine (overflows_drop fun m hm hat => ?_).symm
      by_cases hzero : m = 0
      · subst m
        exact habn
      · have := borderless_magicPattern.not_overlap (m := 0) hmagic hat (Nat.pos_of_ne_zero hzero)
        rw [length_magicPattern] at this
        omega
    | deliver rest hmagic hnorm hle hrest =>
      have hlen : rest.length ≤ maxBuffer := by
        rw [hrest]
        split_ifs with hover
        · exact Nat.zero_le _
        · rw [List.length_drop]
          omega
      have hbound := length_parse_le rest
      apply iff_of_false
      · rw [overflowGuard_long_iff]
        rintro ⟨q, -, -, hlong⟩
        omega
      · rintro ⟨p, q, ho⟩
        have hp := ho.eq_zero hmagic hnorm
        have := ho.incomplete
        rw [hp, Nat.zero_add, List.drop_zero] at this
        omega

/-- After the reads the buffer is a suffix of what was received, and the packets delivered stand in
it in order, each from a magic whose header has the delivered camera and sizes. -/
def Sound (past : List (List UInt8)) : Prop :=
  reader.run [] past <:+ past.flatten ∧
    Ranges past.flatten 0 (delivered [] past) past.flatten.length

theorem sound (past : List (List UInt8)) : Sound past := by
  obtain ⟨stop, hstop, hrun, hranges⟩ := run_sound [] past
  rw [List.nil_append] at hstop hrun hranges
  rw [Sound, hrun]
  exact ⟨List.drop_suffix _ _, hranges.mono_stop hstop⟩

/-- Every call ends, for each further pass works on a shorter buffer. In every run from the empty
buffer the client is sound and keeps its buffer within the bound throughout, exactly when no read
makes the buffer overflow. -/
theorem reader_sound_iff (reads : List (List UInt8)) :
    (∀ buffer rest delivered, iteration buffer = .again rest delivered →
        rest.length < buffer.length) ∧
      ((∀ past, past <+: reads → Sound past ∧ (reader.run [] past).length ≤ maxBuffer) ↔
        reader.Along (fun buffer newData => ¬ Overflows (buffer ++ newData)) [] reads) := by
  refine ⟨fun _ _ _ => length_again, ?_⟩
  apply Machine.prefixes_iff_along
    (I := fun past => Sound past ∧ (reader.run [] past).length ≤ maxBuffer)
  · exact ⟨sound [], Nat.zero_le _⟩
  · intro past newData _ _
    rw [Machine.run_concat, next_reader, ← parse_long_iff, Nat.not_lt]
    exact and_iff_right (sound _)

/-- A header that announces eleven megabytes, a second magic, and some more bytes. -/
def oversized (tail : List UInt8) : List UInt8 :=
  (PacketHeader.mk magicCookie 1 1000000 10000000).bytes ++ (magicPattern ++ tail)

theorem oversized_overflows {tail : List UInt8} (h : tail.length = maxBuffer) :
    OverflowsAt (oversized tail) 0 16 := by
  have hmax := maxBuffer_eq
  have hlen : (oversized tail).length = 20 + maxBuffer := by
    rw [oversized, List.length_append, List.length_append, PacketHeader.length_bytes,
      length_magicPattern, h]
    omega
  have hheader : PacketHeader.ofBytes (oversized tail) = ⟨magicCookie, 1, 1000000, 10000000⟩ := by
    rw [oversized, PacketHeader.ofBytes_append (PacketHeader.length_bytes _).ge,
      PacketHeader.ofBytes_bytes]
  have hsize : (PacketHeader.mk magicCookie 1 1000000 10000000).size = 11000016 := rfl
  refine ⟨?_, by omega, ?_, ?_, nofun, by omega, ?_, by omega⟩
  · rw [OccursAt, List.drop_zero, oversized, PacketHeader.bytes, htonl_magicCookie]
    simp only [List.append_assoc]
    exact List.prefix_append _ _
  · rw [List.drop_zero, hheader]
    decide
  · rw [List.drop_zero, hheader, hlen, hsize]
    omega
  · rw [OccursAt, oversized, List.drop_left' (PacketHeader.length_bytes _)]
    exact List.prefix_append _ _

theorem oversized_kept :
    ¬ ∀ reads past : List (List UInt8), past <+: reads →
      Sound past ∧ (reader.run [] past).length ≤ maxBuffer := by
  intro hall
  obtain ⟨tail, htail⟩ : ∃ tail : List UInt8, tail.length = maxBuffer :=
    ⟨List.replicate maxBuffer 0, List.length_replicate⟩
  obtain ⟨-, hle⟩ := hall [oversized tail] _ List.prefix_rfl
  have hlong := (parse_long_iff _).mpr ⟨0, 16, oversized_overflows htail⟩
  rw [Machine.run_cons, Machine.run_nil, next_reader, List.nil_append] at hle
  omega

end JeogiAt.NetworkClient
