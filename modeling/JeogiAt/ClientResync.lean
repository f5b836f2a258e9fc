import JeogiAt.ClientStream

/-!
# Finding the first packet after junk

Bytes without a magic are cleared as soon as four of them are in the buffer, wherever the read
ended. If it ended inside the first packet's magic, the beginning of the magic goes with the junk
and the packet is lost. `kept` counts the bytes that the buffer holds while no magic has come.
-/

namespace JeogiAt.NetworkClient

open CamProtocol Server

/-- How many bytes the buffer holds after reads without a magic, `n` before them. -/
def kept (n : ℕ) : List (List UInt8) → ℕ
  | [] => n
  | newData :: reads => kept (if n + newData.length < 4 then n + newData.length else 0) reads

/-- The reads follow `n` bytes in the buffer, and a magic comes after `junk` bytes. Whenever what
has been received ends inside it, the buffer has just been left with bytes in it. -/
def KeepsMagic (junk n : ℕ) (reads : List (List UInt8)) : Prop :=
  ∀ past, past <+: reads → junk < n + past.flatten.length → n + past.flatten.length < junk + 4 →
    kept n past ≠ 0

variable {buffer newData junk : List UInt8} {reads : List (List UInt8)} {ps : List CameraPacket}

theorem parse_short (h : buffer.length < 4) : parse buffer = (buffer, []) := by
  apply parse_stop
  rw [iteration, if_pos h]

theorem parse_noMagic (h4 : 4 ≤ buffer.length) (hno : ¬ magicPattern <:+: buffer) :
    parse buffer = ([], []) := by
  apply parse_stop
  rw [iteration, if_neg (Nat.not_lt.mpr h4), indexOf_eq_none_iff.mpr hno]

theorem parse_junk (hjunk : ¬ magicPattern <:+: junk) (hmagic : magicPattern <+: buffer) :
    parse (junk ++ buffer) = parse buffer := by
  by_cases hnil : junk = []
  · rw [hnil, List.nil_append]
  · have hpos : 0 < junk.length := List.length_pos_iff.mpr hnil
    have h4 := hmagic.length_le
    rw [length_magicPattern] at h4
    have hidx := borderless_magicPattern.indexOf_junk magicPattern_ne_nil hjunk hmagic
    have hiter : iteration (junk ++ buffer) = .again buffer none := by
      have hlen : ¬ (junk ++ buffer).length < 4 := by
        rw [List.length_append]
        omega
      rw [iteration, if_neg hlen, hidx]
      dsimp only
      rw [if_pos hpos, List.drop_left]
    rw [parse_again hiter]
    rfl

theorem magicPattern_encodeAll (h : ps ≠ []) : magicPattern <+: encodeAll ps := by
  cases ps with
  | nil => exact absurd rfl h
  | cons p ps => exact p.magicPattern_prefix.trans (List.prefix_append _ _)

theorem keepsMagic_cons {m n : ℕ} :
    KeepsMagic m n (newData :: reads) ↔
      ∀ past, past <+: reads → m < n + newData.length + past.flatten.length →
        n + newData.length + past.flatten.length < m + 4 →
          kept (if n + newData.length < 4 then n + newData.length else 0) past ≠ 0 := by
  -- before the first read the buffer holds all it has received
  have hnow : m < n + ([] : List (List UInt8)).flatten.length →
      n + ([] : List (List UInt8)).flatten.length < m + 4 → kept n [] ≠ 0 :=
    fun hlt _ => Nat.ne_of_gt ((Nat.zero_le m).trans_lt hlt)
  rw [KeepsMagic, forall_prefix_cons, and_iff_right hnow]
  simp only [List.flatten_cons, List.length_append, ← Nat.add_assoc, kept]

theorem keepsMagic_held {m n : ℕ} (h : n + newData.length < 4) :
    KeepsMagic m n (newData :: reads) ↔ KeepsMagic m (n + newData.length) reads := by
  rw [keepsMagic_cons, if_pos h]
  rfl

theorem keepsMagic_cleared {m n : ℕ} (h : 4 ≤ n + newData.length) (hle : n + newData.length ≤ m) :
    KeepsMagic m n (newData :: reads) ↔ KeepsMagic (m - (n + newData.length)) 0 reads := by
  rw [keepsMagic_cons, if_neg (Nat.not_lt.mpr h)]
  apply forall_congr'
  intro past
  apply imp_congr_right
  intro _
  have hlt : m < n + newData.length + past.flatten.length ↔
      m - (n + newData.length) < 0 + past.flatten.length := by omega
  have hgt : n + newData.length + past.flatten.length < m + 4 ↔
      0 + past.flatten.length < m - (n + newData.length) + 4 := by omega
  rw [hlt, hgt]

theorem not_keepsMagic {m n : ℕ} (h : 4 ≤ n + newData.length) (hlt : m < n + newData.length)
    (hgt : n + newData.length < m + 4) : ¬ KeepsMagic m n (newData :: reads) := by
  rw [keepsMagic_cons, if_neg (Nat.not_lt.mpr h)]
  intro hkeeps
  exact hkeeps [] List.nil_prefix hlt hgt rfl

theorem keepsMagic_passed {m n : ℕ} (h : m + 4 ≤ n + newData.length) :
    KeepsMagic m n (newData :: reads) := by
  rw [keepsMagic_cons]
  intro past _ _ hgt
  omega

/-- Once the whole magic is there the junk is dropped, and the packets that follow are delivered. -/
theorem output_passed {bytes : List UInt8} (hjunk : ¬ magicPattern <:+: junk)
    (hmagic : magicPattern <+: encodeAll ps)
    (hstream : bytes ++ reads.flatten = junk ++ encodeAll ps) (hle : bytes.length ≤ maxBuffer)
    (hrest : Bounded (parse bytes).1 reads) (hpassed : junk.length + 4 ≤ bytes.length) :
    (parse bytes).2 ++ delivered (parse bytes).1 reads = ps.map delivery := by
  have hbegin : bytes <+: junk ++ encodeAll ps := hstream ▸ List.prefix_append _ _
  obtain ⟨rest, rfl⟩ := List.prefix_of_prefix_length_le (List.prefix_append junk _) hbegin
    (by omega)
  rw [List.length_append] at hle hpassed
  rw [List.append_assoc, List.append_cancel_left_eq] at hstream
  have hrestBegin : rest <+: encodeAll ps := hstream ▸ List.prefix_append _ _
  have hrestMagic : magicPattern <+: rest :=
    List.prefix_of_prefix_length_le hmagic hrestBegin (by rw [length_magicPattern]; omega)
  rw [parse_junk hjunk hrestMagic] at hrest ⊢
  obtain ⟨sent, todo, rfl, hrestSent, hpending, hsent⟩ := parse_stream hrestBegin (by omega)
  rw [hrestSent, encodeAll_append, List.append_assoc, List.append_cancel_left_eq] at hstream
  have hrun := run_packets reads hpending hstream hrest
  rw [hsent, hrun.1, List.map_append]

/-- From a buffer of junk, and perhaps the beginning of the first magic, the packets that follow
are all delivered if and only if no read clears the beginning of that magic. -/
theorem run_junk (reads : List (List UInt8)) (hjunk : ¬ magicPattern <:+: junk) (hps : ps ≠ [])
    (hshort : buffer.length < 4) (hstream : buffer ++ reads.flatten = junk ++ encodeAll ps)
    (hbound : Bounded buffer reads) :
    delivered buffer reads = ps.map delivery ↔
      KeepsMagic junk.length buffer.length reads := by
  have hmagic := magicPattern_encodeAll hps
  induction reads generalizing buffer junk with
  | nil =>
    have hlen := congrArg List.length hstream
    have h4 := hmagic.length_le
    rw [List.flatten_nil, List.append_nil, List.length_append] at hlen
    rw [length_magicPattern] at h4
    omega
  | cons newData reads ih =>
    obtain ⟨hle, hrest⟩ := hbound
    rw [List.flatten_cons, ← List.append_assoc] at hstream
    have hlength := congrArg List.length hstream
    have hb : (buffer ++ newData).length = buffer.length + newData.length := List.length_append
    rw [List.length_append, hb, List.length_append] at hlength
    have hbegin : buffer ++ newData <+: junk ++ encodeAll ps := hstream ▸ List.prefix_append _ _
    have hguard : overflowGuard (parse (buffer ++ newData)).1 = (parse (buffer ++ newData)).1 :=
      overflowGuard_short ((length_parse_le _).trans hle)
    rw [delivered_cons, output_reader, next_reader, hguard]
    rw [next_reader, hguard] at hrest
    by_cases hpassed : junk.length + 4 ≤ buffer.length + newData.length
    · apply iff_of_true
      · exact output_passed hjunk hmagic hstream hle hrest (hb.symm ▸ hpassed)
      · exact keepsMagic_passed hpassed
    by_cases hheld : buffer.length + newData.length < 4
    · rw [parse_short (hb.trans_lt hheld)] at hrest ⊢
      rw [keepsMagic_held hheld, List.nil_append, ← hb]
      exact ih hjunk (hb.trans_lt hheld) hstream hrest
    -- the buffer is cleared
    have h4 := Nat.not_lt.mp hheld
    have hno : ¬ magicPattern <:+: buffer ++ newData := by
      apply borderless_magicPattern.not_infix_junk magicPattern_ne_nil hjunk hmagic hbegin
      rw [hb, length_magicPattern]
      omega
    rw [parse_noMagic (hb.symm ▸ h4) hno] at hrest ⊢
    by_cases hbefore : buffer.length + newData.length ≤ junk.length
    · obtain ⟨more, hmore⟩ := List.prefix_of_prefix_length_le hbegin (List.prefix_append junk _)
        (by omega)
      have hmoreJunk : ¬ magicPattern <:+: more := by
        intro h
        apply hjunk
        rw [← hmore]
        exact h.trans (List.suffix_append _ _).isInfix
      have hmoreLen : more.length = junk.length - (buffer.length + newData.length) := by
        rw [← hmore, List.length_append]
        omega
      rw [← hmore, List.append_assoc (buffer ++ newData) more,
        List.append_cancel_left_eq] at hstream
      rw [keepsMagic_cleared h4 hbefore, List.nil_append, ← hmoreLen]
      exact ih hmoreJunk (Nat.zero_lt_succ 3) hstream hrest
    · -- with the beginning of the magic
      apply iff_of_false
      · apply not_delivered_of_lt
        rw [List.length_nil]
        omega
      · exact not_keepsMagic h4 (Nat.not_le.mp hbefore) (Nat.not_le.mp hpassed)

theorem delivered_junk {reads : List (List UInt8)} (h : ¬ magicPattern <:+: reads.flatten) :
    delivered [] reads = [] := by
  obtain ⟨stop, -, -, hranges⟩ := run_sound [] reads
  rw [List.nil_append] at hranges
  cases hd : delivered [] reads with
  | nil => rfl
  | cons d ds =>
    rw [hd] at hranges
    obtain ⟨p, -, hat, -⟩ := hranges
    exact absurd (infix_iff_occursAt.mpr ⟨p, hat.magic⟩) h

/-- After junk without a magic all packets are delivered exactly when there are none, or no read
ends inside the first magic and clears the buffer there. -/
theorem resync_iff (junk : List UInt8) (ps : List CameraPacket) (reads : List (List UInt8))
    (hjunk : ¬ magicPattern <:+: junk) (hstream : reads.flatten = junk ++ encodeAll ps)
    (hbound : Bounded [] reads) :
    delivered [] reads = ps.map delivery ↔ ps = [] ∨ KeepsMagic junk.length 0 reads := by
  by_cases hps : ps = []
  · subst ps
    have hflat : reads.flatten = junk := hstream.trans (List.append_nil junk)
    exact iff_of_true (delivered_junk (hflat.symm ▸ hjunk)) (Or.inl rfl)
  · rw [or_iff_right hps]
    exact run_junk reads hjunk hps (Nat.zero_lt_succ 3) ((List.nil_append _).trans hstream) hbound

/-- Three bytes of junk and a packet in one read. -/
theorem resync_one_read :
    delivered [] [[0, 0, 0] ++ magicImage.encode] = [delivery magicImage] := by
  have hstream :
      [[0, 0, 0] ++ magicImage.encode].flatten = [0, 0, 0] ++ encodeAll [magicImage] := by
    rw [List.flatten_singleton, encodeAll_singleton]
  have hjunk : ¬ magicPattern <:+: [0, 0, 0] := by decide
  apply (resync_iff [0, 0, 0] [magicImage] _ hjunk hstream _).mpr
  · right
    apply keepsMagic_passed
    have hsize : magicImage.header.size = 20 := rfl
    rw [List.length_append, magicImage.length_encode, hsize]
    exact Nat.le_add_right 7 16
  · apply bounded_of_length_le
    rw [hstream]
    decide

/-- The same bytes with the first read ending after one byte of the magic. -/
theorem cut_magic_lost :
    ¬ ∀ (junk : List UInt8) (ps : List CameraPacket) (reads : List (List UInt8)),
      ¬ magicPattern <:+: junk → reads.flatten = junk ++ encodeAll ps → Bounded [] reads →
        delivered [] reads = ps.map delivery := by
  intro hall
  have hjunk : ¬ magicPattern <:+: [0, 0, 0] := by decide
  have hstream : [[0, 0, 0, 0xDE], magicImage.encode.drop 1].flatten =
      [0, 0, 0] ++ encodeAll [magicImage] := by decide
  have hbound : Bounded [] [[0, 0, 0, 0xDE], magicImage.encode.drop 1] := by
    apply bounded_of_length_le
    rw [hstream]
    decide
  have hempty : ([] : List UInt8).length < 4 := Nat.zero_lt_succ 3
  have hkeeps := (run_junk _ hjunk (List.cons_ne_nil magicImage []) hempty
    ((List.nil_append _).trans hstream) hbound).mp (hall _ _ _ hjunk hstream hbound)
  exact not_keepsMagic (Nat.le_refl 4) (Nat.le_refl 4) (Nat.le_add_right 5 2) hkeeps

end JeogiAt.NetworkClient
