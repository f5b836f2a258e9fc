import JeogiAt.ClientReader

/-!
# What the client delivers was received

`Delivery.At` says that a packet stands in a stream at some place, and `Ranges` that packets stand
in it one after the other without overlap. Every run delivers packets in such ranges, and keeps a
suffix of the stream behind them.
-/

namespace JeogiAt.NetworkClient

open CamProtocol

/-- The packet is the content of the bytes of the stream from `p` on. -/
structure Delivery.At (d : Delivery) (stream : List UInt8) (p : ℕ) : Prop where
  magic : OccursAt magicPattern stream p
  header : PacketHeader.ofBytes (stream.drop p) = d.header
  jsonSize_le : d.header.jsonSize.toNat ≤ 1000000
  imageSize_le : d.header.imageSize.toNat ≤ 10000000
  totalSize_eq : (totalSize d.header).toNat = d.header.size
  le_length : p + d.header.size ≤ stream.length
  jsonData : d.jsonData = (stream.drop (p + 16)).take d.header.jsonSize.toNat
  imgData : d.imgData = if d.header.cameraId = 0 then none
    else some ((stream.drop (p + 16 + d.header.jsonSize.toNat)).take d.header.imageSize.toNat)

/-- The packets stand in the stream in this order, from `start` to `stop`, and do not overlap. -/
def Ranges (stream : List UInt8) : ℕ → List Delivery → ℕ → Prop
  | start, [], stop => start ≤ stop
  | start, d :: ds, stop =>
      ∃ p, start ≤ p ∧ d.At stream p ∧ Ranges stream (p + d.header.size) ds stop

variable {stream more buffer : List UInt8} {d : Delivery} {ds es : List Delivery} {a b c p : ℕ}

theorem Delivery.At.append (h : d.At stream p) : d.At (stream ++ more) p := by
  have hle := h.le_length
  have hsize : d.header.size = 16 + d.header.jsonSize.toNat + d.header.imageSize.toNat := rfl
  refine ⟨h.magic.append magicPattern_ne_nil, ?_, h.jsonSize_le, h.imageSize_le, h.totalSize_eq,
    ?_, ?_, ?_⟩
  · rw [List.drop_append_of_le_length (by omega), PacketHeader.ofBytes_append, h.header]
    rw [List.length_drop]
    omega
  · rw [List.length_append]
    omega
  · rw [List.drop_append_of_le_length (by omega), List.take_append_of_le_length, h.jsonData]
    rw [List.length_drop]
    omega
  · rw [List.drop_append_of_le_length (by omega), List.take_append_of_le_length, h.imgData]
    rw [List.length_drop]
    omega

theorem Ranges.append (h : Ranges stream a ds b) : Ranges (stream ++ more) a ds b := by
  induction ds generalizing a with
  | nil => exact h
  | cons d ds ih =>
    obtain ⟨p, hp, hat, hrest⟩ := h
    exact ⟨p, hp, hat.append, ih hrest⟩

theorem Ranges.mono_stop (h : Ranges stream a ds b) (hle : b ≤ c) : Ranges stream a ds c := by
  induction ds generalizing a with
  | nil => exact Nat.le_trans h hle
  | cons d ds ih =>
    obtain ⟨p, hp, hat, hrest⟩ := h
    exact ⟨p, hp, hat, ih hrest⟩

theorem Ranges.mono_start (h : Ranges stream b ds c) (hle : a ≤ b) : Ranges stream a ds c := by
  cases ds with
  | nil => exact Nat.le_trans hle h
  | cons d ds =>
    obtain ⟨p, hp, hat, hrest⟩ := h
    exact ⟨p, hle.trans hp, hat, hrest⟩

theorem Ranges.trans (h : Ranges stream a ds b) (h' : Ranges stream b es c) :
    Ranges stream a (ds ++ es) c := by
  induction ds generalizing a with
  | nil => exact h'.mono_start h
  | cons d ds ih =>
    obtain ⟨p, hp, hat, hrest⟩ := h
    exact ⟨p, hp, hat, ih hrest⟩

def totalLength (ds : List Delivery) : ℕ := (ds.map fun d => d.header.size).sum

theorem Ranges.totalLength_le (h : Ranges stream a ds b) : a + totalLength ds ≤ b := by
  induction ds generalizing a with
  | nil => exact h
  | cons d ds ih =>
    obtain ⟨p, hp, _, hrest⟩ := h
    have := ih hrest
    rw [totalLength, List.map_cons, List.sum_cons, ← totalLength]
    omega

theorem readPacket_at (hbuf : stream.drop p = buffer) (hmagic : magicPattern <+: buffer)
    (hnorm : ¬ Abnormal (PacketHeader.ofBytes buffer))
    (hle : (PacketHeader.ofBytes buffer).size ≤ buffer.length) :
    (readPacket buffer).At stream p := by
  subst hbuf
  have h16 : 16 ≤ (PacketHeader.ofBytes (stream.drop p)).size := by
    rw [PacketHeader.size]
    omega
  refine ⟨hmagic, rfl, UInt32.not_lt.mp fun hj => hnorm (Or.inl hj),
    UInt32.not_lt.mp fun hi => hnorm (Or.inr hi), (toNat_totalSize hnorm).1, ?_, ?_, ?_⟩
  · rw [List.length_drop] at hle
    change p + (PacketHeader.ofBytes (stream.drop p)).size ≤ _
    omega
  · simp only [readPacket, List.drop_drop]
  · simp only [readPacket, List.drop_drop, Nat.add_assoc]

theorem parse_sound (buffer : List UInt8) (hp : p ≤ stream.length) (hbuf : stream.drop p = buffer) :
    ∃ stop, stop ≤ stream.length ∧ (parse buffer).1 = stream.drop stop ∧
      Ranges stream p (parse buffer).2 stop := by
  induction buffer using parse.induct generalizing p with
  | case1 buffer rest h =>
    rw [parse_stop h]
    have hit := iterates buffer
    rw [h] at hit
    have hstay : ∃ stop, stop ≤ stream.length ∧ buffer = stream.drop stop ∧
        Ranges stream p [] stop := ⟨p, hp, hbuf.symm, Nat.le_refl p⟩
    cases hit with
    | short => exact hstay
    | noMagic => exact ⟨stream.length, Nat.le_refl _, List.drop_length.symm, hp⟩
    | shortHeader => exact hstay
    | incomplete => exact hstay
  | case2 buffer rest delivered h ih =>
    rw [parse_again h]
    have hit := iterates buffer
    rw [h] at hit
    have hlen := congrArg List.length hbuf
    rw [List.length_drop] at hlen
    cases hit with
    | skip n _ hat _ =>
      have hle := hat.le_length magicPattern_ne_nil
      have hdrop : stream.drop (p + n) = buffer.drop n := by rw [← List.drop_drop, hbuf]
      obtain ⟨stop, hstop, hrun, hranges⟩ := ih (by omega) hdrop
      exact ⟨stop, hstop, hrun, hranges.mono_start (Nat.le_add_right p n)⟩
    | abnormal _ h16 _ =>
      have hdrop : stream.drop (p + 4) = buffer.drop 4 := by rw [← List.drop_drop, hbuf]
      obtain ⟨stop, hstop, hrun, hranges⟩ := ih (by omega) hdrop
      exact ⟨stop, hstop, hrun, hranges.mono_start (Nat.le_add_right p 4)⟩
    | deliver rest hmagic hnorm hle hrest =>
      have hat := readPacket_at hbuf hmagic hnorm hle
      have hend := hat.le_length
      by_cases hover : maxBuffer < buffer.length - (PacketHeader.ofBytes buffer).size
      · rw [if_pos hover, ← List.drop_length (l := stream)] at hrest
        obtain ⟨stop, hstop, hrun, hranges⟩ := ih (Nat.le_refl _) hrest.symm
        exact ⟨stop, hstop, hrun, p, Nat.le_refl p, hat, hranges.mono_start hend⟩
      · rw [if_neg hover, ← hbuf, List.drop_drop, hbuf] at hrest
        obtain ⟨stop, hstop, hrun, hranges⟩ := ih hend hrest.symm
        exact ⟨stop, hstop, hrun, p, Nat.le_refl p, hat, hranges⟩

theorem length_parse_le (buffer : List UInt8) : (parse buffer).1.length ≤ buffer.length := by
  obtain ⟨stop, -, hparse, -⟩ := parse_sound buffer (Nat.zero_le buffer.length) rfl
  rw [hparse, List.length_drop]
  exact Nat.sub_le _ _

theorem overflowGuard_drop (buffer : List UInt8) :
    ∃ k, k ≤ buffer.length ∧ overflowGuard buffer = buffer.drop k := by
  have hclear : ∃ k, k ≤ buffer.length ∧ [] = buffer.drop k :=
    ⟨buffer.length, Nat.le_refl _, List.drop_length.symm⟩
  unfold overflowGuard
  split_ifs with hlong
  · cases hidx : indexOfFrom magicPattern buffer 4 with
    | none => exact hclear
    | some q =>
      dsimp only
      split_ifs with hpos
      · by_cases hq : q ≤ buffer.length
        · exact ⟨q, hq, rfl⟩
        · rw [List.drop_eq_nil_of_le (by omega)]
          exact hclear
      · exact hclear
  · exact ⟨0, Nat.zero_le _, rfl⟩

/-- From any buffer, the reads leave a suffix of the stream, and the packets delivered stand in
order before it. -/
theorem run_sound (buffer : List UInt8) (reads : List (List UInt8)) :
    ∃ stop, stop ≤ (buffer ++ reads.flatten).length ∧
      reader.run buffer reads = (buffer ++ reads.flatten).drop stop ∧
      Ranges (buffer ++ reads.flatten) 0 (delivered buffer reads) stop := by
  induction reads using List.reverseRecOn with
  | nil =>
    refine ⟨0, Nat.zero_le _, ?_, Nat.le_refl 0⟩
    rw [List.flatten_nil, List.append_nil]
    rfl
  | append_singleton reads newData ih =>
    obtain ⟨p, hp, hbuf, hranges⟩ := ih
    have hstream : buffer ++ (reads ++ [newData]).flatten = buffer ++ reads.flatten ++ newData := by
      rw [List.flatten_append, List.flatten_singleton, List.append_assoc]
    have happend : (buffer ++ reads.flatten ++ newData).drop p =
        reader.run buffer reads ++ newData := by
      rw [List.drop_append_of_le_length hp, hbuf]
    have hp' : p ≤ (buffer ++ reads.flatten ++ newData).length := by
      rw [List.length_append]
      omega
    obtain ⟨stop, hstop, hparse, hnew⟩ := parse_sound _ hp' happend
    obtain ⟨k, hk, hguard⟩ := overflowGuard_drop (parse (reader.run buffer reads ++ newData)).1
    rw [hparse, List.length_drop] at hk
    rw [hstream]
    refine ⟨stop + k, by omega, ?_, ?_⟩
    · rw [Machine.run_concat, next_reader, hguard, hparse, List.drop_drop]
    · rw [delivered, Machine.trace_concat, List.flatten_append, List.flatten_singleton,
        output_reader]
      exact (hranges.append.trans hnew).mono_stop (Nat.le_add_right stop k)

/-- The deliveries and the buffer account for no more than what was there and what came. -/
theorem totalLength_delivered_le (buffer : List UInt8) (reads : List (List UInt8)) :
    totalLength (delivered buffer reads) ≤ buffer.length + reads.flatten.length := by
  obtain ⟨stop, hstop, -, hranges⟩ := run_sound buffer reads
  have := hranges.totalLength_le
  rw [List.length_append] at hstop
  omega

end JeogiAt.NetworkClient
