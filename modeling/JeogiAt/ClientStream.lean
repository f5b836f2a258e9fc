import JeogiAt.ClientSoundness

/-!
# From the server's packets to the client's deliveries

A buffer that is a beginning of a stream of packets is parsed into the packets it holds whole and
a proper beginning of the next one (`parse_stream`). So however the stream is cut into reads, all
packets are delivered as long as the buffer stays within its bound. The guard after the loop knows
nothing of the packet it cuts, and `single_packet_iff` says when it destroys one.
-/

namespace JeogiAt.NetworkClient

open CamProtocol Server

def delivery (p : CameraPacket) : Delivery where
  header := p.header
  jsonData := p.json
  imgData := if p.cameraId = 0 then none else some p.image

/-- No read takes the buffer over the bound, before anything is parsed. -/
def Bounded (buffer : List UInt8) (reads : List (List UInt8)) : Prop :=
  reader.Along (fun buffer newData => (buffer ++ newData).length ≤ maxBuffer) buffer reads

def Pending (buffer : List UInt8) : List CameraPacket → Prop
  | [] => buffer = []
  | p :: _ => buffer <+: p.encode ∧ buffer.length < p.encode.length

theorem encodeAll_cons (p : CameraPacket) (ps : List CameraPacket) :
    encodeAll (p :: ps) = p.encode ++ encodeAll ps := rfl

theorem encodeAll_singleton (p : CameraPacket) : encodeAll [p] = p.encode := List.append_nil _

theorem encodeAll_append (ps qs : List CameraPacket) :
    encodeAll (ps ++ qs) = encodeAll ps ++ encodeAll qs := List.flatMap_append

theorem totalLength_delivery (ps : List CameraPacket) :
    totalLength (ps.map delivery) = (encodeAll ps).length := by
  induction ps with
  | nil => rfl
  | cons p ps ih =>
    rw [encodeAll_cons, List.length_append, ← ih, p.length_encode]
    rfl

theorem not_abnormal_header (p : CameraPacket) : ¬ Abnormal p.header := by
  have hjson : p.header.jsonSize.toNat ≤ 1000000 := p.toNat_jsonSize.trans_le p.json_le
  have himage : p.header.imageSize.toNat ≤ 10000000 := p.toNat_imageSize.trans_le p.image_le
  rintro (h | h)
  · exact absurd hjson (Nat.not_le.mpr h)
  · exact absurd himage (Nat.not_le.mpr h)

theorem readPacket_encode (p : CameraPacket) (rest : List UInt8) :
    readPacket (p.encode ++ rest) = delivery p := by
  have hjson : (p.encode ++ rest).drop 16 = p.json ++ (p.image ++ rest) := by
    rw [p.encode_eq, List.append_assoc, List.drop_left' p.header.length_bytes, List.append_assoc]
  simp only [readPacket, p.header_encode, ← List.drop_drop, hjson, p.toNat_jsonSize,
    p.toNat_imageSize, List.drop_left, List.take_left]
  rfl

theorem parse_packet (p : CameraPacket) (rest : List UInt8) (h : rest.length ≤ maxBuffer) :
    parse (p.encode ++ rest) = ((parse rest).1, delivery p :: (parse rest).2) := by
  have hmagic : magicPattern <+: p.encode ++ rest :=
    p.magicPattern_prefix.trans (List.prefix_append _ _)
  have hheader := p.header_encode rest
  have hnorm := not_abnormal_header p
  have hlen : (p.encode ++ rest).length = p.header.size + rest.length := by
    rw [List.length_append, p.length_encode]
  have hsize : 16 ≤ p.header.size := by
    rw [PacketHeader.size]
    omega
  have hit := iterates (p.encode ++ rest)
  cases hiter : iteration (p.encode ++ rest) with
  | stop b =>
    rw [hiter] at hit
    cases hit with
    | short => omega
    | noMagic _ hno => exact absurd hmagic.isInfix hno
    | shortHeader => omega
    | incomplete _ _ _ hlt =>
      rw [hheader] at hlt
      omega
  | again b delivered =>
    rw [parse_again hiter]
    rw [hiter] at hit
    cases hit with
    | skip n hpos _ hmin => exact absurd hmagic (hmin 0 hpos)
    | abnormal _ _ habn =>
      rw [hheader] at habn
      exact absurd habn hnorm
    | deliver b _ _ _ hrest =>
      have hwithin : ¬ maxBuffer < (p.encode ++ rest).length - p.header.size := by omega
      rw [hheader, if_neg hwithin, List.drop_left' p.length_encode] at hrest
      rw [hrest, readPacket_encode]
      rfl

theorem parse_incomplete {p : CameraPacket} {buffer : List UInt8} (h : buffer <+: p.encode)
    (hlt : buffer.length < p.encode.length) : parse buffer = (buffer, []) := by
  have hmagic : 4 ≤ buffer.length → magicPattern <+: buffer := fun h4 =>
    List.prefix_of_prefix_length_le p.magicPattern_prefix h h4
  have hheader : 16 ≤ buffer.length → PacketHeader.ofBytes buffer = p.header := by
    intro h16
    obtain ⟨more, hmore⟩ := h
    rw [← PacketHeader.ofBytes_append h16 more, hmore]
    simpa only [List.append_nil] using p.header_encode []
  rw [p.length_encode] at hlt
  have hit := iterates buffer
  cases hiter : iteration buffer with
  | stop b =>
    rw [parse_stop hiter]
    rw [hiter] at hit
    cases hit with
    | short => rfl
    | noMagic h4 hno => exact absurd (hmagic h4).isInfix hno
    | shortHeader => rfl
    | incomplete => rfl
  | again b delivered =>
    rw [hiter] at hit
    cases hit with
    | skip n hpos hat hmin =>
      have hle := hat.le_length magicPattern_ne_nil
      rw [length_magicPattern] at hle
      exact absurd (hmagic (by omega)) (hmin 0 hpos)
    | abnormal _ h16 habn =>
      rw [hheader h16] at habn
      exact absurd habn (not_abnormal_header p)
    | deliver b _ _ hle _ =>
      have h16 : 16 ≤ buffer.length := by
        rw [PacketHeader.size] at hle
        omega
      rw [hheader h16] at hle
      omega

/-- A beginning of the stream is parsed into its whole packets and the beginning of the next. -/
theorem parse_stream {ps : List CameraPacket} {buffer : List UInt8} (h : buffer <+: encodeAll ps)
    (hle : buffer.length ≤ maxBuffer) :
    ∃ sent todo, ps = sent ++ todo ∧ buffer = encodeAll sent ++ (parse buffer).1 ∧
      Pending (parse buffer).1 todo ∧ (parse buffer).2 = sent.map delivery := by
  induction ps generalizing buffer with
  | nil =>
    have hnil : buffer = [] := List.prefix_nil.mp h
    subst buffer
    have hstop : parse [] = ([], []) := parse_stop rfl
    rw [hstop]
    exact ⟨[], [], rfl, rfl, rfl, rfl⟩
  | cons p ps ih =>
    by_cases hwhole : p.encode.length ≤ buffer.length
    · obtain ⟨rest, rfl⟩ := List.prefix_of_prefix_length_le (List.prefix_append _ _) h hwhole
      rw [encodeAll_cons, List.prefix_append_right_inj] at h
      have hrest : rest.length ≤ maxBuffer := by
        rw [List.length_append] at hle
        omega
      obtain ⟨sent, todo, hps, hbuffer, hpending, hsent⟩ := ih h hrest
      rw [parse_packet p rest hrest]
      refine ⟨p :: sent, todo, ?_, ?_, hpending, ?_⟩
      · rw [hps, List.cons_append]
      · rw [encodeAll_cons, List.append_assoc, ← hbuffer]
      · rw [hsent, List.map_cons]
    · have hlt := Nat.not_le.mp hwhole
      have hbegin : buffer <+: p.encode :=
        List.prefix_of_prefix_length_le h (List.prefix_append _ _) hlt.le
      rw [parse_incomplete hbegin hlt]
      exact ⟨[], p :: ps, rfl, rfl, ⟨hbegin, hlt⟩, rfl⟩

theorem overflowGuard_short {buffer : List UInt8} (h : buffer.length ≤ maxBuffer) :
    overflowGuard buffer = buffer := by
  rw [overflowGuard, if_neg (Nat.not_lt.mpr h)]

/-- From a proper beginning of the first packet, the rest of the stream delivers all packets. -/
theorem run_packets {buffer : List UInt8} {ps : List CameraPacket} (reads : List (List UInt8))
    (hpending : Pending buffer ps) (hstream : buffer ++ reads.flatten = encodeAll ps)
    (hbound : Bounded buffer reads) :
    delivered buffer reads = ps.map delivery ∧ reader.run buffer reads = [] := by
  induction reads generalizing buffer ps with
  | nil =>
    rw [List.flatten_nil, List.append_nil] at hstream
    cases ps with
    | nil => exact ⟨rfl, hpending⟩
    | cons p ps =>
      have hlt := hpending.2
      rw [hstream, encodeAll_cons, List.length_append] at hlt
      omega
  | cons newData reads ih =>
    obtain ⟨hle, hrest⟩ := hbound
    rw [List.flatten_cons, ← List.append_assoc] at hstream
    have hprefix : buffer ++ newData <+: encodeAll ps := hstream ▸ List.prefix_append _ _
    obtain ⟨sent, todo, rfl, hbuffer, hnext, hsent⟩ := parse_stream hprefix hle
    have hstate : reader.next buffer newData = (parse (buffer ++ newData)).1 :=
      overflowGuard_short ((length_parse_le _).trans hle)
    rw [hbuffer, List.append_assoc, encodeAll_append, List.append_cancel_left_eq] at hstream
    rw [hstate] at hrest
    obtain ⟨hdelivered, hrun⟩ := ih hnext hstream hrest
    rw [delivered_cons, Machine.run_cons, hstate, output_reader, hsent, hdelivered,
      List.map_append]
    exact ⟨rfl, hrun⟩

theorem length_next_le (buffer newData : List UInt8) :
    (reader.next buffer newData).length ≤ buffer.length + newData.length := by
  obtain ⟨k, -, hguard⟩ := overflowGuard_drop (parse (buffer ++ newData)).1
  have hparse := length_parse_le (buffer ++ newData)
  rw [List.length_append] at hparse
  rw [next_reader, hguard, List.length_drop]
  omega

theorem bounded_of_length_le {buffer : List UInt8} {reads : List (List UInt8)}
    (h : buffer.length + reads.flatten.length ≤ maxBuffer) : Bounded buffer reads := by
  induction reads generalizing buffer with
  | nil => trivial
  | cons newData reads ih =>
    rw [List.flatten_cons, List.length_append] at h
    have hnext := length_next_le buffer newData
    refine ⟨?_, ih (by omega)⟩
    change (buffer ++ newData).length ≤ maxBuffer
    rw [List.length_append]
    omega

/-- However a stream of packets is cut into reads that keep the buffer within its bound, the
client delivers every packet once, in order, and nothing remains. -/
theorem packets_delivered (ps : List CameraPacket) (reads : List (List UInt8))
    (hstream : reads.flatten = encodeAll ps) (hbound : Bounded [] reads) :
    delivered [] reads = ps.map delivery ∧ reader.run [] reads = [] := by
  apply run_packets reads _ hstream hbound
  cases ps with
  | nil => rfl
  | cons p ps =>
    refine ⟨List.nil_prefix, ?_⟩
    rw [p.length_encode, List.length_nil, PacketHeader.size]
    omega

/-- A camera's packet with the magic in its image. -/
def magicImage : CameraPacket := ⟨1, [], magicPattern, Nat.zero_le _, by decide⟩

/-- It is delivered from two reads, the first of which ends inside the header. -/
theorem packets_delivered_cut :
    delivered [] [magicImage.encode.take 5, magicImage.encode.drop 5] = [delivery magicImage] := by
  have hstream : [magicImage.encode.take 5, magicImage.encode.drop 5].flatten =
      encodeAll [magicImage] := by
    rw [List.flatten_cons, List.flatten_singleton, List.take_append_drop, encodeAll_singleton]
  apply (packets_delivered [magicImage] _ hstream _).1
  apply bounded_of_length_le
  rw [hstream]
  decide

/-- The image of a packet for camera 0 is not handed over. -/
theorem camera_zero_image_dropped :
    ¬ ∀ (ps : List CameraPacket) (reads : List (List UInt8)), reads.flatten = encodeAll ps →
      Bounded [] reads →
      (delivered [] reads).map (fun d => (d.header.cameraId, d.jsonData, d.imgData)) =
        ps.map (fun p => (p.cameraId, p.json, some p.image)) ∧ reader.run [] reads = [] := by
  intro hall
  let p : CameraPacket := ⟨0, [], [0xFF], Nat.zero_le _, by decide⟩
  have hstream : [p.encode].flatten = encodeAll [p] := rfl
  have hbound : Bounded [] [p.encode] := by
    apply bounded_of_length_le
    decide
  have hpending : Pending [] [p] := ⟨List.nil_prefix, by decide⟩
  have h := (hall [p] [p.encode] hstream hbound).1
  have hrun := run_packets [p.encode] hpending ((List.nil_append _).trans hstream) hbound
  rw [hrun.1] at h
  revert h
  decide

theorem length_overflowGuard_lt {buffer : List UInt8} (h : maxBuffer < buffer.length) :
    (overflowGuard buffer).length < buffer.length := by
  rw [overflowGuard, if_pos h]
  have hempty : ([] : List UInt8).length < buffer.length := (Nat.zero_le _).trans_lt h
  cases hidx : indexOfFrom magicPattern buffer 4 with
  | none => exact hempty
  | some q =>
    dsimp only
    split_ifs with hpos
    · rw [List.length_drop]
      omega
    · exact hempty

/-- Fewer bytes than a stream of packets has cannot make up all of its deliveries. -/
theorem not_delivered_of_lt (ps : List CameraPacket) {buffer : List UInt8}
    {reads : List (List UInt8)}
    (h : buffer.length + reads.flatten.length < (encodeAll ps).length) :
    delivered buffer reads ≠ ps.map delivery := by
  intro heq
  have hle := totalLength_delivered_le buffer reads
  rw [heq, totalLength_delivery] at hle
  omega

theorem delivered_whole {p : CameraPacket} {buffer newData : List UInt8}
    {reads : List (List UInt8)} (hall : buffer ++ newData = p.encode)
    (hnone : reads.flatten = []) : delivered buffer (newData :: reads) = [delivery p] := by
  have hparse := parse_packet p [] (Nat.zero_le _)
  have hempty : parse [] = ([], []) := parse_stop rfl
  rw [List.append_nil, hempty] at hparse
  have hpending : Pending [] [] := rfl
  have hafter := run_packets reads hpending hnone
    (bounded_of_length_le (by rw [hnone]; exact Nat.zero_le _))
  rw [delivered_cons, output_reader, next_reader, hall, hparse,
    overflowGuard_short (Nat.zero_le _), hafter.1]
  rfl

theorem run_single {p : CameraPacket} {buffer : List UInt8} (reads : List (List UInt8))
    (hstream : buffer ++ reads.flatten = p.encode) (hlt : buffer.length < p.encode.length)
    (hle : buffer.length ≤ maxBuffer) :
    delivered buffer reads = [delivery p] ↔
      ∀ past, past <+: reads → maxBuffer < (buffer ++ past.flatten).length →
        p.encode.length ≤ (buffer ++ past.flatten).length := by
  induction reads generalizing buffer with
  | nil =>
    rw [List.flatten_nil, List.append_nil] at hstream
    rw [hstream] at hlt
    exact absurd hlt (Nat.lt_irrefl _)
  | cons newData reads ih =>
    have hnow : maxBuffer < (buffer ++ ([] : List (List UInt8)).flatten).length →
        p.encode.length ≤ (buffer ++ ([] : List (List UInt8)).flatten).length := by
      rw [List.flatten_nil, List.append_nil]
      exact fun hlong => absurd hle (Nat.not_le.mpr hlong)
    rw [List.flatten_cons, ← List.append_assoc] at hstream
    rw [forall_prefix_cons, and_iff_right hnow]
    simp only [List.flatten_cons, ← List.append_assoc]
    have hbegin : buffer ++ newData <+: p.encode := hstream ▸ List.prefix_append _ _
    have hlength := congrArg List.length hstream
    rw [List.length_append] at hlength
    by_cases hwhole : p.encode.length ≤ (buffer ++ newData).length
    · have hall : buffer ++ newData = p.encode := hbegin.eq_of_length_le hwhole
      have hnone : reads.flatten = [] := List.eq_nil_of_length_eq_zero (by omega)
      apply iff_of_true
      · exact delivered_whole hall hnone
      · intro past _ _
        rw [List.length_append]
        omega
    · have hshort := Nat.not_le.mp hwhole
      have hparse := parse_incomplete hbegin hshort
      rw [delivered_cons, output_reader, next_reader, hparse, List.nil_append]
      by_cases hover : maxBuffer < (buffer ++ newData).length
      · -- the guard cuts into the packet
        have hcut := length_overflowGuard_lt hover
        apply iff_of_false
        · apply not_delivered_of_lt [p]
          rw [encodeAll_singleton]
          dsimp only
          omega
        · intro h
          have := h [] List.nil_prefix
          rw [List.flatten_nil, List.append_nil] at this
          exact hwhole (this hover)
      · have hfits := Nat.not_lt.mp hover
        rw [overflowGuard_short hfits]
        exact ih hstream hshort hfits

/-- A packet that the size check admits is delivered exactly when no read ends inside it with more
than the bound received. -/
theorem single_packet_iff (p : CameraPacket) (reads : List (List UInt8))
    (hstream : reads.flatten = p.encode) :
    delivered [] reads = [delivery p] ↔
      ∀ past, past <+: reads → maxBuffer < past.flatten.length →
        p.encode.length ≤ past.flatten.length := by
  apply run_single reads hstream _ (Nat.zero_le _)
  rw [p.length_encode, List.length_nil, PacketHeader.size]
  omega

theorem single_packet_one_read : delivered [] [magicImage.encode] = [delivery magicImage] := by
  apply (single_packet_iff magicImage _ (List.append_nil _)).mpr
  intro past hpast hlong
  cases past with
  | nil => exact absurd hlong (Nat.not_lt_zero _)
  | cons first past =>
    obtain ⟨rfl, htail⟩ := List.cons_prefix_cons.mp hpast
    rw [List.prefix_nil.mp htail, List.flatten_singleton]

/-- A packet of eleven megabytes whose first read ends just over the bound is lost. -/
theorem large_packet_lost :
    ¬ ∀ (p : CameraPacket) (reads : List (List UInt8)), reads.flatten = p.encode →
      delivered [] reads = [delivery p] := by
  intro hall
  obtain ⟨json, hjson⟩ : ∃ json : List UInt8, json.length = 1000000 :=
    ⟨List.replicate 1000000 0, List.length_replicate⟩
  obtain ⟨image, himage⟩ : ∃ image : List UInt8, image.length = 10000000 :=
    ⟨List.replicate 10000000 0, List.length_replicate⟩
  let p : CameraPacket := ⟨1, json, image, hjson.le, himage.le⟩
  have hlen : p.encode.length = 11000016 := by
    rw [p.length_encode, PacketHeader.size, p.toNat_jsonSize, p.toNat_imageSize, hjson, himage]
  have hstream : [p.encode.take 10485761, p.encode.drop 10485761].flatten = p.encode := by
    rw [List.flatten_cons, List.flatten_singleton, List.take_append_drop]
  have hpos : ([] : List UInt8).length < p.encode.length := by
    rw [hlen]
    exact Nat.zero_lt_succ _
  have hrun := (run_single _ ((List.nil_append _).trans hstream) hpos (Nat.zero_le _)).mp
    (hall p _ hstream) [p.encode.take 10485761]
    (List.prefix_append [p.encode.take 10485761] [p.encode.drop 10485761])
  have hread : ([p.encode.take 10485761].flatten).length = 10485761 := by
    rw [List.flatten_singleton, List.length_take, hlen]
    omega
  rw [List.nil_append, hread, hlen, maxBuffer_eq] at hrun
  omega

end JeogiAt.NetworkClient
