import JeogiAt.ClientResync
import JeogiAt.SendQueue

/-!
# The camera channel

The two ends of one client connection: the packets that the server accepts, the bytes that its
writer puts on the wire, and the reads by which the client takes them off. Each end moves at any
time, and a read returns any number of the bytes that are on their way.

`channel_fifo` says that between the two ends is a queue of packets. `reconnect_law` is about the
next session: the client keeps its buffer, so a packet that the first session left cut takes its
missing bytes from the beginning of the second.
-/

namespace JeogiAt.NetworkClient

open CamProtocol Server

/-- The server's end, the number of bytes that the reads have returned, and the client's end. -/
structure Channel where
  session : Connection
  received : ℕ
  buffer : List UInt8
  deliveries : List Delivery

/-- A step of the server, or the client's slot for at most `n` bytes that have arrived. -/
inductive ChannelStep
  | server (action : Action)
  | readData (n : ℕ)

def pack (p : CameraPacket) : SendPacket := makePacket p.cameraId p.json p.image

namespace Channel

/-- A new session. Nothing clears `m_buffer` when the connection is made. -/
def connected (buffer : List UInt8) : Channel := ⟨.init, 0, buffer, []⟩

/-- What `readAll` returns. -/
def newData (c : Channel) (n : ℕ) : List UInt8 := (c.session.wire.drop c.received).take n

def step (c : Channel) : ChannelStep → Channel × Unit
  | .server action => ({ c with session := connection.next c.session action }, ())
  | .readData n =>
      let r := NetworkClient.readData c.buffer (c.newData n)
      ({ c with
          received := c.received + (c.newData n).length
          buffer := r.1
          deliveries := c.deliveries ++ r.2 }, ())

end Channel

def channel : Machine Channel ChannelStep Unit := ⟨Channel.step⟩

/-- The server sends what the client admits, and a read with what the buffer holds stays under the
limit of the buffer. -/
def Fits (c : Channel) : ChannelStep → Prop
  | .server (.enqueueCameraPacket _ jsonStr imgData) =>
      jsonStr.length ≤ 1000000 ∧ imgData.length ≤ 10000000
  | .server (.enqueueJsonPacket jsonStr) => jsonStr.length ≤ 1000000
  | .server _ => True
  | .readData n => (c.buffer ++ c.newData n).length ≤ maxBuffer

namespace Channel

/-- The client has made the packets `sent` of what it has received and holds the beginning of the
next packet, if any. -/
structure Delivered (c : Channel) (sent todo : List CameraPacket) : Prop where
  accepted_eq : c.session.accepted = (sent ++ todo).map pack
  received_eq : c.session.wire.take c.received = encodeAll sent ++ c.buffer
  pending : Pending c.buffer todo
  deliveries_eq : c.deliveries = sent.map delivery

structure Fifo (c : Channel) (sent todo : List CameraPacket) : Prop extends
    c.Delivered sent todo where
  ordered : c.session.Ordered
  received_le : c.received ≤ c.session.wire.length

end Channel

theorem bytes_pack (ps : List CameraPacket) : Connection.bytes (ps.map pack) = encodeAll ps := by
  rw [Connection.bytes, encodeAll, List.flatMap_map]
  rfl

theorem Pending.append {buffer : List UInt8} {ps : List CameraPacket} (h : Pending buffer ps)
    (more : List CameraPacket) : Pending buffer (ps ++ more) := by
  cases ps with
  | cons p ps => exact h
  | nil =>
    have hnil : buffer = [] := h
    subst buffer
    cases more with
    | nil => rfl
    | cons p more =>
      refine ⟨List.nil_prefix, ?_⟩
      rw [p.length_encode, List.length_nil, PacketHeader.size]
      omega

theorem wire_prefix {c : Connection} (h : c.Ordered) : c.wire <+: Connection.bytes c.accepted := by
  obtain ⟨full, rest, cut, hs⟩ := h.sent
  have hcut : cut <+: Connection.bytes rest := by
    cases rest with
    | nil => exact hs.cut_prefix
    | cons pkt rest => exact hs.cut_prefix.trans (List.prefix_append _ _)
  rw [hs.wire_eq, h.fifo, hs.popped_eq, List.append_assoc, Connection.bytes_append,
    List.prefix_append_right_inj, Connection.bytes_append]
  exact hcut.trans (List.prefix_append _ _)

theorem wire_next (c : Connection) (action : Action) :
    c.wire <+: (connection.next c action).wire := by
  cases action with
  | enqueueCameraPacket camId jsonStr imgData =>
    simp only [Machine.next, connection, Connection.step, Connection.enqueueCameraPacket,
      Connection.enqueue]
    split_ifs <;> exact List.prefix_rfl
  | enqueueJsonPacket jsonStr =>
    simp only [Machine.next, connection, Connection.step, Connection.enqueueJsonPacket,
      Connection.enqueue]
    split_ifs <;> exact List.prefix_rfl
  | writer result =>
    simp only [Machine.next, connection, Connection.step, Connection.writerStep]
    cases c.writer with
    | holding => cases c.queue <;> exact List.prefix_rfl
    | writing pkt total =>
      dsimp only
      split_ifs
      · exact List.prefix_rfl
      · exact List.prefix_rfl
      · exact List.prefix_append _ _
      · exact List.prefix_rfl
    | _ => exact List.prefix_rfl
  | disconnect => exact List.prefix_rfl

theorem accepted_next (c : Channel) {action : Action} (h : Fits c (.server action)) :
    ∃ more : List CameraPacket,
      (connection.next c.session action).accepted = c.session.accepted ++ more.map pack := by
  have hnone : ∀ c' : Connection, c'.accepted = c.session.accepted →
      ∃ more : List CameraPacket, c'.accepted = c.session.accepted ++ more.map pack :=
    fun c' heq => ⟨[], heq.trans (List.append_nil _).symm⟩
  have hone : ∀ p : CameraPacket, ∃ more : List CameraPacket,
      c.session.accepted ++ [pack p] = c.session.accepted ++ more.map pack :=
    fun p => ⟨[p], rfl⟩
  cases action with
  | enqueueCameraPacket camId jsonStr imgData =>
    obtain ⟨hjson, himage⟩ := h
    simp only [Machine.next, connection, Connection.step, Connection.enqueueCameraPacket,
      Connection.enqueue]
    split_ifs
    · exact hnone c.session rfl
    · exact hone ⟨camId, jsonStr, imgData, hjson, himage⟩
    · exact hnone c.session rfl
  | enqueueJsonPacket jsonStr =>
    simp only [Machine.next, connection, Connection.step, Connection.enqueueJsonPacket,
      Connection.enqueue]
    split_ifs
    · exact hnone c.session rfl
    · exact hone ⟨0, jsonStr, [], h, Nat.zero_le _⟩
    · exact hnone c.session rfl
  | writer result =>
    apply hnone
    simp only [Machine.next, connection, Connection.step, Connection.writerStep]
    cases c.session.writer with
    | holding => cases c.session.queue <;> rfl
    | writing pkt total =>
      dsimp only
      split_ifs <;> rfl
    | _ => rfl
  | disconnect => exact hnone _ rfl

namespace Channel

variable {c : Channel} {sent todo : List CameraPacket}

theorem fifo_init : Fifo (connected []) [] [] where
  accepted_eq := rfl
  received_eq := rfl
  pending := rfl
  deliveries_eq := rfl
  ordered := Connection.ordered_init
  received_le := le_rfl

/-- The server's step leaves alone what has been received, and may accept one more packet. -/
theorem Fifo.server (h : Fifo c sent todo) {action : Action} (hfits : Fits c (.server action)) :
    ∃ more, Fifo (channel.next c (.server action)) sent (todo ++ more) := by
  obtain ⟨more, haccepted⟩ := accepted_next c hfits
  obtain ⟨written, hwire⟩ := wire_next c.session action
  refine ⟨more, ?_⟩
  exact
    { accepted_eq := by
        change (connection.next c.session action).accepted = _
        rw [haccepted, h.accepted_eq, ← List.map_append, List.append_assoc]
      received_eq := by
        change (connection.next c.session action).wire.take c.received = _
        rw [← hwire, List.take_append_of_le_length h.received_le]
        exact h.received_eq
      pending := h.pending.append more
      deliveries_eq := h.deliveries_eq
      ordered := Connection.ordered_next h.ordered action
      received_le := by
        change c.received ≤ (connection.next c.session action).wire.length
        rw [← hwire, List.length_append]
        exact h.received_le.trans (Nat.le_add_right _ _) }

theorem Fifo.buffer_prefix (h : Fifo c sent todo) (n : ℕ) :
    c.session.wire.take (c.received + (c.newData n).length) =
        encodeAll sent ++ (c.buffer ++ c.newData n) ∧
      c.buffer ++ c.newData n <+: encodeAll todo := by
  have htake : c.session.wire.take (c.received + (c.newData n).length) =
      encodeAll sent ++ (c.buffer ++ c.newData n) := by
    have hdata : (c.session.wire.drop c.received).take (c.newData n).length = c.newData n := by
      rw [newData, List.length_take, List.take_eq_take_min, min_assoc, min_self,
        ← List.take_eq_take_min]
    rw [List.take_add, h.received_eq, List.append_assoc, hdata]
  refine ⟨htake, ?_⟩
  have hwire := wire_prefix h.ordered
  rw [h.accepted_eq, bytes_pack, encodeAll_append] at hwire
  have hpre := (List.take_prefix (c.received + (c.newData n).length) _).trans hwire
  rw [htake, List.prefix_append_right_inj] at hpre
  exact hpre

theorem Fifo.readData (h : Fifo c sent todo) {n : ℕ} (hfits : Fits c (.readData n)) :
    ∃ more rest, todo = more ++ rest ∧ Fifo (channel.next c (.readData n)) (sent ++ more) rest := by
  obtain ⟨htake, hpre⟩ := h.buffer_prefix n
  have hle : (c.buffer ++ c.newData n).length ≤ maxBuffer := hfits
  obtain ⟨more, rest, rfl, hbuffer, hpending, hmore⟩ := parse_stream hpre hle
  have hguard : overflowGuard (parse (c.buffer ++ c.newData n)).1 =
      (parse (c.buffer ++ c.newData n)).1 :=
    overflowGuard_short ((length_parse_le _).trans hle)
  refine ⟨more, rest, rfl, ?_⟩
  exact
    { accepted_eq := by
        rw [List.append_assoc]
        exact h.accepted_eq
      received_eq := by
        change c.session.wire.take (c.received + (c.newData n).length) =
          encodeAll (sent ++ more) ++ overflowGuard (parse (c.buffer ++ c.newData n)).1
        rw [htake, hguard, encodeAll_append, List.append_assoc, ← hbuffer]
      pending := by
        change Pending (overflowGuard (parse (c.buffer ++ c.newData n)).1) rest
        rw [hguard]
        exact hpending
      deliveries_eq := by
        change c.deliveries ++ (parse (c.buffer ++ c.newData n)).2 = _
        rw [h.deliveries_eq, hmore, List.map_append]
      ordered := h.ordered
      received_le := by
        change c.received + (c.newData n).length ≤ c.session.wire.length
        have := h.received_le
        rw [newData, List.length_take, List.length_drop]
        omega }

theorem fifo_run {steps : List ChannelStep} (h : channel.Along Fits (connected []) steps) :
    ∃ sent todo, Fifo (channel.run (connected []) steps) sent todo := by
  induction steps using List.reverseRecOn with
  | nil => exact ⟨[], [], fifo_init⟩
  | append_singleton steps step ih =>
    obtain ⟨hsteps, hfits⟩ := Machine.along_concat.mp h
    obtain ⟨sent, todo, hfifo⟩ := ih hsteps
    rw [Machine.run_concat]
    cases step with
    | server action =>
      obtain ⟨more, hnext⟩ := hfifo.server hfits
      exact ⟨sent, todo ++ more, hnext⟩
    | readData n =>
      obtain ⟨more, rest, -, hnext⟩ := hfifo.readData hfits
      exact ⟨sent ++ more, rest, hnext⟩

theorem Fifo.todo_eq_nil (h : Fifo c sent todo) (hconnected : c.session.connected = true)
    (hqueue : c.session.queue = []) (hwriter : c.session.writer.current = [])
    (hall : c.received = c.session.wire.length) : todo = [] := by
  obtain ⟨full, rest, cut, hs⟩ := h.ordered.sent
  obtain ⟨hrest, hcut⟩ := hs.connected hconnected
  have hnil : cut = [] := by
    have hpre := hs.cut_prefix
    rw [hrest, hwriter] at hpre
    exact List.prefix_nil.mp hpre
  have hwire : c.session.wire = encodeAll (sent ++ todo) := by
    rw [hs.wire_eq, hnil, List.append_nil, ← bytes_pack, ← h.accepted_eq, h.ordered.fifo, hqueue,
      List.append_nil, hs.popped_eq, hrest, hwriter, List.append_nil]
  have hbuffer : c.buffer = encodeAll todo := by
    have heq := h.received_eq
    rw [hall, List.take_length, hwire, encodeAll_append, List.append_cancel_left_eq] at heq
    exact heq.symm
  cases todo with
  | nil => rfl
  | cons p todo =>
    have hlt := h.pending.2
    rw [hbuffer, encodeAll_cons, List.length_append] at hlt
    omega

end Channel

/-- In every run of the two ends, the client has delivered the first of the packets that the
server accepted, each once and in order, namely those that are whole among the bytes it has
received; and once the server is idle and everything is received it has delivered them all. -/
theorem channel_fifo (steps : List ChannelStep) (h : channel.Along Fits (.connected []) steps) :
    ∃ sent todo, (channel.run (.connected []) steps).Delivered sent todo ∧
      ((channel.run (.connected []) steps).session.connected = true →
        (channel.run (.connected []) steps).session.queue = [] →
          (channel.run (.connected []) steps).session.writer.current = [] →
            (channel.run (.connected []) steps).received =
                (channel.run (.connected []) steps).session.wire.length → todo = []) := by
  obtain ⟨sent, todo, hfifo⟩ := Channel.fifo_run h
  exact ⟨sent, todo, hfifo.toDelivered, hfifo.todo_eq_nil⟩

/-- The writer's turns from its outer test to the end of a packet that is written at once. -/
def writeOne : List ChannelStep := List.replicate 6 (.server (.writer ⟨17, false⟩))

theorem channel_fifo_one :
    (channel.run (.connected [])
      (.server (.enqueueCameraPacket 1 [] [7]) :: writeOne ++ [.readData 17])).deliveries.length =
        1 := by
  have hroom : 17 ≤ maxBuffer := by
    rw [maxBuffer]
    omega
  have hfits : channel.Along Fits (.connected [])
      (.server (.enqueueCameraPacket 1 [] [7]) :: writeOne ++ [.readData 17]) := by
    refine ⟨⟨Nat.zero_le _, Nat.le_of_ble_eq_true rfl⟩, trivial, trivial, trivial, trivial, trivial,
      trivial, ?_, trivial⟩
    exact (List.length_take_le 17 _).trans hroom
  obtain ⟨sent, todo, h, hidle⟩ := channel_fifo _ hfits
  have hnil : todo = [] := hidle rfl rfl rfl (by decide)
  have haccepted := congrArg List.length h.accepted_eq
  rw [hnil, List.append_nil, List.length_map] at haccepted
  rw [h.deliveries_eq, List.length_map, ← haccepted]
  rfl

variable {cut lost junk : List UInt8} {p : CameraPacket} {ps : List CameraPacket}

def after : ℕ → List (List UInt8) → List (List UInt8)
  | _, [] => []
  | n, newData :: reads =>
      if newData.length < n then after (n - newData.length) reads else newData.drop n :: reads

/-- The packet that the header of a cut packet makes of the bytes that come instead of its own. -/
theorem exists_filled (hcut : cut <+: p.encode) (hheader : 16 ≤ cut.length)
    (hlength : cut.length + lost.length = p.encode.length) :
    ∃ q : CameraPacket, q.header = p.header ∧ q.encode = cut ++ lost := by
  obtain ⟨rest, hrest⟩ := hcut
  have hbytes : p.header.bytes <+: cut := by
    apply List.prefix_of_prefix_length_le _ (List.prefix_append cut rest)
    · rw [p.header.length_bytes]
      exact hheader
    · rw [hrest, p.encode_eq]
      exact List.prefix_append _ _
  obtain ⟨body, rfl⟩ := hbytes
  have hbody : (body ++ lost).length = p.json.length + p.image.length := by
    rw [p.encode_eq, List.length_append, List.length_append, List.length_append] at hlength
    rw [List.length_append]
    omega
  have hjson : ((body ++ lost).take p.json.length).length = p.json.length := by
    rw [List.length_take, hbody]
    omega
  have himage : ((body ++ lost).drop p.json.length).length = p.image.length := by
    rw [List.length_drop, hbody]
    omega
  let q : CameraPacket :=
    ⟨p.cameraId, (body ++ lost).take p.json.length, (body ++ lost).drop p.json.length,
      hjson.trans_le p.json_le, himage.trans_le p.image_le⟩
  have hq : q.header = p.header := by
    simp only [CameraPacket.header, q, hjson, himage]
  refine ⟨q, hq, ?_⟩
  rw [q.encode_eq, hq, List.take_append_drop, List.append_assoc]

/-- Until a cut packet is filled the client only collects; then it delivers what it has made of it
and goes on as if the rest of that read had been the first. -/
theorem delivered_filled {q : CameraPacket} {reads : List (List UInt8)} {later : List UInt8}
    (hfill : q.encode = cut ++ lost) (hlost : lost ≠ [])
    (hstream : reads.flatten = lost ++ later) (hbound : Bounded cut reads) :
    delivered cut reads = delivery q :: delivered [] (after lost.length reads) ∧
      (after lost.length reads).flatten = later ∧ Bounded [] (after lost.length reads) := by
  induction reads generalizing cut lost with
  | nil => exact absurd (List.append_eq_nil_iff.mp hstream.symm).1 hlost
  | cons newData reads ih =>
    obtain ⟨hle, hrest⟩ := hbound
    have hguard : overflowGuard (parse (cut ++ newData)).1 = (parse (cut ++ newData)).1 :=
      overflowGuard_short ((length_parse_le _).trans hle)
    rw [List.flatten_cons] at hstream
    rw [next_reader, hguard] at hrest
    rw [delivered_cons, output_reader, next_reader, hguard, after]
    by_cases hshort : newData.length < lost.length
    · have hbegin : newData <+: lost :=
        List.prefix_of_prefix_length_le (hstream ▸ List.prefix_append newData reads.flatten)
          (List.prefix_append lost later) hshort.le
      obtain ⟨missing, rfl⟩ := hbegin
      have hmissing : missing ≠ [] := by
        rintro rfl
        rw [List.append_nil] at hshort
        exact lt_irrefl _ hshort
      have hpart : cut ++ newData <+: q.encode := by
        rw [hfill, ← List.append_assoc]
        exact List.prefix_append _ _
      have hlt : (cut ++ newData).length < q.encode.length := by
        rw [hfill, List.length_append, List.length_append]
        exact Nat.add_lt_add_left hshort _
      rw [List.append_assoc, List.append_cancel_left_eq] at hstream
      rw [parse_incomplete hpart hlt] at hrest ⊢
      rw [if_pos hshort, List.length_append, Nat.add_sub_cancel_left, List.nil_append]
      exact ih (by rw [hfill, List.append_assoc]) hmissing hstream hrest
    · have hbegin : lost <+: newData :=
        List.prefix_of_prefix_length_le (hstream ▸ List.prefix_append lost later)
          (List.prefix_append newData reads.flatten) (Nat.not_lt.mp hshort)
      obtain ⟨rest, rfl⟩ := hbegin
      have hrestLe : rest.length ≤ maxBuffer := by
        change (cut ++ (lost ++ rest)).length ≤ maxBuffer at hle
        rw [List.length_append, List.length_append] at hle
        omega
      have hrestGuard : overflowGuard (parse rest).1 = (parse rest).1 :=
        overflowGuard_short ((length_parse_le _).trans hrestLe)
      rw [← List.append_assoc, ← hfill, parse_packet q rest hrestLe] at hrest ⊢
      rw [if_neg hshort, List.drop_left, delivered_cons, output_reader, next_reader,
        List.nil_append, hrestGuard, List.flatten_cons]
      rw [List.append_assoc, List.append_cancel_left_eq] at hstream
      refine ⟨rfl, hstream, hrestLe, ?_⟩
      rw [next_reader, List.nil_append, hrestGuard]
      exact hrest

theorem exists_boundary (ps : List CameraPacket) {n : ℕ} (hle : n ≤ (encodeAll ps).length) :
    ∃ k lost junk, encodeAll ps = lost ++ junk ++ encodeAll (ps.drop k) ∧ lost.length = n ∧
      ∀ j < k, (encodeAll (ps.take j)).length < n := by
  induction ps generalizing n with
  | nil =>
    have hzero : n = 0 := Nat.le_zero.mp hle
    subst n
    exact ⟨0, [], [], rfl, rfl, nofun⟩
  | cons p ps ih =>
    rw [encodeAll_cons, List.length_append] at hle
    rcases Nat.eq_zero_or_pos n with rfl | hpos
    · exact ⟨0, [], [], rfl, rfl, nofun⟩
    by_cases hwithin : n ≤ p.encode.length
    · refine ⟨1, p.encode.take n, p.encode.drop n, ?_, List.length_take_of_le hwithin, ?_⟩
      · rw [List.take_append_drop]
        rfl
      · intro j hj
        rw [Nat.lt_one_iff.mp hj]
        exact hpos
    · obtain ⟨k, lost, junk, hsplit, hlost, hmin⟩ := ih (n := n - p.encode.length) (by omega)
      refine ⟨k + 1, p.encode ++ lost, junk, ?_, ?_, ?_⟩
      · rw [encodeAll_cons, hsplit, List.drop_succ_cons]
        simp only [List.append_assoc]
      · rw [List.length_append, hlost]
        omega
      · intro j hj
        cases j with
        | zero => exact hpos
        | succ j =>
          have hlt := hmin j (Nat.lt_of_succ_lt_succ hj)
          rw [List.take_succ_cons, encodeAll_cons, List.length_append]
          omega

/-- The client loses the connection inside a packet whose header it has, and connects again. The
first thing it delivers is that packet's header with the bytes that were missing taken from the new
stream `ps`; the `k` packets that these bytes reach into are lost, and those that follow are all
delivered exactly when no read clears the beginning of the first one's magic. -/
theorem reconnect_law (p : CameraPacket) (cut : List UInt8) (ps : List CameraPacket)
    (reads : List (List UInt8)) (hcut : cut <+: p.encode) (hheader : 16 ≤ cut.length)
    (hlt : cut.length < p.encode.length)
    (hlong : p.encode.length ≤ cut.length + (encodeAll ps).length)
    (hstream : reads.flatten = encodeAll ps) (hbound : Bounded cut reads) :
    ∃ q k lost junk, q.header = p.header ∧ q.encode = cut ++ lost ∧
      encodeAll ps = lost ++ junk ++ encodeAll (ps.drop k) ∧
        (∀ j < k, (encodeAll (ps.take j)).length < lost.length) ∧
          delivered cut reads = delivery q :: delivered [] (after lost.length reads) ∧
          (¬ magicPattern <:+: junk →
            (delivered cut reads = delivery q :: (ps.drop k).map delivery ↔
              ps.drop k = [] ∨ KeepsMagic junk.length 0 (after lost.length reads))) := by
  obtain ⟨k, lost, junk, hsplit, hlost, hmin⟩ :=
    exists_boundary ps (n := p.encode.length - cut.length) (by omega)
  have hlength : cut.length + lost.length = p.encode.length := by omega
  obtain ⟨q, hq, hfill⟩ := exists_filled hcut hheader hlength
  have hne : lost ≠ [] := by
    rintro rfl
    rw [List.length_nil] at hlost
    omega
  have hlater : reads.flatten = lost ++ (junk ++ encodeAll (ps.drop k)) := by
    rw [hstream, hsplit, List.append_assoc]
  obtain ⟨hdelivered, hafter, hboundAfter⟩ := delivered_filled hfill hne hlater hbound
  refine ⟨q, k, lost, junk, hq, hfill, hsplit, hlost ▸ hmin, hdelivered, fun hjunk => ?_⟩
  rw [hdelivered, List.cons.injEq, eq_self_iff_true, true_and]
  by_cases hps : ps.drop k = []
  · rw [hps] at hafter ⊢
    have hflat : (after lost.length reads).flatten = junk := hafter.trans (List.append_nil junk)
    exact iff_of_true (delivered_junk (hflat.symm ▸ hjunk)) (Or.inl rfl)
  · rw [or_iff_right hps]
    exact run_junk _ hjunk hps (Nat.zero_lt_succ 3) ((List.nil_append _).trans hafter) hboundAfter

def oneByte : CameraPacket :=
  { magicImage with image := [7], image_le := Nat.le_of_ble_eq_true rfl }

theorem reconnect_law_oneByte :
    ∃ q k lost junk, q.header = oneByte.header ∧ q.encode = oneByte.encode.take 16 ++ lost ∧
      encodeAll [oneByte, oneByte] = lost ++ junk ++ encodeAll ([oneByte, oneByte].drop k) ∧
        (∀ j < k, (encodeAll ([oneByte, oneByte].take j)).length < lost.length) ∧
          delivered (oneByte.encode.take 16) [encodeAll [oneByte, oneByte]] =
            delivery q :: delivered [] (after lost.length [encodeAll [oneByte, oneByte]]) ∧
          (¬ magicPattern <:+: junk →
            (delivered (oneByte.encode.take 16) [encodeAll [oneByte, oneByte]] =
                delivery q :: ([oneByte, oneByte].drop k).map delivery ↔
              [oneByte, oneByte].drop k = [] ∨
                KeepsMagic junk.length 0 (after lost.length [encodeAll [oneByte, oneByte]]))) := by
  apply reconnect_law oneByte (oneByte.encode.take 16) [oneByte, oneByte]
    [encodeAll [oneByte, oneByte]] (List.take_prefix _ _)
  · decide
  · decide
  · decide
  · exact List.flatten_singleton
  · apply bounded_of_length_le
    decide

end JeogiAt.NetworkClient
