import JeogiAt.Library.Bytes
import JeogiAt.Library.Machine
import Mathlib.Tactic.SplitIfs

/-!
# The microphone stream

The client cuts what it captures into frames of 1920 bytes and sends each of them behind a header.
The server reads headers and frames off the connection with `recv_exact` and passes the frames to
the SPI device. A connection is here the segments in which its bytes arrive, and what `recv` reports
at the end: that the peer has closed it, or an error.

Frames come out of the capture in the same way whether it is read at once or in pieces
(`sendFrames_append`), and `recv_exact` reads the same bytes however they are cut into segments
(`recvExact_read`).
-/

namespace JeogiAt.MicStream

open Bytes

def frameBytes : ℕ := 1920

def syncWord : UInt16 := 0xAA55

/-- `QTcpSocket`: whether it is connected, and whether it takes a packet. -/
structure Socket where
  connected : Bool
  write : List UInt8 → Bool

structure MicStreamer where
  m_captureBuffer : List UInt8
  m_seq : UInt32

/-- What `QDataStream` writes in little-endian order. -/
def packetHeader (payloadSize : UInt16) (seq : UInt32) : List UInt8 :=
  littleEndian 2 syncWord.toNat ++ littleEndian 2 payloadSize.toNat ++ littleEndian 4 seq.toNat

def packetOf (seq : UInt32) (frame : List UInt8) : List UInt8 :=
  packetHeader (UInt16.ofNat frame.length) seq ++ frame

namespace MicStreamer

def init : MicStreamer := ⟨[], 0⟩

/-- The loop of `onAudioReadyRead`, with the bytes written. -/
def sendFrames (socket : Socket) (s : MicStreamer) : MicStreamer × List UInt8 :=
  if frameBytes ≤ s.m_captureBuffer.length then
    let frame := s.m_captureBuffer.take frameBytes
    let packet := packetOf s.m_seq frame
    let s' : MicStreamer := ⟨s.m_captureBuffer.drop frameBytes, s.m_seq + 1⟩
    if socket.write packet then
      let r := sendFrames socket s'
      (r.1, packet ++ r.2)
    else (s', [])
  else (s, [])
termination_by s.m_captureBuffer.length
decreasing_by
  rw [List.length_drop]
  unfold frameBytes at *
  omega

/-- `onAudioReadyRead`, with what the device has captured. -/
def onAudioReadyRead (socket : Socket) (data : List UInt8) (s : MicStreamer) :
    MicStreamer × List UInt8 :=
  if !socket.connected then (s, [])
  else if data = [] then (s, [])
  else sendFrames socket { s with m_captureBuffer := s.m_captureBuffer ++ data }

end MicStreamer

structure ReadyRead where
  socket : Socket
  data : List UInt8

def micStreamer : Machine MicStreamer ReadyRead (List UInt8) :=
  ⟨fun s call => s.onAudioReadyRead call.socket call.data⟩

def written (calls : List ReadyRead) : List UInt8 := (micStreamer.trace .init calls).flatten

def captured (calls : List ReadyRead) : List UInt8 := calls.flatMap ReadyRead.data

structure Connection where
  segments : List (List UInt8)
  broken : Bool

def Connection.bytes (c : Connection) : List UInt8 := c.segments.flatten

/-- `recv` of at most `size` bytes: what there is of the next segment. At the end it gives none. -/
def recv (size : ℕ) : List (List UInt8) → List UInt8 × List (List UInt8)
  | [] => ([], [])
  | segment :: segments =>
      if segment = [] then recv size segments
      else (segment.take size, segment.drop size :: segments)

inductive RecvResult
  | read (bytes : List UInt8)
  | closed
  | failed

def RecvResult.prepend (bytes : List UInt8) : RecvResult → RecvResult
  | read more => read (bytes ++ more)
  | closed => closed
  | failed => failed

def recvExact (size : ℕ) (c : Connection) : RecvResult × Connection :=
  if size = 0 then (.read [], c)
  else
    match recv size c.segments with
    | ([], rest) => (if c.broken then .failed else .closed, { c with segments := rest })
    | (b :: bytes, rest) =>
        let r := recvExact (size - (b :: bytes).length) { c with segments := rest }
        (r.1.prepend (b :: bytes), r.2)
termination_by size
decreasing_by
  rw [List.length_cons]
  omega

structure AudioPacketHeader where
  sync : UInt16
  payloadSize : UInt16
  seq : UInt32

/-- The packed structure, as the bytes read into it make it on a little-endian machine. -/
def AudioPacketHeader.ofBytes (bytes : List UInt8) : AudioPacketHeader where
  sync := UInt16.ofNat (ofLittleEndian (bytes.take 2))
  payloadSize := UInt16.ofNat (ofLittleEndian ((bytes.drop 2).take 2))
  seq := UInt32.ofNat (ofLittleEndian ((bytes.drop 4).take 4))

/-- A turn of the loop: the number in the header if it was read, the payload if it was passed to the
SPI device, whether the loop goes on, and the connection after it. -/
structure StreamTurn where
  seq : Option UInt32
  payload : Option (List UInt8)
  goesOn : Bool
  rest : Connection

structure Streamed where
  seqs : List UInt32
  payloads : List (List UInt8)

section

variable (pcm_out : Option (List UInt8 → Bool)) (spi : List UInt8 → Bool)

def streamTurn (c : Connection) : StreamTurn :=
  match recvExact 8 c with
  | (.read bytes, c) =>
      let header := AudioPacketHeader.ofBytes bytes
      if header.sync ≠ syncWord then ⟨some header.seq, none, false, c⟩
      else if header.payloadSize.toNat ≠ frameBytes then ⟨some header.seq, none, false, c⟩
      else
        match recvExact header.payloadSize.toNat c with
        | (.read payload, c) =>
            if pcm_out.all fun write => write payload then
              ⟨some header.seq, some payload, spi payload, c⟩
            else ⟨some header.seq, none, false, c⟩
        | (_, c) => ⟨some header.seq, none, false, c⟩
  | (_, c) => ⟨none, none, false, c⟩

end

def Socket.Works (socket : Socket) : Prop :=
  socket.connected = true ∧ ∀ packet, socket.write packet = true

def Socket.reliable : Socket := ⟨true, fun _ => true⟩

theorem works_reliable : Socket.reliable.Works := ⟨rfl, fun _ => rfl⟩

theorem Socket.Works.eq_reliable {socket : Socket} (h : socket.Works) :
    socket = Socket.reliable := by
  obtain ⟨connected, write⟩ := socket
  obtain ⟨hconnected, hwrite⟩ := h
  rw [reliable, Socket.mk.injEq]
  exact ⟨hconnected, funext hwrite⟩

namespace MicStreamer

variable {socket : Socket} {s : MicStreamer}

theorem sendFrames_short (h : s.m_captureBuffer.length < frameBytes) :
    sendFrames socket s = (s, []) := by
  rw [sendFrames, if_neg (Nat.not_le.mpr h)]

theorem sendFrames_frame (hworks : socket.Works) (h : frameBytes ≤ s.m_captureBuffer.length) :
    sendFrames socket s =
      ((sendFrames socket ⟨s.m_captureBuffer.drop frameBytes, s.m_seq + 1⟩).1,
        packetOf s.m_seq (s.m_captureBuffer.take frameBytes) ++
          (sendFrames socket ⟨s.m_captureBuffer.drop frameBytes, s.m_seq + 1⟩).2) := by
  rw [sendFrames, if_pos h]
  dsimp only
  rw [if_pos (hworks.2 _)]

theorem sendFrames_append (hworks : socket.Works) (buffer more : List UInt8) (seq : UInt32) :
    sendFrames socket ⟨buffer ++ more, seq⟩ =
      let r := sendFrames socket ⟨buffer, seq⟩
      let r' := sendFrames socket { r.1 with m_captureBuffer := r.1.m_captureBuffer ++ more }
      (r'.1, r.2 ++ r'.2) := by
  by_cases h : frameBytes ≤ buffer.length
  · have hlong : frameBytes ≤ (buffer ++ more).length := by
      rw [List.length_append]
      omega
    rw [sendFrames_frame (s := ⟨buffer, seq⟩) hworks h,
      sendFrames_frame (s := ⟨buffer ++ more, seq⟩) hworks hlong]
    dsimp only
    rw [List.drop_append_of_le_length h, List.take_append_of_le_length h,
      sendFrames_append hworks (buffer.drop frameBytes) more (seq + 1), List.append_assoc]
  · rw [sendFrames_short (s := ⟨buffer, seq⟩) (Nat.not_le.mp h)]
    rfl
termination_by buffer.length
decreasing_by
  rw [List.length_drop]
  unfold frameBytes at *
  omega

end MicStreamer

theorem captured_concat (calls : List ReadyRead) (call : ReadyRead) :
    captured (calls ++ [call]) = captured calls ++ call.data := by
  rw [captured, List.flatMap_append, List.flatMap_singleton]
  rfl

theorem written_concat (calls : List ReadyRead) (call : ReadyRead) :
    written (calls ++ [call]) =
      written calls ++ micStreamer.output (micStreamer.run .init calls) call := by
  rw [written, Machine.trace_concat, List.flatten_append, List.flatten_singleton]
  rfl

theorem run_written {calls : List ReadyRead} (hworks : ∀ call ∈ calls, call.socket.Works) :
    (micStreamer.run .init calls, written calls) =
      MicStreamer.sendFrames .reliable ⟨captured calls, 0⟩ := by
  induction calls using List.reverseRecOn with
  | nil => exact (MicStreamer.sendFrames_short (s := .init) (Nat.succ_pos 1919)).symm
  | append_singleton calls call ih =>
    rw [List.forall_mem_append, List.forall_mem_singleton] at hworks
    have hrun := ih hworks.1
    have hcall : micStreamer.step (micStreamer.run .init calls) call =
        if call.data = [] then (micStreamer.run .init calls, [])
        else
          MicStreamer.sendFrames .reliable { micStreamer.run .init calls with
            m_captureBuffer := (micStreamer.run .init calls).m_captureBuffer ++ call.data } := by
      show MicStreamer.onAudioReadyRead call.socket call.data _ = _
      rw [hworks.2.eq_reliable]
      rfl
    rw [Machine.run_concat, written_concat, captured_concat, Machine.next, Machine.output, hcall]
    by_cases hdata : call.data = []
    · rw [if_pos hdata, hdata, List.append_nil, List.append_nil]
      exact hrun
    · rw [if_neg hdata, MicStreamer.sendFrames_append works_reliable (captured calls), ← hrun]

theorem recv_flatten (size : ℕ) (segments : List (List UInt8)) :
    (recv size segments).1 ++ (recv size segments).2.flatten = segments.flatten := by
  induction segments with
  | nil => rfl
  | cons segment segments ih =>
    rw [recv]
    split_ifs with hempty
    · rw [ih, hempty]
      rfl
    · rw [List.flatten_cons, ← List.append_assoc, List.take_append_drop, List.flatten_cons]

theorem length_recv_le (size : ℕ) (segments : List (List UInt8)) :
    (recv size segments).1.length ≤ size := by
  induction segments with
  | nil => exact Nat.zero_le size
  | cons segment segments ih =>
    rw [recv]
    split_ifs
    · exact ih
    · exact List.length_take_le size segment

theorem flatten_of_recv {size : ℕ} (hsize : size ≠ 0) {segments : List (List UInt8)}
    (h : (recv size segments).1 = []) : segments.flatten = [] := by
  induction segments with
  | nil => rfl
  | cons segment segments ih =>
    rw [recv] at h
    split_ifs at h with hempty
    · rw [List.flatten_cons, hempty, ih h]
      rfl
    · exact absurd (List.take_eq_nil_iff.mp h) (not_or.mpr ⟨hsize, hempty⟩)

/-- What the first `recv` gives is the beginning of what is asked for. -/
theorem recvExact_step {size : ℕ} (hsize : size ≠ 0) {c : Connection} {b : UInt8}
    {got : List UInt8} {segments : List (List UInt8)}
    (h : recv size c.segments = (b :: got, segments)) :
    recvExact size c =
      ((recvExact (size - (b :: got).length) { c with segments }).1.prepend (b :: got),
        (recvExact (size - (b :: got).length) { c with segments }).2) := by
  rw [recvExact, if_neg hsize, h]

theorem recvExact_end {size : ℕ} (hsize : size ≠ 0) {c : Connection}
    {segments : List (List UInt8)} (h : recv size c.segments = ([], segments)) :
    recvExact size c = (if c.broken then .failed else .closed, { c with segments }) := by
  rw [recvExact, if_neg hsize, h]

theorem recvExact_read (size : ℕ) (c : Connection) (h : size ≤ c.bytes.length) :
    ∃ rest, recvExact size c = (.read (c.bytes.take size), rest) ∧
      rest.bytes = c.bytes.drop size := by
  by_cases hsize : size = 0
  · rw [recvExact, if_pos hsize, hsize]
    exact ⟨c, rfl, rfl⟩
  · have hflatten := recv_flatten size c.segments
    have hlength := length_recv_le size c.segments
    cases hrecv : recv size c.segments with
    | mk got segments =>
      rw [hrecv] at hflatten hlength
      cases got with
      | nil =>
        have hend := flatten_of_recv hsize (congrArg Prod.fst hrecv)
        rw [Connection.bytes, hend] at h
        exact absurd (Nat.le_zero.mp h) hsize
      | cons b got =>
        have hbytes : c.bytes = (b :: got) ++ segments.flatten := hflatten.symm
        have hle : size - (b :: got).length ≤ segments.flatten.length := by
          rw [hbytes, List.length_append] at h
          omega
        obtain ⟨rest, hread, hrest⟩ :=
          recvExact_read (size - (b :: got).length) { c with segments } hle
        rw [recvExact_step hsize hrecv, hread, hbytes, List.take_append, List.drop_append,
          List.take_of_length_le hlength, List.drop_eq_nil_of_le hlength]
        exact ⟨rest, rfl, hrest⟩
termination_by size
decreasing_by
  rw [List.length_cons]
  omega

theorem recvExact_short (size : ℕ) (c : Connection) (h : c.bytes.length < size)
    (bytes : List UInt8) : (recvExact size c).1 ≠ .read bytes := by
  have hsize : size ≠ 0 := Nat.ne_zero_of_lt h
  have hflatten := recv_flatten size c.segments
  cases hrecv : recv size c.segments with
  | mk got segments =>
    rw [hrecv] at hflatten
    cases got with
    | nil =>
      rw [recvExact_end hsize hrecv]
      dsimp only
      split_ifs <;> exact RecvResult.noConfusion
    | cons b got =>
      have hbytes : c.bytes = (b :: got) ++ segments.flatten := hflatten.symm
      have hlt : segments.flatten.length < size - (b :: got).length := by
        rw [hbytes, List.length_append] at h
        omega
      have hnext := recvExact_short (size - (b :: got).length) { c with segments } hlt
      rw [recvExact_step hsize hrecv]
      dsimp only
      cases hr : (recvExact (size - (b :: got).length) { c with segments }).1 with
      | read more => exact absurd hr (hnext more)
      | closed => exact RecvResult.noConfusion
      | failed => exact RecvResult.noConfusion
termination_by size
decreasing_by
  rw [List.length_cons]
  omega

theorem of_recvExact {size : ℕ} {c rest : Connection} {bytes : List UInt8}
    (h : recvExact size c = (.read bytes, rest)) :
    size ≤ c.bytes.length ∧ rest.bytes = c.bytes.drop size := by
  by_cases hle : size ≤ c.bytes.length
  · obtain ⟨rest', hread, hrest⟩ := recvExact_read size c hle
    rw [h] at hread
    cases hread
    exact ⟨hle, hrest⟩
  · exact absurd (congrArg Prod.fst h) (recvExact_short size c (Nat.not_le.mp hle) bytes)

section

variable (pcm_out : Option (List UInt8 → Bool)) (spi : List UInt8 → Bool)

theorem streamTurn_rest {c : Connection} (h : (streamTurn pcm_out spi c).goesOn = true) :
    (streamTurn pcm_out spi c).rest.bytes.length < c.bytes.length := by
  unfold streamTurn at h ⊢
  cases hheader : recvExact 8 c with
  | mk r rest =>
    rw [hheader] at h
    cases r with
    | closed => exact absurd h Bool.false_ne_true
    | failed => exact absurd h Bool.false_ne_true
    | read bytes =>
      obtain ⟨hle, hrest⟩ := of_recvExact hheader
      dsimp only at h ⊢
      split_ifs at h ⊢
      cases hpayload : recvExact (AudioPacketHeader.ofBytes bytes).payloadSize.toNat rest with
      | mk r' rest' =>
        rw [hpayload] at h
        cases r' with
        | closed => exact absurd h Bool.false_ne_true
        | failed => exact absurd h Bool.false_ne_true
        | read payload =>
          obtain ⟨-, hrest'⟩ := of_recvExact hpayload
          dsimp only at h ⊢
          split_ifs at h ⊢
          dsimp only
          rw [hrest', hrest, List.length_drop, List.length_drop]
          omega

def handleAudioStreamClient (c : Connection) : Streamed :=
  let turn := streamTurn pcm_out spi c
  if turn.goesOn then
    let r := handleAudioStreamClient turn.rest
    ⟨turn.seq.toList ++ r.seqs, turn.payload.toList ++ r.payloads⟩
  else ⟨turn.seq.toList, turn.payload.toList⟩
termination_by c.bytes.length
decreasing_by
  apply streamTurn_rest
  assumption

variable {pcm_out spi} {c : Connection}

theorem handle_goesOn {seq : Option UInt32} {payload : Option (List UInt8)} {rest : Connection}
    (h : streamTurn pcm_out spi c = ⟨seq, payload, true, rest⟩) :
    handleAudioStreamClient pcm_out spi c =
      ⟨seq.toList ++ (handleAudioStreamClient pcm_out spi rest).seqs,
        payload.toList ++ (handleAudioStreamClient pcm_out spi rest).payloads⟩ := by
  rw [handleAudioStreamClient, h]
  rfl

theorem handle_stops {seq : Option UInt32} {payload : Option (List UInt8)} {rest : Connection}
    (h : streamTurn pcm_out spi c = ⟨seq, payload, false, rest⟩) :
    handleAudioStreamClient pcm_out spi c = ⟨seq.toList, payload.toList⟩ := by
  rw [handleAudioStreamClient, h]
  rfl

/-- A write that fails keeps at most the payload of its turn from being passed on, and is the end. -/
theorem streamTurn_fails (pcm_out : Option (List UInt8 → Bool)) (spi : List UInt8 → Bool)
    (c : Connection) : streamTurn pcm_out spi c = streamTurn none (fun _ => true) c ∨
      (streamTurn pcm_out spi c).goesOn = false ∧
        (streamTurn pcm_out spi c).payload.toList <+:
          (streamTurn none (fun _ => true) c).payload.toList := by
  unfold streamTurn
  cases recvExact 8 c with
  | mk r rest =>
    cases r with
    | closed => exact .inl rfl
    | failed => exact .inl rfl
    | read bytes =>
      dsimp only
      split_ifs with hsync hsize
      · exact .inl rfl
      · exact .inl rfl
      · cases recvExact (AudioPacketHeader.ofBytes bytes).payloadSize.toNat rest with
        | mk r' rest' =>
          cases r' with
          | closed => exact .inl rfl
          | failed => exact .inl rfl
          | read payload =>
            dsimp only
            by_cases hpcm : (pcm_out.all fun write => write payload) = true
            · rw [if_pos hpcm, if_pos Option.all_none]
              cases hspi : spi payload with
              | true => exact .inl rfl
              | false => exact .inr ⟨rfl, List.prefix_rfl⟩
            · rw [if_neg hpcm]
              exact .inr ⟨rfl, List.nil_prefix⟩

/-- Whatever fails, what is passed on is a beginning of what would be. -/
theorem payloads_fails (pcm_out : Option (List UInt8 → Bool)) (spi : List UInt8 → Bool)
    (c : Connection) : (handleAudioStreamClient pcm_out spi c).payloads <+:
      (handleAudioStreamClient none (fun _ => true) c).payloads := by
  cases hreliable : streamTurn none (fun _ => true) c with
  | mk seq payload goesOn rest =>
    obtain hsame | ⟨hstops, hpayload⟩ := streamTurn_fails pcm_out spi c
    · rw [hreliable] at hsame
      cases goesOn with
      | false =>
        rw [handle_stops hsame, handle_stops hreliable]
      | true =>
        have hshorter : rest.bytes.length < c.bytes.length := by
          have hrest := streamTurn_rest pcm_out spi (c := c) (by rw [hsame])
          rw [hsame] at hrest
          exact hrest
        rw [handle_goesOn hsame, handle_goesOn hreliable]
        exact (List.prefix_append_right_inj _).mpr (payloads_fails pcm_out spi rest)
    · cases hturn : streamTurn pcm_out spi c with
      | mk seq' payload' goesOn' rest' =>
        rw [hturn] at hstops hpayload
        rw [hreliable] at hpayload
        dsimp only at hstops hpayload
        subst hstops
        rw [handle_stops hturn]
        cases goesOn with
        | false => rw [handle_stops hreliable]; exact hpayload
        | true =>
          rw [handle_goesOn hreliable]
          exact hpayload.trans (List.prefix_append _ _)
termination_by c.bytes.length
decreasing_by exact hshorter

theorem length_packetHeader (payloadSize : UInt16) (seq : UInt32) :
    (packetHeader payloadSize seq).length = 8 := by
  rw [packetHeader, List.length_append, List.length_append, length_littleEndian,
    length_littleEndian, length_littleEndian]

theorem ofBytes_packetHeader (payloadSize : UInt16) (seq : UInt32) :
    AudioPacketHeader.ofBytes (packetHeader payloadSize seq) = ⟨syncWord, payloadSize, seq⟩ := by
  have hsync : (littleEndian 2 syncWord.toNat).length = 2 := length_littleEndian _ _
  have hsize : (littleEndian 2 payloadSize.toNat).length = 2 := length_littleEndian _ _
  have hseq : (littleEndian 4 seq.toNat).length = 4 := length_littleEndian _ _
  have hboth : (littleEndian 2 syncWord.toNat ++ littleEndian 2 payloadSize.toNat).length = 4 := by
    rw [List.length_append, hsync, hsize]
  rw [AudioPacketHeader.ofBytes, packetHeader, List.drop_left' hboth, List.append_assoc,
    List.take_left' hsync, List.drop_left' hsync, List.take_left' hsize,
    List.take_of_length_le hseq.le,
    ofLittleEndian_littleEndian _ _ syncWord.toNat_lt, ofLittleEndian_littleEndian _ _
      payloadSize.toNat_lt, ofLittleEndian_littleEndian _ _ seq.toNat_lt, UInt16.ofNat_toNat,
    UInt16.ofNat_toNat, UInt32.ofNat_toNat]

/-- A turn that finds the header of a frame reads the frame next. -/
theorem streamTurn_header {seq : UInt32}
    (h : c.bytes.take 8 = packetHeader (UInt16.ofNat frameBytes) seq) :
    ∃ rest, rest.bytes = c.bytes.drop 8 ∧ streamTurn pcm_out spi c =
      match recvExact frameBytes rest with
      | (.read payload, c) =>
          if pcm_out.all fun write => write payload then ⟨some seq, some payload, spi payload, c⟩
          else ⟨some seq, none, false, c⟩
      | (_, c) => ⟨some seq, none, false, c⟩ := by
  have hlength : 8 ≤ c.bytes.length := by
    have htake := congrArg List.length h
    rw [length_packetHeader, List.length_take] at htake
    omega
  obtain ⟨rest, hread, hrest⟩ := recvExact_read 8 c hlength
  refine ⟨rest, hrest, ?_⟩
  have hframe : (UInt16.ofNat frameBytes).toNat = frameBytes := rfl
  rw [streamTurn, hread, h]
  dsimp only
  rw [ofBytes_packetHeader]
  dsimp only
  rw [if_neg (not_not.mpr rfl), hframe, if_neg (not_not.mpr rfl)]

theorem streamTurn_packet (hpcm : ∀ write ∈ pcm_out, ∀ payload, write payload = true)
    (hspi : ∀ payload, spi payload = true) {seq : UInt32} {frame more : List UInt8}
    (hframe : frame.length = frameBytes) (h : c.bytes = packetOf seq frame ++ more) :
    ∃ rest, rest.bytes = more ∧
      streamTurn pcm_out spi c = ⟨some seq, some frame, true, rest⟩ := by
  have hheader := length_packetHeader (UInt16.ofNat frameBytes) seq
  rw [packetOf, hframe, List.append_assoc] at h
  have htake : c.bytes.take 8 = packetHeader (UInt16.ofNat frameBytes) seq := by
    rw [h, List.take_left' hheader]
  obtain ⟨rest, hrest, hturn⟩ := @streamTurn_header pcm_out spi c seq htake
  rw [h, List.drop_left' hheader] at hrest
  have hlength : frameBytes ≤ rest.bytes.length := by
    rw [hrest, List.length_append, hframe]
    exact Nat.le_add_right _ _
  obtain ⟨rest', hread, hrest'⟩ := recvExact_read frameBytes rest hlength
  have hwrites : (pcm_out.all fun write => write frame) = true := by
    rw [Option.all_eq_true]
    exact fun write hwrite => hpcm write hwrite frame
  rw [hrest, List.drop_left' hframe] at hrest'
  refine ⟨rest', hrest', ?_⟩
  rw [hturn, hread, hrest, List.take_left' hframe]
  dsimp only
  rw [if_pos hwrites, hspi]

theorem streamTurn_cut {seq : UInt32} {frame : List UInt8} (hframe : frame.length = frameBytes)
    (h : c.bytes <+: packetOf seq frame) (hcut : c.bytes.length < 8 + frameBytes) :
    ∃ rest, streamTurn pcm_out spi c =
      ⟨if 8 ≤ c.bytes.length then some seq else none, none, false, rest⟩ := by
  have hheader := length_packetHeader (UInt16.ofNat frameBytes) seq
  by_cases hlength : 8 ≤ c.bytes.length
  · rw [if_pos hlength]
    have htake : c.bytes.take 8 = packetHeader (UInt16.ofNat frameBytes) seq := by
      rw [List.prefix_iff_eq_take.mp h, List.take_take, Nat.min_eq_left hlength, packetOf, hframe,
        List.take_left' hheader]
    obtain ⟨rest, hrest, hturn⟩ := @streamTurn_header pcm_out spi c seq htake
    have hshort : rest.bytes.length < frameBytes := by
      rw [hrest, List.length_drop]
      omega
    rw [hturn]
    cases hpayload : recvExact frameBytes rest with
    | mk r rest' =>
      cases r with
      | closed => exact ⟨rest', rfl⟩
      | failed => exact ⟨rest', rfl⟩
      | read payload =>
        exact absurd (congrArg Prod.fst hpayload) (recvExact_short frameBytes rest hshort payload)
  · rw [if_neg hlength, streamTurn]
    cases hread : recvExact 8 c with
    | mk r rest =>
      cases r with
      | closed => exact ⟨rest, rfl⟩
      | failed => exact ⟨rest, rfl⟩
      | read bytes =>
        exact absurd (congrArg Prod.fst hread) (recvExact_short 8 c (Nat.not_le.mp hlength) bytes)

end

/-- Of `received` bytes of the stream of a capture: the frames of the packets that are complete, and
the numbers of the packets whose header is complete, from `seq` on. -/
structure Delivered (capture : List UInt8) (seq : UInt32) (received : ℕ) (r : Streamed) :
    Prop where
  payloads : r.payloads.flatten = capture.take (1920 * (received / 1928))
  count : r.payloads.length = received / 1928
  frames : ∀ payload ∈ r.payloads, payload.length = 1920
  seqs : r.seqs = (List.range ((received + 1920) / 1928)).map fun i => seq + UInt32.ofNat i

theorem Delivered.cons {capture frame : List UInt8} {seq : UInt32} {received : ℕ} {r : Streamed}
    (hframe : frame.length = 1920) (h : Delivered capture (seq + 1) received r) :
    Delivered (frame ++ capture) seq (1928 + received)
      ⟨(some seq).toList ++ r.seqs, (some frame).toList ++ r.payloads⟩ := by
  have hcount : (1928 + received) / 1928 = received / 1928 + 1 := by omega
  have hheaders : (1928 + received + 1920) / 1928 = (received + 1920) / 1928 + 1 := by omega
  constructor
  · have hlength : 1920 * (received / 1928 + 1) = frame.length + 1920 * (received / 1928) := by
      rw [hframe]
      ring
    rw [hcount, hlength, List.take_length_add_append, ← h.payloads]
    rfl
  · rw [hcount, ← h.count]
    rfl
  · exact List.forall_mem_cons.mpr ⟨hframe, h.frames⟩
  · rw [hheaders, List.range_succ_eq_map, List.map_cons, List.map_map, h.seqs]
    refine congrArg₂ List.cons (UInt32.add_zero seq).symm (List.map_congr_left fun i _ => ?_)
    rw [Function.comp_apply, Nat.succ_eq_add_one, UInt32.ofNat_add, UInt32.add_assoc,
      UInt32.add_comm 1]
    rfl

theorem delivered_cut {seq : UInt32} {received : ℕ} (capture : List UInt8)
    (h : received < 1928) :
    Delivered capture seq received ⟨(if 8 ≤ received then some seq else none).toList, []⟩ := by
  have hcount : received / 1928 = 0 := Nat.div_eq_of_lt h
  constructor
  · rw [hcount]
    rfl
  · exact hcount.symm
  · exact fun _ hmem => absurd hmem List.not_mem_nil
  · split_ifs with hheader
    · have hheaders : (received + 1920) / 1928 = 1 := by omega
      rw [hheaders]
      exact congrArg (· :: []) (UInt32.add_zero seq).symm
    · have hheaders : (received + 1920) / 1928 = 0 := by omega
      rw [hheaders]
      rfl

theorem length_packetOf {seq : UInt32} {frame : List UInt8} (hframe : frame.length = frameBytes) :
    (packetOf seq frame).length = 8 + frameBytes := by
  rw [packetOf, List.length_append, length_packetHeader, hframe]

/-- The server delivers the frames of a stream that starts with any number, cut off anywhere. -/
theorem delivered_frames {pcm_out : Option (List UInt8 → Bool)} {spi : List UInt8 → Bool}
    (hpcm : ∀ write ∈ pcm_out, ∀ payload, write payload = true)
    (hspi : ∀ payload, spi payload = true) (capture : List UInt8) (seq : UInt32) {c : Connection}
    (h : c.bytes <+: (MicStreamer.sendFrames .reliable ⟨capture, seq⟩).2) :
    Delivered capture seq c.bytes.length (handleAudioStreamClient pcm_out spi c) := by
  by_cases hframe : frameBytes ≤ capture.length
  · have hlength : (capture.take frameBytes).length = frameBytes := List.length_take_of_le hframe
    rw [MicStreamer.sendFrames_frame (s := ⟨capture, seq⟩) works_reliable hframe] at h
    dsimp only at h
    by_cases hcut : c.bytes.length < 8 + frameBytes
    · have hpacket := List.prefix_of_prefix_length_le h (List.prefix_append _ _)
        (by rw [length_packetOf hlength]; exact hcut.le)
      obtain ⟨rest, hturn⟩ := @streamTurn_cut pcm_out spi c seq _ hlength hpacket hcut
      rw [handle_stops hturn]
      exact delivered_cut capture hcut
    · have hpacket := List.prefix_of_prefix_length_le (List.prefix_append _ _) h
        (by rw [length_packetOf hlength]; exact Nat.not_lt.mp hcut)
      obtain ⟨more, hmore⟩ := hpacket
      obtain ⟨rest, hrest, hturn⟩ := streamTurn_packet hpcm hspi hlength hmore.symm
      rw [← hmore, List.prefix_append_right_inj, ← hrest] at h
      have hreceived : c.bytes.length = 1928 + rest.bytes.length := by
        rw [← hmore, List.length_append, length_packetOf hlength, hrest]
        rfl
      have hrec := delivered_frames hpcm hspi (capture.drop frameBytes) (seq + 1) h
      have hcons := hrec.cons hlength
      rw [List.take_append_drop] at hcons
      rw [handle_goesOn hturn, hreceived]
      exact hcons
  · rw [MicStreamer.sendFrames_short (s := ⟨capture, seq⟩) (Nat.not_le.mp hframe),
      List.prefix_nil] at h
    -- nothing arrives, which is a beginning of any packet
    have hpacket : c.bytes <+: packetOf seq (List.replicate frameBytes 0) :=
      h ▸ List.nil_prefix
    have hcut : c.bytes.length < 8 + frameBytes := by
      rw [h]
      exact Nat.succ_pos 1927
    obtain ⟨rest, hturn⟩ :=
      @streamTurn_cut pcm_out spi c seq _ List.length_replicate hpacket hcut
    rw [handle_stops hturn]
    exact delivered_cut capture hcut
termination_by capture.length
decreasing_by
  rw [List.length_drop]
  unfold frameBytes at *
  omega

/-- Of any session without failures, and however what it writes is cut into segments and cut off,
the frames of the packets that arrive completely are passed on, in order. -/
theorem frames_passed_on {calls : List ReadyRead} (hworks : ∀ call ∈ calls, call.socket.Works)
    {pcm_out : Option (List UInt8 → Bool)} {spi : List UInt8 → Bool}
    (hpcm : ∀ write ∈ pcm_out, ∀ payload, write payload = true)
    (hspi : ∀ payload, spi payload = true) {c : Connection} (hc : c.bytes <+: written calls) :
    Delivered (captured calls) 0 c.bytes.length (handleAudioStreamClient pcm_out spi c) := by
  have hwritten : written calls = (MicStreamer.sendFrames .reliable ⟨captured calls, 0⟩).2 :=
    congrArg Prod.snd (run_written hworks)
  rw [hwritten] at hc
  exact delivered_frames hpcm hspi (captured calls) 0 hc

/-- Two chunks that make a frame and a part of one. -/
def twoChunks : List ReadyRead :=
  [⟨.reliable, List.replicate 1000 1⟩, ⟨.reliable, List.replicate 1000 2⟩]

def twoSegments : Connection :=
  ⟨[(written twoChunks).take 500, (written twoChunks).drop 500], false⟩

theorem twoSegments_passed_on :
    Delivered (captured twoChunks) 0 twoSegments.bytes.length
      (handleAudioStreamClient none (fun _ => true) twoSegments) := by
  have hworks : ∀ call ∈ twoChunks, call.socket.Works :=
    List.forall_mem_cons.mpr ⟨works_reliable, List.forall_mem_singleton.mpr works_reliable⟩
  have hbytes : twoSegments.bytes = written twoChunks := by
    rw [Connection.bytes, twoSegments, List.flatten_cons, List.flatten_singleton,
      List.take_append_drop]
  exact frames_passed_on hworks (fun write hwrite => absurd hwrite (Option.not_mem_none write))
    (fun _ => rfl) (hbytes ▸ List.prefix_rfl)

end JeogiAt.MicStream
