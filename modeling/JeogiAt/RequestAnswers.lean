import JeogiAt.HandlerReplies

/-!
# Requests and their answers on the Pi's line

The calls that use the UART hold a mutex, so they follow one another. The firmware answers each
frame once and in order, but only the queries read an answer, and bytes of earlier answers may still
be on their way when a query discards what has arrived.

`read_packet` takes the first frame that it finds. It is the query's own one exactly when none of
the bytes still on their way is an STX.
-/

namespace JeogiAt.Communication

open Audio Uart

inductive Query
  | getCo
  | getCo2
  | getWavs

inductive Returned
  | reading (out : Option ℚ)
  | files (files : List (List UInt8))

namespace Query

def request : Query → Request
  | getCo => .getCo
  | getCo2 => .getCo2
  | getWavs => .getWavs

def cmd : Query → UInt8
  | getCo => cmdGetCo
  | getCo2 => cmdGetCo2
  | getWavs => cmdGetWavs

/-- What the call returns, of the bytes that arrive after its request. -/
def call (uart_fd : ℤ) (input : List UInt8) : Query → Returned
  | getCo => .reading (Communication.getCo uart_fd input)
  | getCo2 => .reading (Communication.getCo2 uart_fd input)
  | getWavs => .files (Communication.getWavs uart_fd input)

def response (w : Surroundings) : Query → Command
  | getCo => sensorResponse cmdGetCo w.co_val
  | getCo2 => sensorResponse cmdGetCo2 w.co2_val
  | getWavs => wavsSent w

def payload (w : Surroundings) : Query → Returned
  | getCo => .reading (some (((toUint16 (w.co_val * 100)).toNat : ℚ) / 100))
  | getCo2 => .reading (some (((toUint16 (w.co2_val * 100)).toNat : ℚ) / 100))
  | getWavs => .files (parseFiles (wavsSent w).data)

end Query

def Request.query : Request → Option Query
  | .getCo => some .getCo
  | .getCo2 => some .getCo2
  | .getWavs => some .getWavs
  | _ => none

/-- The device, the bytes of its answers that have not arrived yet, and those that have arrived and
are not read. -/
structure Line (W : Type*) where
  device : Device W
  coming : List UInt8
  arrived : List UInt8

inductive LineStep
  | call (request : Request) (w : Surroundings)
  | arrive (n : ℕ)

/-- A query: the bytes that the firmware sent for it, what `read_packet` made of the bytes that
arrived, what the call returned, and what it should have returned. -/
structure QueryCall where
  sent : List UInt8
  read : ReadResult
  returned : Returned
  payload : Returned

def QueryCall.Own (q : QueryCall) : Prop :=
  q.read.ok = true ∧ q.read.out = q.sent ∧ q.read.rest = [] ∧ q.returned = q.payload

variable {W : Type*}

def Line.write (E : Env W) (w : Surroundings) (l : Line W) (bytes : List UInt8) :
    Device W × List UInt8 :=
  let (device, sent) := uartHandlerProcess E w { l.device with rx := uartRx.run l.device.rx bytes }
  (device, sent.flatten)

def line (E : Env W) (uart_fd : ℤ) : Machine (Line W) LineStep (Option QueryCall) where
  step l
    | .arrive n =>
        ({ l with coming := l.coming.drop n, arrived := l.arrived ++ l.coming.take n }, none)
    | .call request w =>
        match request.written uart_fd with
        | none => (l, none)
        | some bytes =>
            let (device, sent) := l.write E w bytes
            match request.query with
            | none => ({ l with device, coming := l.coming ++ sent }, none)
            | some query =>
                -- `tcflush` discards what has arrived; what is not read arrives later
                let input := l.coming ++ sent
                let read := readPacket input
                (⟨device, read.rest, []⟩,
                  some ⟨sent, read, query.call uart_fd input, query.payload w⟩)

/-- At a query no byte of an earlier answer that is still on its way is an STX, and its own answer
is one that `SendPacket` can send. -/
def Clear (l : Line W) : LineStep → Prop
  | .call request w => ∀ query ∈ request.query,
      pktStx ∉ l.coming ∧ (query.response w).data.length ≤ 250
  | .arrive _ => True

variable (E : Env W) {uart_fd : ℤ}

theorem Query.written_eq_frame (query : Query) (hfd : 0 ≤ uart_fd) :
    query.request.written uart_fd =
      some (Command.frame ⟨query.cmd, [], Nat.le_of_ble_eq_true rfl⟩) := by
  have hguard : ¬ uart_fd < 0 := Int.not_lt.mpr hfd
  cases query with
  | getCo => exact (if_neg hguard).trans (by decide)
  | getCo2 => exact (if_neg hguard).trans (by decide)
  | getWavs => exact (if_neg hguard).trans (by decide)

theorem process_query (query : Query) (w : Surroundings) (b : Board W) {pkt : Packet}
    (h : pkt.cmd = query.cmd) :
    (process E w b pkt).2 = [sendPacket w.stack (query.response w).cmd (query.response w).data
      (query.response w).len] := by
  cases query with
  | getCo =>
    rw [process_getCo E w b h, ← respondReading_eq w.stack]
    rfl
  | getCo2 =>
    rw [process_getCo2 E w b h, ← respondReading_eq w.stack]
    rfl
  | getWavs => rw [process_getWavs E w b h, processGetWavs_eq, Query.response]

theorem write_query (query : Query) (w : Surroundings) {l : Line W}
    (h : l.device.rx.rxState = .waitStx) :
    (l.write E w (Command.frame ⟨query.cmd, [], Nat.le_of_ble_eq_true rfl⟩)).2 =
      sendPacket w.stack (query.response w).cmd (query.response w).data (query.response w).len := by
  obtain ⟨pkt, hpkt, -, -, hsent⟩ := handle_frame E w h ⟨query.cmd, [], Nat.le_of_ble_eq_true rfl⟩
  have hcmd : pkt.cmd = query.cmd := congrArg Command.cmd hpkt
  rw [process_query E query w l.device.board hcmd] at hsent
  exact (congrArg List.flatten hsent).trans List.flatten_singleton

theorem write_waits (request : Request) (w : Surroundings) {l : Line W}
    (h : l.device.rx.rxState = .waitStx) {bytes : List UInt8}
    (hwritten : request.written uart_fd = some bytes) :
    (l.write E w bytes).1.rx.rxState = .waitStx := by
  obtain ⟨hle, rfl⟩ := request.written_eq_frame uart_fd bytes hwritten
  obtain ⟨pkt, -, hrx, -, -⟩ := handle_frame E w h ⟨request.cmd, request.data, hle⟩
  exact hrx

theorem readReading_junk {junk : List UInt8} (hjunk : pktStx ∉ junk) (cmd : UInt8)
    (input : List UInt8) :
    readReading cmd uart_fd (junk ++ input) = readReading cmd uart_fd input := by
  rw [readReading, readPacket_junk hjunk]
  rfl

theorem readReading_sensorResponse (cmd : UInt8) (val : ℚ) (hfd : 0 ≤ uart_fd) :
    readReading cmd uart_fd (sensorResponse cmd val).frame =
      some (((toUint16 (val * 100)).toNat : ℚ) / 100) := by
  have h := readReading_respond (Vector.replicate _ 0) cmd val hfd []
  rwa [respondReading_eq, List.append_nil, mul_comm, ← toNat_toUint16] at h

theorem getWavs_frame (c : Command) (hcmd : c.cmd = cmdRespWavs) (hfd : 0 ≤ uart_fd)
    {junk : List UInt8} (hjunk : pktStx ∉ junk) :
    Communication.getWavs uart_fd (junk ++ c.frame) = parseFiles c.data := by
  have hread := readPacket_frame c []
  rw [List.append_nil] at hread
  have hrx : c.frame = pktStx :: c.cmd :: c.len :: (c.data ++ [c.crc, pktEtx]) := by
    simp [Command.frame, Command.body]
  have hdata : (c.frame.drop 3).take (c.frame.getD 2 0).toNat = c.data := by
    rw [hrx]
    exact (congrArg (fun n => (c.data ++ [c.crc, pktEtx]).take n) c.toNat_len).trans List.take_left
  have hone : c.frame.getD 1 0 = cmdRespWavs := by rw [hrx, ← hcmd]; rfl
  rw [Communication.getWavs, if_neg (Int.not_lt.mpr hfd), readPacket_junk hjunk, hread]
  dsimp only
  rw [if_neg (by decide), if_neg (not_not.mpr hone), hdata]

theorem call_frame (query : Query) (hfd : 0 ≤ uart_fd) (w : Surroundings) {junk : List UInt8}
    (hjunk : pktStx ∉ junk) :
    query.call uart_fd (junk ++ (query.response w).frame) = query.payload w := by
  cases query with
  | getCo =>
    rw [Query.call, Communication.getCo, readReading_junk hjunk, Query.response,
      readReading_sensorResponse _ _ hfd, Query.payload]
  | getCo2 =>
    rw [Query.call, Communication.getCo2, readReading_junk hjunk, Query.response,
      readReading_sensorResponse _ _ hfd, Query.payload]
  | getWavs => rw [Query.call, Query.response, getWavs_frame _ rfl hfd hjunk, Query.payload]

/-- The frame that is read is the one sent last if and only if no STX is left before it. -/
theorem own_frame_iff {stack : Vector UInt8 (pktMaxDataLen + 6)} {c : Command} {sent : List UInt8}
    (hsent : sent = sendPacket stack c.cmd c.data c.len) (coming : List UInt8) :
    ((readPacket (coming ++ sent)).ok = true ∧ (readPacket (coming ++ sent)).out = sent ∧
        (readPacket (coming ++ sent)).rest = []) ↔
      pktStx ∉ coming ∧ c.data.length ≤ 250 := by
  constructor
  · rintro ⟨hok, hout, hrest⟩
    obtain ⟨junk, hjunk, hsplit, hlength⟩ := exists_of_readPacket hok
    rw [hout, hrest, List.append_nil] at hsplit
    refine ⟨List.append_cancel_right hsplit ▸ hjunk, ?_⟩
    by_contra hlong
    have hle := length_sendPacket_long stack c (by omega)
    rw [hout, hsent] at hlength
    omega
  · rintro ⟨hclear, hshort⟩
    have hread := readPacket_frame c []
    rw [sendPacket_short stack c hshort] at hsent
    rw [List.append_nil] at hread
    rw [readPacket_junk hclear, hsent, hread]
    exact ⟨rfl, rfl, rfl⟩

theorem Request.eq_of_query {request : Request} {query : Query}
    (h : request.query = some query) : request = query.request := by
  cases request <;> cases h <;> rfl

theorem line_command (l : Line W) {request : Request} (hquery : request.query = none)
    (w : Surroundings) {bytes : List UInt8} (hwritten : request.written uart_fd = some bytes) :
    (line E uart_fd).step l (.call request w) =
      ({ l with device := (l.write E w bytes).1, coming := l.coming ++ (l.write E w bytes).2 },
        none) := by
  simp only [line, hwritten, hquery]

theorem line_query (l : Line W) (query : Query) (w : Surroundings) {bytes : List UInt8}
    (hwritten : query.request.written uart_fd = some bytes) :
    (line E uart_fd).step l (.call query.request w) =
      (⟨(l.write E w bytes).1, (readPacket (l.coming ++ (l.write E w bytes).2)).rest, []⟩,
        some ⟨(l.write E w bytes).2, readPacket (l.coming ++ (l.write E w bytes).2),
          query.call uart_fd (l.coming ++ (l.write E w bytes).2), query.payload w⟩) := by
  have hquery : query.request.query = some query := by cases query <;> rfl
  simp only [line, hwritten, hquery]

theorem own_query_iff (hfd : 0 ≤ uart_fd) (l : Line W) (query : Query) (w : Surroundings)
    (h : l.device.rx.rxState = .waitStx) :
    (∀ q ∈ (line E uart_fd).output l (.call query.request w), q.Own) ↔
      pktStx ∉ l.coming ∧ (query.response w).data.length ≤ 250 := by
  have hsent := write_query E query w h
  rw [Machine.output, line_query E l query w (query.written_eq_frame hfd),
    ← own_frame_iff hsent l.coming]
  simp only [Option.mem_some_iff, forall_eq']
  constructor
  · rintro ⟨hok, hout, hrest, -⟩
    exact ⟨hok, hout, hrest⟩
  · rintro hread
    obtain ⟨hclear, hshort⟩ := (own_frame_iff hsent l.coming).mp hread
    refine ⟨hread.1, hread.2.1, hread.2.2, ?_⟩
    dsimp only
    rw [hsent, sendPacket_short w.stack _ hshort]
    exact call_frame query hfd w hclear

theorem own_none : ∀ q ∈ (none : Option QueryCall), q.Own :=
  fun q hq => absurd hq (Option.not_mem_none q)

/-- A step keeps the receiver waiting, and a query reads its own answer exactly on a clear line. -/
theorem line_step (hfd : 0 ≤ uart_fd) (l : Line W) (step : LineStep)
    (h : l.device.rx.rxState = .waitStx) :
    ((line E uart_fd).next l step).device.rx.rxState = .waitStx ∧
      ((∀ q ∈ (line E uart_fd).output l step, q.Own) ↔ Clear l step) := by
  cases step with
  | arrive n => exact ⟨h, iff_of_true own_none trivial⟩
  | call request w =>
    cases hquery : request.query with
    | some query =>
      obtain rfl := request.eq_of_query hquery
      have hwritten := query.written_eq_frame hfd
      constructor
      · rw [Machine.next, line_query E l query w hwritten]
        exact write_waits E query.request w h hwritten
      · rw [own_query_iff E hfd l query w h, Clear, hquery]
        simp only [Option.mem_some_iff, forall_eq']
    | none =>
      have hclear : Clear l (.call request w) := by
        rw [Clear, hquery]
        exact fun query hnone => absurd hnone (Option.not_mem_none query)
      cases hwritten : request.written uart_fd with
      | none =>
        have hstep : (line E uart_fd).step l (.call request w) = (l, none) := by
          simp only [line, hwritten]
        rw [Machine.next, Machine.output, hstep]
        exact ⟨h, iff_of_true own_none hclear⟩
      | some bytes =>
        rw [Machine.next, Machine.output, line_command E l hquery w hwritten]
        exact ⟨write_waits E request w h hwritten, iff_of_true own_none hclear⟩

theorem stx_mem_write_trainDest (w : Surroundings) {l : Line W}
    (h : l.device.rx.rxState = .waitStx) {c : Command} (hcmd : c.cmd = cmdTrainDest) :
    pktStx ∈ (l.write E w c.frame).2 := by
  obtain ⟨pkt, hpkt, -, -, hsent⟩ := handle_frame E w h c
  have hpktCmd : pkt.cmd = cmdTrainDest := (congrArg Command.cmd hpkt).trans hcmd
  have hanswer : ∃ answer : Command, (process E w l.device.board pkt).2 = [answer.frame] := by
    rw [process_trainDest E w l.device.board hpktCmd, processTrainDest]
    split_ifs
    · exact ⟨_, congrArg (fun bytes => [bytes]) (sendNack_eq_frame _ pkt.cmd errInvalidData)⟩
    · exact ⟨_, congrArg (fun bytes => [bytes]) (sendAck_eq_frame _ pkt.cmd)⟩
  obtain ⟨answer, hanswer⟩ := hanswer
  rw [hanswer] at hsent
  have hbytes : (l.write E w c.frame).2 = answer.frame :=
    (congrArg List.flatten hsent).trans List.flatten_singleton
  rw [hbytes]
  exact List.mem_cons_self

/-- However calls and arriving bytes are interleaved, every query returns what the answer to it says
exactly when no query is made with an STX of an earlier answer still on its way, or for a list of
files that cannot be sent. -/
theorem queries_own_iff (hfd : 0 ≤ uart_fd) {l : Line W} (h : l.device.rx.rxState = .waitStx)
    (steps : List LineStep) :
    (∀ y ∈ (line E uart_fd).trace l steps, ∀ q ∈ y, q.Own) ↔
      (line E uart_fd).Along Clear l steps :=
  Machine.forall_trace_iff_along (I := fun l => l.device.rx.rxState = .waitStx)
    (fun l step hl => line_step E hfd l step hl) h

theorem queries_own_first :
    let l : Line Unit := ⟨Device.start (), [], []⟩
    (0 : ℤ) ≤ 3 ∧ l.device.rx.rxState = .waitStx ∧
      ∀ y ∈ (line noCard 3).trace l [.call .getCo .bare], ∀ q ∈ y, q.Own := by
  intro l
  have hfd : (0 : ℤ) ≤ 3 := by omega
  have hclear : Clear l (.call .getCo .bare) := by
    rintro query hquery
    cases hquery
    exact ⟨List.not_mem_nil, Nat.le_of_ble_eq_true rfl⟩
  exact ⟨hfd, rfl, (queries_own_iff noCard hfd rfl [.call .getCo .bare]).mpr ⟨hclear, trivial⟩⟩

/-- A destination is sent, and a reading queried before the acknowledgement has arrived. -/
theorem late_ack_read :
    ¬ ∀ (E : Env Unit) (uart_fd : ℤ), 0 ≤ uart_fd → ∀ (d : Device Unit),
      d.rx.rxState = .waitStx → ∀ steps : List LineStep,
        ∀ y ∈ (line E uart_fd).trace ⟨d, [], []⟩ steps, ∀ q ∈ y, q.Own := by
  intro hall
  have hfd : (0 : ℤ) ≤ 3 := by omega
  have hown := hall noCard 3 hfd (Device.start ()) rfl
    [.call (.trainDest 1) .bare, .call .getCo .bare]
  obtain ⟨l, hl⟩ : ∃ l : Line Unit, l = ⟨Device.start (), [], []⟩ := ⟨_, rfl⟩
  have hwaits : l.device.rx.rxState = .waitStx := by rw [hl]; rfl
  rw [← hl, Machine.trace_cons, Machine.trace_cons, List.forall_mem_cons,
    List.forall_mem_cons] at hown
  obtain ⟨c, hc⟩ : ∃ c : Command, c = ⟨cmdTrainDest, [1], Nat.le_of_ble_eq_true rfl⟩ := ⟨_, rfl⟩
  have hwritten : (Request.trainDest 1).written 3 = some c.frame := by rw [hc]; decide
  have hnext := congrArg Prod.fst (line_command noCard l rfl .bare hwritten)
  have hstx := stx_mem_write_trainDest noCard .bare hwaits (congrArg Command.cmd hc)
  have hclear := (own_query_iff noCard hfd _ .getCo .bare
    (line_step noCard hfd l (.call (.trainDest 1) .bare) hwaits).1).mp hown.2.1
  rw [Machine.next, hnext] at hclear
  exact hclear.1 (List.mem_append_right _ hstx)

end JeogiAt.Communication
