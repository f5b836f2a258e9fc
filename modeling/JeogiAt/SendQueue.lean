import JeogiAt.CameraPacket
import JeogiAt.Library.Machine

/-!
# The server's send queue

One client connection of `client_handler.cpp`: the worker threads put packets into the queue, and
`writer_thread_func` takes them out and writes them. The queue's lock is held by the writer from
its test of the queue to the `unlock` after the pop, and by a worker for the whole of its critical
section, so a worker's call is one step and waits while the writer holds the lock.

`accepted` and `popped` record the packets that went into the queue and came out of it, and `wire`
the bytes that `SSL_write` took.
-/

namespace JeogiAt.Server

/-- Where `writer_thread_func` stands: at its outer test, in `wait_for`, at the test of the queue
with the lock held, after the pop, in the loop around `SSL_write`, or returned. -/
inductive WriterPc
  | test
  | waiting
  | holding
  | popped (pkt : SendPacket)
  | writing (pkt : SendPacket) (total : ℕ)
  | returned

structure SslWrite where
  n : ℤ
  wantWrite : Bool

structure Connection where
  connected : Bool
  queue : List SendPacket
  writer : WriterPc
  accepted : List SendPacket
  popped : List SendPacket
  wire : List UInt8

/-- A call of a worker thread, a step of the writer (with the result of `SSL_write`, if it calls
it), or the end of the connection seen by the reader. -/
inductive Action
  | enqueueCameraPacket (camId : UInt32) (jsonStr imgData : List UInt8)
  | enqueueJsonPacket (jsonStr : List UInt8)
  | writer (result : SslWrite)
  | disconnect

namespace WriterPc

def locked : WriterPc → Bool
  | holding => true
  | popped _ => true
  | _ => false

/-- The packet that the writer has taken out and not yet finished. -/
def current : WriterPc → List SendPacket
  | popped pkt => [pkt]
  | writing pkt _ => [pkt]
  | _ => []

def written : WriterPc → List UInt8
  | writing pkt total => pkt.data.take total
  | _ => []

end WriterPc

namespace Connection

def init : Connection := ⟨true, [], .test, [], [], []⟩

def enqueue (limit : ℕ) (pkt : SendPacket) (c : Connection) : Connection :=
  if c.queue.length < limit then
    { c with queue := c.queue ++ [pkt], accepted := c.accepted ++ [pkt] }
  else c

def enqueueCameraPacket (camId : UInt32) (jsonStr imgData : List UInt8) (c : Connection) :
    Connection :=
  c.enqueue 6 (makePacket camId jsonStr imgData)

def enqueueJsonPacket (jsonStr : List UInt8) (c : Connection) : Connection :=
  c.enqueue 10 (makePacket 0 jsonStr [])

/-- One step of `writer_thread_func`. The wait may end at any time, for it has a timeout. Sizes of
packets are far below the range of `int`. -/
def writerStep (result : SslWrite) (c : Connection) : Connection :=
  match c.writer with
  | .test => { c with writer := if c.connected then .waiting else .returned }
  | .waiting => { c with writer := .holding }
  | .holding =>
      match c.queue with
      | [] => { c with writer := .test }
      | pkt :: queue => { c with queue, writer := .popped pkt, popped := c.popped ++ [pkt] }
  | .popped pkt => { c with writer := .writing pkt 0 }
  | .writing pkt total =>
      if total < pkt.data.length ∧ c.connected then
        if result.n ≤ 0 then
          if result.wantWrite then c else { c with connected := false, writer := .returned }
        else
          { c with
            wire := c.wire ++ (pkt.data.drop total).take result.n.toNat
            writer := .writing pkt (total + result.n.toNat) }
      else { c with writer := .holding }
  | .returned => c

def step (c : Connection) : Action → Connection × Unit
  | .enqueueCameraPacket camId jsonStr imgData =>
      (if c.writer.locked then c else c.enqueueCameraPacket camId jsonStr imgData, ())
  | .enqueueJsonPacket jsonStr => (if c.writer.locked then c else c.enqueueJsonPacket jsonStr, ())
  | .writer result => (c.writerStep result, ())
  | .disconnect => ({ c with connected := false }, ())

end Connection

open Connection

def connection : Machine Connection Action Unit := ⟨Connection.step⟩

namespace Connection

def bytes (pkts : List SendPacket) : List UInt8 := pkts.flatMap SendPacket.data

def headData : List SendPacket → List UInt8
  | [] => []
  | pkt :: _ => pkt.data

/-- The packets popped are some that are on the wire in full, and then `rest`, the first of which
may be cut. While the connection lasts `rest` is the packet that the writer is working on. -/
structure Sent (c : Connection) (full rest : List SendPacket) (cut : List UInt8) : Prop where
  popped_eq : c.popped = full ++ rest
  wire_eq : c.wire = bytes full ++ cut
  cut_prefix : cut <+: headData rest
  connected : c.connected = true → rest = c.writer.current ∧ cut = c.writer.written

structure Ordered (c : Connection) : Prop where
  length_le : c.queue.length ≤ 10
  fifo : c.accepted = c.popped ++ c.queue
  sent : ∃ full rest cut, c.Sent full rest cut

theorem bytes_append (pkts more : List SendPacket) :
    bytes (pkts ++ more) = bytes pkts ++ bytes more := List.flatMap_append

theorem bytes_singleton (pkt : SendPacket) : bytes [pkt] = pkt.data := List.append_nil _

theorem headData_append {cut : List UInt8} {rest : List SendPacket} (h : cut <+: headData rest)
    (more : List SendPacket) : cut <+: headData (rest ++ more) := by
  cases rest with
  | nil =>
    rw [headData, List.prefix_nil] at h
    rw [h]
    exact List.nil_prefix
  | cons pkt rest => exact h

theorem ordered_init : init.Ordered :=
  ⟨Nat.zero_le _, rfl, [], [], [], rfl, rfl, List.nil_prefix, fun _ => ⟨rfl, rfl⟩⟩

/-- A packet accepted goes to the end of the queue, below the limit of its kind. -/
theorem ordered_enqueue {c : Connection} (h : c.Ordered) {limit : ℕ} (hlimit : limit ≤ 10)
    (pkt : SendPacket) : (c.enqueue limit pkt).Ordered := by
  by_cases hroom : c.queue.length < limit
  · rw [enqueue, if_pos hroom]
    obtain ⟨full, rest, cut, hs⟩ := h.sent
    refine ⟨?_, ?_, full, rest, cut, { hs with }⟩
    · rw [List.length_append, List.length_singleton]
      omega
    · rw [h.fifo, List.append_assoc]
  · rw [enqueue, if_neg hroom]
    exact h

theorem Sent.disconnect {c : Connection} {full rest : List SendPacket} {cut : List UInt8}
    (h : c.Sent full rest cut) (writer : WriterPc) :
    Sent { c with connected := false, writer } full rest cut :=
  ⟨h.popped_eq, h.wire_eq, h.cut_prefix, nofun⟩

/-- The writer moves on with the same packet in its hands, and as much of it written. -/
theorem Sent.move {c : Connection} {full rest : List SendPacket} {cut : List UInt8}
    (h : c.Sent full rest cut) {writer : WriterPc} {queue : List SendPacket}
    (hcurrent : writer.current = c.writer.current)
    (hwritten : writer.written = c.writer.written) :
    Sent { c with queue, writer } full rest cut := by
  refine ⟨h.popped_eq, h.wire_eq, h.cut_prefix, fun hc => ?_⟩
  rw [hcurrent, hwritten]
  exact h.connected hc

theorem Sent.pop {c : Connection} {full rest : List SendPacket} {cut : List UInt8}
    (h : c.Sent full rest cut) (hw : c.writer = .holding) (pkt : SendPacket)
    (queue : List SendPacket) :
    Sent { c with queue, writer := .popped pkt, popped := c.popped ++ [pkt] } full (rest ++ [pkt])
      cut := by
  refine ⟨?_, h.wire_eq, headData_append h.cut_prefix _, fun hc => ?_⟩
  · rw [h.popped_eq, List.append_assoc]
  · obtain ⟨hrest, hcut⟩ := h.connected hc
    rw [hw] at hrest hcut
    rw [hrest, hcut]
    exact ⟨rfl, rfl⟩

theorem Sent.write {c : Connection} {full rest : List SendPacket} {cut : List UInt8}
    (h : c.Sent full rest cut) {pkt : SendPacket} {total : ℕ} (hw : c.writer = .writing pkt total)
    (hc : c.connected = true) (n : ℕ) :
    Sent { c with wire := c.wire ++ (pkt.data.drop total).take n,
                  writer := .writing pkt (total + n) } full [pkt] (pkt.data.take (total + n)) := by
  obtain ⟨hrest, hcut⟩ := h.connected hc
  rw [hw] at hrest hcut
  refine ⟨?_, ?_, List.take_prefix _ _, fun _ => ⟨rfl, rfl⟩⟩
  · rw [h.popped_eq, hrest]
    rfl
  · rw [h.wire_eq, hcut, WriterPc.written, List.append_assoc, ← List.take_add]

theorem Sent.finish {c : Connection} {full rest : List SendPacket} {cut : List UInt8}
    (h : c.Sent full rest cut) {pkt : SendPacket} {total : ℕ} (hw : c.writer = .writing pkt total)
    (hc : c.connected = true) (hall : pkt.data.length ≤ total) :
    Sent { c with writer := .holding } (full ++ [pkt]) [] [] := by
  obtain ⟨hrest, hcut⟩ := h.connected hc
  rw [hw] at hrest hcut
  refine ⟨?_, ?_, List.nil_prefix, fun _ => ⟨rfl, rfl⟩⟩
  · rw [h.popped_eq, hrest, List.append_nil]
    rfl
  · rw [h.wire_eq, hcut, WriterPc.written, List.take_of_length_le hall, bytes_append,
      bytes_singleton, List.append_nil]

theorem ordered_writerStep {c : Connection} (h : c.Ordered) (result : SslWrite) :
    (c.writerStep result).Ordered := by
  obtain ⟨hlength, hfifo, full, rest, cut, hs⟩ := h
  unfold writerStep
  cases hw : c.writer with
  | test =>
    refine ⟨hlength, hfifo, full, rest, cut, hs.move ?_ ?_⟩
    · rw [hw]
      split_ifs <;> rfl
    · rw [hw]
      split_ifs <;> rfl
  | waiting =>
    exact ⟨hlength, hfifo, full, rest, cut, hs.move (by rw [hw]; rfl) (by rw [hw]; rfl)⟩
  | holding =>
    cases hq : c.queue with
    | nil =>
      rw [hq] at hfifo hlength
      exact ⟨hlength, hfifo, full, rest, cut, hs.move (by rw [hw]; rfl) (by rw [hw]; rfl)⟩
    | cons pkt queue =>
      rw [hq] at hfifo hlength
      refine ⟨?_, ?_, full, rest ++ [pkt], cut, hs.pop hw pkt queue⟩
      · exact (Nat.le_succ _).trans hlength
      · rw [hfifo, List.append_assoc, List.singleton_append]
  | popped pkt =>
    exact ⟨hlength, hfifo, full, rest, cut, hs.move (by rw [hw]; rfl) (by rw [hw]; rfl)⟩
  | writing pkt total =>
    dsimp only
    by_cases hloop : total < pkt.data.length ∧ c.connected
    · rw [if_pos hloop]
      split_ifs with hn hwant
      · exact ⟨hlength, hfifo, full, rest, cut, hs⟩
      · exact ⟨hlength, hfifo, full, rest, cut, hs.disconnect .returned⟩
      · exact ⟨hlength, hfifo, full, [pkt], _, hs.write hw hloop.2 result.n.toNat⟩
    · rw [if_neg hloop]
      by_cases hc : c.connected = true
      · have hall : pkt.data.length ≤ total := by
          by_contra hlt
          exact hloop ⟨Nat.not_le.mp hlt, hc⟩
        exact ⟨hlength, hfifo, full ++ [pkt], [], [], hs.finish hw hc hall⟩
      · exact ⟨hlength, hfifo, full, rest, cut, hs.popped_eq, hs.wire_eq, hs.cut_prefix,
          fun h => absurd h hc⟩
  | returned => exact ⟨hlength, hfifo, full, rest, cut, hs⟩

theorem ordered_next {c : Connection} (h : c.Ordered) (action : Action) :
    (connection.next c action).Ordered := by
  cases action with
  | enqueueCameraPacket camId jsonStr imgData =>
    simp only [Machine.next, connection, step]
    split_ifs
    · exact h
    · exact ordered_enqueue h (by omega) _
  | enqueueJsonPacket jsonStr =>
    simp only [Machine.next, connection, step]
    split_ifs
    · exact h
    · exact ordered_enqueue h le_rfl _
  | writer result => exact ordered_writerStep h result
  | disconnect =>
    obtain ⟨full, rest, cut, hs⟩ := h.sent
    exact ⟨h.length_le, h.fifo, full, rest, cut, hs.disconnect c.writer⟩

theorem ordered_run (schedule : List Action) : (connection.run init schedule).Ordered :=
  Machine.invariant_run (I := Ordered) (fun _ action h => ordered_next h action) ordered_init
    schedule

theorem next_camera_full {c : Connection} (h : 6 ≤ c.queue.length) (camId : UInt32)
    (jsonStr imgData : List UInt8) :
    connection.next c (.enqueueCameraPacket camId jsonStr imgData) = c := by
  have hfull : c.enqueueCameraPacket camId jsonStr imgData = c := by
    rw [enqueueCameraPacket, enqueue, if_neg (Nat.not_lt.mpr h)]
  simp only [Machine.next, connection, step, hfull, ite_self]

/-- In every run the queue holds at most ten packets, a camera packet is refused when six or more
are queued, and packets leave the queue in the order of their acceptance. The wire has the popped
packets in full and in this order; the first that is not there in full may be cut, and it is the
one that the writer is working on unless the connection has ended. -/
theorem send_queue_ordered (schedule : List Action) :
    (connection.run init schedule).queue.length ≤ 10 ∧
      (∀ past camId jsonStr imgData,
        past ++ [.enqueueCameraPacket camId jsonStr imgData] <+: schedule →
          6 ≤ (connection.run init past).queue.length →
            connection.run init (past ++ [.enqueueCameraPacket camId jsonStr imgData]) =
              connection.run init past) ∧
      (connection.run init schedule).accepted =
        (connection.run init schedule).popped ++ (connection.run init schedule).queue ∧
      ∃ full rest cut, (connection.run init schedule).Sent full rest cut := by
  have h := ordered_run schedule
  refine ⟨h.length_le, ?_, h.fifo, h.sent⟩
  intro past camId jsonStr imgData _ hsix
  rw [Machine.run_concat]
  exact next_camera_full hsix camId jsonStr imgData

/-- Two packets are popped after the connection has ended, and neither is written. -/
theorem popped_after_disconnect :
    ¬ ∀ schedule : List Action, ∃ full cut,
      (connection.run init schedule).wire = bytes full ++ cut ∧
        ((connection.run init schedule).popped = full ∧ cut = [] ∨
          ∃ last, (connection.run init schedule).popped = full ++ [last] ∧ cut <+: last.data) := by
  intro hall
  let w : Action := .writer ⟨1, false⟩
  let pkt := makePacket 0 [] []
  obtain ⟨full, cut, hwire, hpopped⟩ :=
    hall [.enqueueJsonPacket [], .enqueueJsonPacket [], w, w, w, .disconnect, w, w, w]
  have hnone : bytes full = [] := (List.append_eq_nil_iff.mp hwire.symm).1
  have hfirst : pkt ∈ full := by
    rcases hpopped with ⟨hfull, -⟩ | ⟨last, hlast, -⟩
    · rw [← hfull]
      exact List.mem_cons_self
    · have hsplit : [pkt] ++ [pkt] = full ++ [last] := hlast
      rw [← (List.append_inj' hsplit rfl).1]
      exact List.mem_cons_self
  have hdata : pkt.data = [] := List.flatMap_eq_nil_iff.mp hnone pkt hfirst
  revert hdata
  decide

end Connection

end JeogiAt.Server
