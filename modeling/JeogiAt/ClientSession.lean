import JeogiAt.CommandReader
import JeogiAt.SendQueue

/-!
# The end of a client's session

`handle_client` starts four threads, and they and its own loop share the connection and the send
queue. The loop ends with `client_connected` or the stop flag; then the threads are joined, in the
order reader, writer, the two workers, and the connection is freed. A thread's call to the queue is
one step that waits for the lock, as in `Connection`.

No thread that uses the connection outlives it, and once the client is gone `Session.rank` bounds
what is left to do (`session_law`). That a thread's `SSL_read` returns is a step of its own: a
reader whose call never returns keeps `handle_client` at its first join.
-/

namespace JeogiAt.Server

/-- A frame to send: the text of its objects and the JPEG. -/
structure Frame where
  jsonPayload : List UInt8
  jpgBuffer : List UInt8

/-- `reader_thread_func`: at the test of its loop, in `SSL_read`, or returned. -/
inductive ReaderPc
  | test
  | reading
  | returned

/-- A worker: at the test of its loop, with packets of this turn to send, or returned. -/
inductive WorkerPc
  | test
  | sending (packets : List (UInt32 × Frame))
  | returned

/-- `handle_client`: at the test of its loop, with messages of this turn to send, past the loop, at
its joins, or done. -/
inductive MainPc
  | test
  | sending (messages : List (List UInt8))
  | leaving
  | joinReader
  | joinWriter
  | joinHanwha
  | joinPi
  | freed

structure Session where
  conn : Connection
  stopFlag : Bool
  reader : ReaderPc
  hanwha : WorkerPc
  pi : WorkerPc
  main : MainPc

inductive SessionThread
  | main
  | reader
  | writer
  | hanwha
  | pi

/-- A step of a thread, with the results of its calls and what it finds to send in a turn that
begins; or the signal that sets the stop flag. -/
inductive SessionStep
  | main (messages : List (List UInt8))
  | reader (result : SslRead)
  | writer (result : SslWrite)
  | hanwha (frame : Option Frame)
  | pi (frames : List (Option Frame))
  | stop

def SessionStep.thread : SessionStep → Option SessionThread
  | .main _ => some .main
  | .reader _ => some .reader
  | .writer _ => some .writer
  | .hanwha _ => some .hanwha
  | .pi _ => some .pi
  | .stop => none

def hanwhaPackets (frame : Option Frame) : List (UInt32 × Frame) :=
  frame.toList.map fun f => (1, f)

/-- The nodes have the ids from 2 on, those without a frame too. -/
def piPackets (frames : List (Option Frame)) : List (UInt32 × Frame) :=
  (frames.zipIdx 2).filterMap fun x => x.1.map fun f => (UInt32.ofNat x.2, f)

namespace Session

/-- The first list of zones is in the queue before the threads start. -/
def init (roi : Option (List UInt8)) : Session where
  conn := roi.elim .init fun jsonStr => Connection.init.enqueueJsonPacket jsonStr
  stopFlag := false
  reader := .test
  hanwha := .test
  pi := .test
  main := .test

/-- `reader_thread_func`. What it does with the bytes is `CommandReader`. -/
def readerStep (s : Session) (result : SslRead) : Session :=
  match s.reader with
  | .test => { s with reader := if s.conn.connected then .reading else .returned }
  | .reading =>
      match result with
      | .data _ => { s with reader := .test }
      | .again => { s with reader := .test }
      | .error => { s with conn := { s.conn with connected := false }, reader := .returned }
  | .returned => s

/-- The loop that `hanwha_worker` and `pi_worker` share. -/
def workerStep (conn : Connection) (stopFlag : Bool) (packets : List (UInt32 × Frame)) :
    WorkerPc → WorkerPc × Connection
  | .test => (if conn.connected ∧ ¬ stopFlag then .sending packets else .returned, conn)
  | .sending [] => (.test, conn)
  | .sending ((camId, frame) :: rest) =>
      if conn.writer.locked then (.sending ((camId, frame) :: rest), conn)
      else (.sending rest, conn.enqueueCameraPacket camId frame.jsonPayload frame.jpgBuffer)
  | .returned => (.returned, conn)

def hanwhaStep (s : Session) (frame : Option Frame) : Session :=
  let r := workerStep s.conn s.stopFlag (hanwhaPackets frame) s.hanwha
  { s with hanwha := r.1, conn := r.2 }

def piStep (s : Session) (frames : List (Option Frame)) : Session :=
  let r := workerStep s.conn s.stopFlag (piPackets frames) s.pi
  { s with pi := r.1, conn := r.2 }

/-- `handle_client` from its loop on. A join ends when its thread has returned. -/
def mainStep (s : Session) (messages : List (List UInt8)) : Session :=
  match s.main with
  | .test =>
      { s with main := if s.conn.connected ∧ ¬ s.stopFlag then .sending messages else .leaving }
  | .sending [] => { s with main := .test }
  | .sending (jsonStr :: rest) =>
      if s.conn.writer.locked then s
      else { s with main := .sending rest, conn := s.conn.enqueueJsonPacket jsonStr }
  | .leaving => { s with main := .joinReader, conn := { s.conn with connected := false } }
  | .joinReader => match s.reader with
      | .returned => { s with main := .joinWriter }
      | _ => s
  | .joinWriter => match s.conn.writer with
      | .returned => { s with main := .joinHanwha }
      | _ => s
  | .joinHanwha => match s.hanwha with
      | .returned => { s with main := .joinPi }
      | _ => s
  | .joinPi => match s.pi with
      | .returned => { s with main := .freed }
      | _ => s
  | .freed => s

def step (s : Session) : SessionStep → Session × Unit
  | .main messages => (s.mainStep messages, ())
  | .reader result => (s.readerStep result, ())
  | .writer result => ({ s with conn := s.conn.writerStep result }, ())
  | .hanwha frame => (s.hanwhaStep frame, ())
  | .pi frames => (s.piStep frames, ())
  | .stop => ({ s with stopFlag := true }, ())

end Session

def session : Machine Session SessionStep Unit := ⟨Session.step⟩

def ReaderPc.rank : ReaderPc → ℕ
  | test => 1
  | reading => 2
  | returned => 0

/-- A packet that is sent leaves the writer three steps more. -/
def WorkerPc.rank : WorkerPc → ℕ
  | test => 1
  | sending packets => 2 + 4 * packets.length
  | returned => 0

def WriterPc.rank : WriterPc → ℕ
  | test => 1
  | waiting => 3
  | holding => 2
  | popped _ => 4
  | writing _ _ => 3
  | returned => 0

def MainPc.rank : MainPc → ℕ
  | test => 6
  | sending messages => 7 + 4 * messages.length
  | leaving => 5
  | joinReader => 4
  | joinWriter => 3
  | joinHanwha => 2
  | joinPi => 1
  | freed => 0

def MainPc.joins : MainPc → ℕ
  | joinWriter => 1
  | joinHanwha => 2
  | joinPi => 3
  | freed => 4
  | _ => 0

def Connection.rank (c : Connection) : ℕ := c.writer.rank + 3 * c.queue.length

namespace Session

def rank (s : Session) : ℕ :=
  s.conn.rank + s.reader.rank + s.hanwha.rank + s.pi.rank + s.main.rank

def Moves (s : Session) (x : SessionStep) : Prop := x.thread ≠ none ∧ session.next s x ≠ s

theorem rank_enqueue (limit : ℕ) (pkt : SendPacket) (c : Connection) :
    (c.enqueue limit pkt).connected = c.connected ∧ (c.enqueue limit pkt).writer = c.writer ∧
      (c.enqueue limit pkt).rank ≤ c.rank + 3 := by
  unfold Connection.enqueue
  split_ifs
  · refine ⟨rfl, rfl, ?_⟩
    simp only [Connection.rank, List.length_append, List.length_singleton]
    omega
  · exact ⟨rfl, rfl, Nat.le_add_right _ 3⟩

theorem rank_writerStep {c : Connection} (h : c.connected = false) (result : SslWrite) :
    (c.writerStep result).connected = false ∧
      (c.writer = .returned ∧ c.writerStep result = c ∨ (c.writerStep result).rank < c.rank) := by
  obtain ⟨connected, queue, writer, accepted, popped, wire⟩ := c
  cases h
  cases writer with
  | test => exact ⟨rfl, .inr (by simp [Connection.writerStep, Connection.rank, WriterPc.rank])⟩
  | waiting => exact ⟨rfl, .inr (by simp [Connection.writerStep, Connection.rank, WriterPc.rank])⟩
  | holding =>
    cases queue with
    | nil => exact ⟨rfl, .inr (by simp [Connection.writerStep, Connection.rank, WriterPc.rank])⟩
    | cons pkt queue =>
      refine ⟨rfl, .inr ?_⟩
      simp only [Connection.writerStep, Connection.rank, WriterPc.rank, List.length_cons]
      omega
  | popped pkt =>
    exact ⟨rfl, .inr (by simp [Connection.writerStep, Connection.rank, WriterPc.rank])⟩
  | writing pkt total =>
    have hnot : ¬ (total < pkt.data.length ∧ false = true) := fun hboth => by cases hboth.2
    simp only [Connection.writerStep]
    rw [if_neg hnot]
    exact ⟨rfl, .inr (by simp [Connection.rank, WriterPc.rank])⟩
  | returned => exact ⟨rfl, .inl ⟨rfl, rfl⟩⟩

theorem rank_workerStep {c : Connection} (h : c.connected = false) (stopFlag : Bool)
    (packets : List (UInt32 × Frame)) (pc : WorkerPc) :
    let r := workerStep c stopFlag packets pc
    r.2.connected = false ∧ r.2.writer = c.writer ∧
      (r = (pc, c) ∧ (c.writer.locked = true ∨ pc = .returned) ∨
        r.2.rank + r.1.rank < c.rank + pc.rank) := by
  cases pc with
  | test => simp [workerStep, h, WorkerPc.rank]
  | returned => simp [workerStep, h]
  | sending packets =>
    cases packets with
    | nil => simp [workerStep, h, WorkerPc.rank]
    | cons packet rest =>
      obtain ⟨camId, frame⟩ := packet
      simp only [workerStep]
      split_ifs with hlocked
      · exact ⟨h, rfl, .inl ⟨rfl, .inl hlocked⟩⟩
      · obtain ⟨hconnected, hwriter, hrank⟩ :=
          rank_enqueue 6 (makePacket camId frame.jsonPayload frame.jpgBuffer) c
        refine ⟨hconnected.trans h, hwriter, .inr ?_⟩
        simp only [Connection.enqueueCameraPacket, WorkerPc.rank, List.length_cons]
        omega

theorem rank_readerStep {s : Session} (h : s.conn.connected = false) (result : SslRead) :
    (s.readerStep result).conn.connected = false ∧
      (s.reader = .returned ∧ s.readerStep result = s ∨ (s.readerStep result).rank < s.rank) := by
  obtain ⟨conn, stopFlag, reader, hanwha, pi, main⟩ := s
  cases reader with
  | returned => exact ⟨h, .inl ⟨rfl, rfl⟩⟩
  | test =>
    have hreturn : (⟨conn, stopFlag, .test, hanwha, pi, main⟩ : Session).readerStep result =
        ⟨conn, stopFlag, .returned, hanwha, pi, main⟩ := by
      simp only [readerStep]
      rw [if_neg (by rw [h]; exact Bool.false_ne_true)]
    rw [hreturn]
    exact ⟨h, .inr (by simp only [rank, ReaderPc.rank]; omega)⟩
  | reading =>
    cases result with
    | data chunk => exact ⟨h, .inr (by simp only [rank, readerStep, ReaderPc.rank]; omega)⟩
    | again => exact ⟨h, .inr (by simp only [rank, readerStep, ReaderPc.rank]; omega)⟩
    | error =>
      refine ⟨rfl, .inr ?_⟩
      simp only [rank, readerStep, ReaderPc.rank, Connection.rank]
      omega

theorem mainStep_frame (s : Session) (messages : List (List UInt8)) :
    (s.mainStep messages).reader = s.reader ∧ (s.mainStep messages).hanwha = s.hanwha ∧
      (s.mainStep messages).pi = s.pi ∧ (s.mainStep messages).conn.writer = s.conn.writer := by
  unfold mainStep
  cases s.main with
  | sending messages' =>
    cases messages' with
    | nil => exact ⟨rfl, rfl, rfl, rfl⟩
    | cons jsonStr rest =>
      dsimp only
      split_ifs
      · exact ⟨rfl, rfl, rfl, rfl⟩
      · exact ⟨rfl, rfl, rfl, (rank_enqueue 10 (makePacket 0 jsonStr []) s.conn).2.1⟩
  | test => exact ⟨rfl, rfl, rfl, rfl⟩
  | leaving => exact ⟨rfl, rfl, rfl, rfl⟩
  | freed => exact ⟨rfl, rfl, rfl, rfl⟩
  | joinReader => dsimp only; split <;> exact ⟨rfl, rfl, rfl, rfl⟩
  | joinWriter => dsimp only; split <;> exact ⟨rfl, rfl, rfl, rfl⟩
  | joinHanwha => dsimp only; split <;> exact ⟨rfl, rfl, rfl, rfl⟩
  | joinPi => dsimp only; split <;> exact ⟨rfl, rfl, rfl, rfl⟩

structure Returned (s : Session) : Prop where
  reader : s.reader = .returned
  writer : s.conn.writer = .returned
  hanwha : s.hanwha = .returned
  pi : s.pi = .returned

theorem rank_mainStep {s : Session} (h : s.conn.connected = false)
    (messages : List (List UInt8)) :
    (s.mainStep messages).conn.connected = false ∧
      (s.mainStep messages = s ∧ (s.main = .freed ∨ ¬ s.Returned) ∨
        (s.mainStep messages).rank < s.rank) := by
  obtain ⟨conn, stopFlag, reader, hanwha, pi, main⟩ := s
  cases main with
  | freed => exact ⟨h, .inl ⟨rfl, .inl rfl⟩⟩
  | test =>
    have hleave : (⟨conn, stopFlag, reader, hanwha, pi, .test⟩ : Session).mainStep messages =
        ⟨conn, stopFlag, reader, hanwha, pi, .leaving⟩ := by
      simp only [mainStep]
      rw [if_neg fun hboth => Bool.false_ne_true (h.symm.trans hboth.1)]
    rw [hleave]
    exact ⟨h, .inr (by simp only [rank, MainPc.rank]; omega)⟩
  | leaving =>
    refine ⟨rfl, .inr ?_⟩
    simp only [rank, mainStep, MainPc.rank, Connection.rank]
    omega
  | sending messages' =>
    cases messages' with
    | nil => exact ⟨h, .inr (by simp only [rank, mainStep, MainPc.rank, List.length_nil]; omega)⟩
    | cons jsonStr rest =>
      simp only [mainStep]
      split_ifs with hlocked
      · refine ⟨h, .inl ⟨rfl, .inr fun hall => ?_⟩⟩
        have hwriter : conn.writer = .returned := hall.writer
        rw [hwriter] at hlocked
        cases hlocked
      · obtain ⟨hconnected, -, hrank⟩ := rank_enqueue 10 (makePacket 0 jsonStr []) conn
        refine ⟨hconnected.trans h, .inr ?_⟩
        simp only [rank, Connection.enqueueJsonPacket, MainPc.rank, List.length_cons]
        omega
  | joinReader =>
    cases reader with
    | returned => exact ⟨h, .inr (by simp only [rank, mainStep, MainPc.rank]; omega)⟩
    | test => exact ⟨h, .inl ⟨rfl, .inr fun hall => by cases hall.reader⟩⟩
    | reading => exact ⟨h, .inl ⟨rfl, .inr fun hall => by cases hall.reader⟩⟩
  | joinWriter =>
    simp only [mainStep]
    split
    · exact ⟨h, .inr (by simp only [rank, MainPc.rank]; omega)⟩
    · next hne => exact ⟨h, .inl ⟨rfl, .inr fun hall => hne hall.writer⟩⟩
  | joinHanwha =>
    cases hanwha with
    | returned => exact ⟨h, .inr (by simp only [rank, mainStep, MainPc.rank]; omega)⟩
    | test => exact ⟨h, .inl ⟨rfl, .inr fun hall => by cases hall.hanwha⟩⟩
    | sending packets => exact ⟨h, .inl ⟨rfl, .inr fun hall => by cases hall.hanwha⟩⟩
  | joinPi =>
    cases pi with
    | returned => exact ⟨h, .inr (by simp only [rank, mainStep, MainPc.rank]; omega)⟩
    | test => exact ⟨h, .inl ⟨rfl, .inr fun hall => by cases hall.pi⟩⟩
    | sending packets => exact ⟨h, .inl ⟨rfl, .inr fun hall => by cases hall.pi⟩⟩

/-- What keeps a thread from moving: it has returned, the writer holds the lock, or for
`handle_client`, a thread that it joins has not returned. -/
def Blocked (s : Session) : SessionThread → Prop
  | .main => s.main = .freed ∨ ¬ s.Returned
  | .reader => s.reader = .returned
  | .writer => s.conn.writer = .returned
  | .hanwha => s.conn.writer.locked = true ∨ s.hanwha = .returned
  | .pi => s.conn.writer.locked = true ∨ s.pi = .returned

/-- Once the client is gone, a thread that is not blocked comes closer to the end. -/
theorem rank_next {s : Session} (h : s.conn.connected = false) {x : SessionStep}
    {thread : SessionThread} (hx : x.thread = some thread) :
    (session.next s x).conn.connected = false ∧
      (session.next s x = s ∧ s.Blocked thread ∨ (session.next s x).rank < s.rank) := by
  cases x with
  | stop => cases hx
  | main messages =>
    cases hx
    exact rank_mainStep h messages
  | reader result =>
    cases hx
    obtain ⟨hconnected, hrank⟩ := rank_readerStep h result
    exact ⟨hconnected, hrank.imp_left And.symm⟩
  | writer result =>
    cases hx
    obtain ⟨hconnected, hrank⟩ := rank_writerStep h result
    refine ⟨hconnected, hrank.imp (fun hstill => ⟨?_, hstill.1⟩) fun hlt => ?_⟩
    · change ({ s with conn := s.conn.writerStep result } : Session) = s
      rw [hstill.2]
    · change (s.conn.writerStep result).rank + s.reader.rank + s.hanwha.rank + s.pi.rank +
        s.main.rank < s.rank
      rw [rank]
      omega
  | hanwha frame =>
    cases hx
    obtain ⟨hconnected, -, hrank⟩ :=
      rank_workerStep h s.stopFlag (hanwhaPackets frame) s.hanwha
    refine ⟨hconnected, hrank.imp (fun hstill => ⟨?_, hstill.2⟩) fun hlt => ?_⟩
    · change s.hanwhaStep frame = s
      rw [hanwhaStep, hstill.1]
    · change (s.hanwhaStep frame).rank < s.rank
      simp only [hanwhaStep, rank]
      omega
  | pi frames =>
    cases hx
    obtain ⟨hconnected, -, hrank⟩ := rank_workerStep h s.stopFlag (piPackets frames) s.pi
    refine ⟨hconnected, hrank.imp (fun hstill => ⟨?_, hstill.2⟩) fun hlt => ?_⟩
    · change s.piStep frames = s
      rw [piStep, hstill.1]
    · change (s.piStep frames).rank < s.rank
      simp only [piStep, rank]
      omega

theorem exists_not_blocked {s : Session} (h : s.main ≠ .freed) : ∃ thread, ¬ s.Blocked thread := by
  by_cases hwriter : s.conn.writer = .returned
  · have hlocked : ¬ s.conn.writer.locked = true := by
      rw [hwriter]
      exact Bool.false_ne_true
    by_cases hreader : s.reader = .returned
    · by_cases hhanwha : s.hanwha = .returned
      · by_cases hpi : s.pi = .returned
        · exact ⟨.main, fun hblocked => hblocked.elim h fun hnot =>
            hnot ⟨hreader, hwriter, hhanwha, hpi⟩⟩
        · exact ⟨.pi, fun hblocked => hblocked.elim hlocked hpi⟩
      · exact ⟨.hanwha, fun hblocked => hblocked.elim hlocked hhanwha⟩
    · exact ⟨.reader, hreader⟩
  · exact ⟨.writer, hwriter⟩

theorem moves_of_not_blocked {s : Session} (h : s.conn.connected = false)
    {thread : SessionThread} (hfree : ¬ s.Blocked thread) {x : SessionStep}
    (hx : x.thread = some thread) : s.Moves x := by
  refine ⟨fun hnone => (by cases hnone.symm.trans hx), fun hsame => ?_⟩
  rcases (rank_next h hx).2 with ⟨-, hblocked⟩ | hlt
  · exact hfree hblocked
  · rw [hsame] at hlt
    exact Nat.lt_irrefl _ hlt

theorem rank_move {s : Session} {x : SessionStep} (h : s.conn.connected = false)
    (hmove : s.Moves x) :
    (session.next s x).conn.connected = false ∧ (session.next s x).rank < s.rank := by
  obtain ⟨hx, hne⟩ := hmove
  obtain ⟨thread, hthread⟩ := Option.ne_none_iff_exists'.mp hx
  obtain ⟨hconnected, hrank⟩ := rank_next h hthread
  exact ⟨hconnected, hrank.resolve_left fun hstill => hne hstill.1⟩

def Back (s : Session) : ℕ → Prop
  | 1 => s.reader = .returned
  | 2 => s.conn.writer = .returned
  | 3 => s.hanwha = .returned
  | 4 => s.pi = .returned
  | _ => True

def Joined (s : Session) : Prop := ∀ n ≤ s.main.joins, s.Back n

theorem workerStep_writer (c : Connection) (stopFlag : Bool) (packets : List (UInt32 × Frame))
    (pc : WorkerPc) : (workerStep c stopFlag packets pc).2.writer = c.writer := by
  cases pc with
  | test => rfl
  | returned => rfl
  | sending packets =>
    cases packets with
    | nil => rfl
    | cons packet rest =>
      simp only [workerStep]
      split_ifs
      · rfl
      · exact (rank_enqueue 6 _ c).2.1

theorem readerStep_frame (s : Session) (result : SslRead) :
    (s.readerStep result).conn.writer = s.conn.writer ∧
      (s.readerStep result).hanwha = s.hanwha ∧ (s.readerStep result).pi = s.pi ∧
      (s.readerStep result).main = s.main := by
  unfold readerStep
  cases s.reader with
  | test => exact ⟨rfl, rfl, rfl, rfl⟩
  | reading => cases result <;> exact ⟨rfl, rfl, rfl, rfl⟩
  | returned => exact ⟨rfl, rfl, rfl, rfl⟩

theorem Back.next {s : Session} {n : ℕ} (h : s.Back n) (x : SessionStep) :
    (session.next s x).Back n := by
  match n, h with
  | 0, _ => trivial
  | 1, (h : s.reader = .returned) =>
    cases x with
    | main messages => exact (mainStep_frame s messages).1.trans h
    | reader result =>
      change (s.readerStep result).reader = .returned
      unfold readerStep
      rw [h]
      exact h
    | writer result => exact h
    | hanwha frame => exact h
    | pi frames => exact h
    | stop => exact h
  | 2, (h : s.conn.writer = .returned) =>
    cases x with
    | main messages => exact (mainStep_frame s messages).2.2.2.trans h
    | reader result => exact (readerStep_frame s result).1.trans h
    | writer result =>
      change (s.conn.writerStep result).writer = .returned
      rw [Connection.writerStep, h]
      exact h
    | hanwha frame => exact (workerStep_writer s.conn s.stopFlag _ s.hanwha).trans h
    | pi frames => exact (workerStep_writer s.conn s.stopFlag _ s.pi).trans h
    | stop => exact h
  | 3, (h : s.hanwha = .returned) =>
    cases x with
    | main messages => exact (mainStep_frame s messages).2.1.trans h
    | reader result => exact (readerStep_frame s result).2.1.trans h
    | writer result => exact h
    | hanwha frame =>
      change (workerStep s.conn s.stopFlag _ s.hanwha).1 = .returned
      rw [h]
      rfl
    | pi frames => exact h
    | stop => exact h
  | 4, (h : s.pi = .returned) =>
    cases x with
    | main messages => exact (mainStep_frame s messages).2.2.1.trans h
    | reader result => exact (readerStep_frame s result).2.2.1.trans h
    | writer result => exact h
    | hanwha frame => exact h
    | pi frames =>
      change (workerStep s.conn s.stopFlag _ s.pi).1 = .returned
      rw [h]
      rfl
    | stop => exact h
  | _ + 5, _ => trivial

theorem mainStep_joins (s : Session) (messages : List (List UInt8)) :
    (s.mainStep messages).main.joins ≤ s.main.joins ∨
      (s.mainStep messages).main.joins = s.main.joins + 1 ∧ s.Back (s.main.joins + 1) := by
  obtain ⟨conn, stopFlag, reader, hanwha, pi, main⟩ := s
  cases main with
  | test =>
    simp only [mainStep]
    split_ifs <;> exact .inl (Nat.zero_le _)
  | sending messages' =>
    cases messages' with
    | nil => exact .inl (Nat.zero_le _)
    | cons jsonStr rest =>
      simp only [mainStep]
      split_ifs <;> exact .inl (Nat.zero_le _)
  | leaving => exact .inl (Nat.zero_le _)
  | freed => exact .inl (Nat.le_refl _)
  | joinReader =>
    cases reader with
    | returned => exact .inr ⟨rfl, rfl⟩
    | test => exact .inl (Nat.le_refl _)
    | reading => exact .inl (Nat.le_refl _)
  | joinWriter =>
    simp only [mainStep]
    split
    · next hwriter => exact .inr ⟨rfl, hwriter⟩
    · exact .inl (Nat.le_refl _)
  | joinHanwha =>
    cases hanwha with
    | returned => exact .inr ⟨rfl, rfl⟩
    | test => exact .inl (Nat.le_refl _)
    | sending packets => exact .inl (Nat.le_refl _)
  | joinPi =>
    cases pi with
    | returned => exact .inr ⟨rfl, rfl⟩
    | test => exact .inl (Nat.le_refl _)
    | sending packets => exact .inl (Nat.le_refl _)

theorem joins_next (s : Session) (x : SessionStep) :
    (session.next s x).main.joins ≤ s.main.joins ∨
      (session.next s x).main.joins = s.main.joins + 1 ∧ s.Back (s.main.joins + 1) := by
  cases x with
  | main messages => exact mainStep_joins s messages
  | reader result =>
    exact .inl (Nat.le_of_eq (congrArg MainPc.joins (readerStep_frame s result).2.2.2))
  | writer result => exact .inl (Nat.le_refl _)
  | hanwha frame => exact .inl (Nat.le_refl _)
  | pi frames => exact .inl (Nat.le_refl _)
  | stop => exact .inl (Nat.le_refl _)

theorem joined_next {s : Session} (h : s.Joined) (x : SessionStep) :
    (session.next s x).Joined := by
  intro n hn
  rcases joins_next s x with hle | ⟨hjoin, hback⟩
  · exact (h n (hn.trans hle)).next x
  · rcases Nat.lt_or_ge s.main.joins n with hlt | hge
    · have heq : n = s.main.joins + 1 := by omega
      subst heq
      exact hback.next x
    · exact (h n hge).next x

theorem joined_run (roi : Option (List UInt8)) (steps : List SessionStep) :
    (session.run (init roi) steps).Joined := by
  apply Machine.invariant_run (I := Joined) fun _ x h => joined_next h x
  intro n hn
  cases Nat.le_zero.mp hn
  trivial

theorem Joined.returned {s : Session} (h : s.Joined) (hfreed : s.main = .freed) : s.Returned := by
  have hback (n : ℕ) (hn : n ≤ 4) : s.Back n := h n (by rw [hfreed]; exact hn)
  exact ⟨hback 1 (by decide), hback 2 (by decide), hback 3 (by decide), hback 4 (by decide)⟩

theorem Returned.not_moves {s : Session} (h : s.Returned) (hfreed : s.main = .freed)
    (x : SessionStep) : ¬ s.Moves x := by
  rintro ⟨hthread, hne⟩
  apply hne
  obtain ⟨conn, stopFlag, reader, hanwha, pi, main⟩ := s
  cases h.reader
  cases h.hanwha
  cases h.pi
  cases hfreed
  cases x with
  | writer result =>
    obtain ⟨connected, queue, writer, accepted, popped, wire⟩ := conn
    cases h.writer
    rfl
  | stop => exact absurd rfl hthread
  | main messages => rfl
  | reader result => rfl
  | hanwha frame => rfl
  | pi frames => rfl

end Session

open Session

/-- Once the connection is freed, all threads have returned and none of them ever moves again. Once
the client is gone, whatever the order of the threads and the results of their calls, only so many
moves are left, and until the connection is freed there is a thread that can make one. -/
theorem session_law (roi : Option (List UInt8)) (steps : List SessionStep) :
    let s := session.run (.init roi) steps
    (s.main = .freed → s.Returned ∧ ∀ x, ¬ s.Moves x) ∧
      (s.conn.connected = false →
        (∀ more, session.Along Moves s more → more.length ≤ s.rank) ∧
          (s.main ≠ .freed → ∃ thread, ∀ x, x.thread = some thread → s.Moves x)) := by
  intro s
  refine ⟨fun hfreed => ?_, fun hgone => ⟨fun more hmore => ?_, fun hmain => ?_⟩⟩
  · have hreturned : s.Returned := (joined_run roi steps).returned hfreed
    exact ⟨hreturned, hreturned.not_moves hfreed⟩
  · exact Machine.length_le_rank (I := fun s => s.conn.connected = false)
      (fun _ _ => rank_move) hgone hmore
  · obtain ⟨thread, hfree⟩ := exists_not_blocked hmain
    exact ⟨thread, fun x hx => moves_of_not_blocked hgone hfree hx⟩

end JeogiAt.Server
