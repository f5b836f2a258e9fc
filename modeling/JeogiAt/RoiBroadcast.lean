import JeogiAt.RoiUpdates
import JeogiAt.SendQueue

/-!
# The broadcast of updated zones

`handle_client` sends the zones once when the client connects. At the top of each iteration its
loop takes the flag `g_roi_updated` with `exchange(false)`, and if the flag was up it loads
`config.json` and puts a `roi_list` message into the queue of its own client. The flag is one for
all clients.

A system state has the threads of `roi_update`, and for each client the connection with its queue
and the place where its loop stands. `need` is the version of the configuration completed when the
current iteration began, and `roi_lists` has the zones that the queue accepted with the version of
the file they came from. `dump` is the serialisation of a message.
-/

namespace JeogiAt.Server

/-- Where `handle_client` stands: before and after the first load, at the test of its loop, at the
exchange, before and after the load that follows it, in the rest of the body, or past the loop. -/
inductive LoopPc
  | start
  | startSend (version : ℕ) (zones : Json)
  | top
  | exchange
  | load
  | send (version : ℕ) (zones : Json)
  | rest
  | ended

structure Client where
  connection : Connection
  pc : LoopPc
  need : ℕ
  roi_lists : List (ℕ × Json)

structure Broadcast where
  roi : RoiSystem
  stop_flag : Bool
  clients : ℕ → Client

/-- A step of a reader thread, of a client's loop, or of the other threads at a client's queue, or
the end of the program. -/
inductive BroadcastAction
  | roi (action : RoiAction)
  | loop (t : ℕ)
  | queue (t : ℕ) (action : Action)
  | stop

def roiList (zones : Json) : Json := .obj [("type", .str "roi_list"), ("data", zones)]

/-- The other threads of a client are started after the first message. -/
def LoopPc.started : LoopPc → Bool
  | start => false
  | startSend _ _ => false
  | _ => true

def Client.init : Client := ⟨.init, .start, 0, []⟩

section

variable (dump : Json → List UInt8)

namespace Client

def sendRoiList (version : ℕ) (zones : Json) (c : Client) : Client :=
  { c with
    connection := c.connection.enqueueJsonPacket (dump (roiList zones))
    roi_lists := if c.connection.queue.length < 10 then c.roi_lists ++ [(version, zones)]
      else c.roi_lists }

def Received (c : Client) (version : ℕ) : Prop :=
  ∃ v zones, version ≤ v ∧ (v, zones) ∈ c.roi_lists ∧
    makePacket 0 (dump (roiList zones)) [] ∈ c.connection.accepted

/-- Nothing was completed before the iteration began, or the client has it. -/
def Served (c : Client) : Prop := c.need = 0 ∨ c.Received dump c.need

end Client

namespace Broadcast

def init (config : Json) : Broadcast := ⟨.init config, false, fun _ => .init⟩

def setClient (s : Broadcast) (t : ℕ) (c : Client) : Broadcast :=
  { s with clients := Function.update s.clients t c }

/-- `config["zones"]`, if the configuration has it. -/
def zones (s : Broadcast) : Option Json := (load s.roi.file).find? "zones"

def version (s : Broadcast) : ℕ := s.roi.saved.length

/-- The next step of a client's loop. The `enqueue` waits while the writer holds the lock. -/
def stepLoop (s : Broadcast) (t : ℕ) : Broadcast :=
  let c := s.clients t
  match c.pc with
  | .start =>
      match s.zones with
      | some zones => s.setClient t { c with pc := .startSend s.version zones }
      | none => s.setClient t { c with pc := .top }
  | .startSend version zones =>
      s.setClient t { c.sendRoiList dump version zones with pc := .top }
  | .top =>
      if c.connection.connected ∧ ¬ s.stop_flag then
        s.setClient t { c with pc := .exchange, need := s.roi.completed }
      else s.setClient t { c with pc := .ended }
  | .exchange =>
      if s.roi.g_roi_updated then
        { s with roi := { s.roi with g_roi_updated := false } }.setClient t { c with pc := .load }
      else s.setClient t { c with pc := .rest }
  | .load =>
      match s.zones with
      | some zones => s.setClient t { c with pc := .send s.version zones }
      | none => s.setClient t { c with pc := .rest }
  | .send version zones =>
      if c.connection.writer.locked then s
      else s.setClient t { c.sendRoiList dump version zones with pc := .rest }
  | .rest => s.setClient t { c with pc := .top }
  | .ended => s

def step (s : Broadcast) : BroadcastAction → Broadcast
  | .roi action => { s with roi := (roiSystem false).next s.roi action }
  | .loop t => s.stepLoop dump t
  | .queue t action =>
      let c := s.clients t
      if c.pc.started then
        s.setClient t { c with connection := connection.next c.connection action }
      else s
  | .stop => { s with stop_flag := true }

end Broadcast

def broadcast : Machine Broadcast BroadcastAction Unit := ⟨fun s action => (s.step dump action, ())⟩

end

namespace UpdatePc

def version : UpdatePc → ℕ
  | saved version => version
  | reloaded _ _ version => version
  | installed version => version
  | _ => 0

end UpdatePc

namespace RoiSystem

structure Versioned (s : RoiSystem) : Prop where
  completed_le : s.completed ≤ s.saved.length
  threads_le : ∀ t, (s.threads t).version ≤ s.saved.length

variable {s : RoiSystem} {t : ℕ} {pc : UpdatePc}

theorem versioned_init (config : Json) : (init config).Versioned := ⟨le_rfl, fun _ => le_rfl⟩

theorem versioned_moveTo (h : s.Versioned) (hpc : pc.version ≤ s.saved.length) :
    (s.moveTo t pc).Versioned :=
  ⟨h.completed_le, (Function.forall_update_iff s.threads fun _ pc =>
    pc.version ≤ s.saved.length).mpr ⟨hpc, fun t' _ => h.threads_le t'⟩⟩

theorem versioned_write (h : s.Versioned) (u : RoiUpdate) (config : Json) :
    (s.write t u config).Versioned := by
  have hlength : (s.saved ++ [u]).length = s.saved.length + 1 := List.length_append
  refine versioned_moveTo ⟨?_, fun t' => ?_⟩ ?_
  · exact h.completed_le.trans (hlength ▸ Nat.le_succ _)
  · exact (h.threads_le t').trans (hlength ▸ Nat.le_succ _)
  · exact hlength.ge

theorem versioned_next (h : s.Versioned) (action : RoiAction) :
    ((roiSystem false).next s action).Versioned := by
  cases action with
  | command t data =>
    simp only [Machine.next, roiSystem, step]
    split
    · exact versioned_moveTo h (Nat.zero_le _)
    · exact h
  | step t =>
    have hversion := h.threads_le t
    simp only [Machine.next, roiSystem, step]
    unfold stepThread
    cases hpc : s.threads t with
    | idle => exact h
    | accepted u => exact versioned_moveTo h (Nat.zero_le _)
    | loaded u config =>
      dsimp only
      split
      · exact versioned_moveTo h (Nat.zero_le _)
      · exact versioned_moveTo h (Nat.zero_le _)
    | modified u config =>
      exact versioned_moveTo ⟨h.completed_le, h.threads_le⟩ (Nat.zero_le _)
    | truncated u config => exact versioned_write h u config
    | saved version =>
      rw [hpc] at hversion
      exact versioned_moveTo h hversion
    | reloaded zones ok version =>
      rw [hpc] at hversion
      refine versioned_moveTo ⟨h.completed_le, h.threads_le⟩ ?_
      cases ok with
      | true => exact hversion
      | false => exact Nat.zero_le _
    | installed version =>
      rw [hpc] at hversion
      exact versioned_moveTo ⟨max_le h.completed_le hversion, h.threads_le⟩ (Nat.zero_le _)

end RoiSystem

namespace Connection

/-- The queue takes no packet back, and a connection that has ended does not come back. -/
structure Continues (c c' : Connection) : Prop where
  accepted : c.accepted <+: c'.accepted
  connected : c'.connected = true → c.connected = true

theorem continues_of_eq {c c' : Connection} (haccepted : c'.accepted = c.accepted)
    (hconnected : c'.connected = c.connected) : c.Continues c' := by
  refine ⟨?_, fun h => ?_⟩
  · rw [haccepted]
  · rw [← hconnected, h]

theorem continues_enqueue (limit : ℕ) (pkt : SendPacket) (c : Connection) :
    c.Continues (c.enqueue limit pkt) := by
  unfold enqueue
  split
  · exact ⟨List.prefix_append _ _, id⟩
  · exact continues_of_eq rfl rfl

theorem continues_writerStep (result : SslWrite) (c : Connection) :
    c.Continues (c.writerStep result) := by
  unfold writerStep
  split
  · exact continues_of_eq rfl rfl
  · exact continues_of_eq rfl rfl
  · split
    · exact continues_of_eq rfl rfl
    · exact continues_of_eq rfl rfl
  · exact continues_of_eq rfl rfl
  · split_ifs with hloop hn hwant
    · exact continues_of_eq rfl rfl
    · exact ⟨List.prefix_rfl, fun _ => hloop.2⟩
    · exact continues_of_eq rfl rfl
    · exact continues_of_eq rfl rfl
  · exact continues_of_eq rfl rfl

theorem continues_next (c : Connection) (action : Action) :
    c.Continues (connection.next c action) := by
  cases action with
  | enqueueCameraPacket camId jsonStr imgData =>
    simp only [Machine.next, connection, step]
    split
    · exact continues_of_eq rfl rfl
    · exact continues_enqueue 6 _ c
  | enqueueJsonPacket jsonStr =>
    simp only [Machine.next, connection, step]
    split
    · exact continues_of_eq rfl rfl
    · exact continues_enqueue 10 _ c
  | writer result => exact continues_writerStep result c
  | disconnect => exact ⟨List.prefix_rfl, fun h => absurd h Bool.false_ne_true⟩

end Connection

section

variable {dump : Json → List UInt8}

namespace Client

variable {c : Client}

theorem served_continue (h : c.Served dump) {connection : Connection}
    (hcontinues : c.connection.Continues connection) :
    Served dump { c with connection } := by
  rcases h with hzero | ⟨v, zones, hle, hmem, hpkt⟩
  · exact .inl hzero
  · exact .inr ⟨v, zones, hle, hmem, hcontinues.accepted.subset hpkt⟩

theorem served_sendRoiList (h : c.Served dump) (version : ℕ) (zones : Json) :
    (c.sendRoiList dump version zones).Served dump := by
  rcases h with hzero | ⟨v, zones', hle, hmem, hpkt⟩
  · exact .inl hzero
  · refine .inr ⟨v, zones', hle, ?_, (Connection.continues_enqueue 10 _ _).accepted.subset hpkt⟩
    unfold sendRoiList
    split
    · exact List.mem_append_left _ hmem
    · exact hmem

theorem served_sendRoiList_of_room (hroom : c.connection.queue.length < 10) {version : ℕ}
    (hneed : c.need ≤ version) (zones : Json) :
    (c.sendRoiList dump version zones).Served dump := by
  refine .inr ⟨version, zones, hneed, ?_, ?_⟩
  · simp only [sendRoiList, if_pos hroom]
    exact List.mem_append_right _ List.mem_cons_self
  · simp only [sendRoiList, Connection.enqueueJsonPacket, Connection.enqueue, if_pos hroom]
    exact List.mem_append_right _ List.mem_cons_self

def Progress (dump : Json → List UInt8) (c : Client) : Prop :=
  match c.pc with
  | .start => c.need = 0
  | .startSend _ _ => c.need = 0
  | .top => c.Served dump
  | .send version _ => c.need ≤ version
  | .rest => c.Served dump
  | _ => True

structure OnTime (dump : Json → List UInt8) (completed : ℕ) (c : Client) : Prop where
  need_le : c.need ≤ completed
  progress : c.connection.connected = true → c.Progress dump

theorem onTime_connection {completed : ℕ} (h : c.OnTime dump completed) {connection : Connection}
    (hcontinues : c.connection.Continues connection) :
    OnTime dump completed { c with connection } := by
  refine ⟨h.need_le, fun hconnected => ?_⟩
  have hprogress := h.progress (hcontinues.connected hconnected)
  unfold Progress at hprogress ⊢
  dsimp only
  split at hprogress
  · exact hprogress
  · exact hprogress
  · exact served_continue hprogress hcontinues
  · exact hprogress
  · exact served_continue hprogress hcontinues
  · trivial

end Client

namespace Broadcast

variable {s : Broadcast} {t : ℕ}

/-- A client that lacks the zones finds the flag up at its exchange, zones in the file at the load
that follows, and room in its queue. -/
def Reaches (dump : Json → List UInt8) (s : Broadcast) (c : Client) : Prop :=
  c.connection.connected = true → ¬ c.Served dump →
    match c.pc with
    | .exchange => s.roi.g_roi_updated = true
    | .load => s.zones ≠ none
    | .send _ _ => c.connection.writer.locked = false → c.connection.queue.length < 10
    | _ => True

def Reaching (dump : Json → List UInt8) (s : Broadcast) : BroadcastAction → Prop
  | .loop t => s.Reaches dump (s.clients t)
  | _ => True

structure Delivering (dump : Json → List UInt8) (s : Broadcast) : Prop where
  versioned : s.roi.Versioned
  client : ∀ t, (s.clients t).OnTime dump s.roi.completed

theorem delivering_init (config : Json) : (init config).Delivering dump :=
  ⟨RoiSystem.versioned_init config, fun _ => ⟨le_rfl, fun _ => rfl⟩⟩

theorem delivering_setClient (h : s.Delivering dump) {c : Client}
    (hc : c.OnTime dump s.roi.completed) : (s.setClient t c).Delivering dump :=
  ⟨h.versioned, (Function.forall_update_iff s.clients fun _ c =>
    c.OnTime dump s.roi.completed).mpr ⟨hc, fun t' _ => h.client t'⟩⟩

theorem delivering_stepLoop (h : s.Delivering dump) (hreach : s.Reaches dump (s.clients t)) :
    (s.stepLoop dump t).Delivering dump := by
  obtain ⟨hneed, hprogress⟩ := h.client t
  have hversion : (s.clients t).need ≤ s.version := hneed.trans h.versioned.completed_le
  unfold Client.Progress at hprogress
  unfold Reaches at hreach
  unfold stepLoop
  dsimp only
  cases hpc : (s.clients t).pc with
  | start =>
    rw [hpc] at hprogress
    dsimp only
    split
    · exact delivering_setClient h ⟨hneed, hprogress⟩
    · exact delivering_setClient h ⟨hneed, fun hconnected => .inl (hprogress hconnected)⟩
  | startSend version zones =>
    rw [hpc] at hprogress
    refine delivering_setClient h ⟨hneed, fun hconnected => .inl (hprogress ?_)⟩
    exact (Connection.continues_enqueue 10 _ _).connected hconnected
  | top =>
    dsimp only
    split
    · exact delivering_setClient h ⟨le_rfl, fun _ => trivial⟩
    · exact delivering_setClient h ⟨hneed, fun _ => trivial⟩
  | exchange =>
    rw [hpc] at hreach
    dsimp only
    split
    · have hcleared :
          Delivering dump { s with roi := { s.roi with g_roi_updated := false } } :=
        ⟨⟨h.versioned.completed_le, h.versioned.threads_le⟩, h.client⟩
      exact delivering_setClient hcleared ⟨hneed, fun _ => trivial⟩
    · rename_i hflag
      refine delivering_setClient h ⟨hneed, fun hconnected => ?_⟩
      by_contra hserved
      exact hflag (hreach hconnected hserved)
  | load =>
    rw [hpc] at hreach
    dsimp only
    split
    · exact delivering_setClient h ⟨hneed, fun _ => hversion⟩
    · rename_i hzones
      refine delivering_setClient h ⟨hneed, fun hconnected => ?_⟩
      by_contra hserved
      exact hreach hconnected hserved hzones
  | send version zones =>
    rw [hpc] at hprogress hreach
    dsimp only
    split
    · exact h
    · rename_i hlocked
      refine delivering_setClient h ⟨hneed, fun hconnected => ?_⟩
      have hbefore := (Connection.continues_enqueue 10 _ _).connected hconnected
      by_cases hserved : (s.clients t).Served dump
      · exact Client.served_sendRoiList hserved version zones
      · have hroom := hreach hbefore hserved (Bool.eq_false_iff.mpr hlocked)
        exact Client.served_sendRoiList_of_room hroom (hprogress hbefore) zones
  | rest =>
    rw [hpc] at hprogress
    exact delivering_setClient h ⟨hneed, hprogress⟩
  | ended => exact h

theorem delivering_next (h : s.Delivering dump) (action : BroadcastAction)
    (hreach : Reaching dump s action) : ((broadcast dump).next s action).Delivering dump := by
  cases action with
  | roi action =>
    refine ⟨RoiSystem.versioned_next h.versioned action, fun t => ?_⟩
    obtain ⟨hneed, hprogress⟩ := h.client t
    exact ⟨hneed.trans (RoiSystem.completed_le_next false s.roi action), hprogress⟩
  | loop t => exact delivering_stepLoop h hreach
  | queue t action =>
    simp only [Machine.next, broadcast, step]
    split
    · exact delivering_setClient h (Client.onTime_connection (h.client t)
        (Connection.continues_next _ action))
    · exact h
  | stop => exact ⟨h.versioned, h.client⟩

/-- When each client that lacks the zones finds the flag up, zones in the file and room in its
queue, then a client that is connected at the end of an iteration has been sent zones as new as
every update completed before the iteration. -/
theorem broadcast_received (dump : Json → List UInt8) (config : Json)
    (schedule : List BroadcastAction)
    (hreach : (broadcast dump).Along (Reaching dump) (init config) schedule) (t : ℕ)
    (htop : (((broadcast dump).run (init config) schedule).clients t).pc = .top)
    (hconnected :
      (((broadcast dump).run (init config) schedule).clients t).connection.connected = true) :
    (((broadcast dump).run (init config) schedule).clients t).Served dump := by
  have h : ((broadcast dump).run (init config) schedule).Delivering dump :=
    Machine.invariant_along (fun _ action h hgood => delivering_next h action hgood)
      (delivering_init config) hreach
  have hprogress := (h.client t).progress hconnected
  unfold Client.Progress at hprogress
  rw [htop] at hprogress
  exact hprogress

open RoiSystem (portConfig roiOfCam1)

/-- A command of one thread from its arrival to its end. -/
def updateActions (t : ℕ) (u : RoiUpdate) : List BroadcastAction :=
  (RoiAction.command t u.command :: List.replicate 7 (.step t)).map .roi

theorem run_map_roi (s : Broadcast) (actions : List RoiAction) :
    (broadcast dump).run s (actions.map .roi) =
      { s with roi := (roiSystem false).run s.roi actions } := by
  induction actions generalizing s with
  | nil => rfl
  | cons action actions ih => exact ih _

theorem along_reaching_map_roi (s : Broadcast) (actions : List RoiAction) :
    (broadcast dump).Along (Reaching dump) s (actions.map .roi) := by
  induction actions generalizing s with
  | nil => trivial
  | cons action actions ih => exact ⟨trivial, ih _⟩

theorem run_updateActions {s : Broadcast} {u : RoiUpdate} {config : Json}
    (hidle : s.roi.threads t = .idle) (hupdate : u.updateConfig (load s.roi.file) = some config)
    (hzones : (loadConfig config).2 = true) :
    (broadcast dump).run s (updateActions t u) =
      { s with
        roi := { s.roi with
          file := some config
          m_zones := (loadConfig config).1
          g_roi_updated := true
          saved := s.roi.saved ++ [u]
          completed := max s.roi.completed (s.roi.saved.length + 1) } } := by
  rw [updateActions, run_map_roi, RoiSystem.run_command_alone hidle hupdate hzones]

def cam1Message : List UInt8 :=
  ("\x7b\"data\":[\x7b\"camera_id\":\"CAM_01\",\"roi\":[0.0,0.0,1.0,1.0],\"zone_id\":5\x7d]," ++
    "\"type\":\"roi_list\"\x7d").toUTF8.data.toList

theorem broadcast_received_one :
    let dump : Json → List UInt8 := fun _ => cam1Message
    let config : Json := .obj [("port", .int 1883)]
    let schedule := [.loop 0] ++ updateActions 0 roiOfCam1 ++ List.replicate 5 (.loop 0)
    (broadcast dump).Along (Reaching dump) (init config) schedule ∧
      (((broadcast dump).run (init config) schedule).clients 0).pc = .top ∧
      (((broadcast dump).run (init config) schedule).clients 0).connection.connected = true ∧
      (((broadcast dump).run (init config) schedule).clients 0).Served dump := by
  intro dump config schedule
  have hupdated := @run_updateActions dump 0
    ((broadcast dump).run (init config) [.loop 0]) roiOfCam1
    (.obj [("port", .int 1883), ("zones", .arr [roiOfCam1.newZone])]) rfl rfl rfl
  have hreach : (broadcast dump).Along (Reaching dump) (init config) schedule := by
    refine Machine.along_append.mpr ⟨Machine.along_append.mpr ⟨?_, along_reaching_map_roi _ _⟩, ?_⟩
    · exact ⟨fun _ _ => trivial, trivial⟩
    · rw [Machine.run_append, hupdated]
      refine ⟨fun _ _ => trivial, fun _ _ => rfl, fun _ _ => ?_, fun _ _ _ => ?_,
        fun _ _ => trivial, trivial⟩
      · exact Option.some_ne_none (Json.arr [roiOfCam1.newZone])
      · exact Nat.zero_lt_succ 9
  have hend : (((broadcast dump).run (init config) schedule).clients 0).pc = .top ∧
      (((broadcast dump).run (init config) schedule).clients 0).connection.connected = true := by
    rw [Machine.run_append, Machine.run_append, hupdated]
    exact ⟨rfl, rfl⟩
  exact ⟨hreach, hend.1, hend.2, broadcast_received dump config schedule hreach 0 hend.1 hend.2⟩

/-- The loop of the first client takes the flag, and that of the second one finds it down. -/
def flagTaken : List BroadcastAction :=
  [.loop 0, .loop 0, .loop 1, .loop 1] ++ updateActions 0 roiOfCam1 ++
    [.loop 0, .loop 0, .loop 1, .loop 1, .loop 1]

theorem flag_taken :
    ¬ ∃ dump : Json → List UInt8, ∀ (config : Json) (schedule : List BroadcastAction) (t : ℕ),
      (((broadcast dump).run (init config) schedule).clients t).pc = .top →
        (((broadcast dump).run (init config) schedule).clients t).connection.connected = true →
          (((broadcast dump).run (init config) schedule).clients t).Served dump := by
  rintro ⟨dump, hall⟩
  have hupdated := @run_updateActions dump 0
    ((broadcast dump).run (init portConfig) [.loop 0, .loop 0, .loop 1, .loop 1]) roiOfCam1
    (.obj [("port", .int 1883), ("zones", .arr [roiOfCam1.newZone])]) rfl rfl rfl
  have hclient : ((broadcast dump).run (init portConfig) flagTaken).clients 1 =
      { Client.init.sendRoiList dump 0 (.arr []) with pc := .top, need := 1 } := by
    rw [flagTaken, Machine.run_append, Machine.run_append, hupdated]
    rfl
  have hserved := hall portConfig flagTaken 1
  rw [hclient] at hserved
  rcases hserved rfl rfl with hzero | ⟨v, zones, hle, hmem, -⟩
  · exact absurd hzero Nat.one_ne_zero
  · have hone : 1 ≤ v := hle
    have hfirst : (v, zones) ∈ [(0, Json.arr [])] := hmem
    rw [List.mem_singleton, Prod.mk.injEq] at hfirst
    omega

end Broadcast

end

end JeogiAt.Server
