import JeogiAt.Library.Json
import JeogiAt.Library.Machine

/-!
# The control mode on the server and on the motor's Pi

Both machines keep a flag `g_auto_mode`. The server sets its own one in `handle_qt_command` and
then publishes the mode; the Pi sets its own one when `handle_mqtt_command` gets the message. A
message that is not published is not sent again.

`flagAfter` is the Pi's flag once everything in flight is handled. A mode command keeps it equal to
the server's flag exactly when its message is published or would change nothing.
-/

namespace JeogiAt.Motor

def handleMqttCommand (g_auto_mode : Bool) (type action : String) (speed : Int32) :
    Bool × Option Int32 :=
  if type = "mode_control" then
    if action = "auto" then (true, none)
    else if action = "manual" then (false, some 0)
    else (g_auto_mode, none)
  else if type = "motor_control" then
    if g_auto_mode then (g_auto_mode, none)
    else if action = "start" then (g_auto_mode, some speed)
    else if action = "stop" then (g_auto_mode, some 0)
    else (g_auto_mode, none)
  else (g_auto_mode, none)

/-- `MotorCallback::message_arrived` on a payload that parses. -/
def messageArrived (g_auto_mode : Bool) (data : Json) : Bool × Option Int32 :=
  let fields : Option (String × String × Int32) := do
    let type ← data.value "type" "" Json.getString
    let action ← data.value "action" "" Json.getString
    let speed ← data.value "speed" 0 Json.getInt
    some (type, action, speed)
  match fields with
  | some (type, action, speed) => handleMqttCommand g_auto_mode type action speed
  | none => (g_auto_mode, none)

def IsModeMessage (data : Json) : Prop :=
  data.value "type" "" Json.getString = some "mode_control"

theorem handleMqttCommand_flag (g_auto_mode : Bool) {type : String} (h : type ≠ "mode_control")
    (action : String) (speed : Int32) :
    (handleMqttCommand g_auto_mode type action speed).1 = g_auto_mode := by
  unfold handleMqttCommand
  rw [if_neg h]
  split_ifs <;> rfl

theorem messageArrived_flag (g_auto_mode : Bool) {data : Json} (h : ¬ IsModeMessage data) :
    (messageArrived g_auto_mode data).1 = g_auto_mode := by
  unfold messageArrived
  cases htype : data.value "type" "" Json.getString with
  | none => rfl
  | some type =>
    have hne : type ≠ "mode_control" := fun he => h (htype.trans (congrArg some he))
    cases data.value "action" "" Json.getString with
    | none => rfl
    | some action =>
      cases data.value "speed" 0 Json.getInt with
      | none => rfl
      | some speed => exact handleMqttCommand_flag g_auto_mode hne action speed

end JeogiAt.Motor

namespace JeogiAt.Server

open Motor (messageArrived IsModeMessage)

/-- How a use of `g_mqtt_client` ends. -/
inductive Mqtt
  | unconnected
  | throws
  | publishes
  deriving DecidableEq

def Mqtt.publish : Mqtt → Json → Option Json
  | publishes, payload => some payload
  | unconnected, _ => none
  | throws, _ => none

def modeMessage (mode : String) : Json :=
  .obj [("type", .str "mode_control"), ("action", .str mode)]

def sendModeCommand (client : Mqtt) (mode : String) : Option Json :=
  client.publish (modeMessage mode)

def sendMotorCommand (client : Mqtt) (action : String) (speed : Int32) : Option Json :=
  client.publish
    (.obj [("type", .str "motor_control"), ("action", .str action), ("speed", .int speed.toInt)])

/-- What `handle_qt_command` reads of a device command: the device, the action and the data. -/
def deviceFields (data : Json) : Option (String × String × Json) := do
  let type ← data.value "type" "" Json.getString
  if type = "device_command" then
    let cmdData ← data.value "data" (.obj []) some
    let device ← cmdData.value "device" "" Json.getString
    let action ← cmdData.value "action" "" Json.getString
    some (device, action, cmdData)
  else none

/-- A command to the motor: what is published, or `none` for an exception. -/
def motorCommand (client : Mqtt) (action : String) (cmdData : Json) : Option (Option Json) := do
  let speed ← cmdData.value "speed" 100 Json.getInt
  if action = "start" ∨ action = "on" then some (sendMotorCommand client "start" speed)
  else if action = "stop" ∨ action = "off" then some (sendMotorCommand client "stop" 0)
  else some none

/-- `handle_qt_command` as far as the flag and the motor's topic go: the flag afterwards and what
is published. After an exception, and on commands of another type, neither changes. -/
def handleQtCommand (client : Mqtt) (g_auto_mode : Bool) (data : Json) : Bool × Option Json :=
  match deviceFields data with
  | some (device, action, cmdData) =>
      if device = "mode_control" then
        if action = "auto" then (true, sendModeCommand client "auto")
        else if action = "manual" then (false, sendModeCommand client "manual")
        else (g_auto_mode, none)
      -- the speaker and the display have topics of their own
      else if g_auto_mode = false ∧ device = "motor" then
        (g_auto_mode, (motorCommand client action cmdData).getD none)
      else (g_auto_mode, none)
  | none => (g_auto_mode, none)

def modeCommand (data : Json) : Option Bool :=
  match deviceFields data with
  | some (device, action, _) =>
      if device = "mode_control" then
        if action = "auto" then some true else if action = "manual" then some false else none
      else none
  | none => none

def modeName (mode : Bool) : String := if mode then "auto" else "manual"

def modeRequest (mode : Bool) : Json :=
  .obj [("type", .str "device_command"),
    ("data", .obj [("device", .str "mode_control"), ("action", .str (modeName mode))])]

theorem modeCommand_modeRequest (mode : Bool) : modeCommand (modeRequest mode) = some mode := by
  cases mode <;> simp [modeCommand, deviceFields, modeRequest, modeName, Json.value,
    Json.getString, Json.lookup_cons_eq]

theorem messageArrived_modeMessage (g_auto_mode mode : Bool) :
    (messageArrived g_auto_mode (modeMessage (modeName mode))).1 = mode := by
  cases mode <;> simp [messageArrived, modeMessage, modeName, Motor.handleMqttCommand, Json.value,
    Json.getString, Json.lookup_cons_eq]

theorem not_isModeMessage_motor {client : Mqtt} {action : String} {speed : Int32} {m : Json}
    (h : sendMotorCommand client action speed = some m) : ¬ IsModeMessage m := by
  cases client with
  | unconnected => cases h
  | throws => cases h
  | publishes =>
    cases h
    simp [IsModeMessage, Json.value, Json.getString]

theorem motorCommand_message {client : Mqtt} {action : String} {cmdData m : Json}
    (h : (motorCommand client action cmdData).getD none = some m) : ¬ IsModeMessage m := by
  unfold motorCommand at h
  cases hspeed : cmdData.value "speed" 100 Json.getInt with
  | none =>
    rw [hspeed] at h
    cases h
  | some speed =>
    simp only [hspeed, Option.bind_eq_bind, Option.bind_some] at h
    split_ifs at h
    · exact not_isModeMessage_motor h
    · exact not_isModeMessage_motor h
    · cases h

theorem handleQtCommand_mode {data : Json} {mode : Bool} (h : modeCommand data = some mode)
    (client : Mqtt) (g_auto_mode : Bool) :
    handleQtCommand client g_auto_mode data =
      (mode, client.publish (modeMessage (modeName mode))) := by
  unfold modeCommand at h
  unfold handleQtCommand
  generalize deviceFields data = fields at h ⊢
  rcases fields with _ | ⟨device, action, cmdData⟩
  · cases h
  · dsimp only at h ⊢
    split_ifs at h ⊢
    · cases h
      rfl
    · cases h
      rfl

theorem handleQtCommand_other {data : Json} (h : modeCommand data = none) (client : Mqtt)
    (g_auto_mode : Bool) :
    (handleQtCommand client g_auto_mode data).1 = g_auto_mode ∧
      ∀ m, (handleQtCommand client g_auto_mode data).2 = some m → ¬ IsModeMessage m := by
  unfold modeCommand at h
  unfold handleQtCommand
  generalize deviceFields data = fields at h ⊢
  rcases fields with _ | ⟨device, action, cmdData⟩
  · exact ⟨rfl, fun m hm => by cases hm⟩
  · dsimp only at h ⊢
    split_ifs at h ⊢
    · exact ⟨rfl, fun m hm => by cases hm⟩
    · exact ⟨rfl, fun m hm => motorCommand_message hm⟩
    · exact ⟨rfl, fun m hm => by cases hm⟩

structure ModeState where
  server : Bool
  pi : Bool
  inFlight : List Json

inductive ModeEvent
  | qtCommand (data : Json) (client : Mqtt)
  | deliver

namespace ModeState

def init : ModeState := ⟨true, true, []⟩

def step (s : ModeState) : ModeEvent → ModeState
  | .qtCommand data client =>
      let r := handleQtCommand client s.server data
      { s with server := r.1, inFlight := s.inFlight ++ r.2.toList }
  | .deliver =>
      match s.inFlight with
      | m :: rest => { s with pi := (messageArrived s.pi m).1, inFlight := rest }
      | [] => s

end ModeState

def modeSystem : Machine ModeState ModeEvent Unit := ⟨fun s e => (s.step e, ())⟩

namespace ModeState

def Agree (s : ModeState) : Prop := (∀ m ∈ s.inFlight, ¬ IsModeMessage m) → s.server = s.pi

def flagAfter (s : ModeState) : Bool := s.inFlight.foldl (fun pi m => (messageArrived pi m).1) s.pi

/-- A mode command's message is published, or the server is in that mode already. -/
def Reaches (s : ModeState) : ModeEvent → Prop
  | .qtCommand data client => ∀ mode, modeCommand data = some mode →
      client = .publishes ∨ mode = s.server
  | .deliver => True

theorem foldl_flag {ms : List Json} (h : ∀ m ∈ ms, ¬ IsModeMessage m) (pi : Bool) :
    ms.foldl (fun pi m => (messageArrived pi m).1) pi = pi := by
  induction ms generalizing pi with
  | nil => rfl
  | cons m ms ih =>
    obtain ⟨hm, hms⟩ := List.forall_mem_cons.mp h
    rw [List.foldl_cons, Motor.messageArrived_flag pi hm, ih hms]

theorem next_deliver (s : ModeState) :
    (modeSystem.next s .deliver).server = s.server ∧
      (modeSystem.next s .deliver).flagAfter = s.flagAfter ∧
      (modeSystem.next s .deliver).inFlight.length = s.inFlight.length - 1 := by
  obtain ⟨server, pi, inFlight⟩ := s
  cases inFlight with
  | nil => exact ⟨rfl, rfl, rfl⟩
  | cons m rest => exact ⟨rfl, rfl, rfl⟩

theorem run_deliver (s : ModeState) (n : ℕ) :
    (modeSystem.run s (List.replicate n .deliver)).server = s.server ∧
      (modeSystem.run s (List.replicate n .deliver)).flagAfter = s.flagAfter ∧
      (modeSystem.run s (List.replicate n .deliver)).inFlight.length = s.inFlight.length - n := by
  induction n generalizing s with
  | zero => exact ⟨rfl, rfl, rfl⟩
  | succ n ih =>
    obtain ⟨hserver, hflag, hlength⟩ := next_deliver s
    obtain ⟨hserver', hflag', hlength'⟩ := ih (modeSystem.next s .deliver)
    rw [List.replicate_succ, Machine.run_cons, hserver', hflag', hlength', hserver, hflag, hlength]
    exact ⟨rfl, rfl, by omega⟩

/-- The flags agree however many messages are delivered next exactly when the Pi ends up with the
server's flag. -/
theorem agree_deliver_iff (s : ModeState) :
    (∀ n, (modeSystem.run s (List.replicate n .deliver)).Agree) ↔ s.server = s.flagAfter := by
  constructor
  · intro h
    obtain ⟨hserver, hflag, hlength⟩ := run_deliver s s.inFlight.length
    have hempty := List.eq_nil_of_length_eq_zero (hlength.trans (Nat.sub_self _))
    have hagree := h s.inFlight.length fun m hm => by
      rw [hempty] at hm
      cases hm
    rw [flagAfter, hempty, List.foldl_nil] at hflag
    rw [← hserver, hagree, hflag]
  · intro h n hn
    obtain ⟨hserver, hflag, -⟩ := run_deliver s n
    rw [hserver, h, ← hflag, flagAfter, foldl_flag hn]

/-- A step keeps the server's flag the one that the Pi ends up with exactly when it reaches. -/
theorem next_flagAfter_iff {s : ModeState} (h : s.server = s.flagAfter) (e : ModeEvent) :
    (modeSystem.next s e).server = (modeSystem.next s e).flagAfter ↔ s.Reaches e := by
  cases e with
  | deliver =>
    obtain ⟨hserver, hflag, -⟩ := next_deliver s
    rw [hserver, hflag]
    exact iff_of_true h trivial
  | qtCommand data client =>
    have hflag : (modeSystem.next s (.qtCommand data client)).flagAfter =
        (handleQtCommand client s.server data).2.toList.foldl
          (fun pi m => (messageArrived pi m).1) s.flagAfter := List.foldl_append
    have hserver : (modeSystem.next s (.qtCommand data client)).server =
        (handleQtCommand client s.server data).1 := rfl
    rw [hserver, hflag, ← h, Reaches]
    cases hmode : modeCommand data with
    | none =>
      obtain ⟨hsame, hother⟩ := handleQtCommand_other hmode client s.server
      rw [hsame, foldl_flag fun m hm => hother m (Option.mem_toList.mp hm)]
      exact iff_of_true rfl fun mode hm => by cases hm
    | some mode =>
      rw [handleQtCommand_mode hmode]
      cases client with
      | publishes =>
        have harrived : mode = (messageArrived s.server (modeMessage (modeName mode))).1 :=
          (messageArrived_modeMessage s.server mode).symm
        exact iff_of_true harrived fun _ _ => .inl rfl
      | unconnected => simp [Mqtt.publish]
      | throws => simp [Mqtt.publish]

end ModeState

open ModeState

/-- The flags agree throughout a run, and however many messages are delivered after any part of
it, exactly when every mode command that is not published asks for the mode the server is in. -/
theorem modes_agree_iff (events : List ModeEvent) :
    (∀ ys, ys <+: events → ∀ n,
        (modeSystem.run .init (ys ++ List.replicate n .deliver)).Agree) ↔
      modeSystem.Along Reaches .init events := by
  have hiff (ys : List ModeEvent) :
      (∀ n, (modeSystem.run .init (ys ++ List.replicate n .deliver)).Agree) ↔
        (modeSystem.run .init ys).server = (modeSystem.run .init ys).flagAfter := by
    simp only [Machine.run_append, agree_deliver_iff]
  simp only [hiff]
  apply Machine.prefixes_iff_along (I := fun ys =>
    (modeSystem.run .init ys).server = (modeSystem.run .init ys).flagAfter) rfl
  intro ys e _ hI
  rw [Machine.run_concat]
  exact next_flagAfter_iff hI e

/-- The server goes manual with its client unconnected, and the Pi stays automatic. -/
theorem manual_unconnected :
    ¬ ∀ events ys, ys <+: events → (modeSystem.run .init ys).Agree := by
  intro hall
  have hagree := hall [.qtCommand (modeRequest false) .unconnected] _ List.prefix_rfl
  have hnext := handleQtCommand_mode (modeCommand_modeRequest false) .unconnected true
  have hserver : (modeSystem.run .init [.qtCommand (modeRequest false) .unconnected]).server =
      false := congrArg Prod.fst hnext
  have hflight : (modeSystem.run .init [.qtCommand (modeRequest false) .unconnected]).inFlight =
      [] := congrArg (fun r => [] ++ Option.toList r.2) hnext
  rw [Agree, hflight, hserver] at hagree
  cases hagree fun m hm => by cases hm

end JeogiAt.Server
