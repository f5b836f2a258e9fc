import JeogiAt.Library.CStrings
import JeogiAt.Library.Decimal
import JeogiAt.MotorRace
import Mathlib.Data.List.ReduceOption

/-!
# The fan, from the operator's command to the pins

A command goes from the client to the server, as a message to the Pi, from there as text to
`/dev/motor`, and the driver sets the pins and the PWM channel. The sensor thread writes to the
same device.

`Asked` is what the operator has asked for, told from the commands alone. `Tracks` relates it to
the whole system: what is in flight is all that the Pi has not heard yet. In manual mode, with
nothing in flight, the fan runs at the speed asked for (`fan_law`), as long as the messages are
published, the writes open and the sensor thread is not past its tests when the mode changes.
-/

namespace JeogiAt.Motor

open Communication (autoMotorControl)
open CStrings (cString cString_of_notMem)
open Decimal (decimal decimalInt digit isDigit minus number readSign)
open Server (Mqtt deviceFields handleQtCommand modeMessage modeRequest motorCommand
  sendMotorCommand)

structure Fan where
  in1 : Bool
  in2 : Bool
  duty_ns : ℤ
  period_ns : ℤ
  enabled : Bool
  deriving DecidableEq

def pwmPeriod : ℤ := 1000000

/-- `kstrtoint` in base 10: a sign, digits and at most one newline. What does not fit an `int` is
an error too. -/
def kstrtoint (s : List UInt8) : Option ℤ :=
  let (negative, s) := readSign s
  let digits := s.takeWhile isDigit
  let rest := s.dropWhile isDigit
  let value : ℤ := if negative then -number digits else number digits
  if digits = [] ∨ rest ≠ [] ∧ rest ≠ [0x0A] ∨ value < -2147483648 ∨ 2147483647 < value then none
  else some value

/-- `motor_write`, on a buffer that can be copied. -/
def motorWrite (fan : Fan) (buf : List UInt8) : Fan :=
  match kstrtoint (cString (buf.take 15 ++ [0])) with
  | some speed =>
      let speed := if speed < 0 then 0 else speed
      let speed := if 100 < speed then 100 else speed
      { in1 := decide (speed ≠ 0)
        in2 := false
        duty_ns := speed * pwmPeriod / 100
        period_ns := pwmPeriod
        enabled := true }
  | none => fan

def driven (speed : ℤ) : Fan where
  in1 := decide (0 < speed)
  in2 := false
  duty_ns := 10000 * max 0 (min 100 speed)
  period_ns := 1000000
  enabled := true

theorem dropWhile_decimalInt (v : ℤ) : (decimalInt v).dropWhile Decimal.isSpace = decimalInt v := by
  rw [decimalInt]
  split_ifs
  · rfl
  · obtain ⟨b, ds, hds⟩ := List.exists_cons_of_ne_nil (Decimal.decimal_ne_nil v.natAbs)
    have hb : isDigit b = true := Decimal.isDigit_decimal v.natAbs b (hds ▸ List.mem_cons_self)
    rw [hds, List.dropWhile_cons_of_neg (by simp [(Decimal.of_isDigit hb).1])]

theorem readSign_decimalInt (v : ℤ) :
    readSign (decimalInt v) = (decide (v < 0), decimal v.natAbs) := by
  have h := Decimal.readSign_decimalInt v []
  rwa [List.append_nil, List.append_nil, dropWhile_decimalInt] at h

theorem kstrtoint_decimalInt {v : ℤ} (hlow : -2147483648 ≤ v) (hhigh : v ≤ 2147483647) :
    kstrtoint (decimalInt v) = some v := by
  have hspan := Decimal.span_digits (Decimal.isDigit_decimal v.natAbs)
    (s := []) (fun b hb => by cases hb)
  rw [List.append_nil] at hspan
  have hvalue : (if decide (v < 0) then -(v.natAbs : ℤ) else v.natAbs) = v := by
    split_ifs with h <;> rw [decide_eq_true_eq] at h <;> omega
  rw [kstrtoint, readSign_decimalInt]
  dsimp only
  rw [hspan.1, hspan.2, Decimal.number_decimal, hvalue, if_neg]
  rintro (h | h | h | h)
  · exact Decimal.decimal_ne_nil _ h
  · exact h.1 rfl
  · omega
  · omega

theorem length_decimalInt_le {v : ℤ} (hlow : -2147483648 ≤ v) (hhigh : v ≤ 2147483647) :
    (decimalInt v).length ≤ 15 := by
  have hdigits : (decimal v.natAbs).length ≤ 10 :=
    Decimal.length_decimal_le (by omega) (by omega)
  rw [decimalInt]
  split_ifs
  · rw [List.length_cons]
    omega
  · omega

theorem zero_notMem_decimalInt (v : ℤ) : 0 ∉ decimalInt v := by
  have hdigits : 0 ∉ decimal v.natAbs := fun h => by
    have := Decimal.isDigit_decimal v.natAbs 0 h
    cases this
  rw [decimalInt]
  split_ifs
  · rw [List.mem_cons, not_or]
    exact ⟨by decide, hdigits⟩
  · exact hdigits

theorem motorWrite_decimalInt (fan : Fan) {v : ℤ} (hlow : -2147483648 ≤ v)
    (hhigh : v ≤ 2147483647) : motorWrite fan (decimalInt v) = driven v := by
  rw [motorWrite, List.take_of_length_le (length_decimalInt_le hlow hhigh),
    cString_of_notMem (zero_notMem_decimalInt v), kstrtoint_decimalInt hlow hhigh]
  simp only [driven, pwmPeriod, Fan.mk.injEq, decide_eq_decide, true_and, and_true]
  split_ifs <;> constructor <;> omega

/-- What `message_arrived` passes on to `handle_mqtt_command`. -/
def commandFields (data : Json) : Option (String × String × Int32) := do
  let type ← data.value "type" "" Json.getString
  let action ← data.value "action" "" Json.getString
  let speed ← data.value "speed" 0 Json.getInt
  some (type, action, speed)

/-- The server's flag, the messages to the Pi, its two threads and the fan. -/
structure FanSystem where
  server : Bool
  inFlight : List Json
  pi : Threads
  fan : Fan

inductive FanStep
  | qtCommand (data : Json) (client : Mqtt)
  | deliver
  | measured (co2 co : ℚ)
  | sensor (opens : Bool)
  | mqtt (opens : Bool)

namespace FanSystem

def init (fan : Fan) : FanSystem := ⟨true, [], .init, fan⟩

def thread (s : FanSystem) (x : ThreadStep) : FanSystem × Option Write :=
  let written := motorThreads.output s.pi x
  ({ s with
      pi := motorThreads.next s.pi x
      fan := written.elim s.fan fun w => motorWrite s.fan (decimalInt w.speed) }, written)

/-- The MQTT thread takes a message when it is done with the one before. -/
def step (s : FanSystem) : FanStep → FanSystem × Option Write
  | .qtCommand data client =>
      let r := handleQtCommand client s.server data
      ({ s with server := r.1, inFlight := s.inFlight ++ r.2.toList }, none)
  | .deliver =>
      match s.pi.mqtt, s.inFlight with
      | .idle, m :: rest =>
          match commandFields m with
          | some (type, action, speed) =>
              thread { s with inFlight := rest } (.command type action speed)
          | none => ({ s with inFlight := rest }, none)
      | _, _ => (s, none)
  | .measured co2 co => s.thread (.measured co2 co)
  | .sensor opens => s.thread (.sensor opens)
  | .mqtt opens => s.thread (.mqtt opens)

end FanSystem

def fanSystem : Machine FanSystem FanStep (Option Write) := ⟨FanSystem.step⟩

/-- What the operator has asked for: the mode, and the speed in manual mode. -/
structure Asked where
  auto : Bool
  speed : ℤ

namespace Asked

def init : Asked := ⟨true, 0⟩

/-- Manual mode begins with the fan off. Only in manual mode a speed can be asked for. -/
def ask (a : Asked) (data : Json) : Asked :=
  match deviceFields data with
  | some (device, action, cmdData) =>
      if device = "mode_control" then
        if action = "auto" then { a with auto := true }
        else if action = "manual" then ⟨false, 0⟩
        else a
      else if a.auto = false ∧ device = "motor" then
        match cmdData.value "speed" 100 Json.getInt with
        | some speed =>
            if action = "start" ∨ action = "on" then { a with speed := speed.toInt }
            else if action = "stop" ∨ action = "off" then { a with speed := 0 }
            else a
        | none => a
      else a
  | none => a

def step (a : Asked) : FanStep → Asked
  | .qtCommand data _ => a.ask data
  | _ => a

def hear (a : Asked) (m : Json) : Asked :=
  let r := messageArrived a.auto m
  ⟨r.1, r.2.elim a.speed Int32.toInt⟩

theorem hear_auto (a : Asked) : a.hear (modeMessage "auto") = { a with auto := true } := by
  simp [hear, messageArrived, modeMessage, handleMqttCommand, Json.value, Json.getString,
    Json.lookup_cons_eq]

theorem hear_manual (a : Asked) : a.hear (modeMessage "manual") = ⟨false, 0⟩ := by
  simp [hear, messageArrived, modeMessage, handleMqttCommand, Json.value, Json.getString,
    Json.lookup_cons_eq]

theorem hear_start (speed : ℤ) (asked : Int32) :
    (sendMotorCommand .publishes "start" asked).toList.foldl hear ⟨false, speed⟩ =
      ⟨false, asked.toInt⟩ := by
  simp [sendMotorCommand, Mqtt.publish, hear, messageArrived, handleMqttCommand, Json.value,
    Json.getString, Json.getInt, Json.lookup_cons_eq]

theorem hear_stop (speed : ℤ) (asked : Int32) :
    (sendMotorCommand .publishes "stop" asked).toList.foldl hear ⟨false, speed⟩ = ⟨false, 0⟩ := by
  simp [sendMotorCommand, Mqtt.publish, hear, messageArrived, handleMqttCommand, Json.value,
    Json.getString, Json.getInt, Json.lookup_cons_eq]

theorem ask_eq (a : Asked) (data : Json) :
    (handleQtCommand .publishes a.auto data).1 = (a.ask data).auto ∧
      (handleQtCommand .publishes a.auto data).2.toList.foldl hear a = a.ask data := by
  unfold handleQtCommand ask
  rcases deviceFields data with _ | ⟨device, action, cmdData⟩
  · exact ⟨rfl, rfl⟩
  · dsimp only
    by_cases hmode : device = "mode_control"
    · simp only [if_pos hmode]
      split_ifs
      · exact ⟨rfl, hear_auto a⟩
      · exact ⟨rfl, hear_manual a⟩
      · exact ⟨rfl, rfl⟩
    rw [if_neg hmode, if_neg hmode]
    by_cases hmotor : a.auto = false ∧ device = "motor"
    · rw [if_pos hmotor, if_pos hmotor, motorCommand]
      obtain ⟨auto, speed⟩ := a
      cases hmotor.1
      cases cmdData.value "speed" 100 Json.getInt with
      | none => exact ⟨rfl, rfl⟩
      | some asked =>
        simp only [Option.bind_eq_bind, Option.bind_some]
        split_ifs
        · exact ⟨rfl, hear_start speed asked⟩
        · exact ⟨rfl, hear_stop speed 0⟩
        · exact ⟨rfl, rfl⟩
    · rw [if_neg hmotor, if_neg hmotor]
      exact ⟨rfl, rfl⟩

end Asked

namespace FanSystem

def Bounded (t : Threads) : Prop := ∀ speed, t.sensor = .writing speed → speed ≤ 100

theorem autoMotorControl_le {g_auto_mode : Bool} {co2 co : ℚ} {speed : ℕ}
    (h : autoMotorControl g_auto_mode co2 co = some speed) : speed ≤ 100 := by
  rw [autoMotorControl] at h
  split_ifs at h <;> cases h <;> decide

theorem bounded_next {t : Threads} (h : Bounded t) (x : ThreadStep) :
    Bounded (motorThreads.next t x) := by
  cases x with
  | measured co2 co =>
    obtain ⟨pc, hnext, hpc, -⟩ := Threads.next_measured t co2 co
    rw [hnext]
    exact fun speed hspeed => h speed (hpc speed hspeed)
  | command type action speed =>
    rw [Bounded, (Threads.next_command t type action speed).1]
    exact h
  | sensor opens =>
    obtain ⟨g_auto_mode, sensor, mqtt, inForce⟩ := t
    cases sensor with
    | measuring => exact h
    | writing speed => exact fun _ hspeed => by cases hspeed
    | tested co2 co =>
      intro speed hspeed
      simp only [Machine.next, motorThreads, Threads.step] at hspeed
      cases hauto : autoMotorControl g_auto_mode co2 co with
      | none =>
        rw [hauto] at hspeed
        cases hspeed
      | some level =>
        rw [hauto] at hspeed
        cases hspeed
        exact autoMotorControl_le hauto
  | mqtt opens =>
    obtain ⟨g_auto_mode, sensor, mqtt, inForce⟩ := t
    cases mqtt <;> exact h

theorem speed_bounds {t : Threads} (h : Bounded t) {x : ThreadStep} {w : Write}
    (hw : w ∈ motorThreads.output t x) :
    -2147483648 ≤ w.speed ∧ w.speed ≤ 2147483647 := by
  have hint (value : Int32) : -2147483648 ≤ value.toInt ∧ value.toInt ≤ 2147483647 := by
    have hlow := value.le_toInt
    have hhigh := value.toInt_lt
    omega
  cases x with
  | measured co2 co =>
    obtain ⟨pc, -, -, hout⟩ := Threads.next_measured t co2 co
    rw [hout] at hw
    cases hw
  | command type action speed =>
    rw [(Threads.next_command t type action speed).2.2] at hw
    cases hw
  | sensor opens =>
    obtain ⟨g_auto_mode, sensor, mqtt, inForce⟩ := t
    cases sensor with
    | measuring => cases hw
    | tested co2 co =>
      simp only [Machine.output, motorThreads, Threads.step] at hw
      split at hw <;> cases hw
    | writing speed =>
      cases opens with
      | false => cases hw
      | true =>
        cases hw
        have hle : speed ≤ 100 := h speed rfl
        dsimp only
        omega
  | mqtt opens =>
    obtain ⟨g_auto_mode, sensor, mqtt, inForce⟩ := t
    cases mqtt with
    | idle => cases hw
    | stopping value =>
      cases opens with
      | false => cases hw
      | true =>
        cases hw
        exact hint value
    | driving value =>
      cases opens with
      | false => cases hw
      | true =>
        cases hw
        exact hint value

theorem fan_thread {s : FanSystem} (h : Bounded s.pi) (x : ThreadStep) :
    Bounded (s.thread x).1.pi ∧
      (s.thread x).1.fan = (s.thread x).2.elim s.fan fun w => driven w.speed := by
  refine ⟨bounded_next h x, ?_⟩
  rw [thread]
  dsimp only
  cases hw : motorThreads.output s.pi x with
  | none => rfl
  | some w =>
    obtain ⟨hlow, hhigh⟩ := speed_bounds h hw
    exact motorWrite_decimalInt s.fan hlow hhigh

theorem fan_next {s : FanSystem} (h : Bounded s.pi) (x : FanStep) :
    Bounded (fanSystem.next s x).pi ∧
      (fanSystem.next s x).fan = (fanSystem.output s x).elim s.fan fun w => driven w.speed := by
  cases x with
  | qtCommand data client => exact ⟨h, rfl⟩
  | measured co2 co => exact fan_thread h (.measured co2 co)
  | sensor opens => exact fan_thread h (.sensor opens)
  | mqtt opens => exact fan_thread h (.mqtt opens)
  | deliver =>
    obtain ⟨server, inFlight, ⟨g_auto_mode, sensor, mqtt, inForce⟩, fan⟩ := s
    simp only [Machine.next, Machine.output, fanSystem, step]
    cases mqtt with
    | stopping value => exact ⟨h, rfl⟩
    | driving value => exact ⟨h, rfl⟩
    | idle =>
      cases inFlight with
      | nil => exact ⟨h, rfl⟩
      | cons m rest =>
        dsimp only
        cases commandFields m with
        | none => exact ⟨h, rfl⟩
        | some fields =>
          exact fan_thread (s := ⟨server, rest, ⟨g_auto_mode, sensor, .idle, inForce⟩, fan⟩) h _

theorem fan_run (fan : Fan) (steps : List FanStep) :
    Bounded (fanSystem.run (.init fan) steps).pi ∧
      (fanSystem.run (.init fan) steps).fan =
        (fanSystem.trace (.init fan) steps).reduceOption.getLast?.elim fan
          fun w => driven w.speed := by
  induction steps using List.reverseRecOn with
  | nil => exact ⟨fun speed hspeed => (by cases hspeed), rfl⟩
  | append_singleton steps x ih =>
    obtain ⟨hbounded, hfan⟩ := ih
    obtain ⟨hnext, hlast⟩ := fan_next hbounded x
    rw [Machine.run_concat, Machine.trace_concat, List.reduceOption_append]
    refine ⟨hnext, ?_⟩
    rw [hlast, hfan]
    cases fanSystem.output (fanSystem.run (.init fan) steps) x with
    | none => rw [List.reduceOption_singleton, Option.toList_none, List.append_nil]; rfl
    | some w => rw [List.reduceOption_singleton, Option.toList_some, List.getLast?_concat]; rfl

/-- The server's messages are published, the writes of the MQTT thread open, and no manual
command's write is made with the sensor thread about to write. -/
def Works (s : FanSystem) : FanStep → Prop
  | .qtCommand _ client => client = .publishes
  | .mqtt opens => opens = true ∧ s.pi.Safe (· ≠ .sensor) (.mqtt opens)
  | _ => True

/-- Of what was asked for, `a`, the Pi has heard `p`. -/
structure Tracks (s : FanSystem) (a p : Asked) : Prop where
  server : s.server = a.auto
  inFlight : s.inFlight.foldl Asked.hear p = a
  flag : s.pi.g_auto_mode = p.auto
  writing : ∀ v, s.pi.mqtt = .stopping v ∨ s.pi.mqtt = .driving v → v.toInt = p.speed
  inForce : s.pi.g_auto_mode = false → (∀ v, s.pi.mqtt ≠ .stopping v) → s.pi.inForce = true
  consistent : s.pi.Consistent
  quiet : s.pi.Quiet
  fan : s.pi.g_auto_mode = false → s.pi.mqtt = .idle → s.fan = driven p.speed

variable {s : FanSystem} {a p : Asked}

theorem tracks_init (fan : Fan) : Tracks (init fan) .init .init where
  server := rfl
  inFlight := rfl
  flag := rfl
  writing v h := by rcases h with h | h <;> cases h
  inForce h := by cases h
  consistent := Threads.consistent_run []
  quiet h := by cases h
  fan h := by cases h

theorem Tracks.quiet_next (h : Tracks s a p) {x : ThreadStep} (hx : s.pi.Safe (· ≠ .sensor) x) :
    (motorThreads.next s.pi x).Quiet :=
  ((@Threads.next_quiet_iff (· ≠ .sensor) (fun h => by cases h) s.pi h.consistent h.quiet x).mpr
    hx).2

theorem Tracks.sensor (h : Tracks s a p) {x : ThreadStep} {pc : SensorPc}
    (hnext : motorThreads.next s.pi x = { s.pi with sensor := pc })
    (hx : s.pi.Safe (· ≠ .sensor) x)
    (hout : s.pi.inForce = true → motorThreads.output s.pi x = none) :
    Tracks (s.thread x).1 a p where
  server := h.server
  inFlight := h.inFlight
  flag := by rw [thread, hnext]; exact h.flag
  writing := by rw [thread, hnext]; exact h.writing
  inForce := by rw [thread, hnext]; exact h.inForce
  consistent := Threads.consistent_next h.consistent x
  quiet := h.quiet_next hx
  fan := by
    rw [thread, hnext]
    intro hflag hidle
    have hforce : s.pi.inForce = true := h.inForce hflag fun v hv => by
      cases hidle.symm.trans hv
    dsimp only
    rw [hout hforce]
    exact h.fan hflag hidle

theorem Tracks.mqtt (h : Tracks s a p) (hb : Bounded s.pi)
    (hx : s.pi.Safe (· ≠ .sensor) (.mqtt true)) : Tracks (s.thread (.mqtt true)).1 a p := by
  have hquiet := h.quiet_next hx
  have hconsistent := Threads.consistent_next h.consistent (.mqtt true)
  have hfan := (fan_thread hb (.mqtt true)).2
  obtain ⟨server, inFlight, ⟨g_auto_mode, sensor, mqtt, inForce⟩, fan⟩ := s
  cases mqtt with
  | idle => exact h
  | stopping v =>
    have hspeed : v.toInt = p.speed := h.writing v (.inl rfl)
    refine ⟨h.server, h.inFlight, h.flag, fun v hv => ?_, fun _ _ => rfl, hconsistent, hquiet,
      fun _ _ => hfan.trans (congrArg driven hspeed)⟩
    rcases hv with hv | hv <;> cases hv
  | driving v =>
    have hspeed : v.toInt = p.speed := h.writing v (.inr rfl)
    refine ⟨h.server, h.inFlight, h.flag, fun v hv => ?_, fun hflag _ => ?_, hconsistent, hquiet,
      fun _ _ => hfan.trans (congrArg driven hspeed)⟩
    · rcases hv with hv | hv <;> cases hv
    · exact h.inForce hflag fun v hv => by cases hv

/-- A command that leaves the Pi in manual mode and has nothing written finds it there. -/
theorem manual_of_none {g_auto_mode : Bool} {type action : String} {speed : Int32}
    (hnone : (handleMqttCommand g_auto_mode type action speed).2 = none)
    (hflag : (handleMqttCommand g_auto_mode type action speed).1 = false) :
    g_auto_mode = false ∧ ¬ (type = "mode_control" ∧ action = "auto") := by
  unfold handleMqttCommand at hnone hflag
  by_cases htype : type = "mode_control"
  · rw [if_pos htype] at hnone hflag
    by_cases hauto : action = "auto"
    · rw [if_pos hauto] at hflag
      cases hflag
    · rw [if_neg hauto] at hnone hflag
      refine ⟨?_, fun h => hauto h.2⟩
      split_ifs at hnone hflag
      exact hflag
  · rw [← handleMqttCommand_flag g_auto_mode htype action speed]
    refine ⟨?_, fun h => htype h.1⟩
    unfold handleMqttCommand
    exact hflag

theorem next_command_idle {t : Threads} (hidle : t.mqtt = .idle) (type action : String)
    (speed : Int32) :
    motorThreads.next t (.command type action speed) =
      { g_auto_mode := (handleMqttCommand t.g_auto_mode type action speed).1
        sensor := t.sensor
        mqtt := (handleMqttCommand t.g_auto_mode type action speed).2.elim .idle fun v =>
          if type = "mode_control" then .stopping v else .driving v
        inForce := if type = "mode_control" ∧ action = "auto" then false else t.inForce } := by
  simp only [Machine.next, motorThreads, Threads.step, hidle]
  cases (handleMqttCommand t.g_auto_mode type action speed).2 with
  | none => rw [← hidle]; rfl
  | some v => rfl

theorem messageArrived_eq (g_auto_mode : Bool) (m : Json) :
    messageArrived g_auto_mode m =
      match commandFields m with
      | some (type, action, speed) => handleMqttCommand g_auto_mode type action speed
      | none => (g_auto_mode, none) := rfl

theorem hear_of_fields {m : Json} {type action : String} {speed : Int32}
    (h : commandFields m = some (type, action, speed)) :
    p.hear m = ⟨(handleMqttCommand p.auto type action speed).1,
      (handleMqttCommand p.auto type action speed).2.elim p.speed Int32.toInt⟩ := by
  rw [Asked.hear, messageArrived_eq, h]

theorem hear_of_none {m : Json} (h : commandFields m = none) : p.hear m = p := by
  rw [Asked.hear, messageArrived_eq, h]
  rfl

theorem Tracks.command {m : Json} {rest : List Json} {type action : String} {speed : Int32}
    (h : Tracks s a p) (hidle : s.pi.mqtt = .idle) (hflight : s.inFlight = m :: rest)
    (hm : commandFields m = some (type, action, speed)) :
    Tracks (thread { s with inFlight := rest } (.command type action speed)).1 a (p.hear m) := by
  have hnext := next_command_idle hidle type action speed
  have hout := (Threads.next_command s.pi type action speed).2.2
  have hhear := hear_of_fields (p := p) hm
  have hfold : rest.foldl Asked.hear (p.hear m) = a := by
    rw [← h.inFlight, hflight, List.foldl_cons]
  have hconsistent := Threads.consistent_next h.consistent (.command type action speed)
  have hquiet : (motorThreads.next s.pi (.command type action speed)).Quiet :=
    h.quiet_next (x := .command type action speed) trivial
  rw [hnext, h.flag] at hconsistent hquiet
  rw [thread, hout, hnext, hhear, h.flag]
  rw [hhear] at hfold
  refine ⟨h.server, hfold, rfl, fun v hv => ?_, fun hflag hstop => ?_, hconsistent, hquiet,
    fun hflag hmqtt => ?_⟩
  · cases hr : (handleMqttCommand p.auto type action speed).2 with
    | none =>
      rw [hr] at hv
      rcases hv with hv | hv <;> cases hv
    | some value =>
      rw [hr] at hv
      simp only [Option.elim_some] at hv ⊢
      split_ifs at hv <;> rcases hv with hv | hv <;> cases hv <;> rfl
  · have hnone : ∀ v, s.pi.mqtt ≠ .stopping v := fun v hv => by cases hidle.symm.trans hv
    cases hr : (handleMqttCommand p.auto type action speed).2 with
    | none =>
      obtain ⟨hmanual, hnot⟩ := manual_of_none hr hflag
      dsimp only
      rw [if_neg hnot]
      exact h.inForce (h.flag.trans hmanual) hnone
    | some value =>
      -- a mode command would have its own write before it
      have htype : type ≠ "mode_control" := by
        intro htype
        apply hstop value
        rw [hr, Option.elim_some, if_pos htype]
      dsimp only
      rw [if_neg fun hmode => htype hmode.1]
      exact h.inForce (h.flag.trans ((handleMqttCommand_flag _ htype _ _).symm.trans hflag)) hnone
  · cases hr : (handleMqttCommand p.auto type action speed).2 with
    | none =>
      exact h.fan (h.flag.trans (manual_of_none hr hflag).1) hidle
    | some value =>
      rw [hr, Option.elim_some] at hmqtt
      split_ifs at hmqtt

theorem Tracks.deliver (h : Tracks s a p) : ∃ p', Tracks (s.step .deliver).1 a p' := by
  unfold step
  cases hmqtt : s.pi.mqtt with
  | stopping v => exact ⟨p, h⟩
  | driving v => exact ⟨p, h⟩
  | idle =>
    cases hflight : s.inFlight with
    | nil => exact ⟨p, h⟩
    | cons m rest =>
      dsimp only
      cases hm : commandFields m with
      | none =>
        have hfold : rest.foldl Asked.hear p = a := by
          rw [← h.inFlight, hflight, List.foldl_cons, hear_of_none hm]
        exact ⟨p, h.server, hfold, h.flag, h.writing, h.inForce, h.consistent, h.quiet, h.fan⟩
      | some fields => exact ⟨p.hear m, h.command hmqtt hflight hm⟩

theorem Tracks.next (h : Tracks s a p) (hb : Bounded s.pi) {x : FanStep} (hx : s.Works x) :
    ∃ p', Tracks (fanSystem.next s x) (a.step x) p' := by
  cases x with
  | qtCommand data client =>
    cases hx
    obtain ⟨hserver, hear⟩ := a.ask_eq data
    have hfold : (s.inFlight ++ (handleQtCommand .publishes s.server data).2.toList).foldl
        Asked.hear p = a.ask data := by
      rw [List.foldl_append, h.inFlight, h.server, hear]
    exact ⟨p, (congrArg (fun flag => (handleQtCommand .publishes flag data).1) h.server).trans
      hserver, hfold, h.flag, h.writing, h.inForce, h.consistent, h.quiet, h.fan⟩
  | deliver => exact h.deliver
  | measured co2 co =>
    obtain ⟨pc, hnext, -, hout⟩ := Threads.next_measured s.pi co2 co
    exact ⟨p, h.sensor hnext trivial fun _ => hout⟩
  | sensor opens =>
    obtain ⟨pc, hnext, -, hout⟩ := Threads.next_sensor s.pi opens
    refine ⟨p, h.sensor hnext trivial fun hforce => ?_⟩
    apply Option.eq_none_iff_forall_not_mem.mpr
    intro w hw
    obtain ⟨-, speed, hspeed⟩ := hout w hw
    exact h.quiet hforce speed hspeed
  | mqtt opens =>
    obtain ⟨hopens, hsafe⟩ := hx
    subst hopens
    exact ⟨p, h.mqtt hb hsafe⟩

theorem exists_tracks (fan : Fan) {steps : List FanStep}
    (h : fanSystem.Along Works (.init fan) steps) :
    ∃ p, Tracks (fanSystem.run (.init fan) steps) (steps.foldl Asked.step .init) p := by
  induction steps using List.reverseRecOn with
  | nil => exact ⟨.init, tracks_init fan⟩
  | append_singleton steps x ih =>
    rw [Machine.along_concat] at h
    obtain ⟨p, hp⟩ := ih h.1
    rw [Machine.run_concat, List.foldl_concat]
    exact hp.next (fan_run fan steps).1 h.2

end FanSystem

open FanSystem

/-- The fan is what the last write that opened makes of it. Where everything works, the server is in
the mode asked for; once the Pi has handled all messages it is in that mode too, and the fan, in
manual mode, at the speed asked for. -/
theorem fan_law (fan : Fan) (steps : List FanStep) :
    let s := fanSystem.run (.init fan) steps
    let asked := steps.foldl Asked.step .init
    (s.fan = (fanSystem.trace (.init fan) steps).reduceOption.getLast?.elim fan
      fun w => driven w.speed) ∧
    (fanSystem.Along Works (.init fan) steps →
      s.server = asked.auto ∧
        (s.inFlight = [] → s.pi.mqtt = .idle →
          s.pi.g_auto_mode = asked.auto ∧
            (asked.auto = false → s.fan = driven asked.speed))) := by
  intro s asked
  refine ⟨(fan_run fan steps).2, fun h => ?_⟩
  obtain ⟨p, hp⟩ := exists_tracks fan h
  refine ⟨hp.server, fun hflight hidle => ?_⟩
  have hall : p = asked := by
    have hfold := hp.inFlight
    rwa [hflight, List.foldl_nil] at hfold
  subst hall
  exact ⟨hp.flag, fun hauto => hp.fan (hp.flag.trans hauto) hidle⟩

def startRequest (speed : ℤ) : Json :=
  .obj [("type", .str "device_command"),
    ("data", .obj [("device", .str "motor"), ("action", .str "start"), ("speed", .int speed)])]

def fortyPercent : List FanStep :=
  [.qtCommand (modeRequest false) .publishes, .deliver, .mqtt true,
    .qtCommand (startRequest 40) .publishes, .deliver, .mqtt true]

theorem fan_law_fortyPercent :
    (fanSystem.run (.init ⟨false, false, 0, 0, false⟩) fortyPercent).fan = driven 40 := by
  have hworks : fanSystem.Along Works (.init ⟨false, false, 0, 0, false⟩) fortyPercent := by
    refine ⟨rfl, trivial, ⟨rfl, ?_⟩, rfl, trivial, ⟨rfl, ?_⟩, trivial⟩
    · exact fun _ _ => ⟨fun _ h => (by cases h), fun h => by cases h⟩
    · exact fun _ _ => ⟨fun _ h => (by cases h), fun _ _ h => by cases h⟩
  exact (((fan_law ⟨false, false, 0, 0, false⟩ fortyPercent).2 hworks).2 rfl rfl).2 rfl

end JeogiAt.Motor
