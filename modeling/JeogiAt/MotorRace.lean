import JeogiAt.GasReadings
import JeogiAt.ModeControl

/-!
# The sensor thread and the MQTT thread of the motor's Pi

Both threads write the motor. `receive_sensor_data` tests `g_auto_mode`, `auto_motor_control` tests
it again, and only then is the motor written; `handle_mqtt_command` sets or tests the flag and then
writes. Each test and each write is a step of its own here.

A manual command is in force from the end of its own write until the next automatic command. The
second test cannot succeed in that time, so a sensor thread that was not past it at the beginning
does not write (`next_quiet_iff`).
-/

namespace JeogiAt.Motor

open Communication (autoMotorControl)

inductive Writer
  | sensor
  | modeControl
  | motorControl
  deriving DecidableEq

structure Write where
  speed : ℤ
  writer : Writer
  inForce : Bool

/-- Where the sensor thread is: before `receive_sensor_data`'s test, between the two tests, or
past that of `auto_motor_control`. -/
inductive SensorPc
  | measuring
  | tested (co2 co : ℚ)
  | writing (speed : ℕ)

/-- Where the MQTT thread is: between two messages, or before the write of a mode command or of a
motor command. -/
inductive MqttPc
  | idle
  | stopping (speed : Int32)
  | driving (speed : Int32)

structure Threads where
  g_auto_mode : Bool
  sensor : SensorPc
  mqtt : MqttPc
  inForce : Bool

/-- A step of one thread. `opens` tells whether `/dev/motor` opens for the write. -/
inductive ThreadStep
  | measured (co2 co : ℚ)
  | sensor (opens : Bool)
  | command (type action : String) (speed : Int32)
  | mqtt (opens : Bool)

def controlMotor (opens : Bool) (w : Write) : Option Write := if opens then some w else none

namespace Threads

def init : Threads := ⟨true, .measuring, .idle, false⟩

/-- A step that the thread is not ready for changes nothing. -/
def step (s : Threads) : ThreadStep → Threads × Option Write
  | .measured co2 co =>
      match s.sensor with
      | .measuring => (if s.g_auto_mode then { s with sensor := .tested co2 co } else s, none)
      | _ => (s, none)
  | .sensor opens =>
      match s.sensor with
      | .measuring => (s, none)
      | .tested co2 co =>
          match autoMotorControl s.g_auto_mode co2 co with
          | some speed => ({ s with sensor := .writing speed }, none)
          | none => ({ s with sensor := .measuring }, none)
      | .writing speed =>
          ({ s with sensor := .measuring }, controlMotor opens ⟨speed, .sensor, s.inForce⟩)
  | .command type action speed =>
      match s.mqtt with
      | .idle =>
          let r := handleMqttCommand s.g_auto_mode type action speed
          let inForce := if type = "mode_control" ∧ action = "auto" then false else s.inForce
          match r.2 with
          | some speed =>
              let mqtt := if type = "mode_control" then .stopping speed else .driving speed
              ({ s with g_auto_mode := r.1, mqtt := mqtt, inForce := inForce }, none)
          | none => ({ s with g_auto_mode := r.1, inForce := inForce }, none)
      | _ => (s, none)
  | .mqtt opens =>
      match s.mqtt with
      | .idle => (s, none)
      | .stopping speed =>
          ({ s with mqtt := .idle, inForce := true },
            controlMotor opens ⟨speed.toInt, .modeControl, s.inForce⟩)
      | .driving speed =>
          ({ s with mqtt := .idle }, controlMotor opens ⟨speed.toInt, .motorControl, s.inForce⟩)

end Threads

def motorThreads : Machine Threads ThreadStep (Option Write) := ⟨Threads.step⟩

namespace Threads

structure Consistent (s : Threads) : Prop where
  inForce : s.inForce = true → s.g_auto_mode = false
  stopping : ∀ speed, s.mqtt = .stopping speed → s.g_auto_mode = false

/-- With a manual command in force the sensor thread is not about to write. -/
def Quiet (s : Threads) : Prop := s.inForce = true → ∀ speed, s.sensor ≠ .writing speed

theorem handleMqttCommand_mode {g_auto_mode : Bool} {action : String} {speed value : Int32}
    (h : (handleMqttCommand g_auto_mode "mode_control" action speed).2 = some value) :
    (handleMqttCommand g_auto_mode "mode_control" action speed).1 = false := by
  simp only [handleMqttCommand, if_true] at h ⊢
  split_ifs at h ⊢
  rfl

theorem handleMqttCommand_false {type action : String}
    (h : ¬ (type = "mode_control" ∧ action = "auto")) (speed : Int32) :
    (handleMqttCommand false type action speed).1 = false := by
  unfold handleMqttCommand
  split_ifs with htype hauto
  · exact absurd ⟨htype, hauto⟩ h
  all_goals rfl

theorem next_measured (s : Threads) (co2 co : ℚ) :
    ∃ pc, motorThreads.next s (.measured co2 co) = { s with sensor := pc } ∧
      (∀ speed, pc = .writing speed → s.sensor = .writing speed) ∧
      motorThreads.output s (.measured co2 co) = none := by
  obtain ⟨g_auto_mode, sensor, mqtt, inForce⟩ := s
  cases sensor with
  | measuring =>
    cases g_auto_mode with
    | true => exact ⟨.tested co2 co, rfl, fun _ h => (by cases h), rfl⟩
    | false => exact ⟨.measuring, rfl, fun _ h => h, rfl⟩
  | tested co2' co' => exact ⟨.tested co2' co', rfl, fun _ h => h, rfl⟩
  | writing speed => exact ⟨.writing speed, rfl, fun _ h => h, rfl⟩

theorem next_sensor (s : Threads) (opens : Bool) :
    ∃ pc, motorThreads.next s (.sensor opens) = { s with sensor := pc } ∧
      (∀ speed, pc = .writing speed → s.g_auto_mode = true) ∧
      ∀ w ∈ motorThreads.output s (.sensor opens),
        w.inForce = s.inForce ∧ ∃ speed, s.sensor = .writing speed := by
  obtain ⟨g_auto_mode, sensor, mqtt, inForce⟩ := s
  cases sensor with
  | measuring => exact ⟨.measuring, rfl, fun _ h => (by cases h), fun _ hw => (by cases hw)⟩
  | tested co2 co =>
    simp only [Machine.next, Machine.output, motorThreads, step]
    cases hauto : autoMotorControl g_auto_mode co2 co with
    | some speed =>
      refine ⟨.writing speed, rfl, fun _ _ => ?_, fun _ hw => by cases hw⟩
      by_contra hflag
      rw [autoMotorControl, if_pos hflag] at hauto
      cases hauto
    | none => exact ⟨.measuring, rfl, fun _ h => (by cases h), fun _ hw => (by cases hw)⟩
  | writing speed =>
    refine ⟨.measuring, rfl, fun _ h => (by cases h), fun w hw => ?_⟩
    cases opens with
    | false => cases hw
    | true =>
      cases hw
      exact ⟨rfl, speed, rfl⟩

theorem next_command (s : Threads) (type action : String) (speed : Int32) :
    (motorThreads.next s (.command type action speed)).sensor = s.sensor ∧
      ((motorThreads.next s (.command type action speed)).inForce = true → s.inForce = true) ∧
      motorThreads.output s (.command type action speed) = none := by
  cases hm : s.mqtt with
  | idle =>
    simp only [Machine.next, Machine.output, motorThreads, step, hm]
    cases (handleMqttCommand s.g_auto_mode type action speed).2 with
    | some value =>
      dsimp only
      split_ifs
      all_goals simp
    | none =>
      dsimp only
      split_ifs
      all_goals simp
  | stopping value =>
    simp only [Machine.next, Machine.output, motorThreads, step, hm]
    exact ⟨trivial, id, trivial⟩
  | driving value =>
    simp only [Machine.next, Machine.output, motorThreads, step, hm]
    exact ⟨trivial, id, trivial⟩

theorem consistent_command {s : Threads} (h : s.Consistent) (type action : String)
    (speed : Int32) : (motorThreads.next s (.command type action speed)).Consistent := by
  cases hm : s.mqtt with
  | idle =>
    have hforce : (if type = "mode_control" ∧ action = "auto" then false else s.inForce) = true →
        (handleMqttCommand s.g_auto_mode type action speed).1 = false := by
      intro hin
      split_ifs at hin with hauto
      rw [h.inForce hin]
      exact handleMqttCommand_false hauto speed
    simp only [Machine.next, motorThreads, step, hm]
    cases hvalue : (handleMqttCommand s.g_auto_mode type action speed).2 with
    | none =>
      refine ⟨hforce, fun _ hstop => ?_⟩
      cases hstop
    | some value =>
      refine ⟨hforce, fun v hstop => ?_⟩
      dsimp only at hstop
      split_ifs at hstop with htype
      subst htype
      exact handleMqttCommand_mode hvalue
  | stopping value =>
    simp only [Machine.next, motorThreads, step, hm]
    exact h
  | driving value =>
    simp only [Machine.next, motorThreads, step, hm]
    exact h

theorem consistent_next {s : Threads} (h : s.Consistent) (x : ThreadStep) :
    (motorThreads.next s x).Consistent := by
  cases x with
  | measured co2 co =>
    obtain ⟨pc, hnext, -, -⟩ := next_measured s co2 co
    rw [hnext]
    exact ⟨h.inForce, h.stopping⟩
  | sensor opens =>
    obtain ⟨pc, hnext, -, -⟩ := next_sensor s opens
    rw [hnext]
    exact ⟨h.inForce, h.stopping⟩
  | command type action speed => exact consistent_command h type action speed
  | mqtt opens =>
    cases hm : s.mqtt with
    | idle =>
      simp only [Machine.next, motorThreads, step, hm]
      exact h
    | stopping value =>
      simp only [Machine.next, motorThreads, step, hm]
      exact ⟨fun _ => h.stopping value hm, fun _ hne => by cases hne⟩
    | driving value =>
      simp only [Machine.next, motorThreads, step, hm]
      exact ⟨h.inForce, fun _ hne => by cases hne⟩

theorem consistent_run (steps : List ThreadStep) : (motorThreads.run init steps).Consistent :=
  Machine.invariant_run (I := Consistent) (fun _ x h => consistent_next h x)
    ⟨fun h => (by cases h), fun _ h => (by cases h)⟩ steps

/-- Every value written while a manual command is in force has an allowed writer. -/
def Respects (allowed : Writer → Prop) (written : List (Option Write)) : Prop :=
  ∀ o ∈ written, ∀ w ∈ o, w.inForce = true → allowed w.writer

/-- When a manual command's write is made, the sensor thread is not past the second test. If
another manual command is in force then, this write has to be allowed too, or fail. -/
def Safe (allowed : Writer → Prop) (s : Threads) : ThreadStep → Prop
  | .mqtt opens => ∀ speed, s.mqtt = .stopping speed →
      (∀ v, s.sensor ≠ .writing v) ∧ (s.inForce = true → opens = true → allowed .modeControl)
  | _ => True

section Respect

variable {allowed : Writer → Prop}

theorem respects_concat {written : List (Option Write)} {o : Option Write} :
    Respects allowed (written ++ [o]) ↔
      Respects allowed written ∧ ∀ w ∈ o, w.inForce = true → allowed w.writer := by
  unfold Respects
  simp only [List.mem_append, List.mem_singleton, or_imp, forall_and, forall_eq]

/-- One step: its write is allowed and the sensor thread stays quiet exactly when it is safe. -/
theorem next_quiet_iff (hdrive : allowed .motorControl) {s : Threads} (hc : s.Consistent)
    (hq : s.Quiet) (x : ThreadStep) :
    ((∀ w ∈ motorThreads.output s x, w.inForce = true → allowed w.writer) ∧
      (motorThreads.next s x).Quiet) ↔ s.Safe allowed x := by
  cases x with
  | measured co2 co =>
    obtain ⟨pc, hnext, hpc, hout⟩ := next_measured s co2 co
    rw [hnext, hout]
    refine iff_of_true ⟨fun _ hw => (by cases hw), fun hin v hv => ?_⟩ trivial
    exact hq hin v (hpc v hv)
  | sensor opens =>
    obtain ⟨pc, hnext, hpc, hout⟩ := next_sensor s opens
    rw [hnext]
    refine iff_of_true ⟨fun w hw hin => ?_, fun hin v hv => ?_⟩ trivial
    · obtain ⟨hforce, v, hv⟩ := hout w hw
      exact absurd hv (hq (hforce ▸ hin) v)
    · have hflag := hpc v hv
      rw [hc.inForce hin] at hflag
      cases hflag
  | command type action speed =>
    obtain ⟨hsensor, hforce, hout⟩ := next_command s type action speed
    rw [hout]
    refine iff_of_true ⟨fun _ hw => (by cases hw), fun hin v hv => ?_⟩ trivial
    exact hq (hforce hin) v (hsensor ▸ hv)
  | mqtt opens =>
    cases hm : s.mqtt with
    | idle =>
      simp only [Machine.next, Machine.output, motorThreads, step, hm, Safe]
      exact iff_of_true ⟨fun _ hw => (by cases hw), hq⟩ fun _ h => by cases h
    | driving value =>
      simp only [Machine.next, Machine.output, motorThreads, step, hm, Safe]
      refine iff_of_true ⟨fun w hw _ => ?_, hq⟩ fun _ h => (by cases h)
      unfold controlMotor at hw
      split_ifs at hw
      · cases hw
        exact hdrive
      · cases hw
    | stopping value =>
      simp only [Machine.next, Machine.output, motorThreads, step, hm, Safe, Quiet]
      cases opens with
      | false => simp [controlMotor]
      | true => simp [controlMotor, and_comm]

theorem respects_sensor_iff (hsensor : ¬ allowed .sensor) {s : Threads}
    (hc : s.Consistent) :
    (∀ n, Respects allowed (motorThreads.trace s (List.replicate n (.sensor true)))) ↔
      s.Quiet := by
  constructor
  · intro h hin v hv
    have hone := h 1
    simp only [List.replicate_one, Machine.trace_cons, Machine.trace_nil, Machine.output,
      motorThreads, step, hv, controlMotor, if_true] at hone
    exact hsensor (hone _ (List.mem_singleton_self _) _ rfl hin)
  · intro hq n
    induction n generalizing s with
    | zero => exact fun o ho => absurd ho List.not_mem_nil
    | succ n ih =>
      rw [List.replicate_succ, Machine.trace_cons]
      obtain ⟨pc, hnext, hpc, hout⟩ := next_sensor s true
      have hquiet : (motorThreads.next s (.sensor true)).Quiet := by
        rw [hnext]
        intro hin v hv
        have hflag := hpc v hv
        rw [hc.inForce hin] at hflag
        cases hflag
      intro o ho w hw hin
      rcases List.mem_cons.mp ho with rfl | ho
      · obtain ⟨hforce, v, hv⟩ := hout w hw
        exact absurd hv (hq (hforce ▸ hin) v)
      · exact ih (consistent_next hc _) hquiet o ho w hw hin

/-- Only allowed writers write in manual mode, whatever the sensor thread does after any part of
the run, exactly when every step is safe. -/
theorem respects_iff_along (hsensor : ¬ allowed .sensor) (hdrive : allowed .motorControl)
    (steps : List ThreadStep) :
    (∀ ys, ys <+: steps → ∀ n,
        Respects allowed (motorThreads.trace init (ys ++ List.replicate n (.sensor true)))) ↔
      motorThreads.Along (Safe allowed) init steps := by
  have hiff (ys : List ThreadStep) :
      (∀ n, Respects allowed (motorThreads.trace init (ys ++ List.replicate n (.sensor true)))) ↔
        Respects allowed (motorThreads.trace init ys) ∧ (motorThreads.run init ys).Quiet := by
    rw [← respects_sensor_iff hsensor (consistent_run ys)]
    simp only [Machine.trace_append, Respects, List.mem_append, or_imp, forall_and,
      forall_const]
  simp only [hiff]
  apply Machine.prefixes_iff_along (I := fun ys =>
    Respects allowed (motorThreads.trace init ys) ∧ (motorThreads.run init ys).Quiet)
    ⟨fun o ho => absurd ho List.not_mem_nil, fun h => by cases h⟩
  intro ys x _ ⟨hres, hq⟩
  rw [Machine.trace_concat, Machine.run_concat, respects_concat,
    ← next_quiet_iff hdrive (consistent_run ys) hq x]
  exact ⟨fun h => ⟨h.1.2, h.2⟩, fun h => ⟨⟨hres, h.1⟩, h.2⟩⟩

end Respect

end Threads

open Threads

/-- In manual mode only motor commands write exactly when no manual command completes with the
sensor thread past the second test, or writes while another one is in force. Without the second
condition at least the sensor thread does not write. -/
theorem manual_writes_iff (steps : List ThreadStep) :
    ((∀ ys, ys <+: steps → ∀ n, Respects (· = .motorControl)
        (motorThreads.trace .init (ys ++ List.replicate n (.sensor true)))) ↔
      motorThreads.Along (Safe (· = .motorControl)) .init steps) ∧
    ((∀ ys, ys <+: steps → ∀ n, Respects (· ≠ .sensor)
        (motorThreads.trace .init (ys ++ List.replicate n (.sensor true)))) ↔
      motorThreads.Along (Safe (· ≠ .sensor)) .init steps) := by
  constructor
  · apply respects_iff_along
    · intro h
      cases h
    · rfl
  · apply respects_iff_along
    · exact fun h => h rfl
    · intro h
      cases h

/-- The sensor thread passes both tests, the manual command is handled, and then the sensor thread
sets the motor to full speed. -/
theorem sensor_writes_in_manual_mode :
    ¬ ∀ steps : List ThreadStep,
      Respects (· = .motorControl) (motorThreads.trace .init steps) := by
  intro hall
  have hwrite := hall [.measured 700 0, .sensor true, .command "mode_control" "manual" 0,
    .mqtt true, .sensor true] (some ⟨100, .sensor, true⟩)
  have hauto : autoMotorControl true 700 0 = some 100 := by norm_num [autoMotorControl]
  simp [motorThreads, Machine.trace, Machine.output, Machine.next, step, init, hauto,
    handleMqttCommand, controlMotor] at hwrite

end JeogiAt.Motor
