import JeogiAt.Library.Machine
import Mathlib.Data.Rat.Defs
import Mathlib.Algebra.Order.Ring.Rat

/-!
# The recording manager of the client

`RecordingManager` (`recordingmanager.cpp`) keeps its state in maps by camera. `Camera` has the
entries of one camera, with the calls it has queued on the main loop and the encoders it has
closed; a handler touches those of its own camera only. Handlers run on the main loop, one after
the other. What the outside decides is in the `Input`: the clock, whether `findFfmpeg` finds
something, how a launch ends, and when an encoder ends. Times are in milliseconds.

`received` and `late` are history: the frames that the session has got so far, and whether one of
them came when its encoder had ended. No handler reads them.
-/

namespace JeogiAt.Client.Recording

variable {α : Type*}

def calibrationSkip : ℕ := 5
def calibrationFrames : ℕ := 60
def maxSegmentSecs : ℤ := 300

/-- A process of `ffmpeg` that has started, with the frames written to its input. -/
structure Encoder (α : Type*) where
  fps : ℚ
  running : Bool
  written : List α

/-- `if (proc->state() == QProcess::Running) proc->write(frame);` -/
def Encoder.write (proc : Encoder α) (frame : α) : Encoder α :=
  if proc.running then { proc with written := proc.written ++ [frame] } else proc

/-- A call on the main loop, as `QMetaObject::invokeMethod` queues it. -/
inductive Call
  | autoStart
  | roll
  deriving DecidableEq

/-- What the handler of `finished` holds of a session whose encoder has been told to end. -/
structure Closing (α : Type*) where
  proc : Encoder α
  sessionPath : ℤ
  frameCount : ℕ
  startTime : ℤ
  received : List α

structure Meta (α : Type*) where
  sessionPath : ℤ
  start_time : ℤ
  end_time : ℤ
  frame_count : ℕ
  written : List α
  received : List α

inductive Effect (α : Type*)
  | stateChanged (recording : Bool)
  | error (message : String)
  | thumb (sessionPath : ℤ) (frame : α)
  | removed (sessionPath : ℤ)
  | metaFile (file : Meta α)

/-- The entries of a camera. The directory of a session is named after the time of its start. -/
structure Camera (α : Type*) where
  recording : Bool
  manualStop : Bool
  autoStartPending : Bool
  calibrating : Bool
  calibBuf : List α
  calibFirstTime : Option ℤ
  sessionPath : ℤ
  frameCount : ℕ
  startTime : ℤ
  ffmpegProcess : Option (Encoder α)
  segmentRolling : Bool
  queue : List Call
  closing : List (Closing α)
  received : List α
  late : Bool

inductive Launch
  | notFound
  | notStarted (errorString : String)
  | started
  deriving DecidableEq

inductive Input (α : Type*)
  | frame (jpegData : α) (now : ℤ) (launch : Launch)
  | start (now : ℤ) (found : Bool)
  | stop
  | queued (now : ℤ) (found : Bool)
  | encoderEnds
  | finished (i : ℕ) (now : ℤ)
  | shutdown (now : ℤ)

namespace Camera

def init : Camera α where
  recording := false
  manualStop := false
  autoStartPending := false
  calibrating := false
  calibBuf := []
  calibFirstTime := none
  sessionPath := 0
  frameCount := 0
  startTime := 0
  ffmpegProcess := none
  segmentRolling := false
  queue := []
  closing := []
  received := []
  late := false

def startRecording (s : Camera α) (now : ℤ) (found : Bool) : Camera α × List (Effect α) :=
  if s.recording then (s, [])
  else if found then
    ({ s with
        manualStop := false
        sessionPath := now
        frameCount := 0
        startTime := now
        ffmpegProcess := none
        calibrating := true
        calibBuf := []
        calibFirstTime := none
        segmentRolling := false
        recording := true
        received := []
        late := false }, [.stateChanged true])
  else
    ({ s with manualStop := false },
      [.error "ffmpeg가 설치되지 않았습니다.\nPATH에 ffmpeg를 추가한 후 재시작하세요."])

/-- The common end of `stopRecording` and `rollSegment`: the input of the encoder is closed, and
its `finished` signal writes the file. A process that has ended before sends it no more. -/
def closeSession (s : Camera α) : Camera α × List (Effect α) :=
  let closed := match s.ffmpegProcess with
    | some proc =>
        if proc.running then [⟨proc, s.sessionPath, s.frameCount, s.startTime, s.received⟩] else []
    | none => []
  ({ s with recording := false, ffmpegProcess := none, closing := s.closing ++ closed },
    [.stateChanged false])

def stopRecording (s : Camera α) : Camera α × List (Effect α) :=
  if s.recording then
    let s := { s with manualStop := true }
    if s.calibrating then
      ({ s with calibrating := false, calibBuf := [], recording := false },
        [.removed s.sessionPath, .stateChanged false])
    else s.closeSession
  else (s, [])

def rollSegment (s : Camera α) : Camera α × List (Effect α) :=
  if s.recording then s.closeSession else (s, [])

def launchFfmpeg (s : Camera α) (fps : ℚ) : Launch → Camera α × List (Effect α)
  | .notFound => (s, [.error "ffmpeg를 시작할 수 없습니다."])
  | .notStarted errorString =>
      (s, [.error ("ffmpeg 프로세스를 시작할 수 없습니다:\n" ++ errorString)])
  | .started => ({ s with ffmpegProcess := some ⟨fps, true, []⟩ }, [])

/-- `if (proc && proc->state() == QProcess::Running) proc->write(frame);` -/
def write (s : Camera α) (frame : α) : Camera α :=
  { s with
    ffmpegProcess := s.ffmpegProcess.map (·.write frame)
    late := s.late || s.ffmpegProcess.any (!·.running) }

/-- A frame of the calibration buffer goes to the encoder and is counted. -/
def flushFrame (s : Camera α) (frame : α) : Camera α :=
  { s.write frame with frameCount := s.frameCount + 1 }

def flush (s : Camera α) (flushFrames : List α) : Camera α := flushFrames.foldl flushFrame s

/-- The frames a second that were measured, `qBound` to what the encoder takes. -/
def detectedFps (elapsedMs : ℤ) : ℚ :=
  let fps : ℚ := if 0 < elapsedMs then (calibrationFrames - 1) * 1000 / elapsedMs else 30
  max 1 (min fps 120)

def calibrate (s : Camera α) (jpegData : α) (now : ℤ) (launch : Launch) :
    Camera α × List (Effect α) :=
  let calibBuf := s.calibBuf ++ [jpegData]
  let calibFirstTime :=
    if calibBuf.length = calibrationSkip + 1 then some now else s.calibFirstTime
  if calibrationSkip + calibrationFrames ≤ calibBuf.length then
    let elapsedMs := now - calibFirstTime.getD now
    let (s, effects) :=
      { s with calibBuf := [], calibFirstTime, calibrating := false }.launchFfmpeg
        (detectedFps elapsedMs) launch
    (s.flush calibBuf, effects ++ (calibBuf.head?.map (.thumb s.sessionPath)).toList)
  else ({ s with calibBuf, calibFirstTime }, [])

/-- The segment has lasted for its time, and its roll is not queued yet. -/
def rollDue (s : Camera α) (now : ℤ) : Bool :=
  !s.segmentRolling && decide (maxSegmentSecs ≤ (now - s.startTime).tdiv 1000)

def encode (s : Camera α) (jpegData : α) (now : ℤ) : Camera α × List (Effect α) :=
  let s := { s with frameCount := s.frameCount + 1 }
  let thumb := if s.frameCount = 1 then [.thumb s.sessionPath jpegData] else []
  let s := if s.rollDue now then { s with segmentRolling := true, queue := s.queue ++ [.roll] }
    else s
  (s.write jpegData, thumb)

def onFrameReceived (s : Camera α) (jpegData : α) (now : ℤ) (launch : Launch) :
    Camera α × List (Effect α) :=
  if s.recording then
    let s := { s with received := s.received ++ [jpegData] }
    if s.calibrating then s.calibrate jpegData now launch else s.encode jpegData now
  else if !s.manualStop && !s.autoStartPending then
    ({ s with autoStartPending := true, queue := s.queue ++ [.autoStart] }, [])
  else (s, [])

/-- The main loop makes the next queued call. -/
def runQueued (s : Camera α) (now : ℤ) (found : Bool) : Camera α × List (Effect α) :=
  match s.queue with
  | [] => (s, [])
  | .autoStart :: queue =>
      let (s, effects) := { s with queue }.startRecording now found
      ({ s with autoStartPending := false }, effects)
  | .roll :: queue => { s with queue }.rollSegment

/-- The process of the session ends on its own. -/
def encoderEnds (s : Camera α) : Camera α :=
  { s with ffmpegProcess := s.ffmpegProcess.map ({ · with running := false }) }

def finished (s : Camera α) (i : ℕ) (now : ℤ) : Camera α × List (Effect α) :=
  match s.closing[i]? with
  | none => (s, [])
  | some c =>
      ({ s with closing := s.closing.eraseIdx i },
        [.metaFile ⟨c.sessionPath, c.startTime, now, c.frameCount, c.proc.written, c.received⟩])

/-- The pass of `shutdownAll` for the camera. -/
def shutdown (s : Camera α) (now : ℤ) : Camera α × List (Effect α) :=
  if s.recording then
    if s.calibrating then
      ({ s with calibrating := false, calibBuf := [], recording := false },
        [.removed s.sessionPath])
    else
      ({ s with recording := false, ffmpegProcess := none },
        match s.ffmpegProcess with
        | some proc =>
            [.metaFile ⟨s.sessionPath, s.startTime, now, s.frameCount, proc.written, s.received⟩]
        | none => [])
  else (s, [])

def step (s : Camera α) : Input α → Camera α × List (Effect α)
  | .frame jpegData now launch => s.onFrameReceived jpegData now launch
  | .start now found => s.startRecording now found
  | .stop => s.stopRecording
  | .queued now found => s.runQueued now found
  | .encoderEnds => (s.encoderEnds, [])
  | .finished i now => s.finished i now
  | .shutdown now => s.shutdown now

end Camera

def recorder : Machine (Camera α) (Input α) (List (Effect α)) := ⟨Camera.step⟩

namespace Camera

variable {s : Camera α}

structure Consistent (s : Camera α) : Prop where
  calibrating : s.calibrating = true → s.ffmpegProcess = none
  idle : s.recording = false → s.ffmpegProcess = none

theorem flush_cons (frame : α) (frames : List α) :
    s.flush (frame :: frames) = (s.flushFrame frame).flush frames := rfl

theorem flush_none (h : s.ffmpegProcess = none) (frames : List α) :
    s.flush frames = { s with frameCount := s.frameCount + frames.length } := by
  induction frames generalizing s with
  | nil => rfl
  | cons frame frames ih =>
    have hframe : s.flushFrame frame = { s with frameCount := s.frameCount + 1 } := by
      simp only [flushFrame, write, h, Option.map_none, Option.any_none, Bool.or_false]
    have hnone : (s.flushFrame frame).ffmpegProcess = none := by
      rw [hframe]
      exact h
    rw [flush_cons, ih hnone, hframe, List.length_cons]
    simp only [Nat.add_assoc, Nat.add_comm 1]

theorem flush_running {proc : Encoder α} (h : s.ffmpegProcess = some proc)
    (hrunning : proc.running = true) (frames : List α) :
    s.flush frames =
      { s with
        frameCount := s.frameCount + frames.length
        ffmpegProcess := some { proc with written := proc.written ++ frames } } := by
  induction frames generalizing s proc with
  | nil => simp [flush, ← h]
  | cons frame frames ih =>
    have hframe : s.flushFrame frame =
        { s with
          frameCount := s.frameCount + 1
          ffmpegProcess := some { proc with written := proc.written ++ [frame] } } := by
      simp [flushFrame, write, h, Encoder.write, hrunning]
    have hproc : (s.flushFrame frame).ffmpegProcess =
        some { proc with written := proc.written ++ [frame] } := by
      rw [hframe]
    rw [flush_cons, ih hproc hrunning, hframe, List.length_cons]
    simp only [Nat.add_assoc, Nat.add_comm 1, List.append_assoc, List.singleton_append]

inductive FrameStep (s : Camera α) (frame : α) (launch : Launch) : Camera α → Prop
  | dropped (hrec : s.recording = false)
      (hstop : s.manualStop = true ∨ s.autoStartPending = true) : FrameStep s frame launch s
  | requested (hrec : s.recording = false) (hstop : s.manualStop = false)
      (hpending : s.autoStartPending = false) : FrameStep s frame launch
        { s with autoStartPending := true, queue := s.queue ++ [.autoStart] }
  | buffered (hrec : s.recording = true) (hcal : s.calibrating = true)
      (hshort : s.calibBuf.length + 1 < calibrationSkip + calibrationFrames) (first : Option ℤ) :
      FrameStep s frame launch
        { s with
          received := s.received ++ [frame]
          calibBuf := s.calibBuf ++ [frame]
          calibFirstTime := first }
  | launched (hrec : s.recording = true) (hcal : s.calibrating = true)
      (hfull : calibrationSkip + calibrationFrames ≤ s.calibBuf.length + 1)
      (hlaunch : launch = .started) (first : Option ℤ) (fps : ℚ) : FrameStep s frame launch
        { s with
          received := s.received ++ [frame]
          calibBuf := []
          calibFirstTime := first
          calibrating := false
          frameCount := s.frameCount + (s.calibBuf.length + 1)
          ffmpegProcess := some ⟨fps, true, s.calibBuf ++ [frame]⟩ }
  | unlaunched (hrec : s.recording = true) (hcal : s.calibrating = true)
      (hfull : calibrationSkip + calibrationFrames ≤ s.calibBuf.length + 1)
      (hlaunch : launch ≠ .started) (first : Option ℤ) : FrameStep s frame launch
        { s with
          received := s.received ++ [frame]
          calibBuf := []
          calibFirstTime := first
          calibrating := false
          frameCount := s.frameCount + (s.calibBuf.length + 1) }
  | encoded (hrec : s.recording = true) (hcal : s.calibrating = false) (roll : Bool)
      (hroll : roll = true → s.segmentRolling = false) : FrameStep s frame launch
        { s with
          received := s.received ++ [frame]
          frameCount := s.frameCount + 1
          segmentRolling := s.segmentRolling || roll
          queue := s.queue ++ if roll then [.roll] else []
          ffmpegProcess := s.ffmpegProcess.map (·.write frame)
          late := s.late || s.ffmpegProcess.any (!·.running) }

theorem launchFfmpeg_of_ne {launch : Launch} (h : launch ≠ .started) (fps : ℚ) :
    (s.launchFfmpeg fps launch).1 = s := by
  cases launch with
  | notFound => rfl
  | notStarted errorString => rfl
  | started => exact absurd rfl h

theorem frameStep_calibrating (hrec : s.recording = true) (hcal : s.calibrating = true)
    (hnone : s.ffmpegProcess = none) (frame : α) (now : ℤ) (launch : Launch) :
    FrameStep s frame launch
      ({ s with received := s.received ++ [frame] }.calibrate frame now launch).1 := by
  simp only [calibrate, List.length_append, List.length_singleton]
  by_cases hfull : calibrationSkip + calibrationFrames ≤ s.calibBuf.length + 1
  · rw [if_pos hfull]
    by_cases hlaunch : launch = .started
    · simp only [hlaunch, launchFfmpeg]
      rw [@flush_running α _ ⟨_, true, []⟩ rfl rfl, List.length_append]
      exact .launched hrec hcal hfull rfl _ _
    · dsimp only
      rw [launchFfmpeg_of_ne hlaunch, flush_none, List.length_append]
      · exact .unlaunched hrec hcal hfull hlaunch _
      · exact hnone
  · rw [if_neg hfull]
    exact .buffered hrec hcal (not_le.mp hfull) _

theorem frameStep_encoding (hrec : s.recording = true) (hcal : s.calibrating = false) (frame : α)
    (now : ℤ) (launch : Launch) :
    FrameStep s frame launch ({ s with received := s.received ++ [frame] }.encode frame now).1 := by
  simp only [encode]
  split_ifs with hdue
  · have hrolling : s.segmentRolling = false := by
      simpa using (Bool.and_eq_true_iff.mp hdue).1
    have hstep := @FrameStep.encoded α s frame launch hrec hcal true fun _ => hrolling
    simpa [write, hrolling] using hstep
  · have hstep := @FrameStep.encoded α s frame launch hrec hcal false nofun
    simpa [write] using hstep

theorem frameStep (hs : s.Consistent) (frame : α) (now : ℤ) (launch : Launch) :
    FrameStep s frame launch (s.onFrameReceived frame now launch).1 := by
  unfold onFrameReceived
  by_cases hrec : s.recording = true
  · rw [if_pos hrec]
    by_cases hcal : s.calibrating = true
    · dsimp only
      rw [if_pos hcal]
      exact frameStep_calibrating hrec hcal (hs.calibrating hcal) frame now launch
    · dsimp only
      rw [if_neg hcal]
      exact frameStep_encoding hrec (Bool.not_eq_true _ ▸ hcal) frame now launch
  · rw [if_neg hrec]
    rw [Bool.not_eq_true] at hrec
    split_ifs with hask
    · obtain ⟨hstop, hpending⟩ := Bool.and_eq_true_iff.mp hask
      exact .requested hrec (by simpa using hstop) (by simpa using hpending)
    · rw [Bool.and_eq_true, not_and_or] at hask
      exact .dropped hrec (by simpa using hask)

inductive StartStep (s : Camera α) (now : ℤ) (found : Bool) : Camera α → Prop
  | refused (hrec : s.recording = true) : StartStep s now found s
  | notFound (hrec : s.recording = false) (hfound : found = false) :
      StartStep s now found { s with manualStop := false }
  | started (hrec : s.recording = false) (hfound : found = true) : StartStep s now found
      { s with
        manualStop := false
        sessionPath := now
        frameCount := 0
        startTime := now
        ffmpegProcess := none
        calibrating := true
        calibBuf := []
        calibFirstTime := none
        segmentRolling := false
        recording := true
        received := []
        late := false }

theorem startStep (s : Camera α) (now : ℤ) (found : Bool) :
    StartStep s now found (s.startRecording now found).1 := by
  unfold startRecording
  split_ifs with hrec hfound
  · exact .refused hrec
  · exact .started (Bool.not_eq_true _ ▸ hrec) hfound
  · exact .notFound (Bool.not_eq_true _ ▸ hrec) (Bool.not_eq_true _ ▸ hfound)

section Queue

variable {queue : List Call} (now : ℤ) (found : Bool)

theorem runQueued_nil (h : s.queue = []) : s.runQueued now found = (s, []) := by
  rw [runQueued, h]

theorem runQueued_autoStart (h : s.queue = .autoStart :: queue) :
    s.runQueued now found =
      ({ ({ s with queue }.startRecording now found).1 with autoStartPending := false },
        ({ s with queue }.startRecording now found).2) := by
  rw [runQueued, h]

theorem runQueued_roll (h : s.queue = .roll :: queue) :
    s.runQueued now found = { s with queue }.rollSegment := by
  rw [runQueued, h]

end Queue

inductive QueuedStep (s : Camera α) (now : ℤ) (found : Bool) : Camera α × List (Effect α) → Prop
  | nothing (hqueue : s.queue = []) : QueuedStep s now found (s, [])
  | autoStart (queue : List Call) (hqueue : s.queue = .autoStart :: queue) :
      QueuedStep s now found
        ({ ({ s with queue }.startRecording now found).1 with autoStartPending := false },
          ({ s with queue }.startRecording now found).2)
  | rolled (queue : List Call) (hqueue : s.queue = .roll :: queue) (hrec : s.recording = true) :
      QueuedStep s now found { s with queue }.closeSession
  | ended (queue : List Call) (hqueue : s.queue = .roll :: queue) (hrec : s.recording = false) :
      QueuedStep s now found ({ s with queue }, [])

theorem queuedStep (s : Camera α) (now : ℤ) (found : Bool) :
    QueuedStep s now found (s.runQueued now found) := by
  cases hqueue : s.queue with
  | nil =>
    rw [runQueued_nil now found hqueue]
    exact .nothing hqueue
  | cons call queue =>
    cases call with
    | autoStart =>
      rw [runQueued_autoStart now found hqueue]
      exact .autoStart queue hqueue
    | roll =>
      rw [runQueued_roll now found hqueue, rollSegment]
      split_ifs with hrec
      · exact .rolled queue hqueue hrec
      · exact .ended queue hqueue (Bool.not_eq_true _ ▸ hrec)

namespace Consistent

theorem init : (Camera.init : Camera α).Consistent := ⟨fun _ => rfl, fun _ => rfl⟩

theorem frame (hs : s.Consistent) (jpegData : α) (now : ℤ) (launch : Launch) :
    (s.onFrameReceived jpegData now launch).1.Consistent := by
  have hstep := frameStep hs jpegData now launch
  generalize (s.onFrameReceived jpegData now launch).1 = s' at hstep ⊢
  cases hstep with
  | dropped => exact hs
  | requested => exact ⟨hs.calibrating, hs.idle⟩
  | buffered => exact ⟨hs.calibrating, hs.idle⟩
  | launched hrec => exact ⟨nofun, fun hidle => by simp [hrec] at hidle⟩
  | unlaunched => exact ⟨nofun, hs.idle⟩
  | encoded hrec hcal =>
    exact ⟨fun h => by simp [hcal] at h, fun hidle => by simp [hrec] at hidle⟩

theorem start (hs : s.Consistent) (now : ℤ) (found : Bool) :
    (s.startRecording now found).1.Consistent := by
  have hstep := startStep s now found
  generalize (s.startRecording now found).1 = s' at hstep ⊢
  cases hstep with
  | refused => exact hs
  | notFound => exact ⟨hs.calibrating, hs.idle⟩
  | started => exact ⟨fun _ => rfl, nofun⟩

theorem step (hs : s.Consistent) (x : Input α) : (s.step x).1.Consistent := by
  cases x with
  | frame jpegData now launch => exact hs.frame jpegData now launch
  | start now found => exact hs.start now found
  | stop =>
    simp only [Camera.step, stopRecording]
    split_ifs with hrec hcal
    · exact ⟨nofun, fun _ => hs.calibrating hcal⟩
    · exact ⟨fun _ => rfl, fun _ => rfl⟩
    · exact hs
  | queued now found =>
    have hstep := queuedStep s now found
    show (s.runQueued now found).1.Consistent
    generalize s.runQueued now found = result at hstep ⊢
    cases hstep with
    | nothing => exact hs
    | autoStart queue =>
      have hstart := @start _ { s with queue } ⟨hs.calibrating, hs.idle⟩ now found
      exact ⟨hstart.calibrating, hstart.idle⟩
    | rolled => exact ⟨fun _ => rfl, fun _ => rfl⟩
    | ended => exact ⟨hs.calibrating, hs.idle⟩
  | encoderEnds =>
    refine ⟨fun hcal => ?_, fun hidle => ?_⟩
    · simp [Camera.step, encoderEnds, hs.calibrating hcal]
    · simp [Camera.step, encoderEnds, hs.idle hidle]
  | finished i now =>
    simp only [Camera.step, Camera.finished]
    split
    · exact hs
    · exact ⟨hs.calibrating, hs.idle⟩
  | shutdown now =>
    simp only [Camera.step, Camera.shutdown]
    split_ifs with hrec hcal
    · exact ⟨nofun, fun _ => hs.calibrating hcal⟩
    · exact ⟨fun _ => rfl, fun _ => rfl⟩
    · exact hs

theorem run (xs : List (Input α)) : (recorder.run Camera.init xs).Consistent :=
  recorder.invariant_run (fun _ x hs => hs.step x) init xs

end Consistent

end Camera

end JeogiAt.Client.Recording
