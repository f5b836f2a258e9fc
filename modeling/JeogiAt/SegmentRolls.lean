import JeogiAt.RecordingManager

/-!
# The frames of rolled segments

A roll ends the session, and the next frame asks for the one after it. `Watched` keeps, beside the
camera, the frames received since recording first started, each with whether it found the camera
recording, and what the encoders of the closed sessions were given. As long as `ffmpeg` is there
and the user does not stop, every frame that found the camera recording is with exactly one
encoder or in the calibration buffer. The others, between a roll and the automatic start after it,
are in no segment.
-/

namespace JeogiAt.Client.Recording

variable {α : Type*}

namespace Input

def jpeg : Input α → List α
  | .frame jpegData _ _ => [jpegData]
  | _ => []

/-- No user stops, and `ffmpeg` is available and runs until it is closed. -/
def Continuous : Input α → Prop
  | .frame _ _ launch => launch = .started
  | .start _ found => found = true
  | .stop => False
  | .queued _ found => found = true
  | .encoderEnds => False
  | .finished _ _ => True
  | .shutdown _ => False

end Input

namespace Camera

def written (s : Camera α) : List α := (s.ffmpegProcess.map (·.written)).getD []

def held (s : Camera α) : List α := if s.recording && s.calibrating then s.calibBuf else []

/-- A camera in a run without stops and failures: a session through with its calibration has an
encoder that runs, and the roll queued is its own. -/
structure Undisturbed (s : Camera α) : Prop where
  encodes : s.recording = true → s.calibrating = false →
    ∃ proc, s.ffmpegProcess = some proc ∧ proc.running = true
  unrolled : s.recording = true → s.calibrating = true → s.segmentRolling = false
  rolls : s.queue.count .roll = (s.recording && !s.calibrating && s.segmentRolling).toNat

variable {s : Camera α}

theorem Undisturbed.init : (Camera.init : Camera α).Undisturbed := ⟨nofun, nofun, rfl⟩

theorem Undisturbed.frame (h : s.Undisturbed) (hs : s.Consistent) (jpegData : α) (now : ℤ) :
    (s.onFrameReceived jpegData now .started).1.Undisturbed := by
  have hrolls := h.rolls
  have hstep := frameStep hs jpegData now .started
  generalize (s.onFrameReceived jpegData now .started).1 = s' at hstep ⊢
  cases hstep with
  | dropped => exact h
  | requested hrec =>
    refine ⟨h.encodes, h.unrolled, ?_⟩
    simpa [List.count_append] using hrolls
  | buffered => exact ⟨h.encodes, h.unrolled, hrolls⟩
  | launched hrec hcal =>
    have hrolling := h.unrolled hrec hcal
    refine ⟨fun _ _ => ⟨_, rfl, rfl⟩, fun _ => nofun, ?_⟩
    simpa [hcal, hrolling] using hrolls
  | unlaunched hrec hcal hfull hlaunch => exact absurd rfl hlaunch
  | encoded hrec hcal roll hroll =>
    obtain ⟨proc, hproc, hrunning⟩ := h.encodes hrec hcal
    refine ⟨fun _ _ => ⟨proc.write jpegData, by simp [hproc], ?_⟩,
      fun _ htrue => absurd (hcal.symm.trans htrue) nofun, ?_⟩
    · simp [Encoder.write, hrunning]
    · cases roll with
      | false => simpa [hrec, hcal] using hrolls
      | true =>
        rw [hroll rfl] at hrolls
        simp only [Bool.and_false, Bool.toNat_false] at hrolls
        simp [hrec, hcal, hrolls, List.count_append]

theorem Undisturbed.start (h : s.Undisturbed) (now : ℤ) :
    (s.startRecording now true).1.Undisturbed := by
  have hrolls := h.rolls
  have hstep := startStep s now true
  generalize (s.startRecording now true).1 = s' at hstep ⊢
  cases hstep with
  | refused => exact h
  | notFound hrec hfound => cases hfound
  | started hrec =>
    refine ⟨fun _ => nofun, fun _ _ => rfl, ?_⟩
    simpa [hrec] using hrolls

/-- A roll that is queued is that of the session, and the only one. -/
theorem Undisturbed.of_roll (h : s.Undisturbed) {queue : List Call}
    (hqueue : s.queue = .roll :: queue) :
    s.recording = true ∧ s.calibrating = false ∧ queue.count .roll = 0 := by
  have hrolls := h.rolls
  rw [hqueue, List.count_cons_self] at hrolls
  have hle := Bool.toNat_le (s.recording && !s.calibrating && s.segmentRolling)
  have htrue : (s.recording && !s.calibrating && s.segmentRolling) = true := by
    by_contra hfalse
    rw [Bool.not_eq_true] at hfalse
    rw [hfalse] at hrolls
    cases hrolls
  simp only [Bool.and_eq_true, Bool.not_eq_true'] at htrue
  exact ⟨htrue.1.1, htrue.1.2, by omega⟩

theorem Undisturbed.step (h : s.Undisturbed) (hs : s.Consistent) {x : Input α}
    (hx : x.Continuous) : (s.step x).1.Undisturbed := by
  cases x with
  | frame jpegData now launch =>
    cases (show launch = .started from hx)
    exact h.frame hs jpegData now
  | start now found =>
    cases (show found = true from hx)
    exact h.start now
  | stop => exact hx.elim
  | queued now found =>
    cases (show found = true from hx)
    have hstep := queuedStep s now true
    show (s.runQueued now true).1.Undisturbed
    generalize s.runQueued now true = result at hstep ⊢
    cases hstep with
    | nothing => exact h
    | autoStart queue hqueue =>
      have hrolls := h.rolls
      rw [hqueue] at hrolls
      have hstart := @start _ { s with queue } ⟨h.encodes, h.unrolled, hrolls⟩ now
      exact ⟨hstart.encodes, hstart.unrolled, hstart.rolls⟩
    | rolled queue hqueue =>
      exact ⟨fun hfalse => absurd hfalse Bool.false_ne_true,
        fun hfalse => absurd hfalse Bool.false_ne_true, (h.of_roll hqueue).2.2⟩
    | ended queue hqueue hrec =>
      exact absurd (hrec.symm.trans (h.of_roll hqueue).1) Bool.false_ne_true
  | encoderEnds => exact hx.elim
  | finished i now =>
    simp only [Camera.step, finished]
    split
    · exact h
    · exact ⟨h.encodes, h.unrolled, h.rolls⟩
  | shutdown now => exact hx.elim

theorem written_of_none (h : s.ffmpegProcess = none) : s.written = [] := by
  rw [written, h]
  rfl

theorem held_of_idle (h : s.recording = false) : s.held = [] := by
  rw [held, h]
  rfl

theorem held_of_encoding (h : s.calibrating = false) : s.held = [] := by
  rw [held, h, Bool.and_false]
  rfl

theorem held_of_calibrating (hrec : s.recording = true) (hcal : s.calibrating = true) :
    s.held = s.calibBuf := by
  rw [held, hrec, hcal]
  rfl

/-- The frames of the session, with its encoder or in the buffer. -/
def frames (s : Camera α) : List α := s.written ++ s.held

theorem frames_idle (hs : s.Consistent) (h : s.recording = false) : s.frames = [] := by
  rw [frames, written_of_none (hs.idle h), held_of_idle h, List.append_nil]

theorem frames_calibrating (hs : s.Consistent) (hrec : s.recording = true)
    (hcal : s.calibrating = true) : s.frames = s.calibBuf := by
  rw [frames, written_of_none (hs.calibrating hcal), held_of_calibrating hrec hcal,
    List.nil_append]

theorem frames_encoding (h : s.calibrating = false) : s.frames = s.written := by
  rw [frames, held_of_encoding h, List.append_nil]

theorem Undisturbed.frames_frame (h : s.Undisturbed) (hs : s.Consistent) (jpegData : α)
    (now : ℤ) : (s.onFrameReceived jpegData now .started).1.recording = s.recording ∧
      (s.onFrameReceived jpegData now .started).1.frames =
        s.frames ++ if s.recording then [jpegData] else [] := by
  have hs' := hs.frame jpegData now .started
  have hstep := frameStep hs jpegData now .started
  generalize (s.onFrameReceived jpegData now .started).1 = s' at hstep hs' ⊢
  cases hstep with
  | dropped hrec =>
    refine ⟨rfl, ?_⟩
    simp [hrec]
  | requested hrec =>
    refine ⟨rfl, ?_⟩
    rw [frames_idle hs' hrec, frames_idle hs hrec]
    simp [hrec]
  | buffered hrec hcal =>
    refine ⟨rfl, ?_⟩
    rw [frames_calibrating hs' hrec hcal, frames_calibrating hs hrec hcal, if_pos hrec]
  | launched hrec hcal =>
    refine ⟨rfl, ?_⟩
    rw [frames_encoding rfl, frames_calibrating hs hrec hcal, if_pos hrec]
    rfl
  | unlaunched hrec hcal hfull hlaunch => exact absurd rfl hlaunch
  | encoded hrec hcal =>
    obtain ⟨proc, hproc, hrunning⟩ := h.encodes hrec hcal
    refine ⟨rfl, ?_⟩
    rw [frames_encoding hcal, if_pos hrec, frames_encoding]
    · simp [written, hproc, Encoder.write, hrunning]
    · exact hcal

theorem frames_start (hs : s.Consistent) (now : ℤ) (found : Bool) :
    (s.startRecording now found).1.frames = s.frames ∧
      (s.recording = true → (s.startRecording now found).1.recording = true) := by
  have hs' := hs.start now found
  have hstep := startStep s now found
  generalize (s.startRecording now found).1 = s' at hstep hs' ⊢
  cases hstep with
  | refused hrec => exact ⟨rfl, id⟩
  | notFound hrec => exact ⟨rfl, id⟩
  | started hrec =>
    refine ⟨?_, fun _ => rfl⟩
    rw [frames_calibrating hs' rfl rfl, frames_idle hs hrec]

/-- What the step puts away: the frames of the session that it closes. -/
def closed (s : Camera α) (x : Input α) : List (List α) :=
  if s.recording && !(s.step x).1.recording then [s.written] else []

theorem closed_eq_nil {x : Input α} (h : s.recording = true → (s.step x).1.recording = true) :
    s.closed x = [] := by
  unfold closed
  cases hrec : s.recording with
  | false => rfl
  | true => rw [h hrec]; rfl

/-- A queued call keeps the frames: a roll leaves them with the encoder that it closes. -/
theorem Undisturbed.frames_queued (h : s.Undisturbed) (hs : s.Consistent) (now : ℤ)
    (found : Bool) :
    (s.closed (.queued now found)).flatten ++ (s.runQueued now found).1.frames = s.frames := by
  have hstep := queuedStep s now found
  have hclosed (hrec : s.recording = true → (s.runQueued now found).1.recording = true) :
      s.closed (.queued now found) = [] := closed_eq_nil hrec
  have hroll (hrec : s.recording = true) (hoff : (s.runQueued now found).1.recording = false) :
      s.closed (.queued now found) = [s.written] :=
    if_pos (by simp [hrec, Camera.step, hoff])
  generalize s.runQueued now found = result at hstep hclosed hroll ⊢
  cases hstep with
  | nothing =>
    rw [hclosed id]
    rfl
  | autoStart queue =>
    obtain ⟨hframes, hrec⟩ := @frames_start _ { s with queue } ⟨hs.calibrating, hs.idle⟩ now found
    rw [hclosed hrec]
    exact hframes
  | rolled queue hqueue hrec =>
    rw [hroll hrec rfl, frames_encoding (h.of_roll hqueue).2.1]
    simp [closeSession, frames, written, held]
  | ended queue hqueue hrec =>
    exact absurd (hrec.symm.trans (h.of_roll hqueue).1) Bool.false_ne_true

/-- A step keeps the frames: those of a session that is closed are with its encoder. -/
theorem Undisturbed.frames_step (h : s.Undisturbed) (hs : s.Consistent) {x : Input α}
    (hx : x.Continuous) :
    (s.closed x).flatten ++ (s.step x).1.frames =
      s.frames ++ if s.recording then x.jpeg else [] := by
  cases x with
  | frame jpegData now launch =>
    cases (show launch = .started from hx)
    obtain ⟨hrec, hframes⟩ := h.frames_frame hs jpegData now
    have hstep : s.step (.frame jpegData now .started) = s.onFrameReceived jpegData now .started :=
      rfl
    rw [closed_eq_nil (by rw [hstep]; exact hrec.trans), hstep]
    exact hframes
  | start now found =>
    simp only [Input.jpeg, ite_self, List.append_nil]
    obtain ⟨hframes, hrec⟩ := frames_start hs now found
    have hstep : s.step (.start now found) = s.startRecording now found := rfl
    rw [closed_eq_nil (by rw [hstep]; exact hrec), hstep]
    exact hframes
  | stop => exact hx.elim
  | queued now found =>
    simp only [Input.jpeg, ite_self, List.append_nil]
    exact h.frames_queued hs now found
  | encoderEnds => exact hx.elim
  | finished i now =>
    simp only [Input.jpeg, ite_self, List.append_nil]
    have hstep : (s.step (.finished i now)).1.recording = s.recording ∧
        (s.step (.finished i now)).1.frames = s.frames := by
      simp only [Camera.step, finished]
      split <;> exact ⟨rfl, rfl⟩
    rw [closed_eq_nil fun htrue => hstep.1.trans htrue]
    exact hstep.2
  | shutdown now => exact hx.elim

end Camera

/-- A camera with the frames received since recording first started, each with whether it found
the camera recording, and the frames that the encoders of the closed sessions were given. -/
structure Watched (α : Type*) where
  camera : Camera α
  started : Bool
  received : List (α × Bool)
  segments : List (List α)

namespace Watched

def init : Watched α := ⟨.init, false, [], []⟩

def step (w : Watched α) (x : Input α) : Watched α × List (Effect α) :=
  let (camera, effects) := w.camera.step x
  (⟨camera, w.started || camera.recording,
    w.received ++ if w.started then x.jpeg.map (·, w.camera.recording) else [],
    w.segments ++ w.camera.closed x⟩, effects)

/-- The frames of all segments, with those of the current one that are still in the buffer. -/
def kept (w : Watched α) : List α := w.segments.flatten ++ w.camera.frames

def recorded (w : Watched α) : List α := (w.received.filter Prod.snd).map Prod.fst

end Watched

def watcher : Machine (Watched α) (Input α) (List (Effect α)) := ⟨Watched.step⟩

namespace Watched

variable {w : Watched α}

structure Seamless (w : Watched α) : Prop where
  undisturbed : w.camera.Undisturbed
  consistent : w.camera.Consistent
  started : w.camera.recording = true → w.started = true
  kept : w.kept = w.recorded

theorem Seamless.init : (Watched.init : Watched α).Seamless := ⟨.init, .init, nofun, rfl⟩

theorem Seamless.step (h : w.Seamless) {x : Input α} (hx : x.Continuous) :
    (w.step x).1.Seamless := by
  refine ⟨h.undisturbed.step h.consistent hx, h.consistent.step x, fun hrec => ?_, ?_⟩
  · exact Bool.or_eq_true_iff.mpr (.inr hrec)
  · have hframes := h.undisturbed.frames_step h.consistent hx
    have hkept := h.kept
    have hrecorded : (w.step x).1.recorded =
        w.recorded ++ if w.camera.recording then x.jpeg else [] := by
      show ((w.received ++ _).filter Prod.snd).map Prod.fst = _
      rw [List.filter_append, List.map_append]
      cases hrec : w.camera.recording with
      | true => simp [recorded, h.started hrec, List.filter_map, Function.comp_def]
      | false => cases w.started <;> simp [recorded, List.filter_map, Function.comp_def]
    rw [hrecorded, ← hkept, Watched.kept, Watched.kept, List.append_assoc, ← hframes]
    show (w.segments ++ _).flatten ++ _ = _
    rw [List.flatten_append, List.append_assoc]
    rfl

end Watched

namespace Watched

theorem Seamless.run {xs : List (Input α)} (h : ∀ x ∈ xs, x.Continuous) :
    (watcher.run Watched.init xs).Seamless :=
  watcher.invariant_along (I := Seamless) (P := fun _ x => x.Continuous)
    (fun _ _ hw hx => hw.step hx) .init (Machine.along_input_iff.mpr h)

/-- The frames recorded are all frames exactly when none found the camera not recording. -/
theorem recorded_eq_iff (w : Watched α) :
    w.recorded = w.received.map Prod.fst ↔ ∀ r ∈ w.received, r.2 = true := by
  constructor
  · intro heq
    have hlength : (w.received.filter Prod.snd).length = w.received.length := by
      simpa [recorded] using congrArg List.length heq
    exact List.length_filter_eq_length_iff.mp hlength
  · intro hall
    rw [recorded, List.filter_eq_self.mpr hall]

end Watched

/-- In a run without stops and failures the segments and the buffer have exactly the frames that
found the camera recording, each once and in the order of arrival. Nothing is lost if and only if
every frame since the first start found it recording. -/
theorem rolling_keeps_recorded (xs : List (Input α)) (h : ∀ x ∈ xs, x.Continuous) :
    (watcher.run .init xs).kept = (watcher.run .init xs).recorded ∧
      ((watcher.run .init xs).kept = (watcher.run .init xs).received.map Prod.fst ↔
        ∀ r ∈ (watcher.run .init xs).received, r.2 = true) := by
  have hkept := (Watched.Seamless.run h).kept
  refine ⟨hkept, ?_⟩
  rw [hkept]
  exact Watched.recorded_eq_iff _

/-- A segment that is rolled after five minutes, and the first frames after it. -/
def rolledOnce : List (Input ℕ) :=
  [.frame 0 0 .started, .queued 0 true] ++
    (List.range 65).map (fun frame => .frame frame 40 .started) ++
      [.frame 65 300000 .started, .queued 300010 true, .frame 66 300040 .started,
        .queued 300050 true, .frame 67 300080 .started]

theorem continuous_rolledOnce : ∀ x ∈ rolledOnce, x.Continuous := by
  simp [rolledOnce, Input.Continuous, or_imp, forall_and]

theorem rolledOnce_keeps :
    (watcher.run .init rolledOnce).kept = (watcher.run .init rolledOnce).recorded ∧
      ((watcher.run .init rolledOnce).kept = (watcher.run .init rolledOnce).received.map Prod.fst ↔
        ∀ r ∈ (watcher.run .init rolledOnce).received, r.2 = true) :=
  rolling_keeps_recorded rolledOnce continuous_rolledOnce

/-- Frame 66 comes between the roll and the start after it, and is in no segment. -/
theorem rolledOnce_loses : ¬∀ xs : List (Input ℕ), (∀ x ∈ xs, x.Continuous) →
    (watcher.run .init xs).kept = (watcher.run .init xs).received.map Prod.fst := by
  intro h
  have hall := h rolledOnce continuous_rolledOnce
  revert hall
  decide +kernel

end JeogiAt.Client.Recording
