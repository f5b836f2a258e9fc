import JeogiAt.RecordingManager

/-!
# What it means that a camera is recording, and that it is stopped

A camera that is recording and through with its calibration should have an encoder. It has none
when `ffmpeg` could not be launched, since the flag was set before. A stop by the user should last
until the user starts again. It does not when an automatic start is queued already, and when the
camera was not recording at that moment, as between a roll and the automatic start after it.
-/

namespace JeogiAt.Client.Recording

variable {α : Type*}

namespace Camera

def Encodes (s : Camera α) : Prop :=
  s.recording = true → s.calibrating = false → s.ffmpegProcess.isSome = true

def Launches (s : Camera α) : Input α → Prop
  | .frame _ _ launch => s.recording = true → s.calibrating = true →
      calibrationSkip + calibrationFrames ≤ s.calibBuf.length + 1 → launch = .started
  | _ => True

variable {s : Camera α}

theorem Encodes.of_idle (h : s.recording = false) : s.Encodes :=
  fun hrec => absurd (h.symm.trans hrec) Bool.false_ne_true

theorem Encodes.frame_iff (he : s.Encodes) (hs : s.Consistent) (jpegData : α) (now : ℤ)
    (launch : Launch) :
    (s.onFrameReceived jpegData now launch).1.Encodes ↔
      s.Launches (.frame jpegData now launch) := by
  have hstep := frameStep hs jpegData now launch
  generalize (s.onFrameReceived jpegData now launch).1 = s' at hstep ⊢
  cases hstep with
  | dropped hrec => exact iff_of_true he fun h => absurd (hrec.symm.trans h) nofun
  | requested hrec => exact iff_of_true he fun h => absurd (hrec.symm.trans h) nofun
  | buffered hrec hcal hshort =>
    refine iff_of_true (fun _ h => absurd (hcal.symm.trans h) nofun) fun _ _ hfull => ?_
    omega
  | launched hrec hcal hfull hlaunch => exact iff_of_true (fun _ _ => rfl) fun _ _ _ => hlaunch
  | unlaunched hrec hcal hfull hlaunch =>
    refine iff_of_false (fun hsome => ?_) fun h => hlaunch (h hrec hcal hfull)
    have hproc := hsome hrec rfl
    simp [hs.calibrating hcal] at hproc
  | encoded hrec hcal =>
    refine iff_of_true (fun _ _ => ?_) fun _ h => absurd (hcal.symm.trans h) nofun
    rw [Option.isSome_map]
    exact he hrec hcal

theorem Encodes.start (he : s.Encodes) (now : ℤ) (found : Bool) :
    (s.startRecording now found).1.Encodes := by
  have hstep := startStep s now found
  generalize (s.startRecording now found).1 = s' at hstep ⊢
  cases hstep with
  | refused => exact he
  | notFound hrec => exact .of_idle hrec
  | started => exact fun _ hcal => absurd hcal nofun

/-- After any step recording means encoding, unless a launch has failed in it. -/
theorem Encodes.step_iff (he : s.Encodes) (hs : s.Consistent) (x : Input α) :
    (s.step x).1.Encodes ↔ s.Launches x := by
  cases x with
  | frame jpegData now launch => exact he.frame_iff hs jpegData now launch
  | start now found => exact iff_of_true (he.start now found) trivial
  | stop =>
    refine iff_of_true ?_ trivial
    simp only [step, stopRecording]
    split_ifs
    · exact .of_idle rfl
    · exact .of_idle rfl
    · exact he
  | queued now found =>
    refine iff_of_true ?_ trivial
    have hstep := queuedStep s now found
    show (s.runQueued now found).1.Encodes
    generalize s.runQueued now found = result at hstep ⊢
    cases hstep with
    | nothing => exact he
    | autoStart queue => exact @start _ { s with queue } he now found
    | rolled => exact .of_idle rfl
    | ended => exact he
  | encoderEnds =>
    refine iff_of_true (fun hrec hcal => ?_) trivial
    exact Option.isSome_map.trans (he hrec hcal)
  | finished i now =>
    refine iff_of_true ?_ trivial
    simp only [step, finished]
    split <;> exact he
  | shutdown now =>
    refine iff_of_true ?_ trivial
    simp only [step, shutdown]
    split_ifs
    · exact .of_idle rfl
    · exact .of_idle rfl
    · exact he

end Camera

open Camera

/-- Recording means encoding throughout a run if and only if every launch in it succeeds. -/
theorem recording_encodes_iff (xs : List (Input α)) :
    (∀ ys, ys <+: xs → (recorder.run init ys).Encodes) ↔ recorder.Along Launches init xs :=
  Machine.prefixes_iff_along (I := fun ys => (recorder.run init ys).Encodes)
    (.of_idle rfl)
    (fun ys x _ he => by
      rw [Machine.run_concat]
      exact he.step_iff (.run ys) x)
    xs

/-- A run in which `ffmpeg` is gone when the calibration is done. -/
def lostFfmpeg : List (Input ℕ) :=
  .start 0 true :: List.replicate 65 (.frame 0 40 .notFound)

/-- The camera is recording, and nothing is encoded. -/
theorem lostFfmpeg_records : ¬∀ xs : List (Input ℕ), (recorder.run init xs).Encodes := by
  intro h
  have hlost := h lostFfmpeg
  rw [Encodes] at hlost
  revert hlost
  decide +kernel

def Input.IsStart : Input α → Prop
  | .start _ _ => True
  | _ => False

namespace Camera

def StaysOff (s : Camera α) : Prop :=
  ∀ xs : List (Input α), (∀ x ∈ xs, ¬x.IsStart) → (recorder.run s xs).recording = false

/-- An automatic start is queued exactly when one is pending, and only once. -/
def QueuedOnce (s : Camera α) : Prop := s.queue.count .autoStart = s.autoStartPending.toNat

structure Stopped (s : Camera α) : Prop where
  idle : s.recording = false
  manualStop : s.manualStop = true
  unasked : .autoStart ∉ s.queue

variable {s : Camera α}

theorem QueuedOnce.mem_iff (h : s.QueuedOnce) :
    .autoStart ∈ s.queue ↔ s.autoStartPending = true := by
  rw [← List.count_pos_iff, h]
  cases s.autoStartPending <;> decide

theorem QueuedOnce.frame (h : s.QueuedOnce) (hs : s.Consistent) (jpegData : α) (now : ℤ)
    (launch : Launch) : (s.onFrameReceived jpegData now launch).1.QueuedOnce := by
  have hstep := frameStep hs jpegData now launch
  generalize (s.onFrameReceived jpegData now launch).1 = s' at hstep ⊢
  cases hstep with
  | dropped => exact h
  | requested hrec hstop hpending =>
    rw [QueuedOnce, hpending] at h
    simp [QueuedOnce, List.count_append, h]
  | buffered => exact h
  | launched => exact h
  | unlaunched => exact h
  | encoded hrec hcal roll =>
    rw [QueuedOnce] at h
    cases roll <;> simp [QueuedOnce, List.count_append, h]

theorem QueuedOnce.start (h : s.QueuedOnce) (now : ℤ) (found : Bool) :
    (s.startRecording now found).1.QueuedOnce := by
  have hstep := startStep s now found
  generalize (s.startRecording now found).1 = s' at hstep ⊢
  cases hstep <;> exact h

theorem startRecording_queue (now : ℤ) (found : Bool) :
    (s.startRecording now found).1.queue = s.queue := by
  have hstep := startStep s now found
  generalize (s.startRecording now found).1 = s' at hstep ⊢
  cases hstep <;> rfl

theorem QueuedOnce.step (h : s.QueuedOnce) (hs : s.Consistent) (x : Input α) :
    (s.step x).1.QueuedOnce := by
  cases x with
  | frame jpegData now launch => exact h.frame hs jpegData now launch
  | start now found => exact h.start now found
  | stop =>
    simp only [Camera.step, stopRecording]
    split_ifs <;> exact h
  | queued now found =>
    have hstep := queuedStep s now found
    show (s.runQueued now found).1.QueuedOnce
    generalize s.runQueued now found = result at hstep ⊢
    rw [QueuedOnce] at h
    cases hstep with
    | nothing => exact h
    | autoStart queue hqueue =>
      rw [hqueue, List.count_cons_self] at h
      have hle := Bool.toNat_le s.autoStartPending
      rw [QueuedOnce, startRecording_queue]
      show queue.count .autoStart = 0
      omega
    | rolled queue hqueue =>
      rw [hqueue] at h
      exact h
    | ended queue hqueue =>
      rw [hqueue] at h
      exact h
  | encoderEnds => exact h
  | finished i now =>
    simp only [Camera.step, finished]
    split <;> exact h
  | shutdown now =>
    simp only [Camera.step, shutdown]
    split_ifs <;> exact h

theorem QueuedOnce.run (xs : List (Input α)) : (recorder.run init xs).QueuedOnce :=
  recorder.invariant_run_of (I := QueuedOnce) (J := Consistent) (fun _ x hs => hs.step x)
    (fun _ x hs h => h.step hs x) .init (show QueuedOnce init from rfl) xs

theorem Stopped.step (h : s.Stopped) {x : Input α} (hx : ¬x.IsStart) : (s.step x).1.Stopped := by
  obtain ⟨hidle, hstop, hqueue⟩ := h
  cases x with
  | frame jpegData now launch =>
    simp only [Camera.step, onFrameReceived, hidle, hstop, Bool.false_eq_true, if_false,
      Bool.not_true, Bool.false_and]
    exact ⟨hidle, hstop, hqueue⟩
  | start now found => exact absurd trivial hx
  | stop =>
    simp only [Camera.step, stopRecording, hidle, Bool.false_eq_true, if_false]
    exact ⟨hidle, hstop, hqueue⟩
  | queued now found =>
    have hstep := queuedStep s now found
    show (s.runQueued now found).1.Stopped
    generalize s.runQueued now found = result at hstep ⊢
    cases hstep with
    | nothing => exact ⟨hidle, hstop, hqueue⟩
    | autoStart queue hcalls =>
      rw [hcalls, List.mem_cons, not_or] at hqueue
      exact absurd rfl hqueue.1
    | rolled queue hcalls hrec => exact absurd (hidle.symm.trans hrec) Bool.false_ne_true
    | ended queue hcalls =>
      rw [hcalls, List.mem_cons, not_or] at hqueue
      exact ⟨hidle, hstop, hqueue.2⟩
  | encoderEnds => exact ⟨hidle, hstop, hqueue⟩
  | finished i now =>
    simp only [Camera.step, finished]
    split <;> exact ⟨hidle, hstop, hqueue⟩
  | shutdown now =>
    simp only [Camera.step, shutdown, hidle, Bool.false_eq_true, if_false]
    exact ⟨hidle, hstop, hqueue⟩

theorem Stopped.staysOff (h : s.Stopped) : s.StaysOff := by
  intro xs hxs
  have hrun := recorder.invariant_along (I := Stopped) (P := fun _ x => ¬x.IsStart)
    (fun _ _ h hx => h.step hx) h (Machine.along_input_iff.mpr hxs)
  exact hrun.idle

theorem exists_autoStart (hidle : s.recording = false) (hqueue : .autoStart ∈ s.queue) :
    ∃ xs : List (Input α), (∀ x ∈ xs, ¬x.IsStart) ∧ (recorder.run s xs).recording = true := by
  induction hcalls : s.queue generalizing s with
  | nil => simp [hcalls] at hqueue
  | cons call queue ih =>
    cases call with
    | autoStart =>
      refine ⟨[.queued 0 true], by simp [Input.IsStart], ?_⟩
      show (s.runQueued 0 true).1.recording = true
      rw [runQueued_autoStart 0 true hcalls, startRecording, if_neg (by simp [hidle])]
      rfl
    | roll =>
      have hnext : recorder.next s (.queued 0 true) = { s with queue } := by
        show (s.runQueued 0 true).1 = _
        rw [runQueued_roll 0 true hcalls, rollSegment, if_neg (by simp [hidle])]
      rw [hcalls, List.mem_cons] at hqueue
      obtain ⟨xs, hxs, hrec⟩ := @ih { s with queue } hidle (hqueue.resolve_left (by decide)) rfl
      refine ⟨.queued 0 true :: xs, ?_, ?_⟩
      · simpa [Input.IsStart] using hxs
      · rw [Machine.run_cons, hnext]
        exact hrec

theorem not_staysOff_of_queued (hidle : s.recording = false) (hqueue : .autoStart ∈ s.queue) :
    ¬s.StaysOff := by
  intro hoff
  obtain ⟨xs, hxs, hrec⟩ := exists_autoStart hidle hqueue
  exact Bool.false_ne_true ((hoff xs hxs).symm.trans hrec)

/-- The next frame of a camera that is off and not stopped starts it. -/
theorem not_staysOff_of_unstopped [Inhabited α] (hidle : s.recording = false)
    (hstop : s.manualStop = false) (hpending : s.autoStartPending = false) : ¬s.StaysOff := by
  intro hoff
  let x : Input α := .frame (default) 0 .started
  have hnext : recorder.next s x =
      { s with autoStartPending := true, queue := s.queue ++ [.autoStart] } := by
    show (s.onFrameReceived _ _ _).1 = _
    simp [onFrameReceived, hidle, hstop, hpending]
  refine not_staysOff_of_queued (s := recorder.next s x) ?_ ?_ fun xs hxs => ?_
  · rw [hnext]
    exact hidle
  · rw [hnext]
    simp
  · exact hoff (x :: xs) (List.forall_mem_cons.mpr ⟨id, hxs⟩)

theorem stopRecording_recording : s.stopRecording.1.recording = false := by
  simp only [stopRecording]
  split_ifs with hrec
  · rfl
  · rfl
  · exact Bool.not_eq_true _ ▸ hrec

theorem stopRecording_queue : s.stopRecording.1.queue = s.queue := by
  simp only [stopRecording]
  split_ifs <;> rfl

theorem stopRecording_manualStop (h : s.recording = true ∨ s.manualStop = true) :
    s.stopRecording.1.manualStop = true := by
  simp only [stopRecording]
  split_ifs with hrec
  · rfl
  · rfl
  · exact h.resolve_left hrec

end Camera

/-- After a stop the camera is off until the user starts it if and only if no automatic start was
pending at the stop and the camera was recording or stopped already. -/
theorem stop_final_iff [Inhabited α] (xs : List (Input α)) :
    (recorder.run init xs).stopRecording.1.StaysOff ↔
      (recorder.run init xs).autoStartPending = false ∧
        ((recorder.run init xs).recording = true ∨ (recorder.run init xs).manualStop = true) := by
  have hqueued := QueuedOnce.run xs
  generalize recorder.run init xs = s at hqueued ⊢
  have hmem : .autoStart ∈ s.stopRecording.1.queue ↔ s.autoStartPending = true := by
    rw [stopRecording_queue]
    exact hqueued.mem_iff
  constructor
  · intro hoff
    have hpending : s.autoStartPending = false := by
      rw [← Bool.not_eq_true, ← hmem]
      exact fun hin => not_staysOff_of_queued stopRecording_recording hin hoff
    refine ⟨hpending, ?_⟩
    by_contra hno
    simp only [not_or, Bool.not_eq_true] at hno
    have hsame : s.stopRecording.1 = s := by
      rw [stopRecording, if_neg (by simp [hno.1])]
    rw [hsame] at hoff
    exact not_staysOff_of_unstopped hno.1 hno.2 hpending hoff
  · rintro ⟨hpending, hstop⟩
    refine Stopped.staysOff ⟨stopRecording_recording, stopRecording_manualStop hstop, ?_⟩
    rw [hmem, hpending]
    exact Bool.false_ne_true

/-- A frame asks for the automatic start, and the user starts the camera before it is made. -/
def startedTwice : List (Input ℕ) := [.frame 0 0 .started, .start 0 true]

/-- The queued start undoes the stop that comes next. -/
theorem startedTwice_restarts :
    ¬∀ xs : List (Input ℕ), (recorder.run init xs).stopRecording.1.StaysOff :=
  fun h => Bool.false_ne_true
    ((h startedTwice [.queued 0 true] (by simp [Input.IsStart])).symm.trans rfl)

end JeogiAt.Client.Recording
