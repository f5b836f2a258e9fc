import JeogiAt.RecordingManager

/-!
# The frame counts of the recordings

A `meta.json` is written when the encoder of a stopped or rolled session has finished, and by
`shutdownAll`. `Counted` says what the count and the encoder of a session have to do with the
frames received: every frame is counted, and written as long as the encoder runs. An encoder that
has ended on its own sends no signal to a later stop or roll, so these write true counts only.
`shutdownAll` writes the count in any case, with the frames in it that came after the end.
-/

namespace JeogiAt.Client.Recording

variable {α : Type*}

/-- The count is that of the frames written, and these are the frames of the session. -/
structure Meta.Faithful (m : Meta α) : Prop where
  frame_count : m.frame_count = m.written.length
  written : m.written = m.received

def FaithfulFiles (effects : List (Effect α)) : Prop := ∀ m, .metaFile m ∈ effects → m.Faithful

namespace Camera

/-- `shutdownAll` finds no session of which a frame came when its encoder had ended. -/
def ClosedInTime (s : Camera α) : Input α → Prop
  | .shutdown _ => s.recording = true → s.late = false
  | _ => True

/-- The count and the encoder of the session against the frames it has received. -/
structure Counted (s : Camera α) : Prop where
  none : s.recording = true → s.ffmpegProcess = none → s.late = false
  calibrating : s.recording = true → s.calibrating = true →
    s.frameCount = 0 ∧ s.received = s.calibBuf
  some : ∀ proc ∈ s.ffmpegProcess, s.frameCount = s.received.length ∧
    (s.late = false → proc.written = s.received) ∧
      (s.late = true → proc.running = false ∧ proc.written.length < s.received.length)
  closing : ∀ c ∈ s.closing, c.frameCount = c.proc.written.length ∧ c.proc.written = c.received

variable {s : Camera α}

theorem Counted.init : (Camera.init : Camera α).Counted :=
  ⟨nofun, nofun, nofun, fun _ hc => absurd hc List.not_mem_nil⟩

theorem Counted.of_none (hproc : s.ffmpegProcess = .none) (hidle : s.recording = false)
    (hclosing : ∀ c ∈ s.closing, c.frameCount = c.proc.written.length ∧
      c.proc.written = c.received) : s.Counted := by
  refine ⟨fun hrec => ?_, fun hrec => ?_, fun proc hmem => ?_, hclosing⟩
  · exact absurd (hidle.symm.trans hrec) nofun
  · exact absurd (hidle.symm.trans hrec) nofun
  · rw [hproc] at hmem
    exact absurd hmem nofun

theorem Counted.frame (h : s.Counted) (hs : s.Consistent) (jpegData : α) (now : ℤ)
    (launch : Launch) : (s.onFrameReceived jpegData now launch).1.Counted := by
  have hstep := frameStep hs jpegData now launch
  generalize (s.onFrameReceived jpegData now launch).1 = s' at hstep ⊢
  cases hstep with
  | dropped => exact h
  | requested => exact ⟨h.none, h.calibrating, h.some, h.closing⟩
  | buffered hrec hcal =>
    have hnone := hs.calibrating hcal
    obtain ⟨hcount, hbuf⟩ := h.calibrating hrec hcal
    refine ⟨h.none, fun _ _ => ⟨hcount, by rw [hbuf]⟩, fun proc hmem => ?_, h.closing⟩
    rw [hnone] at hmem
    exact absurd hmem nofun
  | launched hrec hcal =>
    have hlate := h.none hrec (hs.calibrating hcal)
    obtain ⟨hcount, hbuf⟩ := h.calibrating hrec hcal
    refine ⟨fun _ => nofun, fun _ => nofun, fun proc hmem => ?_, h.closing⟩
    cases hmem
    refine ⟨?_, fun _ => by rw [hbuf], fun htrue => absurd (hlate.symm.trans htrue) nofun⟩
    rw [hcount, hbuf, Nat.zero_add, List.length_append, List.length_singleton]
  | unlaunched hrec hcal =>
    have hnone := hs.calibrating hcal
    refine ⟨h.none, fun _ => nofun, fun proc hmem => ?_, h.closing⟩
    rw [hnone] at hmem
    exact absurd hmem nofun
  | encoded hrec hcal roll =>
    refine ⟨fun _ hnone => ?_, fun _ htrue => absurd (hcal.symm.trans htrue) nofun,
      fun proc hmem => ?_, h.closing⟩
    · have hproc := Option.map_eq_none_iff.mp hnone
      simp [hproc, h.none hrec hproc]
    · obtain ⟨e, he, rfl⟩ := Option.mem_map.mp hmem
      obtain ⟨hcount, htimely, hlate⟩ := h.some e he
      rw [Option.mem_def] at he
      refine ⟨?_, fun hfalse => ?_, fun htrue => ?_⟩
      · rw [hcount, List.length_append, List.length_singleton]
      · simp only [he, Option.any_some, Bool.or_eq_false_iff, Bool.not_eq_false'] at hfalse
        rw [Encoder.write, if_pos hfalse.2, htimely hfalse.1]
      · simp only [he, Option.any_some, Bool.or_eq_true, Bool.not_eq_true'] at htrue
        have hended : e.running = false := htrue.elim (fun hl => (hlate hl).1) id
        have hle : e.written.length ≤ s.received.length := by
          cases hl : s.late with
          | false => rw [htimely hl]
          | true => exact (hlate hl).2.le
        rw [Encoder.write, if_neg (by simp [hended]), List.length_append]
        exact ⟨hended, Nat.lt_succ_of_le hle⟩

theorem Counted.start (h : s.Counted) (now : ℤ) (found : Bool) :
    (s.startRecording now found).1.Counted := by
  have hstep := startStep s now found
  generalize (s.startRecording now found).1 = s' at hstep ⊢
  cases hstep with
  | refused => exact h
  | notFound => exact ⟨h.none, h.calibrating, h.some, h.closing⟩
  | started => exact ⟨fun _ _ => rfl, fun _ _ => ⟨rfl, rfl⟩, nofun, h.closing⟩

/-- A session that is closed while its encoder runs has written all its frames. -/
theorem Counted.closeSession (h : s.Counted) : s.closeSession.1.Counted := by
  refine .of_none rfl rfl fun c hc => ?_
  rcases List.mem_append.mp hc with hold | hnew
  · exact h.closing c hold
  · cases hproc : s.ffmpegProcess with
    | none => simp [hproc] at hnew
    | some proc =>
      obtain ⟨hcount, htimely, hlate⟩ := h.some proc hproc
      simp only [hproc] at hnew
      split_ifs at hnew with hrunning
      · have hfalse : s.late = false := by
          rw [← Bool.not_eq_true]
          exact fun htrue => absurd (hrunning.symm.trans (hlate htrue).1) nofun
        cases List.mem_singleton.mp hnew
        exact ⟨by rw [htimely hfalse, hcount], htimely hfalse⟩
      · cases hnew

theorem Counted.step (h : s.Counted) (hs : s.Consistent) (x : Input α) : (s.step x).1.Counted := by
  cases x with
  | frame jpegData now launch => exact h.frame hs jpegData now launch
  | start now found => exact h.start now found
  | stop =>
    simp only [Camera.step, stopRecording]
    split_ifs with hrec hcal
    · exact .of_none (hs.calibrating hcal) rfl h.closing
    · have hstop : ({ s with manualStop := true } : Camera α).Counted :=
        ⟨h.none, h.calibrating, h.some, h.closing⟩
      exact hstop.closeSession
    · exact h
  | queued now found =>
    have hstep := queuedStep s now found
    have h' (queue : List Call) : ({ s with queue } : Camera α).Counted :=
      ⟨h.none, h.calibrating, h.some, h.closing⟩
    show (s.runQueued now found).1.Counted
    generalize s.runQueued now found = result at hstep ⊢
    cases hstep with
    | nothing => exact h
    | autoStart queue =>
      have hstart := (h' queue).start now found
      exact ⟨hstart.none, hstart.calibrating, hstart.some, hstart.closing⟩
    | rolled queue => exact (h' queue).closeSession
    | ended queue => exact h' queue
  | encoderEnds =>
    refine ⟨fun hrec hnone => h.none hrec (Option.map_eq_none_iff.mp hnone), h.calibrating,
      fun proc hmem => ?_, h.closing⟩
    obtain ⟨e, he, rfl⟩ := Option.mem_map.mp hmem
    obtain ⟨hcount, htimely, hlate⟩ := h.some e he
    exact ⟨hcount, htimely, fun htrue => ⟨rfl, (hlate htrue).2⟩⟩
  | finished i now =>
    simp only [Camera.step, finished]
    split
    · exact h
    · exact ⟨h.none, h.calibrating, h.some, fun c hc => h.closing c (List.mem_of_mem_eraseIdx hc)⟩
  | shutdown now =>
    simp only [Camera.step, shutdown]
    split_ifs with hrec hcal
    · exact .of_none (hs.calibrating hcal) rfl h.closing
    · exact .of_none rfl rfl h.closing
    · exact h

theorem Counted.run (xs : List (Input α)) : (recorder.run Camera.init xs).Counted :=
  recorder.invariant_run_of (I := Counted) (J := Consistent) (fun _ x hs => hs.step x)
    (fun _ x hs h => h.step hs x) .init .init xs

theorem faithfulFiles_nil : FaithfulFiles ([] : List (Effect α)) :=
  fun _ hm => absurd hm List.not_mem_nil

theorem faithfulFiles_launch (fps : ℚ) (launch : Launch) :
    FaithfulFiles (s.launchFfmpeg fps launch).2 := by
  intro m hm
  cases launch <;> simp [launchFfmpeg] at hm

theorem faithfulFiles_calibrate (jpegData : α) (now : ℤ) (launch : Launch) :
    FaithfulFiles (s.calibrate jpegData now launch).2 := by
  simp only [calibrate]
  by_cases hfull : calibrationSkip + calibrationFrames ≤ (s.calibBuf ++ [jpegData]).length
  · rw [if_pos hfull]
    intro m hm
    rcases List.mem_append.mp hm with hlaunch | hthumb
    · exact faithfulFiles_launch _ _ m hlaunch
    · simp at hthumb
  · rw [if_neg hfull]
    exact faithfulFiles_nil

theorem faithfulFiles_encode (jpegData : α) (now : ℤ) :
    FaithfulFiles (s.encode jpegData now).2 := by
  intro m hm
  simp only [encode] at hm
  split at hm <;> simp at hm

theorem faithfulFiles_frame (jpegData : α) (now : ℤ) (launch : Launch) :
    FaithfulFiles (s.onFrameReceived jpegData now launch).2 := by
  simp only [onFrameReceived]
  split
  · split
    · exact faithfulFiles_calibrate jpegData now launch
    · exact faithfulFiles_encode jpegData now
  · split <;> exact faithfulFiles_nil

theorem faithfulFiles_start (now : ℤ) (found : Bool) :
    FaithfulFiles (s.startRecording now found).2 := by
  intro m hm
  unfold startRecording at hm
  split_ifs at hm <;> simp at hm

theorem faithfulFiles_closeSession : FaithfulFiles s.closeSession.2 := by
  intro m hm
  simp [closeSession] at hm

theorem Counted.faithfulFiles_finished (h : s.Counted) (i : ℕ) (now : ℤ) :
    FaithfulFiles (s.finished i now).2 := by
  intro m hm
  unfold finished at hm
  split at hm
  · simp at hm
  · rename_i c hc
    cases List.mem_singleton.mp hm
    obtain ⟨hcount, hwritten⟩ := h.closing c (List.mem_of_getElem? hc)
    exact ⟨hcount, hwritten⟩

theorem Counted.faithfulFiles_shutdown (h : s.Counted) (hs : s.Consistent) (now : ℤ) :
    FaithfulFiles (s.shutdown now).2 ↔ (s.recording = true → s.late = false) := by
  unfold shutdown
  split_ifs with hrec hcal
  · refine iff_of_true (fun m hm => ?_) fun _ => h.none hrec (hs.calibrating hcal)
    simp at hm
  · cases hproc : s.ffmpegProcess with
    | none =>
      refine iff_of_true (fun m hm => ?_) fun _ => h.none hrec hproc
      simp at hm
    | some proc =>
      obtain ⟨hcount, htimely, hlate⟩ := h.some proc hproc
      simp only [FaithfulFiles, List.mem_singleton, Effect.metaFile.injEq, forall_eq]
      refine ⟨fun hm _ => ?_, fun hfalse => ⟨?_, htimely (hfalse hrec)⟩⟩
      · by_contra htrue
        rw [Bool.not_eq_false] at htrue
        exact (hlate htrue).2.ne (congrArg List.length hm.written)
      · rw [htimely (hfalse hrec)]
        exact hcount
  · refine iff_of_true (fun m hm => ?_) fun htrue => absurd htrue hrec
    simp at hm

/-- The files that a step writes are right, except those of a shutdown that comes too late. -/
theorem Counted.faithfulFiles_iff (h : s.Counted) (hs : s.Consistent) (x : Input α) :
    FaithfulFiles (s.step x).2 ↔ s.ClosedInTime x := by
  cases x with
  | frame jpegData now launch => exact iff_of_true (faithfulFiles_frame jpegData now launch) trivial
  | start now found => exact iff_of_true (faithfulFiles_start now found) trivial
  | stop =>
    refine iff_of_true ?_ trivial
    simp only [Camera.step, stopRecording]
    split_ifs
    · intro m hm
      simp at hm
    · exact faithfulFiles_closeSession
    · exact faithfulFiles_nil
  | queued now found =>
    refine iff_of_true ?_ trivial
    have hstep := queuedStep s now found
    show FaithfulFiles (s.runQueued now found).2
    generalize s.runQueued now found = result at hstep ⊢
    cases hstep with
    | nothing => exact faithfulFiles_nil
    | autoStart => exact faithfulFiles_start now found
    | rolled => exact faithfulFiles_closeSession
    | ended => exact faithfulFiles_nil
  | encoderEnds => exact iff_of_true faithfulFiles_nil trivial
  | finished i now => exact iff_of_true (h.faithfulFiles_finished i now) trivial
  | shutdown now => exact h.faithfulFiles_shutdown hs now

end Camera

open Camera

/-- Every `meta.json` of a run is right if and only if `shutdownAll` finds no session of which a
frame came when its encoder had ended. -/
theorem frame_counts_iff (xs : List (Input α)) :
    (∀ effects ∈ recorder.trace init xs, FaithfulFiles effects) ↔
      recorder.Along ClosedInTime init xs :=
  Machine.forall_trace_iff_along (I := fun s => s.Counted ∧ s.Consistent)
    (fun _ x h => ⟨⟨h.1.step h.2 x, h.2.step x⟩, h.1.faithfulFiles_iff h.2 x⟩) ⟨.init, .init⟩

/-- An encoder that ends after the calibration, and a frame after that. -/
def endedEarly : List (Input ℕ) :=
  .start 0 true :: (List.range 65).map (fun frame => .frame frame 40 .started) ++
    [.encoderEnds, .frame 65 80 .started]

/-- The shutdown counts 66 frames where 65 were written. -/
theorem endedEarly_miscounted : ¬∀ xs : List (Input ℕ), ∀ effects ∈ recorder.trace init xs,
    FaithfulFiles effects := by
  intro h
  have hfiles : FaithfulFiles ((recorder.run init endedEarly).shutdown 100).2 := by
    refine h (endedEarly ++ [.shutdown 100]) _ ?_
    rw [Machine.trace_concat]
    exact List.mem_concat_self
  have hrec : (recorder.run init endedEarly).recording = true := by decide +kernel
  have hlate : (recorder.run init endedEarly).late = true := by decide +kernel
  have hfalse := ((Counted.run endedEarly).faithfulFiles_shutdown (.run endedEarly) 100).mp
    hfiles hrec
  exact Bool.false_ne_true (hfalse.symm.trans hlate)

end JeogiAt.Client.Recording
