import JeogiAt.Library.Machine

/-!
# The camera's inference thread

The camera program sends every frame to the video stream and hands some to a second thread, which
detects people in them. Between the two stand one frame `g_infer_frame`, a flag that says whether it
is new, and a lock. Each access to one of them is a step of its own here.

The frames that are handed over are taken once each and in order, none before it is complete, and
none is overwritten (`handoff_law`). The flag alone keeps the two threads off the frame at one time.
-/

open scoped List

namespace JeogiAt.EdgeCamera

abbrev inferInterval : UInt32 := 5

inductive Side
  | camera
  | infer
  deriving DecidableEq

/-- Where `main` is with a frame: at the test, at the lock, with the lock held before each of the
two stores and before its release, and before the frame is written. -/
inductive CameraPc (α : Type*)
  | capturing
  | testing (frame : α)
  | locking (frame : α)
  | storing (frame : α)
  | setting (frame : α)
  | unlocking (frame : α)
  | writing (frame : α)
  | stopping
  | joining
  | returned

/-- Where `infer_thread_func` is: at its loop, at the flag, at the lock, with the lock held before
the copy, the store and the release, and with a frame in its hands. -/
inductive InferPc (α : Type*)
  | looping
  | polling
  | locking
  | cloning
  | clearing (frame : α)
  | unlocking (frame : α)
  | inferring (frame : α)
  | returned

/-- The variables, and the history of both threads: the frames that the pipeline gave and those
written to the stream, handed over, and taken, and the messages published. -/
structure Handoff (α β : Type*) where
  frame_idx : UInt32
  g_infer_frame : α
  g_new_frame : Bool
  g_running : Bool
  owner : Option Side
  camera : CameraPc α
  infer : InferPc α
  frames : List α
  written : List α
  handed : List α
  taken : List α
  published : List β

inductive HandoffStep (α : Type*)
  | camera (frame : Option α)
  | infer

namespace CameraPc

variable {α : Type*}

def frame : CameraPc α → List α
  | testing f | locking f | storing f | setting f | unlocking f | writing f => [f]
  | _ => []

def passed : CameraPc α → List α
  | setting f | unlocking f | writing f => [f]
  | _ => []

def entering : CameraPc α → Bool
  | locking _ | storing _ | setting _ => true
  | _ => false

def stored : CameraPc α → Bool
  | setting _ => true
  | _ => false

def holds : CameraPc α → Bool
  | storing _ | setting _ | unlocking _ => true
  | _ => false

end CameraPc

namespace InferPc

variable {α : Type*}

def frame : InferPc α → List α
  | clearing f | unlocking f | inferring f => [f]
  | _ => []

def taking : InferPc α → Bool
  | locking | cloning | clearing _ => true
  | _ => false

def cloned : InferPc α → Bool
  | clearing _ => true
  | _ => false

def holds : InferPc α → Bool
  | cloning | clearing _ | unlocking _ => true
  | _ => false

end InferPc

namespace Handoff

variable {α β : Type*}

def init (empty : α) : Handoff α β where
  frame_idx := 0
  g_infer_frame := empty
  g_new_frame := false
  g_running := true
  owner := none
  camera := .capturing
  infer := .looping
  frames := []
  written := []
  handed := []
  taken := []
  published := []

/-- A step of `main`. The pipeline gives a frame, corrected already, or its end. -/
def cameraStep (captured : Option α) (s : Handoff α β) : Handoff α β :=
  match s.camera with
  | .capturing =>
      match captured with
      | none => { s with camera := .stopping }
      | some frame => { s with camera := .testing frame, frames := s.frames ++ [frame] }
  | .testing frame =>
      if s.frame_idx % inferInterval = 0 ∧ s.g_new_frame = false then
        { s with camera := .locking frame }
      else { s with camera := .writing frame }
  | .locking frame =>
      if s.owner = none then { s with owner := some .camera, camera := .storing frame } else s
  | .storing frame =>
      { s with g_infer_frame := frame, camera := .setting frame, handed := s.handed ++ [frame] }
  | .setting frame => { s with g_new_frame := true, camera := .unlocking frame }
  | .unlocking frame => { s with owner := none, camera := .writing frame }
  | .writing frame =>
      { s with
        frame_idx := s.frame_idx + 1
        camera := .capturing
        written := s.written ++ [frame] }
  | .stopping => { s with g_running := false, camera := .joining }
  | .joining => match s.infer with | .returned => { s with camera := .returned } | _ => s
  | .returned => s

/-- A step of `infer_thread_func`. `detect` is the network and the message made of its boxes. -/
def inferStep (detect : α → β) (s : Handoff α β) : Handoff α β :=
  match s.infer with
  | .looping => { s with infer := if s.g_running then .polling else .returned }
  | .polling => { s with infer := if s.g_new_frame then .locking else .looping }
  | .locking => if s.owner = none then { s with owner := some .infer, infer := .cloning } else s
  | .cloning =>
      { s with infer := .clearing s.g_infer_frame, taken := s.taken ++ [s.g_infer_frame] }
  | .clearing frame => { s with g_new_frame := false, infer := .unlocking frame }
  | .unlocking frame => { s with owner := none, infer := .inferring frame }
  | .inferring frame => { s with infer := .looping, published := s.published ++ [detect frame] }
  | .returned => s

end Handoff

def handoff {α β : Type*} (detect : α → β) : Machine (Handoff α β) (HandoffStep α) Unit where
  step s
    | .camera frame => (s.cameraStep frame, ())
    | .infer => (s.inferStep detect, ())

/-- Every fifth frame, by the counter of 32 bits. -/
def due {α : Type*} (frames : List α) : List α :=
  (frames.zipIdx.filter fun p => UInt32.ofNat p.2 % inferInterval = 0).map Prod.fst

theorem due_concat {α : Type*} (frames : List α) (frame : α) :
    due (frames ++ [frame]) =
      due frames ++ if UInt32.ofNat frames.length % inferInterval = 0 then [frame] else [] := by
  rw [due, List.zipIdx_append, List.filter_append, List.map_append, due]
  congr 1
  simp only [List.zipIdx_singleton, List.filter_singleton, Nat.zero_add]
  split_ifs <;> simp_all

namespace Handoff

variable {α β : Type*} {detect : α → β} {s : Handoff α β}

/-- Every frame is written in its turn, and those handed over are among the fifth ones. -/
structure CameraLaw (s : Handoff α β) : Prop where
  frames : s.written ++ s.camera.frame = s.frames
  index : s.frame_idx = UInt32.ofNat s.written.length
  handed : s.handed <+ due (s.written ++ s.camera.passed)
  fifth : s.camera.entering = true → s.frame_idx % inferInterval = 0

def InferLaw (detect : α → β) (s : Handoff α β) : Prop :=
  s.published ++ s.infer.frame.map detect = s.taken.map detect

theorem due_sublist (frames : List α) (frame : α) : due frames <+ due (frames ++ [frame]) := by
  rw [due_concat]
  exact List.sublist_append_left _ _

theorem cameraLaw_infer (h : s.CameraLaw) : (s.inferStep detect).CameraLaw := by
  unfold inferStep
  cases s.infer with
  | locking =>
    dsimp only
    split_ifs
    · exact ⟨h.frames, h.index, h.handed, h.fifth⟩
    · exact h
  | returned => exact h
  | _ => exact ⟨h.frames, h.index, h.handed, h.fifth⟩

theorem inferLaw_camera (h : s.InferLaw detect) (captured : Option α) :
    (s.cameraStep captured).InferLaw detect := by
  unfold cameraStep
  cases s.camera with
  | capturing => cases captured <;> exact h
  | testing frame =>
    dsimp only
    split_ifs <;> exact h
  | locking frame =>
    dsimp only
    split_ifs <;> exact h
  | joining =>
    dsimp only
    split <;> exact h
  | _ => exact h

theorem inferLaw_infer (h : s.InferLaw detect) : (s.inferStep detect).InferLaw detect := by
  unfold inferStep
  unfold InferLaw at h ⊢
  cases hpc : s.infer with
  | looping =>
    rw [hpc] at h
    dsimp only
    split_ifs <;> exact h
  | polling =>
    rw [hpc] at h
    dsimp only
    split_ifs <;> exact h
  | locking =>
    dsimp only
    split_ifs
    · rw [hpc] at h
      exact h
    · exact h
  | cloning =>
    rw [hpc] at h
    have hall : s.published = s.taken.map detect := (List.append_nil _).symm.trans h
    rw [List.map_append, ← hall]
    rfl
  | clearing frame | unlocking frame =>
    rw [hpc] at h
    exact h
  | inferring frame =>
    rw [hpc] at h
    rw [← h]
    exact List.append_nil _
  | returned => exact h

theorem cameraLaw_camera (h : s.CameraLaw) (captured : Option α) :
    (s.cameraStep captured).CameraLaw := by
  obtain ⟨hframes, hindex, hhanded, hfifth⟩ := h
  unfold cameraStep
  cases hpc : s.camera with
  | capturing =>
    rw [hpc] at hframes hhanded
    have hall : s.written = s.frames := (List.append_nil _).symm.trans hframes
    cases captured with
    | none => exact ⟨hframes, hindex, hhanded, nofun⟩
    | some frame => exact ⟨by rw [hall]; rfl, hindex, hhanded, nofun⟩
  | testing frame =>
    rw [hpc] at hframes hhanded
    have hold : s.handed <+ due s.written := (List.append_nil s.written) ▸ hhanded
    dsimp only
    split_ifs with htest
    · exact ⟨hframes, hindex, hhanded, fun _ => htest.1⟩
    · exact ⟨hframes, hindex, hold.trans (due_sublist _ _), nofun⟩
  | locking frame =>
    dsimp only
    split_ifs
    · rw [hpc] at hframes hhanded hfifth
      exact ⟨hframes, hindex, hhanded, hfifth⟩
    · exact ⟨hframes, hindex, hhanded, hfifth⟩
  | storing frame =>
    rw [hpc] at hframes hhanded hfifth
    have hold : s.handed <+ due s.written := (List.append_nil s.written) ▸ hhanded
    have hdue : due (s.written ++ [frame]) = due s.written ++ [frame] := by
      rw [due_concat, ← hindex, if_pos (hfifth rfl)]
    refine ⟨hframes, hindex, ?_, hfifth⟩
    change s.handed ++ [frame] <+ due (s.written ++ [frame])
    rw [hdue]
    exact hold.append_right [frame]
  | setting frame | unlocking frame =>
    rw [hpc] at hframes hhanded
    exact ⟨hframes, hindex, hhanded, nofun⟩
  | writing frame =>
    rw [hpc] at hframes hhanded
    refine ⟨(List.append_nil _).trans hframes, ?_, ?_, nofun⟩
    · rw [hindex, List.length_append, List.length_singleton, UInt32.ofNat_add]
      rfl
    · exact (List.append_nil (s.written ++ [frame])).symm ▸ hhanded
  | stopping =>
    rw [hpc] at hframes hhanded
    exact ⟨hframes, hindex, hhanded, nofun⟩
  | joining =>
    dsimp only
    split
    · rw [hpc] at hframes hhanded
      exact ⟨hframes, hindex, hhanded, nofun⟩
    · exact ⟨hframes, hindex, hhanded, hfifth⟩
  | returned => exact ⟨hframes, hindex, hhanded, hfifth⟩

/-- Past its test of the flag a thread finds the flag as it was, and the lock is with the thread
that took it. -/
structure Exclusive (s : Handoff α β) : Prop where
  entering : s.camera.entering = true → s.g_new_frame = false
  taking : s.infer.taking = true → s.g_new_frame = true
  camera : s.owner = some .camera ↔ s.camera.holds = true
  infer : s.owner = some .infer ↔ s.infer.holds = true

def waits (s : Handoff α β) : Bool := s.camera.stored || (s.g_new_frame && !s.infer.cloned)

def pending (s : Handoff α β) : List α := if s.waits then [s.g_infer_frame] else []

theorem exclusive_camera (h : s.Exclusive) (captured : Option α) :
    (s.cameraStep captured).Exclusive := by
  obtain ⟨hentering, htaking, hcamera, hinfer⟩ := h
  unfold cameraStep
  cases hpc : s.camera with
  | capturing =>
    rw [hpc] at hcamera
    cases captured <;> exact ⟨nofun, htaking, hcamera, hinfer⟩
  | testing frame =>
    rw [hpc] at hcamera
    dsimp only
    split_ifs with htest
    · exact ⟨fun _ => htest.2, htaking, hcamera, hinfer⟩
    · exact ⟨nofun, htaking, hcamera, hinfer⟩
  | locking frame =>
    dsimp only
    split_ifs with hfree
    · rw [hpc] at hentering
      rw [hfree] at hinfer
      have hnot : ¬ s.infer.holds = true := fun hh => by cases hinfer.mpr hh
      exact ⟨hentering, htaking, iff_of_true rfl rfl, iff_of_false nofun hnot⟩
    · exact ⟨hentering, htaking, hcamera, hinfer⟩
  | storing frame =>
    rw [hpc] at hentering hcamera
    exact ⟨hentering, htaking, hcamera, hinfer⟩
  | setting frame =>
    rw [hpc] at hcamera
    exact ⟨nofun, fun _ => rfl, hcamera, hinfer⟩
  | unlocking frame =>
    rw [hpc] at hcamera
    rw [hcamera.mpr rfl] at hinfer
    have hnot : ¬ s.infer.holds = true := fun hh => by cases hinfer.mpr hh
    exact ⟨nofun, htaking, iff_of_false nofun nofun, iff_of_false nofun hnot⟩
  | writing frame | stopping =>
    rw [hpc] at hcamera
    exact ⟨nofun, htaking, hcamera, hinfer⟩
  | joining =>
    dsimp only
    split
    · rw [hpc] at hcamera
      exact ⟨nofun, htaking, hcamera, hinfer⟩
    · exact ⟨hentering, htaking, hcamera, hinfer⟩
  | returned => exact ⟨hentering, htaking, hcamera, hinfer⟩

theorem exclusive_infer (h : s.Exclusive) : (s.inferStep detect).Exclusive := by
  obtain ⟨hentering, htaking, hcamera, hinfer⟩ := h
  unfold inferStep
  cases hpc : s.infer with
  | looping =>
    rw [hpc] at hinfer
    dsimp only
    split_ifs <;> exact ⟨hentering, nofun, hcamera, hinfer⟩
  | polling =>
    rw [hpc] at hinfer
    dsimp only
    split_ifs with hnew
    · exact ⟨hentering, fun _ => hnew, hcamera, hinfer⟩
    · exact ⟨hentering, nofun, hcamera, hinfer⟩
  | locking =>
    dsimp only
    split_ifs with hfree
    · rw [hpc] at htaking
      rw [hfree] at hcamera
      have hnot : ¬ s.camera.holds = true := fun hh => by cases hcamera.mpr hh
      exact ⟨hentering, htaking, iff_of_false nofun hnot, iff_of_true rfl rfl⟩
    · exact ⟨hentering, htaking, hcamera, hinfer⟩
  | cloning =>
    rw [hpc] at htaking hinfer
    exact ⟨hentering, htaking, hcamera, hinfer⟩
  | clearing frame =>
    rw [hpc] at hinfer
    exact ⟨fun _ => rfl, nofun, hcamera, hinfer⟩
  | unlocking frame =>
    rw [hpc] at hinfer
    rw [hinfer.mpr rfl] at hcamera
    have hnot : ¬ s.camera.holds = true := fun hh => by cases hcamera.mpr hh
    exact ⟨hentering, nofun, iff_of_false nofun hnot, iff_of_false nofun nofun⟩
  | inferring frame =>
    rw [hpc] at hinfer
    exact ⟨hentering, nofun, hcamera, hinfer⟩
  | returned => exact ⟨hentering, htaking, hcamera, hinfer⟩

/-- Every frame handed over has been taken or stands in `g_infer_frame`. -/
def SlotLaw (s : Handoff α β) : Prop := s.handed = s.taken ++ s.pending

theorem SlotLaw.frame {s' : Handoff α β} (h : s.SlotLaw) (hhanded : s'.handed = s.handed)
    (htaken : s'.taken = s.taken) (hslot : s'.g_infer_frame = s.g_infer_frame)
    (hwaits : s'.waits = s.waits) : s'.SlotLaw := by
  rw [SlotLaw, pending, hhanded, htaken, hslot, hwaits]
  exact h

theorem slotLaw_camera (hx : s.Exclusive) (h : s.SlotLaw) (captured : Option α) :
    (s.cameraStep captured).SlotLaw := by
  unfold cameraStep
  cases hpc : s.camera with
  | capturing => cases captured <;> exact h.frame rfl rfl rfl (by rw [waits, waits, hpc]; rfl)
  | testing frame =>
    dsimp only
    split_ifs <;> exact h.frame rfl rfl rfl (by rw [waits, waits, hpc]; rfl)
  | locking frame =>
    dsimp only
    split_ifs
    · exact h.frame rfl rfl rfl (by rw [waits, waits, hpc]; rfl)
    · exact h
  | storing frame =>
    -- the flag is off, so what was handed over before has been taken
    have hoff : s.g_new_frame = false := hx.entering (by rw [hpc]; rfl)
    have hnone : s.pending = [] := by
      rw [pending, waits, hpc, hoff]
      rfl
    rw [SlotLaw, hnone, List.append_nil] at h
    rw [SlotLaw, h]
    rfl
  | setting frame =>
    have hoff : s.g_new_frame = false := hx.entering (by rw [hpc]; rfl)
    have hcloned : s.infer.cloned = false := by
      cases hin : s.infer with
      | clearing frame => cases hoff.symm.trans (hx.taking (by rw [hin]; rfl))
      | _ => rfl
    exact h.frame rfl rfl rfl (by rw [waits, waits, hpc, hcloned]; rfl)
  | unlocking frame | writing frame | stopping =>
    exact h.frame rfl rfl rfl (by rw [waits, waits, hpc]; rfl)
  | joining =>
    dsimp only
    split
    · exact h.frame rfl rfl rfl (by rw [waits, waits, hpc]; rfl)
    · exact h
  | returned => exact h

theorem slotLaw_infer (hx : s.Exclusive) (h : s.SlotLaw) : (s.inferStep detect).SlotLaw := by
  have hstored : s.g_new_frame = true → s.camera.stored = false := by
    intro hon
    cases hcam : s.camera with
    | setting frame => cases (hx.entering (by rw [hcam]; rfl)).symm.trans hon
    | _ => rfl
  unfold inferStep
  cases hpc : s.infer with
  | looping =>
    dsimp only
    split_ifs <;> exact h.frame rfl rfl rfl (by rw [waits, waits, hpc]; rfl)
  | polling =>
    dsimp only
    split_ifs <;> exact h.frame rfl rfl rfl (by rw [waits, waits, hpc]; rfl)
  | locking =>
    dsimp only
    split_ifs
    · exact h.frame rfl rfl rfl (by rw [waits, waits, hpc]; rfl)
    · exact h
  | cloning =>
    have hon := hx.taking (by rw [hpc]; rfl)
    have hone : s.pending = [s.g_infer_frame] := by
      rw [pending, waits, hpc, hon, hstored hon]
      rfl
    rw [SlotLaw, hone] at h
    rw [SlotLaw, pending, waits]
    change s.handed = s.taken ++ [s.g_infer_frame] ++
      if s.camera.stored || (s.g_new_frame && false) then [s.g_infer_frame] else []
    rw [h, hstored hon, Bool.and_false]
    exact (List.append_nil _).symm
  | clearing frame =>
    have hon := hx.taking (by rw [hpc]; rfl)
    exact h.frame rfl rfl rfl (by rw [waits, waits, hpc, hstored hon, hon]; rfl)
  | unlocking frame | inferring frame =>
    exact h.frame rfl rfl rfl (by rw [waits, waits, hpc]; rfl)
  | returned => exact h

structure Kept (detect : α → β) (s : Handoff α β) : Prop where
  camera : s.CameraLaw
  infer : s.InferLaw detect
  exclusive : s.Exclusive
  slot : s.SlotLaw

theorem kept_next (h : s.Kept detect) (step : HandoffStep α) :
    ((handoff detect).next s step).Kept detect := by
  cases step with
  | camera captured =>
    exact ⟨cameraLaw_camera h.camera captured, inferLaw_camera h.infer captured,
      exclusive_camera h.exclusive captured, slotLaw_camera h.exclusive h.slot captured⟩
  | infer =>
    exact ⟨cameraLaw_infer h.camera, inferLaw_infer h.infer, exclusive_infer h.exclusive,
      slotLaw_infer h.exclusive h.slot⟩

theorem kept_init (detect : α → β) (empty : α) : (init empty).Kept detect where
  camera := ⟨rfl, rfl, List.Sublist.refl _, nofun⟩
  infer := rfl
  exclusive := ⟨nofun, nofun, iff_of_false nofun nofun, iff_of_false nofun nofun⟩
  slot := rfl

theorem kept_run (detect : α → β) (empty : α) (steps : List (HandoffStep α)) :
    ((handoff detect).run (init empty) steps).Kept detect :=
  Machine.invariant_run (I := Kept detect) (fun _ step h => kept_next h step)
    (kept_init detect empty) steps

theorem CameraLaw.handed_due (h : s.CameraLaw) : s.handed <+ due s.frames := by
  have hhanded := h.handed
  rw [← h.frames]
  cases hpc : s.camera with
  | testing frame | locking frame | storing frame =>
    rw [hpc] at hhanded
    have hold : s.handed <+ due s.written := (List.append_nil s.written) ▸ hhanded
    exact hold.trans (due_sublist _ _)
  | _ =>
    rw [hpc] at hhanded
    exact hhanded

theorem camera_stuck (h : s.cameraStep none = s) :
    (∃ frame, s.camera = .locking frame ∧ s.owner ≠ none) ∨
      (s.camera = .joining ∧ s.infer ≠ .returned) ∨ s.camera = .returned := by
  have hcam : (s.cameraStep none).camera = s.camera := congrArg camera h
  unfold cameraStep at hcam
  cases hpc : s.camera with
  | locking frame =>
    refine .inl ⟨frame, rfl, fun hfree => ?_⟩
    simp [hpc, hfree] at hcam
  | joining =>
    refine .inr (.inl ⟨rfl, fun hret => ?_⟩)
    simp [hpc, hret] at hcam
  | returned => exact .inr (.inr rfl)
  | testing frame =>
    simp only [hpc] at hcam
    split_ifs at hcam
  | _ => simp [hpc] at hcam

theorem infer_stuck (h : s.inferStep detect = s) :
    (s.infer = .locking ∧ s.owner ≠ none) ∨ s.infer = .returned := by
  have hinf : (s.inferStep detect).infer = s.infer := congrArg infer h
  unfold inferStep at hinf
  cases hpc : s.infer with
  | locking =>
    refine .inl ⟨rfl, fun hfree => ?_⟩
    simp [hpc, hfree] at hinf
  | returned => exact .inr rfl
  | looping | polling =>
    simp only [hpc] at hinf
    split_ifs at hinf
  | _ => simp [hpc] at hinf

/-- A thread that waits for the lock waits for the other one, which has it and can go on. -/
theorem Exclusive.returned (h : s.Exclusive) (hcamera : s.cameraStep none = s)
    (hinfer : s.inferStep detect = s) : s.camera = .returned ∧ s.infer = .returned := by
  have hcam := camera_stuck hcamera
  have hcamHolds : s.camera.holds = false := by
    rcases hcam with ⟨frame, hpc, -⟩ | ⟨hpc, -⟩ | hpc <;> rw [hpc] <;> rfl
  have hinfHolds : s.infer.holds = false := by
    rcases infer_stuck hinfer with ⟨hpc, -⟩ | hpc <;> rw [hpc] <;> rfl
  have hfree : s.owner = none := by
    cases howner : s.owner with
    | none => rfl
    | some side =>
      cases side with
      | camera => cases hcamHolds.symm.trans (h.camera.mp howner)
      | infer => cases hinfHolds.symm.trans (h.infer.mp howner)
  have hret : s.infer = .returned := (infer_stuck hinfer).resolve_left fun hwait => hwait.2 hfree
  refine ⟨?_, hret⟩
  rcases hcam with ⟨frame, -, hwait⟩ | ⟨-, hwait⟩ | hpc
  · exact absurd hfree hwait
  · exact absurd hret hwait
  · exact hpc

end Handoff

open Handoff

/-- For every schedule of the two threads: the stream gets every frame in order; the frames handed
over are some of the fifth ones; each is taken once, in order, but for the last one, which may still
stand in `g_infer_frame`; what is taken is inferred and published in order; the two threads are
never both past their tests of the flag; and they can go on until both have returned. -/
theorem handoff_law {α β : Type*} (detect : α → β) (empty : α) (steps : List (HandoffStep α)) :
    let s := (handoff detect).run (init empty) steps
    s.written ++ s.camera.frame = s.frames ∧ s.handed <+ due s.frames ∧
      s.handed = s.taken ++ s.pending ∧
      s.published ++ s.infer.frame.map detect = s.taken.map detect ∧
      ¬ (s.camera.entering = true ∧ s.infer.taking = true) ∧
      ((∀ step, (handoff detect).next s step = s) →
        s.camera = .returned ∧ s.infer = .returned) := by
  intro s
  have h : s.Kept detect := kept_run detect empty steps
  refine ⟨h.camera.frames, h.camera.handed_due, h.slot, h.infer, ?_, ?_⟩
  · rintro ⟨hentering, htaking⟩
    cases (h.exclusive.entering hentering).symm.trans (h.exclusive.taking htaking)
  · exact fun hstuck => h.exclusive.returned (hstuck (.camera none)) (hstuck .infer)

end JeogiAt.EdgeCamera
