import JeogiAt.CommandHandler
import JeogiAt.Library.Machine

/-!
# Concurrent `roi_update` commands

Every client has a reader thread of its own, and `handle_qt_command` takes no lock between its
`load` of `config.json` and the end of its `save`, which first truncates the file and then writes
it. A thread's steps are the load, the change of the loaded copy, the truncation, the write, the
read of the file at the start of `CongestionAnalyzer::loadConfig`, the replacement of `m_zones`
under the mutex, and the flag. A save may also be taken as one step.

`saved` lists the updates written so far, and its length is the version of the file. `completed` is
the greatest version whose command has come to its end.
-/

namespace JeogiAt.Server

inductive UpdatePc
  | idle
  | accepted (u : RoiUpdate)
  | loaded (u : RoiUpdate) (config : Json)
  | modified (u : RoiUpdate) (config : Json)
  | truncated (u : RoiUpdate) (config : Json)
  | saved (version : ℕ)
  | reloaded (zones : List ZoneConfig) (ok : Bool) (version : ℕ)
  | installed (version : ℕ)

structure RoiSystem where
  file : Option Json
  m_zones : List ZoneConfig
  g_roi_updated : Bool
  threads : ℕ → UpdatePc
  saved : List RoiUpdate
  completed : ℕ

/-- A line arrives at a thread, or a thread takes its next step. -/
inductive RoiAction
  | command (t : ℕ) (data : Json)
  | step (t : ℕ)

namespace RoiSystem

def init (config : Json) : RoiSystem :=
  ⟨some config, (loadConfig config).1, false, fun _ => .idle, [], 0⟩

def moveTo (s : RoiSystem) (t : ℕ) (pc : UpdatePc) : RoiSystem :=
  { s with threads := Function.update s.threads t pc }

def write (s : RoiSystem) (t : ℕ) (u : RoiUpdate) (config : Json) : RoiSystem :=
  { s with file := some config, saved := s.saved ++ [u] }.moveTo t (.saved (s.saved.length + 1))

/-- The next step of a thread. An exception ends its command. -/
def stepThread (atomicSave : Bool) (s : RoiSystem) (t : ℕ) : RoiSystem :=
  match s.threads t with
  | .idle => s
  | .accepted u => s.moveTo t (.loaded u (load s.file))
  | .loaded u config =>
      match u.updateConfig config with
      | some config => s.moveTo t (.modified u config)
      | none => s.moveTo t .idle
  | .modified u config =>
      if atomicSave then s.write t u config
      else { s with file := none }.moveTo t (.truncated u config)
  | .truncated u config => s.write t u config
  | .saved version =>
      let zones := loadConfig (load s.file)
      s.moveTo t (.reloaded zones.1 zones.2 version)
  | .reloaded zones ok version =>
      { s with m_zones := zones }.moveTo t (if ok then .installed version else .idle)
  | .installed version =>
      { s with g_roi_updated := true, completed := max s.completed version }.moveTo t .idle

def step (atomicSave : Bool) (s : RoiSystem) : RoiAction → RoiSystem
  | .command t data =>
      match s.threads t, roiUpdate data with
      | .idle, some u => s.moveTo t (.accepted u)
      | _, _ => s
  | .step t => s.stepThread atomicSave t

end RoiSystem

def roiSystem (atomicSave : Bool) : Machine RoiSystem RoiAction Unit :=
  ⟨fun s action => (s.step atomicSave action, ())⟩

def RoiAction.thread : RoiAction → ℕ
  | command t _ => t
  | step t => t

namespace UpdatePc

def Updating : UpdatePc → Prop
  | loaded _ _ => True
  | modified _ _ => True
  | truncated _ _ => True
  | _ => False

def Truncated : UpdatePc → Prop
  | truncated _ _ => True
  | _ => False

def Reloading : UpdatePc → Prop
  | saved _ => True
  | reloaded _ _ _ => True
  | _ => False

/-- What a thread in its update has in its hands when the configuration is `current`. -/
def Holds (current : Json) : UpdatePc → Prop
  | loaded _ config => config = current
  | modified u config => u.updateConfig current = some config
  | truncated u config => u.updateConfig current = some config
  | _ => True

theorem Truncated.updating {pc : UpdatePc} (h : pc.Truncated) : pc.Updating := by
  cases pc with
  | truncated u config => trivial
  | _ => exact absurd h id

theorem holds_of_not_updating {pc : UpdatePc} (h : ¬ pc.Updating) (current : Json) :
    pc.Holds current := by
  cases pc with
  | loaded u config => exact absurd trivial h
  | modified u config => exact absurd trivial h
  | truncated u config => exact absurd trivial h
  | _ => trivial

end UpdatePc

namespace RoiSystem

theorem threads_moveTo_of_ne (s : RoiSystem) {t t' : ℕ} (hne : t' ≠ t) (pc : UpdatePc) :
    (s.moveTo t pc).threads t' = s.threads t' := Function.update_of_ne hne ..

/-- What every step is: nothing, or a move of its own thread with other changes to the rest. -/
theorem next_cases (atomicSave : Bool) (s : RoiSystem) (action : RoiAction) :
    (roiSystem atomicSave).next s action = s ∨
      ∃ (s' : RoiSystem) (pc : UpdatePc), (roiSystem atomicSave).next s action =
        s'.moveTo action.thread pc ∧ s'.threads = s.threads ∧ s.completed ≤ s'.completed := by
  cases action with
  | command t data =>
    simp only [Machine.next, roiSystem, step]
    split
    · exact .inr ⟨s, _, rfl, rfl, le_rfl⟩
    · exact .inl rfl
  | step t =>
    simp only [Machine.next, roiSystem, step, stepThread]
    split
    · exact .inl rfl
    · exact .inr ⟨s, _, rfl, rfl, le_rfl⟩
    · split
      · exact .inr ⟨s, _, rfl, rfl, le_rfl⟩
      · exact .inr ⟨s, _, rfl, rfl, le_rfl⟩
    · split
      · exact .inr ⟨_, _, rfl, rfl, le_rfl⟩
      · exact .inr ⟨_, _, rfl, rfl, le_rfl⟩
    · exact .inr ⟨_, _, rfl, rfl, le_rfl⟩
    · exact .inr ⟨s, _, rfl, rfl, le_rfl⟩
    · exact .inr ⟨_, _, rfl, rfl, le_rfl⟩
    · exact .inr ⟨_, _, rfl, rfl, le_max_left _ _⟩

theorem threads_next_of_ne (atomicSave : Bool) (s : RoiSystem) {action : RoiAction} {t : ℕ}
    (hne : t ≠ action.thread) :
    ((roiSystem atomicSave).next s action).threads t = s.threads t := by
  rcases next_cases atomicSave s action with heq | ⟨s', pc, heq, hthreads, -⟩
  · rw [heq]
  · rw [heq, threads_moveTo_of_ne s' hne, hthreads]

theorem completed_le_next (atomicSave : Bool) (s : RoiSystem) (action : RoiAction) :
    s.completed ≤ ((roiSystem atomicSave).next s action).completed := by
  rcases next_cases atomicSave s action with heq | ⟨s', pc, heq, -, hle⟩
  · rw [heq]
  · rw [heq]
    exact hle

/-- A command that runs alone saves its update, installs the zones saved and raises the flag. -/
theorem run_command_alone {s : RoiSystem} {t : ℕ} (hidle : s.threads t = .idle) {u : RoiUpdate}
    {config : Json} (hupdate : u.updateConfig (load s.file) = some config)
    (hzones : (loadConfig config).2 = true) :
    (roiSystem false).run s (.command t u.command :: List.replicate 7 (.step t)) =
      { s with
        file := some config
        m_zones := (loadConfig config).1
        g_roi_updated := true
        saved := s.saved ++ [u]
        completed := max s.completed (s.saved.length + 1) } := by
  simp [List.replicate, roiSystem, Machine.next, step, roiUpdate_command, moveTo, stepThread,
    hidle, hupdate, hzones, write]

/-- A load waits until no other command is in its update. -/
def Serial (s : RoiSystem) : RoiAction → Prop
  | .command _ _ => True
  | .step t => ∀ u, s.threads t = .accepted u → ∀ t', ¬ (s.threads t').Updating

/-- The updates are in the configuration, and the rest of it is as it was. -/
structure Kept (config : Json) (saved : List RoiUpdate) (current : Json) : Prop where
  others : ∀ key, key ≠ "zones" → current.find? key = config.find? key
  rois : ∀ u ∈ saved, ∃ v ∈ saved, v.zone_id = u.zone_id ∧ v.camera_id = u.camera_id ∧
    storedRoi u.camera_id u.zone_id (zonesOf current) = some v.roiJson

/-- One configuration stands behind the file and behind what the thread in its update holds. -/
structure Behind (config : Json) (s : RoiSystem) (current : Json) : Prop where
  kept : Kept config s.saved current
  file : s.file = some current ∨ ∃ t, (s.threads t).Truncated
  alone : ∀ t t', (s.threads t).Updating → (s.threads t').Updating → t = t'
  holds : ∀ t, (s.threads t).Holds current

theorem kept_append {config current config' : Json} {saved : List RoiUpdate}
    (h : Kept config saved current) {u : RoiUpdate}
    (hupdate : u.updateConfig current = some config') :
    Kept config (saved ++ [u]) config' := by
  have hupsert := RoiUpdate.zonesOf_updateConfig hupdate
  refine ⟨fun key hkey => ?_, fun v hv => ?_⟩
  · rw [RoiUpdate.find?_updateConfig hupdate hkey, h.others key hkey]
  · by_cases hsame : u.zone_id = v.zone_id ∧ u.camera_id = v.camera_id
    · refine ⟨u, by simp, hsame.1, hsame.2, ?_⟩
      rw [← hsame.1, ← hsame.2, RoiUpdate.storedRoi_upsert_self hupsert]
    · have hold : v ∈ saved := by
        rcases List.mem_append.mp hv with hold | hnew
        · exact hold
        · rw [List.mem_singleton] at hnew
          exact absurd ⟨hnew ▸ rfl, hnew ▸ rfl⟩ hsame
      obtain ⟨w, hw, hid, hcamera, hroi⟩ := h.rois v hold
      refine ⟨w, List.mem_append_left _ hw, hid, hcamera, ?_⟩
      rw [RoiUpdate.storedRoi_upsert_other hupsert hsame, hroi]

theorem behind_init (config : Json) : Behind config (init config) config :=
  ⟨⟨fun _ _ => rfl, fun _ hu => absurd hu List.not_mem_nil⟩, .inl rfl,
    fun _ _ h => absurd h id, fun _ => trivial⟩

section

variable {config current : Json} {s : RoiSystem} {t : ℕ} {old pc : UpdatePc}

theorem alone_update {threads : ℕ → UpdatePc}
    (h : ∀ t t', (threads t).Updating → (threads t').Updating → t = t')
    (hto : pc.Updating → ∀ t', (threads t').Updating → t' = t) (a b : ℕ)
    (ha : (Function.update threads t pc a).Updating)
    (hb : (Function.update threads t pc b).Updating) : a = b := by
  by_cases hat : a = t
  · subst hat
    by_cases hbt : b = a
    · exact hbt.symm
    · rw [Function.update_self] at ha
      rw [Function.update_of_ne hbt] at hb
      exact absurd (hto ha b hb) hbt
  · rw [Function.update_of_ne hat] at ha
    by_cases hbt : b = t
    · subst hbt
      rw [Function.update_self] at hb
      exact absurd (hto hb a ha) hat
    · rw [Function.update_of_ne hbt] at hb
      exact h a b ha hb

theorem behind_move (h : Behind config s current) (hpc : s.threads t = old)
    (hfrom : ¬ old.Truncated) (hto : pc.Updating → ∀ t', (s.threads t').Updating → t' = t)
    (hholds : pc.Holds current) (m_zones : List ZoneConfig) (g_roi_updated : Bool) (completed : ℕ) :
    Behind config ({ s with m_zones, g_roi_updated, completed }.moveTo t pc) current := by
  refine ⟨h.kept, ?_, alone_update h.alone hto, ?_⟩
  · rcases h.file with hfile | ⟨t', ht'⟩
    · exact .inl hfile
    · have hne : t' ≠ t := by
        rintro rfl
        exact hfrom (hpc ▸ ht')
      refine .inr ⟨t', ?_⟩
      rw [threads_moveTo_of_ne _ hne]
      exact ht'
  · exact (Function.forall_update_iff s.threads fun _ pc => pc.Holds current).mpr
      ⟨hholds, fun t' _ => h.holds t'⟩

theorem behind_outside (h : Behind config s current) (hpc : s.threads t = old)
    (hfrom : ¬ old.Truncated) (hto : ¬ pc.Updating) (m_zones : List ZoneConfig)
    (g_roi_updated : Bool) (completed : ℕ) :
    Behind config ({ s with m_zones, g_roi_updated, completed }.moveTo t pc) current :=
  behind_move h hpc hfrom (fun hnew => absurd hnew hto) (UpdatePc.holds_of_not_updating hto current)
    m_zones g_roi_updated completed

theorem behind_write (h : Behind config s current) (hfrom : (s.threads t).Updating)
    {u : RoiUpdate} {config' : Json} (hupdate : u.updateConfig current = some config') :
    Behind config (s.write t u config') config' := by
  have hothers (t' : ℕ) (hne : t' ≠ t) : ¬ (s.threads t').Updating :=
    fun ht' => hne (h.alone t' t ht' hfrom)
  refine ⟨kept_append h.kept hupdate, .inl rfl, alone_update h.alone (fun hpc => absurd hpc id), ?_⟩
  exact (Function.forall_update_iff s.threads fun _ pc => pc.Holds config').mpr
    ⟨trivial, fun t' hne => UpdatePc.holds_of_not_updating (hothers t' hne) config'⟩

/-- What a thread's step does to the configuration behind the system, when loads wait. -/
theorem behind_stepThread (h : Behind config s current) (hserial : Serial s (.step t)) :
    ∃ current', Behind config (s.stepThread false t) current' := by
  have hholds := h.holds t
  unfold stepThread
  cases hpc : s.threads t with
  | idle => exact ⟨current, h⟩
  | accepted u =>
    have hnone := hserial u hpc
    have hfile : s.file = some current := by
      rcases h.file with hfile | ⟨t', ht'⟩
      · exact hfile
      · exact absurd ht'.updating (hnone t')
    have hloaded : (UpdatePc.loaded u (load s.file)).Holds current := by
      rw [hfile]
      rfl
    exact ⟨current, behind_move h hpc id (fun _ t' ht' => absurd ht' (hnone t')) hloaded s.m_zones
      s.g_roi_updated s.completed⟩
  | loaded u config' =>
    rw [hpc] at hholds
    obtain rfl : config' = current := hholds
    have hupdating : (s.threads t).Updating := by
      rw [hpc]
      trivial
    dsimp only
    cases hupdate : u.updateConfig config' with
    | none =>
      exact ⟨config', behind_outside h hpc id id s.m_zones s.g_roi_updated s.completed⟩
    | some modified =>
      have hmodified : (UpdatePc.modified u modified).Holds config' := hupdate
      exact ⟨config', behind_move h hpc id (fun _ t' ht' => h.alone t' t ht' hupdating) hmodified
        s.m_zones s.g_roi_updated s.completed⟩
  | modified u config' =>
    rw [hpc] at hholds
    have hupdating : (s.threads t).Updating := by
      rw [hpc]
      trivial
    refine ⟨current, h.kept, .inr ⟨t, ?_⟩,
      alone_update h.alone fun _ t' ht' => h.alone t' t ht' hupdating, ?_⟩
    · simp [moveTo, UpdatePc.Truncated]
    · exact (Function.forall_update_iff s.threads fun _ pc => pc.Holds current).mpr
        ⟨hholds, fun t' _ => h.holds t'⟩
  | truncated u config' =>
    rw [hpc] at hholds
    have hupdating : (s.threads t).Updating := by
      rw [hpc]
      trivial
    exact ⟨config', behind_write h hupdating hholds⟩
  | saved version =>
    exact ⟨current, behind_outside h hpc id id s.m_zones s.g_roi_updated s.completed⟩
  | reloaded zones ok version =>
    refine ⟨current, behind_outside h hpc id ?_ zones s.g_roi_updated s.completed⟩
    cases ok with
    | true => exact id
    | false => exact id
  | installed version =>
    exact ⟨current, behind_outside h hpc id id s.m_zones true (max s.completed version)⟩

theorem behind_next (h : ∃ current, Behind config s current) (action : RoiAction)
    (hserial : Serial s action) :
    ∃ current, Behind config ((roiSystem false).next s action) current := by
  obtain ⟨current, h⟩ := h
  cases action with
  | step t => exact behind_stepThread h hserial
  | command t data =>
    simp only [Machine.next, roiSystem, step]
    split
    · rename_i u hpc _
      exact ⟨current, behind_outside h hpc id id s.m_zones s.g_roi_updated s.completed⟩
    · exact ⟨current, h⟩

end

/-- When no load falls into the update of another command, the commands that have ended are all in
the configuration: the file parses, every key but the zones has its first value, and the roi stored
for a key that was updated is one of those submitted for it. -/
theorem updates_kept (config : Json) (schedule : List RoiAction)
    (hserial : (roiSystem false).Along Serial (init config) schedule)
    (hdone : ∀ t, ((roiSystem false).run (init config) schedule).threads t = .idle) :
    ∃ current, ((roiSystem false).run (init config) schedule).file = some current ∧
      Kept config ((roiSystem false).run (init config) schedule).saved current := by
  obtain ⟨current, h⟩ := Machine.invariant_along (I := fun s => ∃ current, Behind config s current)
    (fun _ action h hgood => behind_next h action hgood) ⟨config, behind_init config⟩ hserial
  refine ⟨current, ?_, h.kept⟩
  rcases h.file with hfile | ⟨t, ht⟩
  · exact hfile
  · rw [hdone t] at ht
    exact absurd ht id

theorem along_serial_of_thread {s : RoiSystem} {t : ℕ} (h : ∀ t', t' ≠ t → s.threads t' = .idle)
    {schedule : List RoiAction} (honly : ∀ action ∈ schedule, action.thread = t) :
    (roiSystem false).Along Serial s schedule := by
  induction schedule generalizing s with
  | nil => exact trivial
  | cons action schedule ih =>
    obtain ⟨haction, hrest⟩ := List.forall_mem_cons.mp honly
    refine ⟨?_, ih (fun t' ht' => ?_) hrest⟩
    · cases action with
      | command t' data => trivial
      | step t' =>
        obtain rfl : t' = t := haction
        intro u hu t''
        by_cases hsame : t'' = t'
        · rw [hsame, hu]
          exact id
        · rw [h t'' hsame]
          exact id
    · rw [threads_next_of_ne false s (haction ▸ ht'), h t' ht']

/-- A configuration with a key of its own and no zones yet. -/
def portConfig : Json := .obj [("port", .int 1883), ("zones", .arr [])]

def roiOfCam1 : RoiUpdate := ⟨"CAM_01", 5, [0, 0, 1, 1], by simp, by simp, rfl⟩

def roiOfCam2 : RoiUpdate := ⟨"CAM_02", 7, [0, 0, 1, 1], by simp, by simp, rfl⟩

theorem updates_kept_one :
    let schedule : List RoiAction := .command 0 roiOfCam1.command :: List.replicate 7 (.step 0)
    (roiSystem false).Along Serial (init portConfig) schedule ∧
      (∀ t, ((roiSystem false).run (init portConfig) schedule).threads t = .idle) ∧
      ∃ current, ((roiSystem false).run (init portConfig) schedule).file = some current ∧
        Kept portConfig ((roiSystem false).run (init portConfig) schedule).saved current := by
  intro schedule
  have honly : ∀ action ∈ schedule, action.thread = 0 := by
    refine List.forall_mem_cons.mpr ⟨rfl, fun action haction => ?_⟩
    rw [List.eq_of_mem_replicate haction]
    rfl
  have hserial : (roiSystem false).Along Serial (init portConfig) schedule :=
    along_serial_of_thread (t := 0) (fun _ _ => rfl) honly
  have hdone : ∀ t, ((roiSystem false).run (init portConfig) schedule).threads t = .idle := by
    intro t
    match t with
    | 0 => rfl
    | t + 1 => rfl
  exact ⟨hserial, hdone, updates_kept portConfig schedule hserial hdone⟩

/-- The second client's command comes between the truncation and the write of the first one's. -/
def loadInsideSave : List RoiAction :=
  [.command 0 roiOfCam1.command, .step 0, .step 0, .step 0,
    .command 1 roiOfCam2.command, .step 1, .step 1,
    .step 0, .step 0, .step 0, .step 0, .step 1, .step 1, .step 1, .step 1, .step 1]

/-- The second load takes the truncated file for empty, and its save drops the other keys. -/
theorem load_inside_save :
    ¬ ∀ (config : Json) (schedule : List RoiAction),
      (∀ t, ((roiSystem false).run (init config) schedule).threads t = .idle) →
        ∃ current, ((roiSystem false).run (init config) schedule).file = some current ∧
          Kept config ((roiSystem false).run (init config) schedule).saved current := by
  intro hall
  have hfile : ((roiSystem false).run (init portConfig) loadInsideSave).file =
      some (.obj [("zones", .arr [roiOfCam2.newZone])]) := rfl
  have hdone : ∀ t, ((roiSystem false).run (init portConfig) loadInsideSave).threads t = .idle := by
    intro t
    match t with
    | 0 => rfl
    | 1 => rfl
    | t + 2 => rfl
  obtain ⟨current, hcurrent, hkept⟩ := hall portConfig loadInsideSave hdone
  rw [hfile, Option.some_inj] at hcurrent
  have hport := hkept.others "port" (by simp)
  rw [← hcurrent] at hport
  cases hport

end RoiSystem

end JeogiAt.Server
