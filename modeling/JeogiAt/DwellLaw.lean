import JeogiAt.Library.Machine
import JeogiAt.ScreenRedraw

/-!
# How long the cycle stays on a screen

Time is a natural number of milliseconds here, and `HAL_GetTick` is what of it fits into 32 bits.
The cycle compares the difference of two ticks with the time that a screen stays. `Clocked` ties
`last_switch_tick` to the real time of the last switch, through the commands and through the calls
of `matrixRun`: while the cycle is on and on one of its screens, the call before was within that
screen's time of the switch, and so the next one still tells the difference from its remainder.
-/

namespace JeogiAt.Display

def halGetTick (time : ℕ) : UInt32 := UInt32.ofNat time

theorem toNat_tick_sub {t t' : ℕ} (h : t ≤ t') (hfits : t' < t + 2 ^ 32) :
    (halGetTick t' - halGetTick t).toNat = t' - t := by
  rw [UInt32.toNat_sub, halGetTick, halGetTick, UInt32.toNat_ofNat', UInt32.toNat_ofNat']
  omega

/-- The display with the real times of the latest call, of the last switch, selection or change of
the cycle, and of the latest call of `matrixRun`. -/
structure Timed where
  display : MatrixRun
  time : ℕ
  since : ℕ
  ran : ℕ

/-- A call with the real times at which it reads the clock. -/
inductive TimedStep
  | congestion (data : Vector UInt8 8)
  | screen (k : UInt8) (t : ℕ)
  | autoCycle (enable : Bool) (t t' : ℕ)
  | trainDest (dest_code : UInt8) (t : ℕ)
  | run (t : ℕ) (g_db_data : DbData)

namespace Timed

/-- After `MatrixRun_Init`, which reads the clock three times. -/
def start (t t' t'' : ℕ) : Timed where
  display := MatrixRun.boot.matrixRunInit (halGetTick t) (halGetTick t') (halGetTick t'')
  time := t''
  since := t'
  ran := t'

def step (s : Timed) : TimedStep → Timed × Option (Vector UInt8 8)
  | .congestion data => ({ s with display := s.display.setCongestionBulk data }, none)
  | .screen k t =>
      ({ s with
          display := s.display.setScreen k (halGetTick t)
          time := t
          since := if k ≤ screenTrain then t else s.since }, none)
  | .autoCycle enable t t' =>
      ({ s with
          display := s.display.setAutoCycle enable (halGetTick t) (halGetTick t')
          time := t'
          since := t' }, none)
  | .trainDest dest_code t =>
      ({ s with display := s.display.setTrainDest dest_code (halGetTick t), time := t }, none)
  | .run t g_db_data =>
      let (display, guide) := s.display.matrixRun (halGetTick t) g_db_data
      let since := if display.current_screen = s.display.current_screen then s.since else t
      (⟨display, t, since, t⟩, guide)

end Timed

def timedDisplay : Machine Timed TimedStep (Option (Vector UInt8 8)) := ⟨Timed.step⟩

/-- Time does not run backwards, calls of `matrixRun` are less than 2^31 ms apart, and there is no
train event in them. -/
def Timely (s : Timed) : TimedStep → Prop
  | .congestion _ => True
  | .screen _ t => s.time ≤ t
  | .autoCycle _ t t' => s.time ≤ t ∧ t ≤ t'
  | .trainDest _ t => s.time ≤ t
  | .run t _ => s.time ≤ t ∧ t < s.ran + 2 ^ 31 ∧ s.display.train_event_active = false

/-- The time that a screen of the cycle stays, in milliseconds. -/
def stayTime (screen : UInt8) : ℕ := if screen = screenDashboard then 10000 else 5000

def nextScreen (screen : UInt8) : UInt8 :=
  if screen = screenDashboard then screenCo2
  else if screen = screenCo2 then screenTempHum
  else screenDashboard

/-- A call takes the display from `s` to `s'`, the given time after the last switch. -/
structure DwellLaw (s : MatrixRun) (elapsed : ℕ) (s' : MatrixRun)
    (guide : Option (Vector UInt8 8)) : Prop where
  changes : s'.current_screen ≠ s.current_screen ↔ s.auto_cycle_enabled = true ∧
    s.current_screen ∈ [screenDashboard, screenCo2, screenTempHum] ∧
      stayTime s.current_screen ≤ elapsed
  next : s'.current_screen ≠ s.current_screen → s'.current_screen = nextScreen s.current_screen
  guide : guide =
    if s'.current_screen ≠ s.current_screen ∧ s'.current_screen = screenDashboard then
      some s.congestion_status
    else none

def Dwells (s : Timed) : TimedStep → Prop
  | .run t g_db_data =>
      DwellLaw s.display (t - s.since) (s.display.matrixRun (halGetTick t) g_db_data).1
        (s.display.matrixRun (halGetTick t) g_db_data).2
  | _ => True

namespace MatrixRun

/-- Without a train event a call does to the cycle what `autoCycle` does. -/
theorem matrixRun_idle {s : MatrixRun} (h : s.train_event_active = false) (now : UInt32)
    (g_db_data : DbData) : (s.matrixRun now g_db_data).1.cycle = (s.autoCycle now).1.cycle ∧
      (s.matrixRun now g_db_data).2 = (s.autoCycle now).2.2 := by
  have hmodes := s.modes_matrixRun now g_db_data
  have hguide := s.guide_matrixRun now g_db_data
  rw [trainEvent_idle h] at hmodes hguide
  exact ⟨congrArg Prod.fst hmodes, hguide⟩

end MatrixRun

theorem mem_screens_iff (screen : UInt8) :
    screen ∈ [screenDashboard, screenCo2, screenTempHum] ↔ screen ≤ screenTempHum := by
  have hle : screen ≤ screenTempHum ↔ screen.toNat ≤ 2 := UInt8.le_iff_toNat_le
  simp only [List.mem_cons, List.not_mem_nil, or_false, hle, ← UInt8.toNat_inj]
  show screen.toNat = 0 ∨ screen.toNat = 1 ∨ screen.toNat = 2 ↔ screen.toNat ≤ 2
  omega

theorem screen_succ {screen : UInt8} (h : screen ≤ screenTempHum) :
    (screen + 1) % 3 = nextScreen screen ∧ nextScreen screen ≠ screen := by
  have hmem := (mem_screens_iff screen).mpr h
  simp only [List.mem_cons, List.not_mem_nil, or_false] at hmem
  rcases hmem with rfl | rfl | rfl
  · exact ⟨rfl, by decide⟩
  · exact ⟨rfl, by decide⟩
  · exact ⟨rfl, by decide⟩

theorem toNat_stayMs (s : MatrixRun) : s.stayMs.toNat = stayTime s.current_screen := by
  unfold MatrixRun.stayMs stayTime
  split_ifs <;> rfl

theorem stayTime_le (screen : UInt8) : stayTime screen ≤ 10000 := by
  unfold stayTime
  split_ifs <;> omega

theorem autoCycle_due {s : MatrixRun} {now : UInt32} (h : (s.autoCycle now).2.1 = true) :
    (s.autoCycle now).1.cycle = (nextScreen s.current_screen, s.auto_cycle_enabled, now) ∧
      (s.autoCycle now).2.2 =
        if nextScreen s.current_screen = screenDashboard then some s.congestion_status
        else none := by
  have hcycle := (s.autoCycle_changed now).mp h
  obtain ⟨hnext, -⟩ := screen_succ hcycle.2.1
  rw [MatrixRun.autoCycle, if_pos hcycle, ← hnext]
  dsimp only
  split_ifs <;> exact ⟨rfl, rfl⟩

/-- The tick is that of the last switch, and while the cycle is on and on one of its screens the
latest call was within the time of a screen. -/
structure Clocked (s : Timed) : Prop where
  tick : s.display.last_switch_tick = halGetTick s.since
  since_le : s.since ≤ s.time
  ran_le : s.ran ≤ s.time
  fresh : s.display.auto_cycle_enabled = true → s.display.current_screen ≤ screenTempHum →
    s.ran < s.since + 10000

variable {s : Timed}

theorem clocked_start {t t' t'' : ℕ} (h : t' ≤ t'') : Clocked (Timed.start t t' t'') where
  tick := rfl
  since_le := h
  ran_le := h
  fresh _ _ := Nat.lt_add_of_pos_right (Nat.succ_pos 9999)

theorem Clocked.of_cycle {display : MatrixRun} {t : ℕ} (h : Clocked s)
    (hcycle : display.cycle = s.display.cycle) (ht : s.time ≤ t) :
    Clocked { s with display, time := t } := by
  obtain ⟨hscreen, hrest⟩ := Prod.mk.inj hcycle
  obtain ⟨hauto, htick⟩ := Prod.mk.inj hrest
  refine ⟨htick.trans h.tick, h.since_le.trans ht, h.ran_le.trans ht, fun hon hle => ?_⟩
  exact h.fresh (hauto ▸ hon) (hscreen ▸ hle)

/-- With the cycle on, the ticks at a timely call tell the real time since the last switch. -/
theorem Clocked.elapsed {t : ℕ} (h : Clocked s) (ht : s.time ≤ t) (hgap : t < s.ran + 2 ^ 31)
    (hauto : s.display.auto_cycle_enabled = true)
    (hscreen : s.display.current_screen ≤ screenTempHum) :
    (halGetTick t - s.display.last_switch_tick).toNat = t - s.since := by
  have hfresh := h.fresh hauto hscreen
  rw [h.tick]
  exact toNat_tick_sub (h.since_le.trans ht) (by omega)

theorem Clocked.changed_iff {t : ℕ} (h : Clocked s) (ht : s.time ≤ t) (hgap : t < s.ran + 2 ^ 31) :
    (s.display.autoCycle (halGetTick t)).2.1 = true ↔ s.display.auto_cycle_enabled = true ∧
      s.display.current_screen ≤ screenTempHum ∧
        stayTime s.display.current_screen ≤ t - s.since := by
  rw [MatrixRun.autoCycle_changed]
  refine and_congr_right fun hauto => and_congr_right fun hscreen => ?_
  rw [UInt32.le_iff_toNat_le, toNat_stayMs, h.elapsed ht hgap hauto hscreen]

theorem Clocked.dwells {t : ℕ} {g_db_data : DbData} (h : Clocked s)
    (htimely : Timely s (.run t g_db_data)) : Dwells s (.run t g_db_data) := by
  obtain ⟨ht, hgap, hidle⟩ := htimely
  obtain ⟨hcycle, hguide⟩ := MatrixRun.matrixRun_idle hidle (halGetTick t) g_db_data
  have hchanged := h.changed_iff ht hgap
  have hscreen := (Prod.mk.inj hcycle).1
  rw [Dwells]
  cases hdue : (s.display.autoCycle (halGetTick t)).2.1 with
  | true =>
    obtain ⟨hnext, hcall⟩ := autoCycle_due hdue
    have hlaw := hchanged.mp hdue
    rw [(Prod.mk.inj hnext).1] at hscreen
    have hne := (screen_succ hlaw.2.1).2
    constructor
    · rw [hscreen, mem_screens_iff]
      exact iff_of_true hne hlaw
    · exact fun _ => hscreen
    · rw [hguide, hcall, hscreen]
      simp only [ne_eq, hne, not_false_eq_true, true_and]
  | false =>
    have hsame := MatrixRun.autoCycle_unchanged hdue
    rw [hsame] at hscreen hguide
    have heq : (s.display.matrixRun (halGetTick t) g_db_data).1.current_screen =
        s.display.current_screen := hscreen
    constructor
    · rw [mem_screens_iff, ← hchanged, hdue, heq]
      exact iff_of_false (not_not.mpr rfl) Bool.false_ne_true
    · exact fun hne => absurd heq hne
    · rw [hguide, if_neg fun hne => hne.1 heq]

theorem next_run (s : Timed) (t : ℕ) (g_db_data : DbData) :
    timedDisplay.next s (.run t g_db_data) =
      ⟨(s.display.matrixRun (halGetTick t) g_db_data).1, t,
        if (s.display.matrixRun (halGetTick t) g_db_data).1.current_screen =
          s.display.current_screen then s.since else t, t⟩ := rfl

theorem Clocked.run {t : ℕ} {g_db_data : DbData} (h : Clocked s)
    (htimely : Timely s (.run t g_db_data)) :
    Clocked (timedDisplay.next s (.run t g_db_data)) := by
  obtain ⟨ht, hgap, hidle⟩ := htimely
  obtain ⟨hcycle, -⟩ := MatrixRun.matrixRun_idle hidle (halGetTick t) g_db_data
  have hchanged := h.changed_iff ht hgap
  rw [next_run]
  generalize (s.display.matrixRun (halGetTick t) g_db_data).1 = display at hcycle ⊢
  cases hdue : (s.display.autoCycle (halGetTick t)).2.1 with
  | true =>
    obtain ⟨hnext, -⟩ := autoCycle_due hdue
    rw [hnext] at hcycle
    obtain ⟨hscreen, hrest⟩ := Prod.mk.inj hcycle
    have hne : display.current_screen ≠ s.display.current_screen :=
      hscreen ▸ (screen_succ (hchanged.mp hdue).2.1).2
    rw [if_neg hne]
    exact ⟨(Prod.mk.inj hrest).2, le_rfl, le_rfl, fun _ _ => Nat.lt_add_of_pos_right (by omega)⟩
  | false =>
    rw [MatrixRun.autoCycle_unchanged hdue] at hcycle
    obtain ⟨hscreen, hrest⟩ := Prod.mk.inj hcycle
    obtain ⟨hauto, htick⟩ := Prod.mk.inj hrest
    rw [if_pos hscreen]
    refine ⟨htick.trans h.tick, h.since_le.trans ht, le_rfl, fun hon hle => ?_⟩
    -- the time of the screen was not over
    dsimp only at hon hle ⊢
    have hnot : ¬ stayTime s.display.current_screen ≤ t - s.since := fun hover => by
      have hswitch := hchanged.mpr ⟨hauto ▸ hon, hscreen ▸ hle, hover⟩
      rw [hdue] at hswitch
      exact Bool.false_ne_true hswitch
    have hstay := stayTime_le s.display.current_screen
    omega

/-- Every timely step keeps the clock, and a call of `matrixRun` keeps to the law. -/
theorem Clocked.step (h : Clocked s) (x : TimedStep) (htimely : Timely s x) :
    Clocked (timedDisplay.next s x) ∧ Dwells s x := by
  cases x with
  | congestion data =>
    exact ⟨h.of_cycle (s.display.cycle_setCongestionBulk data) le_rfl, trivial⟩
  | screen k t =>
    refine ⟨?_, trivial⟩
    by_cases hk : k ≤ screenTrain
    · have hnext : timedDisplay.next s (.screen k t) =
          ⟨{ s.display.clear with
              current_screen := k
              last_switch_tick := halGetTick t
              last_refresh_tick := 0 }, t, t, s.ran⟩ := by
        simp only [timedDisplay, Machine.next, Timed.step, MatrixRun.setScreen, if_pos hk,
          if_neg (UInt8.not_lt.mpr hk)]
      rw [hnext]
      exact ⟨rfl, le_rfl, h.ran_le.trans htimely, fun _ _ =>
        lt_of_le_of_lt (h.ran_le.trans htimely) (Nat.lt_add_of_pos_right (by omega))⟩
    · have hnext : timedDisplay.next s (.screen k t) = { s with time := t } := by
        simp only [timedDisplay, Machine.next, Timed.step, MatrixRun.setScreen, if_neg hk,
          if_pos (UInt8.not_le.mp hk)]
      rw [hnext]
      exact h.of_cycle rfl htimely
  | autoCycle enable t t' =>
    have hran : s.ran ≤ t' := h.ran_le.trans (htimely.1.trans htimely.2)
    have hfresh : s.ran < t' + 10000 := by omega
    exact ⟨⟨rfl, le_rfl, hran, fun _ _ => hfresh⟩, trivial⟩
  | trainDest dest_code t =>
    exact ⟨h.of_cycle (s.display.cycle_setTrainDest dest_code (halGetTick t)) htimely, trivial⟩
  | run t g_db_data => exact ⟨h.run htimely, h.dwells htimely⟩

/-- In every timely run the calls of `matrixRun` switch the screen exactly when its time is over,
to the next one, and play the guide exactly with the dashboard. -/
theorem dwell_law {t t' t'' : ℕ} (hinit : t' ≤ t'') {steps : List TimedStep}
    (htimely : timedDisplay.Along Timely (Timed.start t t' t'') steps) :
    timedDisplay.Along Dwells (Timed.start t t' t'') steps :=
  Machine.along_of_invariant (fun _ x h => h.step x) (clocked_start hinit) htimely

/-- The dashboard's time ends after the tick has wrapped. -/
theorem dwell_law_wrap :
    timedDisplay.Along Dwells (Timed.start 4294960000 4294960000 4294960000)
      [.run 4294965000 ⟨0, 0, 0, 0⟩, .run 4294970000 ⟨0, 0, 0, 0⟩] :=
  dwell_law le_rfl ⟨⟨by decide, by decide, rfl⟩, ⟨by decide, by decide, rfl⟩, trivial⟩

end JeogiAt.Display
