import JeogiAt.SubwayTrains
import JeogiAt.UartProtocol

/-!
# Arrival events of the subway loop

`run_subway_arrival_override_loop` of `display.cpp` polls the API, shows the event screen when a
train has arrived, and takes the base screen back when the hold time is over. A run is an infinite
sequence of passes, with times in nanoseconds. While the event screen is shown, polls with a train
on its way do not arm the next event. Such a poll can only come when the hold time is longer than
the time between two polls, and then a train may be missed.
-/

namespace JeogiAt.Subway

structure Settings where
  api_key : String
  poll_ms : Int32
  hold_sec : Int32
  event_screen : Int32
  base_screen : Int32
  api_key_ne : api_key ≠ ""

/-- The head of the function. The outer `none` is an exception, the inner one its early return. -/
def subwaySettings (config : Json) : Option (Option Settings) := do
  let api_key ← config.value "subway_api_key" "" Json.getString
  let poll_ms ← config.value "subway_poll_ms" 15000 Json.getInt
  let hold_sec ← config.value "subway_hold_sec" 5 Json.getInt
  let event_screen ← config.value "subway_event_screen" 4 Json.getInt
  let base_screen ← config.value "subway_base_screen" 0 Json.getInt
  if h : api_key = "" then some none
  else some (some ⟨api_key, poll_ms, hold_sec, event_screen, base_screen, h⟩)

namespace Settings

variable (cfg : Settings)

/-- `chrono::milliseconds(poll_ms)` -/
def poll : ℤ := cfg.poll_ms.toInt * 1000000

/-- `chrono::seconds(hold_sec)` -/
def hold : ℤ := cfg.hold_sec.toInt * 1000000000

end Settings

/-- A pass of the loop: its two readings of the clock, and what `curl` gets, parsed. -/
structure Poll where
  now : ℤ
  answer : Option (Except String Json)
  later : ℤ

/-- The best train of a poll, if there is an answer with one. -/
def Poll.train (lib : JsonTexts) (p : Poll) : Option Train :=
  match p.answer with
  | none => none
  | some body =>
      let result := parseBestUpTrain lib body
      if result.found then some ⟨result.out_barvl_dt, result.out_line, result.out_msg⟩ else none

structure ArrivalLoop where
  active : Bool
  event_armed : Bool
  active_until : ℤ

/-- What a pass finds and what it sends to the display, before and after the poll. -/
structure Round where
  train : Option Train
  restore : List Communication.Request
  arrival : List Communication.Request

namespace ArrivalLoop

def start (now : ℤ) : ArrivalLoop := ⟨false, true, now⟩

variable (cfg : Settings)

def restoreBase (s : ArrivalLoop) (now : ℤ) : ArrivalLoop × List Communication.Request :=
  if s.active ∧ s.active_until ≤ now then
    ({ s with active := false }, [.displayScreen cfg.base_screen.toInt])
  else (s, [])

def arrivalEvent (s : ArrivalLoop) (train : Option Train) (later : ℤ) :
    ArrivalLoop × List Communication.Request :=
  match train with
  | none => (s, [])
  | some t =>
      if ¬s.active ∧ s.event_armed ∧ t.sec ≤ 0 then
        (⟨true, false, later + cfg.hold⟩,
          [.trainDest (trainDestCodeFromLine t.line), .displayScreen cfg.event_screen.toInt])
      else if ¬s.active then (if 0 < t.sec then { s with event_armed := true } else s, [])
      else (s, [])

/-- The body of the loop. -/
def step (lib : JsonTexts) (s : ArrivalLoop) (p : Poll) : ArrivalLoop × Round :=
  let (s, restore) := s.restoreBase cfg p.now
  let (s, arrival) := s.arrivalEvent cfg (p.train lib) p.later
  (s, ⟨p.train lib, restore, arrival⟩)

end ArrivalLoop

/-- The loop before its pass `k`. -/
def loopAt (cfg : Settings) (lib : JsonTexts) (start : ℤ) (polls : ℕ → Poll) : ℕ → ArrivalLoop
  | 0 => .start start
  | k + 1 => ((loopAt cfg lib start polls k).step cfg lib (polls k)).1

def rounds (cfg : Settings) (lib : JsonTexts) (start : ℤ) (polls : ℕ → Poll) (k : ℕ) : Round :=
  ((loopAt cfg lib start polls k).step cfg lib (polls k)).2

/-- The clock does not run backwards, and the loop sleeps for `poll_ms` between two polls. -/
def Timely (cfg : Settings) (polls : ℕ → Poll) : Prop :=
  ∀ k, (polls k).now ≤ (polls k).later ∧ (polls k).later ≤ (polls (k + 1)).now ∧
    (polls k).later + cfg.poll ≤ (polls (k + 1)).now

namespace Round

def Ahead (r : Round) : Prop := ∃ t ∈ r.train, 0 < t.sec

def Arrived (r : Round) : Prop := ∃ t ∈ r.train, t.sec ≤ 0

def Event (r : Round) : Prop := r.arrival ≠ []

def Restores (cfg : Settings) (r : Round) : Prop :=
  r.restore = [.displayScreen cfg.base_screen.toInt]

theorem Arrived.not_ahead {r : Round} (h : r.Arrived) : ¬r.Ahead := by
  rintro ⟨t, ht, hpos⟩
  obtain ⟨u, hu, hle⟩ := h
  cases Option.mem_unique ht hu
  omega

end Round

/-- Pass `i` is in the maximal run of arrived trains that begins with pass `a`. -/
def InRun (rounds : ℕ → Round) (a i : ℕ) : Prop :=
  a ≤ i ∧ ∀ k, a ≤ k → k ≤ i → (rounds k).Arrived

/-- One event for each train that comes, and one restore for each event. -/
structure ArrivalLaw (cfg : Settings) (rounds : ℕ → Round) : Prop where
  ahead : ∀ i j, i < j → (rounds i).Event → (rounds j).Event →
    ∃ k, i < k ∧ k < j ∧ (rounds k).Ahead
  caught : ∀ p a, p < a → (rounds p).Ahead → (∀ k, p ≤ k → k < a → ¬(rounds k).Event) →
    (rounds a).Arrived → ¬(rounds (a - 1)).Arrived → ∃! i, InRun rounds a i ∧ (rounds i).Event
  restored : ∀ i, (rounds i).Event →
    ∃! k, i < k ∧ (∀ m, i < m → m < k → ¬(rounds m).Event) ∧ (rounds k).Restores cfg

namespace ArrivalLoop

variable {cfg : Settings} {lib : JsonTexts} {s : ArrivalLoop} {p : Poll}

def Showing (s : ArrivalLoop) (p : Poll) : Prop := s.active = true ∧ p.now < s.active_until

theorem restoreBase_active :
    (s.restoreBase cfg p.now).1.active = true ↔ s.Showing p := by
  unfold restoreBase Showing
  by_cases hactive : s.active = true
  · by_cases hdue : s.active_until ≤ p.now
    · simp [hactive, hdue, not_lt.mpr hdue]
    · simp [hactive, hdue, not_le.mp hdue]
  · simp [hactive]

theorem restoreBase_event_armed : (s.restoreBase cfg p.now).1.event_armed = s.event_armed := by
  unfold restoreBase
  split_ifs <;> rfl

theorem restores_iff :
    (s.step cfg lib p).2.Restores cfg ↔ s.active = true ∧ s.active_until ≤ p.now := by
  show (s.restoreBase cfg p.now).2 = _ ↔ _
  unfold restoreBase
  by_cases h : s.active = true ∧ s.active_until ≤ p.now
  · rw [if_pos h]
    exact iff_of_true rfl h
  · rw [if_neg h]
    exact iff_of_false (List.cons_ne_nil _ _).symm h

section arrivalEvent

variable {train : Option Train} {later : ℤ}

theorem arrivalEvent_ne_nil_iff : (s.arrivalEvent cfg train later).2 ≠ [] ↔
    ¬s.active = true ∧ s.event_armed = true ∧ ∃ t ∈ train, t.sec ≤ 0 := by
  unfold arrivalEvent
  cases train with
  | none => simp
  | some t =>
    by_cases h : ¬s.active = true ∧ s.event_armed = true ∧ t.sec ≤ 0
    · simp only [if_pos h]
      exact iff_of_true (List.cons_ne_nil _ _) ⟨h.1, h.2.1, t, rfl, h.2.2⟩
    · simp only [if_neg h]
      refine iff_of_false ?_ fun ⟨hactive, harmed, u, hu, hle⟩ => ?_
      · split_ifs <;> exact fun hne => hne rfl
      · cases hu
        exact h ⟨hactive, harmed, hle⟩

theorem arrivalEvent_active : (s.arrivalEvent cfg train later).1.active = true ↔
    (s.arrivalEvent cfg train later).2 ≠ [] ∨ s.active = true := by
  unfold arrivalEvent
  split
  · simp
  · split_ifs <;> simp

theorem arrivalEvent_active_until (h : (s.arrivalEvent cfg train later).2 ≠ []) :
    (s.arrivalEvent cfg train later).1.active_until = later + cfg.hold := by
  revert h
  unfold arrivalEvent
  split
  · simp
  · split_ifs <;> simp

theorem arrivalEvent_event_armed : (s.arrivalEvent cfg train later).1.event_armed = true ↔
    s.event_armed = true ∧ ¬(s.arrivalEvent cfg train later).2 ≠ [] ∨
      ¬s.active = true ∧ ∃ t ∈ train, 0 < t.sec := by
  unfold arrivalEvent
  cases train with
  | none => simp
  | some t =>
    by_cases h : ¬s.active = true ∧ s.event_armed = true ∧ t.sec ≤ 0
    · simp only [if_pos h]
      refine iff_of_false Bool.false_ne_true ?_
      rintro (⟨-, hnil⟩ | ⟨-, u, hu, hpos⟩)
      · exact hnil (List.cons_ne_nil _ _)
      · cases hu
        omega
    · simp only [if_neg h]
      by_cases hactive : s.active = true
      · simp [hactive]
      · by_cases hpos : 0 < t.sec
        · simp [hactive, hpos]
        · simp [hactive, hpos]

end arrivalEvent

theorem event_iff : (s.step cfg lib p).2.Event ↔
    ¬s.Showing p ∧ s.event_armed = true ∧ (s.step cfg lib p).2.Arrived := by
  rw [← @restoreBase_active cfg s p, ← @restoreBase_event_armed cfg s p]
  exact arrivalEvent_ne_nil_iff

theorem step_active :
    (s.step cfg lib p).1.active = true ↔ (s.step cfg lib p).2.Event ∨ s.Showing p := by
  rw [← @restoreBase_active cfg s p]
  exact arrivalEvent_active

theorem step_active_until (h : (s.step cfg lib p).2.Event) :
    (s.step cfg lib p).1.active_until = p.later + cfg.hold :=
  arrivalEvent_active_until h

theorem step_active_until_of_showing (h : s.Showing p) :
    (s.step cfg lib p).1.active_until = s.active_until := by
  have hbase : s.restoreBase cfg p.now = (s, []) := if_neg fun hdue => not_le.mpr h.2 hdue.2
  show ((s.restoreBase cfg p.now).1.arrivalEvent cfg (p.train lib) p.later).1.active_until = _
  rw [hbase]
  unfold arrivalEvent
  split
  · rfl
  · simp [h.1]

theorem step_event_armed : (s.step cfg lib p).1.event_armed = true ↔
    s.event_armed = true ∧ ¬(s.step cfg lib p).2.Event ∨
      ¬s.Showing p ∧ (s.step cfg lib p).2.Ahead := by
  rw [← @restoreBase_active cfg s p, ← @restoreBase_event_armed cfg s p]
  exact arrivalEvent_event_armed

theorem Event.not_armed (h : (s.step cfg lib p).2.Event) :
    ¬(s.step cfg lib p).1.event_armed = true := by
  rw [step_event_armed]
  rintro (⟨-, hno⟩ | ⟨-, hahead⟩)
  · exact hno h
  · exact (event_iff.mp h).2.2.not_ahead hahead

theorem step_armed_inactive (h : s.event_armed = true → ¬s.active = true)
    (harmed : (s.step cfg lib p).1.event_armed = true) : ¬(s.step cfg lib p).1.active = true := by
  rw [step_active]
  rintro (hevent | hshowing)
  · exact Event.not_armed hevent harmed
  · rcases step_event_armed.mp harmed with ⟨hbefore, -⟩ | ⟨hnot, -⟩
    · exact h hbefore hshowing.1
    · exact hnot hshowing

end ArrivalLoop

section Runs

open ArrivalLoop

variable (cfg : Settings) (lib : JsonTexts) (start : ℤ) (polls : ℕ → Poll)

theorem armed_inactive (k : ℕ) : (loopAt cfg lib start polls k).event_armed = true →
    ¬(loopAt cfg lib start polls k).active = true := by
  induction k with
  | zero => exact fun _ => Bool.false_ne_true
  | succ k ih => exact step_armed_inactive ih

variable {cfg lib start polls}

theorem kept_armed {i j : ℕ} (hij : i ≤ j)
    (harmed : (loopAt cfg lib start polls i).event_armed = true)
    (hno : ∀ k, i ≤ k → k < j → ¬(rounds cfg lib start polls k).Event) :
    (loopAt cfg lib start polls j).event_armed = true := by
  induction j, hij using Nat.le_induction with
  | base => exact harmed
  | succ j hij ih =>
    have hj := ih fun k hik hkj => hno k hik (by omega)
    exact step_event_armed.mpr (.inl ⟨hj, hno j hij (by omega)⟩)

theorem kept_disarmed {i j : ℕ} (hij : i ≤ j)
    (hdisarmed : ¬(loopAt cfg lib start polls i).event_armed = true)
    (hno : ∀ k, i ≤ k → k < j → ¬(rounds cfg lib start polls k).Ahead) :
    ¬(loopAt cfg lib start polls j).event_armed = true := by
  induction j, hij using Nat.le_induction with
  | base => exact hdisarmed
  | succ j hij ih =>
    have hj := ih fun k hik hkj => hno k hik (by omega)
    intro harmed
    rcases step_event_armed.mp harmed with ⟨hbefore, -⟩ | ⟨-, hahead⟩
    · exact hj hbefore
    · exact hno j hij (by omega) hahead

theorem shown_after_event {k : ℕ} (h : (rounds cfg lib start polls k).Event) :
    (loopAt cfg lib start polls (k + 1)).active = true ∧
      (loopAt cfg lib start polls (k + 1)).active_until = (polls k).later + cfg.hold :=
  ⟨step_active.mpr (.inl h), step_active_until h⟩

theorem showing_of_active {k : ℕ} (hactive : (loopAt cfg lib start polls k).active = true)
    (hno : ¬(rounds cfg lib start polls k).Restores cfg) :
    (loopAt cfg lib start polls k).Showing (polls k) :=
  ⟨hactive, not_le.mp fun hdue => hno (restores_iff.mpr ⟨hactive, hdue⟩)⟩

/-- The event screen stays, with its deadline, until the base screen is restored. -/
theorem kept_active {i j : ℕ} (hij : i ≤ j)
    (hactive : (loopAt cfg lib start polls i).active = true)
    (hno : ∀ k, i ≤ k → k < j → ¬(rounds cfg lib start polls k).Restores cfg) :
    (loopAt cfg lib start polls j).active = true ∧
      (loopAt cfg lib start polls j).active_until =
        (loopAt cfg lib start polls i).active_until := by
  induction j, hij using Nat.le_induction with
  | base => exact ⟨hactive, rfl⟩
  | succ j hij ih =>
    obtain ⟨hj, huntil⟩ := ih fun k hik hkj => hno k hik (by omega)
    have hshowing := showing_of_active hj (hno j hij (by omega))
    exact ⟨step_active.mpr (.inr hshowing), (step_active_until_of_showing hshowing).trans huntil⟩

theorem kept_inactive {i j : ℕ} (hij : i ≤ j)
    (hinactive : ¬(loopAt cfg lib start polls i).active = true)
    (hno : ∀ k, i ≤ k → k < j → ¬(rounds cfg lib start polls k).Event) :
    ¬(loopAt cfg lib start polls j).active = true := by
  induction j, hij using Nat.le_induction with
  | base => exact hinactive
  | succ j hij ih =>
    have hj := ih fun k hik hkj => hno k hik (by omega)
    intro hactive
    rcases step_active.mp hactive with hevent | hshowing
    · exact hno j hij (by omega) hevent
    · exact hj hshowing.1

theorem ahead_between {i j : ℕ} (hij : i < j) (hi : (rounds cfg lib start polls i).Event)
    (hj : (rounds cfg lib start polls j).Event) :
    ∃ k, i < k ∧ k < j ∧ (rounds cfg lib start polls k).Ahead := by
  by_contra hno
  have hdisarmed : ¬(loopAt cfg lib start polls (i + 1)).event_armed = true := Event.not_armed hi
  refine kept_disarmed hij hdisarmed (fun k hik hkj hahead => ?_) (event_iff.mp hj).2.1
  exact hno ⟨k, hik, hkj, hahead⟩

theorem later_add_le (htimely : Timely cfg polls) (i n : ℕ) :
    (polls i).later + (n + 1) * cfg.poll ≤ (polls (i + n + 1)).now := by
  induction n with
  | zero => simpa using (htimely i).2.2
  | succ n ih =>
    obtain ⟨hnow, -, hsleep⟩ := htimely (i + n + 1)
    have hstep : ((n + 1 : ℕ) + 1 : ℤ) * cfg.poll = (n + 1) * cfg.poll + cfg.poll := by
      push_cast
      ring
    rw [hstep]
    show _ ≤ (polls (i + n + 1 + 1)).now
    omega

theorem exists_restores (hpoll : 0 < cfg.poll) (htimely : Timely cfg polls) {i : ℕ}
    (hi : (rounds cfg lib start polls i).Event) :
    ∃ k, i < k ∧ (rounds cfg lib start polls k).Restores cfg := by
  by_contra hno
  let k := i + cfg.hold.toNat + 1
  obtain ⟨hactive, hdeadline⟩ := shown_after_event hi
  obtain ⟨hlast, huntil⟩ := @kept_active cfg lib start polls (i + 1) k (by omega) hactive
    fun m him _ hm => hno ⟨m, him, hm⟩
  have hlong : cfg.hold ≤ (cfg.hold.toNat + 1) * cfg.poll :=
    calc cfg.hold ≤ cfg.hold.toNat + 1 := by omega
      _ ≤ (cfg.hold.toNat + 1) * cfg.poll := le_mul_of_one_le_right (by omega) (by omega)
  have htime : (polls i).later + (cfg.hold.toNat + 1) * cfg.poll ≤ (polls k).now :=
    later_add_le htimely i cfg.hold.toNat
  refine hno ⟨k, by omega, restores_iff.mpr ⟨hlast, ?_⟩⟩
  rw [huntil, hdeadline]
  omega

theorem restored_after (hpoll : 0 < cfg.poll) (htimely : Timely cfg polls) {i : ℕ}
    (hi : (rounds cfg lib start polls i).Event) :
    ∃ k, i < k ∧ (∀ m, i < m → m < k → ¬(rounds cfg lib start polls m).Event) ∧
      (rounds cfg lib start polls k).Restores cfg := by
  classical
  have hex := exists_restores hpoll htimely hi
  obtain ⟨hik, hk⟩ := Nat.find_spec hex
  refine ⟨Nat.find hex, hik, fun m him hmk hevent => ?_, hk⟩
  have hnone : ∀ l, i < l → l < Nat.find hex → ¬(rounds cfg lib start polls l).Restores cfg :=
    fun l hil hlk hl => Nat.find_min hex hlk ⟨hil, hl⟩
  obtain ⟨hm, -⟩ := kept_active him (shown_after_event hi).1
    fun l hil hlm => hnone l hil (hlm.trans hmk)
  exact (event_iff.mp hevent).1 (showing_of_active hm (hnone m him hmk))

theorem restores_once {k l : ℕ} (hkl : k < l) (hk : (rounds cfg lib start polls k).Restores cfg)
    (hno : ∀ m, k ≤ m → m < l → ¬(rounds cfg lib start polls m).Event) :
    ¬(rounds cfg lib start polls l).Restores cfg := by
  have hinactive : ¬(loopAt cfg lib start polls (k + 1)).active = true := by
    intro hactive
    rcases step_active.mp hactive with hevent | hshowing
    · exact hno k le_rfl hkl hevent
    · exact not_le.mpr hshowing.2 (restores_iff.mp hk).2
  intro hl
  exact kept_inactive hkl hinactive (fun m hkm => hno m (by omega)) (restores_iff.mp hl).1

/-- No train is missed in a run that hears of none on its way while it shows an event. -/
theorem arrivalLaw_of_heard (hpoll : 0 < cfg.poll) (htimely : Timely cfg polls)
    (hheard : ∀ k, (rounds cfg lib start polls k).Ahead →
      ¬(loopAt cfg lib start polls k).Showing (polls k)) :
    ArrivalLaw cfg (rounds cfg lib start polls) := by
  refine ⟨fun i j => ahead_between, fun p a hpa hp hno ha _ => ?_, fun i hi => ?_⟩
  · have harmed : (loopAt cfg lib start polls (p + 1)).event_armed = true :=
      step_event_armed.mpr (.inr ⟨hheard p hp, hp⟩)
    have hat := kept_armed hpa harmed fun k hpk hka => hno k (by omega) hka
    have hevent : (rounds cfg lib start polls a).Event :=
      event_iff.mpr ⟨fun hshowing => armed_inactive cfg lib start polls a hat hshowing.1, hat, ha⟩
    refine ⟨a, ⟨⟨le_rfl, fun k hak hka => le_antisymm hka hak ▸ ha⟩, hevent⟩, ?_⟩
    rintro i ⟨⟨hai, hrun⟩, hi⟩
    by_contra hne
    obtain ⟨k, hak, hki, hahead⟩ := ahead_between (lt_of_le_of_ne hai (Ne.symm hne)) hevent hi
    exact (hrun k hak.le hki.le).not_ahead hahead
  · obtain ⟨k, hik, hno, hk⟩ := restored_after hpoll htimely hi
    refine ⟨k, ⟨hik, hno, hk⟩, ?_⟩
    rintro l ⟨hil, hno', hl⟩
    rcases lt_trichotomy l k with hlt | heq | hgt
    · exact absurd hk (restores_once hlt hl fun m hlm => hno m (by omega))
    · exact heq
    · exact absurd hl (restores_once hgt hk fun m hkm => hno' m (by omega))

/-- When the hold time is at most the time between two polls, no poll comes while an event is
shown. -/
theorem not_showing (hhold : cfg.hold ≤ cfg.poll) (htimely : Timely cfg polls) (k : ℕ) :
    ¬(loopAt cfg lib start polls k).Showing (polls k) := by
  induction k with
  | zero => exact fun hshowing => Bool.false_ne_true hshowing.1
  | succ k ih =>
    rintro ⟨hactive, hlt⟩
    rcases step_active.mp hactive with hevent | hshowing
    · have huntil := (shown_after_event hevent).2
      have hsleep := (htimely k).2.2
      omega
    · exact ih hshowing

end Runs

def trainIn (sec : ℤ) : Option (Except String Json) :=
  some (.ok (answer [trainRow (.int sec) "대화행"]))

theorem train_trainIn (lib : JsonTexts) {sec : ℤ} {t : Train} (now later : ℤ)
    (h : reported [trainRow (.int sec) "대화행"] = some t) :
    Poll.train lib ⟨now, trainIn sec, later⟩ = some t := by
  have htypes : ∀ row ∈ [trainRow (.int sec) "대화행"], RowTypes row := by
    simp [rowTypes_trainRow]
  have hout := @outputs_eq lib (answer [trainRow (.int sec) "대화행"]) _ rfl htypes t h
  simp only [Poll.train, trainIn, hout, if_true]

/-- A train has arrived, the next one is on its way at the next poll and there at the third. -/
def twoTrains (cfg : Settings) (k : ℕ) : Poll :=
  ⟨k * cfg.poll, if k = 0 then trainIn 0 else if k = 1 then trainIn 5
    else if k = 2 then trainIn 0 else none, k * cfg.poll⟩

section TwoTrains

variable (cfg : Settings) (lib : JsonTexts)

theorem timely_twoTrains (hpoll : 0 ≤ cfg.poll) : Timely cfg (twoTrains cfg) := by
  intro k
  have hnext : ((k + 1 : ℕ) : ℤ) * cfg.poll = k * cfg.poll + cfg.poll := by push_cast; ring
  simp only [twoTrains, hnext]
  omega

theorem arrived_twoTrains (k : ℕ) :
    (rounds cfg lib 0 (twoTrains cfg) k).Arrived ↔ k = 0 ∨ k = 2 := by
  show (∃ t ∈ (twoTrains cfg k).train lib, t.sec ≤ 0) ↔ _
  have h0 := fun now later : ℤ => train_trainIn lib now later
    (show reported [trainRow (.int 0) "대화행"] = some ⟨0, "대화행", "전역 출발"⟩ by decide)
  have h5 := fun now later : ℤ => train_trainIn lib now later
    (show reported [trainRow (.int 5) "대화행"] = some ⟨5, "대화행", "전역 출발"⟩ by decide)
  unfold twoTrains
  split_ifs with hk0 hk1 hk2
  · simp [h0, hk0]
  · simp [h5, hk1]
  · simp [h0, hk2]
  · simp [Poll.train, hk0, hk2]

theorem ahead_twoTrains : (rounds cfg lib 0 (twoTrains cfg) 1).Ahead := by
  have h5 : (twoTrains cfg 1).train lib = some ⟨5, "대화행", "전역 출발"⟩ :=
    train_trainIn lib _ _ (by decide)
  exact ⟨_, h5, by decide⟩

theorem twoTrains_missed (hlong : cfg.poll < cfg.hold) :
    ¬ArrivalLaw cfg (rounds cfg lib 0 (twoTrains cfg)) := by
  intro hlaw
  have hfirst : (rounds cfg lib 0 (twoTrains cfg) 0).Event :=
    ArrivalLoop.event_iff.mpr ⟨fun hshowing => Bool.false_ne_true hshowing.1, rfl,
      (arrived_twoTrains cfg lib 0).mpr (.inl rfl)⟩
  have hnot1 : ¬(rounds cfg lib 0 (twoTrains cfg) 1).Arrived := by
    rw [arrived_twoTrains]
    decide
  have hshowing : (loopAt cfg lib 0 (twoTrains cfg) 1).Showing (twoTrains cfg 1) := by
    obtain ⟨hactive, huntil⟩ := shown_after_event hfirst
    refine ⟨hactive, ?_⟩
    rw [huntil]
    simpa [twoTrains] using hlong
  have hdisarmed : ¬(loopAt cfg lib 0 (twoTrains cfg) 2).event_armed = true := by
    intro harmed
    rcases ArrivalLoop.step_event_armed.mp harmed with ⟨hbefore, -⟩ | ⟨hnot, -⟩
    · exact ArrivalLoop.Event.not_armed hfirst hbefore
    · exact hnot hshowing
  have hquiet : ∀ k, 1 ≤ k → k < 2 → ¬(rounds cfg lib 0 (twoTrains cfg) k).Event := by
    intro k h1 h2 hevent
    obtain rfl : k = 1 := by omega
    exact hnot1 (ArrivalLoop.event_iff.mp hevent).2.2
  obtain ⟨i, ⟨⟨h2i, hrun⟩, hevent⟩, -⟩ := hlaw.caught 1 2 (by omega) (ahead_twoTrains cfg lib)
    hquiet ((arrived_twoTrains cfg lib 2).mpr (.inr rfl)) hnot1
  have hi := (arrived_twoTrains cfg lib i).mp (hrun i h2i le_rfl)
  obtain rfl : i = 2 := by omega
  exact hdisarmed (ArrivalLoop.event_iff.mp hevent).2.1

end TwoTrains

/-- Every train has its event in every run if and only if the hold time is at most the time
between two polls. -/
theorem arrivalLaw_iff (cfg : Settings) (lib : JsonTexts) (hpoll : 0 < cfg.poll_ms.toInt) :
    (∀ start polls, start ≤ (polls 0).now → Timely cfg polls →
      ArrivalLaw cfg (rounds cfg lib start polls)) ↔
        cfg.hold_sec.toInt * 1000 ≤ cfg.poll_ms.toInt := by
  have hunits : cfg.hold_sec.toInt * 1000 ≤ cfg.poll_ms.toInt ↔ cfg.hold ≤ cfg.poll := by
    rw [Settings.hold, Settings.poll]
    omega
  have hpos : 0 < cfg.poll := by
    rw [Settings.poll]
    omega
  rw [hunits]
  constructor
  · intro hlaw
    by_contra hlong
    exact twoTrains_missed cfg lib (not_le.mp hlong)
      (hlaw 0 _ (by simp [twoTrains]) (timely_twoTrains cfg hpos.le))
  · intro hhold start polls _ htimely
    exact arrivalLaw_of_heard hpos htimely fun k _ => not_showing hhold htimely k

theorem arrivalLaw_defaults : ∃ cfg,
    subwaySettings (.obj [("subway_api_key", .str "sample")]) = some (some cfg) ∧
      ∀ start polls, start ≤ (polls 0).now → Timely cfg polls →
        ArrivalLaw cfg (rounds cfg noTexts start polls) :=
  ⟨⟨"sample", 15000, 5, 4, 0, by decide⟩, rfl,
    (arrivalLaw_iff _ noTexts (by decide)).mpr (by decide)⟩

def fastPolls : Settings := ⟨"sample", 1000, 5, 4, 0, by decide⟩

/-- Polls each second and a hold time of five miss the second train. -/
theorem fastPolls_missed : ¬∀ start polls, start ≤ (polls 0).now → Timely fastPolls polls →
    ArrivalLaw fastPolls (rounds fastPolls noTexts start polls) := by
  intro hlaw
  exact twoTrains_missed fastPolls noTexts (by decide)
    (hlaw 0 _ (by decide) (timely_twoTrains fastPolls (by decide)))

end JeogiAt.Subway
