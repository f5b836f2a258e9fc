import JeogiAt.CongestionAnalyzer
import JeogiAt.Library.Machine

/-!
# Levels and counts under two acquisitions of the lock

`CongestionAnalyzer::run` replaces the levels and the counts of the eight slots under one
acquisition of `m_level_mutex`. A client's loop reads them with two getters, each of which takes
the mutex by itself: for a `zone_congestion` message the levels first, and for `save_camera_stats`
in either order, as the two are arguments of one call.

What a client gets is consistent exactly when the levels are the same at both of its calls.
-/

namespace JeogiAt.Server

inductive Use
  | zoneCongestion
  | saveCameraStats
  deriving DecidableEq

/-- The levels and counts of one message, or of one call of `save_camera_stats`. -/
structure Snapshot where
  use : Use
  levels : Fin 8 → ℕ
  counts : Fin 8 → ℕ

def Snapshot.Consistent (snapshot : Snapshot) : Prop :=
  ∀ i, snapshot.levels i = calculateLevel (snapshot.counts i)

/-- What a client's loop holds between its two getter calls. `inForce` is not a variable of the
program: it records the levels at the call that fetched the counts. -/
inductive Fetched
  | nothing
  | levels (use : Use) (m_current_levels : Fin 8 → ℕ)
  | counts (m_current_counts inForce : Fin 8 → ℕ)

structure Getters where
  m_current_levels : Fin 8 → ℕ
  m_current_counts : Fin 8 → ℕ
  client : ℕ → Fetched

/-- The last part of a round of `run`, or a getter called by a client's loop. The zones and the
objects of a round are arbitrary. -/
inductive GetterAction
  | update (current_zones : List ZoneConfig) (cams : CameraObjects)
  | getCongestionLevels (client : ℕ) (use : Use)
  | getCongestionCounts (client : ℕ) (use : Use)

namespace Getters

def init : Getters := ⟨fun _ => 0, fun _ => 0, fun _ => .nothing⟩

def update (s : Getters) (temp_counts : Fin 8 → ℕ) : Getters :=
  { s with
    m_current_counts := temp_counts
    m_current_levels := fun i => calculateLevel (temp_counts i) }

def setClient (s : Getters) (t : ℕ) (fetched : Fetched) : Getters :=
  { s with client := Function.update s.client t fetched }

/-- A client calls a getter only where its code does: `zone_congestion` starts with the levels, and
the second call is the other getter. -/
def step (s : Getters) : GetterAction → Getters × Option Snapshot
  | .update current_zones cams => (s.update (tempCounts current_zones cams), none)
  | .getCongestionLevels t use =>
      match s.client t with
      | .nothing => (s.setClient t (.levels use s.m_current_levels), none)
      | .levels _ _ => (s, none)
      | .counts counts _ =>
          (s.setClient t .nothing, some ⟨.saveCameraStats, s.m_current_levels, counts⟩)
  | .getCongestionCounts t use =>
      match s.client t with
      | .nothing =>
          (if use = .saveCameraStats then
            s.setClient t (.counts s.m_current_counts s.m_current_levels)
          else s, none)
      | .levels use levels => (s.setClient t .nothing, some ⟨use, levels, s.m_current_counts⟩)
      | .counts _ _ => (s, none)

/-- The levels in force when the first of a client's two calls was made, where the action is its
second call. -/
def levelsAtFirst (s : Getters) : GetterAction → Option (Fin 8 → ℕ)
  | .update _ _ => none
  | .getCongestionLevels t _ =>
      match s.client t with
      | .counts _ inForce => some inForce
      | _ => none
  | .getCongestionCounts t _ =>
      match s.client t with
      | .levels _ levels => some levels
      | _ => none

def Unchanged (s : Getters) (action : GetterAction) : Prop :=
  ∀ levels, s.levelsAtFirst action = some levels → ∀ i, levels i = s.m_current_levels i

def InForce (s : Getters) : Prop :=
  ∀ i, s.m_current_levels i = calculateLevel (s.m_current_counts i)

/-- The levels recorded with counts that were fetched belong to them. -/
def Recorded (s : Getters) : Prop :=
  ∀ t counts inForce, s.client t = .counts counts inForce →
    ∀ i, inForce i = calculateLevel (counts i)

end Getters

def getters : Machine Getters GetterAction (Option Snapshot) := ⟨Getters.step⟩

namespace Getters

theorem inForce_init : init.InForce := fun _ => rfl

theorem inForce_next {s : Getters} (h : s.InForce) (action : GetterAction) :
    (getters.next s action).InForce := by
  cases action with
  | update current_zones cams => exact fun _ => rfl
  | getCongestionLevels t use =>
    simp only [Machine.next, getters, step]
    split <;> exact h
  | getCongestionCounts t use =>
    simp only [Machine.next, getters, step]
    split
    · dsimp only
      split_ifs <;> exact h
    · exact h
    · exact h

theorem recorded_init : init.Recorded := fun _ _ _ h => by cases h

theorem Recorded.setClient {s : Getters} (h : s.Recorded) (t : ℕ) {fetched : Fetched}
    (hfetched : ∀ counts inForce, fetched = .counts counts inForce →
      ∀ i, inForce i = calculateLevel (counts i)) : (s.setClient t fetched).Recorded := by
  intro t' counts inForce hclient
  rw [Getters.setClient] at hclient
  dsimp only at hclient
  by_cases hsame : t' = t
  · rw [hsame, Function.update_self] at hclient
    exact hfetched counts inForce hclient
  · rw [Function.update_of_ne hsame] at hclient
    exact h t' counts inForce hclient

theorem recorded_next {s : Getters} (hforce : s.InForce) (h : s.Recorded)
    (action : GetterAction) : (getters.next s action).Recorded := by
  cases action with
  | update current_zones cams => exact h
  | getCongestionLevels t use =>
    cases hclient : s.client t with
    | nothing =>
      simp only [Machine.next, getters, step, hclient]
      exact h.setClient t fun _ _ heq => by cases heq
    | levels use levels =>
      simp only [Machine.next, getters, step, hclient]
      exact h
    | counts counts inForce =>
      simp only [Machine.next, getters, step, hclient]
      exact h.setClient t fun _ _ heq => by cases heq
  | getCongestionCounts t use =>
    cases hclient : s.client t with
    | nothing =>
      simp only [Machine.next, getters, step, hclient]
      split_ifs
      · refine h.setClient t fun counts inForce heq => ?_
        cases heq
        exact hforce
      · exact h
    | levels use levels =>
      simp only [Machine.next, getters, step, hclient]
      exact h.setClient t fun _ _ heq => by cases heq
    | counts counts inForce =>
      simp only [Machine.next, getters, step, hclient]
      exact h

/-- A snapshot is consistent exactly when its second call finds the levels of the first. -/
theorem consistent_output_iff {s : Getters} (h : s.InForce) (hrecorded : s.Recorded)
    (action : GetterAction) :
    (∀ snapshot, getters.output s action = some snapshot → snapshot.Consistent) ↔
      s.Unchanged action := by
  cases action with
  | update current_zones cams => simp [Machine.output, getters, step, Unchanged, levelsAtFirst]
  | getCongestionLevels t use =>
    cases hclient : s.client t with
    | nothing => simp [Machine.output, getters, step, Unchanged, levelsAtFirst, hclient]
    | levels use levels =>
      simp [Machine.output, getters, step, Unchanged, levelsAtFirst, hclient]
    | counts counts inForce =>
      simp only [Machine.output, getters, step, Unchanged, levelsAtFirst, hclient,
        Option.some.injEq, forall_eq', Snapshot.Consistent]
      exact forall_congr' fun i => by rw [hrecorded t counts inForce hclient i, eq_comm]
  | getCongestionCounts t use =>
    cases hclient : s.client t with
    | nothing => simp [Machine.output, getters, step, Unchanged, levelsAtFirst, hclient]
    | levels use levels =>
      simp only [Machine.output, getters, step, Unchanged, levelsAtFirst, hclient,
        Option.some.injEq, forall_eq', Snapshot.Consistent]
      exact forall_congr' fun i => by rw [h i]
    | counts counts inForce =>
      simp [Machine.output, getters, step, Unchanged, levelsAtFirst, hclient]

/-- In every interleaving, all messages and all rows carry levels that belong to their counts
exactly when between the two getter calls of a client the levels come back unchanged. -/
theorem snapshots_consistent_iff (schedule : List GetterAction) :
    (∀ out ∈ getters.trace init schedule, ∀ snapshot, out = some snapshot →
        snapshot.Consistent) ↔
      getters.Along Unchanged init schedule :=
  Machine.forall_trace_iff_along (I := fun s => s.InForce ∧ s.Recorded)
    (fun _ action h => ⟨⟨inForce_next h.1 action, recorded_next h.1 h.2 action⟩,
      consistent_output_iff h.1 h.2 action⟩) ⟨inForce_init, recorded_init⟩

/-- The first person enters zone 1 between the two calls: the message says level 0, count 1. -/
theorem update_between_getters :
    ¬ ∀ schedule : List GetterAction,
      ∀ out ∈ getters.trace init schedule, ∀ snapshot, out = some snapshot →
        snapshot.Consistent := by
  intro hall
  let zone : ZoneConfig := ⟨1, "hanwha", 0, 0, 1, 1⟩
  let cams : CameraObjects := ⟨[.point 0.1 0.5], []⟩
  have hmem : some ⟨.zoneCongestion, fun _ => 0, tempCounts [zone] cams⟩ ∈
      getters.trace init [.getCongestionLevels 0 .zoneCongestion, .update [zone] cams,
        .getCongestionCounts 0 .zoneCongestion] := by
    simp [getters, step, init, update, setClient, Machine.next, Machine.output]
  have hin : isInside (.point 0.1 0.5) zone := by norm_num [isInside, zone]
  have hcount : tempCounts [zone] cams 0 = 1 := by
    simp [tempCounts, cams, countZone, hin, ZoneConfig.slot, zone]
  have hlevel : 0 = calculateLevel (tempCounts [zone] cams 0) := hall _ _ hmem _ rfl 0
  rw [hcount] at hlevel
  cases hlevel

end Getters

end JeogiAt.Server
