import JeogiAt.CommandHandler
import JeogiAt.Library.Refill

/-!
# A reload of the zones

`loadConfig` clears `m_zones` and then reads the zones of the file one after another. The exception
at a malformed zone leaves the zones before it, and the handler of the command only logs it. So the
reload is all or nothing exactly when every zone can be read, or the zones before the first bad one
are those that the analyzer had.
-/

namespace JeogiAt.Server

open Refill

theorem parseZones_eq_refill (items : List Json) : parseZones items = refill parseZone items := by
  induction items with
  | nil => rfl
  | cons item items ih =>
    rw [parseZones, refill, ih]
    cases parseZone item with
    | none => rfl
    | some zone => rfl

/-- A reload installs all zones of the file, or fails and leaves `m_zones`. -/
theorem loadConfig_atomic_iff (file : Option Json) (m_zones : List ZoneConfig) :
    AllOrNothing parseZone (zonesOf (load file)) m_zones (loadConfig (load file)) ↔
      (∀ item ∈ zonesOf (load file), parseZone item ≠ none) ∨
        StopsAfter parseZone (zonesOf (load file)) m_zones := by
  rw [loadConfig, parseZones_eq_refill, allOrNothing_iff, mapM_ne_none_iff]

def badZones : Json := .obj [("zones", .arr [.obj [("zone_id", .str "x")]])]

/-- The zones that the analyzer had are lost. -/
theorem badZones_clear :
    ¬ ∀ (file : Option Json) (m_zones : List ZoneConfig),
      AllOrNothing parseZone (zonesOf (load file)) m_zones (loadConfig (load file)) := by
  intro hall
  have hresult : loadConfig (load (some badZones)) = ([], false) := rfl
  rcases hall (some badZones) defaultZones with ⟨hreturns, -⟩ | ⟨-, hzones⟩
  · rw [hresult] at hreturns
    exact Bool.false_ne_true hreturns
  · rw [hresult] at hzones
    exact List.cons_ne_nil _ _ hzones.symm

end JeogiAt.Server
