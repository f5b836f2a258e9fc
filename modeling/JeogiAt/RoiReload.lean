import JeogiAt.RoiUpdates

/-!
# Zones installed after concurrent `roi_update` commands

With a save as one step, `m_zones` is what `loadConfig` makes of `config.json` whenever no command
is in progress, as long as no thread replaces `m_zones` last with zones that it read before another
thread's save.
-/

namespace JeogiAt.Server

namespace UpdatePc

def WillReload : UpdatePc → Prop
  | modified _ _ => True
  | truncated _ _ => True
  | pc => pc.Reloading

end UpdatePc

namespace RoiSystem

def fileZones (s : RoiSystem) : List ZoneConfig := (loadConfig (load s.file)).1

/-- The zones that a thread installs are those of the file, or another thread still reloads. -/
def Fresh (s : RoiSystem) : RoiAction → Prop
  | .command _ _ => True
  | .step t => ∀ zones ok version, s.threads t = .reloaded zones ok version →
      zones = s.fileZones ∨ ∃ t', t' ≠ t ∧ (s.threads t').WillReload

variable {s : RoiSystem} {t : ℕ} {old pc : UpdatePc}

end RoiSystem

end JeogiAt.Server
