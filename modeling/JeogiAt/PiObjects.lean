import JeogiAt.CongestionAnalyzer
import JeogiAt.Library.Json
import JeogiAt.Library.Refill

/-!
# Objects of the Pi cameras

`message_arrived` clears the objects of its node and then reads the blocks of the message one after
another. The exception at a bad block is only logged, and what was pushed before it stays. So a
message replaces the objects or leaves them exactly when all of its blocks can be read, or those
before the first bad one describe the objects that the node had.

`parse` is the parser of the library, `none` for its exceptions. `uninit` is what `objectId` of the
variable `res` holds: no pass of the loop assigns it.
-/

namespace JeogiAt.Server

open Refill

section

variable (parse : List UInt8 → Option Json) (uninit : ℤ)

def readBlock (obj : Json) : Option DetectedObject := do
  let x ← obj.value "x" 0 Json.getFloat
  let y ← obj.value "y" 0 Json.getFloat
  let w ← obj.value "w" 0 Json.getFloat
  let h ← obj.value "h" 0 Json.getFloat
  some ⟨x, y, w, h, "Person", uninit⟩

/-- The loop over `j["blocks"]`, on the cleared list: what is pushed, and whether it ends. -/
def readBlocks (j : Json) : List DetectedObject × Bool :=
  match j.member "blocks" with
  | none => ([], false)
  | some blocks => refill (readBlock uninit) blocks.elements

def describedObjects (j : Json) : Option (List DetectedObject) :=
  (j.member "blocks").bind fun blocks => blocks.elements.mapM (readBlock uninit)

/-- The message ends the loop at a bad block, after blocks that describe these objects. -/
def BreaksAfter (j : Json) (objects : List DetectedObject) : Prop :=
  match j.member "blocks" with
  | none => objects = []
  | some blocks => StopsAfter (readBlock uninit) blocks.elements objects

namespace CameraObjects

def nodeObjects (node_id : String) (cams : CameraObjects) : Option (List DetectedObject) :=
  cams.g_pi_node_map.lookup node_id

def setNodeObjects (node_id : String) (objects : List DetectedObject) (cams : CameraObjects) :
    CameraObjects :=
  { cams with
    g_pi_node_map := cams.g_pi_node_map.map fun node =>
      if node.1 = node_id then (node.1, objects) else node }

theorem nodeObjects_setNodeObjects (node_id k : String) (objects : List DetectedObject)
    (cams : CameraObjects) :
    (cams.setNodeObjects node_id objects).nodeObjects k =
      (cams.nodeObjects k).map fun old => if k = node_id then objects else old := by
  rw [nodeObjects, nodeObjects, setNodeObjects]
  dsimp only
  induction cams.g_pi_node_map with
  | nil => rfl
  | cons node nodes ih =>
    obtain ⟨id, old⟩ := node
    rw [List.map_cons]
    by_cases hk : k = id
    · subst hk
      by_cases hid : k = node_id
      · rw [if_pos hid, Json.lookup_cons_eq, Json.lookup_cons_eq, if_pos rfl, if_pos rfl,
          Option.map_some, if_pos hid]
      · rw [if_neg hid, Json.lookup_cons_eq, Json.lookup_cons_eq, if_pos rfl, if_pos rfl,
          Option.map_some, if_neg hid]
    · by_cases hid : id = node_id
      · rw [if_pos hid, Json.lookup_cons_eq, Json.lookup_cons_eq, if_neg hk, if_neg hk, ih]
      · rw [if_neg hid, Json.lookup_cons_eq, Json.lookup_cons_eq, if_neg hk, if_neg hk, ih]

end CameraObjects

def message_arrived (node_id : String) (payload : List UInt8) (cams : CameraObjects) :
    CameraObjects :=
  match parse payload with
  | none => cams
  | some j =>
      match cams.nodeObjects node_id with
      | none => cams
      | some _ => cams.setNodeObjects node_id (readBlocks uninit j).1

/-- A node has the complete list of the message, or what it had before. -/
def Replaced (message before after : Option (List DetectedObject)) : Prop :=
  (∃ objects, message = some objects ∧ after = some objects) ∨ after = before

variable {parse uninit}

theorem nodeObjects_message {node_id : String} {payload : List UInt8} {cams : CameraObjects}
    {j : Json} {held : List DetectedObject} (hparse : parse payload = some j)
    (hheld : cams.nodeObjects node_id = some held) :
    (message_arrived parse uninit node_id payload cams).nodeObjects node_id =
      some (readBlocks uninit j).1 := by
  rw [message_arrived, hparse, hheld]
  dsimp only
  rw [CameraObjects.nodeObjects_setNodeObjects, hheld, Option.map_some, if_pos rfl]

theorem readBlocks_iff (j : Json) (held : List DetectedObject) :
    Replaced (describedObjects uninit j) (some held) (some (readBlocks uninit j).1) ↔
      describedObjects uninit j ≠ none ∨ BreaksAfter uninit j held := by
  rw [Replaced, describedObjects, readBlocks, BreaksAfter]
  cases j.member "blocks" with
  | none =>
    dsimp only
    rw [Option.bind_none, or_iff_right (by rintro ⟨objects, hnone, -⟩; cases hnone),
      or_iff_right (not_not.mpr rfl), Option.some_inj]
    exact eq_comm
  | some blocks =>
    dsimp only
    rw [Option.bind_some]
    rcases complete_or_stops (readBlock uninit) blocks.elements with ⟨objects, hall⟩ | ⟨objects, h⟩
    · rw [refill_complete hall, hall]
      exact iff_of_true (.inl ⟨objects, rfl, rfl⟩) (.inl (Option.some_ne_none objects))
    · rw [refill_stops h, mapM_of_stops h, stopsAfter_iff h,
        or_iff_right (by rintro ⟨objects, hnone, -⟩; cases hnone), or_iff_right (not_not.mpr rfl),
        Option.some_inj]

end

/-- A message replaces the objects of its node or leaves them, unless a bad block comes after
blocks that describe other objects. -/
theorem message_replaced_iff (parse : List UInt8 → Option Json) (uninit : ℤ) (node_id : String)
    (payload : List UInt8) (cams : CameraObjects) :
    Replaced ((parse payload).bind (describedObjects uninit)) (cams.nodeObjects node_id)
        ((message_arrived parse uninit node_id payload cams).nodeObjects node_id) ↔
      ∀ j ∈ parse payload, ∀ held ∈ cams.nodeObjects node_id,
        describedObjects uninit j ≠ none ∨ BreaksAfter uninit j held := by
  cases hparse : parse payload with
  | none =>
    refine iff_of_true (.inr ?_) fun j hj => absurd hj (Option.not_mem_none j)
    rw [message_arrived, hparse]
  | some j =>
    cases hheld : cams.nodeObjects node_id with
    | none =>
      refine iff_of_true (.inr ?_) fun _ _ held hmem => absurd hmem (Option.not_mem_none held)
      rw [message_arrived, hparse, hheld]
      exact hheld
    | some held =>
      rw [nodeObjects_message hparse hheld, Option.bind_some, readBlocks_iff]
      constructor
      · rintro h _ hj _ hmem
        cases hj
        cases hmem
        exact h
      · intro h
        exact h j rfl held rfl

def badBlocks : List UInt8 := "\x7b\"blocks\":[1]\x7d".toUTF8.data.toList

/-- A node with one object loses it to a message with a bad block. -/
theorem badBlocks_clear :
    ¬ ∀ (parse : List UInt8 → Option Json) (uninit : ℤ) (node_id : String) (payload : List UInt8)
      (cams : CameraObjects),
      Replaced ((parse payload).bind (describedObjects uninit)) (cams.nodeObjects node_id)
        ((message_arrived parse uninit node_id payload cams).nodeObjects node_id) := by
  intro hall
  let parse (payload : List UInt8) : Option Json :=
    if payload = badBlocks then some (.obj [("blocks", .arr [.int 1])]) else none
  have hparse : parse badBlocks = some (.obj [("blocks", .arr [.int 1])]) := if_pos rfl
  have h := hall parse 0 "CAM_01" badBlocks ⟨[], [("CAM_01", [.point 0 0])]⟩
  have hheld : CameraObjects.nodeObjects "CAM_01" ⟨[], [("CAM_01", [.point 0 0])]⟩ =
      some [.point 0 0] := rfl
  rw [nodeObjects_message hparse hheld, hparse, hheld] at h
  rcases h with ⟨objects, hnone, -⟩ | hheld
  · exact Option.some_ne_none objects hnone.symm
  · exact List.cons_ne_nil _ _ (Option.some.inj hheld).symm

end JeogiAt.Server
