import JeogiAt.Library.Json
import JeogiAt.UartHandler

/-!
# Congestion levels from the message to the panel

`DisplayCallback` takes the levels of a message as 32-bit numbers, the sender cuts each of them to a
byte, and the handler tests the bytes. So a level that is not 0, 1 or 2 gets to the panel if its low
byte is one of these.
-/

namespace JeogiAt.Communication

open Uart

/-- The loop over `data["levels"]`; `none` for an element that is no integer. -/
def readLevels : List Json → Option (List Int32)
  | [] => some []
  | .int n :: items => (readLevels items).map (Int32.ofInt n :: ·)
  | _ :: _ => none

/-- `DisplayCallback::message_arrived` on a payload that parses: what is written to the UART. -/
def displayMessageArrived (uart_fd : ℤ) (data : Json) : Option (List UInt8) := do
  let type ← data.value "type" "" Json.getString
  if type = "display_control" then
    let action ← data.value "action" "" Json.getString
    if action = "" then none
    else sendToStm32DisplayControl uart_fd action.toUTF8.data.toList
  else
    match data.find? "levels" with
    | some (.arr items) =>
        let levels ← readLevels items
        match data.find? "update_time" with
        | some update_time =>
            -- the lag is only reported, but the conversion may throw
            let _ ← update_time.getFloat
            sendToStm32BulkCongestion uart_fd levels
        | none => sendToStm32BulkCongestion uart_fd levels
    | _ => none

structure IsCongestion (data : Json) (levels : List Int32) : Prop where
  type : ∃ type, data.value "type" "" Json.getString = some type ∧ type ≠ "display_control"
  levels : data.find? "levels" = some (.arr (levels.map fun level => .int level.toInt))
  update_time : ∀ t, data.find? "update_time" = some t → ∃ n, t = .int n

theorem readLevels_levels (levels : List Int32) :
    readLevels (levels.map fun level => .int level.toInt) = some levels := by
  induction levels with
  | nil => rfl
  | cons level levels ih => rw [List.map_cons, readLevels, ih, Int32.ofInt_toInt, Option.map_some]

theorem displayMessageArrived_levels {data : Json} {levels : List Int32}
    (h : IsCongestion data levels) (uart_fd : ℤ) :
    displayMessageArrived uart_fd data = sendToStm32BulkCongestion uart_fd levels := by
  obtain ⟨type, htype, hne⟩ := h.type
  simp only [displayMessageArrived, htype, Option.bind_eq_bind, Option.bind_some, if_neg hne,
    h.levels, readLevels_levels]
  cases htime : data.find? "update_time" with
  | none => rfl
  | some t =>
    obtain ⟨n, rfl⟩ := h.update_time t htime
    rfl

/-- What `CongestionPublisher::run` publishes. -/
def congestionMessage (levels : List Int32) (update_time : ℤ) : Json :=
  .obj [("levels", .arr (levels.map fun level => .int level.toInt)),
    ("zone_count", .int levels.length), ("update_time", .int update_time)]

theorem isCongestion_message (levels : List Int32) (update_time : ℤ) :
    IsCongestion (congestionMessage levels update_time) levels where
  type := ⟨"", rfl, by decide⟩
  levels := rfl
  update_time := fun _ ht => ⟨update_time, (Option.some.inj ht).symm⟩

/-- `static_cast<uint8_t>(level)` -/
def narrow (level : Int32) : UInt8 := level.toUInt32.toUInt8

theorem bulkCongestion_eq_frame {uart_fd : ℤ} (hfd : 0 ≤ uart_fd) {levels : List Int32}
    (hne : levels ≠ []) (hle : levels.length ≤ 8) :
    ∃ c : Command, sendToStm32BulkCongestion uart_fd levels = some c.frame ∧ c.cmd = cmdSetLed ∧
      c.data = levels.map narrow := by
  have hlen : (levels.map narrow).length ≤ 255 := by
    rw [List.length_map]
    omega
  have hguard : ¬ (uart_fd < 0 ∨ levels = [] ∨ 8 < levels.length) := by
    rintro (hlt | hnil | hlt)
    · omega
    · exact hne hnil
    · omega
  refine ⟨⟨cmdSetLed, levels.map narrow, hlen⟩, ?_, rfl, rfl⟩
  rw [sendToStm32BulkCongestion, if_neg hguard]
  exact congrArg some (pushed_eq_frame ⟨cmdSetLed, levels.map narrow, hlen⟩)

end JeogiAt.Communication

namespace JeogiAt.Uart

open Audio Communication Display

/-- A message of the display's topics is handled on the Pi, what is written arrives, and the
firmware handles it. -/
def Device.afterMessage {W : Type*} (E : Env W) (w : Surroundings) (uart_fd : ℤ) (d : Device W)
    (data : Json) : Device W :=
  match displayMessageArrived uart_fd data with
  | some bytes => d.deliver E w bytes
  | none => d

theorem toList_levels {pkt : Packet} (h : pkt.len = 8) : pkt.levels.toList = pkt.payload := by
  have hlen : pkt.len.toNat = 8 := by rw [h]; rfl
  apply List.ext_getElem
  · rw [Vector.length_toList, pkt.length_payload, hlen]
  · intro i hi hi'
    simp only [Packet.levels, Packet.payload, Vector.getElem_toList, Vector.getElem_ofFn,
      List.getElem_take]
    rfl

def validBytes (data : List UInt8) : Bool := data.length = 8 && data.all (· ≤ 2)

theorem validBytes_iff (data : List UInt8) :
    validBytes data = true ↔ data.length = 8 ∧ ∀ level ∈ data, level ≤ 2 := by
  rw [validBytes, Bool.and_eq_true, decide_eq_true_iff, List.all_eq_true]
  simp only [decide_eq_true_iff]

theorem status_processSetLed {W : Type*} (w : Surroundings) (b : Board W) (pkt : Packet) :
    (processSetLed w b pkt).1.display.congestion_status.toList =
      if validBytes pkt.payload then pkt.payload
      else b.display.congestion_status.toList := by
  have hvalid := validBytes_iff pkt.payload
  rw [pkt.length_payload] at hvalid
  rw [processSetLed]
  by_cases hlen : pkt.len = 8
  · have hany := pkt.any_levels_iff
    simp only [← Vector.mem_toList_iff, toList_levels hlen] at hany
    have hlength : pkt.len.toNat = 8 := by rw [hlen]; rfl
    rw [if_neg (not_not.mpr hlen)]
    by_cases hlevels : ∀ level ∈ pkt.payload, level ≤ 2
    · rw [if_neg fun h => hany.mp h hlevels, if_pos (hvalid.mpr ⟨hlength, hlevels⟩),
        MatrixRun.congestion_setCongestionBulk, toList_levels hlen]
    · rw [if_pos (hany.mpr hlevels), if_neg fun h => hlevels (hvalid.mp h).2]
  · rw [if_pos hlen, if_neg fun h => hlen (UInt8.toNat_inj.mp (hvalid.mp h).1)]

theorem status_afterMessage {W : Type*} (E : Env W) (w : Surroundings) {uart_fd : ℤ}
    (hfd : 0 ≤ uart_fd) {d : Device W} (hrx : d.rx.rxState = .waitStx) {data : Json}
    {levels : List Int32} (h : IsCongestion data levels) :
    (d.afterMessage E w uart_fd data).board.display.congestion_status.toList =
      if validBytes (levels.map narrow) then levels.map narrow
      else d.board.display.congestion_status.toList := by
  rw [Device.afterMessage, displayMessageArrived_levels h]
  by_cases hsent : levels ≠ [] ∧ levels.length ≤ 8
  · obtain ⟨c, hframe, hcmd, hdata⟩ := bulkCongestion_eq_frame hfd hsent.1 hsent.2
    obtain ⟨pkt, rfl, hboard⟩ := deliver_frame E w hrx c
    have hpayload : pkt.payload = levels.map narrow := hdata
    rw [hframe]
    dsimp only
    rw [hboard, process_setLed E w d.board hcmd, status_processSetLed, hpayload]
  · have hnone : sendToStm32BulkCongestion uart_fd levels = none := by
      rw [sendToStm32BulkCongestion, if_pos]
      rw [not_and_or, not_not, Nat.not_le] at hsent
      exact .inr hsent
    have hinvalid : ¬ validBytes (levels.map narrow) = true := by
      rw [validBytes_iff, List.length_map]
      rintro ⟨height, -⟩
      refine hsent ⟨?_, height.le⟩
      rintro rfl
      cases height
    rw [hnone, if_neg hinvalid]

def LevelsValid (levels : List Int32) : Prop :=
  levels.length = 8 ∧ ∀ level ∈ levels, level ∈ [0, 1, 2]

/-- The levels of a message are shown if they are valid, and otherwise nothing changes. -/
structure LevelsCarried (levels : List Int32) (status status' : Vector UInt8 8) : Prop where
  valid : LevelsValid levels →
    status'.toList.map (fun level => (level.toNat : ℤ)) = levels.map Int32.toInt
  invalid : ¬ LevelsValid levels → status' = status

/-- Eight levels that are not valid, with low bytes that are and that the panel does not show. -/
structure Aliased (levels : List Int32) (status : Vector UInt8 8) : Prop where
  invalid : ¬ LevelsValid levels
  low_bytes : validBytes (levels.map narrow)
  ne : levels.map narrow ≠ status.toList

theorem narrow_valid {level : Int32} (h : level ∈ [0, 1, 2]) :
    narrow level ≤ 2 ∧ ((narrow level).toNat : ℤ) = level.toInt := by
  simp only [List.mem_cons, List.not_mem_nil, or_false] at h
  rcases h with rfl | rfl | rfl
  · exact ⟨by decide, rfl⟩
  · exact ⟨by decide, rfl⟩
  · exact ⟨by decide, rfl⟩

theorem LevelsValid.validBytes {levels : List Int32} (h : LevelsValid levels) :
    validBytes (levels.map narrow) = true := by
  rw [validBytes_iff, List.length_map, List.forall_mem_map]
  exact ⟨h.1, fun level hl => (narrow_valid (h.2 level hl)).1⟩

/-- The levels of a congestion message reach the panel as they are or not at all, exactly when they
are not taken for others by their low bytes. -/
theorem levels_carried_iff {W : Type*} (E : Env W) (w : Surroundings) {uart_fd : ℤ}
    (hfd : 0 ≤ uart_fd) {d : Device W} (hrx : d.rx.rxState = .waitStx) {data : Json}
    {levels : List Int32} (h : IsCongestion data levels) :
    LevelsCarried levels d.board.display.congestion_status
        (d.afterMessage E w uart_fd data).board.display.congestion_status ↔
      ¬ Aliased levels d.board.display.congestion_status := by
  have hstatus := status_afterMessage E w hfd hrx h
  constructor
  · intro hcarried haliased
    have hsame := hcarried.invalid haliased.invalid
    rw [if_pos haliased.low_bytes, hsame] at hstatus
    exact haliased.ne hstatus.symm
  · intro hclear
    constructor
    · intro hvalid
      rw [hstatus, if_pos hvalid.validBytes, List.map_map]
      exact List.map_congr_left fun level hl => (narrow_valid (hvalid.2 level hl)).2
    · intro hinvalid
      rw [← Vector.toList_inj, hstatus]
      split_ifs with hlow
      · by_contra hne
        exact hclear ⟨hinvalid, hlow, hne⟩
      · rfl

theorem levels_carried_crowded :
    (0 : ℤ) ≤ 3 ∧ (Device.start ()).rx.rxState = .waitStx ∧
      LevelsCarried [0, 1, 2, 0, 1, 2, 0, 1] (Device.start ()).board.display.congestion_status
        ((Device.start ()).afterMessage noCard .bare 3
          (congestionMessage [0, 1, 2, 0, 1, 2, 0, 1] 0)).board.display.congestion_status := by
  refine ⟨by omega, rfl, (levels_carried_iff noCard .bare (by omega) rfl
    (isCongestion_message _ 0)).mpr fun haliased => haliased.invalid ⟨rfl, ?_⟩⟩
  simp

theorem levels_256_shown :
    ¬ ∀ (E : Env Unit) (w : Surroundings) (uart_fd : ℤ), 0 ≤ uart_fd →
      ∀ (d : Device Unit), d.rx.rxState = .waitStx → ∀ (data : Json) (levels : List Int32),
        IsCongestion data levels → LevelsCarried levels d.board.display.congestion_status
          (d.afterMessage E w uart_fd data).board.display.congestion_status := by
  intro hall
  let levels : List Int32 := List.replicate 8 256
  have hmessage := isCongestion_message levels 0
  have hcarried := hall noCard .bare 3 (by omega) (Device.start ()) rfl _ levels hmessage
  have hinvalid : ¬ LevelsValid levels := by
    rintro ⟨-, hmem⟩
    exact absurd (hmem 256 List.mem_cons_self) (by decide)
  have hsame := congrArg Vector.toList (hcarried.invalid hinvalid)
  rw [status_afterMessage noCard .bare (by omega) rfl hmessage, if_pos (by decide)] at hsame
  exact absurd hsame (by decide)

end JeogiAt.Uart
