import JeogiAt.HandlerReplies

/-!
# The command language of `CMD_DISPLAY_CTRL`

The handler makes a C string of the data, compares it with `"0"`, and reads anything else with
`atoi`. So it follows the language `"0"` to `"4"` exactly for the data that are one of these
strings, and for those whose text up to the first NUL is neither `"0"` nor spells a number from 1 to
4, be it with blanks or a plus before it, or with other characters behind it.
-/

namespace JeogiAt.Uart

open Audio Decimal Display

section

variable {W : Type*} (E : Env W) (w : Surroundings) (b : Board W) (pkt : Packet)

/-- `"0"` starts the cycle, `"1"` to `"4"` select a screen, and everything else is an error. -/
structure ControlLaw (result : Board W × List (List UInt8)) : Prop where
  cycle : pkt.payload = [digit 0] → result =
    ({ b with display := b.display.setAutoCycle true w.tick w.tick' }, [(ack pkt.cmd).frame])
  screen : ∀ k < 4, pkt.payload = [digit (k + 1)] → result =
    ({ b with display := b.display.setScreen (UInt8.ofNat k) w.tick }, [(ack pkt.cmd).frame])
  other : (∀ k < 5, pkt.payload ≠ [digit k]) →
    result = (b, [(nack pkt.cmd errInvalidData).frame])

def TakenForControl : Prop :=
  pkt.text = [digit 0] ∨ ∃ k, 1 ≤ k ∧ k ≤ 4 ∧ Spells k pkt.text

def IsControl : Prop := ∃ k < 5, pkt.payload = [digit k]

variable {pkt}

theorem digit_ne_zero {k : ℕ} (h : k < 10) : digit k ≠ 0 := by
  intro hzero
  have hnat := congrArg UInt8.toNat hzero
  rw [toNat_digit h] at hnat
  exact absurd hnat (Nat.ne_of_gt (Nat.lt_of_lt_of_le (by decide) (Nat.le_add_right 0x30 k)))

theorem text_of_digit {k : ℕ} (h : k < 10) (hpayload : pkt.payload = [digit k]) :
    pkt.text = [digit k] := by
  rw [Packet.text, hpayload]
  exact List.takeWhile_cons_of_pos (decide_eq_true (digit_ne_zero h))

theorem atoi_digit {k : ℕ} (h0 : 0 < k) (h : k < 10) : atoi [digit k] = k :=
  (atoi_eq_iff h0 h _).mpr
    ⟨[], [], 0, [], rfl, fun _ hb => absurd hb List.not_mem_nil, .inl rfl,
      fun _ hb => absurd hb (Option.not_mem_none _)⟩

theorem atoi_range_iff (s : List UInt8) :
    1 ≤ atoi s ∧ atoi s ≤ 4 ↔ ∃ k, 1 ≤ k ∧ k ≤ 4 ∧ Spells k s := by
  constructor
  · rintro ⟨hlow, hhigh⟩
    refine ⟨(atoi s).toNat, by omega, by omega, ?_⟩
    rw [← atoi_eq_iff (by omega) (by omega)]
    exact (Int.toNat_of_nonneg (by omega)).symm
  · rintro ⟨k, hlow, hhigh, hspells⟩
    rw [← atoi_eq_iff (by omega) (by omega)] at hspells
    omega

theorem process_taken (hcmd : pkt.cmd = cmdDisplayCtrl) (h : TakenForControl pkt) :
    (process E w b pkt).2 = [(ack pkt.cmd).frame] := by
  rw [process_displayCtrl E w b hcmd, processDisplayCtrl_eq, sendAck_eq_frame]
  by_cases hcycle : pkt.text = [digit 0]
  · rw [if_pos hcycle]
  · rw [if_neg hcycle, if_pos ((atoi_range_iff _).mpr (h.resolve_left hcycle))]

theorem process_refused (hcmd : pkt.cmd = cmdDisplayCtrl) (h : ¬ TakenForControl pkt) :
    process E w b pkt = (b, [(nack pkt.cmd errInvalidData).frame]) := by
  rw [TakenForControl, not_or, ← atoi_range_iff] at h
  rw [process_displayCtrl E w b hcmd, processDisplayCtrl_eq, if_neg h.1, if_neg h.2,
    sendNack_eq_frame]

theorem process_control (hcmd : pkt.cmd = cmdDisplayCtrl) (h : IsControl pkt) :
    ControlLaw w b pkt (process E w b pkt) := by
  rw [process_displayCtrl E w b hcmd, processDisplayCtrl_eq, sendAck_eq_frame]
  constructor
  · intro hpayload
    rw [if_pos (text_of_digit (by omega) hpayload)]
  · intro k hk hpayload
    have htext := text_of_digit (by omega) hpayload
    have hatoi := @atoi_digit (k + 1) (by omega) (by omega)
    have hcycle : [digit (k + 1)] ≠ [digit 0] := by
      intro heq
      rw [heq] at hatoi
      have hzero : atoi [digit 0] = 0 := rfl
      omega
    rw [htext, if_neg hcycle, if_pos (by omega), hatoi, Nat.cast_add, Nat.cast_one,
      Int.add_sub_cancel, Int.toNat_natCast]
  · intro hother
    obtain ⟨k, hk, hpayload⟩ := h
    exact absurd hpayload (hother k hk)

end

/-- The handler follows the command language exactly for its strings and for the data that it does
not take for one of them. -/
theorem controlLaw_iff {W : Type*} (E : Env W) (w : Surroundings) (b : Board W) {pkt : Packet}
    (hcmd : pkt.cmd = cmdDisplayCtrl) :
    ControlLaw w b pkt (process E w b pkt) ↔ IsControl pkt ∨ ¬ TakenForControl pkt := by
  constructor
  · intro hlaw
    by_contra hnot
    rw [not_or, not_not] at hnot
    have hother := hlaw.other fun k hk hpayload => hnot.1 ⟨k, hk, hpayload⟩
    have hack := process_taken E w b hcmd hnot.2
    rw [hother] at hack
    exact ack_ne_nack _ _ _ hack.symm
  · rintro (hcontrol | hrefused)
    · exact process_control E w b hcmd hcontrol
    · have hresult := process_refused E w b hcmd hrefused
      refine ⟨fun hpayload => ?_, fun k hk hpayload => ?_, fun _ => hresult⟩
      · exact absurd (.inl (text_of_digit (by omega) hpayload)) hrefused
      · have hatoi := @atoi_digit (k + 1) (by omega) (by omega)
        rw [← text_of_digit (by omega) hpayload] at hatoi
        exact absurd (.inr ((atoi_range_iff _).mp (by omega))) hrefused

def trailingText : Packet := ⟨cmdDisplayCtrl, 2, (Vector.replicate _ 0x61).set 0 0x31, 0⟩

theorem payload_trailingText : trailingText.payload = [0x31, 0x61] := rfl

theorem controlLaw_trailingText :
    ControlLaw Surroundings.bare (Device.start ()).board trailingText
        (process noCard Surroundings.bare (Device.start ()).board trailingText) ↔
      IsControl trailingText ∨ ¬ TakenForControl trailingText :=
  controlLaw_iff noCard Surroundings.bare (Device.start ()).board rfl

/-- The handler takes `1a` for `1`. -/
theorem trailingText_acknowledged :
    ¬ ∀ pkt : Packet, pkt.cmd = cmdDisplayCtrl → pkt.len ≠ 0 →
      ControlLaw Surroundings.bare (Device.start ()).board pkt
        (process noCard Surroundings.bare (Device.start ()).board pkt) := by
  intro hall
  have hlaw := hall trailingText rfl (by decide)
  have htext : trailingText.text = [0x31, 0x61] := by
    rw [Packet.text, payload_trailingText]
    rfl
  have htaken : TakenForControl trailingText := by
    refine .inr ⟨1, by omega, by omega, [], [], 0, [0x61], htext, ?_, .inl rfl, ?_⟩
    · exact fun _ hb => absurd hb List.not_mem_nil
    · rintro _ hb
      cases hb
      rfl
  have hack := process_taken noCard Surroundings.bare (Device.start ()).board rfl htaken
  have hother := hlaw.other fun k _ hpayload => by
    rw [payload_trailingText] at hpayload
    exact Nat.succ_ne_self 1 (congrArg List.length hpayload)
  rw [hother] at hack
  exact ack_ne_nack _ _ _ hack.symm

end JeogiAt.Uart
