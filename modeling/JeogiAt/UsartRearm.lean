import JeogiAt.UsartHal

/-!
# Reception stays armed until a line error

Every event but a line error leaves an armed reception armed: the half-transfer handler does not
end it, and the transfer-complete and IDLE handlers end it in the callback that arms it again. A
line error leaves it `Dead`.
-/

namespace JeogiAt.Uart.Usart

open UartHandle

theorem armed_halfTransferIRQ {u : Usart} (h : u.huart.Armed) :
    (halfTransferIRQ u).huart.Armed := by
  obtain ⟨hhuart, -, -⟩ := halfTransferIRQ_listening h.toListening
  rw [hhuart]
  exact { h with }

theorem armed_transferCompleteIRQ {u : Usart} (h : u.huart.Listening) :
    (transferCompleteIRQ u).huart.Armed :=
  (transferCompleteIRQ_listening h).1.toArmed

theorem armed_idleIRQ {u : Usart} (h : u.huart.Armed) : (idleIRQ u).huart.Armed := by
  have hidle := idleIRQ_armed h
  by_cases hlt : u.huart.hdmarx.ndtr < rxBufSize
  · rw [if_pos hlt] at hidle
    exact hidle.1.toArmed
  · rw [if_neg hlt] at hidle
    rw [hidle]
    exact h

theorem armed_receiveByte {u : Usart} (h : u.huart.Armed) (byte : UInt8) :
    (receiveByte u byte).huart.Armed := by
  rw [receiveByte_armed h]
  by_cases hlast : u.huart.hdmarx.ndtr = 1
  · rw [if_pos hlast]
    exact armed_transferCompleteIRQ (landed_listening h.toListening byte)
  · have hlanded := landed_armed h hlast byte
    rw [if_neg hlast]
    by_cases hhalf : u.huart.hdmarx.ndtr = 33
    · rw [if_pos hhalf]
      exact armed_halfTransferIRQ hlanded
    · rw [if_neg hhalf]
      exact hlanded

/-- One event keeps reception armed if and only if it is not a line error. -/
theorem armed_next_iff {u : Usart} (h : u.huart.Armed) (event : UsartEvent) :
    (usart.next u event).huart.Armed ↔ ∀ e, event ≠ .lineError e := by
  cases event with
  | byte byte => exact iff_of_true (armed_receiveByte h byte) nofun
  | halfTransfer => exact iff_of_true (armed_halfTransferIRQ h) nofun
  | transferComplete => exact iff_of_true (armed_transferCompleteIRQ h.toListening) nofun
  | idle => exact iff_of_true (armed_idleIRQ h) nofun
  | lineError e =>
    have hdead : (usart.next u (.lineError e)).huart.Dead := lineErrorIRQ_listening h.toListening e
    exact iff_of_false hdead.not_armed (fun hne => hne e rfl)

/-- Reception is armed throughout a run from `UART_CMD_Init` exactly when the run has no line
error. -/
theorem armed_iff_no_line_error (events : List UsartEvent) :
    (∀ past, past <+: events → (usart.run init past).huart.Armed) ↔
      ∀ e, .lineError e ∉ events := by
  have hexact : (∀ past, past <+: events → (usart.run init past).huart.Armed) ↔
      usart.Along (fun _ event => ∀ e, event ≠ .lineError e) init events := by
    apply Machine.prefixes_iff_along (I := fun past => (usart.run init past).huart.Armed)
      init_fresh.toArmed
    intro past event _ harmed
    rw [Machine.run_concat]
    exact armed_next_iff harmed event
  rw [hexact, Machine.along_input_iff]
  constructor
  · intro h e hmem
    exact h _ hmem e rfl
  · intro h event hmem e he
    exact h e (he ▸ hmem)

/-- One byte with a framing error, and reception is over. -/
theorem framing_error_ends_reception :
    ¬ ∀ (events : List UsartEvent) past, past <+: events →
      (usart.run init past).huart.Armed := by
  intro hall
  have h := hall [.lineError .framing] _ List.prefix_rfl
  exact (lineErrorIRQ_listening init_fresh.toListening .framing).not_armed h

end JeogiAt.Uart.Usart
