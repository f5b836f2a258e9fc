import JeogiAt.UsartHal

/-!
# What reception hands to the receiver

`window` is reception seen from the line: the bytes held since the transfer was armed, and at each
event the bytes that the callback feeds. The half-transfer event feeds the first half without
letting go of it, so a burst that reaches it is fed again from its first byte, and the bytes fed
are those received exactly when every burst is shorter than half the buffer.
-/

namespace JeogiAt.Uart

inductive LineEvent
  | byte (byte : UInt8)
  | idle

def LineEvent.toUsart : LineEvent → UsartEvent
  | .byte b => .byte b
  | .idle => .idle

def burst (bytes : List UInt8) : List LineEvent := bytes.map .byte ++ [.idle]

namespace Window

def step (held : List UInt8) : LineEvent → List UInt8 × List UInt8
  | .byte byte =>
      let held := held ++ [byte]
      if held.length = rxBufSize then ([], held)
      else (held, if held.length = rxBufSize / 2 then held else [])
  | .idle => ([], held)

end Window

def window : Machine (List UInt8) LineEvent (List UInt8) := ⟨Window.step⟩

namespace Window

theorem next_byte (held : List UInt8) (byte : UInt8) :
    window.next held (.byte byte) = if held.length + 1 = 64 then [] else held ++ [byte] := by
  simp only [Machine.next, window, step, List.length_append, List.length_singleton]
  split_ifs <;> rfl

theorem output_byte (held : List UInt8) (byte : UInt8) :
    window.output held (.byte byte) =
      if held.length + 1 = 64 ∨ held.length + 1 = 32 then held ++ [byte] else [] := by
  simp only [Machine.output, window, step, List.length_append, List.length_singleton]
  by_cases hfull : held.length + 1 = 64
  · rw [if_pos hfull, if_pos (Or.inl hfull)]
  · rw [if_neg hfull]
    simp only [hfull, false_or]
    rfl

end Window

namespace Usart

open UartHandle

/-- The transfer has put `held` at the front of the buffer, and its half-transfer interrupt is
enabled until half of it has come. -/
structure Receiving (u : Usart) (held : List UInt8) : Prop where
  armed : u.huart.Armed
  ndtr_eq : u.huart.hdmarx.ndtr + held.length = rxBufSize
  htie_eq : u.huart.hdmarx.htie = decide (held.length < rxBufSize / 2)
  held_eq : u.rxBuf.toList.take held.length = held

theorem Receiving.length_lt {u : Usart} {held : List UInt8} (h : u.Receiving held) :
    held.length < rxBufSize := by
  have hpos := h.armed.ndtr_pos
  have hsum := h.ndtr_eq
  omega

theorem receiving_of_fresh {u : Usart} (h : u.huart.Fresh) : u.Receiving [] where
  armed := h.toArmed
  ndtr_eq := h.ndtr_full
  htie_eq := h.htie
  held_eq := rfl

theorem take_landed {u : Usart} {held : List UInt8} (h : u.Receiving held) (byte : UInt8) :
    (u.landed byte).rxBuf.toList.take (held.length + 1) = held ++ [byte] := by
  have hlt := h.length_lt
  have hidx : rxBufSize - u.huart.hdmarx.ndtr = held.length := by
    have hsum := h.ndtr_eq
    omega
  have hin : held.length < (u.rxBuf.toList.set held.length byte).length := by
    rw [List.length_set, Vector.length_toList]
    exact hlt
  rw [landed, hidx, Vector.setIfInBounds, Vector.toList_mk, Array.toList_setIfInBounds,
    Vector.toList_toArray, List.take_succ_eq_append_getElem hin, List.take_set_of_le le_rfl,
    List.getElem_set_self, h.held_eq]

theorem receiving_byte {u : Usart} {held : List UInt8} (h : u.Receiving held) (byte : UInt8) :
    (receiveByte u byte).Receiving (window.next held (.byte byte)) ∧
      (receiveByte u byte).fed = u.fed ++ window.output held (.byte byte) := by
  have hsize : rxBufSize = 64 := rfl
  have hlt := h.length_lt
  have hsum := h.ndtr_eq
  have htake := take_landed h byte
  have hlen : (held ++ [byte]).length = held.length + 1 := by
    rw [List.length_append, List.length_singleton]
  have hlast : u.huart.hdmarx.ndtr = 1 ↔ held.length + 1 = 64 := by omega
  have hhalf : u.huart.hdmarx.ndtr = 33 ↔ held.length + 1 = 32 := by omega
  simp only [receiveByte_armed h.armed, hlast, hhalf, Window.next_byte, Window.output_byte]
  by_cases hfull : held.length + 1 = 64
  · obtain ⟨hfresh, hfed⟩ :=
      transferCompleteIRQ_listening (landed_listening h.armed.toListening byte)
    rw [hfull] at htake
    rw [if_pos hfull, if_pos hfull, if_pos (Or.inl hfull), hfed, htake]
    exact ⟨receiving_of_fresh hfresh, rfl⟩
  · have hlanded := landed_armed h.armed (fun h1 => hfull (hlast.mp h1)) byte
    have hndtr : (u.landed byte).huart.hdmarx.ndtr + (held ++ [byte]).length = rxBufSize := by
      have hpos := h.armed.ndtr_pos
      simp only [landed, hlen]
      omega
    have htie : (u.landed byte).huart.hdmarx.htie = decide (held.length < rxBufSize / 2) :=
      h.htie_eq
    rw [if_neg hfull, if_neg hfull]
    by_cases hmid : held.length + 1 = 32
    · obtain ⟨hhuart, hbuf, hfed⟩ := halfTransferIRQ_listening hlanded.toListening
      have hbefore : held.length < rxBufSize / 2 := by omega
      rw [hmid] at htake
      rw [if_pos hmid, if_pos (Or.inr hmid), hfed, htie, if_pos (decide_eq_true hbefore), htake]
      refine ⟨⟨?_, ?_, ?_, ?_⟩, rfl⟩
      · rw [hhuart]
        exact { hlanded with }
      · rw [hhuart]
        exact hndtr
      · rw [hhuart, hlen, hmid]
        rfl
      · rw [hbuf, hlen, hmid]
        exact htake
    · have hfed : ¬ (held.length + 1 = 64 ∨ held.length + 1 = 32) := by omega
      rw [if_neg hmid, if_neg hfed]
      refine ⟨⟨hlanded, hndtr, ?_, ?_⟩, (List.append_nil _).symm⟩
      · rw [htie, hlen, decide_eq_decide]
        omega
      · rw [hlen]
        exact htake

theorem receiving_idle {u : Usart} {held : List UInt8} (h : u.Receiving held) :
    (idleIRQ u).Receiving (window.next held .idle) ∧
      (idleIRQ u).fed = u.fed ++ window.output held .idle := by
  have hidle := idleIRQ_armed h.armed
  have hsum := h.ndtr_eq
  simp only [Machine.next, Machine.output, window, Window.step]
  by_cases hlt : u.huart.hdmarx.ndtr < rxBufSize
  · rw [if_pos hlt] at hidle
    have hcount : rxBufSize - u.huart.hdmarx.ndtr = held.length := by omega
    rw [hidle.2, hcount, h.held_eq]
    exact ⟨receiving_of_fresh hidle.1, rfl⟩
  · rw [if_neg hlt] at hidle
    have hnil : held = [] := by
      apply List.eq_nil_of_length_eq_zero
      omega
    subst held
    rw [hidle, List.append_nil]
    exact ⟨h, rfl⟩

theorem fed_run {u : Usart} {held : List UInt8} (h : u.Receiving held) (events : List LineEvent) :
    (usart.run u (events.map LineEvent.toUsart)).fed =
      u.fed ++ (window.trace held events).flatten := by
  have hstep : ∀ u held event, Receiving u held →
      (usart.next u (LineEvent.toUsart event)).Receiving (window.next held event) ∧
        (usart.next u (LineEvent.toUsart event)).fed = u.fed ++ window.output held event := by
    intro u held event h
    cases event with
    | byte byte => exact receiving_byte h byte
    | idle => exact receiving_idle h
  exact (Machine.run_simulation hstep h events).2

end Usart

namespace Window

theorem trace_burst_short (held bytes : List UInt8) (h : held.length + bytes.length < 32) :
    window.run held (burst bytes) = [] ∧
      (window.trace held (burst bytes)).flatten = held ++ bytes := by
  induction bytes generalizing held with
  | nil => simp [burst, Machine.next, Machine.output, window, step]
  | cons byte bytes ih =>
    rw [List.length_cons] at h
    have hfull : held.length + 1 ≠ 64 := by omega
    have hfed : ¬ (held.length + 1 = 64 ∨ held.length + 1 = 32) := by omega
    obtain ⟨hrun, htrace⟩ := ih (held ++ [byte]) (by
      rw [List.length_append, List.length_singleton]
      omega)
    have hburst : burst (byte :: bytes) = .byte byte :: burst bytes := rfl
    rw [hburst, Machine.run_cons, Machine.trace_cons, next_byte, if_neg hfull, output_byte,
      if_neg hfed, hrun, List.flatten_cons, htrace]
    exact ⟨rfl, by rw [List.nil_append, List.append_assoc, List.singleton_append]⟩

/-- Nothing is skipped, and the first half of a long burst is fed at least twice. -/
theorem length_trace_burst (held bytes : List UInt8) (h : held.length < 64) :
    window.run held (burst bytes) = [] ∧
      held.length + bytes.length ≤ (window.trace held (burst bytes)).flatten.length ∧
      (held.length < 32 → 32 ≤ held.length + bytes.length →
        held.length + bytes.length < (window.trace held (burst bytes)).flatten.length) := by
  induction bytes generalizing held with
  | nil =>
    have hidle : window.run held (burst []) = [] ∧
        (window.trace held (burst [])).flatten = held := by
      simp [burst, Machine.next, Machine.output, window, step]
    rw [hidle.1, hidle.2, List.length_nil]
    exact ⟨rfl, by omega, by omega⟩
  | cons byte bytes ih =>
    have hburst : burst (byte :: bytes) = .byte byte :: burst bytes := rfl
    have hlen : (held ++ [byte]).length = held.length + 1 := by
      rw [List.length_append, List.length_singleton]
    rw [hburst, Machine.run_cons, Machine.trace_cons, List.flatten_cons, List.length_append,
      List.length_cons, next_byte, output_byte]
    by_cases hfull : held.length + 1 = 64
    · obtain ⟨hrun, hle, -⟩ := ih [] (Nat.zero_lt_succ 63)
      rw [List.length_nil] at hle
      rw [if_pos hfull, if_pos (Or.inl hfull), hlen]
      exact ⟨hrun, by omega, by omega⟩
    · obtain ⟨hrun, hle, hlt⟩ := ih (held ++ [byte]) (by omega)
      rw [hlen] at hle hlt
      rw [if_neg hfull]
      refine ⟨hrun, by omega, fun hshort hlong => ?_⟩
      by_cases hhalf : held.length + 1 = 32
      · rw [if_pos (Or.inr hhalf), hlen]
        omega
      · have := hlt (by omega) (by omega)
        omega

/-- As many bytes are fed as were received only if no burst reaches half the buffer. -/
theorem length_trace_bursts (bursts : List (List UInt8)) :
    bursts.flatten.length ≤ (window.trace [] (bursts.flatMap burst)).flatten.length ∧
      ((window.trace [] (bursts.flatMap burst)).flatten.length = bursts.flatten.length →
        ∀ bytes ∈ bursts, bytes.length < 32) := by
  induction bursts with
  | nil => exact ⟨le_rfl, fun _ => nofun⟩
  | cons bytes rest ih =>
    obtain ⟨hrun, hle, hlt⟩ := length_trace_burst [] bytes (Nat.zero_lt_succ 63)
    obtain ⟨hrest, hshort⟩ := ih
    rw [List.length_nil, Nat.zero_add] at hle hlt
    rw [List.flatMap_cons, Machine.trace_append, hrun, List.flatten_append, List.length_append,
      List.flatten_cons, List.length_append]
    refine ⟨Nat.add_le_add hle hrest, fun heq => ?_⟩
    rw [List.forall_mem_cons]
    refine ⟨?_, hshort (by omega)⟩
    by_contra hlong
    have := hlt (by decide) (by omega)
    omega

theorem trace_bursts_short {bursts : List (List UInt8)}
    (h : ∀ bytes ∈ bursts, bytes.length < 32) :
    (window.trace [] (bursts.flatMap burst)).flatten = bursts.flatten := by
  induction bursts with
  | nil => rfl
  | cons bytes rest ih =>
    rw [List.forall_mem_cons] at h
    obtain ⟨hrun, htrace⟩ := trace_burst_short [] bytes (by
      rw [List.length_nil, Nat.zero_add]
      exact h.1)
    rw [List.flatMap_cons, Machine.trace_append, hrun, List.flatten_append, htrace, ih h.2]
    rfl

end Window

namespace Usart

theorem fed_bursts (bursts : List (List UInt8)) :
    (usart.run init ((bursts.flatMap burst).map LineEvent.toUsart)).fed =
      (window.trace [] (bursts.flatMap burst)).flatten :=
  fed_run (receiving_of_fresh init_fresh) _

/-- The bytes fed to the receiver are the bytes received, each once and in order, exactly when
every burst is shorter than half of the DMA buffer. -/
theorem bytes_delivered_iff (bursts : List (List UInt8)) :
    (usart.run init ((bursts.flatMap burst).map LineEvent.toUsart)).fed = bursts.flatten ↔
      ∀ bytes ∈ bursts, bytes.length < 32 := by
  rw [fed_bursts]
  constructor
  · intro h
    exact (Window.length_trace_bursts bursts).2 (congrArg List.length h)
  · intro h
    exact Window.trace_bursts_short h

/-- A burst of 32 bytes is fed twice. -/
theorem half_buffer_burst_fed_twice :
    ¬ ∀ bursts : List (List UInt8),
      (usart.run init ((bursts.flatMap burst).map LineEvent.toUsart)).fed = bursts.flatten := by
  intro hall
  have hfed := hall [List.replicate 32 0x41]
  rw [fed_bursts] at hfed
  have hlen := (Window.length_trace_bursts [List.replicate 32 0x41]).2 (congrArg List.length hfed)
    _ List.mem_cons_self
  rw [List.length_replicate] at hlen
  exact absurd hlen (lt_irrefl 32)

end Usart

end JeogiAt.Uart
