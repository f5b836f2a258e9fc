import JeogiAt.Library.Lines
import JeogiAt.Library.Machine
import Mathlib.Data.List.TakeWhile
import Mathlib.Tactic.SplitIfs

/-!
# The server's command reader

`reader_thread_func` appends what `SSL_read` returns to `cmd_buffer` and hands every line that is
complete to `handle_qt_command`. The bytes pass through a C string on the way: of each read only
those before its first NUL survive.

So the reader frames the stream of the surviving bytes. For a stream without NUL this is the stream
itself. A NUL takes with it what follows it in the same read, and that may be the newline of its
line and the beginning of the next one.
-/

namespace JeogiAt.Server

open Lines

def newline : UInt8 := 10

/-- The bytes of one successful `SSL_read` into `rx_buffer`, of which one is kept for the NUL. -/
structure Chunk where
  bytes : List UInt8
  length_pos : 0 < bytes.length
  length_le : bytes.length ≤ 255

/-- A result of `SSL_read`: bytes, `SSL_ERROR_WANT_READ` or `SSL_ERROR_WANT_WRITE`, or any other
error. -/
inductive SslRead
  | data (chunk : Chunk)
  | again
  | error

/-- `string(rx_buffer)` -/
def cString (bytes : List UInt8) : List UInt8 := bytes.takeWhile (· ≠ 0)

/-- The test before `handle_qt_command`. -/
def isCommand (line : List UInt8) : Bool := line ≠ [] ∧ line ≠ [13]

/-- The loop over the newlines of `cmd_buffer`: the lines taken off it, and what is left. -/
def takeLines (cmd_buffer : List UInt8) : List (List UInt8) × List UInt8 :=
  match h : cmd_buffer.findIdx? (· = newline) with
  | some pos =>
      let tail := takeLines (cmd_buffer.drop (pos + 1))
      (cmd_buffer.take pos :: tail.1, tail.2)
  | none => ([], cmd_buffer)
termination_by cmd_buffer.length
decreasing_by
  have hpos := (List.findIdx?_eq_some_iff_findIdx_eq.mp h).1
  rw [List.length_drop]
  omega

structure CommandReader where
  connected : Bool
  cmd_buffer : List UInt8

namespace CommandReader

def init : CommandReader := ⟨true, []⟩

/-- One pass of the outer loop, with the lines it hands over. -/
def step (s : CommandReader) (result : SslRead) : CommandReader × List (List UInt8) :=
  if s.connected then
    match result with
    | .data chunk =>
        let lines := takeLines (s.cmd_buffer ++ cString chunk.bytes)
        ({ s with cmd_buffer := lines.2 }, lines.1.filter isCommand)
    | .again => (s, [])
    | .error => ({ s with connected := false }, [])
  else (s, [])

end CommandReader

def commandReader : Machine CommandReader SslRead (List (List UInt8)) := ⟨CommandReader.step⟩

def SslRead.bytes : SslRead → List UInt8
  | .data chunk => chunk.bytes
  | _ => []

def received (reads : List SslRead) : List UInt8 := reads.flatMap SslRead.bytes

def survived (reads : List SslRead) : List UInt8 := reads.flatMap fun read => cString read.bytes

def dispatched (reads : List SslRead) : List (List UInt8) :=
  (commandReader.trace .init reads).flatten

theorem takeLines_eq (cmd_buffer : List UInt8) :
    takeLines cmd_buffer = (complete newline cmd_buffer, rest newline cmd_buffer) := by
  fun_induction takeLines cmd_buffer with
  | case1 cmd_buffer pos h tail ih =>
    obtain ⟨hlt, hat, hbefore⟩ := List.findIdx?_eq_some_iff_getElem.mp h
    have hsplit : cmd_buffer = cmd_buffer.take pos ++ newline :: cmd_buffer.drop (pos + 1) := by
      rw [← of_decide_eq_true hat, List.getElem_cons_drop, List.take_append_drop]
    have hline : newline ∉ cmd_buffer.take pos := by
      intro hmem
      obtain ⟨i, hi, hget⟩ := List.mem_take_iff_getElem.mp hmem
      have hother := hbefore i (by omega)
      simp [hget] at hother
    obtain ⟨hcomplete, hrest⟩ := complete_line hline (cmd_buffer.drop (pos + 1))
    rw [← hsplit] at hcomplete hrest
    rw [hcomplete, hrest, show tail = _ from ih]
  | case2 cmd_buffer h =>
    have hnone : newline ∉ cmd_buffer := by
      intro hmem
      have hother := List.findIdx?_eq_none_iff.mp h newline hmem
      simp at hother
    obtain ⟨hcomplete, hrest⟩ := complete_of_not_mem hnone
    rw [hcomplete, hrest]

theorem run_reads {reads : List SslRead} (hok : ∀ read ∈ reads, read ≠ .error) :
    commandReader.run .init reads = ⟨true, rest newline (survived reads)⟩ ∧
      dispatched reads = (complete newline (survived reads)).filter isCommand := by
  induction reads using List.reverseRecOn with
  | nil => exact ⟨rfl, rfl⟩
  | append_singleton reads read ih =>
    obtain ⟨hrun, hdispatched⟩ := ih fun r hr => hok r (List.mem_append_left _ hr)
    have hsurvived : survived (reads ++ [read]) = survived reads ++ cString read.bytes := by
      rw [survived, List.flatMap_append, List.flatMap_singleton]
      rfl
    rw [dispatched, Machine.trace_concat, Machine.run_concat, hrun, List.flatten_append,
      List.flatten_singleton, ← dispatched, hdispatched, hsurvived]
    cases read with
    | data chunk =>
      rw [complete_append, rest_append, List.filter_append]
      simp only [Machine.next, Machine.output, commandReader, CommandReader.step, if_pos,
        takeLines_eq]
      exact ⟨rfl, rfl⟩
    | again =>
      have hnothing : cString SslRead.again.bytes = [] := rfl
      rw [hnothing, List.append_nil]
      exact ⟨rfl, List.append_nil _⟩
    | error => exact absurd rfl (hok .error (by simp))

theorem cString_eq {bytes : List UInt8} (h : 0 ∉ bytes) : cString bytes = bytes := by
  rw [cString, List.takeWhile_eq_self_iff]
  intro b hb
  rw [decide_eq_true_eq]
  exact fun hzero => h (hzero ▸ hb)

theorem cString_append {bytes : List UInt8} (h : 0 ∈ bytes) (more : List UInt8) :
    cString (bytes ++ more) = cString bytes := by
  induction bytes with
  | nil => cases h
  | cons b bytes ih =>
    rw [cString, List.cons_append, List.takeWhile_cons, cString, List.takeWhile_cons]
    split_ifs with hb
    · have hmem : 0 ∈ bytes := by
        rcases List.mem_cons.mp h with hzero | hmem
        · exact absurd hzero.symm (of_decide_eq_true hb)
        · exact hmem
      exact congrArg (b :: ·) (ih hmem)
    · rfl

theorem survived_eq {reads : List SslRead} (h : 0 ∉ received reads) :
    survived reads = received reads := by
  induction reads with
  | nil => rfl
  | cons read reads ih =>
    rw [received, List.flatMap_cons, List.mem_append, not_or] at h
    rw [survived, List.flatMap_cons, cString_eq h.1, ← survived, ih h.2]
    rfl

theorem mem_received {reads : List SslRead} {b : UInt8} (h : b ∈ survived reads) :
    b ∈ received reads := by
  obtain ⟨read, hread, hb⟩ := List.mem_flatMap.mp h
  exact List.mem_flatMap.mpr ⟨read, hread, List.takeWhile_subset _ hb⟩

/-- However a stream without NUL is cut into reads, and whatever retries come between them, the
commands handed over are the complete lines of the stream that are neither empty nor a lone
carriage return, and `cmd_buffer` holds what follows the last newline. -/
theorem commands_framed {reads : List SslRead} (hok : ∀ read ∈ reads, read ≠ .error)
    (hnul : 0 ∉ received reads) :
    dispatched reads = (complete newline (received reads)).filter isCommand ∧
      (commandReader.run .init reads).cmd_buffer = rest newline (received reads) := by
  obtain ⟨hrun, hdispatched⟩ := run_reads hok
  rw [survived_eq hnul] at hrun hdispatched
  exact ⟨hdispatched, by rw [hrun]⟩

theorem commands_framed_two_reads :
    let reads : List SslRead :=
      [.data ⟨[97, 10, 98], Nat.zero_lt_succ _, by decide⟩, .again,
        .data ⟨[10, 99], Nat.zero_lt_succ _, by decide⟩]
    (∀ read ∈ reads, read ≠ .error) ∧ 0 ∉ received reads ∧ dispatched reads = [[97], [98]] := by
  intro reads
  have hok : ∀ read ∈ reads, read ≠ .error := by simp [reads]
  have hnul : 0 ∉ received reads := by decide
  refine ⟨hok, hnul, (commands_framed hok hnul).1.trans ?_⟩
  have hfirst : complete newline [97, 10, 98, 10, 99] = [97] :: complete newline [98, 10, 99] :=
    (@complete_line _ _ newline [97] (by decide) [98, 10, 99]).1
  have hsecond : complete newline [98, 10, 99] = [98] :: complete newline [99] :=
    (@complete_line _ _ newline [98] (by decide) [99]).1
  have hlast : complete newline [99] = [] := (complete_of_not_mem (by decide)).1
  exact congrArg (List.filter isCommand) (hfirst.trans (by rw [hsecond, hlast]))

/-- The newline after `g` is read at some place: `g₂` is the part of `g` that is in the same read,
and `c₁` what follows the newline in it. -/
structure BreakAt (reads : List SslRead) (g t : List UInt8) (before : List SslRead)
    (after : List SslRead) (g₂ c₁ : List UInt8) : Prop where
  reads_eq : ∃ chunk : Chunk, chunk.bytes = g₂ ++ newline :: c₁ ∧
    reads = before ++ .data chunk :: after
  garbage : g = received before ++ g₂
  tail : t = c₁ ++ received after

theorem exists_breakAt {reads : List SslRead} {g t : List UInt8}
    (h : received reads = g ++ newline :: t) :
    ∃ before after g₂ c₁, BreakAt reads g t before after g₂ c₁ := by
  induction reads generalizing g with
  | nil =>
    have hlength := congrArg List.length h
    simp [received] at hlength
  | cons read reads ih =>
    rw [received, List.flatMap_cons, ← received] at h
    rcases List.append_eq_append_iff.mp h with ⟨g', hg, hrest⟩ | ⟨bytes', hbytes, hrest⟩
    · obtain ⟨before, after, g₂, c₁, hbreak⟩ := ih hrest
      obtain ⟨chunk, hchunk, hreads⟩ := hbreak.reads_eq
      refine ⟨read :: before, after, g₂, c₁, ⟨chunk, hchunk, ?_⟩, ?_, hbreak.tail⟩
      · rw [hreads, List.cons_append]
      · rw [hg, hbreak.garbage, received, received, List.flatMap_cons, List.append_assoc]
    · cases bytes' with
      | nil =>
        obtain ⟨before, after, g₂, c₁, hbreak⟩ := ih (g := []) hrest.symm
        obtain ⟨chunk, hchunk, hreads⟩ := hbreak.reads_eq
        refine ⟨read :: before, after, g₂, c₁, ⟨chunk, hchunk, ?_⟩, ?_, hbreak.tail⟩
        · rw [hreads, List.cons_append]
        · rw [received, List.flatMap_cons, ← received, hbytes, List.append_nil, List.append_assoc,
            ← hbreak.garbage, List.append_nil]
      | cons b c₁ =>
        obtain ⟨rfl, htail⟩ := List.cons_eq_cons.mp hrest
        cases read with
        | data chunk =>
          exact ⟨[], reads, g, c₁, ⟨chunk, hbytes, rfl⟩, rfl, htail⟩
        | again => simp [SslRead.bytes] at hbytes
        | error => simp [SslRead.bytes] at hbytes

/-- The newline after `g` gets through; or it does not, but the command's own newline comes in a
later read and what is left of `g` happens to be what is lost of the command. -/
def Isolated (reads : List SslRead) (g t : List UInt8) : Prop :=
  ∃ before after g₂ c₁, BreakAt reads g t before after g₂ c₁ ∧
    (0 ∉ g₂ ∨ received after ≠ [] ∧ survived before ++ cString g₂ = c₁)

theorem getLast?_filter_singleton (line c : List UInt8) :
    ([line].filter isCommand).getLast? = some c ↔ isCommand c = true ∧ line = c := by
  by_cases hline : isCommand line = true
  · rw [List.filter_cons_of_pos hline, List.filter_nil, List.getLast?_singleton, Option.some_inj]
    constructor
    · rintro rfl
      exact ⟨hline, rfl⟩
    · exact And.right
  · rw [List.filter_cons_of_neg hline, List.filter_nil, List.getLast?_nil]
    constructor
    · intro h
      cases h
    · rintro ⟨hc, rfl⟩
      exact absurd hc hline

theorem getLast?_filter_pair (line c : List UInt8) :
    ([line, c].filter isCommand).getLast? = some c ↔ isCommand c = true := by
  constructor
  · intro h
    exact (List.mem_filter.mp (List.mem_of_getLast? h)).2
  · intro h
    rw [show [line, c] = [line] ++ [c] from rfl, List.filter_append, List.filter_cons_of_pos h,
      List.filter_nil, List.getLast?_append, List.getLast?_singleton, Option.some_or]

section

variable {reads before after : List SslRead} {g c g₂ c₁ : List UInt8}

theorem survived_breakAt (h : BreakAt reads g (c ++ [newline]) before after g₂ c₁) (hc : 0 ∉ c) :
    survived reads = if 0 ∈ g₂ then survived before ++ cString g₂ ++ received after
      else survived before ++ g₂ ++ newline :: (c ++ [newline]) := by
  obtain ⟨chunk, hchunk, hreads⟩ := h.reads_eq
  have hnul : 0 ∉ c₁ ∧ 0 ∉ received after := by
    rw [← not_or, ← List.mem_append, ← h.tail, List.mem_append, not_or]
    exact ⟨hc, by decide⟩
  rw [hreads, survived, List.flatMap_append, List.flatMap_cons, ← survived, ← survived,
    survived_eq hnul.2, SslRead.bytes, hchunk]
  split_ifs with hzero
  · rw [cString_append hzero, List.append_assoc]
  · have hall : 0 ∉ g₂ ++ newline :: c₁ := by
      rw [List.mem_append, List.mem_cons, not_or, not_or]
      exact ⟨hzero, by decide, hnul.1⟩
    rw [cString_eq hall, h.tail]
    simp only [List.append_assoc, List.cons_append]

/-- The command is the last line handed over exactly when it is one and is isolated. -/
theorem last_dispatched_iff (h : BreakAt reads g (c ++ [newline]) before after g₂ c₁)
    (hok : ∀ read ∈ reads, read ≠ .error) (hg : newline ∉ g) (hcNul : 0 ∉ c)
    (hcLine : newline ∉ c) :
    (dispatched reads).getLast? = some c ↔ isCommand c = true ∧
      (0 ∉ g₂ ∨ received after ≠ [] ∧ survived before ++ cString g₂ = c₁) := by
  have hbefore : newline ∉ survived before ∧ newline ∉ g₂ := by
    rw [h.garbage, List.mem_append, not_or] at hg
    exact ⟨fun hmem => hg.1 (mem_received hmem), hg.2⟩
  rw [(run_reads hok).2, survived_breakAt h hcNul]
  by_cases hzero : 0 ∈ g₂
  · rw [if_pos hzero]
    have hcut : newline ∉ survived before ++ cString g₂ := by
      rw [List.mem_append, not_or]
      exact ⟨hbefore.1, fun hmem => hbefore.2 (List.takeWhile_subset _ hmem)⟩
    rcases List.eq_nil_or_concat (received after) with hnone | ⟨c₂, b, hlast⟩
    · rw [hnone, List.append_nil, (complete_of_not_mem hcut).1]
      simp [hzero]
    · have htail := h.tail
      rw [List.concat_eq_append] at hlast
      rw [hlast, ← List.append_assoc] at htail
      obtain ⟨rfl, hb⟩ := List.append_inj' htail rfl
      have hline : newline ∉ survived before ++ cString g₂ ++ c₂ := by
        rw [List.mem_append, not_or]
        exact ⟨hcut, fun hmem => hcLine (List.mem_append_right _ hmem)⟩
      rw [hlast, ← List.singleton_inj.mp hb, ← List.append_assoc, (complete_line hline []).1]
      refine (getLast?_filter_singleton _ _).trans ?_
      constructor
      · rintro ⟨hcommand, heq⟩
        exact ⟨heq ▸ hcommand, .inr ⟨by simp, List.append_cancel_right heq⟩⟩
      · rintro ⟨hcommand, hisolated⟩
        rcases hisolated with hfree | ⟨-, hsame⟩
        · exact absurd hzero hfree
        · rw [hsame]
          exact ⟨hcommand, rfl⟩
  · have hfirst : newline ∉ survived before ++ g₂ := by
      rw [List.mem_append, not_or]
      exact hbefore
    rw [if_neg hzero, (complete_line hfirst _).1, (complete_line hcLine []).1, and_iff_left
      (.inl hzero)]
    exact getLast?_filter_pair _ _

end

/-- A command after a line of any bytes is handed over as the last line exactly when it is neither
empty nor a lone carriage return, and it is isolated from the line before it. -/
theorem command_isolated_iff {reads : List SslRead} {g c : List UInt8}
    (hok : ∀ read ∈ reads, read ≠ .error) (hg : newline ∉ g) (hcNul : 0 ∉ c)
    (hcLine : newline ∉ c) (hreads : received reads = g ++ newline :: (c ++ [newline])) :
    (dispatched reads).getLast? = some c ↔
      c ≠ [] ∧ c ≠ [13] ∧ Isolated reads g (c ++ [newline]) := by
  have hcommand : isCommand c = true ↔ c ≠ [] ∧ c ≠ [13] := decide_eq_true_iff
  rw [← and_assoc, ← hcommand]
  obtain ⟨before, after, g₂, c₁, hbreak⟩ := exists_breakAt hreads
  constructor
  · intro hlast
    obtain ⟨hc, hisolated⟩ := (last_dispatched_iff hbreak hok hg hcNul hcLine).mp hlast
    exact ⟨hc, before, after, g₂, c₁, hbreak, hisolated⟩
  · rintro ⟨hc, before', after', g₂', c₁', hbreak', hisolated⟩
    exact (last_dispatched_iff hbreak' hok hg hcNul hcLine).mpr ⟨hc, hisolated⟩

theorem command_isolated_two_reads :
    let reads : List SslRead :=
      [.data ⟨[0], Nat.zero_lt_succ _, by decide⟩,
        .data ⟨[10, 120, 10], Nat.zero_lt_succ _, by decide⟩]
    (∀ read ∈ reads, read ≠ .error) ∧ newline ∉ [0] ∧ (0 : UInt8) ∉ [120] ∧ newline ∉ [120] ∧
      received reads = [0] ++ newline :: ([120] ++ [newline]) ∧
        (dispatched reads).getLast? = some [120] := by
  intro reads
  have hok : ∀ read ∈ reads, read ≠ .error := by simp [reads]
  have hg : newline ∉ [0] := by decide
  have hcNul : (0 : UInt8) ∉ [120] := by decide
  have hcLine : newline ∉ [120] := by decide
  refine ⟨hok, hg, hcNul, hcLine, rfl, (command_isolated_iff hok hg hcNul hcLine rfl).mpr ?_⟩
  refine ⟨List.cons_ne_nil _ _, by simp, reads.take 1, [], [], [120, 10], ?_, ?_⟩
  · exact ⟨⟨_, rfl, rfl⟩, rfl, rfl⟩
  · exact .inl List.not_mem_nil

/-- A NUL in the line before takes the command's newline along, if all is read at once. -/
theorem nul_hides_command :
    ¬ ∀ (reads : List SslRead) (g c : List UInt8), (∀ read ∈ reads, read ≠ .error) →
      newline ∉ g → 0 ∉ c → newline ∉ c → c ≠ [] → c ≠ [13] →
        received reads = g ++ newline :: (c ++ [newline]) →
          (dispatched reads).getLast? = some c := by
  intro hall
  let reads : List SslRead := [.data ⟨[0, 10, 120, 10], Nat.zero_lt_succ _, by decide⟩]
  have hok : ∀ read ∈ reads, read ≠ .error := by simp [reads]
  have hlast := hall reads [0] [120] hok (by decide) (by decide) (by decide)
    (List.cons_ne_nil _ _) (by simp) rfl
  have hsurvived : survived reads = [] := rfl
  have hnothing : complete newline [] = [] := rfl
  rw [(run_reads hok).2, hsurvived, hnothing] at hlast
  cases hlast

end JeogiAt.Server
