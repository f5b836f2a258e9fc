import JeogiAt.AudioEof
import JeogiAt.AudioSamples
import JeogiAt.Library.DoubleBuffer
import Mathlib.Data.List.Flatten

/-!
# What the loudspeaker plays

`s_i2sBuf` is a double buffer: the DMA sends its two halves in turn, and `Audio_Process` refills a
half when the event at its end has come. Events may come anywhere, also inside the call, and the
code clears their bits with a load and a store.

As long as each half is refilled before the DMA has sent the other one (`InTime`, a condition on the
history), the two halves are a queue (`loudspeaker`). With the queue of samples before it, the
stream goes from the blocks of the receiver to the DMA in order, and nothing is doubled.
-/

open scoped List

namespace JeogiAt.Audio

open DoubleBuffer

/-- What a half is filled with: the source and its samples. -/
abbrev Fill := AudioSource × List Int16

def Event.halfOp : Event → Option (Op (Fin 2) Fill)
  | .filled half source mono => some (.fill half (source, mono))
  | .sent half => some (.take half)
  | .stopped => some .clear
  | _ => none

def halfOps (log : List Event) : List (Op (Fin 2) Fill) := log.filterMap Event.halfOp

/-- The halves that are full and not sent, the oldest first. -/
def unplayed (log : List Event) : List (Fin 2 × Fill) := fifo.run [] (halfOps log)

def silence (_ : Fin 2) : Fill := (.none, [])

def halves (log : List Event) : Fin 2 → Fill := memory.run silence (halfOps log)

/-- What the DMA has found in the halves that it has sent. -/
def transmitted (log : List Event) : List Fill := (memory.trace silence (halfOps log)).flatten

def fills (log : List Event) : List Fill := (halfOps log).flatMap Op.filled

/-- Whenever the DMA comes to the end of a half, the other one is full again. -/
def InTime : List Event → Prop :=
  Throughout fun before e => ∀ half, e = .sent half →
    ∃ x y, unplayed before = [(half, x), (half + 1, y)]

def streamed (xs : List Fill) : List Int16 :=
  xs.flatMap fun x => if x.1 = .stream then x.2 else []

def NoneDropped : List Event → Prop :=
  Throughout fun before e => ∀ bytes, e = .pushed bytes →
    (sampleQueue before).length + (pairs bytes.toList).length ≤ streamRingSize / 2

theorem halfOps_append (log es : List Event) : halfOps (log ++ es) = halfOps log ++ halfOps es :=
  List.filterMap_append

theorem halfOps_quiet {es : List Event} (h : ∀ e ∈ es, e.halfOp = none) : halfOps es = [] :=
  List.filterMap_eq_nil_iff.mpr h

theorem halfOps_singleton {e : Event} {op : Op (Fin 2) Fill} (h : e.halfOp = some op) :
    halfOps [e] = [op] := by
  rw [halfOps, List.filterMap_cons_some h, List.filterMap_nil]

theorem streamed_append (xs ys : List Fill) : streamed (xs ++ ys) = streamed xs ++ streamed ys :=
  List.flatMap_append

theorem streamed_fills (log : List Event) : streamed (fills log) = log.flatMap Event.played := by
  induction log with
  | nil => rfl
  | cons e log ih =>
    rw [List.flatMap_cons, ← ih]
    cases e with
    | filled half source mono => cases source <;> rfl
    | _ => rfl

/-- Where no block is cut, all samples sent have been played or are in the queue. -/
theorem played_eq {log : List Event} (h : PlayedInTurn log) (hroom : NoneDropped log) :
    log.flatMap Event.played ++ (sampleQueue log).map value =
      log.flatMap Event.sentSamples := by
  induction log using List.reverseRecOn with
  | nil => rfl
  | append_singleton log e ih =>
    obtain ⟨hlog, hlast⟩ := throughout_concat.mp h
    obtain ⟨hroomLog, hroomLast⟩ := throughout_concat.mp hroom
    have ih := ih hlog hroomLog
    rw [List.flatMap_append, List.flatMap_append, List.flatMap_singleton, List.flatMap_singleton,
      sampleQueue_concat]
    cases e with
    | opened | closed | read | sent half | stopped =>
      simpa [Event.played, Event.sentSamples, Event.streamOp] using ih
    | pushed bytes =>
      have hfits := hroomLast bytes rfl
      simp only [Event.played, Event.sentSamples, Event.streamOp, Option.elim_some, Machine.next,
        RingBuffer.fifo, List.append_nil, List.map_append]
      rw [List.take_of_length_le (by omega), ← List.append_assoc, ih]
    | filled half source mono =>
      cases source with
      | none | wav => simpa [Event.played, Event.sentSamples, Event.streamOp] using ih
      | stream =>
        rw [hlast half mono rfl]
        simp only [Event.played, Event.sentSamples, Event.streamOp, Option.elim_some, Machine.next,
          RingBuffer.fifo, List.append_nil]
        rwa [List.append_assoc, ← List.map_append, List.take_append_drop]

theorem InTime.of_prefix {log log' : List Event} (h : InTime log') (hpre : log <+: log') :
    InTime log := fun before e hbefore => h before e (hbefore.trans hpre)

/-- When the DMA comes to the end of a half, both were full. -/
theorem InTime.sent {log log' : List Event} {half : Fin 2} (h : InTime log')
    (hpre : log ++ [.sent half] <+: log') :
    ∃ x y, unplayed log = [(half, x), (half + 1, y)] := h log (.sent half) hpre half rfl

namespace Player

variable {W : Type*} {E : Env W} {s s' : Player W} {q : List (Fin 2 × Fill)}

/-- The memory is what the history says, no full half has been filled, and `q` are the full halves
that wait for the DMA. -/
structure Stage (s : Player W) (q : List (Fin 2 × Fill)) : Prop where
  holds : ∀ half, s.s_i2sBuf half = stereo (halves s.log half).2
  proper : fifo.Along Proper [] (halfOps s.log)
  waiting : unplayed s.log = q

theorem Stage.frame (h : Stage s q) (hbuf : s'.s_i2sBuf = s.s_i2sBuf) (hlog : s'.log = s.log) :
    Stage s' q :=
  ⟨by rw [hbuf, hlog]; exact h.holds, hlog ▸ h.proper, hlog ▸ h.waiting⟩

theorem Stage.quiet (h : Stage s q) (hbuf : s'.s_i2sBuf = s.s_i2sBuf) {es : List Event}
    (hlog : s'.log = s.log ++ es) (hes : ∀ e ∈ es, e.halfOp = none) : Stage s' q := by
  have hops : halfOps s'.log = halfOps s.log := by
    rw [hlog, halfOps_append, halfOps_quiet hes, List.append_nil]
  refine ⟨?_, ?_, ?_⟩
  · rw [hbuf, halves, hops]
    exact h.holds
  · rw [hops]
    exact h.proper
  · rw [unplayed, hops]
    exact h.waiting

theorem Stage.concat (h : Stage s q) {e : Event} {op : Op (Fin 2) Fill} (hop : e.halfOp = some op)
    (hlog : s'.log = s.log ++ [e]) (hproper : Proper q op)
    (hbuf : ∀ half, s'.s_i2sBuf half = stereo (memory.next (halves s.log) op half).2) :
    Stage s' (fifo.next q op) := by
  have hops : halfOps s'.log = halfOps s.log ++ [op] := by
    rw [hlog, halfOps_append, halfOps_singleton hop]
  have hq : fifo.run [] (halfOps s.log) = q := h.waiting
  refine ⟨?_, ?_, ?_⟩
  · rw [halves, hops, Machine.run_concat]
    exact hbuf
  · rw [hops, Machine.along_concat, hq]
    exact ⟨h.proper, hproper⟩
  · rw [unplayed, hops, Machine.run_concat, hq]

/-- A fill: its half takes what is read, and nothing else of the control state changes. -/
theorem fillHalfBuffer_cases (E : Env W) (s : Player W) (half : Fin 2) :
    ∃ reads mono, (s.fillHalfBuffer E half).log =
        s.log ++ reads ++ [.filled half s.s_audioSource mono] ∧
      (∀ e ∈ reads, e = Event.read) ∧
      (s.fillHalfBuffer E half).s_i2sBuf = Function.update s.s_i2sBuf half (stereo mono) ∧
      (s.fillHalfBuffer E half).s_bufferEvent = s.s_bufferEvent ∧
      (s.fillHalfBuffer E half).s_isPlaying = s.s_isPlaying ∧
      (s.fillHalfBuffer E half).s_audioSource = s.s_audioSource := by
  cases hsource : s.s_audioSource with
  | none =>
    rw [fillHalfBuffer_none E hsource, store, hsource, ← hsource]
    exact ⟨[], [], by rw [List.append_nil], List.forall_mem_nil _, rfl, rfl, rfl, rfl⟩
  | wav =>
    cases heof : s.s_wavEof with
    | false =>
      rw [fillHalfBuffer_wav E hsource heof, ← hsource]
      exact ⟨[.read], _, by simp [hsource], by simp, rfl, rfl, rfl, rfl⟩
    | true =>
      rw [fillHalfBuffer_eof E hsource heof, store, hsource, ← hsource]
      exact ⟨[], [], by rw [List.append_nil], List.forall_mem_nil _, rfl, rfl, rfl, rfl⟩
  | stream =>
    rw [fillHalfBuffer_stream E hsource, ← hsource]
    exact ⟨[], _, by rw [List.append_nil, hsource], List.forall_mem_nil _, rfl, rfl, rfl, rfl⟩

theorem Stage.filled (h : Stage s q) {reads : List Event} {half : Fin 2} {x : Fill}
    (hreads : ∀ e ∈ reads, e = Event.read) (hfree : ∀ y, (half, y) ∉ q)
    (hlog : s'.log = s.log ++ reads ++ [.filled half x.1 x.2])
    (hbuf : s'.s_i2sBuf = Function.update s.s_i2sBuf half (stereo x.2)) :
    Stage s' (q ++ [(half, x)]) := by
  have hquiet : Stage { s with log := s.log ++ reads } q :=
    h.quiet rfl rfl fun e he => by rw [hreads e he]; rfl
  have hproper : Proper q (.fill half x) := hfree
  refine hquiet.concat rfl hlog hproper fun other => ?_
  rw [hbuf]
  simp only [Machine.next, memory, Function.update_apply]
  split_ifs
  · rfl
  · exact hquiet.holds other

theorem Stage.prefill (h : Stage s []) (E : Env W) :
    (∃ x y, Stage (s.prefill E) [(0, x), (1, y)]) ∧
      (s.prefill E).s_bufferEvent = s.s_bufferEvent := by
  let t : Player W := { s with s_i2sBuf := fun _ => stereo [] }
  obtain ⟨reads₀, mono₀, hlog₀, hreads₀, hbuf₀, hbits₀, -, -⟩ := fillHalfBuffer_cases E t 0
  obtain ⟨reads₁, mono₁, hlog₁, hreads₁, hbuf₁, hbits₁, -, -⟩ :=
    fillHalfBuffer_cases E (t.fillHalfBuffer E 0) 1
  refine ⟨⟨(t.s_audioSource, mono₀), ((t.fillHalfBuffer E 0).s_audioSource, mono₁), ?_⟩,
    hbits₁.trans hbits₀⟩
  let first : Player W := { s with
    log := (t.fillHalfBuffer E 0).log
    s_i2sBuf := Function.update s.s_i2sBuf 0 (stereo mono₀) }
  have hfirst : Stage first [(0, (t.s_audioSource, mono₀))] := h.filled hreads₀ nofun hlog₀ rfl
  let both : Player W := { s with
    log := ((t.fillHalfBuffer E 0).fillHalfBuffer E 1).log
    s_i2sBuf := Function.update first.s_i2sBuf 1 (stereo mono₁) }
  have hfree : ∀ y : Fill, ((1 : Fin 2), y) ∉ [((0 : Fin 2), (t.s_audioSource, mono₀))] := by simp
  have hboth : Stage both [(0, (t.s_audioSource, mono₀)),
      (1, ((t.fillHalfBuffer E 0).s_audioSource, mono₁))] :=
    hfirst.filled hreads₁ hfree hlog₁ rfl
  refine hboth.frame ?_ rfl
  change ((t.fillHalfBuffer E 0).fillHalfBuffer E 1).s_i2sBuf = _
  rw [hbuf₁, hbuf₀]
  funext half
  rcases Fin.exists_fin_two.mp ⟨half, rfl⟩ with rfl | rfl <;> rfl

theorem log_fillHalfBuffer (E : Env W) (s : Player W) (half : Fin 2) :
    s.log <+: (s.fillHalfBuffer E half).log := by
  obtain ⟨reads, mono, hlog, -⟩ := fillHalfBuffer_cases E s half
  rw [hlog, List.append_assoc]
  exact List.prefix_append _ _

theorem log_prefill (E : Env W) (s : Player W) : s.log <+: (s.prefill E).log :=
  (log_fillHalfBuffer E { s with s_i2sBuf := fun _ => stereo [] } 0).trans
    (log_fillHalfBuffer E _ 1)

/-- Between calls: the DMA is off, or both halves are full, or one of them has been sent and its
bit is set. -/
inductive Phase (s : Player W) : Prop
  | idle (hplay : s.s_isPlaying = false) (h : Stage s [])
  | full (hplay : s.s_isPlaying = true) (hbits : s.s_bufferEvent = 0) (half : Fin 2) (x y : Fill)
      (h : Stage s [(half, x), (half + 1, y)])
  | due (hplay : s.s_isPlaying = true) (half : Fin 2) (hbits : s.s_bufferEvent = bit half)
      (y : Fill) (h : Stage s [(half + 1, y)])

theorem Phase.frame (h : Phase s) (hplay : s'.s_isPlaying = s.s_isPlaying)
    (hbits : s'.s_bufferEvent = s.s_bufferEvent) (hbuf : s'.s_i2sBuf = s.s_i2sBuf)
    (hlog : s'.log = s.log) : Phase s' := by
  cases h with
  | idle hidle h => exact .idle (hplay.trans hidle) (h.frame hbuf hlog)
  | full hplaying hzero half x y h =>
    exact .full (hplay.trans hplaying) (hbits.trans hzero) half x y (h.frame hbuf hlog)
  | due hplaying half hbit y h =>
    exact .due (hplay.trans hplaying) half (hbits.trans hbit) y (h.frame hbuf hlog)

theorem Phase.stage (h : Phase s) : ∃ q, Stage s q := by
  cases h with
  | idle _ h => exact ⟨_, h⟩
  | full _ _ _ _ _ h => exact ⟨_, h⟩
  | due _ _ _ _ h => exact ⟨_, h⟩

theorem log_isr (s : Player W) (i : Interrupt) : s.log <+: (s.isr i).log := by
  cases i with
  | txHalfCplt => exact List.prefix_append _ _
  | txCplt => exact List.prefix_append _ _
  | rxCplt block => exact List.prefix_rfl

theorem log_foldl_isr (s : Player W) (interrupts : List Interrupt) :
    s.log <+: (interrupts.foldl isr s).log := by
  induction interrupts generalizing s with
  | nil => exact List.prefix_rfl
  | cons i interrupts ih => exact (log_isr s i).trans (ih (s.isr i))

theorem log_irq (E : Env W) (s : Player W) : s.log <+: (s.irq E).log :=
  log_foldl_isr { s with world := (E.interrupts s.world).2 } _

/-- The event at the end of a half, when it comes in time. -/
theorem Phase.sent (h : Phase s) {half : Fin 2} (hplay : s'.s_isPlaying = s.s_isPlaying)
    (hbits : s'.s_bufferEvent = s.s_bufferEvent ||| bit half) (hbuf : s'.s_i2sBuf = s.s_i2sBuf)
    (hlog : s'.log = s.log ++ [.sent half]) (htime : InTime s'.log) : Phase s' := by
  have hpre : s.log ++ [.sent half] <+: s'.log := by rw [hlog]
  obtain ⟨x, y, hfull⟩ := htime.sent hpre
  cases h with
  | idle _ h =>
    rw [h.waiting] at hfull
    cases hfull
  | due _ half' _ y' h =>
    rw [h.waiting] at hfull
    cases congrArg List.length hfull
  | full hplaying hzero half' x' y' h =>
    rw [h.waiting] at hfull
    simp only [List.cons.injEq, Prod.mk.injEq] at hfull
    obtain ⟨⟨rfl, rfl⟩, -⟩ := hfull
    have hproper : Proper [(half', x'), (half' + 1, y')] (.take half') := ⟨x', _, rfl⟩
    refine .due (hplay.trans hplaying) half' ?_ y' ?_
    · rw [hbits, hzero, UInt8.zero_or]
    · exact h.concat rfl hlog hproper fun other => by rw [hbuf]; exact h.holds other

theorem Phase.isr (h : Phase s) (i : Interrupt) (htime : InTime (s.isr i).log) :
    Phase (s.isr i) := by
  cases i with
  | txHalfCplt => exact h.sent rfl rfl rfl rfl htime
  | txCplt => exact h.sent rfl rfl rfl rfl htime
  | rxCplt block => exact h.frame rfl rfl rfl rfl

theorem Phase.foldl_isr (h : Phase s) {interrupts : List Interrupt}
    (htime : InTime (interrupts.foldl Player.isr s).log) :
    Phase (interrupts.foldl Player.isr s) := by
  induction interrupts generalizing s with
  | nil => exact h
  | cons i interrupts ih =>
    exact ih (h.isr i (htime.of_prefix (log_foldl_isr (s.isr i) interrupts))) htime

theorem Phase.irq (h : Phase s) (htime : InTime (s.irq E).log) : Phase (s.irq E) := by
  have hworld : Phase { s with world := (E.interrupts s.world).2 } := h.frame rfl rfl rfl rfl
  exact hworld.foldl_isr htime

/-- With a half still to be filled no event of the DMA is in time, so only blocks arrive. -/
theorem foldl_isr_still {s : Player W} {interrupts : List Interrupt}
    (hone : (unplayed s.log).length < 2) (htime : InTime (interrupts.foldl Player.isr s).log) :
    ∃ rx, interrupts.foldl Player.isr s = { s with rx := rx } := by
  induction interrupts generalizing s with
  | nil => exact ⟨s.rx, rfl⟩
  | cons i interrupts ih =>
    have hnone : ∀ half, ¬ s.log ++ [.sent half] <+: (interrupts.foldl Player.isr (s.isr i)).log := by
      intro half hpre
      obtain ⟨x, y, hfull⟩ := htime.sent hpre
      rw [hfull] at hone
      exact lt_irrefl 2 hone
    have hrest := log_foldl_isr (s.isr i) interrupts
    cases i with
    | txHalfCplt => exact absurd hrest (hnone 0)
    | txCplt => exact absurd hrest (hnone 1)
    | rxCplt block => exact ih hone htime

theorem irq_still (hone : (unplayed s.log).length < 2) (htime : InTime (s.irq E).log) :
    ∃ rx world, s.irq E = { s with rx := rx, world := world } := by
  obtain ⟨rx, hrx⟩ := foldl_isr_still (s := { s with world := (E.interrupts s.world).2 }) hone htime
  exact ⟨rx, _, hrx⟩

/-- What holds between the functions, as long as the DMA is in time. -/
def Good (s : Player W) : Prop := InTime s.log → Phase s

def Ready (s : Player W) : Prop :=
  InTime s.log → s.s_isPlaying = false ∧ s.s_bufferEvent = 0 ∧ Stage s []

theorem Good.quiet (h : Good s) (hplay : s'.s_isPlaying = s.s_isPlaying)
    (hbits : s'.s_bufferEvent = s.s_bufferEvent) (hbuf : s'.s_i2sBuf = s.s_i2sBuf)
    {es : List Event} (hlog : s'.log = s.log ++ es) (hes : ∀ e ∈ es, e.halfOp = none) :
    Good s' := by
  intro htime
  rw [hlog] at htime
  cases h (htime.of_prefix (List.prefix_append _ _)) with
  | idle hidle h => exact .idle (hplay.trans hidle) (h.quiet hbuf hlog hes)
  | full hplaying hzero half x y h =>
    exact .full (hplay.trans hplaying) (hbits.trans hzero) half x y (h.quiet hbuf hlog hes)
  | due hplaying half hbit y h =>
    exact .due (hplay.trans hplaying) half (hbits.trans hbit) y (h.quiet hbuf hlog hes)

theorem Good.frame (h : Good s) (hplay : s'.s_isPlaying = s.s_isPlaying)
    (hbits : s'.s_bufferEvent = s.s_bufferEvent) (hbuf : s'.s_i2sBuf = s.s_i2sBuf)
    (hlog : s'.log = s.log) : Good s' :=
  h.quiet hplay hbits hbuf (hlog.trans (List.append_nil _).symm) nofun

theorem Good.irq (h : Good s) (E : Env W) : Good (s.irq E) := fun htime =>
  (h (htime.of_prefix (log_irq E s))).irq htime

theorem isPlaying_irq (E : Env W) (s : Player W) : (s.irq E).s_isPlaying = s.s_isPlaying := by
  obtain ⟨_, _, _, _, heq, -, -⟩ := irq_cases E s
  rw [heq]

theorem Ready.quiet (h : Ready s) (hplay : s'.s_isPlaying = s.s_isPlaying)
    (hbits : s'.s_bufferEvent = s.s_bufferEvent) (hbuf : s'.s_i2sBuf = s.s_i2sBuf)
    {es : List Event} (hlog : s'.log = s.log ++ es) (hes : ∀ e ∈ es, e.halfOp = none) :
    Ready s' := by
  intro htime
  rw [hlog] at htime
  obtain ⟨hidle, hzero, hstage⟩ := h (htime.of_prefix (List.prefix_append _ _))
  exact ⟨hplay.trans hidle, hbits.trans hzero, hstage.quiet hbuf hlog hes⟩

theorem Ready.frame (h : Ready s) (hplay : s'.s_isPlaying = s.s_isPlaying)
    (hbits : s'.s_bufferEvent = s.s_bufferEvent) (hbuf : s'.s_i2sBuf = s.s_i2sBuf)
    (hlog : s'.log = s.log) : Ready s' :=
  h.quiet hplay hbits hbuf (hlog.trans (List.append_nil _).symm) nofun

theorem Ready.good (h : Ready s) : Good s := fun htime =>
  .idle (h htime).1 (h htime).2.2

theorem Good.ready (h : Good s) (hidle : s.s_isPlaying = false) (E : Env W)
    (source : AudioSource) (tick : UInt32) : Ready ((s.irq E).reset source tick) := by
  intro htime
  change InTime (s.irq E).log at htime
  cases h (htime.of_prefix (log_irq E s)) with
  | idle _ hstage =>
    have hone : (unplayed s.log).length < 2 := by
      rw [hstage.waiting]
      exact Nat.zero_lt_two
    obtain ⟨rx, world, heq⟩ := irq_still hone htime
    rw [heq]
    exact ⟨hidle, rfl, hstage.frame rfl rfl⟩
  | full hplay => cases hidle.symm.trans hplay
  | due hplay => cases hidle.symm.trans hplay

theorem Ready.start (h : Ready s) (E : Env W) :
    Good (((s.prefill E).transmitDma E).1.setPlaying true) := by
  intro htime
  change InTime (s.prefill E).log at htime
  obtain ⟨-, hzero, hstage⟩ := h (htime.of_prefix (log_prefill E s))
  obtain ⟨⟨x, y, hfull⟩, hbits⟩ := hstage.prefill E
  exact .full rfl (hbits.trans hzero) 0 x y (hfull.frame rfl rfl)

theorem Ready.f_open (h : Ready s) (E : Env W) (filename : String) :
    Ready (s.f_open E filename).1 := by
  cases hok : (s.f_open E filename).2 with
  | true =>
    have hlog : (s.f_open E filename).1.log = s.log ++ [.opened] := if_pos hok
    exact h.quiet rfl rfl rfl hlog (List.forall_mem_singleton.mpr rfl)
  | false =>
    have hlog : (s.f_open E filename).1.log = s.log :=
      if_neg fun hok' => by cases hok.symm.trans hok'
    exact h.frame rfl rfl rfl hlog

theorem Ready.f_close (h : Ready s) (E : Env W) : Ready (s.f_close E) :=
  h.quiet rfl rfl rfl rfl (List.forall_mem_singleton.mpr rfl)

theorem Good.startWav (h : Good s) (hstarts : ∀ w, (E.transmitDma w).1 = true)
    (filename : String) : Good (s.startWav E filename).1 := by
  unfold Player.startWav
  split_ifs with hplay
  · exact h
  · have hopen := (h.ready (Bool.eq_false_iff.mpr hplay) E .wav 0).f_open E filename
    generalize ((s.irq E).reset .wav 0).f_open E filename = opened at hopen ⊢
    dsimp only
    have hseek : Ready (opened.1.f_lseek E playerWavHeaderSize).1 := hopen.frame rfl rfl rfl rfl
    generalize opened.1.f_lseek E playerWavHeaderSize = sought at hseek ⊢
    have hstart := hseek.start E
    have hok : ((sought.1.prefill E).transmitDma E).2 = true := hstarts _
    generalize (sought.1.prefill E).transmitDma E = started at hstart hok ⊢
    rw [hok]
    split_ifs with hno hno' hno''
    · exact hopen.good.frame rfl rfl rfl rfl
    · exact (hseek.f_close E).good.frame rfl rfl rfl rfl
    · cases hno''
    · exact hstart

theorem Good.startStream (h : Good s) (hstarts : ∀ w, (E.transmitDma w).1 = true) :
    Good (s.startStream E).1 := by
  unfold Player.startStream
  split_ifs with hplay
  · exact h
  · exact h
  · have hready := h.ready (Bool.eq_false_iff.mpr hplay) E .stream ((s.irq E).getTick E).2
    have hreset : Ready (((s.irq E).getTick E).1.reset .stream ((s.irq E).getTick E).2) :=
      hready.frame rfl rfl rfl rfl
    have hstart := hreset.start E
    have hok : (((((s.irq E).getTick E).1.reset .stream ((s.irq E).getTick E).2).prefill
        E).transmitDma E).2 = true := hstarts _
    dsimp only
    rw [hok]
    exact hstart

theorem Good.playNextFromQueue (h : Good s) (hstarts : ∀ w, (E.transmitDma w).1 = true) :
    Good (s.playNextFromQueue E) := by
  unfold Player.playNextFromQueue
  split_ifs
  · exact h
  · rcases s.queue.dequeue with ⟨queue, _ | filename⟩
    · exact h.frame rfl rfl rfl rfl
    · have hqueue : Good { s with queue := queue } := h.frame rfl rfl rfl rfl
      exact hqueue.startWav hstarts filename

theorem Good.stop (h : Good s) (E : Env W) : Good (s.stop E) := by
  unfold Player.stop
  split_ifs with hplay
  · exact h
  · dsimp only
    generalize hclosed : (if (s.dmaStop E).s_audioSource = .wav then (s.dmaStop E).f_close E
      else s.dmaStop E) = closed
    intro htime
    change InTime (closed.irq E).log at htime
    have htimeClosed := htime.of_prefix (log_irq E closed)
    have hcases : closed = s.dmaStop E ∨ closed = (s.dmaStop E).f_close E := by
      rw [← hclosed]
      split_ifs
      · exact .inr rfl
      · exact .inl rfl
    have hstopped : Stage (s.dmaStop E) [] → Stage closed [] := by
      intro hstage
      rcases hcases with rfl | rfl
      · exact hstage
      · exact hstage.quiet rfl rfl (List.forall_mem_singleton.mpr rfl)
    have hpre : s.log <+: closed.log := by
      rcases hcases with rfl | rfl
      · exact List.prefix_append _ _
      · exact (List.prefix_append _ _).trans (List.prefix_append _ _)
    obtain ⟨q, hstage⟩ := (h (htimeClosed.of_prefix hpre)).stage
    have hop : Event.stopped.halfOp = some .clear := rfl
    have hlog : (s.dmaStop E).log = s.log ++ [.stopped] := rfl
    have hclear : Stage (s.dmaStop E) [] := hstage.concat hop hlog trivial hstage.holds
    have hempty := hstopped hclear
    have hone : (unplayed closed.log).length < 2 := by
      rw [hempty.waiting]
      exact Nat.zero_lt_two
    obtain ⟨rx, world, heq⟩ := irq_still hone htime
    rw [heq]
    exact .idle rfl (hempty.frame rfl rfl)

theorem bit_and_bit {half half' : Fin 2} (h : bit half' &&& bit half ≠ 0) : half' = half := by
  revert half half'
  decide

theorem bit_and_not (half : Fin 2) : bit half &&& ~~~bit half = 0 := by
  revert half
  decide

/-- With a half still to be filled no event is in time, so the store loses none. -/
theorem Stage.clearEvent (h : Stage s q) (hone : q.length < 2) {half : Fin 2}
    (hbits : s.s_bufferEvent = bit half) (htime : InTime (s.clearEvent E (bit half)).log) :
    Stage (s.clearEvent E (bit half)) q ∧ (s.clearEvent E (bit half)).s_bufferEvent = 0 := by
  have hclear : s.clearEvent E (bit half) =
      { (s.irq E).irq E with s_bufferEvent := (s.irq E).s_bufferEvent &&& ~~~bit half } := rfl
  have hlast : InTime ((s.irq E).irq E).log := htime
  rw [← h.waiting] at hone
  obtain ⟨rx₁, world₁, heq₁⟩ := irq_still hone (hlast.of_prefix (log_irq E _))
  have hone₁ : (unplayed (s.irq E).log).length < 2 := by rwa [heq₁]
  obtain ⟨rx₂, world₂, heq₂⟩ := irq_still hone₁ hlast
  rw [hclear, heq₂, heq₁]
  refine ⟨h.frame rfl rfl, ?_⟩
  change s.s_bufferEvent &&& ~~~bit half = 0
  rw [hbits, bit_and_not]

theorem Good.markEof (h : Good s) : Good s.markEof := by
  unfold Player.markEof
  split_ifs
  · exact h.frame rfl rfl rfl rfl
  · exact h

theorem isPlaying_markEof (s : Player W) : s.markEof.s_isPlaying = s.s_isPlaying := by
  unfold Player.markEof
  split_ifs <;> rfl

/-- The half whose bit is set is the one that has been sent. It is filled behind the other one. -/
theorem Good.fill (h : Good s) (hplay : s.s_isPlaying = true) (E : Env W) {half : Fin 2}
    (hset : s.s_bufferEvent &&& bit half ≠ 0) :
    Good ((s.clearEvent E (bit half)).fillHalfBuffer E half) := by
  intro htime
  obtain ⟨reads, mono, hlog, hreads, hbuf, hbits, hstill, -⟩ :=
    fillHalfBuffer_cases E (s.clearEvent E (bit half)) half
  have htimeClear : InTime (s.clearEvent E (bit half)).log :=
    htime.of_prefix (log_fillHalfBuffer E _ half)
  have hlogClear : s.log <+: (s.clearEvent E (bit half)).log :=
    (log_irq E s).trans (log_irq E (s.irq E))
  have hplaying : (s.clearEvent E (bit half)).s_isPlaying = true :=
    (isPlaying_irq E _).trans ((isPlaying_irq E s).trans hplay)
  cases h (htimeClear.of_prefix hlogClear) with
  | idle hidle => cases hidle.symm.trans hplay
  | full _ hzero =>
    rw [hzero, UInt8.zero_and] at hset
    exact absurd rfl hset
  | due _ half' hbit y hstage =>
    obtain rfl : half' = half := bit_and_bit (hbit ▸ hset)
    obtain ⟨hcleared, hzero⟩ := hstage.clearEvent Nat.one_lt_two hbit htimeClear
    have hfree : ∀ x, (half', x) ∉ [(half' + 1, y)] := by
      intro x hx
      exact (next_half half').1 (congrArg Prod.fst (List.mem_singleton.mp hx))
    let x : Fill := ((s.clearEvent E (bit half')).s_audioSource, mono)
    have hfilled : Stage _ ([(half' + 1, y)] ++ [(half', x)]) :=
      hcleared.filled hreads hfree hlog hbuf
    refine .full (hstill.trans hplaying) (hbits.trans hzero) (half' + 1) y x ?_
    rw [(next_half half').2]
    exact hfilled

theorem Good.refill (h : Good s) (hplay : s.s_isPlaying = true) (E : Env W) (half : Fin 2) :
    Good (s.refill E half (bit half)) ∧ (s.refill E half (bit half)).s_isPlaying = true := by
  have ht := h.irq E
  have htplay : (s.irq E).s_isPlaying = true := (isPlaying_irq E s).trans hplay
  unfold Player.refill
  dsimp only
  generalize s.irq E = t at ht htplay ⊢
  split_ifs with hset
  · obtain ⟨-, -, -, -, -, -, hstill, -⟩ := fillHalfBuffer_cases E (t.clearEvent E (bit half)) half
    refine ⟨(ht.fill htplay E hset).markEof, ?_⟩
    rw [isPlaying_markEof, hstill]
    exact (isPlaying_irq E _).trans ((isPlaying_irq E t).trans htplay)
  · exact ⟨ht, htplay⟩

theorem Good.stopAtEof (h : Good s) (E : Env W) : Good (s.stopAtEof E) := by
  unfold Player.stopAtEof
  dsimp only
  split_ifs
  · exact (h.irq E).stop E
  · exact h.irq E
  · exact h

theorem Good.stopStream (h : Good s) (E : Env W) : Good (s.stopStream E) := by
  have htick : Good (s.getTick E).1 := h.frame rfl rfl rfl rfl
  unfold Player.stopStream
  dsimp only
  split_ifs
  · exact (htick.irq E).stop E
  · exact htick.irq E
  · exact h

theorem Good.streamRxProcess (h : Good s) (E : Env W) : Good (s.streamRxProcess E) := by
  have hirq := h.irq E
  unfold Player.streamRxProcess
  dsimp only
  generalize s.irq E = t at hirq ⊢
  rcases t.rx.takeReadyBlock with ⟨rx, _ | bufIndex⟩
  · exact hirq.frame rfl rfl rfl rfl
  · have htaken : Good { t with rx := rx } := hirq.frame rfl rfl rfl rfl
    exact (htaken.irq E).quiet rfl rfl rfl rfl (List.forall_mem_singleton.mpr rfl)

theorem Good.process (h : Good s) (hstarts : ∀ w, (E.transmitDma w).1 = true) :
    Good (s.process E) := by
  have hnote : Good ((s.streamRxProcess E).noteStreamData E) := by
    have hrx := h.streamRxProcess E
    unfold noteStreamData
    split_ifs
    · exact hrx.frame rfl rfl rfl rfl
    · exact hrx
  unfold Player.process
  dsimp only
  generalize (s.streamRxProcess E).noteStreamData E = t at hnote ⊢
  have hon : Good (if t.s_isPlaying = true then t.playOn E else t) := by
    split_ifs with hplay
    · obtain ⟨hfirst, hfirstPlay⟩ := hnote.refill hplay E 0
      obtain ⟨hsecond, -⟩ := hfirst.refill hfirstPlay E 1
      exact (hsecond.stopAtEof E).stopStream E
    · exact hnote
  generalize (if t.s_isPlaying = true then t.playOn E else t) = u at hon ⊢
  unfold playNext
  split_ifs
  · exact hon.playNextFromQueue hstarts
  · exact hon.startStream hstarts
  · exact hon

theorem good_audioInit (rx : AudioStreamRx) (world : W) : Good (boot rx world).audioInit :=
  fun _ => .idle rfl ⟨fun _ => rfl, Machine.along_nil, rfl⟩

theorem good_run (E : Env W) (hstarts : ∀ w, (E.transmitDma w).1 = true) (h : Good s)
    (calls : List PlayerCall) : Good ((player E).run s calls) := by
  apply Machine.invariant_run (I := Good) _ h
  intro s call h
  cases call with
  | startWav filename => exact h.startWav hstarts filename
  | startStream => exact h.startStream hstarts
  | guide congestion =>
    have hqueue : Good { s with queue := s.queue.guideEnqueue congestion } :=
      h.frame rfl rfl rfl rfl
    exact hqueue.playNextFromQueue hstarts
  | process => exact h.process hstarts
  | requestStopStream =>
    simp only [Machine.next, player, requestStopStream]
    split_ifs
    · exact h.frame rfl rfl rfl rfl
    · exact h
  | stop => exact h.stop E
  | interrupt i =>
    intro htime
    exact (h (htime.of_prefix (log_isr s i))).isr i htime

/-- Whatever the player is asked for and wherever the interrupts come: as long as each half is
refilled before the DMA has sent the other one, the memory of the two halves is a queue of fills.
`hstarts` is that `HAL_I2S_Transmit_DMA` returns `HAL_OK`: the player calls it with a buffer that is
not empty and with no transfer under way, and `HAL_I2S_DMAStop` leaves the handle ready. What the
DMA sends, and then what is still in the halves, are fills in their order, and of the stream it is
what was pushed into the ring, in order, with the ring's own queue behind it. If nothing is stopped
and every block finds room, nothing is missing. -/
theorem loudspeaker (E : Env W) (hstarts : ∀ w, (E.transmitDma w).1 = true) (world : W)
    (calls : List PlayerCall)
    (htime : InTime ((player E).run (boot .init world).audioInit calls).log) :
    let s := (player E).run (boot .init world).audioInit calls
    (∀ half, s.s_i2sBuf half = stereo (halves s.log half).2) ∧
      (transmitted s.log ++ (unplayed s.log).map Prod.snd <+ fills s.log) ∧
      (streamed (transmitted s.log) ++ streamed ((unplayed s.log).map Prod.snd) ++
        (sampleQueue s.log).map value <+ s.log.flatMap Event.sentSamples) ∧
      (.stopped ∉ s.log → NoneDropped s.log →
        transmitted s.log ++ (unplayed s.log).map Prod.snd = fills s.log ∧
          streamed (transmitted s.log) ++ streamed ((unplayed s.log).map Prod.snd) ++
            (sampleQueue s.log).map value = s.log.flatMap Event.sentSamples) := by
  intro s
  obtain ⟨q, hstage⟩ := (good_run E hstarts (good_audioInit .init world) calls htime).stage
  have hplayed : PlayedInTurn s.log := (sampled_run E (sampled_audioInit world) calls).played
  have htrace : memory.trace silence (halfOps s.log) = fifo.trace [] (halfOps s.log) :=
    trace_memory nofun hstage.proper
  have hsub : transmitted s.log ++ (unplayed s.log).map Prod.snd <+ fills s.log := by
    rw [transmitted, htrace]
    exact taken_sublist [] _
  refine ⟨hstage.holds, hsub, ?_, fun hstopped hroom => ?_⟩
  · rw [← streamed_append]
    refine List.Sublist.trans (List.Sublist.append_right ?_ _) (played_sublist hplayed)
    rw [← streamed_fills]
    exact hsub.flatMap _
  · have hall : transmitted s.log ++ (unplayed s.log).map Prod.snd = fills s.log := by
      rw [transmitted, htrace]
      apply taken_eq
      rintro op hop rfl
      obtain ⟨e, he, heq⟩ := List.mem_filterMap.mp hop
      cases e with
      | stopped => exact hstopped he
      | _ => cases heq
    rw [← streamed_append, hall, streamed_fills, played_eq hplayed hroom]
    exact ⟨rfl, rfl⟩

/-- A WAV file with one sample, and the event at the end of the first half. -/
def oneSample : List UInt8 := List.replicate playerWavHeaderSize 0 ++ [1, 0]

def firstHalfSent : Player WavWorld :=
  (player (circularDma oneSample)).run (boot .init ⟨0, false, 0, none⟩).audioInit
    [.startWav "warning.wav", .interrupt .txHalfCplt]

theorem log_firstHalfSent : firstHalfSent.log =
    [.opened, .read, .filled 0 .wav [1], .filled 1 .wav []] ++ [.sent 0] := rfl

theorem inTime_firstHalfSent : InTime firstHalfSent.log := by
  rw [log_firstHalfSent, InTime, throughout_concat]
  refine ⟨fun before e h half he => ?_, ?_⟩
  · have hmem := h.subset (List.mem_append_right before (List.mem_singleton_self e))
    rw [he] at hmem
    simp at hmem
  · rintro half ⟨⟩
    exact ⟨(.wav, [1]), (.wav, []), rfl⟩

theorem loudspeaker_firstHalfSent :
    transmitted firstHalfSent.log ++ (unplayed firstHalfSent.log).map Prod.snd =
      fills firstHalfSent.log := by
  refine ((loudspeaker (circularDma oneSample) (fun _ => rfl) ⟨0, false, 0, none⟩
    [.startWav "warning.wav", .interrupt .txHalfCplt] inTime_firstHalfSent).2.2.2 ?_ ?_).1
  · change .stopped ∉ firstHalfSent.log
    rw [log_firstHalfSent]
    decide
  · change NoneDropped firstHalfSent.log
    rw [log_firstHalfSent]
    intro before e h bytes he
    have hmem := h.subset (List.mem_append_right before (List.mem_singleton_self e))
    rw [he] at hmem
    simp at hmem

end Player

end JeogiAt.Audio
