import JeogiAt.AudioPlayer
import Mathlib.Data.List.Chain

/-!
# The end of a WAV file

The DMA transmits the two halves of the buffer in turn and raises an event at the end of each. The
player meets the end of the file when it fills a half, which is one to two events before that half
has been heard, and stops at once.

`playedToEnd_iff`: nothing is cut off exactly when all samples of the file are in the first half
that is filled. In a longer one the half that the DMA transmits at the stop is `Sounding`.
-/

namespace JeogiAt.Audio

/-- The card, with the position in the open file, and the DMA: whether it runs, which half it
transmits, and at which of the next interrupts the event at its end comes. -/
structure WavWorld where
  pos : ℕ
  running : Bool
  next : Fin 2
  due : Option ℕ

def completion (half : Fin 2) : Interrupt := if half = 0 then .txHalfCplt else .txCplt

/-- A card that reads all that is asked for up to the end of the file, and the circular DMA. -/
def circularDma (file : List UInt8) : Env WavWorld where
  f_open w _ := (true, { w with pos := 0 })
  f_lseek w ofs := (true, { w with pos := min ofs file.length })
  f_read w n := ((file.drop w.pos).take n, { w with pos := min (w.pos + n) file.length })
  f_close w := w
  transmitDma w := (true, { w with running := true, next := 0 })
  dmaStop w := { w with running := false }
  getTick w := (0, w)
  interrupts w :=
    match w.due with
    | none => ([], w)
    | some (k + 1) => ([], { w with due := some k })
    | some 0 =>
        if w.running then ([completion w.next], { w with next := w.next + 1, due := none })
        else ([], { w with due := none })
  length_f_read _ n := List.length_take_le n _

/-- A DMA event between two calls, or a call of `Audio_Process`, possibly with an event in it. -/
inductive Turn
  | dma
  | process (interrupted : Option ℕ)

def Turn.isDma : Turn → Bool
  | .dma => true
  | .process interrupted => interrupted.isSome

/-- Between two DMA events there is a whole call of `Audio_Process`. -/
def ProcessedBetween (turns : List Turn) : Prop :=
  turns.IsChain fun a b => ¬ (a.isDma = true ∧ b.isDma = true)

def Player.setDue (s : Player WavWorld) (due : Option ℕ) : Player WavWorld :=
  { s with world := { s.world with due := due } }

def wavPlayback (file : List UInt8) : Machine (Player WavWorld) Turn Unit where
  step s
    | .dma => ((s.setDue (some 0)).irq (circularDma file), ())
    | .process interrupted => ((s.setDue interrupted).process (circularDma file), ())

/-- The player after `Audio_Init`, the start of the file, and some turns. -/
def wavStart (file : List UInt8) (filename : String) : Player WavWorld :=
  ((Player.boot .init ⟨0, false, 0, none⟩).audioInit.startWav (circularDma file) filename).1

/-- The half holds samples of the file that have not been transmitted since they were filled in. -/
def Unsent (log : List Event) (half : Fin 2) : Prop :=
  ∃ before after source mono, log = before ++ .filled half source mono :: after ∧
    mono ≠ [] ∧ .sent half ∉ after

/-- At each stop, every half filled with samples has been transmitted. -/
def PlayedToEnd : List Event → Prop :=
  Throughout fun before e => e = .stopped → ∀ half, ¬ Unsent before half

theorem unsent_concat {log : List Event} {e : Event} {half : Fin 2} :
    Unsent (log ++ [e]) half ↔
      (Unsent log half ∧ e ≠ .sent half) ∨
        ∃ source mono, e = .filled half source mono ∧ mono ≠ [] := by
  constructor
  · rintro ⟨before, after, source, mono, heq, hmono, hafter⟩
    rcases List.eq_nil_or_concat after with rfl | ⟨after, e', rfl⟩
    · obtain ⟨-, rfl⟩ := List.append_singleton_inj.mp heq
      exact .inr ⟨source, mono, rfl, hmono⟩
    · rw [List.concat_eq_append, ← List.cons_append, ← List.append_assoc] at heq
      obtain ⟨rfl, rfl⟩ := List.append_singleton_inj.mp heq
      rw [List.concat_eq_append, List.mem_append, not_or, List.mem_singleton] at hafter
      exact .inl ⟨⟨before, after, source, mono, rfl, hmono, hafter.1⟩, fun he => hafter.2 he.symm⟩
  · rintro (⟨⟨before, after, source, mono, rfl, hmono, hafter⟩, he⟩ | ⟨source, mono, rfl, hmono⟩)
    · refine ⟨before, after ++ [e], source, mono, List.append_assoc .., hmono, ?_⟩
      rw [List.mem_append, not_or, List.mem_singleton]
      exact ⟨hafter, fun h => he h.symm⟩
    · exact ⟨log, [], source, mono, rfl, hmono, List.not_mem_nil⟩

theorem Unsent.append {log : List Event} {half : Fin 2} (h : Unsent log half) {es : List Event}
    (hes : .sent half ∉ es) : Unsent (log ++ es) half := by
  obtain ⟨before, after, source, mono, rfl, hmono, hafter⟩ := h
  refine ⟨before, after ++ es, source, mono, List.append_assoc .., hmono, ?_⟩
  rw [List.mem_append, not_or]
  exact ⟨hafter, hes⟩

theorem not_unsent_nil (half : Fin 2) : ¬ Unsent [] half := by
  rintro ⟨before, after, source, mono, heq, -⟩
  cases List.append_ne_nil_of_right_ne_nil before (List.cons_ne_nil _ after) heq.symm

theorem Unsent.of_append {log es : List Event} {half : Fin 2} (h : Unsent (log ++ es) half)
    (hes : ∀ source mono, .filled half source mono ∈ es → mono = []) : Unsent log half := by
  induction es using List.reverseRecOn with
  | nil => rwa [List.append_nil] at h
  | append_singleton es e ih =>
    rw [← List.append_assoc, unsent_concat] at h
    rcases h with ⟨h, -⟩ | ⟨source, mono, rfl, hmono⟩
    · exact ih h fun source mono he => hes source mono (List.mem_append_left _ he)
    · exact absurd (hes source mono List.mem_concat_self) hmono

theorem playedToEnd_concat {log : List Event} {e : Event} :
    PlayedToEnd (log ++ [e]) ↔ PlayedToEnd log ∧ (e = .stopped → ∀ half, ¬ Unsent log half) :=
  throughout_concat

theorem PlayedToEnd.append {log es : List Event} (h : PlayedToEnd log) (hes : .stopped ∉ es) :
    PlayedToEnd (log ++ es) := by
  induction es using List.reverseRecOn with
  | nil => rwa [List.append_nil]
  | append_singleton es e ih =>
    rw [List.mem_append, not_or, List.mem_singleton] at hes
    rw [← List.append_assoc, playedToEnd_concat]
    exact ⟨ih hes.1, fun he => absurd he.symm hes.2⟩

namespace Player

variable {file : List UInt8} {s : Player WavWorld}

/-- The bit that the event at the end of a half sets. -/
def bit (half : Fin 2) : UInt8 := if half = 0 then 0x01 else 0x02

theorem next_half (half : Fin 2) : half ≠ half + 1 ∧ half + 1 + 1 = half := by
  revert half
  decide

theorem irq_of_due_none (h : s.world.due = none) : s.irq (circularDma file) = s := by
  simp only [irq, circularDma, h]
  rfl

def sentHalf (s : Player WavWorld) : Player WavWorld :=
  { s with
    s_bufferEvent := s.s_bufferEvent ||| bit s.world.next
    world := { s.world with next := s.world.next + 1, due := none }
    log := s.log ++ [.sent s.world.next] }

theorem irq_of_due_zero (hrun : s.world.running = true) (h : s.world.due = some 0) :
    s.irq (circularDma file) = s.sentHalf := by
  simp only [irq, circularDma, sentHalf, h, hrun, if_true]
  generalize s.world.next = half
  rcases Fin.exists_fin_two.mp ⟨half, rfl⟩ with rfl | rfl <;> rfl

theorem irq_of_not_running (file : List UInt8) (h : s.world.running = false) :
    ∃ due, s.irq (circularDma file) = s.setDue due := by
  have hrun : ¬ s.world.running = true := Bool.eq_false_iff.mp h
  rcases hdue : s.world.due with _ | _ | k
  · exact ⟨s.world.due, irq_of_due_none hdue⟩
  · refine ⟨none, ?_⟩
    simp only [irq, circularDma, hdue, if_neg hrun]
    rfl
  · refine ⟨some k, ?_⟩
    simp only [irq, circularDma, hdue]
    rfl

theorem irq_circularDma_cases (file : List UInt8) (s : Player WavWorld) :
    (∃ due, s.irq (circularDma file) = s.setDue due) ∨
      s.irq (circularDma file) = s.sentHalf := by
  cases hrun : s.world.running with
  | false => exact .inl (irq_of_not_running file hrun)
  | true =>
    rcases hdue : s.world.due with _ | _ | k
    · exact .inl ⟨s.world.due, irq_of_due_none hdue⟩
    · exact .inr (irq_of_due_zero hrun hdue)
    · refine .inl ⟨some k, ?_⟩
      simp only [irq, circularDma, hdue]
      rfl

theorem streamRxProcess_idle (hrx : (s.irq (circularDma file)).rx = .init) :
    s.streamRxProcess (circularDma file) = s.irq (circularDma file) := by
  have htake : AudioStreamRx.takeReadyBlock .init = (.init, none) := rfl
  simp only [streamRxProcess, hrx, htake]
  rw [← hrx]

theorem noteStreamData_idle (hrx : s.rx = .init) : s.noteStreamData (circularDma file) = s := by
  rw [noteStreamData, hrx]
  exact if_neg (Nat.lt_irrefl 0)

theorem stopStream_idle (h : s.s_audioSource ≠ .stream) : s.stopStream (circularDma file) = s :=
  if_neg h

theorem playNext_idle (hrx : s.rx = .init) (hqueue : s.queue.isQueueEmpty = true) :
    s.playNext (circularDma file) = s := by
  have hshort : s.rx.available < streamPrebufferBytes := by
    rw [hrx]
    exact Nat.zero_lt_succ _
  have hnot : ¬ (!true) = true := Bool.false_ne_true
  rw [playNext, hqueue, if_neg hnot, startStream, if_pos hshort]
  split_ifs <;> rfl

theorem refill_of_clear (h : s.world.due = none) {half : Fin 2} {bit : UInt8}
    (hbit : s.s_bufferEvent &&& bit = 0) : s.refill (circularDma file) half bit = s := by
  rw [refill, irq_of_due_none h]
  exact if_neg (not_not_intro hbit)

theorem refill_of_set (h : s.world.due = none) {half : Fin 2} {bit : UInt8}
    (hbit : s.s_bufferEvent &&& bit ≠ 0) : s.refill (circularDma file) half bit =
      (({ s with s_bufferEvent := s.s_bufferEvent &&& ~~~bit }).fillHalfBuffer
        (circularDma file) half).markEof := by
  rw [refill, irq_of_due_none h, if_pos hbit, clearEvent, irq_of_due_none h, irq_of_due_none h]

theorem length_wavSamples (file : List UInt8) (s : Player WavWorld) :
    (s.wavSamples (circularDma file)).length =
      min (playerMonoSamples * 2) (file.length - s.world.pos) / 2 := by
  rw [wavSamples, length_monoSamples]
  simp only [circularDma, List.length_take, List.length_drop]

theorem fill_cases (file : List UInt8) (hsource : s.s_audioSource = .wav) (half : Fin 2) :
    ∃ wavEof pos reads mono, s.fillHalfBuffer (circularDma file) half =
        { s with
          s_i2sBuf := Function.update s.s_i2sBuf half (stereo mono)
          s_wavEof := wavEof
          world := { s.world with pos := pos }
          log := s.log ++ reads ++ [.filled half .wav mono] } ∧
      (∀ e ∈ reads, e = Event.read) ∧ (s.s_wavEof = true → wavEof = true ∧ mono = []) ∧
      (s.s_wavEof = false →
        mono.length = min (playerMonoSamples * 2) (file.length - s.world.pos) / 2 ∧
        wavEof = decide (mono.length < playerMonoSamples) ∧
        pos = min (s.world.pos + playerMonoSamples * 2) file.length) := by
  cases heof : s.s_wavEof with
  | true =>
    refine ⟨true, s.world.pos, [], [], ?_, fun e he => absurd he List.not_mem_nil,
      fun _ => ⟨rfl, rfl⟩, fun h => Bool.noConfusion h⟩
    rw [fillHalfBuffer_eof _ hsource heof, store, hsource, List.append_nil]
    simp only [heof]
  | false =>
    refine ⟨_, _, [.read], s.wavSamples (circularDma file), ?_,
      fun e he => List.mem_singleton.mp he, fun h => Bool.noConfusion h,
      fun _ => ⟨length_wavSamples file s, rfl, rfl⟩⟩
    rw [fillHalfBuffer_wav _ hsource heof, List.append_assoc]
    rfl

theorem markEof_wav (hsource : s.s_audioSource = .wav) :
    s.markEof = { s with s_stopPending := s.s_wavEof || s.s_stopPending } := by
  by_cases heof : s.s_wavEof = true
  · rw [markEof, if_pos ⟨hsource, heof⟩, heof, Bool.true_or]
  · have hor : (s.s_wavEof || s.s_stopPending) = s.s_stopPending := by
      rw [Bool.eq_false_iff.mpr heof, Bool.false_or]
    rw [markEof, if_neg fun h => heof h.2, hor]

structure Alone (s : Player WavWorld) : Prop where
  rx : s.rx = .init
  queue : s.queue.isQueueEmpty = true
  playing : s.s_isPlaying = true
  source : s.s_audioSource = .wav

structure Ended (s : Player WavWorld) : Prop where
  rx : s.rx = .init
  queue : s.queue.isQueueEmpty = true
  playing : s.s_isPlaying = false
  source : s.s_audioSource = .none

theorem stop_cases (file : List UInt8) (h : Alone s) :
    (s.stop (circularDma file)).log = s.log ++ [.stopped] ++ [.closed] ∧
      Ended (s.stop (circularDma file)) := by
  have hstopped : ((s.dmaStop (circularDma file)).f_close (circularDma file)).world.running =
      false := rfl
  obtain ⟨due, hirq⟩ := irq_of_not_running file hstopped
  have hnot : ¬ (!s.s_isPlaying) = true := by
    rw [h.playing]
    exact Bool.false_ne_true
  have hwav : (s.dmaStop (circularDma file)).s_audioSource = .wav := h.source
  unfold stop
  rw [if_neg hnot]
  dsimp only
  rw [if_pos hwav, hirq]
  exact ⟨rfl, h.rx, h.queue, rfl, rfl⟩

/-- The two refills for the event of one half, with no other event in between. -/
theorem refills_eq (hsource : s.s_audioSource = .wav) (hdue : s.world.due = none) (half : Fin 2)
    (hevent : s.s_bufferEvent = bit half) :
    (s.refill (circularDma file) 0 0x01).refill (circularDma file) 1 0x02 =
      (({ s with s_bufferEvent := 0 }).fillHalfBuffer (circularDma file) half).markEof := by
  rcases Fin.exists_fin_two.mp ⟨half, rfl⟩ with rfl | rfl
  · have hbit : s.s_bufferEvent &&& 0x01 ≠ 0 := by rw [hevent]; decide
    have hclear : s.s_bufferEvent &&& ~~~0x01 = 0 := by rw [hevent]; decide
    rw [refill_of_set hdue hbit, hclear]
    apply refill_of_clear
    · obtain ⟨_, _, _, _, heq, -⟩ :=
        fill_cases (s := { s with s_bufferEvent := 0 }) file hsource 0
      rw [heq, markEof_wav (by exact hsource)]
      exact hdue
    · obtain ⟨_, _, _, _, heq, -⟩ :=
        fill_cases (s := { s with s_bufferEvent := 0 }) file hsource 0
      rw [heq, markEof_wav (by exact hsource)]
      exact UInt8.zero_and
  · have hskip : s.s_bufferEvent &&& 0x01 = 0 := by rw [hevent]; decide
    have hbit : s.s_bufferEvent &&& 0x02 ≠ 0 := by rw [hevent]; decide
    have hclear : s.s_bufferEvent &&& ~~~0x02 = 0 := by rw [hevent]; decide
    rw [refill_of_clear hdue hskip, refill_of_set hdue hbit, hclear]

/-- The file plays, all events have been seen to, and the half that the DMA does not transmit
holds samples not sent yet. -/
structure Sounding (s : Player WavWorld) : Prop extends Alone s where
  event : s.s_bufferEvent = 0
  pending : s.s_stopPending = false
  running : s.world.running = true
  due : s.world.due = none
  unsent : Unsent s.log (s.world.next + 1)

/-- The same after the event at the end of a half. -/
structure Signalled (s : Player WavWorld) : Prop extends Alone s where
  event : s.s_bufferEvent = bit (s.world.next + 1)
  pending : s.s_stopPending = false
  running : s.world.running = true
  due : s.world.due = none
  unsent : Unsent s.log s.world.next

def afterRefills (file : List UInt8) (s : Player WavWorld) : Player WavWorld :=
  let s := (s.stopAtEof (circularDma file)).stopStream (circularDma file)
  if !s.s_isPlaying then s.playNext (circularDma file) else s

theorem process_eq (h : Alone s) (hdue : s.world.due = none) :
    s.process (circularDma file) = afterRefills file
      ((s.refill (circularDma file) 0 0x01).refill (circularDma file) 1 0x02) := by
  have hirq : s.irq (circularDma file) = s := irq_of_due_none hdue
  unfold process
  dsimp only
  rw [streamRxProcess_idle (hirq.symm ▸ h.rx), hirq, noteStreamData_idle h.rx, if_pos h.playing]
  rfl

theorem afterRefills_of_playing (h : Alone (s.stopAtEof (circularDma file))) :
    afterRefills file s = s.stopAtEof (circularDma file) := by
  rw [afterRefills, stopStream_idle (h.source ▸ AudioSource.noConfusion), h.playing]
  rfl

theorem afterRefills_of_ended (h : Ended (s.stopAtEof (circularDma file))) :
    afterRefills file s = s.stopAtEof (circularDma file) := by
  rw [afterRefills, stopStream_idle (h.source ▸ AudioSource.noConfusion), h.playing,
    playNext_idle h.rx h.queue]
  rfl

theorem afterRefills_of_eof (h : Alone s) (heof : s.s_wavEof = true)
    (hpending : s.s_stopPending = true) (hevent : s.s_bufferEvent = 0)
    (hdue : s.world.due = none) :
    (afterRefills file s).log = s.log ++ [.stopped] ++ [.closed] := by
  have hstop : s.stopAtEof (circularDma file) = s.stop (circularDma file) := by
    rw [stopAtEof, if_pos ⟨h.source, hpending, heof⟩, irq_of_due_none hdue]
    exact if_pos hevent
  obtain ⟨hlog, hended⟩ := stop_cases file h
  rw [afterRefills_of_ended (hstop.symm ▸ hended), hstop]
  exact hlog

theorem afterRefills_of_not_eof (h : Alone s) (heof : s.s_wavEof = false) :
    afterRefills file s = s := by
  have hstop : s.stopAtEof (circularDma file) = s :=
    if_neg fun hstop => by cases heof.symm.trans hstop.2.2
  rw [afterRefills_of_playing (hstop.symm ▸ h), hstop]

theorem Sounding.dma (h : Sounding s) (file : List UInt8) :
    Signalled ((s.setDue (some 0)).irq (circularDma file)) ∧
      ((s.setDue (some 0)).irq (circularDma file)).world.pos = s.world.pos := by
  obtain ⟨hother, hback⟩ := next_half s.world.next
  rw [irq_of_due_zero (s := s.setDue (some 0)) h.running rfl]
  refine ⟨⟨⟨h.rx, h.queue, h.playing, h.source⟩, ?_, h.pending, h.running, rfl, ?_⟩, rfl⟩
  · change s.s_bufferEvent ||| bit s.world.next = bit (s.world.next + 1 + 1)
    rw [h.event, hback]
    exact UInt8.zero_or
  · refine h.unsent.append ?_
    rw [List.mem_singleton]
    exact fun he => hother (Event.sent.inj he).symm

/-- After an event the refill either meets the end of the file, and the player stops too early, or
takes in another half. -/
theorem Signalled.processed (h : Signalled s) :
    ¬ PlayedToEnd (s.process (circularDma file)).log ∨
      Sounding (s.process (circularDma file)) ∧
        (s.process (circularDma file)).world.pos = s.world.pos + playerMonoSamples * 2 ∧
        (s.process (circularDma file)).world.pos ≤ file.length := by
  obtain ⟨wavEof, pos, reads, mono, hfill, hreads, hstay, hread⟩ :=
    fill_cases (s := { s with s_bufferEvent := 0 }) file h.source (s.world.next + 1)
  have hsent : ∀ half, Event.sent half ∉ reads ++ [.filled (s.world.next + 1) .wav mono] := by
    intro half he
    rcases List.mem_append.mp he with he | he
    · cases hreads _ he
    · cases List.mem_singleton.mp he
  rw [process_eq h.toAlone h.due, refills_eq h.source h.due _ h.event, hfill,
    markEof_wav (by exact h.source)]
  generalize ht : ({ s with
    s_bufferEvent := 0
    s_i2sBuf := Function.update s.s_i2sBuf (s.world.next + 1) (stereo mono)
    s_wavEof := wavEof
    s_stopPending := wavEof || s.s_stopPending
    world := { s.world with pos := pos }
    log := s.log ++ reads ++ [.filled (s.world.next + 1) .wav mono] } : Player WavWorld) = t
  have halone : Alone t := ht ▸ ⟨h.rx, h.queue, h.playing, h.source⟩
  have hevent : t.s_bufferEvent = 0 := ht ▸ rfl
  have hdue : t.world.due = none := ht ▸ h.due
  have hlog : t.log = s.log ++ (reads ++ [.filled (s.world.next + 1) .wav mono]) :=
    ht ▸ List.append_assoc ..
  cases wavEof with
  | true =>
    left
    rw [afterRefills_of_eof halone (ht ▸ rfl) (ht ▸ rfl) hevent hdue, playedToEnd_concat,
      playedToEnd_concat]
    rintro ⟨⟨-, hstop⟩, -⟩
    refine hstop rfl s.world.next ?_
    rw [hlog]
    exact h.unsent.append (hsent _)
  | false =>
    right
    have heof : s.s_wavEof = false := by
      cases heof : s.s_wavEof with
      | true => cases (hstay heof).1
      | false => rfl
    obtain ⟨hlen, hshort, hpos⟩ := hread heof
    rw [eq_comm, decide_eq_false_iff_not] at hshort
    rw [afterRefills_of_not_eof halone (ht ▸ rfl)]
    subst ht
    refine ⟨⟨halone, rfl, h.pending, h.running, h.due, ?_⟩, ?_⟩
    · refine unsent_concat.mpr (.inr ⟨.wav, mono, rfl, ?_⟩)
      rw [← List.length_pos_iff]
      simp only [playerMonoSamples] at hshort
      omega
    · simp only [playerMonoSamples] at hlen hshort hpos ⊢
      omega

/-- The same of a round, a DMA event and a call of `Audio_Process`. -/
theorem Sounding.round (h : Sounding s) (file : List UInt8) :
    ¬ PlayedToEnd ((wavPlayback file).run s [.dma, .process none]).log ∨
      Sounding ((wavPlayback file).run s [.dma, .process none]) ∧
        ((wavPlayback file).run s [.dma, .process none]).world.pos =
          s.world.pos + playerMonoSamples * 2 ∧
        ((wavPlayback file).run s [.dma, .process none]).world.pos ≤ file.length := by
  obtain ⟨hsignal, hpos⟩ := h.dma file
  have hdue : ((s.setDue (some 0)).irq (circularDma file)).setDue none =
      (s.setDue (some 0)).irq (circularDma file) := by
    rw [setDue, ← hsignal.due]
  have hrun : (wavPlayback file).run s [.dma, .process none] =
      ((s.setDue (some 0)).irq (circularDma file)).process (circularDma file) := by
    rw [← hdue]
    rfl
  rw [hrun, ← hpos]
  exact hsignal.processed

def rounds (n : ℕ) : List Turn := (List.replicate n [.dma, .process none]).flatten

theorem rounds_succ (n : ℕ) : rounds (n + 1) = [.dma, .process none] ++ rounds n := by
  rw [rounds, List.replicate_succ, List.flatten_cons]
  rfl

theorem processedBetween_rounds (n : ℕ) : ProcessedBetween (rounds n) := by
  induction n with
  | zero => exact List.isChain_nil
  | succ n ih =>
    rw [rounds_succ]
    refine List.isChain_cons_cons.mpr ⟨fun h => Bool.noConfusion h.2, ?_⟩
    exact List.isChain_cons.mpr ⟨fun turn _ h => Bool.noConfusion h.1, ih⟩

theorem Sounding.exists_cut (h : Sounding s) (file : List UInt8) :
    ∃ n, ¬ PlayedToEnd ((wavPlayback file).run s (rounds n)).log := by
  induction hleft : file.length - s.world.pos using Nat.strong_induction_on generalizing s with
  | _ left ih =>
    rcases h.round file with hcut | ⟨hsound, hnext, hle⟩
    · refine ⟨1, ?_⟩
      rwa [rounds_succ, Machine.run_append]
    · simp only [playerMonoSamples] at hnext
      obtain ⟨n, hn⟩ := ih _ (by omega) hsound rfl
      refine ⟨n + 1, ?_⟩
      rwa [rounds_succ, Machine.run_append]

def opened (file : List UInt8) : Player WavWorld :=
  { boot .init ⟨min playerWavHeaderSize file.length, false, 0, none⟩ with
    s_audioSource := .wav
    log := [.opened] }

theorem wavStart_eq (file : List UInt8) (filename : String) : wavStart file filename =
    (((opened file).prefill (circularDma file)).transmitDma (circularDma file)).1.setPlaying true :=
  rfl

/-- The two fills before the start. The second one is empty exactly when all samples of the file
are in the first one, and the end of the file has been met then. -/
theorem prefill_cases (file : List UInt8) :
    ∃ wavEof pos before mono reads last, (opened file).prefill (circularDma file) =
        { opened file with
          s_i2sBuf := Function.update (Function.update (fun _ => stereo []) 0 (stereo mono)) 1
            (stereo last)
          s_wavEof := wavEof
          world := { (opened file).world with pos := pos }
          log := before ++ [.filled 0 .wav mono] ++ reads ++ [.filled 1 .wav last] } ∧
      (∀ e ∈ before, e = .opened ∨ e = .read) ∧ (∀ e ∈ reads, e = Event.read) ∧
      if (file.length - playerWavHeaderSize) / 2 ≤ playerMonoSamples then wavEof = true ∧ last = []
      else last ≠ [] ∧
        pos = min (playerWavHeaderSize + playerMonoSamples * 2 + playerMonoSamples * 2)
          file.length := by
  obtain ⟨eof₀, pos₀, reads₀, mono, hfirst, hreads₀, -, hread₀⟩ :=
    fill_cases (s := { opened file with s_i2sBuf := fun _ => stereo [] }) file rfl 0
  obtain ⟨eof₁, pos₁, reads₁, last, hsecond, hreads₁, hstay₁, hread₁⟩ :=
    fill_cases (s := { opened file with
      s_i2sBuf := Function.update (fun _ => stereo []) 0 (stereo mono)
      s_wavEof := eof₀
      world := { (opened file).world with pos := pos₀ }
      log := (opened file).log ++ reads₀ ++ [.filled 0 .wav mono] }) file rfl 1
  refine ⟨eof₁, pos₁, .opened :: reads₀, mono, reads₁, last, ?_, ?_, hreads₁, ?_⟩
  · unfold prefill
    dsimp only
    rw [hfirst]
    exact hsecond
  · exact List.forall_mem_cons.mpr ⟨.inl rfl, fun e he => .inr (hreads₀ e he)⟩
  · obtain ⟨hlen₀, heof₀, hpos₀⟩ := hread₀ rfl
    have hstart : (opened file).world.pos = min playerWavHeaderSize file.length := rfl
    simp only [playerMonoSamples, playerWavHeaderSize, hstart] at hlen₀ heof₀ hpos₀ hread₁ ⊢
    cases eof₀ with
    | true =>
      rw [eq_comm, decide_eq_true_iff] at heof₀
      rw [if_pos (by omega)]
      exact hstay₁ rfl
    | false =>
      rw [eq_comm, decide_eq_false_iff_not] at heof₀
      obtain ⟨hlen₁, heof₁, hpos₁⟩ := hread₁ rfl
      split_ifs with hshort
      · have hzero : last.length = 0 := by omega
        rw [heof₁, hzero]
        exact ⟨rfl, List.length_eq_zero_iff.mp hzero⟩
      · rw [← List.length_pos_iff]
        exact ⟨by omega, by omega⟩

theorem sounding_wavStart (hlong : ¬ (file.length - playerWavHeaderSize) / 2 ≤ playerMonoSamples)
    (filename : String) : Sounding (wavStart file filename) ∧
      (wavStart file filename).world.pos =
        min (playerWavHeaderSize + playerMonoSamples * 2 + playerMonoSamples * 2) file.length := by
  obtain ⟨wavEof, pos, before, mono, reads, last, hfill, -, -, hlast⟩ := prefill_cases file
  rw [if_neg hlong] at hlast
  rw [wavStart_eq, hfill]
  refine ⟨⟨⟨rfl, rfl, rfl, rfl⟩, rfl, rfl, rfl, rfl, ?_⟩, hlast.2⟩
  exact unsent_concat.mpr (.inr ⟨.wav, last, rfl, hlast.1⟩)

/-- The end of the file has been met, and only the first half, before its event, may hold samples
not sent yet. -/
structure Draining (s : Player WavWorld) : Prop extends Alone s where
  eof : s.s_wavEof = true
  played : PlayedToEnd s.log
  second : ¬ Unsent s.log 1
  first : Unsent s.log 0 → s.s_bufferEvent = 0 ∧ s.s_stopPending = false ∧ s.world.next = 0

structure Heard (s : Player WavWorld) : Prop extends Alone s where
  eof : s.s_wavEof = true
  played : PlayedToEnd s.log
  sent : ∀ half, ¬ Unsent s.log half

theorem draining_wavStart (hshort : (file.length - playerWavHeaderSize) / 2 ≤ playerMonoSamples)
    (filename : String) : Draining (wavStart file filename) := by
  obtain ⟨wavEof, pos, before, mono, reads, last, hfill, hbefore, hreads, hlast⟩ :=
    prefill_cases file
  rw [if_pos hshort] at hlast
  obtain ⟨rfl, rfl⟩ := hlast
  rw [wavStart_eq, hfill]
  have hmem : ∀ e ∈ before ++ [.filled 0 .wav mono] ++ reads ++ [.filled 1 .wav []],
      e = .opened ∨ e = .read ∨ e = .filled 0 .wav mono ∨ e = .filled 1 .wav [] := by
    intro e he
    simp only [List.mem_append, List.mem_singleton] at he
    rcases he with ((he | rfl) | he) | rfl
    · exact (hbefore e he).imp_right .inl
    · exact .inr (.inr (.inl rfl))
    · exact .inr (.inl (hreads e he))
    · exact .inr (.inr (.inr rfl))
  refine ⟨⟨rfl, rfl, rfl, rfl⟩, rfl, ?_, ?_, fun _ => ⟨rfl, rfl, rfl⟩⟩
  · refine @PlayedToEnd.append [] _ throughout_nil fun he => ?_
    rcases hmem _ he with h | h | h | h <;> cases h
  · intro hunsent
    refine not_unsent_nil 1 (@Unsent.of_append [] _ _ hunsent fun source mono he => ?_)
    rcases hmem _ he with h | h | h | h <;> cases h
    rfl

theorem Heard.draining (h : Heard s) : Draining s :=
  ⟨h.toAlone, h.eof, h.played, h.sent 1, fun hunsent => absurd hunsent (h.sent 0)⟩

theorem Draining.heard (h : Draining s) (hfirst : ¬ Unsent s.log 0) : Heard s :=
  ⟨h.toAlone, h.eof, h.played, Fin.forall_fin_two.mpr ⟨hfirst, h.second⟩⟩

theorem Heard.irq (h : Heard s) (file : List UInt8) : Heard (s.irq (circularDma file)) := by
  rcases irq_circularDma_cases file s with ⟨due, heq⟩ | heq
  · rw [heq]
    exact ⟨⟨h.rx, h.queue, h.playing, h.source⟩, h.eof, h.played, h.sent⟩
  · rw [heq]
    refine ⟨⟨h.rx, h.queue, h.playing, h.source⟩, h.eof, ?_, fun half hunsent => ?_⟩
    · exact h.played.append fun he => by cases List.mem_singleton.mp he
    · refine h.sent half (hunsent.of_append fun source mono he => ?_)
      cases List.mem_singleton.mp he

theorem Draining.irq (h : Draining s) (file : List UInt8) :
    Draining (s.irq (circularDma file)) := by
  rcases irq_circularDma_cases file s with ⟨due, heq⟩ | heq
  · rw [heq]
    exact ⟨⟨h.rx, h.queue, h.playing, h.source⟩, h.eof, h.played, h.second, h.first⟩
  · rw [heq]
    refine ⟨⟨h.rx, h.queue, h.playing, h.source⟩, h.eof, ?_, fun hunsent => ?_, fun hunsent => ?_⟩
    · exact h.played.append fun he => by cases List.mem_singleton.mp he
    · refine h.second (hunsent.of_append fun source mono he => ?_)
      cases List.mem_singleton.mp he
    · -- an event while the first half waits is the event of that half
      rcases unsent_concat.mp hunsent with ⟨hunsent, hother⟩ | ⟨source, mono, he, -⟩
      · rw [(h.first hunsent).2.2] at hother
        exact absurd rfl hother
      · cases he

theorem Heard.fillHalfBuffer (h : Heard s) (file : List UInt8) (half : Fin 2) :
    Heard (s.fillHalfBuffer (circularDma file) half) := by
  rw [fillHalfBuffer_eof _ h.source h.eof]
  refine ⟨⟨h.rx, h.queue, h.playing, h.source⟩, h.eof, ?_, fun half' hunsent => ?_⟩
  · exact h.played.append fun he => by cases List.mem_singleton.mp he
  · refine h.sent half' (hunsent.of_append fun source mono he => ?_)
    cases List.mem_singleton.mp he
    rfl

theorem Heard.markEof (h : Heard s) : Heard s.markEof := by
  rw [markEof_wav h.source]
  exact ⟨⟨h.rx, h.queue, h.playing, h.source⟩, h.eof, h.played, h.sent⟩

theorem Draining.refill (h : Draining s) (file : List UInt8) (half : Fin 2) (bit : UInt8) :
    Draining (s.refill (circularDma file) half bit) := by
  have hirq := h.irq file
  unfold Player.refill
  dsimp only
  generalize s.irq (circularDma file) = t at hirq ⊢
  split_ifs with hbit
  · have hheard : Heard t := hirq.heard fun hunsent => by
      rw [(hirq.first hunsent).1] at hbit
      exact hbit UInt8.zero_and
    have hload := (hheard.irq file).irq file
    have hclear : Heard (t.clearEvent (circularDma file) bit) :=
      ⟨⟨hload.rx, hload.queue, hload.playing, hload.source⟩, hload.eof, hload.played, hload.sent⟩
    exact (hclear.fillHalfBuffer file half).markEof.draining
  · exact hirq

theorem Draining.stopAtEof (h : Draining s) (file : List UInt8) :
    Draining (s.stopAtEof (circularDma file)) ∨
      Ended (s.stopAtEof (circularDma file)) ∧
        PlayedToEnd (s.stopAtEof (circularDma file)).log := by
  unfold Player.stopAtEof
  dsimp only
  split_ifs with hstop hevent
  · right
    have hheard : Heard s := h.heard fun hunsent => by
      cases hstop.2.1.symm.trans (h.first hunsent).2.1
    have hirq := hheard.irq file
    obtain ⟨hlog, hended⟩ := stop_cases file hirq.toAlone
    refine ⟨hended, ?_⟩
    rw [hlog, playedToEnd_concat, playedToEnd_concat]
    exact ⟨⟨hirq.played, fun _ => hirq.sent⟩, fun he => Event.noConfusion he⟩
  · exact .inl (h.irq file)
  · exact .inl h

theorem Draining.process (h : Draining s) (file : List UInt8) :
    Draining (s.process (circularDma file)) ∨
      Ended (s.process (circularDma file)) ∧ PlayedToEnd (s.process (circularDma file)).log := by
  have hirq := h.irq file
  unfold Player.process
  dsimp only
  rw [streamRxProcess_idle hirq.rx, noteStreamData_idle hirq.rx, if_pos hirq.playing]
  have hrefills := (hirq.refill file 0 0x01).refill file 1 0x02
  generalize hr : ((s.irq (circularDma file)).refill (circularDma file) 0 0x01).refill
    (circularDma file) 1 0x02 = r at hrefills
  have hafter : afterRefills file r = r.stopAtEof (circularDma file) := by
    rcases hrefills.stopAtEof file with hstop | hstop
    · exact afterRefills_of_playing hstop.toAlone
    · exact afterRefills_of_ended hstop.1
  change Draining (afterRefills file _) ∨ Ended (afterRefills file _) ∧
    PlayedToEnd (afterRefills file _).log
  rw [hr, hafter]
  exact hrefills.stopAtEof file

theorem Ended.irq (h : Ended s) (file : List UInt8) (hplayed : PlayedToEnd s.log) :
    Ended (s.irq (circularDma file)) ∧ PlayedToEnd (s.irq (circularDma file)).log := by
  rcases irq_circularDma_cases file s with ⟨due, heq⟩ | heq
  · rw [heq]
    exact ⟨⟨h.rx, h.queue, h.playing, h.source⟩, hplayed⟩
  · rw [heq]
    refine ⟨⟨h.rx, h.queue, h.playing, h.source⟩, ?_⟩
    exact hplayed.append fun he => by cases List.mem_singleton.mp he

theorem Ended.process (h : Ended s) (file : List UInt8) (hplayed : PlayedToEnd s.log) :
    Ended (s.process (circularDma file)) ∧ PlayedToEnd (s.process (circularDma file)).log := by
  have hirq := h.irq file hplayed
  have hidle : ¬ (s.irq (circularDma file)).s_isPlaying = true := by
    rw [hirq.1.playing]
    exact Bool.false_ne_true
  have hdone : s.process (circularDma file) = s.irq (circularDma file) := by
    unfold Player.process
    dsimp only
    rw [streamRxProcess_idle hirq.1.rx, noteStreamData_idle hirq.1.rx, if_neg hidle, hirq.1.playing]
    exact playNext_idle hirq.1.rx hirq.1.queue
  rw [hdone]
  exact hirq

theorem playedToEnd_of_short
    (hshort : (file.length - playerWavHeaderSize) / 2 ≤ playerMonoSamples) (filename : String)
    (turns : List Turn) :
    PlayedToEnd ((wavPlayback file).run (wavStart file filename) turns).log := by
  have hrun : Draining ((wavPlayback file).run (wavStart file filename) turns) ∨
      Ended ((wavPlayback file).run (wavStart file filename) turns) ∧
        PlayedToEnd ((wavPlayback file).run (wavStart file filename) turns).log := by
    apply Machine.invariant_run (I := fun s => Draining s ∨ Ended s ∧ PlayedToEnd s.log)
    · rintro s turn (h | ⟨h, hplayed⟩)
      · have hset : ∀ due, Draining (s.setDue due) := fun due =>
          ⟨⟨h.rx, h.queue, h.playing, h.source⟩, h.eof, h.played, h.second, h.first⟩
        cases turn with
        | dma => exact .inl ((hset (some 0)).irq file)
        | process interrupted => exact (hset interrupted).process file
      · have hset : ∀ due, Ended (s.setDue due) := fun due =>
          ⟨h.rx, h.queue, h.playing, h.source⟩
        cases turn with
        | dma => exact .inr ((hset (some 0)).irq file hplayed)
        | process interrupted => exact .inr ((hset interrupted).process file hplayed)
    · exact .inl (draining_wavStart hshort filename)
  rcases hrun with h | h
  · exact h.played
  · exact h.2

/-- Under every schedule a file is played to its end exactly when its samples fit into the first
half. -/
theorem playedToEnd_iff (file : List UInt8) (filename : String) :
    (∀ turns, ProcessedBetween turns →
      PlayedToEnd ((wavPlayback file).run (wavStart file filename) turns).log) ↔
      (file.length - playerWavHeaderSize) / 2 ≤ playerMonoSamples := by
  constructor
  · intro hall
    by_contra hlong
    obtain ⟨n, hcut⟩ := (sounding_wavStart hlong filename).1.exists_cut file
    exact hcut (hall (rounds n) (processedBetween_rounds n))
  · exact fun hshort turns _ => playedToEnd_of_short hshort filename turns

/-- With 8194 bytes of samples the last one is in the second half, which is cut off. -/
theorem last_sample_cut_off :
    ProcessedBetween [.dma, .process none] ∧
      ¬ PlayedToEnd ((wavPlayback (List.replicate 8238 0)).run
        (wavStart (List.replicate 8238 0) "warning.wav") [.dma, .process none]).log := by
  have hlength : (List.replicate 8238 (0 : UInt8)).length = 8238 := List.length_replicate
  refine ⟨processedBetween_rounds 1, ?_⟩
  obtain ⟨hsound, hpos⟩ := @sounding_wavStart (List.replicate 8238 0)
    (by rw [hlength]; decide) "warning.wav"
  rcases hsound.round (List.replicate 8238 0) with hcut | ⟨-, hnext, hle⟩
  · exact hcut
  · rw [hpos, hlength] at hnext
    rw [hnext, hlength] at hle
    exact absurd hle (by decide)

end Player

end JeogiAt.Audio
