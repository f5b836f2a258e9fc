import JeogiAt.AudioPlayer

/-!
# The samples of the audio stream

The ring holds bytes, and a push that does not fit is cut off at any byte. In the running system a
push is one block and a read asks for the samples of one half buffer, and so is the ring size even:
what the ring holds are whole samples.

`sampleQueue` is the queue of samples that the history describes. `Sampled` says that the ring holds
its samples and that the player has played what it has given out.
-/

open scoped List

namespace JeogiAt.Audio

def pairBytes (x : UInt8 × UInt8) : List UInt8 := [x.1, x.2]

def value (x : UInt8 × UInt8) : Int16 := sample x.1 x.2

def pairs : List UInt8 → List (UInt8 × UInt8)
  | lo :: hi :: rest => (lo, hi) :: pairs rest
  | _ => []

def Event.streamOp : Event → Option (RingBuffer.Op (UInt8 × UInt8))
  | .pushed bytes => some (.push (pairs bytes.toList))
  | .filled _ .stream _ => some (.get playerMonoSamples)
  | _ => none

abbrev sampleFifo := RingBuffer.fifo (α := UInt8 × UInt8) (streamRingSize / 2)

def sampleQueue (log : List Event) : List (UInt8 × UInt8) :=
  sampleFifo.run [] (log.filterMap Event.streamOp)

/-- What has been played of the stream came from the front of the queue. -/
def PlayedInTurn : List Event → Prop :=
  Throughout fun before e => ∀ half mono, e = .filled half .stream mono →
    mono = ((sampleQueue before).take playerMonoSamples).map value

theorem length_pairBytes (x : UInt8 × UInt8) : (pairBytes x).length = 2 := rfl

theorem flatMap_pairs {bytes : List UInt8} (h : bytes.length % 2 = 0) :
    (pairs bytes).flatMap pairBytes = bytes := by
  fun_induction pairs bytes with
  | case1 lo hi rest ih =>
    rw [List.length_cons, List.length_cons] at h
    rw [List.flatMap_cons, ih (by omega)]
    rfl
  | case2 bytes hshort =>
    rcases bytes with _ | ⟨lo, _ | ⟨hi, rest⟩⟩
    · rfl
    · cases h
    · exact absurd rfl (hshort lo hi rest)

theorem monoSamples_flatMap (xs : List (UInt8 × UInt8)) :
    monoSamples (xs.flatMap pairBytes) = xs.map value := by
  induction xs with
  | nil => rfl
  | cons x xs ih =>
    rw [List.map_cons, ← ih]
    rfl

theorem sampleQueue_concat (log : List Event) (e : Event) :
    sampleQueue (log ++ [e]) =
      e.streamOp.elim (sampleQueue log) fun op => sampleFifo.next (sampleQueue log) op := by
  rw [sampleQueue, List.filterMap_append, Machine.run_append]
  cases hop : e.streamOp with
  | none => rw [List.filterMap_cons_none hop]; rfl
  | some op => rw [List.filterMap_cons_some hop]; rfl

def Event.played : Event → List Int16
  | .filled _ .stream mono => mono
  | _ => []

def Event.sentSamples : Event → List Int16
  | .pushed bytes => (pairs bytes.toList).map value
  | _ => []

/-- The samples played, and then those still in the queue, are sent samples in the order in which
they were sent. -/
theorem played_sublist {log : List Event} (h : PlayedInTurn log) :
    log.flatMap Event.played ++ (sampleQueue log).map value <+ log.flatMap Event.sentSamples := by
  induction log using List.reverseRecOn with
  | nil => exact List.Sublist.refl []
  | append_singleton log e ih =>
    obtain ⟨hlog, hlast⟩ := throughout_concat.mp h
    have ih := ih hlog
    rw [List.flatMap_append, List.flatMap_append, List.flatMap_singleton, List.flatMap_singleton,
      sampleQueue_concat]
    cases e with
    | opened | closed | read | sent half | stopped =>
      simpa [Event.played, Event.sentSamples, Event.streamOp] using ih
    | pushed bytes =>
      simp only [Event.played, Event.sentSamples, Event.streamOp, Option.elim_some, Machine.next,
        RingBuffer.fifo, List.append_nil, List.map_append]
      rw [← List.append_assoc]
      exact ih.append ((List.take_sublist _ _).map value)
    | filled half source mono =>
      cases source with
      | none | wav => simpa [Event.played, Event.sentSamples, Event.streamOp] using ih
      | stream =>
        rw [hlast half mono rfl]
        simp only [Event.played, Event.sentSamples, Event.streamOp, Option.elim_some, Machine.next,
          RingBuffer.fifo, List.append_nil]
        rwa [List.append_assoc, ← List.map_append, List.take_append_drop]

namespace AudioStreamRx

/-- A ring of at most `streamRingSize` bytes that gives out the oldest, takes what fits and counts
the rest. -/
structure IsBoundedFifo (r : AudioStreamRx) : Prop where
  read_lt : r.ring.read < streamRingSize
  write_lt : r.ring.write < streamRingSize
  count_le : r.ring.count ≤ streamRingSize
  write_eq : r.ring.write = (r.ring.read + r.ring.count) % streamRingSize
  length_contents : r.ring.contents.length = r.ring.count
  read : ∀ len, (r.read len).2 = r.ring.contents.take len ∧
    (r.read len).1.ring.contents = r.ring.contents.drop len
  push : ∀ src, (r.pushBlock src).ring.contents =
      r.ring.contents ++ src.take (streamRingSize - r.ring.count) ∧
    (r.pushBlock src).s_overflowDropCount =
      r.s_overflowDropCount + UInt32.ofNat (src.length - (streamRingSize - r.ring.count))

theorem isBoundedFifo {r : AudioStreamRx} (h : r.ring.WellFormed streamRingSize) :
    r.IsBoundedFifo where
  read_lt := h.read_lt
  write_lt := h.write_lt
  count_le := h.count_le
  write_eq := h.write_eq
  length_contents := RingBuffer.length_contents h
  read len := ⟨RingBuffer.get_snd h len, RingBuffer.contents_get h len⟩
  push src := by
    rw [pushBlock_ring]
    exact ⟨RingBuffer.contents_push h src, pushBlock_dropCount r src⟩

end AudioStreamRx

namespace Player

variable {W : Type*} {E : Env W} {s s' : Player W}

structure Sampled (s : Player W) : Prop where
  wellFormed : s.rx.ring.WellFormed streamRingSize
  contents : s.rx.ring.contents = (sampleQueue s.log).flatMap pairBytes
  played : PlayedInTurn s.log

theorem Sampled.frame (h : Sampled s) (hring : s'.rx.ring = s.rx.ring) (hlog : s'.log = s.log) :
    Sampled s' :=
  ⟨hring ▸ h.wellFormed, by rw [hring, hlog]; exact h.contents, hlog ▸ h.played⟩

theorem Sampled.concat (h : Sampled s) (hring : s'.rx.ring = s.rx.ring) {e : Event}
    (hlog : s'.log = s.log ++ [e]) (he : e.streamOp = none) : Sampled s' where
  wellFormed := hring ▸ h.wellFormed
  contents := by
    rw [hring, h.contents, hlog, sampleQueue_concat, he]
    rfl
  played := by
    rw [hlog, PlayedInTurn, throughout_concat]
    refine ⟨h.played, ?_⟩
    rintro half mono rfl
    cases he

theorem Sampled.quiet (h : Sampled s) (hring : s'.rx.ring = s.rx.ring) {es : List Event}
    (hlog : s'.log = s.log ++ es) (hes : ∀ e ∈ es, e.streamOp = none) : Sampled s' := by
  induction es using List.reverseRecOn generalizing s' with
  | nil => exact h.frame hring (hlog.trans (List.append_nil _))
  | append_singleton es e ih =>
    have hrest : Sampled { s with log := s.log ++ es } :=
      ih rfl rfl fun e he => hes e (List.mem_append_left _ he)
    exact hrest.concat hring (by rw [hlog, List.append_assoc])
      (hes e (List.mem_append_right _ (List.mem_singleton_self e)))

theorem Sampled.step (h : Sampled s) (op : RingBuffer.Op (UInt8 × UInt8)) :
    ((RingBuffer.ring streamRingSize).next s.rx.ring (op.flatMap pairBytes 2)).WellFormed
        streamRingSize ∧
      ((RingBuffer.ring streamRingSize).next s.rx.ring (op.flatMap pairBytes 2)).contents =
        (sampleFifo.next (sampleQueue s.log) op).flatMap pairBytes ∧
      (RingBuffer.ring streamRingSize).output s.rx.ring (op.flatMap pairBytes 2) =
        (sampleFifo.output (sampleQueue s.log) op).flatMap pairBytes := by
  obtain ⟨hwf, hcontents, hout⟩ := RingBuffer.step_refines h.wellFormed (op.flatMap pairBytes 2)
  obtain ⟨hnext, hanswer⟩ := RingBuffer.fifo_flatMap (streamRingSize / 2)
    length_pairBytes (sampleQueue s.log) op
  rw [h.contents] at hcontents hout
  exact ⟨hwf, hcontents.trans hnext, hout.trans hanswer⟩

theorem sampled_push (h : Sampled s) (bytes : Vector UInt8 streamRxBlockSize)
    (hring : s'.rx = s.rx.pushBlock bytes.toList) (hlog : s'.log = s.log ++ [.pushed bytes]) :
    Sampled s' := by
  obtain ⟨hwf, hcontents, -⟩ := h.step (.push (pairs bytes.toList))
  have hbytes : (pairs bytes.toList).flatMap pairBytes = bytes.toList :=
    flatMap_pairs (by rw [Vector.length_toList]; rfl)
  rw [RingBuffer.Op.flatMap, hbytes] at hwf hcontents
  refine ⟨?_, ?_, ?_⟩
  · rw [hring, AudioStreamRx.pushBlock_ring]
    exact hwf
  · rw [hring, AudioStreamRx.pushBlock_ring, hlog, sampleQueue_concat]
    exact hcontents
  · rw [hlog, PlayedInTurn, throughout_concat]
    exact ⟨h.played, fun half mono he => Event.noConfusion he⟩

theorem Sampled.streamSamples_eq (h : Sampled s) :
    s.streamSamples = ((sampleQueue s.log).take playerMonoSamples).map value := by
  obtain ⟨-, -, hout⟩ := h.step (.get playerMonoSamples)
  rw [← monoSamples_flatMap]
  exact congrArg monoSamples hout

theorem sampled_store (h : Sampled s) (hsource : s.s_audioSource ≠ .stream) (half : Fin 2)
    (mono : List Int16) : Sampled (s.store half mono) := by
  refine h.concat rfl rfl ?_
  cases hs : s.s_audioSource with
  | none => rfl
  | wav => rfl
  | stream => exact absurd hs hsource

/-- A fill from the stream takes the oldest samples out of the queue. -/
theorem sampled_fillHalfBuffer (h : Sampled s) (half : Fin 2) :
    Sampled (s.fillHalfBuffer E half) := by
  cases hsource : s.s_audioSource with
  | none =>
    rw [fillHalfBuffer_none E hsource]
    exact sampled_store h (by rw [hsource]; decide) half []
  | wav =>
    cases heof : s.s_wavEof with
    | false =>
      rw [fillHalfBuffer_wav E hsource heof]
      refine h.quiet rfl rfl ?_
      simp [Event.streamOp]
    | true =>
      rw [fillHalfBuffer_eof E hsource heof]
      exact sampled_store h (by rw [hsource]; decide) half []
  | stream =>
    obtain ⟨hwf, hcontents, -⟩ := h.step (.get playerMonoSamples)
    rw [fillHalfBuffer_stream E hsource]
    refine ⟨hwf, ?_, ?_⟩
    · rw [sampleQueue_concat]
      exact hcontents
    · rw [PlayedInTurn, throughout_concat]
      refine ⟨h.played, ?_⟩
      rintro _ _ ⟨⟩
      exact h.streamSamples_eq

theorem sampled_irq (h : Sampled s) : Sampled (s.irq E) := by
  obtain ⟨_, _, _, sents, heq, hring, hsents⟩ := irq_cases E s
  rw [heq]
  refine h.quiet hring rfl fun e he => ?_
  obtain ⟨half, rfl⟩ := hsents e he
  rfl

theorem sampled_prefill (h : Sampled s) : Sampled (s.prefill E) := by
  have hclear : Sampled { s with s_i2sBuf := fun _ => stereo [] } := h.frame rfl rfl
  exact sampled_fillHalfBuffer (sampled_fillHalfBuffer hclear 0) 1

theorem sampled_open (h : Sampled s) (filename : String) : Sampled (s.f_open E filename).1 := by
  cases hok : (s.f_open E filename).2 with
  | true =>
    have hlog : (s.f_open E filename).1.log = s.log ++ [.opened] := if_pos hok
    exact h.concat rfl hlog rfl
  | false =>
    have hlog : (s.f_open E filename).1.log = s.log :=
      if_neg fun hok' => by cases hok.symm.trans hok'
    exact h.frame rfl hlog

theorem sampled_close (h : Sampled s) : Sampled (s.f_close E) := h.concat rfl rfl rfl

theorem sampled_transmitDma (h : Sampled s) : Sampled (s.transmitDma E).1 := h.frame rfl rfl

theorem sampled_startWav (h : Sampled s) (filename : String) :
    Sampled (s.startWav E filename).1 := by
  have hreset : Sampled ((s.irq E).reset .wav 0) := (sampled_irq (E := E) h).frame rfl rfl
  have hopen := sampled_open (E := E) hreset filename
  unfold startWav
  dsimp only
  generalize ((s.irq E).reset .wav 0).f_open E filename = opened at hopen ⊢
  have hseek : Sampled (opened.1.f_lseek E playerWavHeaderSize).1 := hopen.frame rfl rfl
  generalize opened.1.f_lseek E playerWavHeaderSize = sought at hseek ⊢
  have hstart := sampled_transmitDma (E := E) (sampled_prefill (E := E) hseek)
  generalize (sought.1.prefill E).transmitDma E = started at hstart ⊢
  split_ifs
  · exact h
  · exact hopen.frame rfl rfl
  · exact (sampled_close (E := E) hseek).frame rfl rfl
  · exact (sampled_close (E := E) hstart).frame rfl rfl
  · exact hstart.frame rfl rfl

theorem sampled_startStream (h : Sampled s) : Sampled (s.startStream E).1 := by
  have htick : Sampled ((s.irq E).getTick E).1 := (sampled_irq (E := E) h).frame rfl rfl
  unfold startStream
  dsimp only
  generalize (s.irq E).getTick E = clock at htick ⊢
  have hreset : Sampled (clock.1.reset .stream clock.2) := htick.frame rfl rfl
  have hstart := sampled_transmitDma (E := E) (sampled_prefill (E := E) hreset)
  generalize ((clock.1.reset .stream clock.2).prefill E).transmitDma E = started at hstart ⊢
  split_ifs
  · exact h
  · exact h
  · exact hstart.frame rfl rfl
  · exact hstart.frame rfl rfl

theorem sampled_playNextFromQueue (h : Sampled s) : Sampled (s.playNextFromQueue E) := by
  unfold playNextFromQueue
  split_ifs
  · exact h
  · rcases s.queue.dequeue with ⟨queue, _ | filename⟩
    · exact h.frame rfl rfl
    · have hqueue : Sampled { s with queue := queue } := h.frame rfl rfl
      exact sampled_startWav hqueue filename

theorem sampled_stop (h : Sampled s) : Sampled (s.stop E) := by
  have hdma : Sampled (s.dmaStop E) := h.concat rfl rfl rfl
  unfold stop
  dsimp only
  split_ifs
  · exact h
  · exact (sampled_irq (E := E) (sampled_close (E := E) hdma)).frame rfl rfl
  · exact (sampled_irq (E := E) hdma).frame rfl rfl

theorem sampled_streamRxProcess (h : Sampled s) : Sampled (s.streamRxProcess E) := by
  have hirq := sampled_irq (E := E) h
  have hring : (s.irq E).rx.takeReadyBlock.1.ring = (s.irq E).rx.ring := by
    unfold AudioStreamRx.takeReadyBlock
    split_ifs <;> rfl
  unfold streamRxProcess
  dsimp only
  generalize s.irq E = t at hirq hring ⊢
  generalize t.rx.takeReadyBlock = taken at hring ⊢
  rcases taken with ⟨rx, _ | bufIndex⟩
  · exact hirq.frame hring rfl
  · have htaken : Sampled { t with rx := rx } := hirq.frame hring rfl
    exact sampled_push (sampled_irq (E := E) htaken) _ rfl rfl

theorem sampled_refill (h : Sampled s) (half : Fin 2) (bit : UInt8) :
    Sampled (s.refill E half bit) := by
  have hirq := sampled_irq (E := E) h
  unfold refill
  dsimp only
  generalize s.irq E = t at hirq ⊢
  have hclear : Sampled (t.clearEvent E bit) :=
    (sampled_irq (E := E) (sampled_irq (E := E) hirq)).frame rfl rfl
  have hfill := sampled_fillHalfBuffer (E := E) hclear half
  unfold markEof
  split_ifs
  · exact hfill.frame rfl rfl
  · exact hfill
  · exact hirq

theorem sampled_stopAtEof (h : Sampled s) : Sampled (s.stopAtEof E) := by
  have hirq := sampled_irq (E := E) h
  unfold stopAtEof
  dsimp only
  split_ifs
  · exact sampled_stop hirq
  · exact hirq
  · exact h

theorem sampled_stopStream (h : Sampled s) : Sampled (s.stopStream E) := by
  have htick : Sampled (s.getTick E).1 := h.frame rfl rfl
  have hirq := sampled_irq (E := E) htick
  unfold stopStream
  dsimp only
  split_ifs
  · exact sampled_stop hirq
  · exact hirq
  · exact h

theorem sampled_process (h : Sampled s) : Sampled (s.process E) := by
  have hrx := sampled_streamRxProcess (E := E) h
  have hnote : Sampled ((s.streamRxProcess E).noteStreamData E) := by
    unfold noteStreamData
    split_ifs
    · exact hrx.frame rfl rfl
    · exact hrx
  unfold process
  dsimp only
  generalize (s.streamRxProcess E).noteStreamData E = t at hnote ⊢
  have hplay : Sampled (if t.s_isPlaying = true then t.playOn E else t) := by
    split_ifs
    · exact sampled_stopStream (sampled_stopAtEof (sampled_refill (sampled_refill hnote 0 1) 1 2))
    · exact hnote
  generalize (if t.s_isPlaying = true then t.playOn E else t) = u at hplay ⊢
  unfold playNext
  split_ifs
  · exact sampled_playNextFromQueue hplay
  · exact sampled_startStream hplay
  · exact hplay

theorem sampled_isr (h : Sampled s) (i : Interrupt) : Sampled (s.isr i) := by
  cases i with
  | txHalfCplt => exact h.concat rfl rfl rfl
  | txCplt => exact h.concat rfl rfl rfl
  | rxCplt block => exact h.frame rfl rfl

theorem sampled_audioInit (world : W) : Sampled (boot .init world).audioInit where
  wellFormed := AudioStreamRx.wellFormed_init
  contents := AudioStreamRx.contents_init
  played := throughout_nil

theorem sampled_run (E : Env W) (h : Sampled s) (calls : List PlayerCall) :
    Sampled ((player E).run s calls) := by
  apply Machine.invariant_run (I := Sampled) _ h
  intro s call h
  cases call with
  | startWav filename => exact sampled_startWav h filename
  | startStream => exact sampled_startStream h
  | guide congestion => exact sampled_playNextFromQueue (h.frame rfl rfl)
  | process => exact sampled_process h
  | requestStopStream =>
    simp only [Machine.next, player, requestStopStream]
    split_ifs
    · exact h.frame rfl rfl
    · exact h
  | stop => exact sampled_stop h
  | interrupt i => exact sampled_isr h i

theorem length_streamSamples_le (s : Player W) : s.streamSamples.length ≤ playerMonoSamples := by
  have hread : (s.rx.read (playerMonoSamples * 2)).2.length ≤ playerMonoSamples * 2 :=
    RingBuffer.length_get_snd_le _ _
  rw [streamSamples, length_monoSamples]
  omega

theorem length_wavSamples_le (E : Env W) (s : Player W) :
    (s.wavSamples E).length ≤ playerMonoSamples := by
  have hread := E.length_f_read s.world (playerMonoSamples * 2)
  rw [wavSamples, length_monoSamples]
  omega

/-- Whenever a half is filled, it gets each of its samples twice and then zeros. -/
theorem fillHalfBuffer_i2sBuf (E : Env W) (s : Player W) (half : Fin 2) :
    ∃ mono, mono.length ≤ playerMonoSamples ∧
      (s.fillHalfBuffer E half).log.getLast? = some (.filled half s.s_audioSource mono) ∧
      (s.fillHalfBuffer E half).s_i2sBuf half = stereo mono := by
  cases hsource : s.s_audioSource with
  | none =>
    rw [fillHalfBuffer_none E hsource, store, hsource]
    exact ⟨[], Nat.zero_le _, List.getLast?_concat, Function.update_self ..⟩
  | wav =>
    cases heof : s.s_wavEof with
    | false =>
      rw [fillHalfBuffer_wav E hsource heof]
      refine ⟨_, length_wavSamples_le E s, ?_, Function.update_self ..⟩
      rw [List.getLast?_append]
      rfl
    | true =>
      rw [fillHalfBuffer_eof E hsource heof, store, hsource]
      exact ⟨[], Nat.zero_le _, List.getLast?_concat, Function.update_self ..⟩
  | stream =>
    rw [fillHalfBuffer_stream E hsource]
    exact ⟨_, length_streamSamples_le s, List.getLast?_concat, Function.update_self ..⟩

structure SamplesWhole (s : Player W) : Prop where
  even : s.rx.ring.count % 2 = 0
  inTurn : PlayedInTurn s.log
  inOrder : s.log.flatMap Event.played ++ (sampleQueue s.log).map value <+
    s.log.flatMap Event.sentSamples

theorem samplesWhole (h : Sampled s) : SamplesWhole s where
  even := by
    rw [← RingBuffer.length_contents h.wellFormed, h.contents,
      RingBuffer.length_flatMap_of_length length_pairBytes, Nat.mul_mod_right]
  inTurn := h.played
  inOrder := played_sublist h.played

/-- The ring is a bounded queue of bytes under any pushes and reads. In the running system it is
one of whole samples, and the player plays sent samples in the order in which they were sent. A fill
leaves each sample twice in its half, and zeros behind them. -/
theorem ring_fifo_samples_whole (ops : List (RingBuffer.Op UInt8)) (E : Env W) (world : W)
    (calls : List PlayerCall) :
    (AudioStreamRx.calls.run .init ops).IsBoundedFifo ∧
      (AudioStreamRx.calls.run .init ops).ring.contents =
        (RingBuffer.fifo streamRingSize).run [] ops ∧
      AudioStreamRx.calls.trace .init ops = (RingBuffer.fifo streamRingSize).trace [] ops ∧
      SamplesWhole ((player E).run (boot .init world).audioInit calls) ∧
      ∀ (s : Player W) (half : Fin 2), ∃ mono, mono.length ≤ playerMonoSamples ∧
        (s.fillHalfBuffer E half).log.getLast? = some (.filled half s.s_audioSource mono) ∧
        (s.fillHalfBuffer E half).s_i2sBuf half = mono.flatMap (fun x => [x, x]) ++
          List.replicate ((playerMonoSamples - mono.length) * 2) 0 := by
  obtain ⟨hwf, hcontents, htrace⟩ := AudioStreamRx.run_calls AudioStreamRx.wellFormed_init ops
  rw [AudioStreamRx.contents_init] at hcontents htrace
  exact ⟨AudioStreamRx.isBoundedFifo hwf, hcontents, htrace,
    samplesWhole (sampled_run E (sampled_audioInit world) calls), fillHalfBuffer_i2sBuf E⟩

end Player

end JeogiAt.Audio
