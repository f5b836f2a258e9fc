import JeogiAt.AudioPlayer

/-!
# The player's file

There is one file object. A start opens it and closes it again when a later step of the start
fails; a stop closes it when the source is a WAV file. `net` counts the opens without a close.

`Settled` holds between calls, whatever the card, the I2S interface and the interrupts do.
-/

namespace JeogiAt.Audio

def Event.delta : Event → ℤ
  | .opened => 1
  | .closed => -1
  | _ => 0

def net : List Event → ℤ
  | [] => 0
  | e :: log => e.delta + net log

def ReadsOpen : List Event → Prop := Throughout fun before e => e = .read → net before = 1

theorem net_concat (log : List Event) (e : Event) : net (log ++ [e]) = net log + e.delta := by
  induction log with
  | nil => exact Int.add_comm ..
  | cons e' log ih => rw [List.cons_append, net, net, ih, Int.add_assoc]

namespace Player

variable {W : Type*} {E : Env W} {s s' : Player W} {n : ℤ}

/-- A point of the code: the two control variables, and the opens minus the closes so far, with no
read of a closed file among them. -/
structure At (s : Player W) (playing : Bool) (source : AudioSource) (n : ℤ) : Prop where
  playing : s.s_isPlaying = playing
  source : s.s_audioSource = source
  net : net s.log = n
  reads : ReadsOpen s.log

variable {playing : Bool} {source : AudioSource}

theorem At.concat {m : ℤ} (h : At s playing source n) (hplay : s'.s_isPlaying = s.s_isPlaying)
    (hsource : s'.s_audioSource = s.s_audioSource) {e : Event} (hlog : s'.log = s.log ++ [e])
    (hread : e = .read → n = 1) (hm : n + e.delta = m) : At s' playing source m where
  playing := hplay.trans h.playing
  source := hsource.trans h.source
  net := by
    rw [hlog, net_concat, h.net, hm]
  reads := by
    rw [hlog, ReadsOpen, throughout_concat]
    exact ⟨h.reads, fun he => h.net.trans (hread he)⟩

theorem At.frame (h : At s playing source n) (hplay : s'.s_isPlaying = s.s_isPlaying)
    (hsource : s'.s_audioSource = s.s_audioSource) (hlog : s'.log = s.log) :
    At s' playing source n :=
  ⟨hplay.trans h.playing, hsource.trans h.source, hlog ▸ h.net, hlog ▸ h.reads⟩

theorem At.other (h : At s playing source n) (hplay : s'.s_isPlaying = s.s_isPlaying)
    (hsource : s'.s_audioSource = s.s_audioSource) {e : Event} (hlog : s'.log = s.log ++ [e])
    (he : e.delta = 0 ∧ e ≠ .read) : At s' playing source n :=
  h.concat hplay hsource hlog (fun hread => absurd hread he.2) (by rw [he.1, Int.add_zero])

theorem At.quiet (h : At s playing source n) (hplay : s'.s_isPlaying = s.s_isPlaying)
    (hsource : s'.s_audioSource = s.s_audioSource) {es : List Event} (hlog : s'.log = s.log ++ es)
    (hes : ∀ e ∈ es, e.delta = 0 ∧ e ≠ .read) : At s' playing source n := by
  induction es using List.reverseRecOn generalizing s' with
  | nil => exact h.frame hplay hsource (hlog.trans (List.append_nil _))
  | append_singleton es e ih =>
    have hrest : At { s with log := s.log ++ es } playing source n :=
      ih rfl rfl rfl fun e he => hes e (List.mem_append_left _ he)
    exact hrest.other hplay hsource (by rw [hlog, List.append_assoc])
      (hes e (List.mem_append_right _ (List.mem_singleton_self e)))

theorem at_irq (h : At s playing source n) : At (s.irq E) playing source n := by
  obtain ⟨_, _, _, sents, heq, -, hsents⟩ := irq_cases E s
  rw [heq]
  refine h.quiet rfl rfl rfl fun e he => ?_
  obtain ⟨half, rfl⟩ := hsents e he
  exact ⟨rfl, Event.noConfusion⟩

theorem at_store (h : At s playing source n) (half : Fin 2) (mono : List Int16) :
    At (s.store half mono) playing source n :=
  h.other rfl rfl rfl ⟨rfl, Event.noConfusion⟩

/-- A fill reads the file only when the source is a WAV file, which is open then. -/
theorem at_fillHalfBuffer (h : At s playing source n) (hopen : source = .wav → n = 1)
    (half : Fin 2) : At (s.fillHalfBuffer E half) playing source n := by
  cases source with
  | none =>
    rw [fillHalfBuffer_none E h.source]
    exact at_store h half []
  | wav =>
    cases heof : s.s_wavEof with
    | false =>
      have hread : At { s with log := s.log ++ [.read] } playing .wav n :=
        h.concat rfl rfl rfl (fun _ => hopen rfl) (Int.add_zero n)
      rw [fillHalfBuffer_wav E h.source heof]
      exact hread.other rfl rfl (List.append_assoc s.log [.read] [.filled half .wav _]).symm
        ⟨rfl, Event.noConfusion⟩
    | true =>
      rw [fillHalfBuffer_eof E h.source heof]
      exact at_store h half []
  | stream =>
    rw [fillHalfBuffer_stream E h.source]
    exact h.other rfl rfl rfl ⟨rfl, Event.noConfusion⟩

theorem at_prefill (h : At s playing source n) (hopen : source = .wav → n = 1) :
    At (s.prefill E) playing source n := by
  have hclear : At { s with s_i2sBuf := fun _ => stereo [] } playing source n :=
    h.frame rfl rfl rfl
  exact at_fillHalfBuffer (at_fillHalfBuffer hclear hopen 0) hopen 1

theorem at_reset (h : At s playing source n) (source' : AudioSource) (tick : UInt32) :
    At (s.reset source' tick) playing source' n := ⟨h.playing, rfl, h.net, h.reads⟩

theorem at_setSource (h : At s playing source n) (source' : AudioSource) :
    At (s.setSource source') playing source' n := ⟨h.playing, rfl, h.net, h.reads⟩

theorem at_setPlaying (h : At s playing source n) (playing' : Bool) :
    At (s.setPlaying playing') playing' source n := ⟨rfl, h.source, h.net, h.reads⟩

theorem at_open (h : At s playing source 0) (filename : String) :
    At (s.f_open E filename).1 playing source
      (if (s.f_open E filename).2 = true then 1 else 0) := by
  cases hok : (s.f_open E filename).2 with
  | true =>
    have hlog : (s.f_open E filename).1.log = s.log ++ [.opened] := if_pos hok
    exact h.concat rfl rfl hlog (fun he => Event.noConfusion he) rfl
  | false =>
    have hlog : (s.f_open E filename).1.log = s.log :=
      if_neg fun hok' => by cases hok.symm.trans hok'
    exact h.frame rfl rfl hlog

theorem at_close (h : At s playing source 1) : At (s.f_close E) playing source 0 :=
  h.concat rfl rfl rfl (fun he => Event.noConfusion he) rfl

theorem at_lseek (h : At s playing source n) (ofs : ℕ) :
    At (s.f_lseek E ofs).1 playing source n := h.frame rfl rfl rfl

theorem at_transmitDma (h : At s playing source n) :
    At (s.transmitDma E).1 playing source n := h.frame rfl rfl rfl

theorem at_getTick (h : At s playing source n) :
    At (s.getTick E).1 playing source n := h.frame rfl rfl rfl

/-- Between calls: idle, or playing the open file, or playing the stream. -/
inductive Settled (s : Player W) : Prop
  | idle (h : At s false .none 0)
  | wav (h : At s true .wav 1)
  | stream (h : At s true .stream 0)

theorem Settled.of_idle (h : Settled s) (hidle : ¬ s.s_isPlaying = true) :
    At s false .none 0 := by
  cases h with
  | idle h => exact h
  | wav h => exact absurd h.playing hidle
  | stream h => exact absurd h.playing hidle

theorem settled_startWav (h : Settled s) (filename : String) :
    Settled (s.startWav E filename).1 := by
  unfold startWav
  split_ifs with hplay
  · exact h
  · have hopen := at_open (E := E) (at_reset (at_irq (E := E) (h.of_idle hplay)) .wav 0) filename
    generalize ((s.irq E).reset .wav 0).f_open E filename = opened at hopen ⊢
    dsimp only
    cases hok : opened.2 with
    | false =>
      rw [hok] at hopen
      exact .idle (at_setSource hopen .none)
    | true =>
      rw [hok] at hopen
      have hseek : At _ false .wav 1 := at_lseek (E := E) hopen playerWavHeaderSize
      generalize opened.1.f_lseek E playerWavHeaderSize = sought at hseek ⊢
      cases hok : sought.2 with
      | false => exact .idle (at_setSource (at_close hseek) .none)
      | true =>
        have hstart := at_transmitDma (E := E) (at_prefill (E := E) hseek fun _ => rfl)
        generalize (sought.1.prefill E).transmitDma E = started at hstart ⊢
        cases hok : started.2 with
        | false => exact .idle (at_setSource (at_close hstart) .none)
        | true => exact .wav (at_setPlaying hstart true)

theorem settled_startStream (h : Settled s) : Settled (s.startStream E).1 := by
  unfold startStream
  split_ifs with hplay
  · exact h
  · exact h
  · have htick := at_getTick (E := E) (at_irq (E := E) (h.of_idle hplay))
    generalize (s.irq E).getTick E = clock at htick ⊢
    dsimp only
    have hfill := at_prefill (E := E) (at_reset htick .stream clock.2) AudioSource.noConfusion
    have hstart := at_transmitDma (E := E) hfill
    generalize ((clock.1.reset .stream clock.2).prefill E).transmitDma E = started at hstart ⊢
    cases hok : started.2 with
    | false => exact .idle (at_setSource hstart .none)
    | true => exact .stream (at_setPlaying hstart true)

theorem Settled.frame (h : Settled s) (hplay : s'.s_isPlaying = s.s_isPlaying)
    (hsource : s'.s_audioSource = s.s_audioSource) (hlog : s'.log = s.log) : Settled s' := by
  cases h with
  | idle h => exact .idle (h.frame hplay hsource hlog)
  | wav h => exact .wav (h.frame hplay hsource hlog)
  | stream h => exact .stream (h.frame hplay hsource hlog)

theorem settled_requestStopStream (h : Settled s) : Settled s.requestStopStream := by
  unfold requestStopStream
  split_ifs
  · exact h.frame rfl rfl rfl
  · exact h

theorem settled_playNextFromQueue (h : Settled s) : Settled (s.playNextFromQueue E) := by
  unfold playNextFromQueue
  split_ifs
  · exact h
  · rcases s.queue.dequeue with ⟨queue, _ | filename⟩
    · exact h.frame rfl rfl rfl
    · have hqueue : Settled { s with queue := queue } := h.frame rfl rfl rfl
      exact settled_startWav hqueue filename

theorem settled_guide (h : Settled s) (congestion : Fin 8 → UInt8) :
    Settled (s.guide E congestion) :=
  settled_playNextFromQueue (h.frame rfl rfl rfl)

theorem settled_stop (h : Settled s) : Settled (s.stop E) := by
  have hdma : ∀ {source n}, At s true source n → At (s.dmaStop E) true source n :=
    fun h => h.other rfl rfl rfl ⟨rfl, Event.noConfusion⟩
  unfold stop
  cases h with
  | idle h =>
    rw [if_pos (by rw [h.playing]; rfl)]
    exact .idle h
  | wav h =>
    rw [if_neg (by rw [h.playing]; decide)]
    dsimp only
    rw [if_pos (hdma h).source]
    exact .idle (at_setPlaying (at_reset (at_irq (at_close (hdma h))) .none 0) false)
  | stream h =>
    rw [if_neg (by rw [h.playing]; decide)]
    dsimp only
    rw [if_neg (by rw [(hdma h).source]; decide)]
    exact .idle (at_setPlaying (at_reset (at_irq (hdma h)) .none 0) false)

theorem at_streamRxProcess (h : At s playing source n) :
    At (s.streamRxProcess E) playing source n := by
  have hirq := at_irq (E := E) h
  unfold streamRxProcess
  dsimp only
  generalize s.irq E = t at hirq ⊢
  rcases t.rx.takeReadyBlock with ⟨rx, _ | bufIndex⟩
  · exact hirq.frame rfl rfl rfl
  · have htaken : At { t with rx := rx } playing source n := hirq.frame rfl rfl rfl
    exact (at_irq (E := E) htaken).other rfl rfl rfl ⟨rfl, Event.noConfusion⟩

theorem at_noteStreamData (h : At s playing source n) :
    At (s.noteStreamData E) playing source n := by
  unfold noteStreamData
  split_ifs
  · exact h.frame rfl rfl rfl
  · exact h

theorem at_clearEvent (h : At s playing source n) (bit : UInt8) :
    At (s.clearEvent E bit) playing source n :=
  (at_irq (E := E) (at_irq (E := E) h)).frame rfl rfl rfl

theorem at_markEof (h : At s playing source n) : At s.markEof playing source n := by
  unfold markEof
  split_ifs
  · exact h.frame rfl rfl rfl
  · exact h

theorem at_refill (h : At s playing source n) (hopen : source = .wav → n = 1) (half : Fin 2)
    (bit : UInt8) : At (s.refill E half bit) playing source n := by
  have hirq := at_irq (E := E) h
  unfold refill
  dsimp only
  generalize s.irq E = t at hirq ⊢
  split_ifs
  · exact at_markEof (at_fillHalfBuffer (at_clearEvent hirq bit) hopen half)
  · exact hirq

theorem settled_irq (h : Settled s) : Settled (s.irq E) := by
  cases h with
  | idle h => exact .idle (at_irq h)
  | wav h => exact .wav (at_irq h)
  | stream h => exact .stream (at_irq h)

theorem settled_stopAtEof (h : Settled s) : Settled (s.stopAtEof E) := by
  have hirq := settled_irq (E := E) h
  unfold stopAtEof
  dsimp only
  split_ifs
  · exact settled_stop hirq
  · exact hirq
  · exact h

theorem settled_stopStream (h : Settled s) : Settled (s.stopStream E) := by
  have htick : Settled (s.getTick E).1 := h.frame rfl rfl rfl
  have hirq := settled_irq (E := E) htick
  unfold stopStream
  dsimp only
  split_ifs
  · exact settled_stop hirq
  · exact hirq
  · exact h

theorem settled_playOn (h : At s true source n)
    (hopen : source = .wav ∧ n = 1 ∨ source = .stream ∧ n = 0) : Settled (s.playOn E) := by
  have hwav : source = .wav → n = 1 := by
    rcases hopen with ⟨-, hn⟩ | ⟨hs, -⟩
    · exact fun _ => hn
    · exact fun hs' => by cases hs.symm.trans hs'
  have hrefill := at_refill (E := E) (at_refill (E := E) h hwav 0 0x01) hwav 1 0x02
  have hsettled : Settled ((s.refill E 0 0x01).refill E 1 0x02) := by
    rcases hopen with ⟨rfl, rfl⟩ | ⟨rfl, rfl⟩
    · exact .wav hrefill
    · exact .stream hrefill
  exact settled_stopStream (settled_stopAtEof hsettled)

theorem settled_playNext (h : Settled s) : Settled (s.playNext E) := by
  unfold playNext
  split_ifs
  · exact settled_playNextFromQueue h
  · exact settled_startStream h

theorem settled_process (h : Settled s) : Settled (s.process E) := by
  have hnote : ∀ {playing source n}, At s playing source n →
      At ((s.streamRxProcess E).noteStreamData E) playing source n :=
    fun h => at_noteStreamData (at_streamRxProcess h)
  have hplay : Settled (if ((s.streamRxProcess E).noteStreamData E).s_isPlaying = true then
      ((s.streamRxProcess E).noteStreamData E).playOn E
      else (s.streamRxProcess E).noteStreamData E) := by
    cases h with
    | idle h =>
      rw [if_neg (by rw [(hnote h).playing]; decide)]
      exact .idle (hnote h)
    | wav h =>
      rw [if_pos (hnote h).playing]
      exact settled_playOn (hnote h) (.inl ⟨rfl, rfl⟩)
    | stream h =>
      rw [if_pos (hnote h).playing]
      exact settled_playOn (hnote h) (.inr ⟨rfl, rfl⟩)
  unfold process
  dsimp only
  generalize (if ((s.streamRxProcess E).noteStreamData E).s_isPlaying = true then _ else _) = t
    at hplay ⊢
  split_ifs
  · exact settled_playNext hplay
  · exact hplay

theorem settled_isr (h : Settled s) (i : Interrupt) : Settled (s.isr i) := by
  have hsent : ∀ {playing source n}, At s playing source n → At (s.isr i) playing source n := by
    intro playing source n h
    cases i with
    | txHalfCplt => exact h.other rfl rfl rfl ⟨rfl, Event.noConfusion⟩
    | txCplt => exact h.other rfl rfl rfl ⟨rfl, Event.noConfusion⟩
    | rxCplt block => exact h.frame rfl rfl rfl
  cases h with
  | idle h => exact .idle (hsent h)
  | wav h => exact .wav (hsent h)
  | stream h => exact .stream (hsent h)

theorem settled_audioInit (rx : AudioStreamRx) (world : W) : Settled (boot rx world).audioInit :=
  .idle ⟨rfl, rfl, rfl, throughout_nil⟩

theorem settled_run (E : Env W) (h : Settled s) (calls : List PlayerCall) :
    Settled ((player E).run s calls) := by
  apply Machine.invariant_run (I := Settled) _ h
  intro s call h
  cases call with
  | startWav filename => exact settled_startWav h filename
  | startStream => exact settled_startStream h
  | guide congestion => exact settled_guide h congestion
  | process => exact settled_process h
  | requestStopStream => exact settled_requestStopStream h
  | stop => exact settled_stop h
  | interrupt i => exact settled_isr h i

/-- After `Audio_Init`, whatever is called and whatever fails: one file is open while a WAV file
plays and none otherwise, an idle player has no source, and no closed file is read. -/
theorem file_discipline (E : Env W) (rx : AudioStreamRx) (world : W) (calls : List PlayerCall) :
    let s := (player E).run (boot rx world).audioInit calls
    net s.log = (if s.s_isPlaying = true ∧ s.s_audioSource = .wav then 1 else 0) ∧
      (s.s_isPlaying = false → s.s_audioSource = .none) ∧ ReadsOpen s.log := by
  intro s
  have hs : Settled s := settled_run E (settled_audioInit rx world) calls
  cases hs with
  | idle h =>
    rw [if_neg fun hplay => by cases h.playing.symm.trans hplay.1]
    exact ⟨h.net, fun _ => h.source, h.reads⟩
  | wav h =>
    rw [if_pos ⟨h.playing, h.source⟩]
    exact ⟨h.net, (fun hidle => by cases hidle.symm.trans h.playing), h.reads⟩
  | stream h =>
    rw [if_neg fun hplay => by cases h.source.symm.trans hplay.2]
    exact ⟨h.net, (fun hidle => by cases hidle.symm.trans h.playing), h.reads⟩

end Player

end JeogiAt.Audio
