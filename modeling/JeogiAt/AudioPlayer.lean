import JeogiAt.AudioQueue
import JeogiAt.AudioStreamRx

/-!
# The firmware's audio player

The functions of `audio_player.c` as functions on its static variables. The SD card, the I2S
interface, the clock and the interrupts are an `Env`, whose own state `world` runs along. Where
the code accesses a variable that an interrupt handler writes, `irq` first runs the handlers of
the interrupts that have come.

`log` is a history that the code does not have: the calls on the file, the blocks and the samples
that pass through the player, the halves that the DMA has sent, and the stops.
-/

namespace JeogiAt.Audio

abbrev playerMonoSamples : ℕ := 4096
abbrev playerWavHeaderSize : ℕ := 44
abbrev streamPrebufferBytes : ℕ := 1920 * 4
abbrev streamTimeoutMs : UInt32 := 500

inductive AudioSource
  | none
  | wav
  | stream
  deriving DecidableEq

inductive Interrupt
  | txHalfCplt
  | txCplt
  | rxCplt (block : Block)

/-- `sent half`: the DMA has transmitted the half. `filled half source mono`: the half has been
filled with these samples. -/
inductive Event
  | opened
  | closed
  | read
  | pushed (bytes : Vector UInt8 streamRxBlockSize)
  | filled (half : Fin 2) (source : AudioSource) (mono : List Int16)
  | sent (half : Fin 2)
  | stopped
  deriving DecidableEq

/-- What the player calls. A `true` is `FR_OK` or `HAL_OK`; the results of `f_read` and `f_close`,
which the code does not look at, are left out. -/
structure Env (W : Type*) where
  f_open : W → String → Bool × W
  f_lseek : W → ℕ → Bool × W
  f_read : W → ℕ → List UInt8 × W
  f_close : W → W
  transmitDma : W → Bool × W
  dmaStop : W → W
  getTick : W → UInt32 × W
  interrupts : W → List Interrupt × W
  length_f_read : ∀ w n, (f_read w n).1.length ≤ n

/-- The static variables. `s_i2sBuf` holds its two halves; `s_monoBuf` is passed on directly. -/
structure Player (W : Type*) where
  s_i2sBuf : Fin 2 → List Int16
  queue : AudioQueue
  rx : AudioStreamRx
  s_audioSource : AudioSource
  s_bufferEvent : UInt8
  s_wavEof : Bool
  s_isPlaying : Bool
  s_stopPending : Bool
  s_streamStopRequested : Bool
  s_streamLastDataTick : UInt32
  world : W
  log : List Event

def sample (lo hi : UInt8) : Int16 := (lo.toUInt16 ||| (hi.toUInt16 <<< 8)).toInt16

/-- The whole samples of what was read, `bytesRead / 2` of them. -/
def monoSamples : List UInt8 → List Int16
  | lo :: hi :: rest => sample lo hi :: monoSamples rest
  | _ => []

/-- Each sample twice, left and right, and zeros up to the end of the half. -/
def stereo (mono : List Int16) : List Int16 :=
  mono.flatMap (fun x => [x, x]) ++ List.replicate ((playerMonoSamples - mono.length) * 2) 0

namespace Player

variable {W : Type*}

/-- The zeros before `main`. -/
def boot (rx : AudioStreamRx) (world : W) : Player W where
  s_i2sBuf := fun _ => stereo []
  queue := .empty
  rx := rx
  s_audioSource := .none
  s_bufferEvent := 0
  s_wavEof := false
  s_isPlaying := false
  s_stopPending := false
  s_streamStopRequested := false
  s_streamLastDataTick := 0
  world := world
  log := []

def audioInit (s : Player W) : Player W :=
  { s with
    s_i2sBuf := fun _ => stereo []
    queue := s.queue.clearQueue
    s_audioSource := .none
    s_bufferEvent := 0
    s_wavEof := false
    s_isPlaying := false
    s_stopPending := false
    s_streamStopRequested := false
    s_streamLastDataTick := 0 }

/-- `HAL_I2S_TxHalfCpltCallback`, `HAL_I2S_TxCpltCallback` and `HAL_SPI_RxCpltCallback` -/
def isr (s : Player W) : Interrupt → Player W
  | .txHalfCplt => { s with s_bufferEvent := s.s_bufferEvent ||| 0x01, log := s.log ++ [.sent 0] }
  | .txCplt => { s with s_bufferEvent := s.s_bufferEvent ||| 0x02, log := s.log ++ [.sent 1] }
  | .rxCplt block => { s with rx := s.rx.rxCpltCallback block }

def irq (E : Env W) (s : Player W) : Player W :=
  let (interrupts, world) := E.interrupts s.world
  interrupts.foldl isr { s with world := world }

def readMonoPcm (E : Env W) (s : Player W) (bytesToRead : ℕ) : Player W × List UInt8 :=
  match s.s_audioSource with
  | .wav =>
      let (bytes, world) := E.f_read s.world bytesToRead
      ({ s with world := world, log := s.log ++ [.read] }, bytes)
  | .stream =>
      let (rx, bytes) := s.rx.read bytesToRead
      ({ s with rx := rx }, bytes)
  | .none => (s, [])

/-- The half is filled; with no samples this is the `memset` to zero. -/
def store (s : Player W) (half : Fin 2) (mono : List Int16) : Player W :=
  { s with
    s_i2sBuf := Function.update s.s_i2sBuf half (stereo mono)
    log := s.log ++ [.filled half s.s_audioSource mono] }

def fillHalfBuffer (E : Env W) (s : Player W) (half : Fin 2) : Player W :=
  if s.s_audioSource = .wav ∧ s.s_wavEof = true then s.store half []
  else
    let (s, bytes) := s.readMonoPcm E (playerMonoSamples * 2)
    let mono := monoSamples bytes
    if mono.length = 0 then
      let s := if s.s_audioSource = .wav then { s with s_wavEof := true } else s
      s.store half []
    else
      let s := s.store half mono
      if s.s_audioSource = .wav ∧ mono.length < playerMonoSamples then { s with s_wavEof := true }
      else s

def prefill (E : Env W) (s : Player W) : Player W :=
  let s := { s with s_i2sBuf := fun _ => stereo [] }
  let s := s.fillHalfBuffer E 0
  s.fillHalfBuffer E 1

def f_open (E : Env W) (s : Player W) (filename : String) : Player W × Bool :=
  let (ok, world) := E.f_open s.world filename
  ({ s with world := world, log := if ok then s.log ++ [.opened] else s.log }, ok)

def f_lseek (E : Env W) (s : Player W) (ofs : ℕ) : Player W × Bool :=
  let (ok, world) := E.f_lseek s.world ofs
  ({ s with world := world }, ok)

def f_close (E : Env W) (s : Player W) : Player W :=
  { s with world := E.f_close s.world, log := s.log ++ [.closed] }

def transmitDma (E : Env W) (s : Player W) : Player W × Bool :=
  let (ok, world) := E.transmitDma s.world
  ({ s with world := world }, ok)

def dmaStop (E : Env W) (s : Player W) : Player W :=
  { s with world := E.dmaStop s.world, log := s.log ++ [.stopped] }

def getTick (E : Env W) (s : Player W) : Player W × UInt32 :=
  let (tick, world) := E.getTick s.world
  ({ s with world := world }, tick)

def reset (s : Player W) (source : AudioSource) (tick : UInt32) : Player W :=
  { s with
    s_audioSource := source
    s_bufferEvent := 0
    s_wavEof := false
    s_stopPending := false
    s_streamStopRequested := false
    s_streamLastDataTick := tick }

def setSource (s : Player W) (source : AudioSource) : Player W := { s with s_audioSource := source }

def setPlaying (s : Player W) (isPlaying : Bool) : Player W := { s with s_isPlaying := isPlaying }

def startWav (E : Env W) (s : Player W) (filename : String) : Player W × Bool :=
  if s.s_isPlaying then (s, false)
  else
    let (s, opened) := ((s.irq E).reset .wav 0).f_open E filename
    if !opened then (s.setSource .none, false)
    else
      let (s, sought) := s.f_lseek E playerWavHeaderSize
      if !sought then ((s.f_close E).setSource .none, false)
      else
        let (s, started) := (s.prefill E).transmitDma E
        if !started then ((s.f_close E).setSource .none, false) else (s.setPlaying true, true)

def startStream (E : Env W) (s : Player W) : Player W × Bool :=
  if s.s_isPlaying then (s, false)
  else if s.rx.available < streamPrebufferBytes then (s, false)
  else
    let (s, tick) := (s.irq E).getTick E
    let (s, started) := ((s.reset .stream tick).prefill E).transmitDma E
    if !started then (s.setSource .none, false) else (s.setPlaying true, true)

def requestStopStream (s : Player W) : Player W :=
  if s.s_audioSource = .stream then { s with s_streamStopRequested := true } else s

def playNextFromQueue (E : Env W) (s : Player W) : Player W :=
  if s.s_isPlaying then s
  else
    match s.queue.dequeue with
    | (queue, some filename) => ({ s with queue := queue }.startWav E filename).1
    | (queue, none) => { s with queue := queue }

def guide (E : Env W) (s : Player W) (congestion : Fin 8 → UInt8) : Player W :=
  { s with queue := s.queue.guideEnqueue congestion }.playNextFromQueue E

def stop (E : Env W) (s : Player W) : Player W :=
  if !s.s_isPlaying then s
  else
    let s := s.dmaStop E
    let s := if s.s_audioSource = .wav then s.f_close E else s
    ((s.irq E).reset .none 0).setPlaying false

def streamRxProcess (E : Env W) (s : Player W) : Player W :=
  let s := s.irq E
  match s.rx.takeReadyBlock with
  | (rx, some bufIndex) =>
      let s := { s with rx := rx }.irq E
      let block := s.rx.s_spiRxBuf bufIndex
      { s with rx := s.rx.pushBlock block.bytes.toList, log := s.log ++ [.pushed block.bytes] }
  | (rx, none) => { s with rx := rx }

/-- `s_streamLastDataTick` follows the clock while the ring holds data. -/
def noteStreamData (E : Env W) (s : Player W) : Player W :=
  if 0 < s.rx.available then
    let (s, tick) := s.getTick E
    { s with s_streamLastDataTick := tick }
  else s

/-- `s_bufferEvent &= ~bit`, a load and a store: what an interrupt sets in between is lost. -/
def clearEvent (E : Env W) (s : Player W) (bit : UInt8) : Player W :=
  let s := s.irq E
  let bufferEvent := s.s_bufferEvent
  { s.irq E with s_bufferEvent := bufferEvent &&& ~~~bit }

def markEof (s : Player W) : Player W :=
  if s.s_audioSource = .wav ∧ s.s_wavEof = true then { s with s_stopPending := true } else s

def refill (E : Env W) (s : Player W) (half : Fin 2) (bit : UInt8) : Player W :=
  let s := s.irq E
  if s.s_bufferEvent &&& bit ≠ 0 then ((s.clearEvent E bit).fillHalfBuffer E half).markEof else s

def stopAtEof (E : Env W) (s : Player W) : Player W :=
  if s.s_audioSource = .wav ∧ s.s_stopPending = true ∧ s.s_wavEof = true then
    let s := s.irq E
    if s.s_bufferEvent = 0 then s.stop E else s
  else s

def stopStream (E : Env W) (s : Player W) : Player W :=
  if s.s_audioSource = .stream then
    let (s, now) := s.getTick E
    let s := s.irq E
    if (s.rx.available = 0 ∧ s.s_bufferEvent = 0 ∧
          streamTimeoutMs ≤ now - s.s_streamLastDataTick) ∨
        (s.s_streamStopRequested = true ∧ s.rx.available = 0 ∧ s.s_bufferEvent = 0) then
      s.stop E
    else s
  else s

def playOn (E : Env W) (s : Player W) : Player W :=
  let s := s.refill E 0 0x01
  let s := s.refill E 1 0x02
  let s := s.stopAtEof E
  s.stopStream E

/-- The part of `Audio_Process` for a player that is not playing, a guide before the stream. -/
def playNext (E : Env W) (s : Player W) : Player W :=
  if !s.queue.isQueueEmpty then s.playNextFromQueue E else (s.startStream E).1

def process (E : Env W) (s : Player W) : Player W :=
  let s := s.streamRxProcess E
  let s := s.noteStreamData E
  let s := if s.s_isPlaying then s.playOn E else s
  if !s.s_isPlaying then s.playNext E else s

end Player

inductive PlayerCall
  | startWav (filename : String)
  | startStream
  | guide (congestion : Fin 8 → UInt8)
  | process
  | requestStopStream
  | stop
  | interrupt (i : Interrupt)

/-- The calls of the API, with interrupts between them and inside them. -/
def player {W : Type*} (E : Env W) : Machine (Player W) PlayerCall Unit where
  step s
    | .startWav filename => ((s.startWav E filename).1, ())
    | .startStream => ((s.startStream E).1, ())
    | .guide congestion => (s.guide E congestion, ())
    | .process => (s.process E, ())
    | .requestStopStream => (s.requestStopStream, ())
    | .stop => (s.stop E, ())
    | .interrupt i => (s.isr i, ())

namespace Player

variable {W : Type*}

theorem foldl_isr_cases (s : Player W) (interrupts : List Interrupt) :
    ∃ bufferEvent rx sents, interrupts.foldl isr s =
        { s with s_bufferEvent := bufferEvent, rx := rx, log := s.log ++ sents } ∧
      rx.ring = s.rx.ring ∧ ∀ e ∈ sents, ∃ half, e = Event.sent half := by
  induction interrupts generalizing s with
  | nil =>
    refine ⟨s.s_bufferEvent, s.rx, [], ?_, rfl, fun _ h => absurd h List.not_mem_nil⟩
    rw [List.append_nil]
    rfl
  | cons i interrupts ih =>
    obtain ⟨bufferEvent, rx, sents, heq, hring, hsents⟩ := ih (s.isr i)
    rw [List.foldl_cons, heq]
    cases i with
    | txHalfCplt =>
      refine ⟨bufferEvent, rx, .sent 0 :: sents, ?_, hring, ?_⟩
      · simp only [isr, List.append_assoc, List.singleton_append]
      · exact List.forall_mem_cons.mpr ⟨⟨0, rfl⟩, hsents⟩
    | txCplt =>
      refine ⟨bufferEvent, rx, .sent 1 :: sents, ?_, hring, ?_⟩
      · simp only [isr, List.append_assoc, List.singleton_append]
      · exact List.forall_mem_cons.mpr ⟨⟨1, rfl⟩, hsents⟩
    | rxCplt block => exact ⟨bufferEvent, rx, sents, rfl, hring, hsents⟩

/-- Interrupts set bits of `s_bufferEvent` and receive blocks, and leave the ring alone. -/
theorem irq_cases (E : Env W) (s : Player W) :
    ∃ bufferEvent rx world sents, s.irq E =
        { s with s_bufferEvent := bufferEvent, rx := rx, world := world, log := s.log ++ sents } ∧
      rx.ring = s.rx.ring ∧ ∀ e ∈ sents, ∃ half, e = Event.sent half := by
  obtain ⟨bufferEvent, rx, sents, heq, hring, hsents⟩ :=
    foldl_isr_cases { s with world := (E.interrupts s.world).2 } (E.interrupts s.world).1
  exact ⟨bufferEvent, rx, _, sents, heq, hring, hsents⟩

theorem length_monoSamples (bytes : List UInt8) :
    (monoSamples bytes).length = bytes.length / 2 := by
  fun_induction monoSamples bytes with
  | case1 lo hi rest ih =>
    rw [List.length_cons, ih, List.length_cons, List.length_cons]
    omega
  | case2 bytes h =>
    rcases bytes with _ | ⟨lo, _ | ⟨hi, rest⟩⟩
    · rfl
    · rw [List.length_singleton]
      rfl
    · exact absurd rfl (h lo hi rest)

/-- What a fill reads from the card, and what from the ring. -/
def wavSamples (E : Env W) (s : Player W) : List Int16 :=
  monoSamples (E.f_read s.world (playerMonoSamples * 2)).1

def streamSamples (s : Player W) : List Int16 :=
  monoSamples (s.rx.read (playerMonoSamples * 2)).2

theorem fillHalfBuffer_none (E : Env W) {s : Player W} (h : s.s_audioSource = .none)
    (half : Fin 2) : s.fillHalfBuffer E half = s.store half [] := by
  rw [fillHalfBuffer, if_neg (fun hwav => by cases h.symm.trans hwav.1)]
  simp [readMonoPcm, monoSamples, h]

theorem fillHalfBuffer_eof (E : Env W) {s : Player W} (h : s.s_audioSource = .wav)
    (heof : s.s_wavEof = true) (half : Fin 2) : s.fillHalfBuffer E half = s.store half [] :=
  if_pos ⟨h, heof⟩

/-- Until then a fill takes what the card gives, and a short one is the end of the file. -/
theorem fillHalfBuffer_wav (E : Env W) {s : Player W} (h : s.s_audioSource = .wav)
    (heof : s.s_wavEof = false) (half : Fin 2) : s.fillHalfBuffer E half =
      { s with
        s_i2sBuf := Function.update s.s_i2sBuf half (stereo (s.wavSamples E))
        s_wavEof := decide ((s.wavSamples E).length < playerMonoSamples)
        world := (E.f_read s.world (playerMonoSamples * 2)).2
        log := s.log ++ [.read, .filled half .wav (s.wavSamples E)] } := by
  rw [fillHalfBuffer, if_neg (fun hwav => by cases heof.symm.trans hwav.2)]
  simp only [readMonoPcm, h, store, if_true, true_and]
  split_ifs with hzero hshort
  · have hnil : s.wavSamples E = [] := List.length_eq_zero_iff.mp hzero
    simp only [hnil, List.append_assoc]
    rfl
  · have hdecide : decide ((s.wavSamples E).length < playerMonoSamples) = true :=
      decide_eq_true hshort
    rw [hdecide, List.append_assoc]
    rfl
  · have hdecide : decide ((s.wavSamples E).length < playerMonoSamples) = false :=
      decide_eq_false hshort
    rw [hdecide, List.append_assoc, heof]
    rfl

theorem fillHalfBuffer_stream (E : Env W) {s : Player W} (h : s.s_audioSource = .stream)
    (half : Fin 2) : s.fillHalfBuffer E half =
      { s with
        s_i2sBuf := Function.update s.s_i2sBuf half (stereo s.streamSamples)
        rx := (s.rx.read (playerMonoSamples * 2)).1
        log := s.log ++ [.filled half .stream s.streamSamples] } := by
  rw [fillHalfBuffer, if_neg (fun hwav => by cases h.symm.trans hwav.1)]
  simp only [readMonoPcm, h, store, streamSamples, reduceCtorEq, if_false, false_and]
  split_ifs with hzero
  · rw [List.length_eq_zero_iff.mp hzero]
  · rfl

end Player

end JeogiAt.Audio
