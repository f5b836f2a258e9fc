import JeogiAt.AudioBlocks
import JeogiAt.MicStream

/-!
# From the microphone to the player

The client cuts the capture into frames, the Pi passes each of them to the SPI device, and the
firmware receives it as one block, moves it to the ring and lets the player read. Where the main
loop keeps up, what has been read, what the ring holds and what still waits are together the
capture, up to the frame that came last.
-/

namespace JeogiAt.Audio

open MicStream

namespace Pipeline

def heard (s : Pipeline) : PipelineStep → List UInt8
  | .read len =>
      match s.hand with
      | none => (s.rx.read len).2
      | some _ => []
  | _ => []

/-- What the player has yet to read of the blocks received. -/
def held (s : Pipeline) : List UInt8 :=
  s.rx.ring.contents ++ s.waiting.flatMap fun b => b.bytes.toList

/-- The main loop keeps up with the blocks, and the player with the main loop. -/
def KeepsUp (s : Pipeline) : PipelineStep → Prop
  | .rxCplt bytes => s.InTurn (.rxCplt bytes) ∧ s.NotReady (.rxCplt bytes)
  | .main => s.hand ≠ none → s.rx.ring.count + streamRxBlockSize ≤ streamRingSize
  | .read _ => True

end Pipeline

def hearing : Machine Pipeline PipelineStep (List UInt8) := ⟨fun s x => (s.step x, s.heard x)⟩

def PipelineStep.arrival : PipelineStep → Option (Vector UInt8 streamRxBlockSize)
  | .rxCplt bytes => some bytes
  | _ => none

def arrivals (steps : List PipelineStep) : List (Vector UInt8 streamRxBlockSize) :=
  steps.filterMap PipelineStep.arrival

namespace Pipeline

variable {s : Pipeline}

theorem waiting_keepsUp {bytes : Vector UInt8 streamRxBlockSize}
    (h : s.KeepsUp (.rxCplt bytes)) : (hearing.next s (.rxCplt bytes)).waiting =
      s.waiting ++ [⟨bytes, s.received.length⟩] := by
  obtain ⟨⟨hhand, hturn⟩, hready⟩ := h
  have hnext : hearing.next s (.rxCplt bytes) = pipeline.next s (.rxCplt bytes) := rfl
  rw [hnext]
  obtain hd | hd : s.rx.s_dmaBufIndex = 0 ∨ s.rx.s_dmaBufIndex = 1 := by omega
  · have hother : s.rx.s_readyFlags 1 = false := by
      rw [← Bool.not_eq_true]
      exact fun hflag => hturn ⟨hd, hflag⟩
    have hown : s.rx.s_readyFlags 0 = false := hd ▸ hready
    rw [hd] at hhand
    rw [waiting_rxCplt_zero s bytes hd, hand_rxCplt hhand, waiting, hother, hown]
    simp
  · have hown : s.rx.s_readyFlags 1 = false := hd ▸ hready
    rw [hd] at hhand
    rw [waiting_rxCplt_one s bytes hd, hand_rxCplt hhand, waiting, hown]
    simp

theorem heard_step (hring : s.rx.ring.WellFormed streamRingSize) {x : PipelineStep}
    (h : s.KeepsUp x) :
    (hearing.next s x).rx.ring.WellFormed streamRingSize ∧
      hearing.output s x ++ (hearing.next s x).held =
        s.held ++ (arrivals [x]).flatMap Vector.toList := by
  cases x with
  | rxCplt bytes =>
    refine ⟨hring, ?_⟩
    have hheld : (hearing.next s (.rxCplt bytes)).held = s.rx.ring.contents ++
        (hearing.next s (.rxCplt bytes)).waiting.flatMap fun b => b.bytes.toList := rfl
    rw [hheld, waiting_keepsUp h, List.flatMap_append, ← List.append_assoc]
    simp [held, arrivals, PipelineStep.arrival, hearing, heard, Machine.output]
  | main =>
    have hall := (next_main s).1
    cases hhand : s.hand with
    | none =>
      have hmoved : (pipeline.next s .main).moved = s.moved := by
        simp only [Machine.next, pipeline, step, hhand]
      have hsame : (pipeline.next s .main).rx.ring = s.rx.ring := by
        simp only [Machine.next, pipeline, step, hhand, AudioStreamRx.takeReadyBlock]
        split_ifs <;> rfl
      rw [hmoved, List.append_cancel_left_eq] at hall
      refine ⟨hsame ▸ hring, ?_⟩
      have hheld : (hearing.next s .main).held = (pipeline.next s .main).rx.ring.contents ++
          (pipeline.next s .main).waiting.flatMap fun b => b.bytes.toList := rfl
      rw [hheld, hsame, hall]
      simp [held, arrivals, PipelineStep.arrival, hearing, heard, Machine.output]
    | some i =>
      have hroom := h (by rw [hhand]; exact Option.some_ne_none i)
      have hlength : (s.rx.s_spiRxBuf i).bytes.toList.length = streamRxBlockSize :=
        Vector.length_toList
      have hmoved : (pipeline.next s .main).moved = s.moved ++ [s.rx.s_spiRxBuf i] := by
        simp only [Machine.next, pipeline, step, hhand]
      have hpushed : (pipeline.next s .main).rx.ring =
          (s.rx.ring.push streamRingSize (s.rx.s_spiRxBuf i).bytes.toList).1 := by
        simp only [Machine.next, pipeline, step, hhand]
        exact AudioStreamRx.pushBlock_ring _ _
      have hcontents := RingBuffer.contents_push hring (s.rx.s_spiRxBuf i).bytes.toList
      rw [List.take_of_length_le (by omega)] at hcontents
      rw [hmoved, List.append_assoc, List.append_cancel_left_eq] at hall
      have hheld : (hearing.next s .main).held = (pipeline.next s .main).rx.ring.contents ++
          (pipeline.next s .main).waiting.flatMap fun b => b.bytes.toList := rfl
      refine ⟨?_, ?_⟩
      · have hwf := RingBuffer.wellFormed_push hring (s.rx.s_spiRxBuf i).bytes.toList
        exact hpushed ▸ hwf
      · rw [hheld, hpushed, hcontents, held, ← hall]
        simp [arrivals, PipelineStep.arrival, hearing, heard, Machine.output]
  | read len =>
    obtain ⟨-, hwaiting, -, -⟩ := next_read s len
    have hheld : (hearing.next s (.read len)).held =
        (pipeline.next s (.read len)).rx.ring.contents ++
          (pipeline.next s (.read len)).waiting.flatMap fun b => b.bytes.toList := rfl
    have hnone : (arrivals [PipelineStep.read len]).flatMap Vector.toList = [] := rfl
    rw [hheld, hwaiting, hnone, List.append_nil]
    cases hhand : s.hand with
    | none =>
      have hrx : (pipeline.next s (.read len)).rx = (s.rx.read len).1 := by
        simp only [Machine.next, pipeline, step, hhand]
      have hout : hearing.output s (.read len) = (s.rx.read len).2 := by
        simp only [Machine.output, hearing, heard, hhand]
      have hread : (s.rx.read len).2 = s.rx.ring.contents.take len :=
        RingBuffer.get_snd hring len
      have hrest : (s.rx.read len).1.ring.contents = s.rx.ring.contents.drop len :=
        RingBuffer.contents_get hring len
      have hwf : (s.rx.read len).1.ring.WellFormed streamRingSize :=
        RingBuffer.wellFormed_get hring len
      refine ⟨hrx ▸ hwf, ?_⟩
      rw [hrx, hout, hread, hrest, ← List.append_assoc, List.take_append_drop]
      rfl
    | some i =>
      have hsame : pipeline.next s (.read len) = s := by
        simp only [Machine.next, pipeline, step, hhand]
      have hout : hearing.output s (.read len) = [] := by
        simp only [Machine.output, hearing, heard, hhand]
      have hnext : (hearing.next s (.read len)).rx.ring = s.rx.ring := congrArg (·.rx.ring) hsame
      refine ⟨hnext ▸ hring, ?_⟩
      rw [hsame, hout]
      rfl

/-- What has been read and what is held are the blocks that have come, in order. -/
theorem heard_run {steps : List PipelineStep} (h : hearing.Along KeepsUp init steps) :
    (hearing.run init steps).rx.ring.WellFormed streamRingSize ∧
      (hearing.trace init steps).flatten ++ (hearing.run init steps).held =
        (arrivals steps).flatMap Vector.toList := by
  induction steps using List.reverseRecOn with
  | nil =>
    refine ⟨AudioStreamRx.wellFormed_init, ?_⟩
    have hheld : init.held = [] := by
      rw [held]
      exact congrArg (· ++ _) AudioStreamRx.contents_init
    exact hheld
  | append_singleton steps x ih =>
    obtain ⟨hsteps, hx⟩ := Machine.along_concat.mp h
    obtain ⟨hring, hheard⟩ := ih hsteps
    obtain ⟨hnext, hstep⟩ := heard_step hring hx
    have harrivals : arrivals (steps ++ [x]) = arrivals steps ++ arrivals [x] :=
      List.filterMap_append
    rw [Machine.run_concat, Machine.trace_concat, harrivals]
    refine ⟨hnext, ?_⟩
    rw [List.flatten_append, List.flatten_singleton, List.append_assoc, hstep,
      ← List.append_assoc, hheard, List.flatMap_append]

end Pipeline

open Pipeline

/-- However a session whose socket works is cut into segments and cut off, however the player reads
and wherever a write on the Pi fails: while the main loop keeps up with the frames that the Pi passes
on, and the ring has room for each block, what has been read and what is held are the capture up to
the last frame that has come. -/
theorem heard_captured {calls : List ReadyRead} (hworks : ∀ call ∈ calls, call.socket.Works)
    {pcm_out : Option (List UInt8 → Bool)} {spi : List UInt8 → Bool} {c : Connection}
    (hc : c.bytes <+: written calls)
    {steps : List PipelineStep} (hsteps : hearing.Along KeepsUp .init steps)
    (hblocks : (arrivals steps).map Vector.toList <+:
      (handleAudioStreamClient pcm_out spi c).payloads) :
    (hearing.trace .init steps).flatten ++ (hearing.run .init steps).held =
      (captured calls).take (streamRxBlockSize * (arrivals steps).length) := by
  have hwritten : written calls = (MicStreamer.sendFrames .reliable ⟨captured calls, 0⟩).2 :=
    congrArg Prod.snd (run_written hworks)
  rw [hwritten] at hc
  have hdelivered := @delivered_frames none (fun _ => true)
    (fun write hwrite => absurd hwrite (Option.not_mem_none write)) (fun _ => rfl)
    (captured calls) 0 c hc
  obtain ⟨rest, hrest⟩ := hblocks.trans (payloads_fails pcm_out spi c)
  have hcount := hdelivered.count
  have hpayloads := hdelivered.payloads
  rw [← hrest, List.length_append, List.length_map] at hcount
  rw [← hrest, List.flatten_append, ← List.flatMap_def] at hpayloads
  have hlength : ((arrivals steps).flatMap Vector.toList).length =
      streamRxBlockSize * (arrivals steps).length :=
    RingBuffer.length_flatMap_of_length (fun _ => Vector.length_toList) _
  have htake := congrArg (List.take (streamRxBlockSize * (arrivals steps).length)) hpayloads
  have hle : streamRxBlockSize * (arrivals steps).length ≤ 1920 * (c.bytes.length / 1928) :=
    Nat.mul_le_mul_left 1920 (by omega)
  rw [List.take_left' hlength, List.take_take, Nat.min_eq_left hle] at htake
  exact (heard_run hsteps).2.trans htake

def firstFrame : List PipelineStep :=
  [.rxCplt (Vector.ofFn fun i => (captured twoChunks).getD i 0), .main, .main, .read 8192]

theorem keepsUp_firstFrame : hearing.Along KeepsUp .init firstFrame := by
  refine ⟨⟨⟨?_, fun hturn => ?_⟩, rfl⟩, fun hhand => absurd rfl hhand,
    fun _ => Nat.le_of_ble_eq_true rfl, trivial, trivial⟩
  · exact fun hhand => absurd hhand.symm (Option.some_ne_none _)
  · cases hturn.2

theorem works_twoChunks : ∀ call ∈ twoChunks, call.socket.Works :=
  List.forall_mem_cons.mpr ⟨works_reliable, List.forall_mem_singleton.mpr works_reliable⟩

theorem bytes_twoSegments : twoSegments.bytes = written twoChunks := by
  rw [Connection.bytes, twoSegments, List.flatten_cons, List.flatten_singleton,
    List.take_append_drop]

theorem length_twoChunks : (captured twoChunks).length = 2000 := by
  rw [captured, twoChunks, List.flatMap_cons, List.flatMap_singleton, List.length_append,
    List.length_replicate, List.length_replicate]

theorem sendFrames_once {capture : List UInt8} (seq : UInt32) (h : frameBytes ≤ capture.length)
    (hlt : capture.length < 2 * frameBytes) :
    (MicStreamer.sendFrames .reliable ⟨capture, seq⟩).2 =
      packetOf seq (capture.take frameBytes) := by
  have hshort : (capture.drop frameBytes).length < frameBytes := by
    rw [List.length_drop]
    omega
  rw [MicStreamer.sendFrames_frame (s := ⟨capture, seq⟩) works_reliable h]
  dsimp only
  rw [MicStreamer.sendFrames_short (s := ⟨capture.drop frameBytes, seq + 1⟩) hshort,
    List.append_nil]

theorem length_twoSegments : twoSegments.bytes.length = 1928 := by
  have hframe : frameBytes ≤ (captured twoChunks).length := by
    rw [length_twoChunks, frameBytes]
    omega
  have hlt : (captured twoChunks).length < 2 * frameBytes := by
    rw [length_twoChunks, frameBytes]
    omega
  have hwritten : written twoChunks = packetOf 0 ((captured twoChunks).take frameBytes) :=
    (congrArg Prod.snd (run_written works_twoChunks)).trans (sendFrames_once 0 hframe hlt)
  rw [bytes_twoSegments, hwritten, length_packetOf (List.length_take_of_le hframe), frameBytes]

theorem payloads_twoSegments : (handleAudioStreamClient none (fun _ => true) twoSegments).payloads =
    [(captured twoChunks).take 1920] := by
  have hprefix : twoSegments.bytes <+:
      (MicStreamer.sendFrames .reliable ⟨captured twoChunks, 0⟩).2 := by
    rw [bytes_twoSegments]
    exact congrArg Prod.snd (run_written works_twoChunks) ▸ List.prefix_rfl
  have hdelivered := @delivered_frames none (fun _ => true)
    (fun write hwrite => absurd hwrite (Option.not_mem_none write)) (fun _ => rfl)
    (captured twoChunks) 0 twoSegments hprefix
  have hcount := hdelivered.count
  have hpayloads := hdelivered.payloads
  rw [length_twoSegments] at hcount hpayloads
  obtain ⟨payload, hone⟩ := List.length_eq_one_iff.mp hcount
  rw [hone, List.flatten_singleton] at hpayloads
  rw [hone, hpayloads]

theorem arrivals_firstFrame :
    (arrivals firstFrame).map Vector.toList = [(captured twoChunks).take 1920] := by
  have hone : (arrivals firstFrame).map Vector.toList =
      [(Vector.ofFn fun i : Fin streamRxBlockSize => (captured twoChunks).getD i 0).toList] := rfl
  rw [hone, Vector.toList_ofFn]
  refine congrArg (· :: []) (List.ext_getElem ?_ fun i hi hi' => ?_)
  · rw [List.length_ofFn, List.length_take, length_twoChunks]
    rfl
  · rw [List.getElem_ofFn, List.getElem_take]
    exact (List.getElem_eq_getD 0).symm

theorem heard_firstFrame :
    (hearing.trace .init firstFrame).flatten ++ (hearing.run .init firstFrame).held =
      (captured twoChunks).take (streamRxBlockSize * (arrivals firstFrame).length) :=
  @heard_captured twoChunks works_twoChunks none (fun _ => true) twoSegments
    (bytes_twoSegments ▸ List.prefix_rfl) firstFrame keepsUp_firstFrame
    (by rw [arrivals_firstFrame, payloads_twoSegments])

end JeogiAt.Audio
