import JeogiAt.Library.RingBuffer
import Mathlib.Logic.Function.Basic

/-!
# The firmware's audio stream receiver

The functions of `audio_stream_rx.c`. SPI blocks arrive by DMA in two buffers in turn; the main
loop takes a ready buffer and pushes its block into a ring buffer, from which the player reads.

The calls that restart the DMA are taken to succeed.
-/

namespace JeogiAt.Audio

abbrev streamRxBlockSize : ℕ := 1920
abbrev streamRingSize : ℕ := 32768

/-- Gives the literals of `Fin 2` one proof term in all modules. -/
scoped instance neZero_two : @NeZero ℕ Zero.ofOfNat0 2 := ⟨Nat.succ_ne_zero 1⟩

/-- A block received. `number` tells the blocks apart; the code does not see it. -/
structure Block where
  bytes : Vector UInt8 streamRxBlockSize
  number : ℕ

def Block.zero : Block := ⟨Vector.replicate streamRxBlockSize 0, 0⟩

/-- The static variables, `s_ringBuf`, `s_write`, `s_read` and `s_count` together as `ring`. -/
structure AudioStreamRx where
  s_spiRxBuf : Fin 2 → Block
  ring : RingBuffer UInt8
  s_dmaBufIndex : Fin 2
  s_readyFlags : Fin 2 → Bool
  s_rxBlockCount : UInt32
  s_overflowDropCount : UInt32

namespace AudioStreamRx

def init : AudioStreamRx where
  s_spiRxBuf := fun _ => .zero
  ring := ⟨List.replicate streamRingSize 0, 0, 0, 0⟩
  s_dmaBufIndex := 0
  s_readyFlags := fun _ => false
  s_rxBlockCount := 0
  s_overflowDropCount := 0

def available (s : AudioStreamRx) : ℕ := s.ring.count

def read (s : AudioStreamRx) (len : ℕ) : AudioStreamRx × List UInt8 :=
  let r := s.ring.get streamRingSize len
  ({ s with ring := r.1 }, r.2)

/-- `AudioStreamRx_TakeReadyBlock`: the index taken, if a flag is up. -/
def takeReadyBlock (s : AudioStreamRx) : AudioStreamRx × Option (Fin 2) :=
  if s.s_readyFlags 0 then
    ({ s with s_readyFlags := Function.update s.s_readyFlags 0 false }, some 0)
  else if s.s_readyFlags 1 then
    ({ s with s_readyFlags := Function.update s.s_readyFlags 1 false }, some 1)
  else (s, none)

def pushBlock (s : AudioStreamRx) (src : List UInt8) : AudioStreamRx :=
  let (ring, pushLen) := s.ring.push streamRingSize src
  let s := { s with ring := ring }
  if pushLen < src.length then
    { s with s_overflowDropCount := s.s_overflowDropCount + UInt32.ofNat (src.length - pushLen) }
  else s

/-- `HAL_SPI_RxCpltCallback` for the block that the DMA has put into the current buffer. -/
def rxCpltCallback (s : AudioStreamRx) (block : Block) : AudioStreamRx :=
  let doneIndex := s.s_dmaBufIndex
  { s with
    s_spiRxBuf := Function.update s.s_spiRxBuf doneIndex block
    s_rxBlockCount := s.s_rxBlockCount + 1
    s_readyFlags := Function.update s.s_readyFlags doneIndex true
    s_dmaBufIndex := doneIndex + 1 }

theorem wellFormed_init : init.ring.WellFormed streamRingSize :=
  ⟨List.length_replicate, Nat.zero_lt_succ _, Nat.zero_le _, rfl⟩

theorem contents_init : init.ring.contents = [] := List.take_zero

theorem pushBlock_ring (s : AudioStreamRx) (src : List UInt8) :
    (s.pushBlock src).ring = (s.ring.push streamRingSize src).1 := by
  unfold pushBlock
  dsimp only
  split_ifs <;> rfl

@[simp] theorem pushBlock_readyFlags (s : AudioStreamRx) (src : List UInt8) :
    (s.pushBlock src).s_readyFlags = s.s_readyFlags := by
  unfold pushBlock
  dsimp only
  split_ifs <;> rfl

@[simp] theorem pushBlock_spiRxBuf (s : AudioStreamRx) (src : List UInt8) :
    (s.pushBlock src).s_spiRxBuf = s.s_spiRxBuf := by
  unfold pushBlock
  dsimp only
  split_ifs <;> rfl

theorem pushBlock_dropCount (s : AudioStreamRx) (src : List UInt8) :
    (s.pushBlock src).s_overflowDropCount =
      s.s_overflowDropCount + UInt32.ofNat (src.length - (streamRingSize - s.ring.count)) := by
  unfold pushBlock
  dsimp only
  rw [RingBuffer.push_snd]
  split_ifs with hdrop
  · dsimp only
    congr 2
    omega
  · have hzero : src.length - (streamRingSize - s.ring.count) = 0 := by omega
    rw [hzero]
    exact (UInt32.add_zero _).symm

/-- `AudioStreamRx_PushBlock` and `AudioStreamRx_Read` calls, in any order and of any lengths. -/
def calls : Machine AudioStreamRx (RingBuffer.Op UInt8) (List UInt8) where
  step s
    | .push src => (s.pushBlock src, src.drop (streamRingSize - s.ring.count))
    | .get len => s.read len

theorem calls_refines (s : AudioStreamRx) (op : RingBuffer.Op UInt8) :
    (calls.next s op).ring = (RingBuffer.ring streamRingSize).next s.ring op ∧
      calls.output s op = (RingBuffer.ring streamRingSize).output s.ring op := by
  cases op with
  | push src =>
    refine ⟨pushBlock_ring s src, ?_⟩
    simp only [Machine.output, calls, RingBuffer.ring, RingBuffer.push_snd]
    rw [List.drop_eq_drop_iff]
    omega
  | get len => exact ⟨rfl, rfl⟩

theorem run_calls {s : AudioStreamRx} (h : s.ring.WellFormed streamRingSize)
    (ops : List (RingBuffer.Op UInt8)) :
    (calls.run s ops).ring.WellFormed streamRingSize ∧
      (calls.run s ops).ring.contents =
        (RingBuffer.fifo streamRingSize).run s.ring.contents ops ∧
      calls.trace s ops = (RingBuffer.fifo streamRingSize).trace s.ring.contents ops := by
  obtain ⟨hrun, htrace⟩ := Machine.run_refines (M := calls)
    (N := RingBuffer.ring streamRingSize) (R := fun s r => s.ring = r)
    (fun s _ op hs => hs ▸ calls_refines s op) rfl ops
  obtain ⟨hwf, hcontents, hfifo⟩ := RingBuffer.ring_refines_fifo h ops
  rw [hrun, htrace]
  exact ⟨hwf, hcontents, hfifo⟩

end AudioStreamRx

end JeogiAt.Audio
