import JeogiAt.Library.Memcpy
import Mathlib.Data.Fin.Basic

/-!
# Frames of the cameras

Both nodes store a decoded frame as one buffer of three planes. `PiNode` copies a plane row by row,
from the decoder's `linesize` to the plane's width. `HanwhaNode` copies it at once, so that its rows
are right exactly where a plane has no padding or only one row.

The workers lay an image over the buffer that has one and a half times as many rows as the frame.
Where the sides are odd, the planes of the colours are rounded down and the buffer is shorter than
that, and `hanwha_worker` does not look at the size of the frame at all.
-/

namespace JeogiAt.Server

structure FrameLayout where
  width : ℕ
  height : ℕ
  linesize : Fin 3 → ℕ

/-- A decoded frame in YUV420P: `data` are the bytes from the address of each plane on. -/
structure AVFrame extends FrameLayout where
  data : Fin 3 → ℕ → UInt8

def resize (n : ℕ) (buffer : List UInt8) : List UInt8 :=
  buffer.take n ++ List.replicate (n - buffer.length) 0

def bytesAt (memory : ℕ → UInt8) (start size : ℕ) : List UInt8 :=
  (List.range size).map fun j => memory (start + j)

namespace FrameLayout

variable (layout : FrameLayout)

def y_size : ℕ := layout.width * layout.height

def uv_size : ℕ := layout.width / 2 * (layout.height / 2)

/-- The rows of a plane, and the bytes of each, as the nodes take them. -/
def rows (plane : Fin 3) : ℕ := if plane = 0 then layout.height else layout.height / 2

def cols (plane : Fin 3) : ℕ := if plane = 0 then layout.width else layout.width / 2

def offset (plane : Fin 3) : ℕ :=
  if plane = 0 then 0
  else if plane = 1 then layout.y_size
  else layout.y_size + layout.uv_size

/-- The rows of a plane lie one behind the other, or there is but one. -/
def Unpadded (plane : Fin 3) : Prop :=
  layout.linesize plane = layout.cols plane ∨ layout.rows plane ≤ 1 ∨ layout.cols plane = 0

end FrameLayout

/-- `HanwhaNode::process_loop`: what is in `g_hw_frame_buffer` after a frame. -/
def hanwhaFrameBuffer (g_hw_frame_buffer : List UInt8) (frame : AVFrame) : List UInt8 :=
  let y_size := frame.width * frame.height
  let uv_size := frame.width / 2 * (frame.height / 2)
  let buffer := resize (y_size + uv_size * 2) g_hw_frame_buffer
  let buffer := memcpy buffer 0 (bytesAt (frame.data 0) 0 y_size)
  let buffer := memcpy buffer y_size (bytesAt (frame.data 1) 0 uv_size)
  memcpy buffer (y_size + uv_size) (bytesAt (frame.data 2) 0 uv_size)

structure CamVideo where
  width : ℕ
  height : ℕ
  frame_buffer : List UInt8

/-- The loop over the rows of a plane. -/
def copyRows (start rows cols : ℕ) (data : ℕ → UInt8) (linesize : ℕ) (buffer : List UInt8) :
    List UInt8 :=
  (List.range rows).foldl
    (fun buffer i => memcpy buffer (start + i * cols) (bytesAt data (i * linesize) cols)) buffer

/-- `PiNode::process_loop`: a frame of a camera that is in the map. -/
def piFrame (camData : CamVideo) (frame : AVFrame) : CamVideo :=
  let w := frame.width
  let h := frame.height
  let y_size := w * h
  let uv_size := w / 2 * (h / 2)
  let buffer := resize (y_size + uv_size * 2) camData.frame_buffer
  let buffer := copyRows 0 h w (frame.data 0) (frame.linesize 0) buffer
  let buffer := copyRows y_size (h / 2) (w / 2) (frame.data 1) (frame.linesize 1) buffer
  let buffer := copyRows (y_size + uv_size) (h / 2) (w / 2) (frame.data 2) (frame.linesize 2) buffer
  ⟨w, h, buffer⟩

/-- The rows of the planes without gaps, each byte from its place in the frame. -/
structure Packed (frame : AVFrame) (buffer : List UInt8) : Prop where
  length : buffer.length = frame.y_size + frame.uv_size * 2
  byte : ∀ plane, ∀ i < frame.rows plane, ∀ j < frame.cols plane,
    buffer[frame.offset plane + i * frame.cols plane + j]? =
      some (frame.data plane (i * frame.linesize plane + j))

theorem length_resize (n : ℕ) (buffer : List UInt8) : (resize n buffer).length = n := by
  rw [resize, List.length_append, List.length_take, List.length_replicate]
  omega

theorem length_bytesAt (memory : ℕ → UInt8) (start size : ℕ) :
    (bytesAt memory start size).length = size := by
  rw [bytesAt, List.length_map, List.length_range]

theorem getElem?_bytesAt (memory : ℕ → UInt8) (start : ℕ) {size j : ℕ} (h : j < size) :
    (bytesAt memory start size)[j]? = some (memory (start + j)) := by
  rw [bytesAt, List.getElem?_map, List.getElem?_range h, Option.map_some]

theorem bytesAt_add (memory : ℕ → UInt8) (start m n : ℕ) :
    bytesAt memory start (m + n) = bytesAt memory start m ++ bytesAt memory (start + m) n := by
  rw [bytesAt, List.range_add, List.map_append, List.map_map]
  simp only [bytesAt, Function.comp_def, Nat.add_assoc]

/-- Rows of `cols` bytes, each `stride` bytes after the one before. -/
def rowBytes (memory : ℕ → UInt8) (stride cols rows : ℕ) : List UInt8 :=
  (List.range rows).flatMap fun i => bytesAt memory (i * stride) cols

variable (memory : ℕ → UInt8) (stride cols rows : ℕ)

theorem rowBytes_succ : rowBytes memory stride cols (rows + 1) =
    rowBytes memory stride cols rows ++ bytesAt memory (rows * stride) cols := by
  rw [rowBytes, List.range_succ, List.flatMap_append, List.flatMap_singleton, rowBytes]

theorem length_rowBytes : (rowBytes memory stride cols rows).length = rows * cols := by
  induction rows with
  | zero => exact (Nat.zero_mul cols).symm
  | succ rows ih => rw [rowBytes_succ, List.length_append, ih, length_bytesAt, Nat.succ_mul]

theorem bytesAt_eq_rowBytes : bytesAt memory 0 (rows * cols) = rowBytes memory cols cols rows := by
  induction rows with
  | zero =>
    rw [Nat.zero_mul]
    rfl
  | succ rows ih => rw [Nat.succ_mul, bytesAt_add, ih, rowBytes_succ, Nat.zero_add]

variable {stride cols rows}

theorem getElem?_rowBytes {i j : ℕ} (hi : i < rows) (hj : j < cols) :
    (rowBytes memory stride cols rows)[i * cols + j]? = some (memory (i * stride + j)) := by
  induction rows with
  | zero => exact absurd hi (Nat.not_lt_zero i)
  | succ rows ih =>
    have hlength := length_rowBytes memory stride cols rows
    rw [rowBytes_succ, List.getElem?_append, hlength]
    rcases Nat.lt_succ_iff_lt_or_eq.mp hi with hlt | rfl
    · have hinside : i * cols + j < rows * cols := by
        have hle := Nat.mul_le_mul_right cols (Nat.succ_le_of_lt hlt)
        rw [Nat.succ_mul] at hle
        omega
      rw [if_pos hinside, ih hlt]
    · rw [if_neg (by omega), Nat.add_sub_cancel_left, getElem?_bytesAt _ _ hj]

/-- The stride does not matter where there is one row, or rows without bytes. -/
theorem rowBytes_congr {stride' : ℕ} (h : stride = stride' ∨ rows ≤ 1 ∨ cols = 0) :
    rowBytes memory stride cols rows = rowBytes memory stride' cols rows := by
  rcases h with rfl | hrows | rfl
  · rfl
  · rcases Nat.le_one_iff_eq_zero_or_eq_one.mp hrows with rfl | rfl
    · rfl
    · simp only [rowBytes, List.range_one, List.flatMap_singleton, Nat.zero_mul]
  · rfl

theorem copyRows_eq (start : ℕ) (data : ℕ → UInt8) (linesize : ℕ) {buffer : List UInt8}
    (h : start + rows * cols ≤ buffer.length) :
    copyRows start rows cols data linesize buffer =
      memcpy buffer start (rowBytes data linesize cols rows) :=
  foldl_memcpy _ (fun i => length_bytesAt data (i * linesize) cols) rows h

namespace AVFrame

variable (frame : AVFrame) (stride : Fin 3 → ℕ)

def plane (p : Fin 3) : List UInt8 :=
  rowBytes (frame.data p) (stride p) (frame.cols p) (frame.rows p)

def planes : List UInt8 := frame.plane stride 0 ++ (frame.plane stride 1 ++ frame.plane stride 2)

theorem length_plane (p : Fin 3) :
    (frame.plane stride p).length = if p = 0 then frame.y_size else frame.uv_size := by
  rw [plane, length_rowBytes, FrameLayout.rows, FrameLayout.cols, Nat.mul_comm]
  split_ifs <;> rfl

theorem length_planes : (frame.planes stride).length = frame.y_size + frame.uv_size * 2 := by
  have hlength := frame.length_plane stride
  rw [planes, List.length_append, List.length_append, hlength, hlength, hlength, if_pos rfl,
    if_neg (by decide), if_neg (by decide), Nat.mul_two]

theorem getElem?_planes (p : Fin 3) {i j : ℕ} (hi : i < frame.rows p) (hj : j < frame.cols p) :
    (frame.planes stride)[frame.offset p + i * frame.cols p + j]? =
      some (frame.data p (i * stride p + j)) := by
  have hy : (frame.plane stride 0).length = frame.y_size := frame.length_plane stride 0
  have hu : (frame.plane stride 1).length = frame.uv_size := frame.length_plane stride 1
  have hbyte : (frame.plane stride p)[i * frame.cols p + j]? =
      some (frame.data p (i * stride p + j)) := getElem?_rowBytes (frame.data p) hi hj
  have hinside := (List.getElem?_eq_some_iff.mp hbyte).1
  rw [planes, Nat.add_assoc]
  match p with
  | 0 =>
    have hstart : frame.offset 0 = 0 := rfl
    rw [hstart, Nat.zero_add, List.getElem?_append_left hinside, hbyte]
  | 1 =>
    have hstart : frame.offset 1 = frame.y_size := rfl
    rw [hstart, ← hy, List.getElem?_append_right (Nat.le_add_right _ _), Nat.add_sub_cancel_left,
      List.getElem?_append_left hinside, hbyte]
  | 2 =>
    have hstart : frame.offset 2 = frame.y_size + frame.uv_size := rfl
    rw [hstart, ← hy, ← hu, Nat.add_assoc, List.getElem?_append_right (Nat.le_add_right _ _),
      Nat.add_sub_cancel_left, List.getElem?_append_right (Nat.le_add_right _ _),
      Nat.add_sub_cancel_left, hbyte]

theorem memcpy_planes {buffer : List UInt8}
    (h : buffer.length = frame.y_size + frame.uv_size * 2) :
    memcpy (memcpy (memcpy buffer 0 (frame.plane stride 0)) frame.y_size (frame.plane stride 1))
      (frame.y_size + frame.uv_size) (frame.plane stride 2) = frame.planes stride := by
  have hy : (frame.plane stride 0).length = frame.y_size := frame.length_plane stride 0
  have hu : (frame.plane stride 1).length = frame.uv_size := frame.length_plane stride 1
  have hv : (frame.plane stride 2).length = frame.uv_size := frame.length_plane stride 2
  have htwo := @memcpy_memcpy _ buffer 0 (frame.plane stride 0) (frame.plane stride 1) (by omega)
  have hthree := @memcpy_memcpy _ buffer 0 (frame.plane stride 0 ++ frame.plane stride 1)
    (frame.plane stride 2) (by rw [List.length_append]; omega)
  rw [Nat.zero_add, hy] at htwo
  rw [Nat.zero_add, List.length_append, hy, hu] at hthree
  rw [htwo, hthree, List.append_assoc]
  exact memcpy_whole ((frame.length_planes stride).trans h.symm)

end AVFrame

/-- Both nodes put the planes one behind the other, with rows of different strides. -/
theorem hanwhaFrameBuffer_eq (g_hw_frame_buffer : List UInt8) (frame : AVFrame) :
    hanwhaFrameBuffer g_hw_frame_buffer frame = frame.planes frame.cols := by
  have hresize := length_resize (frame.y_size + frame.uv_size * 2) g_hw_frame_buffer
  have hy : bytesAt (frame.data 0) 0 frame.y_size = frame.plane frame.cols 0 := by
    rw [FrameLayout.y_size, Nat.mul_comm]
    exact bytesAt_eq_rowBytes _ _ _
  have huv (p : Fin 3) (hp : p ≠ 0) :
      bytesAt (frame.data p) 0 frame.uv_size = frame.plane frame.cols p := by
    rw [FrameLayout.uv_size, Nat.mul_comm, AVFrame.plane, FrameLayout.cols, FrameLayout.rows,
      if_neg hp, if_neg hp]
    exact bytesAt_eq_rowBytes _ _ _
  rw [← frame.memcpy_planes frame.cols hresize, ← hy, ← huv 1 (by decide), ← huv 2 (by decide)]
  rfl

theorem copyRows_plane (frame : AVFrame) (p : Fin 3) {start : ℕ} {buffer : List UInt8}
    (h : start + (frame.plane frame.linesize p).length ≤ buffer.length) :
    copyRows start (frame.rows p) (frame.cols p) (frame.data p) (frame.linesize p) buffer =
        memcpy buffer start (frame.plane frame.linesize p) ∧
      (memcpy buffer start (frame.plane frame.linesize p)).length = buffer.length := by
  refine ⟨copyRows_eq start (frame.data p) (frame.linesize p) ?_, length_memcpy h⟩
  rwa [AVFrame.plane, length_rowBytes] at h

theorem piFrame_eq (camData : CamVideo) (frame : AVFrame) :
    piFrame camData frame = ⟨frame.width, frame.height, frame.planes frame.linesize⟩ := by
  have hy : (frame.plane frame.linesize 0).length = frame.y_size := frame.length_plane _ 0
  have hu : (frame.plane frame.linesize 1).length = frame.uv_size := frame.length_plane _ 1
  have hv : (frame.plane frame.linesize 2).length = frame.uv_size := frame.length_plane _ 2
  have hloops : piFrame camData frame = ⟨frame.width, frame.height,
      copyRows (frame.y_size + frame.uv_size) (frame.rows 2) (frame.cols 2) (frame.data 2)
        (frame.linesize 2) (copyRows frame.y_size (frame.rows 1) (frame.cols 1) (frame.data 1)
          (frame.linesize 1) (copyRows 0 (frame.rows 0) (frame.cols 0) (frame.data 0)
            (frame.linesize 0) (resize (frame.y_size + frame.uv_size * 2)
              camData.frame_buffer)))⟩ := rfl
  have hresize := length_resize (frame.y_size + frame.uv_size * 2) camData.frame_buffer
  rw [hloops]
  generalize resize (frame.y_size + frame.uv_size * 2) camData.frame_buffer = buffer at hresize ⊢
  obtain ⟨hfirst, hlength⟩ := @copyRows_plane frame 0 0 buffer (by omega)
  obtain ⟨hsecond, hlength'⟩ := @copyRows_plane frame 1 frame.y_size
    (memcpy buffer 0 (frame.plane frame.linesize 0)) (by omega)
  obtain ⟨hthird, -⟩ := @copyRows_plane frame 2 (frame.y_size + frame.uv_size)
    (memcpy (memcpy buffer 0 (frame.plane frame.linesize 0)) frame.y_size
      (frame.plane frame.linesize 1)) (by omega)
  rw [hfirst, hsecond, hthird, frame.memcpy_planes frame.linesize hresize]

theorem packed_planes (frame : AVFrame) : Packed frame (frame.planes frame.linesize) where
  length := frame.length_planes frame.linesize
  byte p _ hi _ hj := frame.getElem?_planes frame.linesize p hi hj

/-- The buffers of the two nodes agree, and have every byte from its place in the frame, for all
contents of the planes, exactly when no plane is padded. -/
theorem packed_alike_iff (layout : FrameLayout) :
    (∀ data g_hw_frame_buffer camData,
      hanwhaFrameBuffer g_hw_frame_buffer ⟨layout, data⟩ =
          (piFrame camData ⟨layout, data⟩).frame_buffer ∧
        Packed ⟨layout, data⟩ (hanwhaFrameBuffer g_hw_frame_buffer ⟨layout, data⟩)) ↔
      ∀ p, layout.Unpadded p := by
  simp only [hanwhaFrameBuffer_eq, piFrame_eq]
  constructor
  · intro hall p
    by_contra hpadded
    rw [FrameLayout.Unpadded, not_or, not_or] at hpadded
    obtain ⟨hstride, hrows, hcols⟩ := hpadded
    -- one byte of the plane is set: the first of the second row, if there is no padding
    let data (p' : Fin 3) (n : ℕ) : UInt8 := if n = layout.cols p then 1 else 0
    obtain ⟨hsame, -⟩ := hall data [] ⟨0, 0, []⟩
    have hi : 1 < layout.rows p := by omega
    have hj : 0 < layout.cols p := Nat.pos_of_ne_zero hcols
    have hhanwha := AVFrame.getElem?_planes ⟨layout, data⟩ layout.cols p hi hj
    have hpi := AVFrame.getElem?_planes ⟨layout, data⟩ layout.linesize p hi hj
    rw [hsame, hpi, Option.some_inj] at hhanwha
    simp [data, hstride] at hhanwha
  · intro hunpadded data _ _
    have hsame : AVFrame.planes ⟨layout, data⟩ layout.cols =
        AVFrame.planes ⟨layout, data⟩ layout.linesize := by
      have hplane (p : Fin 3) : AVFrame.plane ⟨layout, data⟩ layout.cols p =
          AVFrame.plane ⟨layout, data⟩ layout.linesize p :=
        (rowBytes_congr _ (hunpadded p)).symm
      rw [AVFrame.planes, AVFrame.planes, hplane, hplane, hplane]
    rw [hsame]
    exact ⟨rfl, packed_planes _⟩

/-- A frame of two rows of two bytes, each followed by two bytes of padding. -/
def paddedLayout : FrameLayout := ⟨2, 2, fun p => if p = 0 then 4 else 2⟩

theorem paddedLayout_differs :
    ¬ ∀ layout : FrameLayout, (∀ p, layout.cols p ≤ layout.linesize p) →
      ∀ data g_hw_frame_buffer camData,
        hanwhaFrameBuffer g_hw_frame_buffer ⟨layout, data⟩ =
            (piFrame camData ⟨layout, data⟩).frame_buffer ∧
          Packed ⟨layout, data⟩ (hanwhaFrameBuffer g_hw_frame_buffer ⟨layout, data⟩) := by
  intro hall
  have hpadded : ∀ p, paddedLayout.cols p ≤ paddedLayout.linesize p := by decide
  have hsame := (hall paddedLayout hpadded (fun _ n => UInt8.ofNat n) [] ⟨0, 0, []⟩).1
  have hbytes : [0, 1, 2, 3, 0, 0] = ([0, 1, 4, 5, 0, 0] : List UInt8) := hsame
  exact absurd hbytes (by decide)

structure Mat where
  rows : ℕ
  cols : ℕ

def Mat.Inside (image : Mat) (buffer : List UInt8) : Prop :=
  ∀ row < image.rows, ∀ col < image.cols, row * image.cols + col < buffer.length

theorem Mat.inside_iff {image : Mat} (hrows : 0 < image.rows) (hcols : 0 < image.cols)
    (buffer : List UInt8) : image.Inside buffer ↔ image.rows * image.cols ≤ buffer.length := by
  constructor
  · intro hinside
    have hlast := hinside (image.rows - 1) (Nat.pred_lt hrows.ne') (image.cols - 1)
      (Nat.pred_lt hcols.ne')
    have hsplit : image.rows * image.cols = (image.rows - 1) * image.cols + image.cols := by
      rw [← Nat.succ_mul, Nat.succ_eq_add_one, Nat.sub_add_cancel hrows]
    omega
  · intro hle row hrow col hcol
    have hrows := Nat.mul_le_mul_right image.cols (Nat.succ_le_of_lt hrow)
    rw [Nat.succ_mul] at hrows
    omega

/-- `hanwha_worker`: `height * 1.5` rows. -/
def hanwhaImage : Mat :=
  let width := 1920
  let height := 1080
  ⟨height * 3 / 2, width⟩

def piImage (camData : CamVideo) : Mat :=
  let w := camData.width
  let h := camData.height
  ⟨h * 3 / 2, w⟩

inductive CameraNode
  | hanwha
  | pi

/-- The worker of a node stays inside the buffer that the node has stored of a frame. -/
def AVFrame.ReadInside (frame : AVFrame) : CameraNode → Prop
  | .hanwha => ∀ held, hanwhaImage.Inside (hanwhaFrameBuffer held frame)
  | .pi => ∀ held, (piImage (piFrame held frame)).Inside (piFrame held frame).frame_buffer

/-- For `hanwha_worker` a frame has at least the bytes of one of 1920 by 1080, with the sides of the
colours' planes rounded down; for `pi_worker` it has an even width, or one row. -/
def FrameLayout.Fits (layout : FrameLayout) : CameraNode → Prop
  | .hanwha => 3 * (1920 * 1080) ≤
      2 * (layout.width * layout.height) + 2 * (layout.width / 2) * (2 * (layout.height / 2))
  | .pi => layout.width % 2 = 0 ∨ layout.height = 1

theorem rows_mul_le_iff (w : ℕ) {h : ℕ} (hh : 0 < h) :
    h * 3 / 2 * w ≤ w * h + w / 2 * (h / 2) * 2 ↔ w % 2 = 0 ∨ h = 1 := by
  have hrows : h * 3 / 2 = h + h / 2 := by omega
  rw [hrows, Nat.add_mul, Nat.mul_comm h w, Nat.add_le_add_iff_left, Nat.mul_comm (h / 2) w,
    Nat.mul_right_comm]
  rcases Nat.eq_zero_or_pos (h / 2) with hzero | hpos
  · rw [hzero, Nat.mul_zero, Nat.mul_zero]
    exact iff_of_true le_rfl (.inr (by omega))
  · rw [Nat.mul_le_mul_right_iff hpos]
    omega

/-- The workers stay inside the buffers exactly for the frames that fit. -/
theorem readInside_iff (node : CameraNode) (frame : AVFrame) (hw : 0 < frame.width)
    (hh : 0 < frame.height) : frame.ReadInside node ↔ frame.Fits node := by
  cases node with
  | hanwha =>
    have hinside (held : List UInt8) : hanwhaImage.Inside (hanwhaFrameBuffer held frame) ↔
        frame.Fits .hanwha := by
      rw [Mat.inside_iff (by decide) (by decide), hanwhaFrameBuffer_eq, frame.length_planes,
        FrameLayout.y_size, FrameLayout.uv_size, FrameLayout.Fits]
      have himage : hanwhaImage.rows * hanwhaImage.cols = 1620 * 1920 := rfl
      have hcolours : 2 * (frame.width / 2) * (2 * (frame.height / 2)) =
          2 * 2 * (frame.width / 2 * (frame.height / 2)) := Nat.mul_mul_mul_comm ..
      rw [himage, hcolours]
      omega
    rw [AVFrame.ReadInside, forall_congr' hinside, forall_const]
  | pi =>
    have hinside (held : CamVideo) :
        (piImage (piFrame held frame)).Inside (piFrame held frame).frame_buffer ↔
          frame.Fits .pi := by
      rw [piFrame_eq]
      have hrows : 0 < frame.height * 3 / 2 := by omega
      rw [Mat.inside_iff hrows hw, frame.length_planes]
      exact rows_mul_le_iff frame.width hh
    have hheld : Nonempty CamVideo := ⟨⟨0, 0, []⟩⟩
    rw [AVFrame.ReadInside, forall_congr' hinside, forall_const]

def smallFrame : AVFrame := ⟨⟨640, 480, fun _ => 640⟩, fun _ _ => 0⟩

theorem readInside_smallFrame :
    (smallFrame.ReadInside .pi ↔ smallFrame.Fits .pi) ∧
      (smallFrame.ReadInside .hanwha ↔ smallFrame.Fits .hanwha) :=
  ⟨readInside_iff .pi smallFrame (by decide) (by decide),
    readInside_iff .hanwha smallFrame (by decide) (by decide)⟩

theorem smallFrame_outside :
    ¬ ∀ (node : CameraNode) (frame : AVFrame), 0 < frame.width → 0 < frame.height →
      frame.ReadInside node := by
  intro hall
  have hinside := hall .hanwha smallFrame (by decide) (by decide) []
  rw [Mat.inside_iff (by decide) (by decide), hanwhaFrameBuffer_eq, smallFrame.length_planes]
    at hinside
  exact absurd hinside (by decide)

end JeogiAt.Server
