import JeogiAt.CameraPacket
import JeogiAt.Library.Machine

/-!
# The client's packet reader

`NetworkClient::readData`: every read is appended to `m_buffer`, a loop takes packets off its
front, and a guard trims what is left when it is too long. `iteration` is one pass of the loop's
body, with the loop's six exits told apart in `Iterates`.
-/

namespace JeogiAt.NetworkClient

open CamProtocol Server

abbrev maxBuffer : ℕ := 10 * 1024 * 1024

theorem maxBuffer_eq : maxBuffer = 10485760 := rfl

/-- A packet handed over: its header, the JSON text, and the image of a camera's packet. -/
structure Delivery where
  header : PacketHeader
  jsonData : List UInt8
  imgData : Option (List UInt8)
  deriving DecidableEq

/-- One pass of the loop: it breaks, or it goes on, perhaps after a delivery. -/
inductive Iteration
  | stop (buffer : List UInt8)
  | again (buffer : List UInt8) (delivered : Option Delivery)

/-- `headerSize + json_size + image_size`, summed in 32 bits. -/
def totalSize (header : PacketHeader) : UInt32 :=
  UInt32.ofNat headerSize + header.jsonSize + header.imageSize

def Abnormal (header : PacketHeader) : Prop :=
  1000000 < header.jsonSize ∨ 10000000 < header.imageSize

instance (header : PacketHeader) : Decidable (Abnormal header) :=
  inferInstanceAs (Decidable (_ ∨ _))

/-- The data handed over from the front of the buffer; camera 0 is for packets of JSON only. -/
def readPacket (buffer : List UInt8) : Delivery :=
  let header := PacketHeader.ofBytes buffer
  { header
    jsonData := (buffer.drop headerSize).take header.jsonSize.toNat
    imgData :=
      if header.cameraId = 0 then none
      else some ((buffer.drop (headerSize + header.jsonSize.toNat)).take header.imageSize.toNat) }

/-- The body of the `while` loop. An empty buffer ends the loop like one of under four bytes, and
places in the buffer are far below the range of `int`. -/
def iteration (buffer : List UInt8) : Iteration :=
  if buffer.length < 4 then .stop buffer
  else
    match indexOf magicPattern buffer with
    | none => .stop []
    | some magicPos =>
        if 0 < magicPos then .again (buffer.drop magicPos) none
        else if buffer.length < headerSize then .stop buffer
        else
          let header := PacketHeader.ofBytes buffer
          -- never taken: the buffer begins with the magic pattern here
          if header.magic ≠ magicCookie then .again (buffer.drop 1) none
          else if Abnormal header then .again (buffer.drop 4) none
          else if (buffer.length : ℤ) < (totalSize header).toInt32.toInt then .stop buffer
          else
            let rest := buffer.drop (totalSize header).toNat
            .again (if maxBuffer < rest.length then [] else rest) (some (readPacket buffer))

/-- The guard after the loop. -/
def overflowGuard (buffer : List UInt8) : List UInt8 :=
  if maxBuffer < buffer.length then
    match indexOfFrom magicPattern buffer 4 with
    | some nextMagic => if 0 < nextMagic then buffer.drop nextMagic else []
    | none => []
  else buffer

theorem toNat_totalSize {header : PacketHeader} (h : ¬ Abnormal header) :
    (totalSize header).toNat = header.size ∧
      (totalSize header).toInt32.toInt = header.size ∧ header.size ≤ 11000016 := by
  have hjson : header.jsonSize.toNat ≤ 1000000 := UInt32.not_lt.mp fun hj => h (Or.inl hj)
  have himage : header.imageSize.toNat ≤ 10000000 := UInt32.not_lt.mp fun hi => h (Or.inr hi)
  have h16 : (UInt32.ofNat headerSize).toNat = 16 := rfl
  have hsum : (totalSize header).toNat = header.size := by
    rw [totalSize, UInt32.toNat_add, UInt32.toNat_add, h16, PacketHeader.size]
    omega
  have hsize : header.size ≤ 11000016 := by
    rw [PacketHeader.size]
    omega
  have hint : (totalSize header).toInt32.toInt = (totalSize header).toNat := by
    apply BitVec.toInt_eq_toNat_of_lt
    change 2 * (totalSize header).toNat < 2 ^ 32
    omega
  exact ⟨hsum, by rw [hint, hsum], hsize⟩

inductive Iterates (buffer : List UInt8) : Iteration → Prop
  | short (hlen : buffer.length < 4) : Iterates buffer (.stop buffer)
  | noMagic (hlen : 4 ≤ buffer.length) (hno : ¬ magicPattern <:+: buffer) :
      Iterates buffer (.stop [])
  | skip (n : ℕ) (hpos : 0 < n) (hat : OccursAt magicPattern buffer n)
      (hmin : ∀ m < n, ¬ OccursAt magicPattern buffer m) :
      Iterates buffer (.again (buffer.drop n) none)
  | shortHeader (hmagic : magicPattern <+: buffer) (hlen : buffer.length < 16) :
      Iterates buffer (.stop buffer)
  | abnormal (hmagic : magicPattern <+: buffer) (hlen : 16 ≤ buffer.length)
      (habn : Abnormal (PacketHeader.ofBytes buffer)) :
      Iterates buffer (.again (buffer.drop 4) none)
  | incomplete (hmagic : magicPattern <+: buffer) (hlen : 16 ≤ buffer.length)
      (hnorm : ¬ Abnormal (PacketHeader.ofBytes buffer))
      (hlt : buffer.length < (PacketHeader.ofBytes buffer).size) : Iterates buffer (.stop buffer)
  | deliver (rest : List UInt8) (hmagic : magicPattern <+: buffer)
      (hnorm : ¬ Abnormal (PacketHeader.ofBytes buffer))
      (hle : (PacketHeader.ofBytes buffer).size ≤ buffer.length)
      (hrest : rest = if maxBuffer < buffer.length - (PacketHeader.ofBytes buffer).size then []
        else buffer.drop (PacketHeader.ofBytes buffer).size) :
      Iterates buffer (.again rest (some (readPacket buffer)))

theorem iterates (buffer : List UInt8) : Iterates buffer (iteration buffer) := by
  unfold iteration
  by_cases hshort : buffer.length < 4
  · rw [if_pos hshort]
    exact .short hshort
  rw [if_neg hshort]
  cases hidx : indexOf magicPattern buffer with
  | none => exact .noMagic (Nat.not_lt.mp hshort) (indexOf_eq_none_iff.mp hidx)
  | some magicPos =>
    obtain ⟨hat, hmin⟩ := (indexOf_eq_some_iff magicPattern_ne_nil).mp hidx
    dsimp only
    by_cases hpos : 0 < magicPos
    · rw [if_pos hpos]
      exact .skip magicPos hpos hat hmin
    rw [if_neg hpos]
    have hmagic : magicPattern <+: buffer := by
      rwa [OccursAt, Nat.eq_zero_of_not_pos hpos, List.drop_zero] at hat
    by_cases hheader : buffer.length < 16
    · rw [if_pos hheader]
      exact .shortHeader hmagic hheader
    rw [if_neg hheader, if_neg (not_not.mpr (PacketHeader.magic_ofBytes hmagic))]
    by_cases habn : Abnormal (PacketHeader.ofBytes buffer)
    · rw [if_pos habn]
      exact .abnormal hmagic (Nat.not_lt.mp hheader) habn
    obtain ⟨hnat, hint, -⟩ := toNat_totalSize habn
    rw [if_neg habn, hint, hnat]
    by_cases hlt : buffer.length < (PacketHeader.ofBytes buffer).size
    · rw [if_pos (by exact_mod_cast hlt)]
      exact .incomplete hmagic (Nat.not_lt.mp hheader) habn hlt
    · rw [if_neg (by exact_mod_cast hlt), List.length_drop]
      exact .deliver _ hmagic habn (Nat.not_lt.mp hlt) rfl

theorem length_again {buffer rest : List UInt8} {delivered : Option Delivery}
    (h : iteration buffer = .again rest delivered) : rest.length < buffer.length := by
  have hit := iterates buffer
  rw [h] at hit
  cases hit with
  | skip n hpos hat _ =>
    have hle := hat.le_length magicPattern_ne_nil
    rw [length_magicPattern] at hle
    rw [List.length_drop]
    omega
  | abnormal _ hlen _ =>
    rw [List.length_drop]
    omega
  | deliver rest _ _ hle hrest =>
    have hsize : 16 ≤ (PacketHeader.ofBytes buffer).size := by
      rw [PacketHeader.size]
      omega
    rw [hrest]
    split_ifs
    · rw [List.length_nil]
      omega
    · rw [List.length_drop]
      omega

/-- The loop: the buffer it leaves and what it has handed over. -/
def parse (buffer : List UInt8) : List UInt8 × List Delivery :=
  match _h : iteration buffer with
  | .stop rest => (rest, [])
  | .again rest delivered =>
      let r := parse rest
      (r.1, delivered.toList ++ r.2)
termination_by buffer.length
decreasing_by exact length_again ‹_›

theorem parse_stop {buffer rest : List UInt8} (h : iteration buffer = .stop rest) :
    parse buffer = (rest, []) := by
  rw [parse]
  split
  · rename_i h'
    rw [h] at h'
    cases h'
    rfl
  · rename_i h'
    rw [h] at h'
    cases h'

theorem parse_again {buffer rest : List UInt8} {delivered : Option Delivery}
    (h : iteration buffer = .again rest delivered) :
    parse buffer = ((parse rest).1, delivered.toList ++ (parse rest).2) := by
  rw [parse]
  split
  · rename_i h'
    rw [h] at h'
    cases h'
  · rename_i h'
    rw [h] at h'
    cases h'
    rfl

/-- `readData`, whose state is `m_buffer` and whose input is what `readAll` returns. -/
def readData (buffer newData : List UInt8) : List UInt8 × List Delivery :=
  let r := parse (buffer ++ newData)
  (overflowGuard r.1, r.2)

def reader : Machine (List UInt8) (List UInt8) (List Delivery) := ⟨readData⟩

theorem next_reader (buffer newData : List UInt8) :
    reader.next buffer newData = overflowGuard (parse (buffer ++ newData)).1 := rfl

theorem output_reader (buffer newData : List UInt8) :
    reader.output buffer newData = (parse (buffer ++ newData)).2 := rfl

def delivered (buffer : List UInt8) (reads : List (List UInt8)) : List Delivery :=
  (reader.trace buffer reads).flatten

theorem delivered_cons (buffer newData : List UInt8) (reads : List (List UInt8)) :
    delivered buffer (newData :: reads) =
      reader.output buffer newData ++ delivered (reader.next buffer newData) reads := by
  rw [delivered, Machine.trace_cons, List.flatten_cons, delivered]

end JeogiAt.NetworkClient
