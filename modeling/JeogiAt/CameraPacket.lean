import JeogiAt.Library.Bytes
import JeogiAt.Library.Search

/-!
# Camera packets

The header of `camera_packet.hpp`, sixteen bytes in network order, and `make_packet` of the server,
which puts it before the JSON text and the image. `CameraPacket` carries the sizes that the
client admits.
-/

namespace JeogiAt.CamProtocol

open Bytes

def magicCookie : UInt32 := 0xDEADBEEF

structure PacketHeader where
  magic : UInt32
  cameraId : UInt32
  jsonSize : UInt32
  imageSize : UInt32
  deriving DecidableEq

abbrev headerSize : ℕ := 16

def htonl (n : UInt32) : List UInt8 := bigEndian 4 n.toNat

def qFromBigEndian (bytes : List UInt8) : UInt32 := UInt32.ofNat (ofBigEndian bytes)

def magicPattern : List UInt8 := [0xDE, 0xAD, 0xBE, 0xEF]

theorem length_htonl (n : UInt32) : (htonl n).length = 4 := length_bigEndian 4 n.toNat

theorem qFromBigEndian_htonl (n : UInt32) : qFromBigEndian (htonl n) = n := by
  rw [qFromBigEndian, htonl, ofBigEndian_bigEndian 4 n.toNat n.toNat_lt, UInt32.ofNat_toNat]

theorem htonl_magicCookie : htonl magicCookie = magicPattern := by decide

theorem magicPattern_ne_nil : magicPattern ≠ [] := nofun

theorem length_magicPattern : magicPattern.length = 4 := rfl

theorem borderless_magicPattern : Borderless magicPattern := by
  have h : ∀ k < 4, 0 < k → ¬ magicPattern.drop k <+: magicPattern := by decide
  exact fun k hpos hlt => h k hlt hpos

namespace PacketHeader

def bytes (h : PacketHeader) : List UInt8 :=
  htonl h.magic ++ htonl h.cameraId ++ htonl h.jsonSize ++ htonl h.imageSize

def ofBytes (bytes : List UInt8) : PacketHeader where
  magic := qFromBigEndian (bytes.take 4)
  cameraId := qFromBigEndian ((bytes.drop 4).take 4)
  jsonSize := qFromBigEndian ((bytes.drop 8).take 4)
  imageSize := qFromBigEndian ((bytes.drop 12).take 4)

theorem length_bytes (h : PacketHeader) : h.bytes.length = 16 := by
  simp only [bytes, List.length_append, length_htonl]

theorem ofBytes_append {bytes : List UInt8} (h : 16 ≤ bytes.length) (rest : List UInt8) :
    ofBytes (bytes ++ rest) = ofBytes bytes := by
  have htake : ∀ k, k ≤ 12 →
      ((bytes ++ rest).drop k).take 4 = (bytes.drop k).take 4 := by
    intro k hk
    rw [List.drop_append_of_le_length (by omega), List.take_append_of_le_length]
    rw [List.length_drop]
    omega
  have h0 := htake 0 (Nat.zero_le _)
  rw [List.drop_zero, List.drop_zero] at h0
  rw [ofBytes, ofBytes, h0, htake 4 (by omega), htake 8 (by omega), htake 12 le_rfl]

theorem ofBytes_bytes (h : PacketHeader) : ofBytes h.bytes = h := by
  obtain ⟨magic, cameraId, jsonSize, imageSize⟩ := h
  have h4 := length_htonl
  simp only [ofBytes, bytes, List.append_assoc]
  rw [List.take_left' (h4 magic), List.drop_left' (h4 magic), List.take_left' (h4 cameraId),
    ← List.append_assoc, List.drop_left' (by rw [List.length_append, h4, h4]),
    List.take_left' (h4 jsonSize), ← List.append_assoc,
    List.drop_left' (by rw [List.length_append, List.length_append, h4, h4, h4]),
    List.take_of_length_le (h4 imageSize).le]
  simp only [qFromBigEndian_htonl]

/-- A buffer that begins with the magic pattern has the magic cookie in its header. -/
theorem magic_ofBytes {bytes : List UInt8} (h : magicPattern <+: bytes) :
    (ofBytes bytes).magic = magicCookie := by
  obtain ⟨rest, rfl⟩ := h
  have htake : (magicPattern ++ rest).take 4 = magicPattern := List.take_left' rfl
  rw [ofBytes, htake, ← htonl_magicCookie]
  exact qFromBigEndian_htonl magicCookie

def size (h : PacketHeader) : ℕ := 16 + h.jsonSize.toNat + h.imageSize.toNat

end PacketHeader

end JeogiAt.CamProtocol

namespace JeogiAt.Server

open CamProtocol

inductive PacketType
  | json
  | camera
  deriving DecidableEq

structure SendPacket where
  type : PacketType
  data : List UInt8
  deriving DecidableEq

def makePacket (camId : UInt32) (jsonStr imgData : List UInt8) : SendPacket :=
  let header : PacketHeader :=
    { magic := magicCookie
      cameraId := camId
      jsonSize := UInt32.ofNat jsonStr.length
      imageSize := UInt32.ofNat imgData.length }
  { type := if camId = 0 then .json else .camera
    data := header.bytes ++ jsonStr ++ imgData }

/-- What `make_packet` is given, within the sizes that the client admits. -/
structure CameraPacket where
  cameraId : UInt32
  json : List UInt8
  image : List UInt8
  json_le : json.length ≤ 1000000
  image_le : image.length ≤ 10000000

namespace CameraPacket

def header (p : CameraPacket) : PacketHeader where
  magic := magicCookie
  cameraId := p.cameraId
  jsonSize := UInt32.ofNat p.json.length
  imageSize := UInt32.ofNat p.image.length

def encode (p : CameraPacket) : List UInt8 := (makePacket p.cameraId p.json p.image).data

theorem encode_eq (p : CameraPacket) : p.encode = p.header.bytes ++ (p.json ++ p.image) :=
  List.append_assoc _ _ _

theorem toNat_jsonSize (p : CameraPacket) : p.header.jsonSize.toNat = p.json.length := by
  have := p.json_le
  exact UInt32.toNat_ofNat_of_lt' (by simp only [UInt32.size]; omega)

theorem toNat_imageSize (p : CameraPacket) : p.header.imageSize.toNat = p.image.length := by
  have := p.image_le
  exact UInt32.toNat_ofNat_of_lt' (by simp only [UInt32.size]; omega)

theorem length_encode (p : CameraPacket) : p.encode.length = p.header.size := by
  rw [encode_eq, List.length_append, List.length_append, PacketHeader.length_bytes,
    PacketHeader.size, toNat_jsonSize, toNat_imageSize, Nat.add_assoc]

theorem magicPattern_prefix (p : CameraPacket) : magicPattern <+: p.encode := by
  have hbytes : p.header.bytes = magicPattern ++ (htonl p.cameraId ++
      (htonl p.header.jsonSize ++ htonl p.header.imageSize)) := by
    rw [← htonl_magicCookie]
    simp only [PacketHeader.bytes, header, List.append_assoc]
  rw [encode_eq, hbytes, List.append_assoc]
  exact List.prefix_append _ _

theorem header_encode (p : CameraPacket) (rest : List UInt8) :
    PacketHeader.ofBytes (p.encode ++ rest) = p.header := by
  rw [encode_eq, List.append_assoc, PacketHeader.ofBytes_append p.header.length_bytes.ge,
    PacketHeader.ofBytes_bytes]

end CameraPacket

def encodeAll (ps : List CameraPacket) : List UInt8 := ps.flatMap CameraPacket.encode

end JeogiAt.Server
