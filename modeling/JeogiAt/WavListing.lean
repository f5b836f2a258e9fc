import JeogiAt.Library.Greedy
import JeogiAt.Library.RingBuffer
import JeogiAt.UartResponse

/-!
# The list of WAV files

`sdReadFiles` is `sd_read_files` of the firmware: it writes the names of the WAV files of a
directory one after the other into a field of 255 bytes, each with a newline, and stops at the first
one that does not fit. `parseFiles` is the part of `send_to_stm32_get_wavs` that takes the names out
of the field again.

What the card answers is a `Directory`: the result of `f_opendir`, and what the calls of `f_readdir`
return. An array is the list of its bytes; a write past its end would make the list longer.
-/

namespace JeogiAt.Storage

def frOk : UInt8 := 0

def amDir : UInt8 := 0x10

def newline : UInt8 := 0x0A
def carriageReturn : UInt8 := 0x0D
def dot : UInt8 := 0x2E

/-- `FILINFO`, with the name as the C string that it is. -/
structure FilInfo where
  fattrib : UInt8
  fname : List UInt8
  nul_not_mem : 0 ∉ fname
  length_le : fname.length ≤ 255

/-- The result of `f_opendir`, and the results of `f_readdir` with what they put into `fno`. After
these `f_readdir` returns the end of the directory. -/
structure Directory where
  opendir : UInt8
  readdir : List (UInt8 × FilInfo)

def strrchr (c : UInt8) : List UInt8 → Option (List UInt8)
  | [] => none
  | b :: s =>
      match strrchr c s with
      | some rest => some rest
      | none => if b = c then some (b :: s) else none

def tolower (b : UInt8) : UInt8 := if 0x41 ≤ b ∧ b ≤ 0x5A then b + 0x20 else b

/-- `".wav"` -/
def wav : List UInt8 := [0x2E, 0x77, 0x61, 0x76]

/-- The field and the count of its bytes used. -/
structure Field where
  data : List UInt8
  used : UInt8

/-- `memcpy(&data[used], name, nlen)` -/
def Field.copy (f : Field) (name : List UInt8) (nlen : UInt16) : Field :=
  ⟨memcpy f.data f.used.toNat (name.take nlen.toNat), f.used + nlen.toUInt8⟩

/-- `data[used++] = byte` -/
def Field.push (f : Field) (byte : UInt8) : Field :=
  ⟨memcpy f.data f.used.toNat [byte], f.used + 1⟩

/-- The loop, up to its `break`: the last result of `f_readdir`, and the field. -/
def readFiles : List (UInt8 × FilInfo) → Field → UInt8 × Field
  | [], f => (frOk, f)
  | (res, fno) :: readdir, f =>
      if res ≠ frOk then (res, f)
      else if fno.fname = [] then (res, f)
      else if fno.fattrib &&& amDir ≠ 0 then readFiles readdir f
      else
        match strrchr dot fno.fname with
        | none => readFiles readdir f
        | some ext =>
            if (ext.take 7).map tolower ≠ wav then readFiles readdir f
            else
              let nlen := UInt16.ofNat fno.fname.length
              if 255 < f.used.toNat + nlen.toNat + 1 then (res, f)
              else readFiles readdir ((f.copy fno.fname nlen).push newline)

/-- What `sd_read_files` returns, and its two out parameters. -/
structure ReadFiles where
  res : UInt8
  data : List UInt8
  len : UInt8

def sdReadFiles (dir : Directory) (data : List UInt8) (len : UInt8) : ReadFiles :=
  if dir.opendir ≠ frOk then ⟨dir.opendir, data, len⟩
  else
    let (res, f) := readFiles dir.readdir ⟨data, 0⟩
    ⟨res, f.data, f.used⟩

end JeogiAt.Storage

namespace JeogiAt.Communication

open Storage Uart

/-- One character of the list, with `files` and `cur`. -/
def parseFile (p : List (List UInt8) × List UInt8) (c : UInt8) :
    List (List UInt8) × List UInt8 :=
  let (files, cur) := p
  if c = newline then if cur ≠ [] then (files ++ [cur], []) else (files, cur)
  else if c ≠ carriageReturn ∧ c ≠ 0 then (files, cur ++ [c])
  else (files, cur)

def parseFiles (s : List UInt8) : List (List UInt8) :=
  let (files, cur) := s.foldl parseFile ([], [])
  if cur ≠ [] then files ++ [cur] else files

/-- `send_to_stm32_get_wavs`, on the bytes that arrive after the request. -/
def getWavs (uart_fd : ℤ) (input : List UInt8) : List (List UInt8) :=
  if uart_fd < 0 then []
  else
    let r := readPacket input
    let rx := r.out
    if !r.ok then []
    else if rx.getD 1 0 ≠ cmdRespWavs then []
    else
      let data_len := rx.getD 2 0
      parseFiles ((rx.drop 3).take data_len.toNat)

end JeogiAt.Communication

namespace JeogiAt.Storage

open Communication

def IsWav (fname : List UInt8) : Prop :=
  ∃ stem ext, fname = stem ++ dot :: ext ∧ dot ∉ ext ∧ (dot :: ext).map tolower = wav

theorem strrchr_eq_none_iff {c : UInt8} {s : List UInt8} : strrchr c s = none ↔ c ∉ s := by
  induction s with
  | nil => exact iff_of_true rfl List.not_mem_nil
  | cons b s ih =>
    rw [strrchr, List.mem_cons, not_or]
    cases hs : strrchr c s with
    | some found =>
      have hmem : ¬ c ∉ s := mt ih.mpr (by rw [hs]; exact Option.some_ne_none found)
      exact iff_of_false (Option.some_ne_none found) fun h => hmem h.2
    | none =>
      have hmem := ih.mp hs
      dsimp only
      by_cases hb : b = c
      · rw [if_pos hb]
        exact iff_of_false (Option.some_ne_none _) fun h => h.1 hb.symm
      · rw [if_neg hb]
        exact iff_of_true rfl ⟨fun h => hb h.symm, hmem⟩

theorem strrchr_last {c : UInt8} {ext : List UInt8} (h : c ∉ ext) (stem : List UInt8) :
    strrchr c (stem ++ c :: ext) = some (c :: ext) := by
  induction stem with
  | nil =>
    rw [List.nil_append, strrchr, strrchr_eq_none_iff.mpr h]
    exact if_pos rfl
  | cons b stem ih => rw [List.cons_append, strrchr, ih]

theorem exists_of_strrchr {c : UInt8} {s rest : List UInt8} (h : strrchr c s = some rest) :
    ∃ stem ext, s = stem ++ c :: ext ∧ c ∉ ext ∧ rest = c :: ext := by
  induction s with
  | nil => cases h
  | cons b s ih =>
    rw [strrchr] at h
    cases hs : strrchr c s with
    | some found =>
      rw [hs] at h
      obtain ⟨stem, ext, rfl, hext, rfl⟩ := ih (hs.trans h)
      exact ⟨b :: stem, ext, rfl, hext, rfl⟩
    | none =>
      rw [hs] at h
      dsimp only at h
      split_ifs at h with hb
      cases h
      exact ⟨[], s, by rw [hb, List.nil_append], strrchr_eq_none_iff.mp hs, by rw [hb]⟩

/-- The test of the loop, on a copy of up to seven characters, is a test of the last extension. -/
theorem isWav_iff (fname : List UInt8) :
    IsWav fname ↔ ∃ ext, strrchr dot fname = some ext ∧ (ext.take 7).map tolower = wav := by
  have htake (ext : List UInt8) : (ext.take 7).map tolower = wav ↔ ext.map tolower = wav := by
    have hlength : wav.length = 4 := rfl
    constructor <;> intro h
    · have hshort := congrArg List.length h
      rw [List.length_map, List.length_take, hlength] at hshort
      rwa [List.take_of_length_le (by omega)] at h
    · have hshort := congrArg List.length h
      rw [List.length_map, hlength] at hshort
      rwa [List.take_of_length_le (by omega)]
  constructor
  · rintro ⟨stem, ext, rfl, hext, hwav⟩
    exact ⟨dot :: ext, strrchr_last hext stem, (htake _).mpr hwav⟩
  · rintro ⟨found, hfound, hwav⟩
    obtain ⟨stem, ext, rfl, hext, rfl⟩ := exists_of_strrchr hfound
    exact ⟨stem, ext, rfl, hext, (htake _).mp hwav⟩

instance (fname : List UInt8) : Decidable (IsWav fname) :=
  match h : strrchr dot fname with
  | none => .isFalse fun hw => by
      obtain ⟨ext, hext, -⟩ := (isWav_iff fname).mp hw
      cases h.symm.trans hext
  | some ext =>
      if hwav : (ext.take 7).map tolower = wav then
        .isTrue ((isWav_iff fname).mpr ⟨ext, h, hwav⟩)
      else .isFalse fun hw => by
        obtain ⟨ext', hext, hwav'⟩ := (isWav_iff fname).mp hw
        rw [h] at hext
        cases hext
        exact hwav hwav'

def FilInfo.Listed (fno : FilInfo) : Prop := fno.fattrib &&& amDir = 0 ∧ IsWav fno.fname

instance (fno : FilInfo) : Decidable fno.Listed := inferInstanceAs (Decidable (_ ∧ _))

def wavNames (entries : List FilInfo) : List (List UInt8) :=
  (entries.filter fun fno => fno.Listed).map FilInfo.fname

def lineLength (name : List UInt8) : ℕ := name.length + 1

def lines (names : List (List UInt8)) : List UInt8 := names.flatMap fun name => name ++ [newline]

theorem lines_concat (names : List (List UInt8)) (name : List UInt8) :
    lines (names ++ [name]) = lines names ++ name ++ [newline] := by
  rw [lines, List.flatMap_append, List.flatMap_singleton, ← lines, List.append_assoc]

/-- The field holds these names. Its counter has not wrapped and it is not longer than before. -/
structure Field.Holds (f : Field) (names : List (List UInt8)) : Prop where
  length_data : f.data.length = 255
  used : f.used.toNat = totalCost lineLength names
  bytes : f.data.take f.used.toNat = lines names

theorem copy_bytes {f : Field} (hdata : f.data.length = 255) {name : List UInt8} {nlen : UInt16}
    (hlen : nlen.toNat = name.length) (hfit : f.used.toNat + name.length ≤ 255) :
    (f.copy name nlen).data.length = 255 ∧
      (f.copy name nlen).used.toNat = f.used.toNat + name.length ∧
      (f.copy name nlen).data.take (f.copy name nlen).used.toNat =
        f.data.take f.used.toNat ++ name := by
  have hused : (f.copy name nlen).used.toNat = f.used.toNat + name.length := by
    rw [Field.copy, UInt8.toNat_add, UInt16.toNat_toUInt8, hlen]
    omega
  have hname : name.take nlen.toNat = name := by rw [hlen, List.take_length]
  refine ⟨?_, hused, ?_⟩
  · rw [Field.copy, hname, length_memcpy (by omega), hdata]
  · rw [hused, Field.copy, hname, take_memcpy (by omega)]

theorem push_bytes {f : Field} (hdata : f.data.length = 255) (byte : UInt8)
    (hfit : f.used.toNat + 1 ≤ 255) :
    (f.push byte).data.length = 255 ∧ (f.push byte).used.toNat = f.used.toNat + 1 ∧
      (f.push byte).data.take (f.push byte).used.toNat = f.data.take f.used.toNat ++ [byte] := by
  have hused : (f.push byte).used.toNat = f.used.toNat + 1 := by
    rw [Field.push, UInt8.toNat_add, UInt8.toNat_one]
    omega
  have hlength : [byte].length = 1 := rfl
  refine ⟨?_, hused, ?_⟩
  · rw [Field.push, length_memcpy (by rw [hlength]; omega), hdata]
  · rw [hused, Field.push, ← hlength, take_memcpy (by omega)]

theorem toNat_nlen (fno : FilInfo) : (UInt16.ofNat fno.fname.length).toNat = fno.fname.length := by
  have := fno.length_le
  rw [UInt16.toNat_ofNat']
  omega

theorem Field.Holds.append {f : Field} {names : List (List UInt8)} (h : f.Holds names)
    (fno : FilInfo) (hfit : f.used.toNat + fno.fname.length + 1 ≤ 255) :
    ((f.copy fno.fname (UInt16.ofNat fno.fname.length)).push newline).Holds
      (names ++ [fno.fname]) := by
  obtain ⟨hdata, hused, hbytes⟩ := copy_bytes h.length_data (toNat_nlen fno) (by omega)
  obtain ⟨hdata', hused', hbytes'⟩ := push_bytes hdata newline (by omega)
  refine ⟨hdata', ?_, ?_⟩
  · rw [hused', hused, h.used, totalCost_append, totalCost_cons, totalCost_nil]
    rfl
  · rw [hbytes', hbytes, h.bytes, lines_concat]

theorem readFiles_entry (fno : FilInfo) (hname : fno.fname ≠ [])
    (readdir : List (UInt8 × FilInfo)) (f : Field) :
    readFiles ((frOk, fno) :: readdir) f =
      if fno.Listed then
        if 255 < f.used.toNat + fno.fname.length + 1 then (frOk, f)
        else readFiles readdir
          ((f.copy fno.fname (UInt16.ofNat fno.fname.length)).push newline)
      else readFiles readdir f := by
  rw [readFiles, if_neg fun h => h rfl, if_neg hname]
  by_cases hdir : fno.fattrib &&& amDir = 0
  · rw [if_neg fun h => h hdir]
    by_cases hwav : IsWav fno.fname
    · obtain ⟨ext, hext, htest⟩ := (isWav_iff _).mp hwav
      rw [if_pos (show fno.Listed from ⟨hdir, hwav⟩), hext]
      dsimp only
      rw [if_neg fun h => h htest, toNat_nlen]
    · rw [if_neg fun h : fno.Listed => hwav h.2]
      cases hext : strrchr dot fno.fname with
      | none => rfl
      | some ext => exact if_pos fun htest => hwav ((isWav_iff _).mpr ⟨ext, hext, htest⟩)
  · rw [if_pos hdir, if_neg fun h : fno.Listed => hdir h.1]

theorem readFiles_stop {res : UInt8} {fno : FilInfo} (h : ¬ (res = frOk ∧ fno.fname ≠ []))
    (readdir : List (UInt8 × FilInfo)) (f : Field) :
    readFiles ((res, fno) :: readdir) f = (res, f) := by
  rw [readFiles]
  by_cases hres : res = frOk
  · have hend : fno.fname = [] := by
      by_contra hname
      exact h ⟨hres, hname⟩
    rw [if_neg fun hne => hne hres, if_pos hend]
  · rw [if_pos hres]

theorem wavNames_cons (fno : FilInfo) (entries : List FilInfo) :
    wavNames (fno :: entries) =
      if fno.Listed then fno.fname :: wavNames entries else wavNames entries := by
  by_cases h : fno.Listed <;> simp [wavNames, h]

/-- The entries before the first failure or the end of the directory. -/
def entriesRead : List (UInt8 × FilInfo) → List FilInfo
  | [] => []
  | (res, fno) :: readdir =>
      if res = frOk ∧ fno.fname ≠ [] then fno :: entriesRead readdir else []

theorem entriesRead_entries {entries : List FilInfo} (h : ∀ fno ∈ entries, fno.fname ≠ []) :
    entriesRead (entries.map fun fno => (frOk, fno)) = entries := by
  induction entries with
  | nil => rfl
  | cons fno entries ih =>
    obtain ⟨hname, hrest⟩ := List.forall_mem_cons.mp h
    rw [List.map_cons, entriesRead, if_pos ⟨rfl, hname⟩, ih hrest]

/-- The loop adds the names to the field up to the first one that does not fit. -/
theorem holds_readFiles {f : Field} {names : List (List UInt8)} (h : f.Holds names)
    (readdir : List (UInt8 × FilInfo)) :
    (readFiles readdir f).2.Holds
      (names ++ takeWithin lineLength (255 - f.used.toNat) (wavNames (entriesRead readdir))) := by
  have hnone : wavNames [] = [] := rfl
  induction readdir generalizing f names with
  | nil =>
    rw [entriesRead, hnone, takeWithin, List.append_nil]
    exact h
  | cons r readdir ih =>
    obtain ⟨res, fno⟩ := r
    by_cases hread : res = frOk ∧ fno.fname ≠ []
    · rw [entriesRead, if_pos hread, wavNames_cons, hread.1, readFiles_entry fno hread.2]
      split_ifs with hlisted hfull
      · rw [takeWithin, if_neg (by rw [lineLength]; omega), List.append_nil]
        exact h
      · have hfit : f.used.toNat + fno.fname.length + 1 ≤ 255 := by omega
        have happend := h.append fno hfit
        have hbudget : 255 - f.used.toNat - lineLength fno.fname =
            255 - ((f.copy fno.fname (UInt16.ofNat fno.fname.length)).push newline).used.toNat := by
          rw [happend.used, totalCost_append, totalCost_cons, totalCost_nil, ← h.used]
          omega
        rw [takeWithin, if_pos (by rw [lineLength]; omega), hbudget, ← List.singleton_append,
          ← List.append_assoc]
        exact ih happend
      · exact ih h
    · rw [readFiles_stop hread, entriesRead, if_neg hread, hnone, takeWithin, List.append_nil]
      exact h

/-- The names that go into the list of a directory that can be opened. -/
def Directory.listed (dir : Directory) : List (List UInt8) :=
  takeWithin lineLength 255 (wavNames (entriesRead dir.readdir))

theorem length_lines (names : List (List UInt8)) :
    (lines names).length = totalCost lineLength names := by
  induction names with
  | nil => rfl
  | cons name names ih =>
    rw [lines, List.flatMap_cons, ← lines, List.length_append, ih, List.length_append,
      totalCost_cons, List.length_singleton, lineLength]

theorem length_lines_listed (dir : Directory) : (lines dir.listed).length ≤ 255 := by
  rw [length_lines]
  exact (longest_takeWithin lineLength 255 _).property

/-- What the caller gets of a directory that can be opened does not depend on what the out
parameters were before. -/
theorem sdReadFiles_opened {dir : Directory} (h : dir.opendir = frOk) (data : Vector UInt8 255)
    (len : UInt8) :
    (Field.mk (sdReadFiles dir data.toList len).data (sdReadFiles dir data.toList len).len).Holds
      dir.listed := by
  have hempty : (Field.mk data.toList 0).Holds [] := ⟨Vector.length_toList, rfl, rfl⟩
  rw [sdReadFiles, if_neg fun hne => hne h]
  exact holds_readFiles hempty dir.readdir

theorem sdReadFiles_unopened {dir : Directory} (h : dir.opendir ≠ frOk) (data : List UInt8)
    (len : UInt8) : sdReadFiles dir data len = ⟨dir.opendir, data, len⟩ :=
  if_pos h

def Plain (name : List UInt8) : Prop := ∀ c ∈ name, c ≠ newline ∧ c ≠ carriageReturn ∧ c ≠ 0

theorem foldl_parseFile {name : List UInt8} (h : Plain name) (files : List (List UInt8))
    (cur : List UInt8) : name.foldl parseFile (files, cur) = (files, cur ++ name) := by
  induction name generalizing cur with
  | nil => rw [List.append_nil, List.foldl_nil]
  | cons c name ih =>
    obtain ⟨⟨hline, hreturn, hzero⟩, hrest⟩ := List.forall_mem_cons.mp h
    have hstep : parseFile (files, cur) c = (files, cur ++ [c]) := by
      rw [parseFile, if_neg hline, if_pos ⟨hreturn, hzero⟩]
    rw [List.foldl_cons, hstep, ih hrest, List.append_assoc, List.singleton_append]

theorem foldl_parseFile_lines {names : List (List UInt8)}
    (h : ∀ name ∈ names, name ≠ [] ∧ Plain name) (files : List (List UInt8)) :
    (lines names).foldl parseFile (files, []) = (files ++ names, []) := by
  induction names generalizing files with
  | nil => rw [List.append_nil]; rfl
  | cons name names ih =>
    obtain ⟨⟨hne, hplain⟩, hrest⟩ := List.forall_mem_cons.mp h
    have hline : parseFile (files, name) newline = (files ++ [name], []) := by
      rw [parseFile, if_pos rfl, if_pos hne]
    rw [lines, List.flatMap_cons, ← lines, List.foldl_append, List.foldl_append,
      foldl_parseFile hplain, List.nil_append, List.foldl_cons, List.foldl_nil, hline, ih hrest,
      List.append_assoc, List.singleton_append]

theorem parseFiles_lines {names : List (List UInt8)}
    (h : ∀ name ∈ names, name ≠ [] ∧ Plain name) : parseFiles (lines names) = names := by
  rw [parseFiles, foldl_parseFile_lines h]
  exact if_neg fun hne => hne rfl

def FilInfo.Named (fno : FilInfo) : Prop :=
  fno.fname ≠ [] ∧ newline ∉ fno.fname ∧ carriageReturn ∉ fno.fname

instance (fno : FilInfo) : Decidable fno.Named := inferInstanceAs (Decidable (_ ∧ _))

theorem FilInfo.Named.plain {fno : FilInfo} (h : fno.Named) : Plain fno.fname := by
  intro c hc
  refine ⟨?_, ?_, ?_⟩
  · rintro rfl
    exact h.2.1 hc
  · rintro rfl
    exact h.2.2 hc
  · rintro rfl
    exact fno.nul_not_mem hc

theorem mem_wavNames {entries : List FilInfo} {name : List UInt8} (h : name ∈ wavNames entries) :
    ∃ fno ∈ entries, fno.fname = name := by
  obtain ⟨fno, hfno, heq⟩ := List.mem_map.mp h
  exact ⟨fno, (List.mem_filter.mp hfno).1, heq⟩

/-- The Pi's list of files is the longest prefix of the directory's WAV files whose names, each with
a newline, have at most 255 bytes. The firmware's counter is their number of bytes, so it never
wrapped, and the field has its 255 bytes, so no write passed its end. -/
theorem wav_listing_roundtrip {entries : List FilInfo} (h : ∀ fno ∈ entries, fno.Named)
    (data : Vector UInt8 255) (len : UInt8) :
    let r := sdReadFiles ⟨frOk, entries.map fun fno => (frOk, fno)⟩ data.toList len
    let files := parseFiles (r.data.take r.len.toNat)
    IsLongestPrefix (fun names => totalCost lineLength names ≤ 255) files (wavNames entries) ∧
      r.len.toNat = totalCost lineLength files ∧ r.data.length = 255 := by
  intro r files
  have hholds := @sdReadFiles_opened ⟨frOk, entries.map fun fno => (frOk, fno)⟩ rfl data len
  rw [Directory.listed, entriesRead_entries fun fno hfno => (h fno hfno).1] at hholds
  have hlongest := longest_takeWithin lineLength 255 (wavNames entries)
  have hfiles : files = takeWithin lineLength 255 (wavNames entries) := by
    refine (congrArg parseFiles hholds.bytes).trans (parseFiles_lines fun name hname => ?_)
    obtain ⟨fno, hfno, rfl⟩ := mem_wavNames (hlongest.initial.subset hname)
    exact ⟨(h fno hfno).1, (h fno hfno).plain⟩
  rw [hfiles]
  exact ⟨hlongest, hholds.used, hholds.length_data⟩

/-- A directory, a file in capitals and one with another extension. -/
theorem wav_listing_roundtrip_three :
    let entries : List FilInfo := [⟨amDir, [0x64, 0x2E, 0x77, 0x61, 0x76], by decide, by decide⟩,
      ⟨0x20, [0x61, 0x2E, 0x57, 0x41, 0x56], by decide, by decide⟩,
      ⟨0x20, [0x62, 0x2E, 0x77, 0x61, 0x76, 0x65], by decide, by decide⟩]
    (∀ fno ∈ entries, fno.Named) ∧
      IsLongestPrefix (fun names => totalCost lineLength names ≤ 255)
        (parseFiles ((sdReadFiles ⟨frOk, entries.map fun fno => (frOk, fno)⟩
          (Vector.replicate 255 0).toList 0).data.take 6)) [[0x61, 0x2E, 0x57, 0x41, 0x56]] := by
  intro entries
  have h : ∀ fno ∈ entries, fno.Named := by decide
  exact ⟨h, (wav_listing_roundtrip h (Vector.replicate 255 0) 0).1⟩

end JeogiAt.Storage
