import JeogiAt.Library.Json
import JeogiAt.MetadataParser

/-!
# The best up train of an answer of the subway API

`parse_best_up_train` of `display.cpp` goes once through the rows and keeps the row with the least
time so far, from `INT32_MAX` on. It ends at the first row with the least time, if there is one
below the start. A time that is `INT32_MAX` itself is taken for no row at all. `none` stands for
the exceptions of the JSON library, whose texts are parameters.
-/

namespace JeogiAt.Subway

def targetSubwayId : ℤ := 1003

def int32Max : ℤ := 2147483647

/-- `line.find(text) != string::npos`. -/
abbrev Finds (line text : String) : Prop := text.toList <:+: line.toList

def trainDestCodeFromLine (line : String) : UInt8 :=
  if Finds line "대화" ∨ Finds line "DAEWHA" then 1
  else if Finds line "구파발" ∨ Finds line "GUPABAL" then 2
  else 0

def parseIntValue (v : Json) (fallback : ℤ) : ℤ :=
  match v with
  | .int n => (Int32.ofInt n).toInt
  | .str s => (Server.stoi s).getD fallback
  | _ => fallback

def intMember (row : Json) (key : String) : ℤ :=
  match row.find? key with
  | some v => parseIntValue v (-1)
  | none => -1

/-- What the JSON library prints: a value, and the exception of `value` for a key. -/
structure JsonTexts where
  dump : Json → String
  what : Json → String → String

/-- The variables of the loop over the rows. -/
structure RowSearch where
  best : ℤ
  seen_rows : ℕ
  pass_updn : ℕ
  pass_line : ℕ
  pass_barvl : ℕ
  out_line : String
  out_msg : String

namespace RowSearch

def start : RowSearch := ⟨int32Max, 0, 0, 0, 0, "", ""⟩

def filterMiss (s : RowSearch) : String :=
  "[filter_miss] rows=" ++ toString s.seen_rows ++ " updn=" ++ toString s.pass_updn ++
    " line3=" ++ toString s.pass_line ++ " barvl_valid=" ++ toString s.pass_barvl

variable (lib : JsonTexts)

/-- The new best row. An exception leaves what was assigned before it. -/
def take (s : RowSearch) (sec : ℤ) (row : Json) : Except (RowSearch × String) RowSearch :=
  let s := { s with best := sec }
  match row.value "trainLineNm" "" Json.getString with
  | none => .error (s, lib.what row "trainLineNm")
  | some line =>
      let s := { s with out_line := line }
      match row.value "arvlMsg2" "" Json.getString with
      | none => .error (s, lib.what row "arvlMsg2")
      | some msg => .ok { s with out_msg := msg }

/-- The body of the loop over the rows. -/
def examine (s : RowSearch) (row : Json) : Except (RowSearch × String) RowSearch :=
  let s := { s with seen_rows := s.seen_rows + 1 }
  match row.value "updnLine" "" Json.getString with
  | none => .error (s, lib.what row "updnLine")
  | some updn =>
      if ¬Finds updn "상행" then .ok s
      else
        let s := { s with pass_updn := s.pass_updn + 1 }
        if intMember row "subwayId" ≠ targetSubwayId then .ok s
        else
          let s := { s with pass_line := s.pass_line + 1 }
          let sec := intMember row "barvlDt"
          if sec < 0 then .ok s
          else
            let s := { s with pass_barvl := s.pass_barvl + 1 }
            if sec < s.best then s.take lib sec row else .ok s

end RowSearch

structure BestUpTrain where
  found : Bool
  out_barvl_dt : ℤ
  out_line : String
  out_msg : String
  out_reason : String

/-- `parse_best_up_train`, of a text that may not parse. -/
def parseBestUpTrain (lib : JsonTexts) : Except String Json → BestUpTrain
  | .error what => ⟨false, -1, "", "", "json_exception=" ++ what⟩
  | .ok root =>
      match root.find? "realtimeArrivalList" with
      | some (.arr rows) =>
          match rows.foldlM (RowSearch.examine lib) RowSearch.start with
          | .error (s, what) => ⟨false, -1, s.out_line, s.out_msg, "json_exception=" ++ what⟩
          | .ok s =>
              if s.best = int32Max then ⟨false, -1, s.out_line, s.out_msg, s.filterMiss⟩
              else ⟨true, s.best, s.out_line, s.out_msg, ""⟩
      | _ =>
          match root.find? "errorMessage" with
          | some message => ⟨false, -1, "", "", "api_error=" ++ lib.dump message⟩
          | none => ⟨false, -1, "", "", "missing_realtimeArrivalList"⟩

structure Train where
  sec : ℤ
  line : String
  msg : String
  deriving DecidableEq

def text (row : Json) (key : String) : String := (row.value key "" Json.getString).getD ""

/-- The row as an up train of the line with the time of its arrival. -/
def upTrain (row : Json) : Option Train :=
  if Finds (text row "updnLine") "상행" ∧ intMember row "subwayId" = targetSubwayId ∧
      0 ≤ intMember row "barvlDt" then
    some ⟨intMember row "barvlDt", text row "trainLineNm", text row "arvlMsg2"⟩
  else none

def upTrains (rows : List Json) : List Train := rows.filterMap upTrain

structure RowTypes (row : Json) : Prop where
  updn : row.value "updnLine" "" Json.getString = some (text row "updnLine")
  line : row.value "trainLineNm" "" Json.getString = some (text row "trainLineNm")
  msg : row.value "arvlMsg2" "" Json.getString = some (text row "arvlMsg2")

def FirstEarliest (trains : List Train) (t : Train) : Prop :=
  ∃ before after, trains = before ++ t :: after ∧
    (∀ u ∈ before, t.sec < u.sec) ∧ ∀ u ∈ after, t.sec ≤ u.sec

/-- The answer is the first of the trains with the least time, if there is any train. -/
structure BestTrainLaw (rows : List Json) (result : BestUpTrain) : Prop where
  found : result.found = true ↔ upTrains rows ≠ []
  best : result.found = true →
    FirstEarliest (upTrains rows) ⟨result.out_barvl_dt, result.out_line, result.out_msg⟩

namespace RowSearch

def train (s : RowSearch) : Train := ⟨s.best, s.out_line, s.out_msg⟩

end RowSearch

/-- A train takes the place of the best one if it comes earlier. -/
def earlier (best t : Train) : Train := if t.sec < best.sec then t else best

theorem FirstEarliest.mem {trains : List Train} {t : Train} (h : FirstEarliest trains t) :
    t ∈ trains := by
  obtain ⟨before, after, rfl, -, -⟩ := h
  exact List.mem_append_right before (List.mem_cons_self ..)

theorem FirstEarliest.sec_le {trains : List Train} {t u : Train} (h : FirstEarliest trains t)
    (hu : u ∈ trains) : t.sec ≤ u.sec := by
  obtain ⟨before, after, rfl, hbefore, hafter⟩ := h
  rcases List.mem_append.mp hu with hu | hu
  · exact (hbefore u hu).le
  · rcases List.mem_cons.mp hu with rfl | hu
    · exact le_rfl
    · exact hafter u hu

theorem FirstEarliest.concat {trains : List Train} {best : Train} (h : FirstEarliest trains best)
    (t : Train) : FirstEarliest (trains ++ [t]) (earlier best t) := by
  unfold earlier
  split
  case isTrue hlt =>
    exact ⟨trains, [], rfl, fun u hu => hlt.trans_le (h.sec_le hu), by simp⟩
  case isFalse hge =>
    obtain ⟨before, after, rfl, hbefore, hafter⟩ := h
    refine ⟨before, after ++ [t], by simp, hbefore, ?_⟩
    rw [List.forall_mem_append]
    exact ⟨hafter, List.forall_mem_singleton.mpr (not_lt.mp hge)⟩

/-- A loop that starts from some train finds the first earliest, with its start as the first. -/
theorem firstEarliest_foldl (best : Train) (trains : List Train) :
    FirstEarliest (best :: trains) (trains.foldl earlier best) := by
  induction trains using List.reverseRecOn with
  | nil => exact ⟨[], [], rfl, by simp, by simp⟩
  | append_singleton trains t ih =>
    rw [List.foldl_concat, ← List.cons_append]
    exact ih.concat t

/-- What comes before the start is the first earliest of the trains alone. -/
theorem FirstEarliest.of_cons {start t : Train} {trains : List Train}
    (h : FirstEarliest (start :: trains) t) (hlt : t.sec < start.sec) :
    FirstEarliest trains t := by
  obtain ⟨before, after, htrains, hbefore, hafter⟩ := h
  cases before with
  | nil =>
    obtain ⟨rfl, -⟩ := List.cons.inj htrains
    exact absurd hlt (lt_irrefl _)
  | cons u before =>
    obtain ⟨-, rfl⟩ := List.cons.inj htrains
    exact ⟨before, after, rfl, fun v hv => hbefore v (List.mem_cons_of_mem u hv), hafter⟩

namespace RowSearch

variable (lib : JsonTexts)

/-- One row: the loop goes on, with the row's train if that comes earlier. -/
theorem examine_typed (s : RowSearch) {row : Json} (h : RowTypes row) :
    ∃ s', s.examine lib row = .ok s' ∧ s'.train = (upTrain row).elim s.train (earlier s.train) := by
  unfold examine upTrain
  rw [h.updn]
  by_cases hupdn : Finds (text row "updnLine") "상행"
  · by_cases hid : intMember row "subwayId" = targetSubwayId
    · by_cases hsec : 0 ≤ intMember row "barvlDt"
      · rw [if_pos ⟨hupdn, hid, hsec⟩, Option.elim_some]
        simp only [hupdn, not_true_eq_false, if_false, hid, ne_eq, not_lt.mpr hsec]
        by_cases hlt : intMember row "barvlDt" < s.best
        · refine ⟨_, by rw [if_pos hlt, take, h.line, h.msg], ?_⟩
          rw [earlier, if_pos (show intMember row "barvlDt" < s.train.sec from hlt)]
          rfl
        · refine ⟨_, if_neg hlt, ?_⟩
          rw [earlier, if_neg (show ¬intMember row "barvlDt" < s.train.sec from hlt)]
          rfl
      · rw [if_neg fun hrow => hsec hrow.2.2]
        simp only [hupdn, not_true_eq_false, if_false, hid, ne_eq, not_le.mp hsec, if_true]
        exact ⟨_, rfl, rfl⟩
    · rw [if_neg fun hrow => hid hrow.2.1]
      simp only [hupdn, not_true_eq_false, if_false, ne_eq, hid, not_false_eq_true, if_true]
      exact ⟨_, rfl, rfl⟩
  · rw [if_neg fun hrow => hupdn hrow.1]
    simp only [hupdn, not_false_eq_true, if_true]
    exact ⟨_, rfl, rfl⟩

theorem foldlM_examine (s : RowSearch) {rows : List Json} (h : ∀ row ∈ rows, RowTypes row) :
    ∃ s', rows.foldlM (examine lib) s = .ok s' ∧
      s'.train = (upTrains rows).foldl earlier s.train := by
  induction rows generalizing s with
  | nil => exact ⟨s, rfl, rfl⟩
  | cons row rows ih =>
    obtain ⟨hrow, hrows⟩ := List.forall_mem_cons.mp h
    obtain ⟨s₁, hs₁, htrain₁⟩ := s.examine_typed lib hrow
    obtain ⟨s₂, hs₂, htrain₂⟩ := ih s₁ hrows
    refine ⟨s₂, ?_, ?_⟩
    · rw [List.foldlM_cons, hs₁]
      exact hs₂
    · rw [htrain₂, htrain₁, upTrains, upTrains, List.filterMap_cons]
      cases upTrain row with
      | none => rfl
      | some t => rfl

end RowSearch

def reported (rows : List Json) : Option Train :=
  (some ((upTrains rows).foldl earlier RowSearch.start.train)).filter (·.sec < int32Max)

theorem reported_eq_some_iff {rows : List Json} {t : Train} :
    reported rows = some t ↔
      (upTrains rows).foldl earlier RowSearch.start.train = t ∧ t.sec < int32Max := by
  rw [reported, Option.filter_eq_some_iff, decide_eq_true_iff, Option.some.injEq]

theorem firstEarliest_of_reported {rows : List Json} {t : Train} (h : reported rows = some t) :
    FirstEarliest (upTrains rows) t := by
  obtain ⟨rfl, hlt⟩ := reported_eq_some_iff.mp h
  exact (firstEarliest_foldl RowSearch.start.train (upTrains rows)).of_cons hlt

theorem reported_isSome_iff {rows : List Json} :
    (reported rows).isSome = true ↔ ∃ t ∈ upTrains rows, t.sec < int32Max := by
  rw [Option.isSome_iff_exists]
  constructor
  · rintro ⟨t, ht⟩
    exact ⟨t, (firstEarliest_of_reported ht).mem, (reported_eq_some_iff.mp ht).2⟩
  · rintro ⟨u, hu, hlt⟩
    have hle := (firstEarliest_foldl RowSearch.start.train (upTrains rows)).sec_le
      (List.mem_cons_of_mem _ hu)
    exact ⟨_, reported_eq_some_iff.mpr ⟨rfl, hle.trans_lt hlt⟩⟩

theorem foldl_sec_of_reported {rows : List Json} (h : reported rows = none) :
    ((upTrains rows).foldl earlier RowSearch.start.train).sec = int32Max := by
  have hle := (firstEarliest_foldl RowSearch.start.train (upTrains rows)).sec_le
    (List.mem_cons_self ..)
  by_contra hne
  have hsome := reported_eq_some_iff.mpr ⟨rfl, lt_of_le_of_ne hle hne⟩
  cases h.symm.trans hsome

section

variable (lib : JsonTexts) {root : Json} {rows : List Json}
  (hlist : root.find? "realtimeArrivalList" = some (.arr rows))
  (htypes : ∀ row ∈ rows, RowTypes row)

include hlist htypes

theorem exists_search : ∃ s : RowSearch,
    parseBestUpTrain lib (.ok root) =
      (if s.best = int32Max then ⟨false, -1, s.out_line, s.out_msg, s.filterMiss⟩
        else ⟨true, s.best, s.out_line, s.out_msg, ""⟩) ∧
      s.train = (upTrains rows).foldl earlier RowSearch.start.train := by
  obtain ⟨s, hs, htrain⟩ := RowSearch.start.foldlM_examine lib htypes
  refine ⟨s, ?_, htrain⟩
  simp only [parseBestUpTrain, hlist, hs]

theorem outputs_eq {t : Train} (h : reported rows = some t) :
    parseBestUpTrain lib (.ok root) = ⟨true, t.sec, t.line, t.msg, ""⟩ := by
  obtain ⟨s, hresult, htrain⟩ := exists_search lib hlist htypes
  obtain ⟨ht, hlt⟩ := reported_eq_some_iff.mp h
  rw [ht] at htrain
  have hbest : s.best ≠ int32Max := by
    rw [show s.best = t.sec from congrArg Train.sec htrain]
    exact ne_of_lt hlt
  rw [hresult, if_neg hbest, ← htrain]
  rfl

theorem found_eq : (parseBestUpTrain lib (.ok root)).found = (reported rows).isSome := by
  cases h : reported rows with
  | none =>
    obtain ⟨s, hresult, htrain⟩ := exists_search lib hlist htypes
    have hbest : s.best = int32Max :=
      (congrArg Train.sec htrain).trans (foldl_sec_of_reported h)
    rw [hresult, if_pos hbest, Option.isSome_none]
  | some t => rw [outputs_eq lib hlist htypes h, Option.isSome_some]

/-- The best train is found unless every train of the answer comes at `INT32_MAX`. -/
theorem bestTrain_iff :
    BestTrainLaw rows (parseBestUpTrain lib (.ok root)) ↔
      (upTrains rows = [] ∨ ∃ t ∈ upTrains rows, t.sec < int32Max) := by
  have hfound := found_eq lib hlist htypes
  constructor
  · intro hlaw
    by_cases hnil : upTrains rows = []
    · exact .inl hnil
    · exact .inr (reported_isSome_iff.mp (hfound ▸ hlaw.found.mpr hnil))
  · rintro (hnil | hlow)
    · have hnone : (reported rows).isSome = false := by
        rw [reported, hnil]
        rfl
      rw [hnone] at hfound
      refine ⟨?_, fun htrue => ?_⟩
      · simp [hfound, hnil]
      · cases hfound.symm.trans htrue
    · obtain ⟨t, ht⟩ := Option.isSome_iff_exists.mp (reported_isSome_iff.mpr hlow)
      have hfirst := firstEarliest_of_reported ht
      rw [outputs_eq lib hlist htypes ht]
      exact ⟨iff_of_true rfl (List.ne_nil_of_mem hfirst.mem), fun _ => hfirst⟩

end

/-- An up train of the line, at a time given as a number or as a text. -/
def trainRow (barvlDt : Json) (line : String) : Json :=
  .obj [("subwayId", .str "1003"), ("updnLine", .str "상행"), ("trainLineNm", .str line),
    ("barvlDt", barvlDt), ("arvlMsg2", .str "전역 출발")]

def answer (rows : List Json) : Json := .obj [("realtimeArrivalList", .arr rows)]

theorem rowTypes_trainRow (barvlDt : Json) (line : String) : RowTypes (trainRow barvlDt line) :=
  ⟨rfl, rfl, rfl⟩

def noTexts : JsonTexts := ⟨fun _ => "", fun _ _ => ""⟩

theorem bestTrain_twoTrains :
    BestTrainLaw [trainRow (.str "120") "대화행", trainRow (.int 60) "구파발행"]
      (parseBestUpTrain noTexts
        (.ok (answer [trainRow (.str "120") "대화행", trainRow (.int 60) "구파발행"]))) :=
  (bestTrain_iff noTexts rfl (by simp [rowTypes_trainRow])).mpr
    (.inr ⟨⟨60, "구파발행", "전역 출발"⟩, by decide, by decide⟩)

/-- A train at `INT32_MAX` is in the answer, and none is found. -/
theorem latestTrain_missed : ¬BestTrainLaw [trainRow (.str "2147483647") "대화행"]
    (parseBestUpTrain noTexts (.ok (answer [trainRow (.str "2147483647") "대화행"]))) := by
  intro hlaw
  cases hlaw.found.mpr (by decide)

end JeogiAt.Subway
