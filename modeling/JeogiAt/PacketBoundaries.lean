import JeogiAt.HanwhaNode

/-!
# Metadata across packet boundaries

However a stream is cut into packets, the calls of `processPacket` together move to
`completed_streams` the elements of the whole stream, each with the `pts` of the packet that
completes it, as long as the buffer is never too long when `cleanupBuffer` runs. That it never stays
too long holds of every stream.
-/

namespace JeogiAt.Server

open Delimiters HanwhaNode

namespace MetadataParser

/-- What the loop of a call leaves in `completed_streams`. -/
def streamsOf (packet : MetadataPacket) (parser : MetadataParser) :
    List (List UInt8 × Int64) :=
  if packet.data = [] then []
  else
    (moveElements packet.pts
      { parser with xml_buffer := parser.xml_buffer ++ packet.data }).completed_streams

section

variable (xml : Tinyxml2) (uninit : XmlNode → Edges)

/-- The calls of `processPacket`, none after an exception, with what `completed_streams` has when
the loop of the call ends. -/
def calls : Machine (Option MetadataParser) MetadataPacket (List (List UInt8 × Int64)) :=
  ⟨fun state packet =>
    (state.bind (processPacket xml uninit packet), (state.map (streamsOf packet)).getD [])⟩

/-- The call is made, and finds a buffer that it need not clear. -/
def Made (state : Option MetadataParser) (packet : MetadataPacket) : Prop :=
  ∃ parser, state = some parser ∧ (packet.data ≠ [] →
    (metadataStream.elements (parser.xml_buffer ++ packet.data)).2.length ≤ maxBufferSize)

/-- A call after those on `past` moves the elements that its packet completes, and its results are
those of what it moves. -/
def Completes (past : List MetadataPacket) (packet : MetadataPacket) : Prop :=
  ∃ old new, Greedy metadataStream (stream past) old ∧
    Greedy metadataStream (stream (past ++ [packet])) (old ++ new) ∧
    (calls xml uninit).output ((calls xml uninit).run (some init) past) packet =
      new.map (stamp packet.pts) ∧
    ∀ parser, (calls xml uninit).run (some init) past = some parser →
      ((calls xml uninit).run (some init) (past ++ [packet])).map results =
        (processCompletedStreams xml uninit (new.map (stamp packet.pts))).map (parser.results ++ ·)

end

variable {xml : Tinyxml2} {uninit : XmlNode → Edges} {parser : MetadataParser}
  {packet : MetadataPacket}

theorem completed_streams_cleanupBuffer (parser : MetadataParser) :
    parser.cleanupBuffer.completed_streams = parser.completed_streams := by
  rw [cleanupBuffer]
  split_ifs <;> rfl

theorem results_cleanupBuffer (parser : MetadataParser) :
    parser.cleanupBuffer.results = parser.results := by
  rw [cleanupBuffer]
  split_ifs <;> rfl

/-- The results of a call are those of the streams that its loop leaves. -/
theorem results_processPacket (packet : MetadataPacket) (parser : MetadataParser) :
    (parser.processPacket xml uninit packet).map results =
      (processCompletedStreams xml uninit (parser.streamsOf packet)).map
        (parser.results ++ ·) := by
  rw [processPacket, streamsOf]
  split_ifs with hdata
  · exact congrArg some (List.append_nil _).symm
  · rw [processBuffer, Option.map_map]
    refine Option.map_congr fun results _ => ?_
    exact results_cleanupBuffer _

theorem completed_streams_processPacket {after : MetadataParser}
    (hbefore : parser.completed_streams = [])
    (h : parser.processPacket xml uninit packet = some after) : after.completed_streams = [] := by
  rw [processPacket] at h
  split_ifs at h with hdata
  · cases h
    exact hbefore
  · rw [processBuffer] at h
    obtain ⟨results, -, rfl⟩ := Option.map_eq_some_iff.mp h
    exact completed_streams_cleanupBuffer _

theorem completed_streams_run {packets : List MetadataPacket}
    (h : (calls xml uninit).run (some init) packets = some parser) :
    parser.completed_streams = [] := by
  induction packets using List.reverseRecOn generalizing parser with
  | nil =>
    cases h
    rfl
  | append_singleton past packet ih =>
    rw [Machine.run_concat] at h
    obtain ⟨before, hbefore, hnext⟩ := Option.bind_eq_some_iff.mp h
    exact completed_streams_processPacket (ih hbefore) hnext

/-- A call that returns leaves what follows the last element, if it need not clear that. -/
theorem xml_buffer_processPacket {after : MetadataParser} (hmade : Made (some parser) packet)
    (hrest : metadataStream.elements parser.xml_buffer = ([], parser.xml_buffer))
    (h : parser.processPacket xml uninit packet = some after) :
    after.xml_buffer = (metadataStream.elements (parser.xml_buffer ++ packet.data)).2 := by
  obtain ⟨_, heq, hfits⟩ := hmade
  cases heq
  rw [processPacket] at h
  split_ifs at h with hdata
  · cases h
    rw [hdata, List.append_nil, hrest]
  · rw [processBuffer, moveElements] at h
    obtain ⟨results, -, rfl⟩ := Option.map_eq_some_iff.mp h
    rw [cleanupBuffer, if_neg (Nat.not_lt.mpr (hfits hdata))]

/-- Between the calls the buffer has what follows the last element of the stream. -/
theorem xml_buffer_run {packets : List MetadataPacket}
    (h : (calls xml uninit).Along Made (some init) packets)
    (hrun : (calls xml uninit).run (some init) packets = some parser) :
    parser.xml_buffer = (metadataStream.elements (stream packets)).2 := by
  induction packets using List.reverseRecOn generalizing parser with
  | nil =>
    cases hrun
    rw [stream, List.flatMap_nil, elements_nil]
    rfl
  | append_singleton past packet ih =>
    obtain ⟨hpast, hmade⟩ := Machine.along_concat.mp h
    rw [Machine.run_concat] at hrun
    obtain ⟨before, hbefore, hnext⟩ := Option.bind_eq_some_iff.mp hrun
    have hbuffer := ih hpast hbefore
    rw [hbefore] at hmade
    have hrest := metadataStream.elements_rest (stream past)
    rw [← hbuffer] at hrest
    rw [xml_buffer_processPacket hmade hrest hnext, stream_concat, elements_append (stream past),
      hbuffer]

theorem completes_of_made {past : List MetadataPacket}
    (hpast : (calls xml uninit).Along Made (some init) past)
    (hmade : Made ((calls xml uninit).run (some init) past) packet) :
    (calls xml uninit).output ((calls xml uninit).run (some init) past) packet =
      (metadataStream.elements
        ((metadataStream.elements (stream past)).2 ++ packet.data)).1.map (stamp packet.pts) := by
  obtain ⟨parser, hrun, -⟩ := hmade
  have hbuffer := xml_buffer_run hpast hrun
  have houtput : (calls xml uninit).output ((calls xml uninit).run (some init) past) packet =
      parser.streamsOf packet := by
    rw [hrun]
    rfl
  rw [houtput, streamsOf]
  split_ifs with hdata
  · rw [hdata, List.append_nil, elements_rest, List.map_nil]
  · rw [moveElements, hbuffer, completed_streams_run hrun, List.nil_append]

/-- The results of a call are those of the elements that it moves. -/
theorem results_of_made {past : List MetadataPacket}
    (hrun : (calls xml uninit).run (some init) past = some parser) :
    ((calls xml uninit).run (some init) (past ++ [packet])).map results =
      (processCompletedStreams xml uninit
        ((calls xml uninit).output ((calls xml uninit).run (some init) past) packet)).map
          (parser.results ++ ·) := by
  rw [Machine.run_concat, hrun]
  exact results_processPacket packet parser

theorem moved_run {packets : List MetadataPacket}
    (h : (calls xml uninit).Along Made (some init) packets) :
    ((calls xml uninit).trace (some init) packets).flatten.map Prod.fst =
      (metadataStream.elements (stream packets)).1.map (xmlDeclaration ++ ·) := by
  induction packets using List.reverseRecOn with
  | nil =>
    rw [stream, List.flatMap_nil, elements_nil]
    rfl
  | append_singleton past packet ih =>
    obtain ⟨hpast, hmade⟩ := Machine.along_concat.mp h
    rw [Machine.trace_concat, List.flatten_append, List.map_append, ih hpast,
      List.flatten_singleton, completes_of_made hpast hmade, stream_concat,
      elements_append (stream past), List.map_append, List.map_map]
    rfl

theorem length_processPacket {after : MetadataParser}
    (hlength : parser.xml_buffer.length ≤ maxBufferSize)
    (h : parser.processPacket xml uninit packet = some after) :
    after.xml_buffer.length ≤ maxBufferSize := by
  rw [processPacket] at h
  split_ifs at h with hdata
  · cases h
    exact hlength
  · rw [processBuffer] at h
    obtain ⟨results, -, rfl⟩ := Option.map_eq_some_iff.mp h
    rw [cleanupBuffer]
    split_ifs with hlong
    · exact Nat.zero_le _
    · exact Nat.not_lt.mp hlong

theorem length_run {packets : List MetadataPacket}
    (h : (calls xml uninit).run (some init) packets = some parser) :
    parser.xml_buffer.length ≤ maxBufferSize := by
  induction packets using List.reverseRecOn generalizing parser with
  | nil =>
    cases h
    exact Nat.zero_le _
  | append_singleton past packet ih =>
    rw [Machine.run_concat] at h
    obtain ⟨before, hbefore, hnext⟩ := Option.bind_eq_some_iff.mp h
    exact length_processPacket (ih hbefore) hnext

/-- The calls move the elements of the stream in order, each call those that its packet completes
and whose results it keeps, and no call leaves more than 512 KiB in the buffer. -/
theorem packet_boundaries (xml : Tinyxml2) (uninit : XmlNode → Edges)
    (packets : List MetadataPacket) :
    ((calls xml uninit).Along Made (some init) packets →
      (∃ elements, Greedy metadataStream (stream packets) elements ∧
        ((calls xml uninit).trace (some init) packets).flatten.map Prod.fst =
          elements.map (xmlDeclaration ++ ·)) ∧
      Throughout (Completes xml uninit) packets) ∧
    ∀ parser, (calls xml uninit).run (some init) packets = some parser →
      parser.xml_buffer.length ≤ maxBufferSize := by
  refine ⟨fun h => ⟨⟨_, greedy_elements _, moved_run h⟩, fun past packet hpast => ?_⟩,
    fun _ => length_run⟩
  obtain ⟨rest, rfl⟩ := hpast
  obtain ⟨hpast, hmade⟩ := Machine.along_concat.mp (Machine.along_append.mp h).1
  have hmoved := completes_of_made hpast hmade
  refine ⟨_, _, greedy_elements (stream past), ?_, hmoved, fun parser hrun => ?_⟩
  · have hgreedy := greedy_elements (d := metadataStream) (stream (past ++ [packet]))
    rw [stream_concat, elements_append] at hgreedy
    rw [stream_concat]
    exact hgreedy
  · rw [← hmoved]
    exact results_of_made hrun

def firstPart : MetadataPacket := ⟨emptyDocument.take 30, 0⟩

def secondPart : MetadataPacket := ⟨emptyDocument.drop 30, 1⟩

theorem elements_firstPart :
    metadataStream.elements (emptyDocument.take 30) = ([], emptyDocument.take 30) :=
  elements_of_none (by decide +kernel)

theorem length_firstPart : (emptyDocument.take 30).length ≤ maxBufferSize :=
  (List.length_take_le 30 _).trans (by rw [maxBufferSize]; omega)

theorem run_firstPart : (calls twoDocuments origin).run (some init) [firstPart] =
    some ⟨emptyDocument.take 30, [], []⟩ := by
  have hdata : firstPart.data ≠ [] := by decide +kernel
  have hnext : (calls twoDocuments origin).run (some init) [firstPart] =
      processPacket twoDocuments origin firstPart init := rfl
  rw [hnext, processPacket, if_neg hdata, processBuffer, moveElements, init, firstPart,
    List.nil_append]
  dsimp only
  rw [elements_firstPart]
  exact congrArg some (if_neg (Nat.not_lt.mpr length_firstPart))

theorem made_parts :
    (calls twoDocuments origin).Along Made (some init) [firstPart, secondPart] := by
  refine ⟨⟨init, rfl, fun _ => ?_⟩, ⟨_, run_firstPart, fun _ => ?_⟩, trivial⟩
  · rw [init, firstPart, List.nil_append]
    dsimp only
    rw [elements_firstPart]
    exact length_firstPart
  · rw [secondPart, List.take_append_drop, elements_emptyDocument]
    exact Nat.zero_le _

theorem packet_boundaries_parts :
    (∃ elements, Greedy metadataStream (stream [firstPart, secondPart]) elements ∧
      ((calls twoDocuments origin).trace (some init) [firstPart, secondPart]).flatten.map Prod.fst =
        elements.map (xmlDeclaration ++ ·)) ∧
    Throughout (Completes twoDocuments origin) [firstPart, secondPart] :=
  (packet_boundaries twoDocuments origin [firstPart, secondPart]).1 made_parts

end MetadataParser

end JeogiAt.Server
