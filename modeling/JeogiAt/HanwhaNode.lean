import JeogiAt.Library.Machine
import JeogiAt.MetadataParser

/-!
# The people that the Hanwha camera sees

`HanwhaNode::process_loop` hands every metadata packet to the parser and takes the objects of the
latest result for `g_hw_objects`. A frame without people leaves no result, so the list keeps the
people of an earlier frame.

A state is `none` once an exception has ended the program.
-/

namespace JeogiAt.Server

structure HanwhaNode where
  metaParser : MetadataParser
  g_hw_objects : List DetectedObject

def latestObjects (results : List MetadataResult) (g_hw_objects : List DetectedObject) :
    List DetectedObject :=
  match results.getLast? with
  | none => g_hw_objects
  | some latest => if latest.objects = [] then g_hw_objects else latest.objects

namespace HanwhaNode

def stream (packets : List MetadataPacket) : List UInt8 := packets.flatMap MetadataPacket.data

theorem stream_concat (packets : List MetadataPacket) (packet : MetadataPacket) :
    stream (packets ++ [packet]) = stream packets ++ packet.data := by
  rw [stream, List.flatMap_append, List.flatMap_singleton]
  rfl

def Fits (packets : List MetadataPacket) : Prop :=
  ∀ past, past <+: packets → (metadataStream.elements (stream past)).2.length ≤ maxBufferSize

theorem fits_past {packets past : List MetadataPacket} (h : Fits packets)
    (hpast : past <+: packets) : Fits past := fun ys hys => h ys (hys.trans hpast)

def init : HanwhaNode := ⟨.init, []⟩

section

variable (xml : Tinyxml2) (uninit : XmlNode → Edges)

/-- One turn of `process_loop` with a metadata packet. -/
def processMetadata (packet : MetadataPacket) (node : HanwhaNode) : Option HanwhaNode :=
  (node.metaParser.processPacket xml uninit packet).map fun parser =>
    let completed := parser.getCompletedResults
    ⟨completed.2, latestObjects completed.1 node.g_hw_objects⟩

/-- A turn with a metadata packet, in a state that an exception may have ended. -/
def processLoop : Machine (Option HanwhaNode) MetadataPacket Unit :=
  ⟨fun state packet => (state.bind (processMetadata xml uninit packet), ())⟩

/-- What the frames among the elements show, one list for each. -/
def frameLists (elements : List (List UInt8)) : List (List DetectedObject) :=
  (elements.filter (hasFrame xml)).map (people xml uninit)

/-- The list is that of the last frame in the stream, empty before the first one. -/
def Current (packets : List MetadataPacket) : Prop :=
  ∀ node, (processLoop xml uninit).run (some init) packets = some node →
    node.g_hw_objects =
      (frameLists xml uninit (metadataStream.elements (stream packets)).1).getLast?.getD []

def completedBy (node : HanwhaNode) (packet : MetadataPacket) : List (List UInt8) :=
  (metadataStream.elements (node.metaParser.xml_buffer ++ packet.data)).1

/-- If the last frame that a packet completes shows nobody, then no frame of the packet shows
anybody, and the list was empty. A packet that ends the program is no concern. -/
def Shows : Option HanwhaNode → MetadataPacket → Prop
  | none, _ => True
  | some node, packet =>
      (∀ e ∈ node.completedBy packet, shown xml uninit e ≠ none) →
        (frameLists xml uninit (node.completedBy packet)).getLast? = some [] →
          node.g_hw_objects = [] ∧ ∀ l ∈ frameLists xml uninit (node.completedBy packet), l = []

end

theorem getLast?_filter_eq_iff (lists : List (List DetectedObject)) (g : List DetectedObject) :
    (lists.filter (· ≠ [])).getLast?.getD g = lists.getLast?.getD g ↔
      (lists.getLast? = some [] → g = [] ∧ ∀ l ∈ lists, l = []) := by
  rcases List.eq_nil_or_concat lists with rfl | ⟨before, last, rfl⟩
  · simp only [List.filter_nil, List.getLast?_nil, reduceCtorEq, false_imp_iff]
  rw [List.concat_eq_append, List.filter_append, List.getLast?_concat, Option.getD_some]
  by_cases hlast : last = []
  · subst hlast
    rw [List.filter_cons_of_neg (by simp), List.filter_nil, List.append_nil]
    constructor
    · rintro hg -
      cases hnonempty : (before.filter (· ≠ [])).getLast? with
      | none =>
        rw [hnonempty, Option.getD_none] at hg
        rw [List.getLast?_eq_none_iff, List.filter_eq_nil_iff] at hnonempty
        refine ⟨hg, fun l hl => ?_⟩
        rcases List.mem_append.mp hl with hbefore | hnil
        · simpa using hnonempty l hbefore
        · exact List.mem_singleton.mp hnil
      | some l =>
        rw [hnonempty, Option.getD_some] at hg
        have hmem := List.mem_filter.mp (List.mem_of_getLast? hnonempty)
        exact absurd hg (by simpa using hmem.2)
    · intro h
      obtain ⟨hg, hall⟩ := h rfl
      have hnone : before.filter (· ≠ []) = [] := by
        rw [List.filter_eq_nil_iff]
        intro l hl
        simpa using hall l (List.mem_append_left _ hl)
      rw [hnone, List.getLast?_nil, Option.getD_none, hg]
  · rw [List.filter_cons_of_pos (by simpa using hlast), List.filter_nil, List.getLast?_concat,
      Option.getD_some, Option.some_inj]
    exact ⟨fun _ h => absurd h hlast, fun _ => rfl⟩

variable {xml : Tinyxml2} {uninit : XmlNode → Edges}

theorem latestObjects_map (lists : List (List DetectedObject)) (pts : Int64)
    (g : List DetectedObject) :
    latestObjects ((lists.filter (· ≠ [])).map (MetadataResult.mk pts)) g =
      (lists.filter (· ≠ [])).getLast?.getD g := by
  rw [latestObjects, List.getLast?_map]
  cases hlast : (lists.filter (· ≠ [])).getLast? with
  | none => rfl
  | some l =>
    have hmem := List.mem_filter.mp (List.mem_of_getLast? hlast)
    rw [Option.map_some, Option.getD_some]
    dsimp only
    rw [if_neg (by simpa using hmem.2)]

/-- One packet: the elements that it completes, and what is left of the buffer. -/
theorem processMetadata_eq {node : HanwhaNode} {packet : MetadataPacket} {b : List UInt8}
    (hparser : node.metaParser = ⟨b, [], []⟩) (hb : metadataStream.elements b = ([], b))
    (hfits : (metadataStream.elements (b ++ packet.data)).2.length ≤ maxBufferSize)
    (hshown : ∀ e ∈ node.completedBy packet, shown xml uninit e ≠ none) :
    node.processMetadata xml uninit packet =
      some ⟨⟨(metadataStream.elements (b ++ packet.data)).2, [], []⟩,
        ((frameLists xml uninit (node.completedBy packet)).filter (· ≠ [])).getLast?.getD
          node.g_hw_objects⟩ := by
  unfold completedBy at hshown ⊢
  rw [hparser] at hshown ⊢
  rw [processMetadata, hparser]
  by_cases hdata : packet.data = []
  · rw [hdata, List.append_nil, hb, MetadataParser.processPacket, if_pos hdata]
    rfl
  · rw [MetadataParser.processPacket, if_neg hdata, MetadataParser.processBuffer,
      MetadataParser.moveElements]
    dsimp only
    rw [List.nil_append, processCompletedStreams_map packet.pts hshown, Option.map_some,
      Option.map_some, MetadataParser.cleanupBuffer, if_neg (Nat.not_lt.mpr hfits), frameLists,
      filter_people_hasFrame]
    simp only [MetadataParser.getCompletedResults, List.nil_append, latestObjects_map]

theorem processMetadata_eq_none {node : HanwhaNode} {packet : MetadataPacket} {b : List UInt8}
    (hparser : node.metaParser = ⟨b, [], []⟩) (hb : metadataStream.elements b = ([], b))
    {e : List UInt8} (hmem : e ∈ node.completedBy packet) (hshown : shown xml uninit e = none) :
    node.processMetadata xml uninit packet = none := by
  unfold completedBy at hmem
  rw [hparser] at hmem
  by_cases hdata : packet.data = []
  · rw [hdata, List.append_nil, hb] at hmem
    exact absurd hmem List.not_mem_nil
  · rw [processMetadata, hparser, MetadataParser.processPacket, if_neg hdata,
      MetadataParser.processBuffer, MetadataParser.moveElements]
    dsimp only
    rw [List.nil_append, processCompletedStreams_eq_none packet.pts hmem hshown]
    rfl

/-- Between the packets the buffer has what follows the last element of the stream. -/
theorem metaParser_run {packets : List MetadataPacket} (hfits : Fits packets) {node : HanwhaNode}
    (hrun : (processLoop xml uninit).run (some init) packets = some node) :
    node.metaParser = ⟨(metadataStream.elements (stream packets)).2, [], []⟩ := by
  induction packets using List.reverseRecOn generalizing node with
  | nil =>
    cases hrun
    rw [stream, List.flatMap_nil, elements_nil]
    rfl
  | append_singleton past packet ih =>
    rw [Machine.run_concat] at hrun
    obtain ⟨before, hbefore, hnext⟩ := Option.bind_eq_some_iff.mp hrun
    have hparser := ih (fits_past hfits (List.prefix_append _ _)) hbefore
    have hrest := metadataStream.elements_rest (stream past)
    have hfits' := hfits _ List.prefix_rfl
    rw [stream_concat, Delimiters.elements_append] at hfits' ⊢
    by_cases hshown : ∀ e ∈ before.completedBy packet, shown xml uninit e ≠ none
    · rw [processMetadata_eq hparser hrest hfits' hshown, Option.some_inj] at hnext
      rw [← hnext]
    · simp only [not_forall, ne_eq, not_not] at hshown
      obtain ⟨e, hmem, hnone⟩ := hshown
      rw [processMetadata_eq_none hparser hrest hmem hnone] at hnext
      cases hnext

theorem frameLists_append (elements more : List (List UInt8)) :
    frameLists xml uninit (elements ++ more) =
      frameLists xml uninit elements ++ frameLists xml uninit more := by
  rw [frameLists, List.filter_append, List.map_append]
  rfl

/-- After a packet the list is that of the last frame exactly when the packet shows it. -/
theorem current_concat_iff {past : List MetadataPacket} {packet : MetadataPacket}
    (hfits : Fits (past ++ [packet])) (hcurrent : Current xml uninit past) :
    Current xml uninit (past ++ [packet]) ↔
      Shows xml uninit ((processLoop xml uninit).run (some init) past) packet := by
  unfold Current
  rw [Machine.run_concat]
  cases hrun : (processLoop xml uninit).run (some init) past with
  | none =>
    exact ⟨fun _ => trivial, fun _ node hnode => absurd hnode (Option.some_ne_none node).symm⟩
  | some node =>
    have hparser := metaParser_run (fits_past hfits (List.prefix_append _ _)) hrun
    have hrest := metadataStream.elements_rest (stream past)
    have hnext : (processLoop xml uninit).next (some node) packet =
        node.processMetadata xml uninit packet := rfl
    by_cases hshown : ∀ e ∈ node.completedBy packet, shown xml uninit e ≠ none
    · have hfits' := hfits _ List.prefix_rfl
      have hnew : node.completedBy packet =
          (metadataStream.elements
            ((metadataStream.elements (stream past)).2 ++ packet.data)).1 := by
        rw [completedBy, hparser]
      rw [stream_concat, Delimiters.elements_append] at hfits' ⊢
      rw [hnext, processMetadata_eq hparser hrest hfits' hshown, Shows, ← hnew, frameLists_append,
        List.getLast?_append, ← getLast?_filter_eq_iff]
      have hgetD (l : Option (List DetectedObject)) :
          (l.or (frameLists xml uninit
            (metadataStream.elements (stream past)).1).getLast?).getD [] =
              l.getD node.g_hw_objects := by
        rw [hcurrent node hrun]
        cases l with
        | none => rfl
        | some l => rfl
      rw [hgetD]
      constructor
      · intro h _
        exact h _ rfl
      · rintro h after hafter
        cases hafter
        exact h hshown
    · have hall := hshown
      simp only [not_forall, ne_eq, not_not] at hshown
      obtain ⟨e, hmem, hnone⟩ := hshown
      rw [hnext, processMetadata_eq_none hparser hrest hmem hnone]
      exact ⟨fun _ h => absurd h hall,
        fun _ node hnode => absurd hnode (Option.some_ne_none node).symm⟩

/-- With a buffer that is never cleared, the list is that of the last frame after every packet if
and only if every packet whose last frame shows nobody shows nobody at all and finds the list
empty. -/
theorem objects_current_iff (xml : Tinyxml2) (uninit : XmlNode → Edges)
    (packets : List MetadataPacket) (hfits : Fits packets) :
    (∀ past, past <+: packets → Current xml uninit past) ↔
      (processLoop xml uninit).Along (Shows xml uninit) (some init) packets := by
  refine Machine.prefixes_iff_along_of (F := Fits) ?_ ?_ packets fun past => fits_past hfits
  · rintro node hnode
    cases hnode
    rw [stream, List.flatMap_nil, elements_nil]
    rfl
  · intro past packet hfits _ hcurrent
    exact current_concat_iff hfits hcurrent

theorem fits_of_whole {packets : List MetadataPacket}
    (h : ∀ packet ∈ packets, (metadataStream.elements packet.data).2 = []) : Fits packets := by
  have hrest : ∀ past, past <+: packets → (metadataStream.elements (stream past)).2 = [] := by
    intro past hpast
    induction past using List.reverseRecOn with
    | nil => rw [stream, List.flatMap_nil, elements_nil]
    | append_singleton past packet ih =>
      have hmem : packet ∈ packets := hpast.subset (List.mem_append_right _ List.mem_cons_self)
      rw [stream_concat, Delimiters.elements_append,
        ih ((List.prefix_append _ _).trans hpast), List.nil_append, h packet hmem]
  intro past hpast
  rw [hrest past hpast]
  exact Nat.zero_le _

@[irreducible] def personDocument : List UInt8 :=
  ("<tt:MetadataStream><tt:VideoAnalytics><tt:Frame><tt:Object ObjectId=\"1\"><tt:Appearance>" ++
    "<tt:Class><tt:Type>Human</tt:Type></tt:Class></tt:Appearance></tt:Object></tt:Frame>" ++
    "</tt:VideoAnalytics></tt:MetadataStream>").toUTF8.data.toList

@[irreducible] def emptyDocument : List UInt8 :=
  ("<tt:MetadataStream><tt:VideoAnalytics><tt:Frame/></tt:VideoAnalytics>" ++
    "</tt:MetadataStream>").toUTF8.data.toList

def frameTree (objects : List XmlNode) : XmlNode :=
  .element "tt:MetadataStream" [] [.element "tt:VideoAnalytics" [] [.element "tt:Frame" [] objects]]

def personNode : XmlNode :=
  .element "tt:Object" [("ObjectId", "1")] [.element "tt:Appearance" []
    [.element "tt:Class" [] [.element "tt:Type" [] [.text "Human"]]]]

def twoDocuments : Tinyxml2 where
  parse text :=
    if text = xmlDeclaration ++ personDocument then some (frameTree [personNode])
    else if text = xmlDeclaration ++ emptyDocument then some (frameTree [])
    else none
  toDouble _ := none

def origin (_ : XmlNode) : Edges := ⟨0, 0, 0, 0⟩

theorem elements_personDocument :
    metadataStream.elements personDocument = ([personDocument], []) := by
  have htake : metadataStream.takeElement personDocument = some (personDocument, []) := by
    decide +kernel
  rw [Delimiters.elements_of_some htake, elements_nil]

theorem elements_emptyDocument :
    metadataStream.elements emptyDocument = ([emptyDocument], []) := by
  have htake : metadataStream.takeElement emptyDocument = some (emptyDocument, []) := by
    decide +kernel
  rw [Delimiters.elements_of_some htake, elements_nil]

theorem parse_personDocument :
    twoDocuments.parse (xmlDeclaration ++ personDocument) = some (frameTree [personNode]) :=
  if_pos rfl

theorem parse_emptyDocument :
    twoDocuments.parse (xmlDeclaration ++ emptyDocument) = some (frameTree []) := by
  have hne : xmlDeclaration ++ emptyDocument ≠ xmlDeclaration ++ personDocument := by
    decide +kernel
  exact (if_neg hne).trans (if_pos rfl)

theorem shown_personDocument :
    shown twoDocuments origin personDocument = some [⟨0, 0, 0, 0, "Human", 1⟩] := by
  rw [shown, detections, parse_personDocument]
  rfl

theorem shown_emptyDocument : shown twoDocuments origin emptyDocument = some [] := by
  rw [shown, detections, parse_emptyDocument]
  rfl

theorem frameLists_personDocument :
    frameLists twoDocuments origin [personDocument] = [[⟨0, 0, 0, 0, "Human", 1⟩]] := by
  have hframe : hasFrame twoDocuments personDocument = true := by
    rw [hasFrame, parse_personDocument]
    rfl
  rw [frameLists, List.filter_cons_of_pos hframe, List.filter_nil, List.map_singleton, people,
    shown_personDocument, Option.getD_some]

theorem frameLists_emptyDocument : frameLists twoDocuments origin [emptyDocument] = [[]] := by
  have hframe : hasFrame twoDocuments emptyDocument = true := by
    rw [hasFrame, parse_emptyDocument]
    rfl
  rw [frameLists, List.filter_cons_of_pos hframe, List.filter_nil, List.map_singleton, people,
    shown_emptyDocument, Option.getD_some]

theorem objects_current_person :
    let packets : List MetadataPacket := [⟨personDocument, 0⟩]
    Fits packets ∧
      ((∀ past, past <+: packets → Current twoDocuments origin past) ↔
        (processLoop twoDocuments origin).Along (Shows twoDocuments origin) (some init)
          packets) := by
  intro packets
  have hfits : Fits packets := by
    refine fits_of_whole fun packet hpacket => ?_
    rw [List.mem_singleton.mp hpacket, elements_personDocument]
  exact ⟨hfits, objects_current_iff twoDocuments origin packets hfits⟩

/-- A frame with one person, and then one without: the list keeps the person. -/
theorem person_stays :
    ¬ ∀ (xml : Tinyxml2) (uninit : XmlNode → Edges) (packets : List MetadataPacket),
      Current xml uninit packets := by
  intro hall
  let first : MetadataPacket := ⟨personDocument, 0⟩
  let second : MetadataPacket := ⟨emptyDocument, 1⟩
  have hfits : Fits ([first] ++ [second]) := by
    refine fits_of_whole fun packet hpacket => ?_
    rcases List.mem_cons.mp hpacket with rfl | hsecond
    · rw [elements_personDocument]
    · rw [List.mem_singleton.mp hsecond, elements_emptyDocument]
  have hfirst : init.completedBy first = [personDocument] := by
    rw [completedBy]
    exact congrArg Prod.fst elements_personDocument
  have hshown : ∀ e ∈ init.completedBy first, shown twoDocuments origin e ≠ none := by
    rw [hfirst]
    intro e he
    rw [List.mem_singleton.mp he, shown_personDocument]
    exact Option.some_ne_none _
  have hrest : (metadataStream.elements ([] ++ first.data)).2 = [] :=
    congrArg Prod.snd elements_personDocument
  have hrun : (processLoop twoDocuments origin).run (some init) [first] =
      some ⟨.init, [⟨0, 0, 0, 0, "Human", 1⟩]⟩ := by
    have hnext := @processMetadata_eq _ _ init first [] rfl elements_nil
      (by rw [hrest]; exact Nat.zero_le _) hshown
    rw [hfirst, frameLists_personDocument, hrest] at hnext
    exact hnext
  have hsecond : completedBy ⟨.init, [⟨0, 0, 0, 0, "Human", 1⟩]⟩ second = [emptyDocument] := by
    rw [completedBy]
    exact congrArg Prod.fst elements_emptyDocument
  have hshows := (current_concat_iff hfits (hall twoDocuments origin [first])).mp
    (hall twoDocuments origin _)
  rw [hrun, Shows, hsecond, frameLists_emptyDocument] at hshows
  have hnobody : ∀ e ∈ [emptyDocument], shown twoDocuments origin e ≠ none := by
    intro e he
    rw [List.mem_singleton.mp he, shown_emptyDocument]
    exact Option.some_ne_none _
  exact absurd (hshows hnobody rfl).1 (List.cons_ne_nil _ _)

end HanwhaNode

end JeogiAt.Server
