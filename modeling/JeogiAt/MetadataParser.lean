import JeogiAt.CongestionAnalyzer
import JeogiAt.Library.Elements
import Mathlib.Algebra.Order.Group.Abs

/-!
# Metadata of the Hanwha camera

`MetadataParser` collects the data of metadata packets in `xml_buffer`, cuts out every complete
`MetadataStream` element, and keeps of each element the people in its frame. An element without
people leaves no result.

`Tinyxml2` is what the parser uses of that library: the tree of a document that parses, and the
conversion of an attribute to a `double`. `uninit` is what the four coordinates hold before the
attributes of a bounding box are queried. An exception of `std::stoi` is `none`.
-/

namespace JeogiAt.Server

inductive XmlNode
  | element (name : String) (attributes : List (String × String)) (children : List XmlNode)
  | text (value : String)
  | comment
  | other

namespace XmlNode

def children : XmlNode → List XmlNode
  | element _ _ children => children
  | _ => []

def isElement (name : String) : XmlNode → Bool
  | element name' _ _ => name' = name
  | _ => false

def attributeValue (name : String) : XmlNode → Option String
  | element _ attributes _ => attributes.lookup name
  | _ => none

def firstChildElement (name : String) (node : XmlNode) : Option XmlNode :=
  node.children.find? (isElement name)

/-- What `FirstChildElement` and then `NextSiblingElement` go through. -/
def childElements (name : String) (node : XmlNode) : List XmlNode :=
  node.children.filter (isElement name)

def getText (node : XmlNode) : Option String :=
  match node.children.dropWhile fun child => child matches comment with
  | text value :: _ => some value
  | _ => none

end XmlNode

structure Tinyxml2 where
  parse : List UInt8 → Option XmlNode
  toDouble : String → Option ℚ

/-- The value of the attribute; where it is missing or no number, the variable stays as it is. -/
def Tinyxml2.queryDoubleAttribute (xml : Tinyxml2) (name : String) (value : ℚ) (node : XmlNode) :
    ℚ := ((node.attributeValue name).bind xml.toDouble).getD value

def isSpace (c : Char) : Bool := [' ', '\t', '\n', '\x0b', '\x0c', '\r'].contains c

def stoiDigits (body : List Char) : List Char :=
  match body with
  | [] => []
  | c :: rest => (if c = '-' ∨ c = '+' then rest else c :: rest).takeWhile Char.isDigit

/-- `std::stoi`: blanks, a sign and decimal digits, in the range of `int`. -/
def stoi (s : String) : Option ℤ :=
  let body := s.toList.dropWhile isSpace
  let digits := stoiDigits body
  let magnitude : ℤ := digits.foldl (fun n c => 10 * n + (c.toNat - 48)) 0
  let value := if body.head? = some '-' then -magnitude else magnitude
  if digits ≠ [] ∧ -2147483648 ≤ value ∧ value ≤ 2147483647 then some value else none

structure Edges where
  left : ℚ
  top : ℚ
  right : ℚ
  bottom : ℚ

/-- The edges in pixels as a box in parts of the picture. -/
def DetectedObject.setBox (e : Edges) (objItem : DetectedObject) : DetectedObject :=
  let n_l := e.left / 3840
  let n_r := e.right / 3840
  let n_t := e.top / 2160
  let n_b := e.bottom / 2160
  let x := if n_l < n_r then n_l else n_r
  let y := if n_t < n_b then n_t else n_b
  let w := |n_r - n_l|
  let h := |n_b - n_t|
  let x := if x < 0 then 0 else x
  let y := if y < 0 then 0 else y
  let x := if 1 < x then 1 else x
  let y := if 1 < y then 1 else y
  let w := if 1 < x + w then 1 - x else w
  let h := if 1 < y + h then 1 - y else h
  let w := if w < 0.001 then 0.02 else w
  let h := if h < 0.001 then 0.02 else h
  { objItem with x, y, w, h }

structure MetadataResult where
  pts : Int64
  objects : List DetectedObject

structure MetadataPacket where
  data : List UInt8
  pts : Int64

structure MetadataParser where
  xml_buffer : List UInt8
  completed_streams : List (List UInt8 × Int64)
  results : List MetadataResult

/-- A `MetadataStream` element runs from its start tag to its end tag. -/
def metadataStream : Delimiters UInt8 where
  start := "<tt:MetadataStream".toUTF8.data.toList
  stop := "</tt:MetadataStream>".toUTF8.data.toList
  stop_ne := by decide +kernel

theorem elements_nil : metadataStream.elements [] = ([], []) :=
  Delimiters.elements_of_none (by decide +kernel)

def xmlDeclaration : List UInt8 := "<?xml version=\"1.0\" encoding=\"UTF-8\"?>".toUTF8.data.toList

def maxBufferSize : ℕ := 512 * 1024

def frameOf (root : XmlNode) : Option XmlNode :=
  (root.firstChildElement "tt:VideoAnalytics").bind (·.firstChildElement "tt:Frame")

section

variable (xml : Tinyxml2) (uninit : XmlNode → Edges)

def queryEdges (bbox : XmlNode) : Edges where
  left := xml.queryDoubleAttribute "left" (uninit bbox).left bbox
  top := xml.queryDoubleAttribute "top" (uninit bbox).top bbox
  right := xml.queryDoubleAttribute "right" (uninit bbox).right bbox
  bottom := xml.queryDoubleAttribute "bottom" (uninit bbox).bottom bbox

def detectObject (obj : XmlNode) : Option (Option DetectedObject) :=
  match obj.attributeValue "ObjectId" with
  | none => some none
  | some objectId => do
      let objectId ← stoi objectId
      match obj.firstChildElement "tt:Appearance" with
      | none => return none
      | some appearance =>
          let objItem : DetectedObject := ⟨0, 0, 0, 0, "", objectId⟩
          let bbox := (appearance.firstChildElement "tt:Shape").bind
            (·.firstChildElement "tt:BoundingBox")
          let objItem := match bbox with
            | some bbox => objItem.setBox (queryEdges xml uninit bbox)
            | none => objItem
          match (appearance.firstChildElement "tt:Class").bind (·.firstChildElement "tt:Type") with
          | none => return none
          | some type =>
              let typeName := type.getText.getD "Unknown"
              return if typeName = "Human" then some { objItem with typeName } else none

/-- The loop over the objects. -/
def detectObjects : List XmlNode → Option (List DetectedObject)
  | [] => some []
  | obj :: objs => do
      let objItem ← detectObject xml uninit obj
      let objItems ← detectObjects objs
      return objItem.toList ++ objItems

def extractObj (root : XmlNode) : Option (List DetectedObject) :=
  match frameOf root with
  | none => some []
  | some frame => detectObjects xml uninit (frame.childElements "tt:Object")

/-- `Parse` and then `processXmlDoc`. -/
def detections (text : List UInt8) : Option (List DetectedObject) :=
  match xml.parse text with
  | none => some []
  | some root => extractObj xml uninit root

def processCompletedStreams : List (List UInt8 × Int64) → Option (List MetadataResult)
  | [] => some []
  | (text, pts) :: streams => do
      let objects ← detections xml uninit text
      let results ← processCompletedStreams streams
      return if objects = [] then results else ⟨pts, objects⟩ :: results

namespace MetadataParser

def init : MetadataParser := ⟨[], [], []⟩

def cleanupBuffer (parser : MetadataParser) : MetadataParser :=
  if maxBufferSize < parser.xml_buffer.length then { parser with xml_buffer := [] } else parser

/-- The element with the XML declaration, and the time stamp of the packet that completes it. -/
def stamp (pts : Int64) (complete_element : List UInt8) : List UInt8 × Int64 :=
  (xmlDeclaration ++ complete_element, pts)

/-- The loop of `processBuffer`, which moves every complete element to `completed_streams`. -/
def moveElements (pts : Int64) (parser : MetadataParser) : MetadataParser :=
  let cut := metadataStream.elements parser.xml_buffer
  { parser with
    xml_buffer := cut.2
    completed_streams := parser.completed_streams ++ cut.1.map (stamp pts) }

def processBuffer (pts : Int64) (parser : MetadataParser) : Option MetadataParser :=
  let parser := parser.moveElements pts
  (processCompletedStreams xml uninit parser.completed_streams).map fun results =>
    cleanupBuffer { parser with completed_streams := [], results := parser.results ++ results }

def processPacket (packet : MetadataPacket) (parser : MetadataParser) : Option MetadataParser :=
  if packet.data = [] then some parser
  else
    processBuffer xml uninit packet.pts
      { parser with xml_buffer := parser.xml_buffer ++ packet.data }

def getCompletedResults (parser : MetadataParser) : List MetadataResult × MetadataParser :=
  (parser.results, { parser with results := [] })

end MetadataParser

def hasFrame (element : List UInt8) : Bool :=
  ((xml.parse (xmlDeclaration ++ element)).bind frameOf).isSome

def shown (element : List UInt8) : Option (List DetectedObject) :=
  detections xml uninit (xmlDeclaration ++ element)

def people (element : List UInt8) : List DetectedObject := (shown xml uninit element).getD []

variable {xml uninit}

theorem people_of_not_hasFrame {element : List UInt8} (h : hasFrame xml element = false) :
    people xml uninit element = [] := by
  unfold hasFrame at h
  unfold people shown detections
  cases hparse : xml.parse (xmlDeclaration ++ element) with
  | none => rfl
  | some root =>
    rw [hparse, Option.bind_some, Option.isSome_eq_false_iff, Option.isNone_iff_eq_none] at h
    dsimp only
    rw [extractObj, h]
    rfl

theorem processCompletedStreams_map (pts : Int64) {elements : List (List UInt8)}
    (h : ∀ e ∈ elements, shown xml uninit e ≠ none) :
    processCompletedStreams xml uninit (elements.map (MetadataParser.stamp pts)) =
      some (((elements.map (people xml uninit)).filter (· ≠ [])).map (MetadataResult.mk pts)) := by
  induction elements with
  | nil => rfl
  | cons e elements ih =>
    obtain ⟨he, hrest⟩ := List.forall_mem_cons.mp h
    obtain ⟨objects, hshown⟩ := Option.ne_none_iff_exists'.mp he
    have hpeople : people xml uninit e = objects := by rw [people, hshown, Option.getD_some]
    rw [List.map_cons, MetadataParser.stamp, processCompletedStreams, ih hrest, List.map_cons,
      hpeople]
    rw [shown] at hshown
    rw [hshown]
    by_cases hobjects : objects = []
    · rw [List.filter_cons_of_neg (by simpa using hobjects)]
      simp only [Option.bind_eq_bind, Option.bind_some, if_pos hobjects, Option.pure_def]
    · rw [List.filter_cons_of_pos (by simpa using hobjects), List.map_cons]
      simp only [Option.bind_eq_bind, Option.bind_some, if_neg hobjects, Option.pure_def]

theorem processCompletedStreams_eq_none (pts : Int64) {elements : List (List UInt8)}
    {e : List UInt8} (hmem : e ∈ elements) (hshown : shown xml uninit e = none) :
    processCompletedStreams xml uninit (elements.map (MetadataParser.stamp pts)) = none := by
  induction elements with
  | nil => exact absurd hmem List.not_mem_nil
  | cons e' elements ih =>
    rw [List.map_cons, MetadataParser.stamp, processCompletedStreams]
    rcases List.mem_cons.mp hmem with rfl | hrest
    · rw [shown] at hshown
      rw [hshown]
      rfl
    · rw [ih hrest]
      cases detections xml uninit (xmlDeclaration ++ e') with
      | none => rfl
      | some objects => rfl

theorem filter_people_hasFrame (elements : List (List UInt8)) :
    ((elements.filter (hasFrame xml)).map (people xml uninit)).filter (· ≠ []) =
      (elements.map (people xml uninit)).filter (· ≠ []) := by
  rw [List.filter_map, List.filter_map, List.filter_filter]
  congr 1
  refine List.filter_congr fun e _ => ?_
  cases hframe : hasFrame xml e with
  | false =>
    rw [Bool.and_false, Function.comp_apply, people_of_not_hasFrame hframe]
    rfl
  | true => rw [Bool.and_true]

end

end JeogiAt.Server
