import JeogiAt.ObjectBoxes

/-!
# Objects that are not well formed

`extractObj` skips an object without an id. An id that is no number ends the program, and a
coordinate that cannot be read keeps whatever was in its variable. So an object does no harm to the
others exactly when its id, if it has one, is a number, and the box of a person, if there is one,
has its four coordinates.
-/

namespace JeogiAt.Server

namespace XmlNode

def objects (root : XmlNode) : List XmlNode :=
  match frameOf root with
  | none => []
  | some frame => frame.childElements "tt:Object"

def isHuman (appearance : XmlNode) : Bool :=
  match (appearance.firstChildElement "tt:Class").bind (·.firstChildElement "tt:Type") with
  | none => false
  | some type => type.getText.getD "Unknown" = "Human"

def humanAppearance (obj : XmlNode) : Option XmlNode :=
  (obj.firstChildElement "tt:Appearance").filter isHuman

def boundingBox (appearance : XmlNode) : Option XmlNode :=
  (appearance.firstChildElement "tt:Shape").bind (·.firstChildElement "tt:BoundingBox")

end XmlNode

/-- A person with this id and box, if there is one. -/
def person (objectId : ℤ) (edges : Option Edges) : DetectedObject :=
  let objItem : DetectedObject := ⟨0, 0, 0, 0, "Human", objectId⟩
  match edges with
  | some e => objItem.setBox e
  | none => objItem

section

variable (xml : Tinyxml2)

def coordinate (bbox : XmlNode) (name : String) : Option ℚ :=
  (bbox.attributeValue name).bind xml.toDouble

def numericEdges (bbox : XmlNode) : Option Edges := do
  let left ← coordinate xml bbox "left"
  let top ← coordinate xml bbox "top"
  let right ← coordinate xml bbox "right"
  let bottom ← coordinate xml bbox "bottom"
  some ⟨left, top, right, bottom⟩

def wellFormed (obj : XmlNode) : Option DetectedObject := do
  let objectId ← (obj.attributeValue "ObjectId").bind stoi
  let appearance ← obj.humanAppearance
  match appearance.boundingBox with
  | none => some (person objectId none)
  | some bbox => (numericEdges xml bbox).map fun e => person objectId (some e)

/-- No exception, the same list whatever the coordinates held before, and every well-formed person
in it, in order. -/
def Contained (root : XmlNode) : Prop :=
  ∃ objItems, (∀ uninit, extractObj xml uninit root = some objItems) ∧
    (root.objects.filterMap (wellFormed xml)).Sublist objItems

/-- An id that is there is a number, and so are the coordinates of a person's box. -/
structure Orderly (obj : XmlNode) : Prop where
  objectId : ∀ id ∈ obj.attributeValue "ObjectId", stoi id ≠ none
  edges : obj.attributeValue "ObjectId" ≠ none → ∀ appearance ∈ obj.humanAppearance,
    ∀ bbox ∈ appearance.boundingBox, numericEdges xml bbox ≠ none

variable {xml} {uninit uninit' : XmlNode → Edges} {obj : XmlNode}

theorem extractObj_eq (root : XmlNode) :
    extractObj xml uninit root = detectObjects xml uninit root.objects := by
  unfold extractObj XmlNode.objects
  cases frameOf root with
  | none => rfl
  | some frame => rfl

theorem detectObject_skip (h : obj.attributeValue "ObjectId" = none) :
    detectObject xml uninit obj = some none := by
  rw [detectObject, h]

theorem detectObject_throw {id : String} (h : obj.attributeValue "ObjectId" = some id)
    (hid : stoi id = none) : detectObject xml uninit obj = none := by
  rw [detectObject, h]
  dsimp only
  rw [hid]
  rfl

/-- An object with a number for its id leaves a person or nothing. -/
theorem detectObject_number {id : String} {n : ℤ} (h : obj.attributeValue "ObjectId" = some id)
    (hid : stoi id = some n) :
    detectObject xml uninit obj = some (obj.humanAppearance.map fun appearance =>
      person n (appearance.boundingBox.map (queryEdges xml uninit))) := by
  rw [detectObject, h]
  dsimp only
  rw [hid, Option.bind_eq_bind, Option.bind_some, XmlNode.humanAppearance]
  cases obj.firstChildElement "tt:Appearance" with
  | none => rfl
  | some appearance =>
    dsimp only
    cases htype : (appearance.firstChildElement "tt:Class").bind
        (·.firstChildElement "tt:Type") with
    | none =>
      have hhuman : XmlNode.isHuman appearance = false := by rw [XmlNode.isHuman, htype]
      rw [Option.filter_some, hhuman, if_neg Bool.false_ne_true]
      rfl
    | some type =>
      have hhuman : XmlNode.isHuman appearance = (type.getText.getD "Unknown" = "Human") := by
        rw [XmlNode.isHuman, htype, decide_eq_true_eq]
      rw [Option.filter_some]
      dsimp only
      by_cases hname : type.getText.getD "Unknown" = "Human"
      · rw [if_pos hname, if_pos (hhuman ▸ hname), hname, Option.map_some, XmlNode.boundingBox]
        cases (appearance.firstChildElement "tt:Shape").bind
          (·.firstChildElement "tt:BoundingBox") with
        | none => rfl
        | some bbox => rfl
      · rw [if_neg hname, if_neg (hhuman ▸ hname)]
        rfl

theorem queryEdges_numeric {bbox : XmlNode} {e : Edges} (h : numericEdges xml bbox = some e) :
    queryEdges xml uninit bbox = e := by
  simp only [numericEdges, Option.bind_eq_bind, Option.bind_eq_some_iff] at h
  obtain ⟨left, hleft, top, htop, right, hright, bottom, hbottom, he⟩ := h
  cases he
  rw [coordinate] at hleft htop hright hbottom
  simp only [queryEdges, Tinyxml2.queryDoubleAttribute, hleft, htop, hright, hbottom,
    Option.getD_some]

theorem detectObject_orderly (h : Orderly xml obj) :
    detectObject xml uninit obj = some (wellFormed xml obj) := by
  rw [wellFormed]
  cases hattr : obj.attributeValue "ObjectId" with
  | none => rw [detectObject_skip hattr]; rfl
  | some id =>
    obtain ⟨n, hn⟩ := Option.ne_none_iff_exists'.mp (h.objectId id hattr)
    rw [detectObject_number hattr hn, Option.bind_some, hn, Option.bind_eq_bind, Option.bind_some]
    cases happearance : obj.humanAppearance with
    | none => rfl
    | some appearance =>
      rw [Option.map_some, Option.bind_eq_bind, Option.bind_some]
      cases hbox : appearance.boundingBox with
      | none => rfl
      | some bbox =>
        have hedges := h.edges (by rw [hattr]; exact Option.some_ne_none id) appearance happearance
          bbox hbox
        obtain ⟨e, he⟩ := Option.ne_none_iff_exists'.mp hedges
        dsimp only
        rw [Option.map_some, queryEdges_numeric he, he]
        rfl

theorem detectObjects_orderly {objs : List XmlNode} (h : ∀ obj ∈ objs, Orderly xml obj) :
    detectObjects xml uninit objs = some (objs.filterMap (wellFormed xml)) := by
  induction objs with
  | nil => rfl
  | cons obj objs ih =>
    obtain ⟨hobj, hobjs⟩ := List.forall_mem_cons.mp h
    rw [detectObjects, detectObject_orderly hobj, ih hobjs, List.filterMap_cons]
    cases wellFormed xml obj with
    | none => rfl
    | some objItem => rfl

theorem span_same (c : ℚ) : (span c c).2 = 0.02 := by
  have hzero : min |c - c| (1 - (span c c).1) ≤ 0 := by
    rw [sub_self, abs_zero]
    exact min_le_left _ _
  rw [span_snd, if_pos (lt_of_le_of_lt hzero (by norm_num))]

theorem span_far {a b : ℚ} (hbegin : min a b ≤ 0) (hlength : 1 ≤ |b - a|) :
    (span a b).2 = 1 := by
  have hfst : (span a b).1 = 0 := by
    rw [span_fst, max_eq_right hbegin, min_eq_left zero_le_one]
  rw [span_snd, hfst, sub_zero, min_eq_right hlength, if_neg (by norm_num)]

/-- Where one end of a span is left over, its length depends on what was there. -/
theorem span_loose (a b : Option ℚ) {k : ℚ} (hk : 0 < k) (h : a = none ∨ b = none) :
    ∃ u u' : ℚ × ℚ, (span (a.getD u.1 / k) (b.getD u.2 / k)).2 ≠
      (span (a.getD u'.1 / k) (b.getD u'.2 / k)).2 := by
  have hscale (q : ℚ) : k * q / k = q := mul_div_cancel_left₀ q hk.ne'
  -- an end at `d` beside one at the same place, or beside one far to the left
  have habs (d : ℚ) : -|d| - 1 ≤ 0 ∧ 1 ≤ d - (-|d| - 1) := by
    have := neg_abs_le d
    have := abs_nonneg d
    constructor <;> linarith
  have hdiffer : (0.02 : ℚ) ≠ 1 := by norm_num
  rcases h with rfl | rfl
  · refine ⟨(b.getD 0, 0), (k * (-|b.getD 0 / k| - 1), 0), ?_⟩
    obtain ⟨hbegin, hlength⟩ := habs (b.getD 0 / k)
    rw [Option.getD_none, Option.getD_none, span_same, hscale,
      span_far (min_le_of_left_le hbegin) (hlength.trans (le_abs_self _))]
    exact hdiffer
  · refine ⟨(0, a.getD 0), (0, k * (-|a.getD 0 / k| - 1)), ?_⟩
    obtain ⟨hbegin, hlength⟩ := habs (a.getD 0 / k)
    rw [Option.getD_none, Option.getD_none, span_same, hscale,
      span_far (min_le_of_right_le hbegin) (by
        rw [abs_sub_comm]
        exact hlength.trans (le_abs_self _))]
    exact hdiffer

theorem numericEdges_none {bbox : XmlNode} (h : numericEdges xml bbox = none) :
    (coordinate xml bbox "left" = none ∨ coordinate xml bbox "right" = none) ∨
      (coordinate xml bbox "top" = none ∨ coordinate xml bbox "bottom" = none) := by
  rw [numericEdges] at h
  cases hleft : coordinate xml bbox "left" with
  | none => exact .inl (.inl rfl)
  | some left =>
    cases hright : coordinate xml bbox "right" with
    | none => exact .inl (.inr rfl)
    | some right =>
      cases htop : coordinate xml bbox "top" with
      | none => exact .inr (.inl rfl)
      | some top =>
        cases hbottom : coordinate xml bbox "bottom" with
        | none => exact .inr (.inr rfl)
        | some bottom =>
          rw [hleft, htop, hright, hbottom] at h
          exact absurd h (Option.some_ne_none _)

/-- A box with a coordinate missing makes of the person whatever was in the variables. -/
theorem person_loose {bbox : XmlNode} (h : numericEdges xml bbox = none) (n : ℤ) :
    ∃ uninit uninit' : XmlNode → Edges,
      person n (some (queryEdges xml uninit bbox)) ≠
        person n (some (queryEdges xml uninit' bbox)) := by
  rcases numericEdges_none h with hloose | hloose
  · obtain ⟨u, u', hu⟩ := span_loose _ _ (show (0 : ℚ) < 3840 by norm_num) hloose
    refine ⟨fun _ => ⟨u.1, 0, u.2, 0⟩, fun _ => ⟨u'.1, 0, u'.2, 0⟩, fun heq => hu ?_⟩
    rw [person, person] at heq
    rw [setBox_eq, setBox_eq] at heq
    exact congrArg DetectedObject.w heq
  · obtain ⟨u, u', hu⟩ := span_loose _ _ (show (0 : ℚ) < 2160 by norm_num) hloose
    refine ⟨fun _ => ⟨0, u.1, 0, u.2⟩, fun _ => ⟨0, u'.1, 0, u'.2⟩, fun heq => hu ?_⟩
    rw [person, person] at heq
    rw [setBox_eq, setBox_eq] at heq
    exact congrArg DetectedObject.h heq

theorem orderly_of_same (hsome : ∀ uninit, detectObject xml uninit obj ≠ none)
    (hsame : ∀ uninit uninit', detectObject xml uninit obj = detectObject xml uninit' obj) :
    Orderly xml obj := by
  have hid (id : String) (hattr : obj.attributeValue "ObjectId" = some id) : stoi id ≠ none :=
    fun hthrow => hsome (fun _ => ⟨0, 0, 0, 0⟩) (detectObject_throw hattr hthrow)
  refine ⟨hid, fun hattr appearance happearance bbox hbox hedges => ?_⟩
  obtain ⟨id, hattr⟩ := Option.ne_none_iff_exists'.mp hattr
  obtain ⟨n, hn⟩ := Option.ne_none_iff_exists'.mp (hid id hattr)
  obtain ⟨uninit, uninit', hdiffer⟩ := person_loose hedges n
  have h := hsame uninit uninit'
  rw [detectObject_number hattr hn, detectObject_number hattr hn,
    Option.mem_def.mp happearance, Option.map_some, Option.map_some,
    Option.mem_def.mp hbox, Option.map_some, Option.map_some] at h
  exact hdiffer (Option.some.inj (Option.some.inj h))

theorem detectObject_isSome (uninit uninit' : XmlNode → Edges) (obj : XmlNode) :
    (detectObject xml uninit obj).map Option.isSome =
      (detectObject xml uninit' obj).map Option.isSome := by
  cases hattr : obj.attributeValue "ObjectId" with
  | none => rw [detectObject_skip hattr, detectObject_skip hattr]
  | some id =>
    cases hid : stoi id with
    | none => rw [detectObject_throw hattr hid, detectObject_throw hattr hid]
    | some n =>
      rw [detectObject_number hattr hid, detectObject_number hattr hid, Option.map_some,
        Option.map_some, Option.isSome_map, Option.isSome_map]

theorem detectObjects_cons {objs : List XmlNode} {objItems : List DetectedObject}
    (h : detectObjects xml uninit (obj :: objs) = some objItems) :
    ∃ objItem rest, detectObject xml uninit obj = some objItem ∧
      detectObjects xml uninit objs = some rest ∧ objItems = objItem.toList ++ rest := by
  rw [detectObjects] at h
  simp only [Option.bind_eq_bind, Option.bind_eq_some_iff, Option.pure_def] at h
  obtain ⟨objItem, hobj, rest, hrest, heq⟩ := h
  exact ⟨objItem, rest, hobj, hrest, (Option.some.inj heq).symm⟩

/-- Two runs of the loop with one result agree at every object, and neither throws there. -/
theorem detectObjects_same {objs : List XmlNode} {objItems : List DetectedObject}
    (h : detectObjects xml uninit objs = some objItems)
    (h' : detectObjects xml uninit' objs = some objItems) :
    ∀ obj ∈ objs, detectObject xml uninit obj ≠ none ∧
      detectObject xml uninit obj = detectObject xml uninit' obj := by
  induction objs generalizing objItems with
  | nil => exact fun _ hmem => absurd hmem List.not_mem_nil
  | cons obj objs ih =>
    obtain ⟨objItem, rest, hobj, hrest, heq⟩ := detectObjects_cons h
    obtain ⟨objItem', rest', hobj', hrest', heq'⟩ := detectObjects_cons h'
    have hsome := @detectObject_isSome xml uninit uninit' obj
    rw [hobj, hobj', Option.map_some, Option.map_some, Option.some_inj] at hsome
    have hlength : objItem.toList.length = objItem'.toList.length := by
      rw [Option.length_toList, Option.length_toList, hsome]
    obtain ⟨hitem, hrests⟩ := List.append_inj (heq.symm.trans heq') hlength
    subst hrests
    have hsame : objItem = objItem' := by
      rw [← Option.head?_toList (o := objItem), hitem, Option.head?_toList]
    rw [List.forall_mem_cons, hobj, hobj', hsame]
    exact ⟨⟨Option.some_ne_none _, rfl⟩, ih hrest hrest'⟩

/-- The objects do no harm to each other exactly when each of them is orderly. -/
theorem contained_iff (xml : Tinyxml2) (root : XmlNode) :
    Contained xml root ↔ ∀ obj ∈ root.objects, Orderly xml obj := by
  constructor
  · rintro ⟨objItems, hall, -⟩ obj hobj
    have hrun (uninit) : detectObjects xml uninit root.objects = some objItems := by
      rw [← extractObj_eq, hall]
    have hsame (uninit uninit') := detectObjects_same (hrun uninit) (hrun uninit') obj hobj
    exact orderly_of_same (fun uninit => (hsame uninit uninit).1)
      (fun uninit uninit' => (hsame uninit uninit').2)
  · intro horderly
    refine ⟨root.objects.filterMap (wellFormed xml), fun uninit => ?_, List.Sublist.refl _⟩
    rw [extractObj_eq, detectObjects_orderly horderly]

def badId : XmlNode :=
  .element "tt:MetadataStream" [] [.element "tt:VideoAnalytics" []
    [.element "tt:Frame" [] [.element "tt:Object" [("ObjectId", "abc")] []]]]

/-- The id that is no number is an exception. -/
theorem badId_throws : ¬ ∀ (xml : Tinyxml2) (root : XmlNode), Contained xml root := by
  intro hall
  obtain ⟨objItems, hsome, -⟩ := hall ⟨fun _ => none, fun _ => none⟩ badId
  have hthrow : extractObj ⟨fun _ => none, fun _ => none⟩ (fun _ => ⟨0, 0, 0, 0⟩) badId = none :=
    rfl
  exact Option.some_ne_none _ ((hsome _).symm.trans hthrow)

end

end JeogiAt.Server
