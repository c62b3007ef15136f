import SearchQuery.Proofs.Element.Leaves
import SearchQuery.Proofs.Term.Decomposition

/-!
# Elements of flat fragments

Whatever the catalog, the names in a fragment can be told, and the element of a
flat fragment has legible addresses: its names are made of the characters of their
class, and a technical label takes nothing from the fragment that the fragment
itself may not contain.
-/

namespace SearchQuery

namespace Split

theorem name_of_named? {isName : Char -> Bool} {text : List Char} {s : Split}
    (h : named? isName text = some s) :
    s.name ≠ [] ∧ forall c, c ∈ s.name -> isName c = true := by
  rcases parts_of_named? h with ⟨_, hne, hname, _⟩
  exact ⟨hne, hname⟩

theorem name_prefix_of_named? {isName : Char -> Bool} {text : List Char}
    {s : Split} (h : named? isName text = some s) : s.name <+: text := by
  rw [(parts_of_named? h).1]
  exact List.prefix_append _ _

theorem name_of_labelled? {text : List Char} {s : Split}
    (h : labelled? text = some s) :
    s.name ≠ [] ∧ exists rest, text = s.name ++ ']' :: rest := by
  rcases parts_of_labelled? h with ⟨htext, hne, _⟩
  exact ⟨hne, _, htext⟩

end Split

namespace Address

theorem legible_ofPath {catalog : Catalog} {name : List Char} {a : Address}
    (hname : forall c, c ∈ name -> Split.isPath c = true)
    (h : ofPath catalog name = .ok a) : a.Legible := by
  have hindex : forall index, name.takeWhile (· ≠ '.') = index ->
      index ≠ [] -> forall subfield,
        (statement (String.ofList index) subfield).Legible := by
    intro index heq hne subfield
    rcases heq with rfl
    constructor
    · rw [String.toList_ofList]
      exact hne
    · intro c hc
      rw [String.toList_ofList] at hc
      have hdot := List.all_eq_true.mp List.all_takeWhile c hc
      refine ⟨?_, by simpa using hdot⟩
      exact hname c ((List.takeWhile_sublist _).subset hc)
  unfold ofPath at h
  split at h
  · cases h
  next hne =>
    split at h
    · cases h
      exact hindex _ rfl hne _
    · split at h
      · cases h
        exact hindex _ rfl hne _
      · cases h

theorem legible_ofCollectionLabel {name : List Char} (hne : name ≠ [])
    (hname : forall c, c ∈ name -> Split.isPath c = true) :
    (ofCollectionLabel name).Legible := by
  constructor
  · rw [String.toList_ofList]
    intro hnil
    exact hne (List.map_eq_nil_iff.mp hnil)
  · intro c hc
    rw [String.toList_ofList] at hc
    rcases List.mem_map.mp hc with ⟨d, hd, rfl⟩
    by_cases hscore : d = '_'
    · rw [if_pos hscore]
      exact Or.inr rfl
    · rw [if_neg hscore]
      exact Or.inl ⟨hname d hd, hscore⟩

theorem named_of_ofText? {catalog : Catalog} {text : List Char}
    {shape : Shape} {s : Split} {a : Address}
    (htext : Shape.ofText? text = some (shape, s))
    (h : ofName catalog s.name shape = .ok a) : a.Named := by
  rcases Shape.split?_eq_some_iff.mp (Shape.split?_of_ofText? htext) with
    ⟨rest, _, hsplit⟩
  cases shape with
  | statement =>
      rcases Split.name_of_named? hsplit with ⟨_, hname⟩
      exact (legible_ofPath hname h).named
  | collection =>
      rcases Split.name_of_named? hsplit with ⟨hne, hname⟩
      cases h
      exact (legible_ofCollectionLabel hne hname).named
  | technical =>
      rcases Split.name_of_labelled? hsplit with ⟨hne, _⟩
      cases h
      rwa [Named, String.toList_ofList]
  | field =>
      simp only [ofName] at h
      split at h
      · cases h
        trivial
      · cases h

theorem legible_technical {label : String} {text rest : List Char}
    (h : (technical label).Named)
    (htext : text = Shape.technical.lead ++ (label.toList ++ ']' :: rest))
    (hflat : Flat text) : (technical label).Legible := by
  have hbrackets := hflat.brackets
  rw [htext] at hbrackets
  have hlabel := (Text.brackets_append_eq_nil_iff.mp hbrackets).2
  refine ⟨h, (Text.brackets_append_eq_nil_iff.mp hlabel).1, ?_⟩
  apply hflat.stop.of_infix
  rw [htext]
  exact ⟨Shape.technical.lead, ']' :: rest, by simp⟩

theorem legible_of_ofText? {catalog : Catalog} {text : List Char}
    {shape : Shape} {s : Split} {a : Address}
    (htext : Shape.ofText? text = some (shape, s)) (hflat : Flat text)
    (h : ofName catalog s.name shape = .ok a) : a.Legible := by
  have hnamed := named_of_ofText? htext h
  rcases eq_technical_or a with ⟨label, rfl⟩ | hne
  · rcases shape_of_ofName h with ⟨rfl, hname⟩
    rcases Shape.split?_eq_some_iff.mp (Shape.split?_of_ofText? htext) with
      ⟨rest, hrest, hsplit⟩
    rcases Split.name_of_labelled? hsplit with ⟨_, rest', hrest'⟩
    rw [hrest', hname rfl] at hrest
    exact legible_technical hnamed hrest hflat
  · exact hnamed.legible hne

end Address

namespace Element

theorem full_freeText {P : Term -> Prop} {fallback negated : Bool}
    {text : String}
    (h : forall f n, P { address := .field f, value := text, negated := n }) :
    (freeText fallback text negated).Full P := by
  unfold freeText
  split
  · apply Full.group (by simp)
    intro e he
    simp only [Chain.elements, List.map_cons, List.map_nil, List.mem_cons,
      List.not_mem_nil, or_false] at he
    rcases he with rfl | rfl
    · exact Full.term (h .all false)
    · exact Full.term (h .fulltext false)
  · exact Full.term (h .all negated)

end Element

namespace Fragment

variable {settings : Settings} {text : List Char} {negated : Bool}
  {e : Element}

/-- The element of a flat fragment has legible addresses and no empty groups. -/
theorem full_of_read (hflat : Flat text)
    (h : read settings text negated = .ok e) :
    e.Full (fun t => t.address.Legible) := by
  rcases element_cases (read_eq_ok_iff.mp h) with
    ⟨shape, s, address, htext, haddress, rfl⟩ | ⟨_, rfl⟩
  · exact Element.Full.term (Address.legible_of_ofText? htext hflat haddress)
  · apply Element.full_freeText
    intro f n
    trivial

theorem leaves_ne_nil_of_read (h : read settings text negated = .ok e) :
    e.leaves ≠ [] := by
  have hfull : e.Full (fun _ => True) := by
    rcases element_cases (read_eq_ok_iff.mp h) with
      ⟨shape, s, address, htext, haddress, rfl⟩ | ⟨_, rfl⟩
    · exact Element.Full.term trivial
    · apply Element.full_freeText
      intro f n
      trivial
  exact hfull.leaves_ne_nil

end Fragment

end SearchQuery
