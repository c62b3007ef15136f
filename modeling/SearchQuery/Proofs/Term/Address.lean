import SearchQuery.Fragment
import SearchQuery.Proofs.Term.Legible

/-!
# Names of addresses

An address with a name that can be told is what its name stands for in a term of
its shape, and no term of another shape names it.
-/

namespace SearchQuery

namespace Address

def shape : Address -> Shape
  | field _ => .field
  | statement _ _ => .statement
  | collection _ => .collection
  | technical _ => .technical

def name : Address -> List Char
  | field f => f.word.toList
  | statement index subfield => path index subfield
  | collection label => collectionPath label
  | technical label => label.toList

theorem takeWhile_ne_dot {segment : List Char}
    (h : forall c, c ∈ segment -> c ≠ '.') (rest : List Char)
    (hrest : forall c, rest.head? = some c -> c = '.') :
    (segment ++ rest).takeWhile (· ≠ '.') = segment ∧
      (segment ++ rest).dropWhile (· ≠ '.') = rest := by
  have hall : forall c, c ∈ segment -> decide (c ≠ '.') = true := by
    intro c hc
    simpa using h c hc
  rw [List.takeWhile_append_of_pos hall, List.dropWhile_append_of_pos hall]
  cases rest with
  | nil => simp
  | cons c rest => simp [hrest c rfl]

theorem ofPath_path {index : String} {subfield : Option Subfield}
    (h : (statement index subfield).Legible) :
    ofPath .standard (path index subfield) =
      .ok (statement index subfield) := by
  have hindex : forall c, c ∈ index.toList -> c ≠ '.' := by
    intro c hc
    exact (h.2 c hc).2
  have hne := h.1
  cases subfield with
  | none =>
      rcases takeWhile_ne_dot hindex [] (by simp) with ⟨htake, hdrop⟩
      unfold ofPath path
      rw [htake, hdrop]
      cases hchars : index.toList with
      | nil => exact absurd hchars hne
      | cons c rest => simp [← hchars]
  | some f =>
      have hword : forall c, c ∈ f.word.toList -> c ≠ '.' := by
        intro c hc
        exact (isName_of_mem_subword hc).2
      rcases takeWhile_ne_dot hindex ('.' :: f.word.toList) (by simp) with
        ⟨htake, hdrop⟩
      rcases takeWhile_ne_dot hword [] (by simp) with ⟨htake', _⟩
      rw [List.append_nil] at htake'
      unfold ofPath path
      rw [htake, hdrop, List.drop_one, List.tail_cons, htake']
      have hsub : Catalog.standard.subfield? f.word = some f :=
        Subfield.ofWord?_word f
      have hwordne : f.word.toList ≠ [] := by
        cases f <;> decide
      cases hchars : index.toList with
      | nil => exact absurd hchars hne
      | cons c rest =>
          cases hsubchars : f.word.toList with
          | nil => exact absurd hsubchars hwordne
          | cons d tail =>
              rw [← hsubchars, ← hchars]
              simp only [String.ofList_toList, hsub]

theorem ofCollectionLabel_collectionPath {label : String}
    (h : (collection label).Legible) :
    ofCollectionLabel (collectionPath label) = collection label := by
  have hmap : (collectionPath label).map
      (fun c => if c = '_' then ' ' else c) = label.toList := by
    rw [collectionPath, List.map_map]
    have hid : forall c, c ∈ label.toList ->
        ((fun c => if c = '_' then ' ' else c) ∘
          (fun c => if c = ' ' then '_' else c)) c = id c := by
      intro c hc
      rcases h.2 c hc with ⟨_, hne⟩ | rfl
      · by_cases hspace : c = ' '
        · simp [hspace]
        · simp [hspace, hne]
      · rfl
    rw [List.map_congr_left hid, List.map_id]
  rw [ofCollectionLabel, hmap, String.ofList_toList]

/-- The name of an address stands for it. -/
theorem ofName_name {a : Address} (h : a.Named) :
    ofName .standard a.name a.shape = .ok a := by
  cases a with
  | field f =>
      have hf : Catalog.standard.field? (String.ofList f.word.toList) =
          some f := by
        rw [String.ofList_toList]
        exact Field.ofWord?_word f
      simp only [ofName, name, shape, hf]
  | statement index subfield => exact ofPath_path h
  | collection label =>
      exact congrArg Except.ok (ofCollectionLabel_collectionPath h)
  | technical label =>
      simp only [ofName, name, shape, String.ofList_toList]

theorem shape_of_ofName {catalog : Catalog} {name : List Char}
    {shape : Shape} {a : Address} (h : ofName catalog name shape = .ok a) :
    shape = a.shape ∧ (a.shape = .technical -> name = a.name) := by
  cases shape with
  | statement =>
      simp only [ofName, ofPath] at h
      split at h
      · cases h
      split at h
      · cases h
        exact ⟨rfl, by intro hs; cases hs⟩
      split at h
      · cases h
        exact ⟨rfl, by intro hs; cases hs⟩
      · cases h
  | collection =>
      cases h
      exact ⟨rfl, by intro hs; cases hs⟩
  | technical =>
      cases h
      exact ⟨rfl, fun _ => String.toList_ofList.symm⟩
  | field =>
      simp only [ofName] at h
      split at h
      · cases h
        exact ⟨rfl, by intro hs; cases hs⟩
      · cases h

end Address

end SearchQuery
