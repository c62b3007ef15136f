import SearchQuery.Element.Text
import SearchQuery.Parse
import SearchQuery.Proofs.Text.Form

/-!
# Queries in URLs

Form encoding is transparent: a query that went through a URL is parsed as its text
is, with the same tree or the same error.  This needs nothing of the encoder and of
the decoder but their laws, and it holds for every form encoding of a text, not only
for the one that is written.
-/

namespace SearchQuery
namespace Query

section Transport

variable {encode : List UInt8 -> List Char}
  {decode? : List Char -> Option (List Char)}

theorem parseFormWith_of_percentCodes (hdecode : Text.IsPercentDecoder decode?)
    (settings : Settings) {text encoded : String}
    (h : Text.PercentCodes (encoded.toList.map Text.plusToSpace)
      (Text.utf8 text.toList)) :
    parseFormWith decode? settings encoded = parse settings text := by
  have hdecoded : decode? (encoded.toList.map Text.plusToSpace) =
      some text.toList :=
    (hdecode _ _ h).trans (Text.ofUtf8?_utf8 text.toList)
  rw [parseFormWith, hdecoded]
  exact congrArg (parse settings) String.ofList_toList

theorem parseFormWith_of_formEncodes (hdecode : Text.IsPercentDecoder decode?)
    (settings : Settings) {text encoded : String}
    (h : Text.FormEncodes text.toList encoded.toList) :
    parseFormWith decode? settings encoded = parse settings text :=
  parseFormWith_of_percentCodes hdecode settings h.percentCodes

theorem parseFormWith_formTextWith (hencode : Text.IsFormEncoder encode)
    (hdecode : Text.IsPercentDecoder decode?) (settings : Settings) (q : Query) :
    parseFormWith decode? settings (q.formTextWith encode) =
      parse settings q.text := by
  apply parseFormWith_of_percentCodes hdecode
  rw [formTextWith, text, String.toList_ofList, String.toList_ofList]
  exact hencode.percentCodes (Text.utf8 q.chars)

theorem isFormPlain_of_mem_formTextWith (hencode : Text.IsFormEncoder encode)
    {q : Query} {c : Char} (hc : c ∈ (q.formTextWith encode).toList) :
    Text.isFormPlain c = true ∨ c = '+' ∨ c = '%' := by
  rw [formTextWith, String.toList_ofList] at hc
  exact hencode.isFormPlain_of_mem hc

/-- A URL is transparent for every query and for every form encoding of a text, and
a query is written in it with plain characters, `+` and `%` only. -/
theorem parseFormWith_eq_parse (hencode : Text.IsFormEncoder encode)
    (hdecode : Text.IsPercentDecoder decode?) (settings : Settings) :
    (forall q : Query,
      parseFormWith decode? settings (q.formTextWith encode) =
          parse settings q.text ∧
        forall c, c ∈ (q.formTextWith encode).toList ->
          Text.isFormPlain c = true ∨ c = '+' ∨ c = '%') ∧
      forall text encoded : String,
        Text.FormEncodes text.toList encoded.toList ->
          parseFormWith decode? settings encoded = parse settings text := by
  constructor
  · intro q
    constructor
    · exact parseFormWith_formTextWith hencode hdecode settings q
    · intro c hc
      exact isFormPlain_of_mem_formTextWith hencode hc
  · intro text encoded h
    exact parseFormWith_of_formEncodes hdecode settings h

theorem parseFormWith_eq_parse_escape :
    Text.IsFormEncoder Text.formEncode ∧
      Text.IsPercentDecoder Text.percentDecode? ∧
      Text.FormEncodes "%2B+ é".toList "%252B%2b+é".toList ∧
      formText (.single (.term { address := .field .all, value := "%2B+ é" })) =
        "all%3D%252B%2B+%C3%A9" ∧
      parseForm { fulltextFallback := false } "all%3D%252B%2B+%C3%A9" =
        .ok (.single (.term { address := .field .all, value := "%2B+ é" })) ∧
      parseForm { fulltextFallback := false } "%252B%2b+é" =
        .ok (.single (.term { address := .field .all, value := "%2B+ é" })) := by
  have hencodes : Text.FormEncodes "%2B+ é".toList "%252B%2b+é".toList := by
    apply @Text.FormEncodes.escaped '%' ['%', '2', '5']
    · exact Text.Escapes.cons ⟨rfl, rfl⟩ Text.Escapes.nil
    apply Text.FormEncodes.raw (by decide) (by decide)
    apply Text.FormEncodes.raw (by decide) (by decide)
    apply @Text.FormEncodes.escaped '+' ['%', '2', 'b']
    · exact Text.Escapes.cons ⟨rfl, rfl⟩ Text.Escapes.nil
    apply Text.FormEncodes.plus
    apply Text.FormEncodes.raw (by decide) (by decide)
    exact Text.FormEncodes.nil
  rcases parseFormWith_eq_parse Text.isFormEncoder_formEncode
    Text.isPercentDecoder_percentDecode? { fulltextFallback := false } with
    ⟨hwritten, hencoded⟩
  refine ⟨Text.isFormEncoder_formEncode, Text.isPercentDecoder_percentDecode?,
    hencodes, rfl, ?_, ?_⟩
  · exact (hwritten
      (.single (.term { address := .field .all, value := "%2B+ é" }))).1.trans rfl
  · exact (hencoded _ _ hencodes).trans rfl

end Transport

theorem parseForm_formText (settings : Settings) (q : Query) :
    parseForm settings q.formText = parse settings q.text :=
  parseFormWith_formTextWith Text.isFormEncoder_formEncode
    Text.isPercentDecoder_percentDecode? settings q

end Query
end SearchQuery
