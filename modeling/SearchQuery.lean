import SearchQuery.Catalog
import SearchQuery.Chain
import SearchQuery.Console
import SearchQuery.Element
import SearchQuery.Element.Rename
import SearchQuery.Element.Same
import SearchQuery.Element.Text
import SearchQuery.Fragment
import SearchQuery.Json
import SearchQuery.Json.Decode
import SearchQuery.Log
import SearchQuery.Main
import SearchQuery.Outline
import SearchQuery.Outline.Length
import SearchQuery.Parse
import SearchQuery.ParseError
import SearchQuery.Term
import SearchQuery.Text.Characters
import SearchQuery.Text.Form
import SearchQuery.Text.Quoted
import SearchQuery.Proofs.Text.Bracket
import SearchQuery.Proofs.Text.Trim
import SearchQuery.Proofs.Outline.Part
import SearchQuery.Proofs.Outline.Scan
import SearchQuery.Proofs.Outline.Flat
import SearchQuery.Proofs.Outline.Nesting
import SearchQuery.Proofs.Term.Legible
import SearchQuery.Proofs.Term.Split
import SearchQuery.Proofs.Term.Reading
import SearchQuery.Proofs.Element.Brackets
import SearchQuery.Proofs.Element.Scan
import SearchQuery.Proofs.RoundTrip
import SearchQuery.Proofs.Outline.Coherent
import SearchQuery.Proofs.Term.Fragment
import SearchQuery.Proofs.Canonical
import SearchQuery.Proofs.Composition
import SearchQuery.Proofs.Trace
import SearchQuery.Proofs.Coverage
import SearchQuery.Proofs.Outline.Inside
import SearchQuery.Proofs.Nesting
import SearchQuery.Proofs.Depth
import SearchQuery.Proofs.Chain.Entry
import SearchQuery.Proofs.Alternation
import SearchQuery.Proofs.Names
import SearchQuery.Proofs.Lockstep
import SearchQuery.Proofs.Limit
import SearchQuery.Proofs.Catalog
import SearchQuery.Proofs.FreeText
import SearchQuery.Proofs.Text.Form
import SearchQuery.Proofs.Transport
import SearchQuery.Proofs.Console
import SearchQuery.Proofs.LoneTerm
import SearchQuery.Proofs.Element.Same
import SearchQuery.Proofs.Writing
import SearchQuery.Proofs.Term.Decomposition
import SearchQuery.Proofs.Classification
import SearchQuery.Proofs.Dangling
import SearchQuery.Proofs.Outline.Place
import SearchQuery.Proofs.Location
import SearchQuery.Proofs.Outline.Continuation
import SearchQuery.Proofs.Surroundings
import SearchQuery.Proofs.Element.Rename
import SearchQuery.Proofs.Term.Extension
import SearchQuery.Proofs.Trailing
import SearchQuery.Proofs.Values
import SearchQuery.Proofs.Recursion
import SearchQuery.Proofs.Outline.Scanner
import SearchQuery.Proofs.Outline.Simulation
import SearchQuery.Proofs.Fragments
import SearchQuery.Proofs.Text.Codec
import SearchQuery.Proofs.Escapes
