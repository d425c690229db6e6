import Provenance.Proofs.BrokenTables
import Provenance.Proofs.Pe.Imports

/-!
# What imports show

The rules for imports look at a function and its library as one text, with a colon between the two.
A part that a rule looks for has no colon in it, so that it stands in the function or in the library
and never across both. One rule asks for the library `runtime.dll` and compares its name with the
whole text: this is never the same, since the text has a colon. What an import from that library
shows is therefore decided by the name of the function alone.

* `contains_symbol_iff` — what a rule finds in the text of an import.
* `goLine`, `classifyImport?_goLine_iff` — when an import speaks for Go.
* `goLine_mem_evidence_iff` — which lines about Go are found in an image.

Main result:

* `runtime_library_shows_go_by_function` — what an import from `runtime.dll` shows.
-/

namespace Provenance.Pe

/-- The line about an import that speaks for Go. -/
def goLine (symbol : Text) : Text := "Go runtime: " ++ symbol

section Rules

variable {function library : String}

/-- The text of an import is the function, a colon and the library. -/
theorem ofString_symbol (function library : String) :
    Text.ofString (function ++ ":" ++ library)
      = Text.ofString function ++ .char ':' :: Text.ofString library := by
  rw [Text.ofString_append, Text.ofString_append, List.append_assoc]
  rfl

/-- What a rule looks for stands in the function or in the library, but not across the colon. -/
theorem contains_symbol_iff {part : String} (h : CodePoint.char ':' ∉ Text.ofString part) :
    Text.contains (function ++ ":" ++ library : String) part = true
      ↔ Text.contains function part = true ∨ Text.contains library part = true := by
  simp only [Text.contains_iff, ofString_symbol]
  exact Text.infix_append_cons_iff h

/-- The text of an import is not the name of a library. -/
theorem symbol_ne {name : String} (h : CodePoint.char ':' ∉ Text.ofString name) :
    Text.ofString (function ++ ":" ++ library) ≠ Text.ofString name := by
  intro heq
  rw [← heq, ofString_symbol] at h
  exact h (List.mem_append_right _ List.mem_cons_self)

/-- The first rule is the only one whose lines speak of Go. -/
theorem classifyImport?_goLine_iff {symbol other : Text} {languages : List Text} :
    classifyImport? symbol = some (languages, goLine other)
      ↔ (Text.contains symbol "go_" = true ∨ symbol = "runtime.dll")
        ∧ languages = ["Go"] ∧ symbol = other := by
  unfold classifyImport?
  split
  -- the rule for Go has matched, and its line is the one asked for
  · next hgo =>
    simp only [Option.some.injEq, Prod.mk.injEq, goLine, List.append_cancel_left_eq, hgo, true_and]
    tauto
  · next hgo =>
    -- the lines of the other rules begin with another letter
    refine iff_of_false (fun h => ?_) (fun h => hgo h.1)
    split at h
    · cases congrArg (fun hit => hit.bind (·.2.head?)) h
    · split at h
      · cases congrArg (fun hit => hit.bind (·.2.head?)) h
      · cases h

end Rules

section Image

variable {img : Image}

/-- The other rules have no lines about imports. -/
theorem noLineFrom_ruleFindings : img.ruleFindings.NoLineFrom (.char 'G') :=
  ((Findings.noLineFrom_signalIf _ _ (by decide)).append
    (Findings.noLineFrom_signalIf _ _ (by decide))).append
      (Findings.noLineFrom_signalIf _ _ (by decide))

/-- **A line about an import that is listed is found if the import speaks for Go**, and then Go is
one of the languages. -/
theorem goLine_mem_evidence_iff {symbols : List String} (h : img.importedSymbols = .ok symbols)
    {symbol : String} (hsymbol : symbol ∈ symbols) :
    (Text.ofString "Go" ∈ img.inspect.findings.languages
        ∧ goLine symbol ∈ img.inspect.findings.evidence)
      ↔ Text.contains symbol "go_" = true ∨ Text.ofString symbol = "runtime.dll" := by
  have hfindings : img.inspect.findings = img.ruleFindings ++ img.inspectImports.findings := rfl
  have himports : img.inspectImports.findings
      = ⟨(symbols.filterMap fun name : String => classifyImport? name).flatMap (·.1),
        (symbols.filterMap fun name : String => classifyImport? name).map (·.2)⟩ := by
    rw [Image.inspectImports, h]
    exact Inspection.findings_concat_signals _ _ _ _
  -- the other rules write other lines, which leaves the lines about imports
  rw [hfindings, himports]
  constructor
  · rintro ⟨-, hline⟩
    rcases List.mem_append.mp hline with hline | hline
    · exact absurd rfl (noLineFrom_ruleFindings _ hline)
    · -- the line comes from some import, which has the same text
      obtain ⟨⟨languages, line⟩, hhit, rfl⟩ := List.mem_map.mp hline
      obtain ⟨name, -, hrule⟩ := List.mem_filterMap.mp hhit
      obtain ⟨hgo, -, heq⟩ := classifyImport?_goLine_iff.mp hrule
      rwa [heq] at hgo
  · intro hgo
    have hhit : ((["Go"], goLine symbol) : List Text × Text)
        ∈ symbols.filterMap fun name : String => classifyImport? name :=
      List.mem_filterMap.mpr ⟨symbol, hsymbol, classifyImport?_goLine_iff.mpr ⟨hgo, rfl, rfl⟩⟩
    exact ⟨List.mem_append_right _ (List.mem_flatMap.mpr ⟨_, hhit, List.mem_singleton_self _⟩),
      List.mem_append_right _ (List.mem_map.mpr ⟨_, hhit, rfl⟩)⟩

/-- An import that is listed has a function of one of the libraries. -/
theorem mem_symbols {found : List Import} {symbol : String} :
    (symbol ∈ found.flatMap fun i => i.functions.map fun f => f ++ ":" ++ i.library)
      ↔ ∃ i ∈ found, ∃ f ∈ i.functions, f ++ ":" ++ i.library = symbol := by
  simp only [List.mem_flatMap, List.mem_map]

end Image

/-- Of an image whose import table can be read, no import has the bare name `runtime.dll` for its
text. A function that is imported from that library speaks for Go, with a line of its own, exactly
when `go_` stands in the name of the function. -/
theorem runtime_library_shows_go_by_function {file : Bytes} {img : Image} {found : List Import}
    (h : Image.ofBytes file = .ok img) (htable : ImportTable img found) :
    (∀ symbol ∈ img.knownImports, Text.ofString symbol ≠ "runtime.dll")
      ∧ ∀ i ∈ found, i.library = "runtime.dll" → ∀ f ∈ i.functions,
        ((Text.ofString "Go" ∈ (inspect file).findings.languages
            ∧ goLine (f ++ ":runtime.dll" : String) ∈ (inspect file).findings.evidence)
          ↔ Text.ofString "go_" <:+: Text.ofString f) := by
  obtain ⟨-, hparsed, -⟩ := Image.parsed_of_ofBytes h
  -- since the table can be read, its imports are all listed
  have hsymbols : img.importedSymbols
      = .ok (found.flatMap fun i => i.functions.map fun f => f ++ ":" ++ i.library) := by
    rw [Image.importedSymbols, (imports_eq_ok_iff hparsed).mpr htable]
    rfl
  have hnone : CodePoint.char ':' ∉ Text.ofString "runtime.dll" := by decide
  constructor
  · intro symbol hsymbol
    rw [Image.knownImports, hsymbols] at hsymbol
    obtain ⟨i, -, f, -, rfl⟩ := mem_symbols.mp hsymbol
    exact symbol_ne hnone
  · rintro i hi hlibrary f hf
    have hcolon : ":" ++ "runtime.dll" = ":runtime.dll" := by decide
    have htext : f ++ ":runtime.dll" = f ++ ":" ++ i.library := by
      rw [hlibrary, String.append_assoc, hcolon]
    have hlisted := mem_symbols.mpr ⟨i, hi, f, hf, rfl⟩
    rw [inspect_of_image h, htext, goLine_mem_evidence_iff hsymbols hlisted,
      contains_symbol_iff (by decide), hlibrary, ← Text.contains_iff]
    -- the library's name has no such part, and the text of an import is not its name
    have hlib : Text.contains (Text.ofString "runtime.dll") (Text.ofString "go_") = false := by
      decide
    simp only [hlib, Bool.false_eq_true, or_false, symbol_ne hnone]

/-- An image with one section, which holds an import table: of the library `runtime.dll` it imports
a function with a name of four letters. Addresses are places of the file. -/
def runtimeImage (function : String) : Bytes :=
  let zeros := fun n => List.replicate n (0 : UInt8)
  let headers := [0x4D, 0x5A] ++ zeros 58 ++ [64, 0, 0, 0] ++ signature
    ++ [0x4C, 1, 1, 0] ++ zeros 12 ++ [112, 0, 0, 0]
    ++ [0x0B, 1] ++ zeros 90 ++ [2, 0, 0, 0]
    ++ zeros 8 ++ [240, 0, 0, 0, 40, 0, 0, 0]
    ++ zeros 12 ++ [240, 0, 0, 0, 67, 0, 0, 0, 240, 0, 0, 0] ++ zeros 16
  let descriptors := [24, 1, 0, 0] ++ zeros 8 ++ [39, 1, 0, 0, 24, 1, 0, 0] ++ zeros 20
  let entries := [32, 1, 0, 0, 0, 0, 0, 0]
  let names := [0, 0] ++ function.toUTF8.data.toList ++ [0]
    ++ "runtime.dll".toUTF8.data.toList ++ [0]
  (headers ++ descriptors ++ entries ++ names).toArray

/-- An image whose imports were read has the table that they were read from. -/
theorem exists_importTable (file : Bytes) (found : List Import)
    (h : (Image.ofBytes file).toOption.bind (·.imports.toOption) = some found) :
    ∃ img, Image.ofBytes file = .ok img ∧ ImportTable img found := by
  -- neither of the two readers has refused, since something was found
  cases himg : Image.ofBytes file with
  | error e =>
    rw [himg] at h
    cases h
  | ok img =>
    rw [himg] at h
    change img.imports.toOption = some found at h
    obtain ⟨-, hparsed, -⟩ := Image.parsed_of_ofBytes himg
    cases hread : img.imports with
    | error e =>
      rw [hread] at h
      cases h
    | ok read =>
      rw [hread] at h
      cases h
      exact ⟨img, rfl, (imports_eq_ok_iff hparsed).mp hread⟩

/-- A function with `go_` in its name is found. -/
theorem goFunction_speaks_for_go :
    ∃ img, Image.ofBytes (runtimeImage "go_x") = .ok img
      ∧ ImportTable img [⟨"runtime.dll", ["go_x"]⟩]
      ∧ Text.ofString "Go"
          ∈ (inspect (runtimeImage "go_x")).findings.languages
      ∧ goLine ("go_x" ++ ":runtime.dll" : String)
          ∈ (inspect (runtimeImage "go_x")).findings.evidence := by
  obtain ⟨img, himg, htable⟩ :=
    exists_importTable (runtimeImage "go_x") [⟨"runtime.dll", ["go_x"]⟩] (by decide +kernel)
  have hline := (runtime_library_shows_go_by_function himg htable).2 _ (List.mem_singleton_self _)
    rfl "go_x" (List.mem_singleton_self _)
  exact ⟨img, himg, htable, hline.mpr (by decide)⟩

/-- In an image that imports another function from `runtime.dll` nothing is found, although the
table of its imports can be read. -/
theorem runtimeLibrary_without_go :
    ∃ img, Image.ofBytes (runtimeImage "main") = .ok img
      ∧ ImportTable img [⟨"runtime.dll", ["main"]⟩]
      ∧ (inspect (runtimeImage "main")).findings = .none := by
  obtain ⟨img, himg, htable⟩ :=
    exists_importTable (runtimeImage "main") [⟨"runtime.dll", ["main"]⟩] (by decide +kernel)
  exact ⟨img, himg, htable, by decide +kernel⟩

end Provenance.Pe
