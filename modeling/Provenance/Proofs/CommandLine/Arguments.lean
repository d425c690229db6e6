import Provenance.CommandLine.Options
import Provenance.Proofs.Text

/-!
# Arguments that name files

What a command line asks for that names some files and, maybe, a report. The report is asked for in
front of the files or behind them, with its name in a word of its own or behind an equals sign.

* `IsFileArgument` — a text that names a file.
* `ReportArgument`, `argumentsFor` — the arguments that name some files and a report.
* `Request.ofArguments_argumentsFor` — they ask for a run on the files and for the report, and for
  nothing else.
* `FilePath.fault?_ofText` — a file can have each of the paths for a name.
-/

namespace Provenance

/-!
## Names of files

An argument without a dash in front of it is the name of a file, and it is kept as it is given.
-/

namespace FilePath

/-- Pieces are cut out of the text, so that a code point of a piece is one of the text. -/
theorem mem_of_mem_pieces {text piece : Text} (h : piece ∈ pieces text) {c : CodePoint}
    (hc : c ∈ piece) : c ∈ text := by
  -- on the text: its first code point is a slash, or goes in front of the first piece of the rest
  induction text generalizing piece with
  | nil =>
    cases List.mem_singleton.mp h
    cases hc
  | cons first rest ih =>
    rw [pieces] at h
    split at h
    next =>
      -- a slash is in no piece
      rcases List.mem_cons.mp h with rfl | h
      · cases hc
      · exact List.mem_cons_of_mem first (ih h hc)
    next =>
      split at h
      next =>
        -- a rest without pieces is the end of the text
        cases List.mem_singleton.mp h
        cases List.mem_singleton.mp hc
        exact List.mem_cons_self
      next head more hpieces =>
        rcases List.mem_cons.mp h with rfl | h
        · rcases List.mem_cons.mp hc with rfl | hc
          · exact List.mem_cons_self
          · exact List.mem_cons_of_mem first (ih (by rw [hpieces]; exact List.mem_cons_self) hc)
        · have hpiece : piece ∈ pieces rest := by
            rw [hpieces]
            exact List.mem_cons_of_mem head h
          exact List.mem_cons_of_mem first (ih hpiece hc)

/-- The parts of a path are those pieces that say something. -/
theorem mem_of_mem_parts {text name : Text} (h : name ∈ (ofText text).parts) {c : CodePoint}
    (hc : c ∈ name) : c ∈ text :=
  mem_of_mem_pieces (List.mem_filter.mp h).1 hc

/-- A file can have a name that is a string without NUL. -/
theorem fault?_ofText {text : Text} (hwhole : Text.isWhole text = true)
    (hnul : .char '\x00' ∉ text) : (ofText text).fault? = none := by
  -- neither of the two faults: every code point of a name can stand in one, and none is NUL
  have hnameable : (ofText text).parts.any (fun name => !name.all isNameable) = false := by
    rw [List.any_eq_false]
    intro name hname hnot
    rw [Bool.not_eq_true', List.all_eq_false] at hnot
    -- a code point that no name can hold is half of a pair, and a string has none
    obtain ⟨c, hc, hbad⟩ := hnot
    have hchar := List.all_eq_true.mp hwhole c (mem_of_mem_parts hname hc)
    rw [isNameable, hchar] at hbad
    exact hbad rfl
  have hfree : (ofText text).parts.any (fun name => decide (.char '\x00' ∈ name)) = false := by
    rw [List.any_eq_false]
    intro name hname hmem
    exact hnul (mem_of_mem_parts hname (of_decide_eq_true hmem))
  rw [fault?, hnameable, hfree]
  rfl

/-- The text of a path is put together from the names in a text for it. -/
theorem isWhole_text {text : Text} (hwhole : Text.isWhole text = true) :
    Text.isWhole (ofText text).text = true := by
  have hparts : ∀ name ∈ (ofText text).parts, Text.isWhole name = true := by
    intro name hname
    exact List.all_eq_true.mpr fun c hc =>
      List.all_eq_true.mp hwhole c (mem_of_mem_parts hname hc)
  have hroot : Text.isWhole (ofText text).root.text = true := by
    cases (ofText text).root <;> decide
  have hjoined : Text.isWhole (Text.intercalate "/" (ofText text).parts) = true :=
    Text.isWhole_intercalate (by decide) hparts
  -- a path without parts is the directory itself, and has a text of its own
  rw [FilePath.text]
  split
  · decide
  · exact Text.isWhole_append hroot hjoined

end FilePath

namespace CommandLine

/-- A text that names a file: a string without NUL that does not begin with a dash. -/
structure IsFileArgument (text : Text) : Prop where
  whole : Text.isWhole text = true
  nul : .char '\x00' ∉ text
  dash : text.head? ≠ some (.char '-')

/-- An argument can be tested. -/
instance (text : Text) : Decidable (IsFileArgument text) :=
  decidable_of_iff (Text.isWhole text = true ∧ .char '\x00' ∉ text ∧ text.head? ≠ some (.char '-'))
    ⟨fun ⟨hwhole, hnul, hdash⟩ => ⟨hwhole, hnul, hdash⟩, fun h => ⟨h.whole, h.nul, h.dash⟩⟩

/-!
## Arguments

The report may be asked for in two forms, with the name of the report as an argument of its own or
behind an equals sign.
-/

/-- How a report is asked for. -/
structure ReportArgument where
  /-- The name of its file. -/
  name : Text
  /-- Whether the name stands behind an equals sign, and not in a word of its own. -/
  joined : Bool
  /-- Whether it stands in front of the files, and not behind them. -/
  leading : Bool

namespace ReportArgument

/-- The words that ask for a report. -/
def words (r : ReportArgument) : List Text :=
  if r.joined then ["--report=" ++ r.name] else ["--report", r.name]

/-- A word of its own cannot begin with a dash, and behind an equals sign a double dash is no name.
-/
def Proper (r : ReportArgument) : Prop :=
  if r.joined then r.name ≠ "--" else r.name.head? ≠ some (.char '-')

/-- A report that is asked for can be tested. -/
instance (r : ReportArgument) : Decidable r.Proper := by
  unfold Proper
  infer_instance

end ReportArgument

/-- The arguments that name some files and, maybe, a report. -/
def argumentsFor (files : List Text) : Option ReportArgument → List Text
  | none => files
  | some r => if r.leading then r.words ++ files else files ++ r.words

/-- The report that is asked for, as a target. -/
def targetFor : Option ReportArgument → ReportTarget
  | none => .nowhere
  | some r => .file (.ofText r.name)

/-- The first code point tells that a text is no switch. -/
theorem startsWith_dash {text : Text} (h : text.head? ≠ some (.char '-')) :
    startsWith text "-" = false := by
  cases text with
  | nil => rfl
  | cons c rest =>
    have hne : (CodePoint.char '-' == c) = false := by
      rw [beq_eq_false_iff_ne]
      exact fun heq => h (congrArg some heq.symm)
    show (CodePoint.char '-' == c && _) = false
    rw [hne, Bool.false_and]

theorem ne_separator {text : Text} (h : text.head? ≠ some (.char '-')) : text ≠ "--" := by
  rintro rfl
  exact h rfl

/-! ### Tokens -/

theorem Token.ofArgument_word {text : Text} (h : text.head? ≠ some (.char '-')) :
    Token.ofArgument text = .ok (.word text) := by
  rw [Token.ofArgument, startsWith_dash h]
  rfl

/-- Words in front of other arguments are words. -/
theorem Token.ofArguments_words {texts : List Text}
    (h : ∀ t ∈ texts, t.head? ≠ some (.char '-')) {more : List Text} {tokens : List Token}
    (hmore : Token.ofArguments more = .ok tokens) :
    Token.ofArguments (texts ++ more) = .ok (texts.map .word ++ tokens) := by
  -- on the words: none of them is a double dash, after which nothing would be a switch
  induction texts with
  | nil => exact hmore
  | cons t rest ih =>
    have hword := h t List.mem_cons_self
    have hrest := ih fun u hu => h u (List.mem_cons_of_mem t hu)
    rw [List.cons_append, Token.ofArguments, if_neg (ne_separator hword),
      Token.ofArgument_word hword, hrest]
    rfl

theorem Token.ofArgument_joined (name : Text) :
    Token.ofArgument ("--report=" ++ name) = .ok (.switch .report false (some name)) := rfl

theorem joined_ne_separator (name : Text) : ("--report=" : Text) ++ name ≠ "--" := by
  intro h
  exact absurd (congrArg (·[2]?) h) (by simp [Text.ofString])

/-- The words that ask for a report, as tokens. -/
def ReportArgument.tokens (r : ReportArgument) : List Token :=
  if r.joined then [.switch .report false (some r.name)]
  else [.switch .report false none, .word r.name]

/-- The words that ask for a report are told to be that. -/
theorem ReportArgument.ofArguments_words {r : ReportArgument} (h : r.Proper) {more : List Text}
    {tokens : List Token} (hmore : Token.ofArguments more = .ok tokens) :
    Token.ofArguments (r.words ++ more) = .ok (r.tokens ++ tokens) := by
  obtain ⟨name, joined, leading⟩ := r
  cases joined with
  | true =>
    show Token.ofArguments ((("--report=" : Text) ++ name) :: more) = _
    rw [Token.ofArguments, if_neg (joined_ne_separator name), Token.ofArgument_joined, hmore]
    rfl
  | false =>
    show Token.ofArguments ((("--report" : Text)) :: ([name] ++ more)) = _
    have hname : ∀ t ∈ [name], t.head? ≠ some (.char '-') := List.forall_mem_singleton.mpr h
    rw [Token.ofArguments, if_neg (by decide), Token.ofArguments_words hname hmore]
    rfl

/-! ### The request -/

/-- Words are collected until an option comes, the last one first. -/
theorem complete_words (draft : Draft) (group : List Token) (texts : List Text)
    (rest : List Token) :
    draft.complete group (texts.map .word ++ rest)
      = draft.complete ((texts.map .word).reverse ++ group) rest := by
  -- on the words, with whatever has been collected before them
  induction texts generalizing group with
  | nil => rfl
  | cons t more ih =>
    rw [List.map_cons, List.cons_append, Draft.complete, ih, List.reverse_cons, List.append_assoc]
    rfl

/-- Words that are taken together name the files, if no files have been named. -/
theorem takeGroup_words {draft : Draft} (hfiles : draft.files? = none) {texts : List Text}
    (hne : texts ≠ []) (h : ∀ t ∈ texts, t.head? ≠ some (.char '-')) :
    draft.takeGroup (texts.map .word) = { draft with files? := some texts } := by
  have htexts : (texts.map Token.word).filterMap Token.wordText? = texts := by
    rw [List.filterMap_map]
    exact List.filterMap_some
  have hword : (texts.map Token.word).any Draft.isWord = true := by
    obtain ⟨t, rest, rfl⟩ := List.exists_cons_of_ne_nil hne
    rfl
  -- a double dash would be taken out of the names
  have hkept : texts.erase "--" = texts :=
    List.erase_of_not_mem fun hmem => ne_separator (h _ hmem) rfl
  simp only [Draft.takeGroup, hfiles, hword, htexts, hkept, Option.isNone_none, Bool.and_self,
    if_true]

theorem takeGroup_nil (draft : Draft) : draft.takeGroup [] = draft := by
  show (if (draft.files?.isNone && false) = true then _ else _) = draft
  rw [Bool.and_false, if_neg Bool.false_ne_true]
  show ({ draft with extras := draft.extras ++ [] } : Draft) = draft
  rw [List.append_nil]

/-- An option takes what was collected in front of it, and the report is known from then on. -/
theorem ReportArgument.complete_tokens {r : ReportArgument} (h : r.Proper) (draft : Draft)
    (group rest : List Token) :
    draft.complete group (r.tokens ++ rest)
      = ({ draft.takeGroup group.reverse with report := .file (.ofText r.name) } : Draft).complete
          [] rest := by
  -- the name stands in the same word or in the next one
  obtain ⟨name, joined, leading⟩ := r
  cases joined with
  | true =>
    have htarget : Draft.targetOf name = .file (.ofText name) := if_neg h
    show draft.complete group (.switch .report false (some name) :: rest) = _
    rw [Draft.complete, htarget]
  | false =>
    show draft.complete group (.switch .report false none :: .word name :: rest) = _
    rw [Draft.complete]

/-- Some files and a report are what is asked for. -/
theorem Request.ofArguments_argumentsFor {files : List Text} (hne : files ≠ [])
    (hfiles : ∀ f ∈ files, f.head? ≠ some (.char '-')) {report? : Option ReportArgument}
    (hreport : ∀ r ∈ report?, r.Proper) :
    Request.ofArguments (argumentsFor files report?)
      = .run ⟨files.map .ofText, false, targetFor report?⟩ := by
  have hnone : Token.ofArguments [] = .ok [] := rfl
  have hwords : Token.ofArguments files = .ok (files.map .word) := by
    have h := Token.ofArguments_words hfiles hnone
    rwa [List.append_nil, List.append_nil] at h
  -- words alone: they are taken when the arguments end
  have hcomplete : ∀ draft : Draft, draft.files? = none →
      draft.complete [] (files.map .word)
        = ({ draft with files? := some files } : Draft).finish := by
    intro draft hdraft
    have h := complete_words draft [] files []
    rw [List.append_nil, List.append_nil] at h
    rw [h, Draft.complete, List.reverse_reverse, takeGroup_words hdraft hne hfiles]
  cases report? with
  | none =>
    rw [argumentsFor, Request.ofArguments, hwords]
    exact hcomplete _ rfl
  | some r =>
    have hr := hreport r rfl
    rw [argumentsFor, Request.ofArguments]
    cases r.leading with
    | true =>
      -- the report is known before the first file
      rw [if_pos rfl, ReportArgument.ofArguments_words hr hwords]
      show Draft.blank.complete [] (r.tokens ++ files.map .word) = _
      rw [ReportArgument.complete_tokens hr, List.reverse_nil, takeGroup_nil, hcomplete _ rfl]
      rfl
    | false =>
      have htail : Token.ofArguments r.words = .ok r.tokens := by
        have h := ReportArgument.ofArguments_words hr hnone
        rwa [List.append_nil, List.append_nil] at h
      -- the option ends the words that name the files
      rw [if_neg Bool.false_ne_true, Token.ofArguments_words hfiles htail]
      show Draft.blank.complete [] (files.map .word ++ r.tokens) = _
      have htokens :=
        ReportArgument.complete_tokens hr Draft.blank (files.map Token.word).reverse []
      rw [List.append_nil, List.reverse_reverse, takeGroup_words rfl hne hfiles] at htokens
      rw [complete_words, List.append_nil, htokens, Draft.complete, List.reverse_nil, takeGroup_nil]
      rfl

end CommandLine

end Provenance
