import Provenance.Proofs.Number.Nearest
import Provenance.Proofs.Occurrences
import Provenance.Verdict

/-!
# The verdict on findings

A verdict names the candidate with the most occurrences. They are counted in one pass over the
candidates, where a language gets its place when it is first met, and a second pass over the counts
keeps the first of the highest ones. So of several languages with the most occurrences it is the one
met first that is named, and not the one whose count got there first.

* `tally` — the counts after one pass; `tally_eq` says that they are those of all candidates, in the
  order of first occurrences.
* `higher`, `Leads` — one comparison of the second pass, and what the best so far is among the
  counts that have been looked at; `Leads.step` for one comparison and `leads_foldl` for the pass.
* `IsLeader` — what it is to be the language that a verdict names.

Main result:

* `verdict_names_earliest_most_frequent` — the language, the confidence and the copied parts of a
  verdict on any findings.
-/

namespace Provenance

/-!
## Counting

The counts are kept in a list in the order in which the languages first came up. What the loop has
at its end is the list of all languages with their counts.
-/

/-- One more occurrence of a language. A language that has not been met yet comes last. -/
def countOne : List (Text × Nat) → Text → List (Text × Nat)
  | [], language => [(language, 1)]
  | (known, count) :: rest, language =>
    if known = language then (known, count + 1) :: rest
    else (known, count) :: countOne rest language

/-- The languages of some candidates with their numbers of occurrences, counted in one pass. -/
def tally (candidates : List Text) : List (Text × Nat) := candidates.foldl countOne []

/-- A language that has not been met comes last, with one occurrence. -/
theorem countOne_of_not_mem {counts : List (Text × Nat)} {language : Text}
    (h : language ∉ counts.map (·.1)) : countOne counts language = counts ++ [(language, 1)] := by
  induction counts with
  | nil => rfl
  | cons entry rest ih =>
    rw [List.map_cons, List.mem_cons, not_or] at h
    rw [countOne, if_neg (Ne.symm h.1), ih h.2, List.cons_append]

/-- A language that has been met gets one occurrence more, and nothing else changes. -/
theorem countOne_map {count : Text → Nat} {firsts : List Text} {language : Text}
    (hnodup : firsts.Nodup) (hmem : language ∈ firsts) :
    countOne (firsts.map fun l => (l, count l)) language
      = firsts.map fun l => (l, count l + if l = language then 1 else 0) := by
  induction firsts with
  | nil => cases hmem
  | cons first rest ih =>
    obtain ⟨hfirst, hrest⟩ := List.nodup_cons.mp hnodup
    rw [List.map_cons, List.map_cons, countOne]
    by_cases hsame : first = language
    · subst hsame
      -- the others differ from the language, so that their counts stay
      have hothers : ∀ l ∈ rest, (l, count l) = (l, count l + if l = first then 1 else 0) := by
        intro l hl
        rw [if_neg (ne_of_mem_of_not_mem hl hfirst), Nat.add_zero]
      rw [if_pos rfl, if_pos rfl, List.map_congr_left hothers]
    · have hlater : language ∈ rest := (List.mem_cons.mp hmem).resolve_left (Ne.symm hsame)
      rw [if_neg hsame, if_neg hsame, Nat.add_zero, ih hrest hlater]

/-- A candidate more is a new language, or one that has been met. -/
theorem eraseDups_concat (seen : List Text) (language : Text) :
    (seen ++ [language]).eraseDups
      = if language ∈ seen then seen.eraseDups else seen.eraseDups ++ [language] := by
  rw [List.eraseDups_append]
  by_cases hmet : language ∈ seen
  · rw [if_pos hmet]
    simp [List.removeAll, hmet]
  · have hnew : [language].removeAll seen = [language] := by simp [List.removeAll, hmet]
    rw [if_neg hmet, hnew, List.eraseDups_cons]
    rfl

/-- One occurrence more keeps the counts those of the candidates that have been met. -/
theorem countOne_eq (seen : List Text) (language : Text) :
    countOne (seen.eraseDups.map fun l => (l, seen.count l)) language
      = (seen ++ [language]).eraseDups.map fun l => (l, (seen ++ [language]).count l) := by
  have hcount : ∀ l : Text,
      (seen ++ [language]).count l = seen.count l + if l = language then 1 else 0 := by
    intro l
    by_cases hl : l = language
    · subst hl
      rw [List.count_append, List.count_singleton_self, if_pos rfl]
    · have hother : List.count l [language] = 0 := List.count_eq_zero_of_not_mem (by simpa using hl)
      rw [List.count_append, hother, if_neg hl]
  simp only [hcount]
  rw [eraseDups_concat]
  by_cases hmet : language ∈ seen
  · rw [if_pos hmet]
    exact countOne_map (firstOccurrences_eraseDups seen).nodup (List.mem_eraseDups.mpr hmet)
  -- a new language comes last, and the counts of the others stay
  · rw [if_neg hmet, countOne_of_not_mem (by simpa using hmet), List.map_append]
    have hold : ∀ l ∈ seen.eraseDups,
        (l, seen.count l) = (l, seen.count l + if l = language then 1 else 0) := by
      intro l hl
      rw [if_neg (ne_of_mem_of_not_mem (List.mem_eraseDups.mp hl) hmet), Nat.add_zero]
    rw [List.map_congr_left hold, List.map_singleton, List.count_eq_zero_of_not_mem hmet,
      if_pos rfl]

/-- **The pass counts all occurrences**, and has the languages in the order in which they first
occur. -/
theorem tally_eq (candidates : List Text) :
    tally candidates = candidates.eraseDups.map fun l => (l, candidates.count l) := by
  -- the counts of the candidates met so far are carried along
  have hrun : ∀ ahead seen : List Text,
      ahead.foldl countOne (seen.eraseDups.map fun l => (l, seen.count l))
        = (seen ++ ahead).eraseDups.map fun l => (l, (seen ++ ahead).count l) := by
    intro ahead
    induction ahead with
    | nil =>
      intro seen
      rw [List.append_nil, List.foldl_nil]
    | cons language rest ih =>
      intro seen
      rw [List.foldl_cons, countOne_eq, ih, List.append_assoc, List.singleton_append]
  exact hrun candidates []

/-!
## Comparing

The best so far is replaced only by one with a higher count. It has the highest count of what has
been looked at, and those in front of it have lower ones, so that among equals the first one stays.
-/

/-- The better of the best so far and the next count: only a higher one takes its place. -/
def higher (best next : Text × Nat) : Text × Nat := if best.2 < next.2 then next else best

/-- The best among some counts: none is higher, and those before it are lower. -/
def Leads (counts : List (Text × Nat)) (best : Text × Nat) : Prop :=
  ∃ front back, counts = front ++ best :: back
    ∧ (∀ entry ∈ front, entry.2 < best.2) ∧ ∀ entry ∈ back, entry.2 ≤ best.2

/-- The best so far and the next count leave the best of both. -/
theorem Leads.step {counts : List (Text × Nat)} {best : Text × Nat} (h : Leads counts best)
    (next : Text × Nat) : Leads (counts ++ [next]) (higher best next) := by
  obtain ⟨front, back, rfl, hfront, hback⟩ := h
  unfold higher
  by_cases hless : best.2 < next.2
  · -- all that has been looked at is lower than the next one
    rw [if_pos hless]
    refine ⟨front ++ best :: back, [], rfl, ?_, nofun⟩
    intro entry hentry
    rcases List.mem_append.mp hentry with hmem | hmem
    · exact Nat.lt_trans (hfront entry hmem) hless
    rcases List.mem_cons.mp hmem with rfl | hmem
    · exact hless
    · exact Nat.lt_of_le_of_lt (hback entry hmem) hless
  · rw [if_neg hless]
    refine ⟨front, back ++ [next], by simp, hfront, ?_⟩
    intro entry hentry
    rcases List.mem_append.mp hentry with hmem | hmem
    · exact hback entry hmem
    · cases List.mem_singleton.mp hmem
      exact Nat.not_lt.mp hless

/-- The best of the counts that have been looked at stays the best of all. -/
theorem leads_foldl {counts : List (Text × Nat)} {best : Text × Nat} (h : Leads counts best)
    (ahead : List (Text × Nat)) : Leads (counts ++ ahead) (ahead.foldl higher best) := by
  induction ahead generalizing counts best with
  | nil => rwa [List.append_nil, List.foldl_nil]
  | cons next rest ih =>
    have hnext := ih (h.step next)
    rwa [List.append_assoc, List.singleton_append] at hnext

/-- The leader is what comparing the counts ends with. -/
theorem leader_eq_foldl_tally (candidates : List Text) :
    leader candidates = (tally candidates).foldl higher ("", 0) := by
  rw [tally_eq, List.foldl_map]
  rfl

/-- With candidates there are counts, and the leader is the best among them. -/
theorem leads_leader {candidates : List Text} (h : candidates ≠ []) :
    Leads (tally candidates) (leader candidates) := by
  rw [leader_eq_foldl_tally, tally_eq]
  obtain ⟨first, rest, hfirsts⟩ : ∃ first rest, candidates.eraseDups = first :: rest := by
    cases candidates with
    | nil => exact absurd rfl h
    | cons first rest => exact ⟨first, _, List.eraseDups_cons⟩
  have hmem : first ∈ candidates := by
    rw [← List.mem_eraseDups, hfirsts]
    exact List.mem_cons_self
  rw [hfirsts, List.map_cons, List.foldl_cons]
  -- whatever occurs has a count above the one that the comparison starts from
  have hstart : higher ("", 0) (first, candidates.count first) = (first, candidates.count first) :=
    if_pos (List.count_pos_iff.mpr hmem)
  rw [hstart]
  exact leads_foldl ⟨[], [], rfl, nofun, nofun⟩ _

/-! ## The language -/

/-- A language is the one that a verdict on some candidates names: it occurs most often among them,
and first among those that do. -/
structure IsLeader (candidates : List Text) (language : Text) : Prop where
  mem : language ∈ candidates
  most : ∀ other ∈ candidates, candidates.count other ≤ candidates.count language
  first : ∀ other ∈ candidates, candidates.count other = candidates.count language →
    other ≠ language → candidates.idxOf language < candidates.idxOf other

/-- The leader has as many occurrences as are counted for it. -/
theorem count_leader {candidates : List Text} (h : candidates ≠ []) :
    (leader candidates).2 = candidates.count (leader candidates).1 := by
  obtain ⟨front, back, hcounts, -, -⟩ := leads_leader h
  have hmem : leader candidates ∈ tally candidates := by
    rw [hcounts]
    exact List.mem_append_right _ List.mem_cons_self
  rw [tally_eq] at hmem
  obtain ⟨l, -, hl⟩ := List.mem_map.mp hmem
  rw [← hl]

/-- **The leader of some candidates is the language that their verdict names.** -/
theorem isLeader_leader {candidates : List Text} (h : candidates ≠ []) :
    IsLeader candidates (leader candidates).1 := by
  obtain ⟨front, back, hcounts, hfront, hback⟩ := leads_leader h
  have hcount := count_leader h
  rw [tally_eq] at hcounts
  -- the languages stand in the order in which they first occur
  have hfirsts := firstOccurrences_eraseDups candidates
  obtain ⟨before, rest, hsplit, rfl, hrest⟩ := List.map_eq_append_iff.mp hcounts
  obtain ⟨l, after, rfl, hl, rfl⟩ := List.map_eq_cons_iff.mp hrest
  have hl : l = (leader candidates).1 := congrArg Prod.fst hl
  subst hl
  have horder := hfirsts.order
  rw [hsplit] at horder
  -- a language stands before the leader, behind it, or is the leader itself
  have hplace : ∀ other ∈ candidates,
      other ∈ before ∨ other = (leader candidates).1 ∨ other ∈ after := by
    intro other hother
    have hmem := (hfirsts.mem other).mpr hother
    rw [hsplit] at hmem
    simpa using hmem
  have hlower : ∀ other ∈ before, candidates.count other < candidates.count (leader candidates).1 :=
    fun other hother => hcount ▸ hfront _ (List.mem_map_of_mem hother)
  refine ⟨?_, ?_, ?_⟩
  · refine (hfirsts.mem _).mp ?_
    rw [hsplit]
    exact List.mem_append_right _ List.mem_cons_self
  · intro other hother
    rcases hplace other hother with hmem | rfl | hmem
    · exact Nat.le_of_lt (hlower other hmem)
    · exact Nat.le_refl _
    · exact hcount ▸ hback _ (List.mem_map_of_mem hmem)
  · intro other hother hsame hne
    rcases hplace other hother with hmem | rfl | hmem
    · exact absurd hsame (Nat.ne_of_lt (hlower other hmem))
    · exact absurd rfl hne
    · exact List.rel_of_pairwise_cons (List.pairwise_append.mp horder).2.1 hmem

/-!
## The confidence

The confidence is the double next to the share of the language among all candidates. Since zero and
one are doubles themselves, rounding does not leave the range between them.
-/

/-- The share of some candidates that speak for a language. -/
def share (candidates : List Text) (language : Text) : ℚ :=
  candidates.count language / candidates.length

theorem share_pos {candidates : List Text} {language : Text} (h : language ∈ candidates) :
    0 < share candidates language := by
  have hcount : 0 < candidates.count language := List.count_pos_iff.mpr h
  have hlength : 0 < candidates.length := List.length_pos_of_mem h
  unfold share
  positivity

theorem share_le_one (candidates : List Text) (language : Text) :
    share candidates language ≤ 1 :=
  div_le_one_of_le₀ (by exact_mod_cast List.count_le_length) (by positivity)

/-- All speak for a language exactly when its share is the whole. -/
theorem share_eq_one_iff {candidates : List Text} {language : Text} (h : language ∈ candidates) :
    share candidates language = 1 ↔ ∀ other ∈ candidates, other = language := by
  have hlength : (candidates.length : ℚ) ≠ 0 := by
    exact_mod_cast (List.length_pos_of_mem h).ne'
  rw [share, div_eq_one_iff_eq hlength, Nat.cast_inj, List.count_eq_length]
  constructor
  · exact fun hall other hother => (hall other hother).symm
  · exact fun hall other hother => (hall other hother).symm

/-- The confidence is the double nearest to the share. -/
theorem isNearest_share {candidates : List Text} {language : Text} (h : language ∈ candidates) :
    (Double.ofRatio false (candidates.count language) candidates.length).IsNearest
      (share candidates language) := by
  have hcount : 0 < candidates.count language := List.count_pos_iff.mpr h
  -- a share is at most one, which keeps it far from the end of the range
  have hexponent := Double.binaryExponent_nonpos hcount List.count_le_length
  exact Double.isNearest_ofRatio hcount (List.length_pos_of_mem h) (by omega)

/-! ## The verdict -/

/-- With candidates a verdict names their leader. -/
theorem verdict_of_ne_nil {found : Findings} (h : found.languages ≠ []) (format : ContainerFormat)
    (platform : Text) :
    found.verdict format platform
      = ⟨(leader found.languages).1,
          Double.ofRatio false (found.languages.count (leader found.languages).1)
            found.languages.length,
          found.languages, found.evidence, format, platform⟩ := by
  have hsome : ¬ found.languages.isEmpty = true := by simpa using h
  rw [Findings.verdict, if_neg hsome, ← count_leader h]

/-- What holds of every candidate, and of the name for none of them, holds of the language that a
verdict names. -/
theorem language_of_forall {P : Text → Prop} {found : Findings}
    (hunknown : P (Text.ofString unknownLanguage)) (h : ∀ t ∈ found.languages, P t)
    (format : ContainerFormat) (platform : Text) : P (found.verdict format platform).language := by
  by_cases hnone : found.languages = []
  · have hempty : found.languages.isEmpty = true := List.isEmpty_iff.mpr hnone
    rw [Findings.verdict, if_pos hempty]
    exact hunknown
  · rw [verdict_of_ne_nil hnone]
    exact h _ (isLeader_leader hnone).mem

/-- **A verdict names the most frequent language, and of several the one met first.** Its confidence
is the double nearest to the share of that language, which is above zero, at most one, and one
exactly when there is no other language among the candidates. Without candidates the language is
unknown and the confidence zero. The candidates and the evidence are kept as they are. -/
theorem verdict_names_earliest_most_frequent (found : Findings) (format : ContainerFormat)
    (platform : Text) :
    (found.languages ≠ [] →
      IsLeader found.languages (found.verdict format platform).language
      ∧ (found.verdict format platform).confidence.IsNearest
          (share found.languages (found.verdict format platform).language)
      ∧ 0 < share found.languages (found.verdict format platform).language
      ∧ share found.languages (found.verdict format platform).language ≤ 1
      ∧ (share found.languages (found.verdict format platform).language = 1 ↔
          ∀ a ∈ found.languages, ∀ b ∈ found.languages, a = b))
    ∧ (found.languages = [] →
      (found.verdict format platform).language = Text.ofString "Unknown"
      ∧ (found.verdict format platform).confidence = Double.zero false)
    ∧ (found.verdict format platform).candidates = found.languages
    ∧ (found.verdict format platform).evidence = found.evidence := by
  refine ⟨fun hsome => ?_, fun hnone => ?_, rfl, rfl⟩
  -- what is said of the leader holds of the language, for the verdict names the leader
  · have hleader := isLeader_leader hsome
    rw [verdict_of_ne_nil hsome]
    refine ⟨hleader, isNearest_share hleader.mem, share_pos hleader.mem, share_le_one _ _, ?_⟩
    rw [share_eq_one_iff hleader.mem]
    constructor
    · intro hall a ha b hb
      rw [hall a ha, hall b hb]
    · exact fun hall other hother => hall other hother _ hleader.mem
  · have hempty : found.languages.isEmpty = true := List.isEmpty_iff.mpr hnone
    rw [Findings.verdict, if_pos hempty]
    exact ⟨rfl, rfl⟩

/-- A language that catches up in the end has been met first, and is named. -/
example : ((⟨["Go", "Rust", "Rust", "Go"], []⟩ : Findings).verdict .elf "Linux").language
    = Text.ofString "Go" := by
  decide

end Provenance
