import Provenance.Text

/-!
# Contiguous parts

* `occursIn` — whether one list is a contiguous part of another, with `occursIn_iff`.
* `contains` — the same for texts.
* `infix_append_cons_iff` — what is part of two lists with a mark between them.
-/

namespace Provenance.Text

/-- Whether `part` stands somewhere in a list, without a break. -/
def occursIn {α : Type} [BEq α] (part : List α) : List α → Bool
  | [] => part.isEmpty
  | x :: rest => part.isPrefixOf (x :: rest) || occursIn part rest

/-- Whether `part` stands somewhere in a text. -/
def contains (text part : Text) : Bool := occursIn part text

theorem occursIn_iff {α : Type} [BEq α] [LawfulBEq α] {part xs : List α} :
    occursIn part xs = true ↔ part <:+: xs := by
  induction xs with
  | nil => simp [occursIn]
  | cons x rest ih =>
    rw [occursIn, Bool.or_eq_true, ih, List.isPrefixOf_iff_prefix, List.infix_cons_iff]

theorem prefix_of_prefix_append_cons {α : Type} {part xs ys : List α} {mark : α}
    (hmark : mark ∉ part) (h : part <+: xs ++ mark :: ys) : part <+: xs := by
  -- the part would have to hold the mark before it could reach past it
  induction xs generalizing part with
  | nil =>
    cases part with
    | nil => exact List.nil_prefix
    | cons x rest =>
      obtain ⟨rfl, -⟩ := List.cons_prefix_cons.mp h
      exact absurd List.mem_cons_self hmark
  | cons first more ih =>
    cases part with
    | nil => exact List.nil_prefix
    | cons x rest =>
      obtain ⟨rfl, hrest⟩ := List.cons_prefix_cons.mp h
      exact List.cons_prefix_cons.mpr ⟨rfl, ih (fun h => hmark (List.mem_cons_of_mem x h)) hrest⟩

/-- What has no mark in it does not stand across a mark. -/
theorem infix_append_cons_iff {α : Type} {part xs ys : List α} {mark : α} (hmark : mark ∉ part) :
    part <:+: xs ++ mark :: ys ↔ part <:+: xs ∨ part <:+: ys := by
  constructor
  · intro h
    -- where the part starts: at the first place that is left, or behind it
    induction xs with
    | nil =>
      rcases List.infix_cons_iff.mp h with hfront | hback
      · have hnone : part <+: [] := prefix_of_prefix_append_cons hmark hfront
        exact Or.inl hnone.isInfix
      · exact Or.inr hback
    | cons first more ih =>
      rcases List.infix_cons_iff.mp h with hfront | hback
      · have hbefore : part <+: first :: more := prefix_of_prefix_append_cons hmark hfront
        exact Or.inl hbefore.isInfix
      · exact (ih hback).imp_left fun h => List.infix_cons_iff.mpr (Or.inr h)
  · rintro (h | h)
    · exact h.trans (List.prefix_append xs (mark :: ys)).isInfix
    · exact h.trans ((List.suffix_cons mark ys).isInfix.trans
        (List.suffix_append xs (mark :: ys)).isInfix)

theorem contains_iff {text part : Text} : contains text part = true ↔ part <:+: text :=
  occursIn_iff

end Provenance.Text
