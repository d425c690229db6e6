import Mathlib.Data.List.Forall2

/-!
# Tables that end with a mark

A table is a row of entries, some of which may not be there; it ends at the first entry of a certain
kind, and no more than a limit of them is looked at.

* `exists_of_forall₂_of_mem`, `exists_mem_iff_of_forall₂`, `exists_forall₂` — two lists with related
  elements.
* `Listed` — the entries before the end of a table, which are all there.
* `Reached` — an entry has to be looked at to tell where the table ends.
* `listed_succ_iff`, `Reached.succ` — a table told from its first entry and the table behind it.
* `ListedAs` — what the entries of a table are read as, and how that is told from its first entry.
* `Listed.exists_of_reached` — what has to be looked at in a table that can be listed is there: a
  table can be listed, or there is an entry missing, but not both.
* `ComesTo` — a walk over a table comes to an entry; `comesTo_iff_of_listed` says that these are the
  listed ones, if the walk is stopped by none of them.
-/

namespace Provenance

/-! ## Lists side by side -/

/-- What is related elementwise has a partner for each element. -/
theorem exists_of_forall₂_of_mem {α β : Type} {R : α → β → Prop} {as : List α} {bs : List β}
    (h : List.Forall₂ R as bs) {a : α} (ha : a ∈ as) : ∃ b, R a b := by
  induction h with
  | nil => cases ha
  | cons hfirst _ ih =>
    rcases List.mem_cons.mp ha with rfl | ha
    · exact ⟨_, hfirst⟩
    · exact ih ha

/-- Properties that agree on partners hold of some element on either side. -/
theorem exists_mem_iff_of_forall₂ {α β : Type} {R : α → β → Prop} {as : List α} {bs : List β}
    {P : α → Prop} {Q : β → Prop} (h : List.Forall₂ R as bs)
    (hiff : ∀ a b, R a b → (P a ↔ Q b)) : (∃ a ∈ as, P a) ↔ ∃ b ∈ bs, Q b := by
  induction h with
  | nil => exact iff_of_false (fun ⟨_, h, _⟩ => nomatch h) (fun ⟨_, h, _⟩ => nomatch h)
  | cons hfirst _ ih => rw [List.exists_mem_cons_iff, List.exists_mem_cons_iff, hiff _ _ hfirst, ih]

/-- Where each element has a partner, there is a list of partners. -/
theorem exists_forall₂ {α β : Type} {R : α → β → Prop} {as : List α}
    (h : ∀ a ∈ as, ∃ b, R a b) : ∃ bs, List.Forall₂ R as bs := by
  induction as with
  | nil => exact ⟨[], .nil⟩
  | cons a rest ih =>
    obtain ⟨b, hb⟩ := h a (List.mem_cons_self ..)
    obtain ⟨bs, hbs⟩ := ih fun a' ha => h a' (List.mem_cons_of_mem _ ha)
    exact ⟨b :: bs, .cons hb hbs⟩

/-!
## Tables

A table goes on from entry to entry until one of them ends it, or the limit is met. `Listed` says
what it holds, `Reached` how far a walk comes, and `ComesTo` which entries it comes to.
-/

variable {α : Type}

/-- The entries of a table before the first one that ends it, at most `limit` of them. -/
structure Listed (entryAt? : Nat → Option α) (Ends : α → Prop) (limit : Nat) (found : List α) :
    Prop where
  bounded : found.length ≤ limit
  each : ∀ i a, found[i]? = some a → entryAt? i = some a ∧ ¬ Ends a
  ended : found.length < limit → ∃ a, entryAt? found.length = some a ∧ Ends a

/-- The entry of a number has to be looked at: all before it are there, and none ends the table. -/
def Reached (entryAt? : Nat → Option α) (Ends : α → Prop) (limit i : Nat) : Prop :=
  i < limit ∧ ∀ j < i, ∃ a, entryAt? j = some a ∧ ¬ Ends a

section Walk

variable {entryAt? : Nat → Option α} {Ends : α → Prop} {limit : Nat} {found : List α} {a : α}

/-- With no entry to look at, nothing is listed. -/
theorem listed_zero_iff : Listed entryAt? Ends 0 found ↔ found = [] := by
  constructor
  · intro h
    exact List.eq_nil_of_length_eq_zero (Nat.le_zero.mp h.bounded)
  · rintro rfl
    exact ⟨Nat.le_refl _, nofun, fun h => absurd h (Nat.lt_irrefl _)⟩

/-- A table whose first entry is there ends with it or goes on behind it. -/
theorem listed_succ_iff (h : entryAt? 0 = some a) :
    Listed entryAt? Ends (limit + 1) found ↔
      (Ends a ∧ found = [])
        ∨ (¬ Ends a ∧ ∃ rest, found = a :: rest
            ∧ Listed (fun i => entryAt? (i + 1)) Ends limit rest) := by
  constructor
  · intro hlist
    cases found with
    | nil =>
      -- nothing is listed, so that the first entry has to end the table
      obtain ⟨b, hb, hend⟩ := hlist.ended (Nat.succ_pos _)
      cases h.symm.trans hb
      exact .inl ⟨hend, rfl⟩
    | cons b rest =>
      -- the first entry is listed, and the others are the entries behind it
      obtain ⟨hb, hgo⟩ := hlist.each 0 b rfl
      cases h.symm.trans hb
      refine .inr ⟨hgo, rest, rfl, Nat.le_of_succ_le_succ hlist.bounded, ?_, ?_⟩
      · intro i c hc
        exact hlist.each (i + 1) c hc
      · intro hlt
        exact hlist.ended (Nat.succ_lt_succ hlt)
  · rintro (⟨hend, rfl⟩ | ⟨hgo, rest, rfl, hrest⟩)
    · exact ⟨Nat.zero_le _, nofun, fun _ => ⟨a, h, hend⟩⟩
    · refine ⟨Nat.succ_le_succ hrest.bounded, ?_, ?_⟩
      · intro i b hb
        cases i with
        | zero =>
          cases hb
          exact ⟨h, hgo⟩
        | succ i => exact hrest.each i b hb
      · intro hlt
        exact hrest.ended (Nat.lt_of_succ_lt_succ hlt)

/-- A table whose first entry is missing cannot be listed. -/
theorem not_listed_of_missing (h : entryAt? 0 = none) :
    ¬ Listed entryAt? Ends (limit + 1) found := by
  intro hlist
  cases found with
  | nil =>
    obtain ⟨a, ha, -⟩ := hlist.ended (Nat.succ_pos _)
    cases h.symm.trans ha
  | cons a rest => cases h.symm.trans (hlist.each 0 a rfl).1

theorem Reached.zero : Reached entryAt? Ends (limit + 1) 0 :=
  ⟨Nat.succ_pos _, fun j hj => absurd hj (Nat.not_lt_zero j)⟩

/-- What is looked at behind the first entry is looked at in the whole table. -/
theorem Reached.succ {i : Nat} (h : entryAt? 0 = some a) (hgo : ¬ Ends a)
    (hrest : Reached (fun i => entryAt? (i + 1)) Ends limit i) :
    Reached entryAt? Ends (limit + 1) (i + 1) := by
  refine ⟨Nat.succ_lt_succ hrest.1, fun j hj => ?_⟩
  cases j with
  | zero => exact ⟨a, h, hgo⟩
  | succ j => exact hrest.2 j (Nat.lt_of_succ_lt_succ hj)

/-- An entry that has to be looked at in a table that can be listed is there: it is listed, or it
ends the table. -/
theorem Listed.exists_of_reached (hlist : Listed entryAt? Ends limit found) {i : Nat}
    (h : Reached entryAt? Ends limit i) :
    ∃ a, entryAt? i = some a ∧ (Ends a ∨ a ∈ found) := by
  obtain ⟨hlimit, hbefore⟩ := h
  -- before, at or behind the end of what is listed
  rcases Nat.lt_trichotomy i found.length with hlt | heq | hgt
  · have hget := List.getElem?_eq_getElem hlt
    exact ⟨found[i], (hlist.each i _ hget).1, .inr (List.getElem_mem hlt)⟩
  · obtain ⟨a, ha, hend⟩ := hlist.ended (heq ▸ hlimit)
    exact ⟨a, heq ▸ ha, .inl hend⟩
  · -- the table would have ended before
    obtain ⟨a, ha, hend⟩ := hlist.ended (Nat.lt_trans hgt hlimit)
    obtain ⟨b, hb, hgo⟩ := hbefore _ hgt
    rw [ha] at hb
    cases hb
    exact absurd hend hgo

/-- A walk from the start of a table comes to an entry. -/
def ComesTo (entryAt? : Nat → Option α) (Ends : α → Prop) (limit : Nat) (a : α) : Prop :=
  ∃ i, Reached entryAt? Ends limit i ∧ entryAt? i = some a

theorem not_comesTo_zero : ¬ ComesTo entryAt? Ends 0 a :=
  fun ⟨_, hreached, _⟩ => absurd hreached.1 (Nat.not_lt_zero _)

/-- From a table without a first entry a walk comes to none. -/
theorem not_comesTo_of_missing (h : entryAt? 0 = none) : ¬ ComesTo entryAt? Ends limit a := by
  rintro ⟨i, hreached, hi⟩
  cases i with
  | zero => cases h.symm.trans hi
  | succ i =>
    obtain ⟨b, hb, -⟩ := hreached.2 0 (Nat.succ_pos i)
    cases h.symm.trans hb

/-- A walk comes to the first entry, and if this does not end it to those behind. -/
theorem comesTo_succ_iff (h : entryAt? 0 = some a) {b : α} :
    ComesTo entryAt? Ends (limit + 1) b ↔
      b = a ∨ (¬ Ends a ∧ ComesTo (fun i => entryAt? (i + 1)) Ends limit b) := by
  constructor
  · rintro ⟨i, ⟨hlimit, hbefore⟩, hi⟩
    -- the walk comes to its first entry, or goes on behind it
    cases i with
    | zero => exact .inl (Option.some.inj (hi.symm.trans h))
    | succ i =>
      obtain ⟨c, hc, hgo⟩ := hbefore 0 (Nat.succ_pos i)
      cases h.symm.trans hc
      exact .inr ⟨hgo, i, ⟨Nat.lt_of_succ_lt_succ hlimit,
        fun j hj => hbefore (j + 1) (Nat.succ_lt_succ hj)⟩, hi⟩
  · rintro (rfl | ⟨hgo, i, hreached, hi⟩)
    · exact ⟨0, Reached.zero, h⟩
    · exact ⟨i + 1, hreached.succ h hgo, hi⟩

/-- In a table that can be listed a walk comes to the listed entries, if none of them stops it. -/
theorem comesTo_iff_of_listed {Stops : α → Prop} (hlist : Listed entryAt? Ends limit found)
    (hgo : ∀ a ∈ found, ¬ Stops a) :
    (ComesTo entryAt? (fun a => Ends a ∨ Stops a) limit a ∧ ¬ Ends a) ↔ a ∈ found := by
  constructor
  · rintro ⟨⟨i, ⟨hlimit, hbefore⟩, hi⟩, hends⟩
    -- whatever comes in front of the entry does not end the table either
    have hreached : Reached entryAt? Ends limit i := by
      refine ⟨hlimit, fun j hj => ?_⟩
      obtain ⟨b, hb, hstay⟩ := hbefore j hj
      exact ⟨b, hb, fun h => hstay (.inl h)⟩
    obtain ⟨b, hb, hcase⟩ := hlist.exists_of_reached hreached
    cases hi.symm.trans hb
    exact hcase.resolve_left hends
  · intro ha
    obtain ⟨i, hi⟩ := List.mem_iff_getElem?.mp ha
    obtain ⟨hentry, hends⟩ := hlist.each i a hi
    obtain ⟨hlt, -⟩ := List.getElem?_eq_some_iff.mp hi
    refine ⟨⟨i, ⟨Nat.lt_of_lt_of_le hlt hlist.bounded, fun j hj => ?_⟩, hentry⟩, hends⟩
    -- the entries in front of it are listed as well
    have hj : found[j]? = some found[j] := List.getElem?_eq_getElem (by omega)
    obtain ⟨hfront, hstay⟩ := hlist.each j _ hj
    exact ⟨_, hfront, fun h => h.elim hstay (hgo _ (List.mem_of_getElem? hj))⟩

end Walk

/-!
## Entries that are read

Some entries are passed over, and each of the others is read as an element of the list.
-/

/-- What the entries of a table are read as, those that are kept. -/
def ListedAs {β : Type} (entryAt? : Nat → Option α) (Ends : α → Prop) (keep : α → Bool)
    (R : α → β → Prop) (limit : Nat) (found : List β) : Prop :=
  ∃ entries, Listed entryAt? Ends limit entries ∧ List.Forall₂ R (entries.filter keep) found

section ListedAs

variable {β : Type} {entryAt? : Nat → Option α} (Ends : α → Prop) (keep : α → Bool)
  {R : α → β → Prop} {limit : Nat} {found : List β} {a : α}

/-- With no entry to look at, nothing is read. -/
theorem listedAs_zero_iff : ListedAs entryAt? Ends keep R 0 found ↔ found = [] := by
  constructor
  · rintro ⟨entries, hlisted, hread⟩
    rw [listed_zero_iff.mp hlisted] at hread
    cases hread
    rfl
  · rintro rfl
    exact ⟨[], listed_zero_iff.mpr rfl, .nil⟩

theorem not_listedAs_of_missing (h : entryAt? 0 = none) :
    ¬ ListedAs entryAt? Ends keep R (limit + 1) found := by
  rintro ⟨entries, hlisted, -⟩
  exact not_listed_of_missing h hlisted

/-- A table that its first entry ends is read as nothing. -/
theorem listedAs_succ_of_ends (h : entryAt? 0 = some a) (hend : Ends a) :
    ListedAs entryAt? Ends keep R (limit + 1) found ↔ found = [] := by
  constructor
  · rintro ⟨entries, hlisted, hread⟩
    rcases (listed_succ_iff h).mp hlisted with ⟨-, rfl⟩ | ⟨hgo, -⟩
    · cases hread
      rfl
    · exact absurd hend hgo
  · rintro rfl
    exact ⟨[], (listed_succ_iff h).mpr (.inl ⟨hend, rfl⟩), .nil⟩

/-- A first entry that is kept is read, and the others behind it. -/
theorem listedAs_succ_of_keep (h : entryAt? 0 = some a) (hgo : ¬ Ends a) (hkeep : keep a = true) :
    ListedAs entryAt? Ends keep R (limit + 1) found ↔
      ∃ b rest, found = b :: rest ∧ R a b
        ∧ ListedAs (fun i => entryAt? (i + 1)) Ends keep R limit rest := by
  constructor
  · rintro ⟨entries, hlisted, hread⟩
    rcases (listed_succ_iff h).mp hlisted with ⟨hend, -⟩ | ⟨-, behind, rfl, hbehind⟩
    · exact absurd hend hgo
    · rw [List.filter_cons_of_pos hkeep] at hread
      cases hread with
      | cons hfirst hrest => exact ⟨_, _, rfl, hfirst, behind, hbehind, hrest⟩
  · rintro ⟨b, rest, rfl, hfirst, behind, hbehind, hrest⟩
    refine ⟨a :: behind, (listed_succ_iff h).mpr (.inr ⟨hgo, behind, rfl, hbehind⟩), ?_⟩
    rw [List.filter_cons_of_pos hkeep]
    exact .cons hfirst hrest

/-- A first entry that is not kept is left out. -/
theorem listedAs_succ_of_skip (h : entryAt? 0 = some a) (hgo : ¬ Ends a) (hskip : ¬ keep a = true) :
    ListedAs entryAt? Ends keep R (limit + 1) found ↔
      ListedAs (fun i => entryAt? (i + 1)) Ends keep R limit found := by
  constructor
  · rintro ⟨entries, hlisted, hread⟩
    rcases (listed_succ_iff h).mp hlisted with ⟨hend, -⟩ | ⟨-, behind, rfl, hbehind⟩
    · exact absurd hend hgo
    · rw [List.filter_cons_of_neg hskip] at hread
      exact ⟨behind, hbehind, hread⟩
  · rintro ⟨behind, hbehind, hread⟩
    refine ⟨a :: behind, (listed_succ_iff h).mpr (.inr ⟨hgo, behind, rfl, hbehind⟩), ?_⟩
    rw [List.filter_cons_of_neg hskip]
    exact hread

end ListedAs

end Provenance
