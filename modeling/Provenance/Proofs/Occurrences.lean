import Mathlib.Data.List.Basic

/-!
# First occurrences

The elements of a list, each once, in the order in which they first occur in it.

* `FirstOccurrences` — what it is for a list to hold them; there is one such list only
  (`FirstOccurrences.unique`).
* `firstOccurrences_eraseDups` — dropping repeats from the front on gives this list.
-/

namespace Provenance

/-- The elements of a list, each once, in the order in which they first occur in it. -/
structure FirstOccurrences {α : Type} [BEq α] (all firsts : List α) : Prop where
  mem : ∀ a, a ∈ firsts ↔ a ∈ all
  order : firsts.Pairwise fun a b => all.idxOf a < all.idxOf b

namespace FirstOccurrences

variable {α : Type} [BEq α] {all firsts others : List α}

theorem nodup (h : FirstOccurrences all firsts) : firsts.Nodup := by
  refine h.order.imp ?_
  rintro a b hlt rfl
  exact Nat.lt_irrefl _ hlt

/-- A list has no other list of first occurrences. -/
theorem unique (h : FirstOccurrences all firsts) (h' : FirstOccurrences all others) :
    firsts = others := by
  have hperm : firsts.Perm others :=
    (List.perm_ext_iff_of_nodup h.nodup h'.nodup).mpr fun a => (h.mem a).trans (h'.mem a).symm
  refine hperm.eq_of_pairwise ?_ h.order h'.order
  intro a b _ _ hab hba
  exact absurd hab (Nat.lt_asymm hba)

end FirstOccurrences

section Lawful

variable {α : Type} [BEq α] [LawfulBEq α]

/-- Elements that are kept come in the order in which they came. -/
theorem idxOf_lt_of_filter {p : α → Bool} {a b : α} {xs : List α} (ha : p a = true)
    (hb : p b = true) (h : (xs.filter p).idxOf a < (xs.filter p).idxOf b) :
    xs.idxOf a < xs.idxOf b := by
  induction xs with
  | nil => exact h
  -- the kept element at the front is `b`, `a` or neither of the two
  | cons x rest ih =>
    by_cases hx : p x = true
    · rw [List.filter_cons_of_pos hx] at h
      by_cases hxb : x = b
      · subst hxb
        rw [List.idxOf_cons_self] at h
        exact absurd h (Nat.not_lt_zero _)
      by_cases hxa : x = a
      · subst hxa
        rw [List.idxOf_cons_self, List.idxOf_cons_ne _ hxb]
        exact Nat.succ_pos _
      rw [List.idxOf_cons_ne _ hxa, List.idxOf_cons_ne _ hxb] at h ⊢
      exact Nat.succ_lt_succ (ih (Nat.lt_of_succ_lt_succ h))
    · -- an element that is dropped is neither of the two
      have hxa : x ≠ a := fun heq => hx (heq ▸ ha)
      have hxb : x ≠ b := fun heq => hx (heq ▸ hb)
      rw [List.filter_cons_of_neg hx] at h
      rw [List.idxOf_cons_ne _ hxa, List.idxOf_cons_ne _ hxb]
      exact Nat.succ_lt_succ (ih h)

/-- Without its repeats, a list is in the order of first occurrences. -/
theorem pairwise_eraseDups : ∀ all : List α,
    all.eraseDups.Pairwise fun a b => all.idxOf a < all.idxOf b
  | [] => List.Pairwise.nil
  | a :: rest => by
    -- the rest is shorter by the repeats of the first element too
    have hshorter : (rest.filter fun b => !b == a).length < rest.length + 1 :=
      Nat.lt_succ_of_le (List.length_filter_le _ rest)
    have hkept : ∀ {b}, b ∈ (rest.filter fun b => !b == a).eraseDups → (!b == a) = true :=
      fun hb => (List.mem_filter.mp (List.mem_eraseDups.mp hb)).2
    have hne : ∀ {b}, b ∈ (rest.filter fun b => !b == a).eraseDups → a ≠ b := by
      intro b hb heq
      have h := hkept hb
      rw [heq, Bool.not_eq_true', beq_self_eq_true] at h
      cases h
    have hrest := pairwise_eraseDups (rest.filter fun b => !b == a)
    rw [List.eraseDups_cons]
    refine List.Pairwise.cons ?_ (hrest.imp_of_mem ?_)
    · intro b hb
      rw [List.idxOf_cons_self, List.idxOf_cons_ne _ (hne hb)]
      exact Nat.succ_pos _
    · intro b c hb hc hlt
      rw [List.idxOf_cons_ne _ (hne hb), List.idxOf_cons_ne _ (hne hc)]
      exact Nat.succ_lt_succ (idxOf_lt_of_filter (p := fun b => !b == a) (hkept hb) (hkept hc) hlt)
termination_by all => all.length

theorem firstOccurrences_eraseDups (all : List α) : FirstOccurrences all all.eraseDups where
  mem _ := List.mem_eraseDups
  order := pairwise_eraseDups all

end Lawful

end Provenance
