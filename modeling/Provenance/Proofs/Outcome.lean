/-!
# Outcomes

What it means for a computation that may fail to end in a certain way, one lemma for each way of
putting computations together. Proofs about the readers take their runs apart with these.

* `bind_eq_ok_iff`, `bind_eq_error_iff` — two computations, one after the other.
* `bind_ne_error`, `elim_ne_error` — a failure that none of several steps ends with.
* `exists_ok_of_any`, `eq_ok_of_toOption` — a computation that succeeds, from a test of its result.
* `map_eq_ok_iff`, `mapError_eq_ok_iff` and their partners — a result or a failure turned into
  another.
* `ite_error_eq_error`, `ite_error_eq_ok_iff`, `ite_ok_eq_error` — a check that fails or ends a
  computation early.
* `mapM_eq_ok_iff`, `mapM_ite_eq_ok_iff`, `exists_mapM_eq_ok_iff`, `exists_mem_of_mapM_eq_error` —
  one computation for each element of a list.
-/

namespace Provenance

variable {α β ε δ : Type}

/-- Two computations succeed when the first does, and the second on its result. -/
theorem bind_eq_ok_iff {x : Except ε α} {f : α → Except ε β} {b : β} :
    x >>= f = .ok b ↔ ∃ a, x = .ok a ∧ f a = .ok b := by
  cases x with
  | ok a => simp [bind, Except.bind]
  | error e => simp [bind, Except.bind]

/-- Two computations fail at the first, or else at the second. -/
theorem bind_eq_error_iff {x : Except ε α} {f : α → Except ε β} {e : ε} :
    x >>= f = .error e ↔ x = .error e ∨ ∃ a, x = .ok a ∧ f a = .error e := by
  cases x with
  | ok a => simp [bind, Except.bind]
  | error e => simp [bind, Except.bind]

/-- A failure that neither of two computations ends with is not met by one after the other. -/
theorem bind_ne_error {x : Except ε α} {f : α → Except ε β} {e : ε} (hx : x ≠ .error e)
    (hf : ∀ a, x = .ok a → f a ≠ .error e) : x >>= f ≠ .error e := by
  intro h
  rcases bind_eq_error_iff.mp h with herror | ⟨a, ha, herror⟩
  · exact hx herror
  · exact hf a ha herror

/-- A missing value fails with its own failure, and with no other. -/
theorem elim_ne_error {x? : Option α} {e other : ε} (h : other ≠ e) :
    x?.elim (.error other) Except.ok ≠ .error e := by
  cases x? with
  | none => exact fun heq => h (Except.error.inj heq)
  | some a => exact nofun

/-- A value that may be missing is a result exactly when it is there. -/
theorem elim_eq_ok_iff {x? : Option α} {e : ε} {a : α} :
    x?.elim (.error e) Except.ok = .ok a ↔ x? = some a := by
  cases x? with
  | none => exact ⟨nofun, nofun⟩
  | some b =>
    constructor
    · intro h
      exact congrArg some (Except.ok.inj h)
    · intro h
      exact congrArg Except.ok (Option.some.inj h)

/-- A result that passes a test is a result. -/
theorem exists_ok_of_any {x : Except ε α} {p : α → Bool} (h : x.toOption.any p = true) :
    ∃ a, x = .ok a ∧ p a = true := by
  cases x with
  | error e => cases h
  | ok a => exact ⟨a, rfl, h⟩

/-- A computation with a result has succeeded. -/
theorem eq_ok_of_toOption {x : Except ε α} {a : α} (h : x.toOption = some a) : x = .ok a := by
  cases x with
  | error e => cases h
  | ok b =>
    cases h
    rfl

theorem map_eq_ok_iff {x : Except ε α} {f : α → β} {b : β} :
    x.map f = .ok b ↔ ∃ a, x = .ok a ∧ f a = b := by
  cases x <;> simp [Except.map]

theorem map_eq_error_iff {x : Except ε α} {f : α → β} {e : ε} :
    x.map f = .error e ↔ x = .error e := by
  cases x <;> simp [Except.map]

/-- Renaming failures keeps a result. -/
@[simp]
theorem mapError_ok {f : ε → δ} {a : α} : (Except.ok a : Except ε α).mapError f = .ok a := rfl

/-- A failure is renamed. -/
@[simp]
theorem mapError_error {f : ε → δ} {e : ε} :
    (Except.error e : Except ε α).mapError f = .error (f e) := rfl

/-- Renaming failures makes no results, and takes none away. -/
theorem mapError_eq_ok_iff {x : Except ε α} {f : ε → δ} {a : α} :
    x.mapError f = .ok a ↔ x = .ok a := by
  cases x with
  | ok a' => rw [mapError_ok, Except.ok.injEq, Except.ok.injEq]
  | error e =>
    constructor
    · intro h
      cases h
    · intro h
      cases h

/-- A renamed failure comes from one of the computation itself. -/
theorem mapError_eq_error_iff {x : Except ε α} {f : ε → δ} {d : δ} :
    x.mapError f = .error d ↔ ∃ e, x = .error e ∧ f e = d := by
  cases x with
  | ok a =>
    constructor
    · intro h
      cases h
    · rintro ⟨e, h, -⟩
      cases h
  | error e =>
    rw [mapError_error, Except.error.injEq]
    constructor
    · intro h
      exact ⟨e, rfl, h⟩
    · rintro ⟨e', h, hd⟩
      cases h
      exact hd

/-- A checked computation fails with the check, or by itself. -/
theorem ite_error_eq_error {p : Prop} [Decidable p] {x : Except ε α} {e e' : ε}
    (h : (if p then .error e' else x) = .error e) : e' = e ∨ x = .error e := by
  by_cases hp : p
  · rw [if_pos hp] at h
    exact .inl (Except.error.inj h)
  · rw [if_neg hp] at h
    exact .inr h

/-- A checked computation succeeds when the check lets it, and then by itself. -/
theorem ite_error_eq_ok_iff {p : Prop} [Decidable p] {x : Except ε α} {e : ε} {a : α} :
    (if p then .error e else x) = .ok a ↔ ¬ p ∧ x = .ok a := by
  by_cases hp : p
  · rw [if_pos hp]
    constructor
    · intro h
      cases h
    · rintro ⟨hnot, -⟩
      exact absurd hp hnot
  · rw [if_neg hp]
    exact (and_iff_right hp).symm

/-- A computation that a check may end early fails only by itself. -/
theorem ite_ok_eq_error {p : Prop} [Decidable p] {x : Except ε α} {a : α} {e : ε}
    (h : (if p then .ok a else x) = .error e) : x = .error e := by
  by_cases hp : p
  · rw [if_pos hp] at h
    cases h
  · rwa [if_neg hp] at h

/-- A list is gone through as a whole exactly when every element has a result. -/
theorem mapM_eq_ok_iff {f : α → Except ε β} {xs : List α} {ys : List β} :
    xs.mapM f = .ok ys ↔ xs.map f = ys.map .ok := by
  -- the induction is on the list: the first element, and then the others
  induction xs generalizing ys with
  | nil =>
    rw [List.mapM_nil, List.map_nil]
    constructor
    · rintro ⟨⟩
      rfl
    · intro h
      rw [List.map_eq_nil_iff.mp h.symm]
      rfl
  | cons x rest ih =>
    rw [List.mapM_cons, List.map_cons, bind_eq_ok_iff]
    constructor
    · rintro ⟨y, hx, h⟩
      obtain ⟨ys', hrest, h⟩ := bind_eq_ok_iff.mp h
      cases h
      rw [List.map_cons, hx, ih.mp hrest]
    · intro h
      obtain ⟨y, ys', rfl, hy, hrest⟩ := List.map_eq_cons_iff.mp h.symm
      exact ⟨y, hy.symm, bind_eq_ok_iff.mpr ⟨ys', ih.mpr hrest.symm, rfl⟩⟩

theorem mapM_eq_ok_of_forall {f : α → Except ε β} {g : α → β} {xs : List α}
    (h : ∀ x ∈ xs, f x = .ok (g x)) : xs.mapM f = .ok (xs.map g) := by
  rw [mapM_eq_ok_iff, List.map_map]
  exact List.map_congr_left h

/-- A list is gone through with results of a kind if each element has one of that kind. -/
theorem exists_mapM_eq_ok_map {γ : Type} {f : α → Except ε β} {g : γ → β} {xs : List α}
    (h : ∀ x ∈ xs, ∃ c, f x = .ok (g c)) : ∃ cs : List γ, xs.mapM f = .ok (cs.map g) := by
  induction xs with
  | nil => exact ⟨[], rfl⟩
  | cons x rest ih =>
    rw [List.forall_mem_cons] at h
    obtain ⟨⟨c, hc⟩, hrest⟩ := h
    obtain ⟨cs, hcs⟩ := ih hrest
    refine ⟨c :: cs, ?_⟩
    rw [List.mapM_cons, hc, hcs]
    rfl

/-- There is a result for the whole list exactly when there is one for each element. -/
theorem exists_mapM_eq_ok_iff {f : α → Except ε β} {xs : List α} :
    (∃ ys, xs.mapM f = .ok ys) ↔ ∀ x ∈ xs, ∃ y, f x = .ok y := by
  constructor
  · rintro ⟨ys, h⟩ x hx
    -- an element that fails would have no place among the results
    have hmem : f x ∈ ys.map .ok := mapM_eq_ok_iff.mp h ▸ List.mem_map_of_mem hx
    obtain ⟨y, -, hy⟩ := List.mem_map.mp hmem
    exact ⟨y, hy.symm⟩
  · intro h
    obtain ⟨ys, hys⟩ := exists_mapM_eq_ok_map (g := id) h
    exact ⟨_, hys⟩

/-- A list is gone through with a check exactly when each element passes it. -/
theorem mapM_ite_eq_ok_iff {f : α → Except ε β} {p : α → Prop} [DecidablePred p] {g : α → β}
    {e : α → ε} (hf : ∀ x, f x = if p x then .ok (g x) else .error (e x)) {xs : List α}
    {ys : List β} : xs.mapM f = .ok ys ↔ (∀ x ∈ xs, p x) ∧ ys = xs.map g := by
  -- where every element passes, the results are those of `g`
  have hrun : (∀ x ∈ xs, p x) → xs.mapM f = .ok (xs.map g) := by
    intro hall
    apply mapM_eq_ok_of_forall
    intro x hx
    rw [hf x, if_pos (hall x hx)]
  constructor
  · intro h
    have hall : ∀ x ∈ xs, p x := by
      intro x hx
      obtain ⟨y, hy⟩ := exists_mapM_eq_ok_iff.mp ⟨ys, h⟩ x hx
      by_cases hp : p x
      · exact hp
      · rw [hf x, if_neg hp] at hy
        cases hy
    exact ⟨hall, Except.ok.inj (h.symm.trans (hrun hall))⟩
  · rintro ⟨hall, rfl⟩
    exact hrun hall

/-- A list that is not gone through as a whole stops at the failure of one of its elements. -/
theorem exists_mem_of_mapM_eq_error {f : α → Except ε β} {xs : List α} {e : ε}
    (h : xs.mapM f = .error e) : ∃ x ∈ xs, f x = .error e := by
  induction xs with
  | nil => cases h
  | cons x rest ih =>
    rw [List.mapM_cons] at h
    -- the first failure met is that of the whole run
    rcases bind_eq_error_iff.mp h with hx | ⟨y, -, h⟩
    · exact ⟨x, List.mem_cons_self .., hx⟩
    · rcases bind_eq_error_iff.mp h with hrest | ⟨ys, -, h⟩
      · obtain ⟨x', hmem, hx'⟩ := ih hrest
        exact ⟨x', List.mem_cons_of_mem _ hmem, hx'⟩
      · cases h

end Provenance
