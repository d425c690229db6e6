import Mathlib.Data.List.TakeWhile
import Provenance.Text.Numeral

/-!
# Which texts spell an integer

The grammar of integers in text, apart from the way they are read: blanks, a sign, digits with
single underscores between them, blanks. Only the digits have to be there.

* `Grouped` — digits with single underscores between them; `decimal` — the number of the digits.
* `Spells` — a text spells an integer.
* `IsPlain` — a character that is no part of an integer unless it is a digit.

Main statements:

* `readInt?_eq_some_iff` — an integer is read exactly from the texts that spell it.
* `spells_iff_of_plain` — without blanks, signs and underscores these are digits, one or more.
-/

namespace Provenance.Text

/-!
## The grammar

What is read as an integer, told without the reader: blanks, a sign if there is one, then digits
with single underscores between them, and blanks again.
-/

/-- The number that decimal digits spell. -/
def decimal (digits : List Char) : Nat := digits.foldl (fun n d => 10 * n + (d.toNat - 48)) 0

/-- What may stand behind a digit: nothing, a further digit, or an underscore and a further digit.
The second list has the digits alone. -/
inductive AfterDigit : List Char → List Char → Prop
  | nothing : AfterDigit [] []
  | digit {d : Char} {text digits : List Char} (hd : d.isDigit = true)
      (h : AfterDigit text digits) : AfterDigit (d :: text) (d :: digits)
  | separated {d : Char} {text digits : List Char} (hd : d.isDigit = true)
      (h : AfterDigit text digits) : AfterDigit ('_' :: d :: text) (d :: digits)

/-- A text has the given digits, one or more, and at most one underscore between two of them. -/
inductive Grouped : List Char → List Char → Prop
  | first {d : Char} {text digits : List Char} (hd : d.isDigit = true)
      (h : AfterDigit text digits) : Grouped (d :: text) (d :: digits)

/-- A sign stands for a factor; no sign is a plus. -/
inductive SignOf : List Char → Int → Prop
  | none : SignOf [] 1
  | plus : SignOf ['+'] 1
  | minus : SignOf ['-'] (-1)

/-- A text spells an integer. -/
def Spells (text : List Char) (n : Int) : Prop :=
  ∃ front sign body back factor digits, text = front ++ (sign ++ body) ++ back
    ∧ (∀ c ∈ front, isAsciiBlank c = true) ∧ (∀ c ∈ back, isAsciiBlank c = true)
    ∧ SignOf sign factor ∧ Grouped body digits ∧ n = factor * decimal digits

/-- The character is neither a blank nor a sign nor an underscore. -/
def IsPlain (c : Char) : Prop := isAsciiBlank c = false ∧ c ≠ '+' ∧ c ≠ '-' ∧ c ≠ '_'

instance (c : Char) : Decidable (IsPlain c) := by
  unfold IsPlain
  infer_instance

/-! ## Blanks at the ends -/

section Strip

variable {α : Type} {p : α → Bool}

theorem dropWhile_append_of_all {front rest : List α} (h : ∀ c ∈ front, p c = true) :
    (front ++ rest).dropWhile p = rest.dropWhile p := by
  rw [List.dropWhile_append, List.dropWhile_eq_nil_iff.mpr h]
  rfl

theorem dropWhile_of_head {xs : List α} (h : ∀ c ∈ xs.head?, p c = false) :
    xs.dropWhile p = xs := by
  cases xs with
  | nil => rfl
  | cons c rest => rw [List.dropWhile_cons_of_neg (by simp [h c rfl])]

/-- What stands between blanks, and neither starts nor ends with one, is left. -/
theorem strip_append {front core back : List α} (hne : core ≠ [])
    (hfront : ∀ c ∈ front, p c = true) (hback : ∀ c ∈ back, p c = true)
    (hhead : ∀ c ∈ core.head?, p c = false) (hlast : ∀ c ∈ core.getLast?, p c = false) :
    strip p (front ++ core ++ back) = core := by
  -- what is cut off in front ends where the core begins, and the same goes for the end
  have hrest : (core ++ back).dropWhile p = core ++ back := by
    cases core with
    | nil => exact absurd rfl hne
    | cons c core => exact dropWhile_of_head hhead
  have hend : core.reverse.dropWhile p = core.reverse :=
    dropWhile_of_head (by rwa [List.head?_reverse])
  rw [strip, List.append_assoc, dropWhile_append_of_all hfront, hrest, List.reverse_append,
    dropWhile_append_of_all (by simpa using hback), hend, List.reverse_reverse]

/-- A text is what is left of it, with blanks on either side. -/
theorem exists_strip (p : α → Bool) (xs : List α) :
    ∃ front back, xs = front ++ strip p xs ++ back
      ∧ (∀ c ∈ front, p c = true) ∧ ∀ c ∈ back, p c = true := by
  refine ⟨xs.takeWhile p, ((xs.dropWhile p).reverse.takeWhile p).reverse, ?_, ?_, ?_⟩
  · rw [List.append_assoc, strip, ← List.reverse_append, List.takeWhile_append_dropWhile,
      List.reverse_reverse, List.takeWhile_append_dropWhile]
  · intro c hc
    exact List.mem_takeWhile_imp hc
  · intro c hc
    exact List.mem_takeWhile_imp (List.mem_reverse.mp hc)

end Strip

/-! ## Digits with underscores between them -/

theorem ne_underscore_of_isDigit {d : Char} (hd : d.isDigit = true) : d ≠ '_' := by
  rintro rfl
  cases hd

/-- A character that is no underscore is kept. -/
theorem dropSeparators?_cons {d : Char} (hne : d ≠ '_') (b : Bool) (text : List Char) :
    dropSeparators? b (d :: text) = (dropSeparators? d.isDigit text).map (d :: ·) := by
  rw [dropSeparators?, if_neg (by simpa using hne)]
  rintro d' rest rfl
  exact absurd rfl hne

/-- Behind a digit the underscores are dropped as the grammar says. -/
theorem AfterDigit.dropSeparators? {text digits : List Char} (h : AfterDigit text digits) :
    dropSeparators? true text = some digits ∧ ∀ d ∈ digits, d.isDigit = true := by
  induction h with
  | nothing => exact ⟨rfl, by simp⟩
  -- a digit behind a digit
  | @digit d text digits hd _ ih =>
    rw [dropSeparators?_cons (ne_underscore_of_isDigit hd), hd, ih.1]
    exact ⟨rfl, by simpa [hd] using ih.2⟩
  -- an underscore behind a digit, and a digit behind the underscore
  | @separated d text digits hd _ ih =>
    rw [Text.dropSeparators?, hd, ih.1]
    exact ⟨rfl, by simpa [hd] using ih.2⟩

/-- Where digits are left behind a digit, the text is one of the grammar. -/
theorem afterDigit_of_dropSeparators? {b : Bool} {text digits : List Char} (hb : b = true)
    (h : dropSeparators? b text = some digits) (hdigits : ∀ d ∈ digits, d.isDigit = true) :
    AfterDigit text digits := by
  -- one case for each clause of the reader; two of them drop nothing and fail
  fun_induction dropSeparators? b text generalizing digits with
  | case1 =>
    cases h
    exact .nothing
  | case2 b d rest hd ih =>
    rw [Option.map_eq_some_iff] at h
    obtain ⟨digits, hrest, rfl⟩ := h
    rw [List.forall_mem_cons] at hdigits
    exact .separated hdigits.1 (ih rfl hrest hdigits.2)
  | case3 => cases h
  | case4 => cases h
  | case5 b c rest _ hc ih =>
    rw [Option.map_eq_some_iff] at h
    obtain ⟨digits, hrest, rfl⟩ := h
    -- a character that is no digit is kept too, and then it is among the digits
    rw [List.forall_mem_cons] at hdigits
    exact .digit hdigits.1 (ih hdigits.1 hrest hdigits.2)

/-- The value of digits is told by all of them, and there is none if one of them is no digit. -/
theorem digitsValue?_eq_some_iff {digits : List Char} {n m : Nat} :
    digitsValue? n digits = some m
      ↔ (∀ d ∈ digits, d.isDigit = true)
        ∧ digits.foldl (fun n d => 10 * n + (d.toNat - 48)) n = m := by
  induction digits generalizing n with
  | nil => simp [digitsValue?]
  | cons d rest ih =>
    rw [digitsValue?, List.forall_mem_cons, List.foldl_cons]
    split
    · next hd => rw [ih, and_assoc, and_iff_right hd]
    · next hd => simp [hd]

/-- A number is read exactly from digits that are grouped by underscores. -/
theorem readNat?_eq_some_iff {text : List Char} {n : Nat} :
    readNat? text = some n ↔ ∃ digits, Grouped text digits ∧ n = decimal digits := by
  constructor
  · intro h
    rw [readNat?] at h
    -- without digits, with an underscore out of place, or with digits all through
    split at h
    · cases h
    · cases h
    · next digits hne hdrop =>
      obtain ⟨hdigits, hvalue⟩ := digitsValue?_eq_some_iff.mp h
      refine ⟨digits, ?_, hvalue.symm⟩
      cases text with
      | nil =>
        cases hdrop
        exact absurd rfl hne
      | cons d text =>
        have hd : d ≠ '_' := by
          rintro rfl
          cases text <;> cases hdrop
        rw [dropSeparators?_cons hd, Option.map_eq_some_iff] at hdrop
        obtain ⟨digits, hrest, rfl⟩ := hdrop
        rw [List.forall_mem_cons] at hdigits
        exact .first hdigits.1 (afterDigit_of_dropSeparators? hdigits.1 hrest hdigits.2)
  · rintro ⟨_, ⟨hd, hrest⟩, rfl⟩
    obtain ⟨hdrop, hdigits⟩ := hrest.dropSeparators?
    rw [readNat?, dropSeparators?_cons (ne_underscore_of_isDigit hd), hd, hdrop]
    exact digitsValue?_eq_some_iff.mpr ⟨List.forall_mem_cons.mpr ⟨hd, hdigits⟩, rfl⟩

/-! ## Signs and blanks -/

/-- A digit is no blank. -/
theorem isAsciiBlank_of_isDigit {d : Char} (hd : d.isDigit = true) : isAsciiBlank d = false := by
  simp only [Char.isDigit, Bool.and_eq_true, decide_eq_true_eq, UInt32.le_iff_toNat_le] at hd
  have hspace : d ≠ ' ' := by
    rintro rfl
    exact absurd hd.1 (by decide)
  -- the blanks are the space and the codes 9 to 13, all below the digits
  have hcode : 48 ≤ d.toNat := hd.1
  simp [isAsciiBlank, hspace]
  omega

/-- Digits with underscores between them end with a digit. -/
theorem AfterDigit.isDigit_of_getLast? {text digits : List Char} (h : AfterDigit text digits)
    {d : Char} (hd : d.isDigit = true) : ∀ c ∈ (d :: text).getLast?, c.isDigit = true := by
  induction h generalizing d with
  | nothing => simpa using hd
  | digit hd' _ ih => simpa using ih hd'
  | separated hd' _ ih => simpa using ih hd'

/-- A sign and the digits behind it neither start nor end with a blank. -/
theorem SignOf.no_blank_at_ends {sign body digits : List Char} {factor : Int}
    (hsign : SignOf sign factor) (hbody : Grouped body digits) :
    sign ++ body ≠ [] ∧ (∀ c ∈ (sign ++ body).head?, isAsciiBlank c = false)
      ∧ ∀ c ∈ (sign ++ body).getLast?, isAsciiBlank c = false := by
  obtain ⟨hd, hrest⟩ := hbody
  have hlast := fun c hc => isAsciiBlank_of_isDigit (hrest.isDigit_of_getLast? hd c hc)
  cases hsign with
  | none => exact ⟨by simp, by simpa using isAsciiBlank_of_isDigit hd, hlast⟩
  | plus => exact ⟨by simp, by simp [isAsciiBlank], by simpa using hlast⟩
  | minus => exact ⟨by simp, by simp [isAsciiBlank], by simpa using hlast⟩

/-- An integer is read exactly from the texts that spell it. -/
theorem readInt?_eq_some_iff {text : List Char} {n : Int} :
    readInt? text = some n ↔ Spells text n := by
  constructor
  · intro h
    obtain ⟨front, back, htext, hfront, hback⟩ := exists_strip isAsciiBlank text
    rw [readInt?] at h
    -- the sign is what the match has found; what follows it is a number
    suffices hcore : ∃ sign body factor digits, strip isAsciiBlank text = sign ++ body
        ∧ SignOf sign factor ∧ Grouped body digits ∧ n = factor * decimal digits by
      obtain ⟨sign, body, factor, digits, hcore, hspelled⟩ := hcore
      exact ⟨front, sign, body, back, factor, digits, hcore ▸ htext, hfront, hback, hspelled⟩
    split at h <;>
      simp only [Option.map_eq_some_iff, Option.bind_eq_bind, Option.pure_def,
        Option.bind_eq_some_iff, Option.some.injEq, readNat?_eq_some_iff] at h
    -- a minus, a plus or neither
    · next body hcore =>
      obtain ⟨_, ⟨_, ⟨digits, hbody, rfl⟩, rfl⟩, rfl⟩ := h
      exact ⟨['-'], body, -1, digits, hcore, .minus, hbody, by simp⟩
    · next body hcore =>
      obtain ⟨_, ⟨digits, hbody, rfl⟩, rfl⟩ := h
      exact ⟨['+'], body, 1, digits, hcore, .plus, hbody, by simp⟩
    · obtain ⟨_, ⟨digits, hbody, rfl⟩, rfl⟩ := h
      exact ⟨[], _, 1, digits, rfl, .none, hbody, by simp⟩
  · rintro ⟨front, sign, body, back, factor, digits, rfl, hfront, hback, hsign, hbody, rfl⟩
    obtain ⟨hne, hhead, hlast⟩ := hsign.no_blank_at_ends hbody
    have hread : readNat? body = some (decimal digits) := readNat?_eq_some_iff.mpr ⟨_, hbody, rfl⟩
    rw [readInt?, strip_append hne hfront hback hhead hlast]
    cases hsign with
    | none =>
      -- a digit is no sign, so that the text is read as it is
      obtain ⟨hd, -⟩ := hbody
      split
      · next heq => cases heq; cases hd
      · next heq => cases heq; cases hd
      · simp [hread]
    | plus => simp [hread]
    | minus => simp [hread]

/-- Without a minus the integer is not negative. -/
theorem Spells.nonneg {text : List Char} {n : Int} (h : Spells text n) (hminus : '-' ∉ text) :
    0 ≤ n := by
  obtain ⟨front, sign, body, back, factor, digits, rfl, -, -, hsign, -, rfl⟩ := h
  -- only the factor of a minus is negative
  cases hsign with
  | none => omega
  | plus => omega
  | minus => exact absurd (by simp) hminus

/-!
## Plain texts

Without a sign, a blank or an underscore, a text spells an integer only by its digits.
-/

section Plain

variable {text digits : List Char}

/-- Without underscores the digits are the text. -/
theorem AfterDigit.eq_of_plain (h : AfterDigit text digits) (hplain : ∀ c ∈ text, c ≠ '_') :
    text = digits := by
  induction h with
  | nothing => rfl
  | digit _ _ ih => rw [ih fun c hc => hplain c (List.mem_cons_of_mem _ hc)]
  | separated => exact absurd rfl (hplain '_' List.mem_cons_self)

theorem afterDigit_self (h : ∀ d ∈ digits, d.isDigit = true) : AfterDigit digits digits := by
  induction digits with
  | nil => exact .nothing
  | cons d rest ih =>
    rw [List.forall_mem_cons] at h
    exact .digit h.1 (ih h.2)

/-- Digits, one or more, spell their number. -/
theorem spells_decimal (hne : digits ≠ []) (h : ∀ d ∈ digits, d.isDigit = true) :
    Spells digits (decimal digits) := by
  obtain ⟨d, digits, rfl⟩ := List.exists_cons_of_ne_nil hne
  rw [List.forall_mem_cons] at h
  exact ⟨[], [], _, [], 1, _, by simp, by simp, by simp, .none,
    .first h.1 (afterDigit_self h.2), by simp⟩

/-- Without blanks, signs and underscores only digits, one or more, spell an integer. -/
theorem spells_iff_of_plain (hplain : ∀ c ∈ text, IsPlain c) {n : Int} :
    Spells text n ↔ text ≠ [] ∧ (∀ d ∈ text, d.isDigit = true) ∧ n = decimal text := by
  constructor
  · rintro ⟨front, sign, body, back, factor, digits, rfl, hfront, hback, hsign, hbody, rfl⟩
    -- nothing of the text can be a blank, a sign or an underscore; what is left are the digits
    have hnil : ∀ blanks : List Char, (∀ c ∈ blanks, isAsciiBlank c = true) →
        blanks ⊆ front ++ (sign ++ body) ++ back → blanks = [] := by
      intro blanks hblanks hsub
      cases blanks with
      | nil => rfl
      | cons c rest =>
        have hc := hblanks c List.mem_cons_self
        rw [(hplain c (hsub List.mem_cons_self)).1] at hc
        cases hc
    obtain rfl := hnil front hfront fun c hc => by simp [hc]
    obtain rfl := hnil back hback fun c hc => by simp [hc]
    cases hsign with
    | plus => exact absurd rfl (hplain '+' (by simp)).2.1
    | minus => exact absurd rfl (hplain '-' (by simp)).2.2.1
    | none =>
      obtain ⟨hd, hrest⟩ := hbody
      obtain rfl := hrest.eq_of_plain fun c hc => (hplain c (by simp [hc])).2.2.2
      exact ⟨by simp, by simpa [hd] using hrest.dropSeparators?.2, by simp⟩
  · rintro ⟨hne, hdigits, rfl⟩
    exact spells_decimal hne hdigits

end Plain

end Provenance.Text
