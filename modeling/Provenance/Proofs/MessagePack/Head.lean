import Provenance.MessagePack.Head
import Provenance.Proofs.Outcome

/-!
# Heads are read back

A head has many forms, by its kind and by how many bytes its number takes. Whatever form a writer
chooses, a reader gets the head back and leaves what follows alone; and a reader only ever gets
heads whose numbers a writer has bytes for.

* `Takes` — a reader takes some bytes for a thing, whatever follows them.
* `Head.Fits` — the numbers of a head are in range.

Main results:

* `Head.exists_encode` — a head that fits has bytes, and they are taken for it.
* `Head.fits_of_read` — a head that was read fits.
-/

namespace Provenance.MessagePack

/-! ## Readers -/

/-- A reader takes some bytes for a thing, whatever follows them. -/
def Takes {α : Type} (read : Reader α) (bs : List UInt8) (a : α) : Prop :=
  ∀ rest, read (bs ++ rest) = .ok (a, rest)

theorem takes_takeNumber {width n : Nat} (h : n < byteSpan width) :
    Takes (takeNumber width) (numberBytes width n) n :=
  takeNumber_numberBytes h

/-- An integer is written as its residue, and the sign is found again in the highest digit. -/
theorem takes_takeSigned {width : Nat} {n : Int} (h : (Word.mk width true).Fits n) :
    Takes (takeSigned width) (signedBytes width n) n := by
  intro rest
  have hpos : (0 : Int) < byteSpan width := Int.natCast_pos.mpr (byteSpan_pos width)
  have hlt : (n % byteSpan width).toNat < byteSpan width := by
    have := Int.emod_lt_of_pos n hpos
    have := Int.emod_nonneg n (Int.ne_of_gt hpos)
    omega
  rw [takeSigned, signedBytes, takeNumber_numberBytes hlt]
  -- the residue is taken for the integer again
  show Except.ok ((Word.mk width true).ofNat (n % (Word.mk width true).modulus).toNat, rest) = _
  rw [Word.ofNat_emod h]

/-- A number that was read takes no more bytes than were read for it. -/
theorem lt_of_takeNumber {width n : Nat} {bs rest : List UInt8}
    (h : takeNumber width bs = .ok (n, rest)) : n < byteSpan width := by
  unfold takeNumber at h
  split at h
  · next digits rest' hdigits =>
    cases h
    have hlength := (append_of_takeBytes hdigits).1
    have hlt := ByteOrder.big.decode_lt digits
    rwa [hlength] at hlt
  · cases h

/-- An integer that was read fits the bytes that were read for it. -/
theorem fits_of_takeSigned {width : Nat} {n : Int} {bs rest : List UInt8}
    (h : takeSigned width bs = .ok (n, rest)) : (Word.mk width true).Fits n := by
  unfold takeSigned at h
  split at h
  · next m rest' hm =>
    cases h
    exact (Word.fits_ofNat (lt_of_takeNumber hm)).1
  · cases h

namespace Head

/-- The numbers of a head are in range. -/
def Fits : Head → Prop
  | nil | bool _ | float _ => True
  | int n => -0x8000000000000000 ≤ n ∧ n < 0x10000000000000000
  | str size | bin size => size < 0x100000000
  | array count | map count => count < 0x100000000
  | ext code size => (-0x80 ≤ code ∧ code < 0x80) ∧ size < 0x100000000

/-!
## Writing, then reading

Each form of a head is read back from its own bytes, whatever follows them. The forms are told apart
by the first byte, and the writer takes the shortest form that has room.
-/

/-- Some bytes spell a head. -/
structure SpelledBy (head : Head) (bs : List UInt8) : Prop where
  /-- There is at least one. -/
  nonempty : bs ≠ []
  /-- They are taken for the head. -/
  takes : Takes read bs head

/-- A byte is the mark of heads that are read in a certain way behind it. -/
structure Marks (mark : UInt8) (behind : Reader Head) : Prop where
  -- the marks are the bytes from C0 to DF
  low : 0xC0 ≤ mark.toNat := by decide
  high : mark.toNat < 0xE0 := by decide
  read : afterMark mark = behind

/-- Behind its mark a head is read in the way of the mark. -/
theorem Marks.read_cons {mark : UInt8} {behind : Reader Head} (h : Marks mark behind)
    (bs : List UInt8) : Head.read (mark :: bs) = behind bs := by
  have hlow := h.low
  rw [Head.read]
  simp only [if_neg (show ¬ mark.toNat < 0x80 by omega), if_neg (show ¬ mark.toNat < 0x90 by omega),
    if_neg (show ¬ mark.toNat < 0xA0 by omega), if_neg (show ¬ mark.toNat < 0xC0 by omega),
    if_pos h.high, h.read]

/-- A mark and what is taken behind it spell a head. -/
theorem spelledBy_mark {mark : UInt8} {behind : Reader Head} {head : Head} {bs : List UInt8}
    (hmark : Marks mark behind) (h : Takes behind bs head) : head.SpelledBy (mark :: bs) where
  nonempty := List.cons_ne_nil _ _
  takes rest := by rw [List.cons_append, hmark.read_cons, h rest]

theorem takes_after {α : Type} {inner : Reader α} {bs : List UInt8} {a : α} (make : α → Head)
    (h : Takes inner bs a) : Takes (after inner make) bs (make a) := by
  intro rest
  rw [after, h rest]

theorem spelledBy_counted {mark : UInt8} {width n : Nat} (make : Nat → Head)
    (hmark : Marks mark (after (takeNumber width) make)) (h : n < byteSpan width) :
    (make n).SpelledBy (counted mark width n) :=
  spelledBy_mark hmark (takes_after make (takes_takeNumber h))

theorem spelledBy_signed {mark : UInt8} {width : Nat} {n : Int} (make : Int → Head)
    (hmark : Marks mark (after (takeSigned width) make)) (h : (Word.mk width true).Fits n) :
    (make n).SpelledBy (mark :: signedBytes width n) :=
  spelledBy_mark hmark (takes_after make (takes_takeSigned h))

/-- What a byte that is no mark says by itself. -/
theorem read_ofNat {n : Nat} (h : n < 0x100) (bs : List UInt8) :
    read (UInt8.ofNat n :: bs)
      = if n < 0x80 then .ok (int n, bs)
        else if n < 0x90 then .ok (map (n - 0x80), bs)
        else if n < 0xA0 then .ok (array (n - 0x90), bs)
        else if n < 0xC0 then .ok (str (n - 0xA0), bs)
        else if n < 0xE0 then afterMark (UInt8.ofNat n) bs
        else .ok (int ((n : Int) - 0x100), bs) := by
  have htoNat : (UInt8.ofNat n).toNat = n := UInt8.toNat_ofNat_of_lt' h
  rw [read, htoNat]

theorem spelledBy_byte {head : Head} {b : UInt8} (h : ∀ rest, read (b :: rest) = .ok (head, rest)) :
    head.SpelledBy [b] :=
  ⟨List.cons_ne_nil _ _, h⟩

theorem spelledBy_smallMap {count : Nat} (h : count < 16) :
    (map count).SpelledBy [UInt8.ofNat (0x80 + count)] := by
  refine spelledBy_byte fun rest => ?_
  rw [read_ofNat (by omega), if_neg (by omega), if_pos (by omega), Nat.add_sub_cancel_left]

theorem spelledBy_smallArray {count : Nat} (h : count < 16) :
    (array count).SpelledBy [UInt8.ofNat (0x90 + count)] := by
  refine spelledBy_byte fun rest => ?_
  rw [read_ofNat (by omega), if_neg (by omega), if_neg (by omega), if_pos (by omega),
    Nat.add_sub_cancel_left]

theorem spelledBy_smallStr {size : Nat} (h : size < 32) :
    (str size).SpelledBy [UInt8.ofNat (0xA0 + size)] := by
  refine spelledBy_byte fun rest => ?_
  rw [read_ofNat (by omega), if_neg (by omega), if_neg (by omega), if_neg (by omega),
    if_pos (by omega), Nat.add_sub_cancel_left]

theorem spelledBy_smallInt {n : Nat} (h : n < 0x80) : (int n).SpelledBy [UInt8.ofNat n] := by
  refine spelledBy_byte fun rest => ?_
  rw [read_ofNat (by omega), if_pos h]

/-- The integers from -32 on are their own marks. -/
theorem spelledBy_smallNegative {n : Int} (hlow : -32 ≤ n) (hneg : n < 0) :
    (int n).SpelledBy (signedBytes 1 n) := by
  -- the byte is the residue, from E0 to FF
  obtain ⟨m, rfl⟩ : ∃ m : Nat, n = (m : Int) - 0x100 := ⟨(n + 0x100).toNat, by omega⟩
  have hbytes : signedBytes 1 ((m : Int) - 0x100) = [UInt8.ofNat m] := by
    have hresidue : (((m : Int) - 0x100) % byteSpan 1).toNat = m := by
      show (((m : Int) - 0x100) % 0x100).toNat = m
      omega
    rw [signedBytes, hresidue]
    show [UInt8.ofNat (m % 256)] = [UInt8.ofNat m]
    rw [Nat.mod_eq_of_lt (by omega)]
  rw [hbytes]
  refine spelledBy_byte fun rest => ?_
  rw [read_ofNat (by omega), if_neg (by omega), if_neg (by omega), if_neg (by omega),
    if_neg (by omega), if_neg (by omega)]

/-- A size below 2³² has one of the three forms. -/
theorem exists_sized {size : Nat} (h : size < 0x100000000) (mark8? : Option UInt8)
    (mark16 mark32 : UInt8) :
    ∃ mark width, sized mark8? mark16 mark32 size = some (counted mark width size)
      ∧ size < byteSpan width
      ∧ (mark8? = some mark ∧ width = 1 ∨ mark16 = mark ∧ width = 2
        ∨ mark32 = mark ∧ width = 4) := by
  have hwide : ∃ mark width,
      (if size < 0x10000 then some (counted mark16 2 size)
        else if size < 0x100000000 then some (counted mark32 4 size) else none)
          = some (counted mark width size)
        ∧ size < byteSpan width ∧ (mark16 = mark ∧ width = 2 ∨ mark32 = mark ∧ width = 4) := by
    by_cases h16 : size < 0x10000
    · rw [if_pos h16]
      exact ⟨mark16, 2, rfl, h16, .inl ⟨rfl, rfl⟩⟩
    · rw [if_neg h16, if_pos h]
      exact ⟨mark32, 4, rfl, h, .inr ⟨rfl, rfl⟩⟩
  obtain ⟨mark, width, hsized, hspan, hform⟩ := hwide
  -- a size of one byte is written only where there is a mark for it
  cases mark8? with
  | none => exact ⟨mark, width, hsized, hspan, .inr hform⟩
  | some mark8 =>
    by_cases h8 : size < 0x100
    · exact ⟨mark8, 1, if_pos h8, h8, .inl ⟨rfl, rfl⟩⟩
    · exact ⟨mark, width, (if_neg h8).trans hsized, hspan, .inr hform⟩

/-- A size below 2³² is spelled by its shortest form, if the marks of the forms are marks of such
heads. -/
theorem exists_encode_sized {size : Nat} (h : size < 0x100000000) (make : Nat → Head)
    {mark8? : Option UInt8} {mark16 mark32 : UInt8}
    (h8 : ∀ mark, mark8? = some mark → Marks mark (after (takeNumber 1) make))
    (h16 : Marks mark16 (after (takeNumber 2) make))
    (h32 : Marks mark32 (after (takeNumber 4) make)) :
    ∃ bs, (sized mark8? mark16 mark32 size).elim (Except.error EncodeError.tooLong) .ok = .ok bs
      ∧ (make size).SpelledBy bs := by
  obtain ⟨mark, width, hsized, hspan, hform⟩ := exists_sized h mark8? mark16 mark32
  refine ⟨counted mark width size, by rw [hsized]; rfl, ?_⟩
  rcases hform with ⟨hmark, rfl⟩ | ⟨rfl, rfl⟩ | ⟨rfl, rfl⟩
  · exact spelledBy_counted make (h8 mark hmark) hspan
  · exact spelledBy_counted make h16 hspan
  · exact spelledBy_counted make h32 hspan

/-- What is not negative is written as a natural number, in the first form that has room for it. -/
theorem exists_encode_natural {m : Nat} (h : m < 0x10000000000000000) :
    ∃ bs, encodeInt m = some bs ∧ (int m).SpelledBy bs := by
  have hsign : (0 : Int) ≤ m := Int.natCast_nonneg m
  rw [encodeInt, if_pos hsign, Int.toNat_natCast]
  -- the five forms, from the shortest to the longest
  by_cases h7 : m < 0x80
  · exact ⟨_, if_pos h7, spelledBy_smallInt h7⟩
  simp only [if_neg h7]
  by_cases h8 : m < 0x100
  · exact ⟨_, if_pos h8, spelledBy_counted (int ·) { read := rfl } h8⟩
  simp only [if_neg h8]
  by_cases h16 : m < 0x10000
  · exact ⟨_, if_pos h16, spelledBy_counted (int ·) { read := rfl } h16⟩
  simp only [if_neg h16]
  by_cases h32 : m < 0x100000000
  · exact ⟨_, if_pos h32, spelledBy_counted (int ·) { read := rfl } h32⟩
  simp only [if_neg h32]
  exact ⟨_, if_pos h, spelledBy_counted (int ·) { read := rfl } h⟩

/-- What it takes for an integer to fit into so many bytes. -/
theorem fits_signed_iff {width : Nat} {n : Int} :
    (Word.mk width true).Fits n ↔ -(byteSpan width : Int) ≤ 2 * n ∧ 2 * n < byteSpan width :=
  Iff.rfl

/-- What is negative is written with a sign, in the first form that has room for it. -/
theorem exists_encode_negative {n : Int} (hneg : n < 0) (h : -0x8000000000000000 ≤ n) :
    ∃ bs, encodeInt n = some bs ∧ (int n).SpelledBy bs := by
  -- a negative integer fits into so many bytes if twice its absolute value is in their span
  have hfits : ∀ {width : Nat}, -(byteSpan width : Int) ≤ 2 * n → (Word.mk width true).Fits n :=
    fun hroom => fits_signed_iff.mpr ⟨hroom, by omega⟩
  have hspan1 : byteSpan 1 = 0x100 := rfl
  have hspan2 : byteSpan 2 = 0x10000 := rfl
  have hspan4 : byteSpan 4 = 0x100000000 := rfl
  have hspan8 : byteSpan 8 = 0x10000000000000000 := rfl
  rw [encodeInt, if_neg (Int.not_le.mpr hneg)]
  by_cases h5 : -32 ≤ n
  · exact ⟨_, if_pos h5, spelledBy_smallNegative h5 hneg⟩
  simp only [if_neg h5]
  by_cases h8 : -0x80 ≤ n
  · exact ⟨_, if_pos h8, spelledBy_signed int { read := rfl } (hfits (by omega))⟩
  simp only [if_neg h8]
  by_cases h16 : -0x8000 ≤ n
  · exact ⟨_, if_pos h16, spelledBy_signed int { read := rfl } (hfits (by omega))⟩
  simp only [if_neg h16]
  by_cases h32 : -0x80000000 ≤ n
  · exact ⟨_, if_pos h32, spelledBy_signed int { read := rfl } (hfits (by omega))⟩
  simp only [if_neg h32]
  exact ⟨_, if_pos h, spelledBy_signed int { read := rfl } (hfits (by omega))⟩

/-- Each of the five sizes with a form of its own has a mark of its own. -/
theorem marks_of_fixedExt? {size : Nat} {mark : UInt8} (h : fixedExt? size = some mark) :
    Marks mark (after (takeSigned 1) (ext · size)) := by
  unfold fixedExt? at h
  split at h <;> cases h <;> exact { read := rfl }

/-- The size and the code of an extension are taken for its head. -/
theorem takes_sizedExt {width size : Nat} {code : Int} (hsize : size < byteSpan width)
    (hcode : (Word.mk 1 true).Fits code) :
    Takes (sizedExt width) (numberBytes width size ++ signedBytes 1 code) (ext code size) := by
  intro rest
  rw [List.append_assoc, sizedExt, takes_takeNumber hsize]
  exact takes_after (ext · size) (takes_takeSigned hcode) rest

/-- An extension is spelled by the form of its size, or by the shortest form with a size in it. -/
theorem exists_encode_ext {code : Int} {size : Nat} (hcode : -0x80 ≤ code ∧ code < 0x80)
    (hsize : size < 0x100000000) :
    ∃ bs, (ext code size).encode = .ok bs ∧ (ext code size).SpelledBy bs := by
  have hfits : (Word.mk 1 true).Fits code := by
    show -(0x100 : Int) ≤ 2 * code ∧ 2 * code < 0x100
    omega
  rw [encode]
  -- five sizes have a mark of their own, and every other size is written behind its mark
  cases hfixed : fixedExt? size with
  | some mark => exact ⟨_, rfl, spelledBy_signed (ext · size) (marks_of_fixedExt? hfixed) hfits⟩
  | none =>
    obtain ⟨mark, width, hsized, hspan, hform⟩ := exists_sized hsize (some 0xC7) 0xC8 0xC9
    have hmark : Marks mark (sizedExt width) := by
      rcases hform with ⟨hmark, rfl⟩ | ⟨rfl, rfl⟩ | ⟨rfl, rfl⟩
      · cases hmark
        exact { read := rfl }
      · exact { read := rfl }
      · exact { read := rfl }
    rw [hsized]
    exact ⟨_, rfl, spelledBy_mark hmark (takes_sizedExt hspan hfits)⟩

/-- **A head that fits has bytes, and they are taken for it**, whatever follows them. -/
theorem exists_encode {head : Head} (h : head.Fits) :
    ∃ bs, head.encode = .ok bs ∧ head.SpelledBy bs := by
  cases head with
  -- three kinds have one form each, the others as many as their numbers have widths
  | nil => exact ⟨_, rfl, spelledBy_byte fun rest => rfl⟩
  | bool b =>
    cases b with
    | false => exact ⟨_, rfl, spelledBy_byte fun rest => rfl⟩
    | true => exact ⟨_, rfl, spelledBy_byte fun rest => rfl⟩
  | int n =>
    obtain ⟨bs, hbs, hspelled⟩ : ∃ bs, encodeInt n = some bs ∧ (int n).SpelledBy bs := by
      by_cases hneg : n < 0
      · exact exists_encode_negative hneg h.1
      · obtain ⟨m, rfl⟩ := Int.eq_ofNat_of_zero_le (Int.not_lt.mp hneg)
        exact exists_encode_natural (Int.ofNat_lt.mp h.2)
    exact ⟨bs, by rw [encode, hbs]; rfl, hspelled⟩
  | float d =>
    have hspelled := spelledBy_counted (fun n => float ⟨UInt64.ofNat n⟩)
      (show Marks 0xCB _ from { read := rfl }) d.bits.toNat_lt
    simp only [UInt64.ofNat_toNat] at hspelled
    exact ⟨_, rfl, hspelled⟩
  | str size =>
    rw [encode]
    by_cases hsmall : size < 32
    · exact ⟨_, if_pos hsmall, spelledBy_smallStr hsmall⟩
    rw [if_neg hsmall]
    exact exists_encode_sized h str (by rintro _ ⟨⟩; exact { read := rfl })
      { read := rfl } { read := rfl }
  | bin size =>
    exact exists_encode_sized h bin (by rintro _ ⟨⟩; exact { read := rfl })
      { read := rfl } { read := rfl }
  | array count =>
    rw [encode]
    by_cases hsmall : count < 16
    · exact ⟨_, if_pos hsmall, spelledBy_smallArray hsmall⟩
    rw [if_neg hsmall]
    exact exists_encode_sized h array nofun
      { read := rfl } { read := rfl }
  | map count =>
    rw [encode]
    by_cases hsmall : count < 16
    · exact ⟨_, if_pos hsmall, spelledBy_smallMap hsmall⟩
    rw [if_neg hsmall]
    exact exists_encode_sized h map nofun
      { read := rfl } { read := rfl }
  | ext code size => exact exists_encode_ext h.1 h.2

/-! ## Reading -/

/-- A head fits if it does for whatever can be read behind its mark. -/
theorem fits_of_after {α : Type} {inner : Reader α} {make : α → Head} {head : Head}
    {bs rest : List UInt8} (h : after inner make bs = .ok (head, rest))
    (hfits : ∀ a rest, inner bs = .ok (a, rest) → (make a).Fits) : head.Fits := by
  unfold after at h
  split at h
  · next a rest' ha =>
    cases h
    exact hfits a _ ha
  · cases h

/-- A size of at most four bytes is below 2³². -/
theorem fits_of_sizeMark {width : Nat} {make : Nat → Head} {head : Head} {bs rest : List UInt8}
    (h : after (takeNumber width) make bs = .ok (head, rest))
    (hwidth : byteSpan width ≤ 0x100000000) (hmake : ∀ n, n < 0x100000000 → (make n).Fits) :
    head.Fits :=
  fits_of_after h fun n _ hn => hmake n (Nat.lt_of_lt_of_le (lt_of_takeNumber hn) hwidth)

/-- A natural number of at most eight bytes fits. -/
theorem fits_of_naturalMark {width : Nat} {head : Head} {bs rest : List UInt8}
    (h : after (takeNumber width) (fun n => int n) bs = .ok (head, rest))
    (hwidth : byteSpan width ≤ 0x10000000000000000) : head.Fits := by
  refine fits_of_after h fun n _ hn => ?_
  have hlt := lt_of_takeNumber hn
  show -0x8000000000000000 ≤ (n : Int) ∧ (n : Int) < 0x10000000000000000
  omega

/-- An integer of at most eight bytes fits. -/
theorem fits_of_signedMark {width : Nat} {head : Head} {bs rest : List UInt8}
    (h : after (takeSigned width) int bs = .ok (head, rest))
    (hwidth : byteSpan width ≤ 0x10000000000000000) : head.Fits := by
  refine fits_of_after h fun n _ hn => ?_
  have hfits := fits_signed_iff.mp (fits_of_takeSigned hn)
  show -0x8000000000000000 ≤ n ∧ n < 0x10000000000000000
  omega

/-- The code of an extension fits, for it is read from one byte. -/
theorem fits_of_fixedExtMark {size : Nat} {head : Head} {bs rest : List UInt8}
    (h : after (takeSigned 1) (ext · size) bs = .ok (head, rest)) (hsize : size < 0x100000000) :
    head.Fits := by
  refine fits_of_after h fun code _ hcode => ?_
  have hfits : -(0x100 : Int) ≤ 2 * code ∧ 2 * code < 0x100 :=
    fits_signed_iff.mp (fits_of_takeSigned hcode)
  exact ⟨by omega, hsize⟩

/-- The head of an extension with its size in it fits, since the size was read from few bytes. -/
theorem fits_of_sizedExtMark {width : Nat} {head : Head} {bs rest : List UInt8}
    (h : sizedExt width bs = .ok (head, rest)) (hwidth : byteSpan width ≤ 0x100000000) :
    head.Fits := by
  unfold sizedExt at h
  split at h
  · next size rest' hsize =>
    exact fits_of_fixedExtMark h (Nat.lt_of_lt_of_le (lt_of_takeNumber hsize) hwidth)
  · cases h

/-- Behind every mark the head that is read fits. -/
theorem fits_of_afterMark {mark : UInt8} {head : Head} {bs rest : List UInt8}
    (h : afterMark mark bs = .ok (head, rest)) : head.Fits := by
  -- one case for each mark: its heads have no number, or one of the kinds above
  unfold afterMark at h
  split at h
  all_goals
    first
    | (cases h <;> trivial)
    | exact fits_of_sizeMark h (by decide) fun _ hn => hn
    | exact fits_of_naturalMark h (by decide)
    | exact fits_of_signedMark h (by decide)
    | exact fits_of_fixedExtMark h (by decide)
    | exact fits_of_sizedExtMark h (by decide)
    | exact fits_of_after h fun _ _ _ => trivial

/-- **A head that was read fits.** -/
theorem fits_of_read {head : Head} {bs rest : List UInt8} (h : read bs = .ok (head, rest)) :
    head.Fits := by
  cases bs with
  | nil => cases h
  | cons b bs =>
    -- the ranges of the first byte, each with what it says by itself
    have hb := b.toNat_lt
    simp only [read] at h
    split at h
    · cases h
      show -0x8000000000000000 ≤ (b.toNat : Int) ∧ (b.toNat : Int) < 0x10000000000000000
      omega
    split at h
    · cases h
      show b.toNat - 0x80 < 0x100000000
      omega
    split at h
    · cases h
      show b.toNat - 0x90 < 0x100000000
      omega
    split at h
    · cases h
      show b.toNat - 0xA0 < 0x100000000
      omega
    split at h
    · exact fits_of_afterMark h
    · cases h
      show -0x8000000000000000 ≤ (b.toNat : Int) - 0x100
        ∧ (b.toNat : Int) - 0x100 < 0x10000000000000000
      omega

end Head

end Provenance.MessagePack
