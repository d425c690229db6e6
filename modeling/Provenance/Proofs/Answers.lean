import Provenance.Proofs.Elf.SectionTable
import Provenance.Proofs.Refusals

/-!
# Answers and refusals

Whatever the bytes of a file, a reader finds what they hold or refuses the file, and whatever is
asked of a file that was read is answered or refused. Nothing else happens: a read that could fail
in any other way stands behind a check that keeps it from being made.

* `AnswersOr` — a computation ends with a result, or with a failure of a certain kind.
* `Guarded` — a read cannot fail once the length of the data has been looked at.
* `Pe.Query`, `Elf.Query`, `MachO.Query`, `MachO.Universal.Query` — what can be asked of a file that
  was read, with the kind of answer (`Query.Answer`) and the answer (`ask`).
* `Pe.Settled`, `Elf.Settled`, `MachO.Settled` — which failures each reader takes for refusals, and
  that there are no others.
* `readers_answer_or_refuse` — this is so for every file.
-/

namespace Provenance

/-- A computation ends with a result, or with a failure of a certain kind. -/
def AnswersOr {ε α : Type} (Refuses : ε → Prop) (x : Except ε α) : Prop :=
  (∃ a, x = .ok a) ∨ ∃ e, x = .error e ∧ Refuses e

/-- It is enough to know the kind of every failure. -/
theorem answersOr_of_forall {ε α : Type} {Refuses : ε → Prop} {x : Except ε α}
    (h : ∀ e, x = .error e → Refuses e) : AnswersOr Refuses x := by
  cases hx : x with
  | ok a => exact .inl ⟨a, rfl⟩
  | error e => exact .inr ⟨e, rfl, h e hx⟩

/-- A result is an answer, whatever would count as a refusal. -/
theorem answersOr_ok {ε α : Type} {Refuses : ε → Prop} (a : α) : AnswersOr Refuses (.ok a) :=
  .inl ⟨a, rfl⟩

/-- If the data do not end before the read does, its bytes are there. -/
def Guarded (data : Bytes) (offset : Int) (width : Nat) : Prop :=
  offset + width ≤ data.size → ∃ bs, data.window offset width = .ok bs

/-- A read at a place that counts from the start of the data is guarded; one that counts back from
the end is not. -/
theorem guarded_natCast (data : Bytes) (place width : Nat) : Guarded data place width := by
  intro h
  rw [data.window_natCast, if_pos (by omega)]
  exact ⟨_, rfl⟩

/-!
## PE images

The only questions that can fail are those about imports. Each of them fails with an error of the
reader's own, or else for an address, which the image keeps as it was read.
-/

namespace Pe

/-- What can be asked of an image. -/
inductive Query where
  | sectionNames
  | findSection (name : String)
  | content (s : Section)
  | directory (index : Int)
  | hasClrMetadata
  | fileOffset (address : Int)
  | importDescriptors
  | imports
  | importedLibraries
  | importedSymbols

/-- The type of the answer to a question. -/
def Query.Answer : Query → Type
  | sectionNames => List String
  | findSection _ => Option Section
  | content _ => Bytes
  | directory _ => Option DataDirectory
  | hasClrMetadata => Bool
  | fileOffset _ => Option Int
  | importDescriptors => List ImportDescriptor
  | imports => List Import
  | importedLibraries => List String
  | importedSymbols => List String

/-- What an image answers. -/
def Image.ask (img : Image) : (q : Query) → Except ImportError q.Answer
  | .sectionNames => .ok img.sectionNames
  | .findSection name => .ok (img.findSection? name)
  | .content s => .ok (img.content s)
  | .directory index => .ok (img.directory? index)
  | .hasClrMetadata => .ok img.hasClrMetadata
  | .fileOffset address => .ok (img.fileOffset? address)
  | .importDescriptors => img.importDescriptors
  | .imports => img.imports
  | .importedLibraries => img.importedLibraries
  | .importedSymbols => img.importedSymbols

/-- A file is read as an image or refused, and so is what is asked of the image. -/
structure Settled (data : Bytes) : Prop where
  /-- In front of the signature only a check that is not passed is taken for a refusal. -/
  dosHeader : AnswersOr (·.misread? = none) (DosHeader.decode data 0)
  /-- Behind it a read that fails is taken for one as well, if its offset can be named. -/
  image : AnswersOr (fun e => ¬ Escapes e.misread?) (Image.ofBytes data)
  /-- What lies at an address is read behind a check of the length. -/
  reads : ∀ img, Image.ofBytes data = .ok img → ∀ address offset,
    img.fileOffset? address = some offset → ∀ skipped width : Nat,
      Guarded img.data (offset + skipped) width
  /-- In the import table only a check that is not passed is taken for a refusal. -/
  queries : ∀ img, Image.ofBytes data = .ok img → ∀ q,
    AnswersOr (·.misread? = none) (img.ask q)

/-- The descriptors are listed without their names, so that listing them fails only as the walk
does. -/
theorem misread?_of_importDescriptors {img : Image} (hparsed : img.Parsed) {e : ImportError}
    (h : img.importDescriptors = .error e) : e.misread? = none := by
  refine misread?_of_mapDescriptors hparsed ?_ h
  intro d e hd
  cases hd

/-- Each part comes from what the reader of that part is known to fail with. -/
theorem settled (data : Bytes) : Settled data where
  dosHeader := answersOr_of_forall fun _ => Image.misread?_of_dosHeader
  image := answersOr_of_forall fun _ => Image.not_escapes_of_ofBytes
  reads := by
    intro img himg address offset hoffset skipped width
    obtain ⟨-, hparsed, -⟩ := Image.parsed_of_ofBytes himg
    -- no section leads in front of the file
    obtain ⟨place, rfl, -⟩ := Image.exists_mapped_of_fileOffset? hparsed hoffset
    exact guarded_natCast img.data (place + skipped) width
  queries := by
    intro img himg q
    obtain ⟨-, hparsed, -⟩ := Image.parsed_of_ofBytes himg
    have himports : ∀ e, img.imports = .error e → e.misread? = none :=
      fun e he => (brokenTable_of_imports hparsed he).2
    cases q with
    | importDescriptors => exact answersOr_of_forall fun e => misread?_of_importDescriptors hparsed
    | imports => exact answersOr_of_forall himports
    -- libraries and functions are told from the imports
    | importedLibraries => exact answersOr_of_forall fun e he => himports e (map_eq_error_iff.mp he)
    | importedSymbols => exact answersOr_of_forall fun e he => himports e (map_eq_error_iff.mp he)
    -- the other questions are answered from what was read, and nothing is read for them
    | _ => exact answersOr_ok _

end Pe

/-! ## ELF files -/

namespace Elf

/-- What can be asked of a file. -/
inductive Query where
  | sectionNames
  | findSection (name : String)
  | sectionAt (index : Int)
  | content (s : Section)
  | symbols
  | symbolNames
  | dynamicEntries
  | importedLibraries

/-- The type of the answer to a question. -/
def Query.Answer : Query → Type
  | sectionNames => List String
  | findSection _ => Option Section
  | sectionAt _ => Option Section
  | content _ => Bytes
  | symbols => List (String × Symbol)
  | symbolNames => List String
  | dynamicEntries => List DynamicEntry
  | importedLibraries => List String

/-- What a file answers. -/
def Image.ask (img : Image) : (q : Query) → Except ImageError q.Answer
  | .sectionNames => .ok img.sectionNames
  | .findSection name => .ok (img.findSection? name)
  | .sectionAt index => .ok (img.section? index)
  | .content s => img.content s
  | .symbols => img.symbols
  | .symbolNames => img.symbolNames
  | .dynamicEntries => img.dynamicEntries
  | .importedLibraries => img.importedLibraries

/-- A file is read as an ELF file or refused, and so is what is asked of it. -/
structure Settled (data : Bytes) : Prop where
  /-- Only a check that is not passed is taken for a refusal. -/
  image : AnswersOr (·.misread? = none) (Image.ofBytes data)
  /-- Section headers are read behind a check of the length. -/
  reads : ∀ ident header, Header.decode ident data = .ok header → ∀ i : Nat,
    Guarded data (header.sectionHeadersOffset + i * header.sectionHeaderSize)
      (SectionHeader.codec ident).size
  /-- The section of the names is looked up among the headers that were read, by a number that one
  of them has. -/
  names : ∀ ident header first headers, Header.decode ident data = .ok header →
    Image.readHeader data ident header 0 = .ok first →
    Image.nameIndex header first < Image.sectionCount header first →
    (List.range (Image.sectionCount header first).toNat).mapM (Image.readHeader data ident header)
      = .ok headers →
    0 ≤ Image.nameIndex header first ∧ Image.nameIndex header first < headers.length
  /-- A table is refused as a whole only: no failure to read a record is taken for a refusal. -/
  queries : ∀ img, Image.ofBytes data = .ok img → ∀ q, AnswersOr (·.NoRecord) (img.ask q)

/-- The reader is known to fail only at its checks, and each read it makes stands behind one of
them. -/
theorem settled (data : Bytes) : Settled data where
  image := answersOr_of_forall fun _ => Image.misread?_of_ofBytes
  reads := by
    intro ident header hheader i
    -- the offset of a header counts from the start, since it was read as an unsigned word
    obtain ⟨rfl, -⟩ := header_of_decode hheader
    rw [headerIn_offset]
    exact guarded_natCast data _ _
  names := by
    intro ident header first headers hheader hfirst hindex hheaders
    -- the number was read as an unsigned word, and there are as many headers as were counted
    obtain ⟨rfl, -⟩ := header_of_decode hheader
    rw [readHeader_eq, sectionPlace_zero] at hfirst
    split at hfirst
    next =>
      cases hfirst
      have hlength := congrArg List.length (mapM_eq_ok_iff.mp hheaders)
      simp only [sectionCount_eq, nameIndex_eq, List.length_map, List.length_range,
        Int.toNat_natCast] at hindex hlength ⊢
      omega
    next => cases hfirst
  queries := by
    intro img _ q
    -- only the content of a section is read again, by itself or for one of the tables
    cases q with
    | content s => exact answersOr_of_forall fun e => Image.noRecord_of_content
    | symbols => exact answersOr_of_forall fun e => Image.noRecord_of_symbols
    | symbolNames =>
      exact answersOr_of_forall fun e he => Image.noRecord_of_symbols (map_eq_error_iff.mp he)
    | dynamicEntries => exact answersOr_of_forall fun e => Image.noRecord_of_dynamicEntries
    | importedLibraries => exact answersOr_of_forall fun e => Image.noRecord_of_importedLibraries
    | _ => exact answersOr_ok _

end Elf

/-! ## Mach-O files -/

namespace MachO

/-- What can be asked of an image. -/
inductive Query where
  | segmentNames
  | sectionNames
  | importedLibraries
  | architecture

/-- The type of the answer to a question. -/
def Query.Answer : Query → Type
  | segmentNames => List String
  | sectionNames => List String
  | importedLibraries => List String
  | architecture => String

/-- What an image answers. -/
def Image.ask (img : Image) : (q : Query) → Except ImageError q.Answer
  | .segmentNames => .ok img.segmentNames
  | .sectionNames => .ok img.sectionNames
  | .importedLibraries => .ok img.importedLibraries
  | .architecture => .ok img.architecture

/-- What can be asked of a universal binary. -/
inductive Universal.Query where
  | find (architecture : String)
  | select (host? : Option String)

/-- What a universal binary answers. -/
def Universal.ask (u : Universal) : Universal.Query → Except UniversalError (Option Slice)
  | .find architecture => .ok (u.find? architecture)
  | .select host? => .ok (u.select? host?)

/-- A file is read as an image or refused, and so it is as a universal binary. What was read answers
all that is asked. -/
structure Settled (data : Bytes) : Prop where
  image : AnswersOr (·.misread? = none) (Image.ofBytes data)
  queries : ∀ img, Image.ofBytes data = .ok img → ∀ q, AnswersOr (fun _ => False) (img.ask q)
  universal : AnswersOr (·.misread? = none) (Universal.ofBytes data)
  slices : ∀ u, Universal.ofBytes data = .ok u → ∀ q, AnswersOr (fun _ => False) (u.ask q)

/-- Neither an image nor a universal binary reads anything once it has been read itself. -/
theorem settled (data : Bytes) : Settled data where
  image := answersOr_of_forall fun _ => Image.misread?_of_ofBytes
  queries := by
    intro img _ q
    cases q <;> exact answersOr_ok _
  universal := answersOr_of_forall fun _ => misread?_of_universal
  slices := by
    intro u _ q
    cases q <;> exact answersOr_ok _

end MachO

/-! ## All files -/

/-- Whatever the bytes of a file, each reader ends with what they hold or with a refusal, and so
does all that is asked of what was read. A reader takes a check that is not passed for a refusal,
and only where it takes a failed read for one as well can a read fail; each other read is
guarded. -/
theorem readers_answer_or_refuse (data : Bytes) :
    Pe.Settled data ∧ Elf.Settled data ∧ MachO.Settled data :=
  ⟨Pe.settled data, Elf.settled data, MachO.settled data⟩

end Provenance
