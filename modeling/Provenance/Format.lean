import Provenance.Bytes.Layout

/-!
# Container formats

The outer envelope of a binary, told from the first eight bytes of its file.

* `ContainerFormat` — the formats, with their names.
* `classify` — the format and the platform that the first eight bytes stand for. The mark of a
  universal binary is also that of a Java class file; such files count as universal binaries.
* `sniff` — the same for the eight bytes at a position of a file.
-/

namespace Provenance

/-- The envelope of a binary, whatever language it was built from. -/
inductive ContainerFormat where
  /-- Windows portable executable. -/
  | pe
  /-- Executable and linkable format. -/
  | elf
  /-- Mach-O image of one architecture. -/
  | machO
  /-- Mach-O images of several architectures in one file. -/
  | machOUniversal
  /-- Java class file. -/
  | javaClass
  /-- Anything else. -/
  | unknown
  deriving DecidableEq, Repr

namespace ContainerFormat

/-- All formats. -/
def all : List ContainerFormat := [pe, elf, machO, machOUniversal, javaClass, unknown]

/-- The name of a format. -/
def name : ContainerFormat → String
  | pe => "PE"
  | elf => "ELF"
  | machO => "Mach-O"
  | machOUniversal => "Mach-O-Universal"
  | javaClass => "Java-Class"
  | unknown => "Unknown"

/-- The format with a given name. -/
def ofName? (text : String) : Option ContainerFormat := all.find? (·.name = text)

theorem ofName?_name (f : ContainerFormat) : ofName? f.name = some f := by
  cases f <;> rfl

theorem ofName?_eq_some_iff {text : String} {f : ContainerFormat} :
    ofName? text = some f ↔ text = f.name := by
  constructor
  · intro h
    have := List.find?_some h
    simpa [eq_comm] using this
  · rintro rfl
    exact ofName?_name f

end ContainerFormat

/-- The first word of a Mach-O image of 32 bits, in the byte order of the image. -/
def machOMagic32 : Nat := 0xFEEDFACE

/-- The first word of a Mach-O image of 64 bits, in the byte order of the image. -/
def machOMagic64 : Nat := 0xFEEDFACF

/-- The first words of a universal binary, most significant byte first. -/
def universalMagics : List Nat := [0xCAFEBABE, 0xCAAEBABE]

/-- How many bytes tell the format. -/
def headerSize : Nat := 8

/-- A container format and a description of the platform that runs it. -/
structure Container where
  /-- The format. -/
  format : ContainerFormat
  /-- The platform. -/
  platform : String
  deriving DecidableEq, Repr

/-- Why the format cannot be told. -/
inductive HeaderError where
  /-- The bytes given are fewer than needed. -/
  | tooShort (size : Nat)
  /-- The file ends within the header. -/
  | unreadable (size : Nat)
  deriving DecidableEq, Repr

/-- The wording of a failure. -/
def HeaderError.message : HeaderError → String
  | tooShort size => "Data too short for header: " ++ toString size ++ " < " ++ toString headerSize
  | unreadable size =>
    "Could not read " ++ toString headerSize ++ "-byte header (got " ++ toString size ++ " bytes)"

/-- The number that four bytes from a position spell, most significant byte first. -/
def bigWord (data : Bytes) (start : Nat) : Nat :=
  ByteOrder.big.decode (data.extract start (start + 4)).toList

/-- The container that the first eight bytes stand for. -/
def Container.ofHeader (header : Bytes) : Container :=
  let word := bigWord header 0
  if word ∈ universalMagics then
    ⟨.machOUniversal, "macOS (" ++ toString (bigWord header 4) ++ " architectures)"⟩
  else if word = machOMagic32 then ⟨.machO, "macOS (32-bit)"⟩
  else if word = machOMagic64 then ⟨.machO, "macOS (64-bit)"⟩
  else if word = 0xCEFAEDFE then ⟨.machO, "macOS (32-bit swapped)"⟩
  else if word = 0xCFFAEDFE then ⟨.machO, "macOS (64-bit swapped)"⟩
  else if header.startsWith [0x4D, 0x5A] then ⟨.pe, "Windows"⟩
  else if header.startsWith [0x7F, 0x45, 0x4C, 0x46] then ⟨.elf, "Unix/Linux"⟩
  else ⟨.unknown, "Unknown"⟩

/-- The container that a header of at least eight bytes stands for. -/
def classify (header : Bytes) : Except HeaderError Container :=
  if header.size < headerSize then .error (.tooShort header.size) else .ok (.ofHeader header)

/-- The container that the eight bytes at a position of a file stand for. -/
def sniff (file : Bytes) (start : Nat) : Except HeaderError Container :=
  let header : Bytes := file.extract start (start + headerSize)
  if header.size < headerSize then .error (.unreadable header.size) else .ok (.ofHeader header)

end Provenance
