import Provenance.Pe.Image

/-!
# Imports of PE images

The import table: one descriptor for each library, and for each descriptor a table of entries that
name functions or give their ordinal.

* `Image.importDescriptors` — the descriptors before the one that ends the table.
* `Image.imports` — the libraries with the functions imported by name.
* `Image.importedSymbols` — these as `function:library`.

A table is read as a whole or not at all: the first entry that cannot be read makes all fail.
-/

namespace Provenance.Pe

/-- The greatest number of import descriptors that are read. -/
def maxImportDescriptors : Nat := 4096

/-- The greatest number of entries that are read for one library. -/
def maxImportsPerLibrary : Nat := 65536

/-- Why the import table cannot be read. -/
inductive ImportError where
  /-- The address of a name is not in the file. -/
  | nameUnmapped (address : Int)
  /-- The address of the import directory is not in the file. -/
  | directoryUnmapped (address : Int)
  /-- The address of a lookup table is not in the file. -/
  | lookupTableUnmapped (address : Int)
  /-- A lookup table runs past the end of the file. -/
  | lookupTableCutOff
  /-- A descriptor runs past the end of the file. -/
  | descriptor (error : RecordError)
  deriving DecidableEq, Repr

/-- The wording of a failure. -/
def ImportError.message : ImportError → String
  | nameUnmapped address =>
    "String RVA 0x" ++ Text.hex 0 address.toNat ++ " is not backed by file data"
  | directoryUnmapped address =>
    "Import directory RVA 0x" ++ Text.hex 0 address.toNat ++ " is not backed by file data"
  | lookupTableUnmapped address =>
    "Import lookup table RVA 0x" ++ Text.hex 0 address.toNat ++ " is not backed by file data"
  | lookupTableCutOff => "Import lookup table truncated"
  | descriptor error => error.message

/-- The functions that an image imports by name from one library. -/
structure Import where
  /-- The library. -/
  library : String
  /-- The functions, in table order. -/
  functions : List String
  deriving DecidableEq, Repr

namespace Image

/-- The number of the data directory that describes the import table. -/
def importDirectory : Int := 1

/-- The string at an address. -/
def stringAt (img : Image) (address : Int) : Except ImportError String :=
  match img.fileOffset? address with
  | none => .error (.nameUnmapped address)
  | some offset => .ok (img.data.cString offset none)

/-- What `read` makes of each descriptor from an offset on, at most `count` of them, up to the one
that ends the table. -/
def walkDescriptors {α : Type} (img : Image) (read : ImportDescriptor → Except ImportError α) :
    (count : Nat) → (offset : Int) → Except ImportError (List α)
  | 0, _ => .ok []
  | count + 1, offset => do
    let d ← (ImportDescriptor.decode img.data offset).mapError .descriptor
    if d.IsTerminator then return []
    let first ← read d
    let rest ← img.walkDescriptors read count (offset + ImportDescriptor.codec.size)
    return first :: rest

/-- What `read` makes of each descriptor of the import table; an image without one has none. -/
def mapDescriptors {α : Type} (img : Image) (read : ImportDescriptor → Except ImportError α) :
    Except ImportError (List α) :=
  match img.directory? importDirectory with
  | none => .ok []
  | some directory =>
    if directory.virtualAddress = 0 then .ok []
    else
      match img.fileOffset? directory.virtualAddress with
      | none => .error (.directoryUnmapped directory.virtualAddress)
      | some offset => img.walkDescriptors read maxImportDescriptors offset

/-- The descriptors of the import table. -/
def importDescriptors (img : Image) : Except ImportError (List ImportDescriptor) :=
  img.mapDescriptors .ok

/-- The word that an entry of a lookup table is. -/
def entryWord (img : Image) : Word := if img.isPe32Plus then .u64 else .u32

/-- The names from an offset of a lookup table on, at most `count` entries, up to the entry that is
zero. The top bit marks an import by ordinal, which has no name. The names in `done` are in reverse
and come first. -/
def namesFrom (img : Image) :
    (count : Nat) → (offset : Int) → (done : List String) → Except ImportError (List String)
  | 0, _, done => .ok done.reverse
  | count + 1, offset, done =>
    match img.entryWord.read .little img.data offset with
    | .error _ => .error .lookupTableCutOff
    | .ok entry =>
      let next := offset + img.entryWord.width
      if entry = 0 then .ok done.reverse
      else if img.entryWord.modulus ≤ 2 * entry then img.namesFrom count next done
      else
        -- the name stands behind a hint of two bytes
        match img.stringAt (entry % 0x80000000 + 2) with
        | .error e => .error e
        | .ok name => img.namesFrom count next (name :: done)

/-- The functions that a descriptor imports by name. -/
def functionNames (img : Image) (d : ImportDescriptor) : Except ImportError (List String) :=
  match img.fileOffset? d.namesTable with
  | none => .error (.lookupTableUnmapped d.namesTable)
  | some offset => img.namesFrom maxImportsPerLibrary offset []

/-- The libraries of the import table with the functions imported by name. -/
def imports (img : Image) : Except ImportError (List Import) :=
  img.mapDescriptors fun d => do
    let library ← img.stringAt d.name
    let functions ← img.functionNames d
    return ⟨library, functions⟩

/-- The names of the imported libraries. -/
def importedLibraries (img : Image) : Except ImportError (List String) :=
  img.imports.map fun found => found.map (·.library)

/-- The imported functions, each with its library. -/
def importedSymbols (img : Image) : Except ImportError (List String) :=
  img.imports.map fun found =>
    found.flatMap fun i => i.functions.map fun f => f ++ ":" ++ i.library

end Image

end Provenance.Pe
