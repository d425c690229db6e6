import Provenance.Text.Ascii
import Provenance.Text.Blank
import Provenance.Text.Numeral

/-!
# Processor architectures

One canonical name for each processor architecture.

* `architectureOfMachine?` — the name for what a system calls its machine, such as `AMD64`.
* `architectureOfCpuType` — the name for a Mach-O processor type; a type without one is spelled out
  as a number.
-/

namespace Provenance

/-- What systems call a machine, with the canonical name of its architecture. -/
def machineNames : List (String × String) := [
  ("x86_64", "x86_64"), ("amd64", "x86_64"), ("x64", "x86_64"),
  ("i386", "x86"), ("i486", "x86"), ("i586", "x86"), ("i686", "x86"), ("x86", "x86"),
  ("arm64", "arm64"), ("aarch64", "arm64"),
  ("armv6l", "arm"), ("armv7l", "arm"), ("armv7", "arm"), ("arm", "arm"),
  ("ppc64", "ppc64"), ("ppc64le", "ppc64"), ("powerpc64", "ppc64"),
  ("ppc", "ppc"), ("powerpc", "ppc")]

/-- The architecture of a machine. Blanks around its name and the case of letters do not matter. -/
def architectureOfMachine? (machine : String) : Option String :=
  machineNames.lookup (Text.lower (String.ofList (Text.strip Text.isBlank machine.toList)))

/-- The Mach-O processor types that have a name. -/
def cpuTypeNames : List (Int × String) := [
  (7, "x86"), (0x1000007, "x86_64"), (12, "arm"), (0x100000C, "arm64"), (0x200000C, "arm64_32"),
  (18, "ppc"), (0x1000012, "ppc64")]

/-- The name of a Mach-O processor type. -/
def architectureOfCpuType (cpuType : Int) : String :=
  (cpuTypeNames.lookup cpuType).getD ("cpu(" ++ Text.signedHex cpuType ++ ")")

end Provenance
