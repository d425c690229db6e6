import Provenance.Elf.Image
import Provenance.MachO.Universal
import Provenance.Pe.Import

/-!
# Failed reads behind failures

A reader gives up for a reason of its own, or because some bytes could not be read. Whoever looks
at a file takes both for a file that is no good, save for one case: a read at an offset that cannot
even be named is nothing that a file could be blamed for, and goes through to the caller.

* `misread?`, for each kind of failure — the failed read that stands behind it, if there is one.
* `Escapes` — a failure that would go through.
-/

namespace Provenance

/-- A failure with the given failed read behind it would go through to the caller. -/
def Escapes (misread? : Option Misread) : Prop := misread? = some .unaddressable

/-- Whether a failure would go through can be computed. -/
instance (misread? : Option Misread) : Decidable (Escapes misread?) := by
  unfold Escapes
  infer_instance

/-- A failure with no failed read behind it does not go through. -/
theorem not_escapes_of_none {misread? : Option Misread} (h : misread? = none) :
    ¬ Escapes misread? := by
  rw [h]
  exact nofun

namespace Pe

/-- The failed read behind a failure, if there is one. -/
def RecordError.misread? : RecordError → Option Misread
  | outside error => some error
  | _ => none

/-- The failed read behind a failure, if there is one. -/
def ImageError.misread? : ImageError → Option Misread
  | record error => error.misread?
  | _ => none

/-- The failed read behind a failure, if there is one. -/
def ImportError.misread? : ImportError → Option Misread
  | descriptor error => error.misread?
  | _ => none

end Pe

namespace Elf

/-- The failed read behind a failure, if there is one. -/
def RecordError.misread? : RecordError → Option Misread
  | outside error => some error
  | _ => none

/-- The failed read behind a failure, if there is one. -/
def ImageError.misread? : ImageError → Option Misread
  | record error => error.misread?
  | _ => none

end Elf

namespace MachO

/-- The failed read behind a failure, if there is one. -/
def RecordError.misread? : RecordError → Option Misread
  | outside error => some error
  | _ => none

/-- The failed read behind a failure, if there is one. -/
def ImageError.misread? : ImageError → Option Misread
  | record error => error.misread?
  | _ => none

/-- The failed read behind a failure, if there is one. -/
def UniversalError.misread? : UniversalError → Option Misread
  | record error => error.misread?
  | image error => error.misread?
  | _ => none

end MachO

end Provenance
