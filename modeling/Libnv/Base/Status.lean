import Mathlib.Init

/-!
# Status codes

The return codes of `nv_base.h`.
-/

namespace Libnv

/-- `NV_OK`, `NV_ERROR`, `NV_AGAIN`, `NV_BUSY`, `NV_DONE`, `NV_DECLINED`, `NV_ABORT`. -/
inductive NvRc where
  | ok
  | error
  | again
  | busy
  | done
  | declined
  | abort
deriving DecidableEq

def NvRc.code : NvRc → Int
  | .ok => 0
  | .error => -1
  | .again => -2
  | .busy => -3
  | .done => -4
  | .declined => -5
  | .abort => -6

end Libnv
