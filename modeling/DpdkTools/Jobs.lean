/-! What all jobs share (`dpdkx/jobs.hpp`). -/
namespace DpdkTools
set_option autoImplicit false

def maxPktBurst : Nat := 256

inductive JobState where
  | busy
  | idling
  | done
  deriving Repr, DecidableEq

end DpdkTools
