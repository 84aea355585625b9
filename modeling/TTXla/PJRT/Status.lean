import Mathlib.Logic.Basic

namespace TTXla.PJRT

inductive tt_pjrt_status where
  | kSuccess
  | kCancelled
  | kUnknown
  | kInvalidArgument
  | kDeadlineExceeded
  | kNotFound
  | kAlreadyExists
  | kPermissionDenied
  | kResourceExhausted
  | kFailedPrecondition
  | kAborted
  | kOutOfRange
  | kUnimplemented
  | kInternal
  | kUnavailable
  | kDataLoss
  | kUnauthenticated
deriving DecidableEq

-- `ErrorInstance::makeError`: no error instance is made of a success.
def makeError (status : tt_pjrt_status) : Option tt_pjrt_status :=
  if status = .kSuccess then none else some status

end TTXla.PJRT
