/-!
Failures of input and output, and which of them pass. A failure may have been built around another
one and may have a source; what counts is whether a lost connection is met on the way from source to
source. A failure that was built around another one shows the source of the inner one as its own, so
the inner one itself is passed over.
-/
namespace Telemetry

inductive IoKind where
  | addrInUse
  | addrNotAvailable
  | alreadyExists
  | brokenPipe
  | connectionAborted
  | connectionRefused
  | connectionReset
  | deadlock
  | directoryNotEmpty
  | fileTooLarge
  | hostUnreachable
  | interrupted
  | invalidData
  | invalidInput
  | isADirectory
  | networkDown
  | networkUnreachable
  | notADirectory
  | notConnected
  | notFound
  | other
  | outOfMemory
  | permissionDenied
  | readOnlyFilesystem
  | resourceBusy
  | storageFull
  | timedOut
  | unexpectedEof
  | unsupported
  | wouldBlock
  | writeZero
deriving DecidableEq, Repr

namespace IoKind

def text : IoKind → String
  | addrInUse => "address in use"
  | addrNotAvailable => "address not available"
  | alreadyExists => "entity already exists"
  | brokenPipe => "broken pipe"
  | connectionAborted => "connection aborted"
  | connectionRefused => "connection refused"
  | connectionReset => "connection reset"
  | deadlock => "deadlock"
  | directoryNotEmpty => "directory not empty"
  | fileTooLarge => "file too large"
  | hostUnreachable => "host unreachable"
  | interrupted => "operation interrupted"
  | invalidData => "invalid data"
  | invalidInput => "invalid input parameter"
  | isADirectory => "is a directory"
  | networkDown => "network down"
  | networkUnreachable => "network unreachable"
  | notADirectory => "not a directory"
  | notConnected => "not connected"
  | notFound => "entity not found"
  | other => "other error"
  | outOfMemory => "out of memory"
  | permissionDenied => "permission denied"
  | readOnlyFilesystem => "read-only filesystem or storage medium"
  | resourceBusy => "resource busy"
  | storageFull => "no storage space"
  | timedOut => "timed out"
  | unexpectedEof => "unexpected end of file"
  | unsupported => "unsupported"
  | wouldBlock => "operation would block"
  | writeZero => "write zero"

def isConnectionLoss : IoKind → Bool
  | connectionRefused | connectionReset | connectionAborted | notConnected | brokenPipe
  | timedOut => true
  | _ => false

end IoKind

inductive Cause where
  /-- A failure of input or output. -/
  | io (kind : IoKind)
  /-- A failure of input or output built around another failure. -/
  | around (kind : IoKind) (inner : Cause)
  /-- Some other failure. -/
  | foreign
  /-- Some other failure with a source behind it. -/
  | behind (source : Cause)
deriving DecidableEq, Repr

namespace Cause

def kind? : Cause → Option IoKind
  | io kind => some kind
  | around kind _ => some kind
  | _ => none

/-- The kinds met at the sources of a failure. -/
def sourceKinds : Cause → List IoKind
  | io _ => []
  | around _ inner => inner.sourceKinds
  | foreign => []
  | behind source => source.kind?.toList ++ source.sourceKinds

/-- A lost connection is met at the failure or at one of its sources. -/
def isTransient (c : Cause) : Bool := (c.kind?.toList ++ c.sourceKinds).any IoKind.isConnectionLoss

end Cause
end Telemetry
