import CrossAsm.Cli

/-! The program: the command line on the disk of the machine. -/

namespace CrossAsm.Cli

/-- What the system says of a failed access. -/
def refusal : IO.Error → DiskError
  | .noFileOrDirectory .. => .notFound
  | .alreadyExists _ code reason | .otherError code reason | .resourceBusy code reason
  | .resourceVanished code reason | .unsupportedOperation code reason
  | .hardwareFault code reason | .unsatisfiedConstraints code reason
  | .illegalOperation code reason | .protocolError code reason | .timeExpired code reason
  | .interrupted _ code reason | .invalidArgument _ code reason
  | .permissionDenied _ code reason | .resourceExhausted _ code reason
  | .inappropriateType _ code reason | .noSuchThing _ code reason => .refused reason code.toNat
  | .unexpectedEof => .refused "Unexpected end of file" 0
  | .userError reason => .refused reason 0

/-- The disk of the machine. -/
def systemDisk : Disk IO where
  read path := do
    try
      return .ok (← IO.FS.readBinFile path).toList
    catch e =>
      return .error (refusal e)
  write path bytes := do
    try
      IO.FS.writeBinFile path ⟨bytes.toArray⟩
      return .ok ()
    catch e =>
      return .error (refusal e)

end CrossAsm.Cli

/-- Carries out a command line. -/
def main (args : List String) : IO UInt32 := do
  let outcome ← CrossAsm.Cli.run CrossAsm.Cli.systemDisk args
  IO.print outcome.stdout
  IO.eprint outcome.stderr
  return outcome.code
