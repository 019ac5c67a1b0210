/-! Disks: files that are read and written by path, and why that fails. -/

namespace CrossAsm

/-- Why a file cannot be read or written. -/
inductive DiskError where
  | notFound
  | notADirectory
  | isADirectory
  | nameTooLong
  | nulInName
  | notText
  /-- Any other refusal of the system, with its number. -/
  | refused (reason : String) (code : Nat)
  deriving DecidableEq

/-- A refusal of the system with its number. -/
def DiskError.numbered (reason : String) (code : Nat) : String :=
  s!"{reason} (os error {code})"

/-- The text of a disk error. -/
def DiskError.message : DiskError → String
  | .notFound => numbered "No such file or directory" 2
  | .notADirectory => numbered "Not a directory" 20
  | .isADirectory => numbered "Is a directory" 21
  | .nameTooLong => numbered "File name too long" 36
  | .nulInName => "file name contained an unexpected NUL byte"
  | .notText => "stream did not contain valid UTF-8"
  | .refused reason code => numbered reason code

/-- A way to read and write files. -/
structure Disk (m : Type → Type) where
  /-- The bytes of a file. -/
  read : String → m (Except DiskError (List UInt8))
  /-- Gives a file its bytes, and makes it if there is none. -/
  write : String → List UInt8 → m (Except DiskError Unit)

end CrossAsm
