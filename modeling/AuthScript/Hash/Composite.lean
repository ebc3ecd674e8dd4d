import AuthScript.Hash.Ripemd160
import AuthScript.Hash.Sha1
import AuthScript.Hash.Sha256

/-!
# Composite digests

Public keys are hashed with `hash160` and transactions with `hash256`. A writer
collects chunks and hashes their concatenation.
-/

namespace AuthScript

/-- RIPEMD-160 of SHA-256. -/
def hash160 (message : Bytes) : Bytes := ripemd160 (sha256 message)

/-- SHA-256 of SHA-256. -/
def hash256 (message : Bytes) : Bytes := sha256 (sha256 message)

@[simp] theorem length_hash160 (message : Bytes) : (hash160 message).length = 20 := by
  simp [hash160]

@[simp] theorem length_hash256 (message : Bytes) : (hash256 message).length = 32 := by
  simp [hash256]

/-- The chunks collected for a double SHA-256, newest first. -/
structure Hash256Writer where
  chunks : List Bytes := []

namespace Hash256Writer

/-- The writer with one chunk more. -/
def write (w : Hash256Writer) (chunk : Bytes) : Hash256Writer := ⟨chunk :: w.chunks⟩

/-- All bytes collected. -/
def contents (w : Hash256Writer) : Bytes := w.chunks.reverse.flatten

/-- The number of bytes collected. -/
def size (w : Hash256Writer) : Nat := w.contents.length

/-- The double SHA-256 of all bytes collected. -/
def finalize (w : Hash256Writer) : Bytes := hash256 w.contents

@[simp] theorem contents_write (w : Hash256Writer) (chunk : Bytes) :
    (w.write chunk).contents = w.contents ++ chunk := by
  simp [write, contents]

end Hash256Writer

end AuthScript
