import Chronicle.Bytes
import Chronicle.Text.Utf8

/-!
What stands around a payload in a file: eight letters that name the kind of file, the
version of its layout, the length of the payload and its checksum. Reading checks
them in this order and reports the first that is wrong. Bytes after the payload are
not looked at.

The checksum is the cyclic redundancy check CRC-32: the remainder of the bits of a byte
string, each byte lowest bit first, modulo the reflected polynomial of IEEE 802.3. The
remainder starts from all ones and is complemented at the end.
-/

namespace Chronicle

namespace Checksum

/-- The coefficients of the polynomial, lowest power in the highest bit. -/
def polynomial : UInt32 := 0xedb88320

def shift (remainder : UInt32) : UInt32 :=
  if remainder % 2 = 1 then (remainder >>> 1) ^^^ polynomial else remainder >>> 1

def shifts : Nat → UInt32 → UInt32
  | 0, remainder => remainder
  | count + 1, remainder => shifts count (shift remainder)

def step (remainder : UInt32) (byte : UInt8) : UInt32 :=
  shifts 8 (remainder ^^^ byte.toUInt32)

end Checksum

def checksum (bytes : Bytes) : UInt32 := ~~~(bytes.foldl Checksum.step 0xffffffff)

namespace Artifact

def magic : Artifact → Bytes
  | series => Text.Utf8.encode "TSCSER01"
  | snapshot => Text.Utf8.encode "TSCSNP01"

def version : Nat := 1

def header (artifact : Artifact) : Bytes := artifact.magic ++ Bytes.ofNumber 4 version

def readHeader (artifact : Artifact) (bytes : Bytes) : Except Error Bytes :=
  if bytes.length < 8 then .error (.file .shortRead)
  else if bytes.take 8 ≠ artifact.magic then .error (.damaged (.badMagic artifact))
  else do
    let (found, rest) ← Bytes.readNumber 4 (bytes.drop 8)
    if found = version then .ok rest
    else .error (.damaged (.unsupportedVersion artifact found))

def sealPayload (payload : Bytes) : Bytes :=
  Bytes.ofNumber 8 payload.length ++ Bytes.ofNumber 4 (checksum payload).toNat ++ payload

def openPayload (artifact : Artifact) (bytes : Bytes) : Except Error Bytes := do
  let (length, afterLength) ← Bytes.readNumber 8 bytes
  let (expected, rest) ← Bytes.readNumber 4 afterLength
  let payload := rest.take length
  if payload.length < length then
    .error (.damaged (.payloadTruncated artifact length payload.length))
  else if (checksum payload).toNat ≠ expected then
    .error (.damaged (.checksumMismatch artifact))
  else .ok payload

end Artifact

end Chronicle
