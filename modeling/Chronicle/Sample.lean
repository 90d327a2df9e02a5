import Chronicle.Number.Binary64
import Chronicle.SortedMap

/-!
Samples and labels: the values that every other module passes around, and the two ways in
which a chunk can hold its samples. Timestamps are 64-bit words counted in milliseconds; the
compressed encoding uses their arithmetic modulo 2^64, everything else only their order.
-/

namespace Chronicle

abbrev Timestamp := UInt64

abbrev Duration := UInt64

abbrev Value := Binary64

structure Sample where
  timestamp : Timestamp
  value : Value
deriving DecidableEq, Inhabited

abbrev Labels := SortedMap String String

/-- The earliest moment of a window that ends at `now`; never before time zero. -/
def windowStart (now : Timestamp) (length : Duration) : Timestamp :=
  if length ≤ now then now - length else 0

theorem window_start_toNat (now : Timestamp) (length : Duration) :
    (windowStart now length).toNat = now.toNat - length.toNat := by
  unfold windowStart
  split
  · rename_i fits
    exact UInt64.toNat_sub_of_le now length fits
  · rename_i tooLong
    have := UInt64.lt_iff_toNat_lt.mp (UInt64.not_le.mp tooLong)
    simp
    omega

inductive ChunkEncoding where
  | uncompressed
  | compressed
deriving DecidableEq, Inhabited

namespace ChunkEncoding

def all : List ChunkEncoding := [uncompressed, compressed]

def name : ChunkEncoding → String
  | uncompressed => "uncompressed"
  | compressed => "compressed"

end ChunkEncoding

end Chronicle
