import GoveeH5086.Library.BigEndian

/-! # Constants of the integration (`const.py`) -/

namespace GoveeH5086
open BigEndian

def goveeSendCharUuid : String := "00010203-0405-0607-0809-0a0b0c0d2b11"
def goveeRecvCharUuid : String := "00010203-0405-0607-0809-0a0b0c0d2b10"

/-- `b"MakingLifeSmarte"`, the key shared by every plug. -/
def goveePsk : Bytes :=
  [0x4d, 0x61, 0x6b, 0x69, 0x6e, 0x67, 0x4c, 0x69, 0x66, 0x65, 0x53, 0x6d, 0x61, 0x72, 0x74, 0x65]

/-- Seconds to wait for the first valid notification after subscribing. -/
def notifyTimeoutS : ℕ := 8

/-- The poll cadence in seconds when the options do not set one. -/
def defaultScanInterval : ℤ := 30

end GoveeH5086
