import Mathlib.Data.Nat.Notation

/-!
# The frame control field

The tests of `ieee80211.h` on the frame control field of a frame. The processor
is little-endian, so `cpu_to_le16` is the identity.
-/

namespace Calipso.Ieee80211

/-- `IEEE80211_FCTL_FTYPE`. -/
def fctlFtype : UInt16 := 0x000c

/-- `IEEE80211_FCTL_STYPE`. -/
def fctlStype : UInt16 := 0x00f0

def ftypeMgmt : UInt16 := 0x0000

def ftypeCtl : UInt16 := 0x0004

def ftypeData : UInt16 := 0x0008

def stypeProbeResp : UInt16 := 0x0050

def stypeBeacon : UInt16 := 0x0080

def stypeAtim : UInt16 := 0x0090

def stypeAction : UInt16 := 0x00d0

def stypeBackReq : UInt16 := 0x0080

def stypeBack : UInt16 := 0x0090

def stypeAck : UInt16 := 0x00d0

def stypeData : UInt16 := 0x0000

def stypeQosData : UInt16 := 0x0080

/-- The field under a mask has the given value. -/
def hasType (fc mask value : UInt16) : Bool := fc &&& mask == value

/-- `ieee80211_is_data_qos`: only the bit of `QOS_DATA` is looked at. -/
def isDataQos (fc : UInt16) : Bool :=
  hasType fc (fctlFtype ||| stypeQosData) (ftypeData ||| stypeQosData)

def isDataPresent (fc : UInt16) : Bool := hasType fc (fctlFtype ||| 0x40) ftypeData

def isBeacon (fc : UInt16) : Bool := hasType fc (fctlFtype ||| fctlStype) (ftypeMgmt ||| stypeBeacon)

def isAtim (fc : UInt16) : Bool := hasType fc (fctlFtype ||| fctlStype) (ftypeMgmt ||| stypeAtim)

def isAction (fc : UInt16) : Bool := hasType fc (fctlFtype ||| fctlStype) (ftypeMgmt ||| stypeAction)

def isBackReq (fc : UInt16) : Bool := hasType fc (fctlFtype ||| fctlStype) (ftypeCtl ||| stypeBackReq)

def isBack (fc : UInt16) : Bool := hasType fc (fctlFtype ||| fctlStype) (ftypeCtl ||| stypeBack)

def isAck (fc : UInt16) : Bool := hasType fc (fctlFtype ||| fctlStype) (ftypeCtl ||| stypeAck)

end Calipso.Ieee80211
