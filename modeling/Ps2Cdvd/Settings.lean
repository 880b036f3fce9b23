import Mathlib.Data.BitVec

/-!
# Settings and codes of CDVDMAN

The patch zone `cdvdman_settings.common` and the numeric codes of
`common/cdvdman.h`, as far as the modelled functions use them.
-/

namespace Ps2Cdvd

/-- The fields of `struct cdvdman_settings_common` that are read. -/
structure Settings where
  flags : BitVec 16
  layer1Start : Nat

/-- `IOPCORE_COMPAT_ALT_READ` -/
def iopcoreCompatAltRead : BitVec 16 := 0x0001

/-- `IOPCORE_COMPAT_0_SKIP_VIDEOS` -/
def iopcoreCompat0SkipVideos : BitVec 16 := 0x0002

/-- `IOPCORE_COMPAT_EMU_DVDDL` -/
def iopcoreCompatEmuDvddl : BitVec 16 := 0x0004

/-- `IOPCORE_COMPAT_ACCU_READS` -/
def iopcoreCompatAccuReads : BitVec 16 := 0x0008

/-- `cdvdman_settings.common.flags & mask` -/
def Settings.has (cfg : Settings) (mask : BitVec 16) : Bool :=
  cfg.flags &&& mask != 0

/-- `CDVD_ERR_NO` -/
def cdvdErrNo : Int := 0x00

/-- `CDVD_ERR_ABRT` -/
def cdvdErrAbrt : Int := 0x01

/-- `CDVD_ERR_READ` -/
def cdvdErrRead : Int := 0x30

/-- `CDVD_STAT_READ` -/
def cdvdStatRead : Int := 0x06

/-- `CDVD_STAT_PAUSE` -/
def cdvdStatPause : Int := 0x0A

/-- `CDVDMAN_BUF_SECTORS`, the sectors of `cdvdman_buf`. -/
def cdvdmanBufSectors : Nat := 2

end Ps2Cdvd
