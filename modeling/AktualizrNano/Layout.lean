/-
AktualizrNano/Layout.lean

The constants of `aknano.h`: buffer sizes, the layout of the storage area in
flash, and the few numbers the build of a board supplies.

Macros without parentheses are expanded here the way the compiler expands
them where they are used; every use in the source is a plain sum or an array
size, so the value is the one a reader expects.
-/
import AktualizrNano.CLib

namespace AktualizrNano

open CLib

/-! ### C integers -/

/-- Conversion to `int` / `int32_t`. -/
def int32 (x : Int) : Int := (x + 2147483648) % 4294967296 - 2147483648

/-- Conversion to `uint32_t` / `size_t` (32 bits on the target). -/
def uint32 (x : Int) : Nat := (x % 4294967296).toNat

theorem int32_eq {x : Int} (h : -2147483648 ≤ x) (h' : x < 2147483648) : int32 x = x := by
  unfold int32
  omega

theorem uint32_eq {x : Int} (h : 0 ≤ x) (h' : x < 4294967296) : uint32 x = x.toNat := by
  unfold uint32
  omega

/-- A sum in the lower half of the address space is computed exactly. -/
theorem int32_add {a b : Nat} (h : a + b < 2147483648) :
    int32 ((a : Int) + b) = (a + b : Nat) := by
  rw [int32_eq (by omega) (by omega)]
  exact (Int.natCast_add a b).symm

theorem uint32_int32_add {a b : Nat} (h : a + b < 2147483648) :
    uint32 (int32 ((a : Int) + b)) = a + b := by
  rw [int32_add h, uint32_eq (by omega) (by omega)]
  exact Int.toNat_natCast (a + b)

/-! ### Buffer sizes -/

abbrev aknanoMaxTagLength : Nat := 40
abbrev aknanoMaxHwidLength : Nat := 20
abbrev aknanoMaxTargetNameLength : Nat := aknanoMaxTagLength + aknanoMaxHwidLength + 1
abbrev aknanoMaxDeviceNameSize : Nat := 100
abbrev aknanoMaxUuidLength : Nat := 40
abbrev aknanoMaxSerialLength : Nat := 50

/-- 102 bytes. -/
abbrev aknanoMaxUpdateCorrelationIdLength : Nat :=
  aknanoMaxTargetNameLength + aknanoMaxUuidLength + 1

abbrev aknanoMaxFirmwareSize : Nat := 0x100000
abbrev aknanoSha256Len : Nat := 32
abbrev aknanoMaxUriLength : Nat := 120

abbrev aknanoImageDownloadRequestLength : Nat := 4096 * 4
/-- `sizeof(ucUserBuffer)`. -/
abbrev aknanoImageDownloadBufferLength : Nat := aknanoImageDownloadRequestLength + 1024

/-! ### The storage area -/

abbrev aknanoFlashSectorSize : Nat := 4096
abbrev mflashPageSize : Nat := 256
abbrev mflashSectorSize : Nat := 4096

abbrev aknanoStorageFlashOffset : Nat := 0x600000
abbrev aknanoFlashSectorsCount : Nat := 22

abbrev aknanoFlashOffDevUuid : Nat := 0
abbrev aknanoFlashOffDevSerial : Nat := 128

/-- Settings sector. -/
abbrev aknanoFlashOffStateBase : Nat := aknanoFlashSectorSize * 1
abbrev aknanoFlashOffLastAppliedVersion : Nat := aknanoFlashOffStateBase + 0
abbrev aknanoFlashOffLastConfirmedVersion : Nat := aknanoFlashOffStateBase + 4
abbrev aknanoFlashOffOngoingUpdateCorId : Nat := aknanoFlashOffStateBase + 4 * 2
abbrev aknanoFlashOffRollbackRetryCount : Nat := aknanoFlashOffStateBase + 4 * 2 + 100
abbrev aknanoFlashOffRollbackNextRetryTime : Nat := aknanoFlashOffStateBase + 4 * 3 + 100

/-- TUF metadata. -/
abbrev aknanoFlashOffTufRolesBase : Nat := aknanoFlashSectorSize * 2
abbrev aknanoTufMetadataMaxSize : Nat := aknanoFlashSectorSize * 4
abbrev aknanoFlashOffTufRootProvisioning : Nat := aknanoFlashOffTufRolesBase
abbrev aknanoFlashOffTufRoleRoot : Nat :=
  aknanoFlashOffTufRolesBase + aknanoTufMetadataMaxSize * 1
abbrev aknanoFlashOffTufRoleTimestamp : Nat :=
  aknanoFlashOffTufRolesBase + aknanoTufMetadataMaxSize * 2
abbrev aknanoFlashOffTufRoleSnapshot : Nat :=
  aknanoFlashOffTufRolesBase + aknanoTufMetadataMaxSize * 3
abbrev aknanoFlashOffTufRoleTargets : Nat :=
  aknanoFlashOffTufRolesBase + aknanoTufMetadataMaxSize * 4

end AktualizrNano
