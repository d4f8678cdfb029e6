/-
AktualizrNano/Platform.lean

What the board and its toolchain supply: names, the places of the two image
slots, and the points the C language leaves to the compiler and the library.
-/
import AktualizrNano.Layout

namespace AktualizrNano

open CLib

/-- A slot starts at a sector boundary, its addresses are `int`s, and the
storage area lies outside it. -/
structure SlotAt (slot : Nat) : Prop where
  aligned : mflashSectorSize ∣ slot
  fits : slot + aknanoMaxFirmwareSize < 2147483648
  clear : slot + aknanoMaxFirmwareSize ≤ aknanoStorageFlashOffset ∨
    aknanoStorageFlashOffset + aknanoFlashSectorsCount * aknanoFlashSectorSize ≤ slot

/-- The parameters of a build. -/
structure Platform where
  /-- `BOARD_NAME` -/
  boardName : List Byte
  flashAreaImage1Offset : Nat
  flashAreaImage2Offset : Nat
  image1 : SlotAt flashAreaImage1Offset
  image2 : SlotAt flashAreaImage2Offset
  apart : flashAreaImage1Offset + aknanoMaxFirmwareSize ≤ flashAreaImage2Offset ∨
    flashAreaImage2Offset + aknanoMaxFirmwareSize ≤ flashAreaImage1Offset
  /-- whether plain `char` is signed -/
  charSigned : Bool
  /-- what `sscanf` stores for a number of 2^32 or more -/
  overflow : Bool → Nat → BitVec 32
  /-- `gmtime` and the format of `get_time_str` -/
  timeStr : BitVec 64 → List Byte
  /-- `aknano_get_ipv4_and_mac` -/
  ipv4 : CharArray 4
  mac : CharArray 6
  /-- the lines of an INI text as section, name and value; a value is what
  stands in memory from its first byte on, its NUL included -/
  iniParse : List Byte → List (List Byte × List Byte × List Byte)
  /-- `AKNANO_FACTORY_UUID` -/
  factoryUuid : List Byte
  /-- `__DATE__ " " __TIME__` -/
  compilationTime : List Byte

variable (p : Platform)

def aknanoGetBoardName : List Byte := p.boardName

/-- The slot that `aknano_download_image` writes. -/
def aknanoGetTargetSlotAddress (currentImagePosition : BitVec 8) : Nat :=
  if currentImagePosition = 0x01 then p.flashAreaImage2Offset
  else if currentImagePosition = 0x02 then p.flashAreaImage1Offset
  else p.flashAreaImage2Offset

/-- Whatever the position, the slot is one of the two. -/
theorem targetSlot_slotAt (currentImagePosition : BitVec 8) :
    SlotAt (aknanoGetTargetSlotAddress p currentImagePosition) := by
  unfold aknanoGetTargetSlotAddress
  split
  · exact p.image2
  split
  · exact p.image1
  · exact p.image2

/-- A plain `char` compares below zero. -/
def charNegative (c : Byte) : Bool := p.charSigned && c ≥ 0x80

/-- A board for concrete runs: 1 MiB slots at 1 and 2 MiB. -/
def Platform.sample : Platform where
  boardName := ascii "MIMXRT1060-EVK"
  flashAreaImage1Offset := 0x100000
  flashAreaImage2Offset := 0x200000
  image1 := ⟨by decide, by decide, by decide⟩
  image2 := ⟨by decide, by decide, by decide⟩
  apart := by decide
  charSigned := false
  overflow := fun _ _ => 0xFFFFFFFF
  timeStr := fun _ => ascii "2023-03-29T20:05:13.000Z"
  ipv4 := ⟨[192, 168, 0, 2], rfl⟩
  mac := ⟨[0x00, 0x11, 0x22, 0x33, 0x44, 0x55], rfl⟩
  iniParse := fun _ => []
  factoryUuid := ascii "00000000-0000-0000-0000-000000000000"
  compilationTime := ascii "Mar 29 2023 20:05:13"

end AktualizrNano
