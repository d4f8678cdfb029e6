/-
AktualizrNano/Provisioning.lean

The identity of the device, and the map of the storage area.

`aknano_save_uuid_and_serial` clears the whole area and programs one page of
it.  From then on every item of the area (identity, settings, provisioned root,
the file of each role) has sectors of its own, and every operation of the agent
touches those of one item only, or none: `StorageOp.isolated`.  So the identity
that was saved is the one that every later boot reads
(`storageItems_isolated`).

Nothing is assumed of the flash after the identity was saved: operations may
fail, or be cut short, at any call.
-/
import AktualizrNano.DeviceGateway
import AktualizrNano.ImageDownload

namespace AktualizrNano

open CLib NorFlash Outcome

variable (o : FlashFaults)

/-! ### Saving the identity -/

/-- A driver error is only reported. -/
def aknanoClearFlashSector (offset : Int) : FlashM Int := do
  let _ ← mflashDrvSectorErase o (int32 (aknanoStorageFlashOffset + offset))
  pure 0

/-- `data` is one page. -/
def aknanoWriteFlashPage (offset : Int) (data : List Byte) : FlashM Int := do
  let _ ← mflashDrvPageProgram o (int32 (aknanoStorageFlashOffset + offset)) data
  pure 0

/-- The loop over the sectors, from an offset on. -/
def clearSectors : (sectors offset : Nat) → FlashM Unit
  | 0, _ => pure ()
  | sectors + 1, offset => do
    let _ ← aknanoClearFlashSector o offset
    clearSectors sectors (offset + mflashSectorSize)

def aknanoClearProvisionedData : FlashM Int := do
  clearSectors o aknanoFlashSectorsCount 0
  pure 0

/-- `memcpy(dst + offset, src, sizeof(src))`. -/
def copyAt (dst : List Byte) (offset : Nat) (src : List Byte) : List Byte :=
  dst.take offset ++ src ++ dst.drop (offset + src.length)

/-- The buffer is on the stack: `uuidAndSerial` is what it holds before. -/
def aknanoSaveUuidAndSerial (uuidAndSerial : CharArray mflashPageSize)
    (uuid : CharArray aknanoMaxUuidLength) (serial : CharArray aknanoMaxSerialLength) :
    FlashM Int := do
  let _ ← aknanoClearProvisionedData o
  let page := copyAt (copyAt uuidAndSerial.bytes 0 uuid.bytes) 128 serial.bytes
  let _ ← aknanoWriteFlashPage o aknanoFlashOffDevUuid page
  pure 0

variable {o}

theorem clearFlashSector_spec (hrel : o.Reliable) {offset : Nat} (hdvd : mflashSectorSize ∣ offset)
    (hfit : offset < aknanoFlashSectorsCount * mflashSectorSize) (f : Flash) :
    wp (aknanoClearFlashSector o offset)
      (fun _ f' => f'.mem = erase mflashSectorSize f.mem (aknanoStorageFlashOffset + offset))
      (fun _ _ => False) f := by
  have hcount : aknanoFlashSectorsCount * mflashSectorSize = 90112 := rfl
  have hoff : aknanoStorageFlashOffset = 6291456 := rfl
  rw [aknanoClearFlashSector, int32_add (by omega), wp_bind, mflashDrvSectorErase]
  refine wp_mono (driverCall_spec (by omega) f) ?_ ?_
  · rintro r f' ⟨-, ⟨-, -, hmem⟩ | ⟨-, hbad, -⟩⟩
    · exact (wp_pure _).mpr hmem
    · exact absurd ⟨hrel, Nat.dvd_add (by decide) hdvd⟩ hbad
  · rintro h f' ⟨-, hbad, -⟩
    exact hbad hrel

/-- The loop erases one range. -/
theorem clearSectors_spec (hrel : o.Reliable) (sectors : Nat) {offset : Nat}
    (hdvd : mflashSectorSize ∣ offset)
    (hfit : offset + sectors * mflashSectorSize ≤ aknanoFlashSectorsCount * mflashSectorSize)
    (f : Flash) :
    wp (clearSectors o sectors offset)
      (fun _ f' => f'.mem
        = erase (sectors * mflashSectorSize) f.mem (aknanoStorageFlashOffset + offset))
      (fun _ _ => False) f := by
  induction sectors generalizing offset f with
  | zero =>
    rw [clearSectors, wp_pure]
    funext x
    rw [erase, fill, if_neg (by omega)]
  | succ sectors ih =>
    rw [Nat.succ_mul] at hfit
    have hpos : 0 < mflashSectorSize := by decide
    rw [clearSectors, wp_bind]
    refine wp_mono (clearFlashSector_spec hrel hdvd (by omega) f) ?_ fun _ _ h => h
    intro _ f₁ hmem₁
    refine wp_mono (ih (Nat.dvd_add hdvd (dvd_refl _)) (by omega) f₁) ?_ fun _ _ h => h
    intro _ f₂ hmem₂
    rw [hmem₂, hmem₁, ← Nat.add_assoc, erase_erase, Nat.succ_mul, Nat.add_comm mflashSectorSize]

theorem copyAt_length {dst src : List Byte} {offset : Nat}
    (h : offset + src.length ≤ dst.length) : (copyAt dst offset src).length = dst.length := by
  simp only [copyAt, List.length_append, List.length_take, List.length_drop]
  omega

/-- What was copied stands at its offset. -/
theorem copyAt_slice {dst src : List Byte} {offset : Nat} (h : offset ≤ dst.length) :
    ((copyAt dst offset src).drop offset).take src.length = src := by
  have htake : (dst.take offset).length = offset := by
    rw [List.length_take]
    omega
  rw [copyAt, List.append_assoc, List.drop_append_of_le_length htake.ge,
    List.drop_of_length_le htake.le, List.nil_append, List.take_left]

/-- What was copied behind it does not change a slice. -/
theorem copyAt_slice_before {dst src : List Byte} {offset n : Nat} (h : n ≤ offset)
    (hdst : offset ≤ dst.length) : (copyAt dst offset src).take n = dst.take n := by
  rw [copyAt, List.append_assoc, List.take_append_of_le_length (by rw [List.length_take]; omega),
    List.take_take, Nat.min_eq_left h]

/-- **Saving the identity** on a device that works: both arrays stand in the
storage area. -/
theorem saveUuidAndSerial_spec (hrel : o.Reliable) (uuidAndSerial : CharArray mflashPageSize)
    (uuid : CharArray aknanoMaxUuidLength) (serial : CharArray aknanoMaxSerialLength)
    (f : Flash) :
    wp (aknanoSaveUuidAndSerial o uuidAndSerial uuid serial)
      (fun _ f' => storageBytes f'.mem aknanoFlashOffDevUuid aknanoMaxUuidLength = uuid.bytes ∧
        storageBytes f'.mem aknanoFlashOffDevSerial aknanoMaxSerialLength = serial.bytes)
      (fun _ _ => False) f := by
  have huuid := uuid.length_eq
  have hserial := serial.length_eq
  have hfront : (copyAt uuidAndSerial.bytes 0 uuid.bytes).length = mflashPageSize := by
    rw [copyAt_length (by rw [huuid, uuidAndSerial.length_eq]; decide), uuidAndSerial.length_eq]
  rw [aknanoSaveUuidAndSerial, wp_bind, aknanoClearProvisionedData, wp_bind]
  refine wp_mono (clearSectors_spec hrel aknanoFlashSectorsCount (dvd_zero _) (by omega) f) ?_
    fun _ _ h => h
  intro _ f₁ hmem₁
  rw [wp_pure]
  dsimp only
  generalize hpage : copyAt (copyAt uuidAndSerial.bytes 0 uuid.bytes) 128 serial.bytes = page
  have hlen : page.length = mflashPageSize := by
    rw [← hpage, copyAt_length (by rw [hserial, hfront]; decide), hfront]
  have haddr : int32 (((aknanoStorageFlashOffset : Nat) : Int) + (aknanoFlashOffDevUuid : Nat))
      = (aknanoStorageFlashOffset : Nat) := by decide
  rw [wp_bind, aknanoWriteFlashPage, haddr, wp_bind, mflashDrvPageProgram]
  refine wp_mono (driverCall_spec (by decide) f₁) ?_ fun _ _ h => h.2.1 hrel
  rintro r f₂ ⟨-, ⟨-, -, hmem₂⟩ | ⟨-, hbad, -⟩⟩
  · rw [wp_pure, wp_pure]
    -- all of the page lies in the erased sectors
    have hstands : ∀ i < page.length,
        f₂.mem (aknanoStorageFlashOffset + i) = page.getD i 0xFF := fun i hi => by
      rw [hmem₂, hmem₁]
      exact program_erase (by rw [hlen]; decide) hi
    constructor
    · have hslice := read_slice hstands (show 0 + aknanoMaxUuidLength ≤ page.length by
        rw [hlen]; decide)
      apply hslice.trans
      have hcopied : ((copyAt uuidAndSerial.bytes 0 uuid.bytes).drop 0).take uuid.bytes.length
          = uuid.bytes := copyAt_slice (Nat.zero_le _)
      rw [List.drop_zero, huuid] at hcopied
      rw [← hpage, List.drop_zero, copyAt_slice_before (by decide) (by rw [hfront]; decide),
        hcopied]
    · have hslice := read_slice hstands
        (show aknanoFlashOffDevSerial + aknanoMaxSerialLength ≤ page.length by rw [hlen]; decide)
      apply hslice.trans
      have hcopied : ((copyAt (copyAt uuidAndSerial.bytes 0 uuid.bytes) 128 serial.bytes).drop
          128).take serial.bytes.length = serial.bytes :=
        copyAt_slice (by rw [hfront]; decide)
      rwa [hpage, hserial] at hcopied
  · exact absurd ⟨hrel, by decide⟩ hbad

/-! ### The map of the storage area -/

/-- A role that has a region. -/
abbrev KnownRole : Type := { role : TufRole // role ≠ .other }

/-- What the storage area holds. -/
inductive StorageItem
  | deviceId
  | settings
  | provisionedRoot
  | localFile (role : KnownRole)
  deriving DecidableEq

namespace StorageItem

def addr : StorageItem → Nat
  | .deviceId => aknanoStorageFlashOffset + aknanoFlashOffDevUuid
  | .settings => stateLo
  | .provisionedRoot => aknanoStorageFlashOffset + aknanoFlashOffTufRootProvisioning
  | .localFile role => roleAddr role

def size : StorageItem → Nat
  | .deviceId => mflashSectorSize
  | .settings => mflashSectorSize
  | .provisionedRoot => aknanoTufMetadataMaxSize
  | .localFile _ => aknanoTufMetadataMaxSize

/-- No byte of the item has changed. -/
def Same (item : StorageItem) (m m' : Mem) : Prop :=
  ∀ x, item.addr ≤ x → x < item.addr + item.size → m' x = m x

/-- The items that are not files lie in front of the files. -/
theorem before_roles {item : StorageItem} (h : ∀ role, item ≠ .localFile role) :
    item.addr + item.size ≤ tufRolesLo := by
  cases item with
  | localFile role => exact absurd rfl (h role)
  | _ => decide

/-- **No two items share a byte.** -/
theorem disjoint {i j : StorageItem} (h : i ≠ j) :
    i.addr + i.size ≤ j.addr ∨ j.addr + j.size ≤ i.addr := by
  -- a file, and an item that is none
  have hfile : ∀ (role : KnownRole) (k : StorageItem), (∀ r, k ≠ .localFile r) →
      k.addr + k.size ≤ (localFile role).addr := fun role k hk =>
    (before_roles hk).trans (roleAddr_region role.2).2.1
  cases i with
  | localFile r =>
    cases j with
    | localFile r' =>
      have hne : (r : TufRole) ≠ r' := fun heq => h (congrArg localFile (Subtype.ext heq))
      exact roleAddr_disjoint r.2 r'.2 hne
    | _ => exact Or.inr (hfile r _ nofun)
  | deviceId =>
    cases j with
    | deviceId => exact absurd rfl h
    | localFile r => exact Or.inl (hfile r _ nofun)
    | _ => decide
  | settings =>
    cases j with
    | settings => exact absurd rfl h
    | localFile r => exact Or.inl (hfile r _ nofun)
    | _ => decide
  | provisionedRoot =>
    cases j with
    | provisionedRoot => exact absurd rfl h
    | localFile r => exact Or.inl (hfile r _ nofun)
    | _ => decide

/-- Every item lies in the storage area. -/
theorem in_area (item : StorageItem) : aknanoStorageFlashOffset ≤ item.addr ∧
    item.addr + item.size
      ≤ aknanoStorageFlashOffset + aknanoFlashSectorsCount * aknanoFlashSectorSize := by
  cases item with
  | localFile role =>
    obtain ⟨-, hlo, hhi⟩ := roleAddr_region role.2
    have hlow : aknanoStorageFlashOffset ≤ tufRolesLo := by decide
    have hhigh : tufRolesHi
        ≤ aknanoStorageFlashOffset + aknanoFlashSectorsCount * aknanoFlashSectorSize := by decide
    exact ⟨hlow.trans hlo, hhi.trans hhigh⟩
  | _ => decide

theorem Same.refl (item : StorageItem) (m : Mem) : item.Same m m := fun _ _ _ => rfl

theorem Same.trans {item : StorageItem} {m m' m'' : Mem} (h : item.Same m m')
    (h' : item.Same m' m'') : item.Same m m'' := fun x hlo hhi =>
  (h' x hlo hhi).trans (h x hlo hhi)

/-- A frame beside an item keeps it. -/
theorem same_of_sameOutside {item : StorageItem} {lo hi : Nat} {m m' : Mem}
    (h : SameOutside lo hi m m') (hout : item.addr + item.size ≤ lo ∨ hi ≤ item.addr) :
    item.Same m m' := fun x _ _ => h x (by omega)

end StorageItem

/-! ### What later operations change -/

/-- What the agent does to the flash once it is provisioned. -/
inductive StorageOp
  | updateSettings (s : Settings)
  | writeLocalFile (role : KnownRole) (data : List Byte)
      (fits : data.length ≤ aknanoTufMetadataMaxSize)
  | readLocalFile (role : KnownRole) (targetBuffer : List Byte)
      (fits : targetBuffer.length ≤ aknanoTufMetadataMaxSize)
  | downloadImage (imagePosition : BitVec 8) (selectedTarget : AknanoTarget)

namespace StorageOp

/-- The item it is about; an image lies outside the storage area. -/
def item : StorageOp → Option StorageItem
  | .updateSettings _ => some .settings
  | .writeLocalFile role _ _ => some (.localFile role)
  | .readLocalFile role _ _ => some (.localFile role)
  | .downloadImage _ _ => none

variable (p : Platform) (e : Env)

def run : StorageOp → M Unit
  | .updateSettings s => do
    let _ ← onFlash (aknanoUpdateSettingsInFlash e.faults s)
  | .writeLocalFile role data _ => do
    let _ ← onFlash (tufClientWriteLocalFile e.faults role data)
  | .readLocalFile role targetBuffer _ => do
    let _ ← onFlash (tufClientReadLocalFile e.faults role targetBuffer 0)
  | .downloadImage imagePosition selectedTarget => do
    let _ ← aknanoDownloadAndFlashImage p e imagePosition selectedTarget

/-- The world after these operations, each of which may be cut short. -/
def after (ops : List StorageOp) (w : World) : World :=
  ops.foldl (fun w op => final (op.run p e) w) w

end StorageOp

variable {p : Platform} {e : Env}

/-- An operation of the flash changes what its contract says. -/
theorem keeps_onFlash {α : Type} {R : Mem → Mem → Prop} {x : FlashM α}
    (h : ∀ f, wp x (fun _ f' => R f.mem f'.mem) (fun _ f' => R f.mem f'.mem) f) :
    Keeps (fun w w' => R w.flash.mem w'.flash.mem) (do let _ ← onFlash x) := by
  intro w
  rw [wp_bind, onFlash, wp_zoom]
  exact wp_mono (h w.flash) (fun _ _ hR => (wp_pure _).mpr hR) fun _ _ hR => hR

/-- A download changes its slot only. -/
theorem downloadAndFlashImage_slot (imagePosition : BitVec 8) (selectedTarget : AknanoTarget) :
    Keeps (fun w w' => SameOutside (aknanoGetTargetSlotAddress p imagePosition)
        (aknanoGetTargetSlotAddress p imagePosition + aknanoMaxFirmwareSize)
        w.flash.mem w'.flash.mem)
      (aknanoDownloadAndFlashImage p e imagePosition selectedTarget) := by
  intro w
  refine (still_mtlsConnect _).wp_bind (fun connected w₁ h₁ => ?_) fun _ w' h => ?_
  · have hmem : w₁.flash.mem = w.flash.mem := by rw [h₁]
    split
    · refine wp_mono (downloadImage_spec w₁) ?_ ?_
      · rintro r w' ⟨xs, hin, -⟩
        exact hmem ▸ hin.frame
      · rintro h w' ⟨xs, hin⟩
        exact hmem ▸ hin.frame
    · rw [wp_pure]
      dsimp only
      rw [hmem]
  · rw [h]

namespace StorageOp

/-- A save of the settings stays in its sector. -/
theorem updateSettings_frame (s : Settings) (w : World) :
    SameOutside stateLo stateHi w.flash.mem
      (final (run p e (.updateSettings s)) w).flash.mem := by
  have hkeeps : Keeps _ (run p e (.updateSettings s)) :=
    keeps_onFlash fun f => wp_mono (updateSettings_spec s f) (fun _ _ h => h.1) fun _ _ h => h.1
  exact hkeeps.final w

theorem writeLocalFile_frame (role : KnownRole) {data : List Byte}
    (fits : data.length ≤ aknanoTufMetadataMaxSize) (w : World) :
    InRegion role w.flash.mem
      (final (run p e (.writeLocalFile role data fits)) w).flash.mem := by
  have hkeeps : Keeps _ (run p e (.writeLocalFile role data fits)) :=
    keeps_onFlash fun f => wp_mono (writeLocalFile_spec role fits f) (fun _ _ h => h.1)
      fun _ _ h => h.1
  exact hkeeps.final w

theorem readLocalFile_frame (role : KnownRole) {targetBuffer : List Byte}
    (fits : targetBuffer.length ≤ aknanoTufMetadataMaxSize) (w : World) :
    InRegion role w.flash.mem
      (final (run p e (.readLocalFile role targetBuffer fits)) w).flash.mem := by
  have hkeeps : Keeps _ (run p e (.readLocalFile role targetBuffer fits)) :=
    keeps_onFlash fun f => wp_mono (readLocalFile_spec role fits f) (fun _ _ h => h.1)
      fun _ _ h => h.1
  exact hkeeps.final w

theorem downloadImage_frame (imagePosition : BitVec 8) (selectedTarget : AknanoTarget)
    (w : World) :
    SameOutside (aknanoGetTargetSlotAddress p imagePosition)
      (aknanoGetTargetSlotAddress p imagePosition + aknanoMaxFirmwareSize) w.flash.mem
      (final (run p e (.downloadImage imagePosition selectedTarget)) w).flash.mem := by
  have hkeeps : Keeps _ (run p e (.downloadImage imagePosition selectedTarget)) := fun w =>
    wp_bind.mpr <| wp_mono (downloadAndFlashImage_slot imagePosition selectedTarget w)
      (fun _ _ h => (wp_pure _).mpr h) fun _ _ h => h
  exact hkeeps.final w

/-- **Isolation**: an operation changes no byte of another item, however it
ends. -/
theorem isolated (op : StorageOp) (w : World) {item : StorageItem} (h : op.item ≠ some item) :
    item.Same w.flash.mem (final (op.run p e) w).flash.mem := by
  have hother : ∀ {own : StorageItem}, op.item = some own → item ≠ own := fun hown heq =>
    h (hown.trans (congrArg some heq.symm))
  cases op with
  | updateSettings s =>
    exact StorageItem.same_of_sameOutside (updateSettings_frame s w)
      (StorageItem.disjoint (hother rfl))
  | writeLocalFile role data fits =>
    exact StorageItem.same_of_sameOutside (writeLocalFile_frame role fits w).frame
      (StorageItem.disjoint (hother rfl))
  | readLocalFile role targetBuffer fits =>
    exact StorageItem.same_of_sameOutside (readLocalFile_frame role fits w).frame
      (StorageItem.disjoint (hother rfl))
  | downloadImage imagePosition selectedTarget =>
    obtain ⟨hlo, hhi⟩ := item.in_area
    have hclear := (targetSlot_slotAt p imagePosition).clear
    apply StorageItem.same_of_sameOutside (downloadImage_frame imagePosition selectedTarget w)
    exact hclear.elim (fun h => Or.inr (h.trans hlo)) fun h => Or.inl (hhi.trans h)

/-- No operation is about the identity. -/
theorem deviceId_kept (ops : List StorageOp) (w : World) :
    StorageItem.deviceId.Same w.flash.mem (after p e ops w).flash.mem := by
  induction ops generalizing w with
  | nil => exact StorageItem.Same.refl _ _
  | cons op ops ih =>
    have hop : op.item ≠ some .deviceId := by
      cases op <;> exact nofun
    exact (op.isolated w hop).trans (ih _)

end StorageOp

/-! ### The identity that is read -/

/-- A string that stands in flash is read, if the words that are read reach its
end. -/
theorem storedChars_str {m : Mem} {offset n : Nat} {a : CharArray n}
    (hstands : storageBytes m offset n = a.bytes) (hshort : a.str.length < n / 4 * 4) :
    (storedChars m offset n).str = a.str := by
  have hwords : n / 4 * 4 ≤ n := Nat.div_mul_le_self n 4
  have hbytes : storageBytes m offset (n / 4 * 4) = a.bytes.take (n / 4 * 4) := by
    rw [← hstands, storageBytes, storageBytes, read_take _ _ hwords]
  have hlen : (a.bytes.take (n / 4 * 4)).length ≤ n := by
    rw [List.length_take, a.length_eq]
    exact (min_le_left ..).trans hwords
  rw [CharArray.str, storedChars, hbytes, CharArray.store_bytes_of_le hlen]
  exact takeWhile_take_append hshort (by rw [a.length_eq]; exact hwords)

/-- An identifier is not taken for damage. -/
theorem dropNegative_of_str {n : Nat} {a : CharArray n} {d : Byte} {ds : List Byte}
    (hstr : a.str = d :: ds) (hplain : d ≤ 0x46) : dropNegative p a = a := by
  have hhead : a.bytes.headD 0 = d := by
    rcases hb : a.bytes with - | ⟨b, bs⟩
    · rw [CharArray.str, hb] at hstr
      cases hstr
    · rw [CharArray.str, hb, List.takeWhile_cons] at hstr
      split at hstr
      · exact (List.cons.inj hstr).1
      · cases hstr
  apply if_neg
  rw [hhead, charNegative]
  intro h
  simp only [Bool.and_eq_true, decide_eq_true_eq] at h
  exact absurd (BitVec.le_trans h.2 hplain) (by decide)

/-- An identifier that was saved is the string that a boot loads. -/
theorem identifier_loaded {m : Mem} {offset n : Nat} {buf : CharArray n} {text : List Byte}
    (hne : text ≠ []) (hplain : ∀ b ∈ text, 0x2D ≤ b ∧ b ≤ 0x46)
    (hshort : text.length < n / 4 * 4)
    (hstands : storageBytes m offset n = (buf.store (text ++ [0])).bytes) :
    (dropNegative p (storedChars m offset n)).str = text := by
  have hclean : ∀ b ∈ text, b ≠ 0 := by
    rintro b hb rfl
    exact absurd (hplain 0 hb).1 (by decide)
  have hstr : (buf.store (text ++ [0])).str = text :=
    CharArray.str_store hclean (hshort.trans_le (Nat.div_mul_le_self n 4))
  have hread : (storedChars m offset n).str = text :=
    (storedChars_str hstands (by rw [hstr]; exact hshort)).trans hstr
  obtain ⟨d, ds, rfl⟩ := List.exists_cons_of_ne_nil hne
  rw [dropNegative_of_str hread (hplain d List.mem_cons_self).2, hread]

/-- **Stored items are isolated.**  Whatever the agent does after the identity
was saved, and whatever fails or is cut short in it, `aknano_init_settings`
reads that identity; each operation changes the bytes of its own item only, and
a save of the settings those of its own sector only. -/
theorem storageItems_isolated {o : FlashFaults} (hrel : o.Reliable) {w₀ w₁ : World}
    {uuid serial : List Byte} (hgen : aknanoGenSerialAndUuid e w₀ = .ok (uuid, serial) w₁)
    (uuidAndSerial : CharArray mflashPageSize) (uuidBuf : CharArray aknanoMaxUuidLength)
    (serialBuf : CharArray aknanoMaxSerialLength) (f : Flash) (ops : List StorageOp) (w : World)
    (hsaved : w.flash = final (aknanoSaveUuidAndSerial o uuidAndSerial (uuidBuf.store uuid)
      (serialBuf.store serial)) f) (imagePosition : BitVec 8) (buildNum : BitVec 32) :
    (∃ s f', aknanoInitSettings p o imagePosition buildNum (StorageOp.after p e ops w).flash
        = .ok (true, s) f' ∧ s.uuid.str ++ [0] = uuid ∧ s.serial.str ++ [0] = serial) ∧
      (∀ (op : StorageOp) (w : World) (item : StorageItem), op.item ≠ some item →
        item.Same w.flash.mem (final (op.run p e) w).flash.mem) ∧
      ∀ (s : Settings) (w : World), SameOutside stateLo stateHi w.flash.mem
        (final (StorageOp.run p e (.updateSettings s)) w).flash.mem := by
  refine ⟨?_, fun op w item h => op.isolated w h, fun s w => StorageOp.updateSettings_frame s w⟩
  obtain ⟨u, t, heq, hulen, htlen, hu, ht⟩ := (genSerialAndUuid_text w₀).of_ok hgen
  obtain ⟨rfl, rfl⟩ := Prod.mk.inj heq
  -- the identity stands in flash, and later operations leave it there
  obtain ⟨huuid, hserial⟩ : storageBytes w.flash.mem aknanoFlashOffDevUuid aknanoMaxUuidLength
        = (uuidBuf.store (u ++ [0])).bytes ∧
      storageBytes w.flash.mem aknanoFlashOffDevSerial aknanoMaxSerialLength
        = (serialBuf.store (t ++ [0])).bytes := by
    have hspec := saveUuidAndSerial_spec hrel uuidAndSerial (uuidBuf.store (u ++ [0]))
      (serialBuf.store (t ++ [0])) f
    obtain ⟨r, f', hrun⟩ := hspec.returns
    rw [hsaved, final, hrun]
    exact hspec.of_ok hrun
  have hkept := StorageOp.deviceId_kept (p := p) (e := e) ops w
  generalize StorageOp.after p e ops w = later at hkept
  have hbytes : ∀ off n, off + n ≤ mflashSectorSize →
      storageBytes later.flash.mem off n = storageBytes w.flash.mem off n := by
    intro off n h
    have hbase : aknanoFlashOffDevUuid = 0 := rfl
    refine read_congr fun i hi => hkept _ ?_ ?_
    · rw [StorageItem.addr]
      omega
    · rw [StorageItem.addr, StorageItem.size]
      omega
  have hspec := aknanoInitSettings_spec (p := p) (o := o) imagePosition buildNum later.flash
  obtain ⟨⟨readsOk, s⟩, f', hrun⟩ :=
    (wp_mono hspec (fun _ _ h => h) fun _ _ hE => hE.2 hrel).returns
  obtain ⟨-, ⟨fields, hs, hfields⟩, hreads⟩ := hspec.of_ok hrun
  obtain rfl : readsOk = true := hreads hrel
  obtain rfl := hfields rfl
  dsimp only at hs
  refine ⟨s, f', hrun, ?_, ?_⟩
  · have hloaded := identifier_loaded (p := p) (n := aknanoMaxUuidLength)
      (List.ne_nil_of_length_pos (by omega)) hu (by rw [hulen]; decide)
      ((hbytes _ _ (by decide)).trans huuid)
    rw [hs]
    exact congrArg (· ++ [0]) hloaded
  · have hloaded := identifier_loaded (p := p) (n := aknanoMaxSerialLength)
      (List.ne_nil_of_length_pos (by omega))
      (fun b hb => ⟨BitVec.le_trans (by decide) (ht b hb).1, (ht b hb).2⟩) (by rw [htlen]; decide)
      ((hbytes _ _ (by decide)).trans hserial)
    rw [hs]
    exact congrArg (· ++ [0]) hloaded

/-- A new device on which these strings were saved. -/
def World.provisioned (uuid serial : List Byte) : World :=
  { World.factory 5 with
    flash := final (aknanoSaveUuidAndSerial .reliable (.zero _) ((CharArray.zero _).store uuid)
      ((CharArray.zero _).store serial)) .erased }

/-- An identity of zeros, a save of the settings and a write of the targets. -/
theorem storageItems_isolated_zeros :
    ∃ s f', aknanoInitSettings .sample .reliable 1 5
        (StorageOp.after .sample .sample [.updateSettings .zero,
          .writeLocalFile ⟨.targets, by decide⟩ [0x7B, 0x7D] (by decide)]
          (.provisioned (ascii "00000000-0000-0000-0000-000000000000" ++ [0])
            (ascii "00000000000000000000000000000000" ++ [0]))).flash = .ok (true, s) f' ∧
      s.uuid.str = ascii "00000000-0000-0000-0000-000000000000" := by
  have hgen : aknanoGenSerialAndUuid .sample (.factory 5)
      = .ok (ascii "00000000-0000-0000-0000-000000000000" ++ [0],
          ascii "00000000000000000000000000000000" ++ [0])
        { World.factory 5 with tick := 1 } := rfl
  generalize ascii "00000000-0000-0000-0000-000000000000" = uuid at hgen
  generalize ascii "00000000000000000000000000000000" = serial at hgen
  obtain ⟨⟨s, f', hrun, huuid, -⟩, -⟩ := storageItems_isolated (p := .sample) (o := .reliable)
    FlashFaults.reliable_spec hgen (.zero _) (.zero _) (.zero _) .erased
    [.updateSettings .zero, .writeLocalFile ⟨.targets, by decide⟩ [0x7B, 0x7D] (by decide)]
    (.provisioned (uuid ++ [0]) (serial ++ [0])) (by dsimp only [World.provisioned]) 1 5
  exact ⟨s, f', hrun, List.append_cancel_right huuid⟩

end AktualizrNano
