/-
AktualizrNano/ImageDownload.lean

`aknano_image_download.c`: an image is fetched in HTTP range requests, hashed
as it arrives and written to the slot that is not running.

The server decides how much each reply carries.  What is received is hashed
before it is written, and the hash is never taken over the flash, so the loop
has to keep three things together: what was received, what was hashed, and
what the slot holds (`Received`).  A separate invariant, `InSlot`, says where
the flash was touched; it holds however the download ends.

Main results: `downloadImage_integrity` and `downloadImage_inSlot`.
-/
import AktualizrNano.Device

namespace AktualizrNano

open CLib NorFlash Outcome

/-! ### The download -/

variable (p : Platform) (e : Env)

/-- `AKNANO_DOWNLOAD_ENDPOINT`. -/
def aknanoDownloadEndpoint : List Byte := p.factoryUuid ++ ascii ".ostree.foundries.io"

abbrev httpStatusCodePartialContent : Nat := 206

def aknanoConnectToDownloadServer : M Bool := aknanoMtlsConnect e (aknanoDownloadEndpoint p)

/-- `data_len` is the length of `data`; as an `int` it is used in the check. -/
def handleReceivedData (data : List Byte) (offset dataLen partitionPhysAddr : Int) : M Int :=
  if int32 (offset + dataLen) ≥ aknanoMaxFirmwareSize then pure (-1)
  else onFlash (aknanoWriteDataToFlash e.faults (int32 (partitionPhysAddr + offset)) data)

/-- The variables of the download loop. -/
structure Download where
  xStatus : Bool
  xCurByte : Nat
  xNumReqBytes : Nat
  stored : Nat
  sha256Context : e.sha256.Ctx

def Download.start : Download e := ⟨true, 0, aknanoImageDownloadRequestLength, 0, e.sha256.starts⟩

def downloadRequest (pcPath : List Byte) (xCurByte xNumReqBytes : Nat) : Request where
  hostname := aknanoDownloadEndpoint p
  method := ascii "GET"
  path := pcPath
  body := []
  headers := []
  rangeStart := xCurByte
  rangeEnd := uint32 (xCurByte + xNumReqBytes - 1)

/-- The body of the loop; the second result is `false` after a `break`. -/
def downloadRound (pcPath : List Byte) (xFileSize dstPartitionPhysAddr : Nat) (d : Download e) :
    M (Download e × Bool) := do
  let reply ← aknanoMtlsSendHttpRequest e (downloadRequest p pcPath d.xCurByte d.xNumReqBytes)
  if ¬ reply.passed then pure ({ d with xStatus := false }, true)
  else
    -- hashed before it is known whether it can be written
    let d := { d with sha256Context := e.sha256.update d.sha256Context reply.bytes }
    let ret ← handleReceivedData e reply.bytes (int32 d.xCurByte) (int32 reply.bytes.length)
      (int32 dstPartitionPhysAddr)
    if ret < 0 then pure ({ d with xStatus := false }, false)
    else if reply.bytes.length = 0 then pure (d, false)
    else
      let stored := uint32 (d.stored + reply.bytes.length)
      let xCurByte := uint32 (d.xCurByte + reply.bytes.length)
      -- wraps around when more has come than was asked for
      let rest := uint32 (xFileSize - xCurByte)
      let xNumReqBytes := if rest < d.xNumReqBytes then rest else d.xNumReqBytes
      -- the code is looked at last: a reply with a wrong one has been written
      pure ({ d with
        xStatus := reply.httpCode = httpStatusCodePartialContent
        xCurByte := xCurByte
        xNumReqBytes := xNumReqBytes
        stored := stored }, true)

/-- The loop, at most `rounds` times. -/
def downloadRounds (pcPath : List Byte) (xFileSize dstPartitionPhysAddr : Nat) :
    (rounds : Nat) → Download e → M (Download e)
  | 0, d => pure d
  | rounds + 1, d =>
    if d.xStatus ∧ d.xCurByte < xFileSize then do
      let (d, more) ← downloadRound p e pcPath xFileSize dstPartitionPhysAddr d
      if more then downloadRounds pcPath xFileSize dstPartitionPhysAddr rounds d else pure d
    else pure d

/-- Every round that is followed by another has written at least one byte
below the size limit (`downloadRounds_enough`). -/
def aknanoDownloadImage (pcPath : List Byte) (imagePosition : BitVec 8)
    (selectedTarget : AknanoTarget) : M Bool := do
  let dstPartitionPhysAddr := aknanoGetTargetSlotAddress p imagePosition
  let xFileSize := selectedTarget.expectedSize.toNat
  let d ← downloadRounds p e pcPath xFileSize dstPartitionPhysAddr (aknanoMaxFirmwareSize + 1)
    (Download.start e)
  aknanoMtlsDisconnect e
  let xStatus := if d.stored ≠ selectedTarget.expectedSize.toNat then false else d.xStatus
  if xStatus then
    if selectedTarget.expectedHash ≠ e.sha256.finish d.sha256Context then pure false
    else aknanoVerifyImage e d.stored
  else pure false

def relativePath (h : List Byte) : List Byte :=
  ascii "/mcu/files/" ++ (h.take 1).flatMap hex2 ++ ascii "/" ++ (h.drop 1).flatMap hex2
    ++ ascii ".bin"

def aknanoDownloadAndFlashImage (imagePosition : BitVec 8) (selectedTarget : AknanoTarget) :
    M Bool := do
  if ← aknanoConnectToDownloadServer p e then
    aknanoDownloadImage p e (relativePath selectedTarget.expectedHash.bytes) imagePosition
      selectedTarget
  else pure false

/-! ### One chunk -/

variable {p e}

/-- What handling `n` bytes at offset `k` may have done: to the flash, and to
nothing else. -/
structure Wrote (slot k n : Nat) (w w' : World) : Prop where
  rest : w' = { w with flash := w'.flash }
  frame : SameOutside (slot + k) (slot + aknanoMaxFirmwareSize) w.flash.mem w'.flash.mem
  calls : ∃ new, w'.flash.calls = new ++ w.flash.calls ∧
    ∀ c ∈ new, k + n < aknanoMaxFirmwareSize ∧ c.Exact (slot + k) n

/-- The touched sectors end within the slot. -/
theorem roundUp_le_slot {k n : Nat} (hk : mflashSectorSize ∣ k)
    (hn : k + n < aknanoMaxFirmwareSize) :
    k + roundUp mflashSectorSize n ≤ aknanoMaxFirmwareSize := by
  have h : roundUp mflashSectorSize n ≤ aknanoMaxFirmwareSize - k :=
    roundUp_le (by decide) (Nat.dvd_sub (by decide) hk) (by omega)
  omega

/-- The slot ends at a sector boundary below the bound. -/
theorem slot_write_fits {slot k n : Nat} (hslot : SlotAt slot)
    (hn : k + n < aknanoMaxFirmwareSize) :
    slot + k + roundUp mflashSectorSize n < 2147483648 := by
  have hmod : slot % 4096 = 0 := Nat.mod_eq_zero_of_dvd hslot.aligned
  have hfits : slot + 1048576 < 2147483648 := hslot.fits
  have hround : roundUp mflashSectorSize n < n + 4096 := roundUp_lt (by decide) n
  have hn' : k + n < 1048576 := hn
  generalize roundUp mflashSectorSize n = r at hround ⊢
  omega

theorem Touched.wrote {slot k n : Nat} (hslot : SlotAt slot) (hn : k + n < aknanoMaxFirmwareSize)
    {w : World} {f : Flash} (h : Touched (slot + k) n w.flash.mem w.flash.calls f)
    (hkept : ¬ mflashSectorSize ∣ slot + k → f.mem = w.flash.mem) :
    Wrote slot k n w { w with flash := f } := by
  refine ⟨rfl, ?_, ?_⟩
  · by_cases hdvd : mflashSectorSize ∣ slot + k
    · have hk : mflashSectorSize ∣ k := (Nat.dvd_add_right hslot.aligned).mp hdvd
      have := roundUp_le_slot hk hn
      exact h.frame.mono le_rfl (by omega)
    · exact hkept hdvd ▸ SameOutside.refl _
  · obtain ⟨new, hnew, hall⟩ := h.calls
    exact ⟨new, hnew, fun c hc => ⟨hn, hall c hc⟩⟩

/-- The address that is handed on is the exact sum of the slot's and the
offset: nothing wraps around below the size limit. -/
theorem handleReceivedData_eq {slot k : Nat} (hslot : SlotAt slot)
    (hk : k ≤ aknanoMaxFirmwareSize) {data : List Byte}
    (hdata : data.length ≤ aknanoImageDownloadBufferLength) :
    handleReceivedData e data (int32 k) (int32 data.length) (int32 slot)
      = if k + data.length < aknanoMaxFirmwareSize
        then onFlash (aknanoWriteDataToFlash e.faults (slot + k : Nat) data) else pure (-1) := by
  have hmax : aknanoMaxFirmwareSize = 1048576 := rfl
  have hbuf : aknanoImageDownloadBufferLength = 17408 := rfl
  have hfits := hslot.fits
  have hk' : int32 k = k := int32_eq (by omega) (by omega)
  have hlen : int32 data.length = data.length := int32_eq (by omega) (by omega)
  have hslot' : int32 slot = slot := int32_eq (by omega) (by omega)
  have hsum : int32 ((k : Int) + data.length) = k + data.length :=
    int32_eq (by omega) (by omega)
  have haddr : int32 ((slot : Int) + k) = (slot + k : Nat) := int32_add (by omega)
  rw [handleReceivedData, hk', hlen, hslot', hsum, haddr]
  by_cases hover : ((k : Int) + data.length) ≥ aknanoMaxFirmwareSize
  · rw [if_pos hover, if_neg (by omega)]
  · rw [if_neg hover, if_pos (by omega)]

/-- A chunk that was accepted is in place. -/
theorem handleReceivedData_spec {slot k : Nat} (hslot : SlotAt slot)
    (hk : k ≤ aknanoMaxFirmwareSize) {data : List Byte}
    (hdata : data.length ≤ aknanoImageDownloadBufferLength) (w : World) :
    wp (handleReceivedData e data (int32 k) (int32 data.length) (int32 slot))
      (fun r w' => Wrote slot k data.length w w' ∧ (0 ≤ r →
        k + data.length < aknanoMaxFirmwareSize ∧
          NorFlash.read w'.flash.mem (slot + k) data.length = data))
      (fun _ w' => Wrote slot k data.length w w') w := by
  rw [handleReceivedData_eq hslot hk hdata]
  by_cases hn : k + data.length < aknanoMaxFirmwareSize
  · rw [if_pos hn, onFlash, wp_zoom]
    refine wp_mono (writeDataToFlash_spec (slot_write_fits hslot hn) w.flash) ?_ ?_
    · rintro r f ⟨ht, hkept, hres, hok, -⟩
      refine ⟨ht.wrote hslot hn hkept, fun hr => ⟨hn, ?_⟩⟩
      have hr0 : r = 0 := by omega
      rw [(hok hr0).1]
      exact read_written ..
    · rintro h f ⟨ht, hkept, -⟩
      exact ht.wrote hslot hn hkept
  · rw [if_neg hn, wp_pure]
    exact ⟨⟨rfl, SameOutside.refl _, [], rfl, by simp⟩, by simp⟩

/-! ### The loop -/

/-- The concatenation of the reply bodies. -/
def received (xs : List Exchange) : List Byte := xs.flatMap fun x => x.reply.bytes

@[simp] theorem received_nil : received [] = [] := rfl

@[simp] theorem received_concat (xs : List Exchange) (x : Exchange) :
    received (xs ++ [x]) = received xs ++ x.reply.bytes := by
  simp [received]

/-- From `w` to `w'` the exchanges `xs` (oldest first) have taken place.  Of
the flash only the slot was touched, and each call that touched it belongs to
one of the replies: its address is that of the bytes received before. -/
structure InSlot (slot : Nat) (w w' : World) (xs : List Exchange) : Prop where
  boot : w'.boot = w.boot
  log : w'.log = w.log
  net : w'.net = xs.reverse ++ w.net
  frame : SameOutside slot (slot + aknanoMaxFirmwareSize) w.flash.mem w'.flash.mem
  calls : ∃ new, w'.flash.calls = new ++ w.flash.calls ∧ ∀ c ∈ new, ∃ pre x post,
    xs = pre ++ x :: post ∧
      (received pre).length + x.reply.bytes.length < aknanoMaxFirmwareSize ∧
      c.Exact (slot + (received pre).length) x.reply.bytes.length

theorem InSlot.refl (slot : Nat) (w : World) : InSlot slot w w [] :=
  ⟨rfl, rfl, rfl, SameOutside.refl _, [], rfl, by simp⟩

theorem InSlot.still {slot : Nat} {w w' w'' : World} {xs : List Exchange}
    (h : InSlot slot w w' xs) (h' : Still w' w'') : InSlot slot w w'' xs := by
  rw [h']
  exact ⟨h.boot, h.log, h.net, h.frame, h.calls⟩

/-- One more exchange, whose reply was not looked at. -/
theorem InSlot.exchange {slot : Nat} {w w' : World} {xs : List Exchange}
    (h : InSlot slot w w' xs) (x : Exchange) (t : Nat) :
    InSlot slot w { w' with tick := t, net := x :: w'.net } (xs ++ [x]) := by
  obtain ⟨new, hnew, hall⟩ := h.calls
  refine ⟨h.boot, h.log, by simp [h.net], h.frame, new, hnew, fun c hc => ?_⟩
  obtain ⟨pre, y, post, rfl, hc⟩ := hall c hc
  exact ⟨pre, y, post ++ [x], by simp, hc⟩

/-- What the loop knows as long as nothing went wrong. -/
structure Received (slot : Nat) (d : Download e) (w : World) (xs : List Exchange) : Prop where
  xCurByte : d.xCurByte = (received xs).length
  stored : d.stored = (received xs).length
  hashed : d.sha256Context
    = (xs.map fun x => x.reply.bytes).foldl e.sha256.update e.sha256.starts
  le : (received xs).length ≤ aknanoMaxFirmwareSize
  inPlace : NorFlash.read w.flash.mem slot (received xs).length = received xs
  partialContent : d.xStatus = true → ∀ x ∈ xs, x.reply.httpCode = httpStatusCodePartialContent

theorem Received.start (slot : Nat) (w : World) : Received slot (Download.start e) w [] :=
  ⟨rfl, rfl, rfl, Nat.zero_le _, rfl, by simp⟩

/-- An accepted, nonempty chunk. -/
theorem Received.step {slot : Nat} {d : Download e} {w w' : World} {xs : List Exchange}
    {x : Exchange} (h : Received slot d w xs) (hstatus : d.xStatus = true)
    (hframe : SameOutside (slot + (received xs).length) (slot + aknanoMaxFirmwareSize)
      w.flash.mem w'.flash.mem)
    (hlt : (received xs).length + x.reply.bytes.length < aknanoMaxFirmwareSize)
    (hread : NorFlash.read w'.flash.mem (slot + (received xs).length) x.reply.bytes.length
      = x.reply.bytes) (n : Nat) :
    Received slot
      ⟨x.reply.httpCode = httpStatusCodePartialContent,
        uint32 (d.xCurByte + x.reply.bytes.length), n,
        uint32 (d.stored + x.reply.bytes.length),
        e.sha256.update d.sha256Context x.reply.bytes⟩ w' (xs ++ [x]) := by
  have hmax : aknanoMaxFirmwareSize = 1048576 := rfl
  have hsum : uint32 ((received xs).length + x.reply.bytes.length)
      = (received (xs ++ [x])).length := by
    rw [uint32_eq (by omega) (by omega), received_concat, List.length_append]
    omega
  refine ⟨by rw [h.xCurByte]; exact hsum, by rw [h.stored]; exact hsum, ?_, ?_, ?_, ?_⟩
  · rw [h.hashed, List.map_append, List.foldl_append]
    rfl
  · rw [received_concat, List.length_append]
    omega
  -- the new chunk lies behind the old ones and has left them alone
  · rw [received_concat, List.length_append, read_add, hread]
    rw [hframe.read (Or.inl le_rfl), h.inPlace]
  · intro hcode y hy
    rcases List.mem_append.mp hy with hy | hy
    · exact h.partialContent hstatus y hy
    · rw [List.mem_singleton.mp hy]
      exact of_decide_eq_true hcode

theorem InSlot.wrote {slot : Nat} {w w₁ w₂ : World} {xs : List Exchange} {x : Exchange} {t : Nat}
    (h : InSlot slot w w₁ xs)
    (hwrote : Wrote slot (received xs).length x.reply.bytes.length
      { w₁ with tick := t, net := x :: w₁.net } w₂) : InSlot slot w w₂ (xs ++ [x]) := by
  have h' := h.exchange x t
  obtain ⟨new, hnew, hall⟩ := h'.calls
  obtain ⟨new', hnew', hall'⟩ := hwrote.calls
  refine ⟨?_, ?_, ?_, h'.frame.trans (hwrote.frame.mono (by omega) le_rfl), new' ++ new, ?_, ?_⟩
  · rw [hwrote.rest]; exact h'.boot
  · rw [hwrote.rest]; exact h'.log
  · rw [hwrote.rest]; exact h'.net
  · rw [hnew', hnew, List.append_assoc]
  · intro c hc
    rcases List.mem_append.mp hc with hc | hc
    · exact ⟨xs, x, [], rfl, hall' c hc⟩
    · exact hall c hc

/-- What the loop leaves behind. -/
def Afterwards (slot xFileSize : Nat) (d : Download e) (w : World) (xs : List Exchange) : Prop :=
  d.xStatus = false ∨ d.stored < xFileSize ∨ Received slot d w xs

/-- **One round.** -/
theorem downloadRound_spec {pcPath : List Byte} {slot xFileSize : Nat} (hslot : SlotAt slot)
    {d : Download e} {w₀ w : World} {xs : List Exchange} (hin : InSlot slot w₀ w xs)
    (hrec : Received slot d w xs) (hstatus : d.xStatus = true) (hlt : d.xCurByte < xFileSize) :
    wp (downloadRound p e pcPath xFileSize slot d)
      (fun r w' => ∃ x, InSlot slot w₀ w' (xs ++ [x]) ∧
        (r.1.xStatus = false ∨ r.2 = true ∧ Received slot r.1 w' (xs ++ [x]) ∧
            d.xCurByte < r.1.xCurByte ∧ r.1.xCurByte < aknanoMaxFirmwareSize ∨
          r.2 = false ∧ r.1.stored < xFileSize))
      (fun _ w' => ∃ ys, InSlot slot w₀ w' (xs ++ ys)) w := by
  rw [downloadRound, wp_bind]
  refine wp_mono (mtlsSendHttpRequest_spec w) ?_ ?_
  · intro reply w₁ hsent
    replace hsent := hsent (Or.inr rfl)
    generalize hx : (⟨_, reply⟩ : Exchange) = x at hsent
    obtain rfl : x.reply = reply := by rw [← hx]
    by_cases hpassed : ¬ x.reply.passed
    · rw [if_pos hpassed, wp_pure]
      exact ⟨x, hsent ▸ hin.exchange x _, Or.inl rfl⟩
    · rw [if_neg hpassed, wp_bind]
      dsimp only
      rw [hrec.xCurByte]
      refine wp_mono (handleReceivedData_spec hslot hrec.le x.reply.bytes_length w₁) ?_ ?_
      · rintro r w₂ ⟨hwrote, hok⟩
        have hin' : InSlot slot w₀ w₂ (xs ++ [x]) := hin.wrote (hsent ▸ hwrote)
        by_cases hr : r < 0
        · rw [if_pos hr, wp_pure]
          exact ⟨x, hin', Or.inl rfl⟩
        · obtain ⟨hsize, hread⟩ := hok (by omega)
          rw [if_neg hr]
          by_cases hempty : x.reply.bytes.length = 0
          · -- nothing came: the loop is left with less than was asked for
            rw [if_pos hempty, wp_pure]
            refine ⟨x, hin', Or.inr (Or.inr ⟨rfl, ?_⟩)⟩
            show d.stored < xFileSize
            rw [hrec.stored, ← hrec.xCurByte]
            exact hlt
          · rw [if_neg hempty, wp_pure]
            have hframe := hwrote.frame
            have hflash : w₁.flash = w.flash := by rw [hsent]
            rw [hflash] at hframe
            have hnext := hrec.step hstatus hframe hsize hread
            have hcur := (hnext 0).xCurByte
            rw [received_concat, List.length_append, hrec.xCurByte] at hcur
            refine ⟨x, hin', Or.inr (Or.inl ⟨rfl, hrec.xCurByte ▸ hnext _, ?_, ?_⟩)⟩
            · exact Nat.lt_of_lt_of_eq (by omega) hcur.symm
            · exact lt_of_eq_of_lt hcur hsize
      · intro h w₂ hwrote
        exact ⟨[x], hin.wrote (hsent ▸ hwrote)⟩
  · intro h w₁ hstill
    exact ⟨[], by rw [List.append_nil]; exact hin.still hstill⟩

/-- **The loop**: the rounds of any number. -/
theorem downloadRounds_spec {pcPath : List Byte} {slot xFileSize : Nat} (hslot : SlotAt slot)
    (rounds : Nat) {d : Download e} {w₀ w : World} {xs : List Exchange}
    (hin : InSlot slot w₀ w xs) (h : d.xStatus = false ∨ Received slot d w xs) :
    wp (downloadRounds p e pcPath xFileSize slot rounds d)
      (fun d' w' => ∃ ys, InSlot slot w₀ w' ys ∧ Afterwards slot xFileSize d' w' ys)
      (fun _ w' => ∃ ys, InSlot slot w₀ w' ys) w := by
  induction rounds generalizing d w xs with
  | zero => exact (wp_pure d).mpr ⟨xs, hin, h.imp_right Or.inr⟩
  | succ rounds ih =>
    rw [downloadRounds]
    by_cases hloop : d.xStatus = true ∧ d.xCurByte < xFileSize
    · obtain ⟨hstatus, hlt⟩ := hloop
      have hrec : Received slot d w xs := h.resolve_left (by rw [hstatus]; decide)
      rw [if_pos ⟨hstatus, hlt⟩, wp_bind]
      refine wp_mono (downloadRound_spec hslot hin hrec hstatus hlt) ?_ ?_
      · rintro ⟨d', more⟩ w' ⟨x, hin', hround⟩
        dsimp only at hround ⊢
        cases more with
        | true =>
          rw [if_pos rfl]
          apply ih hin'
          rcases hround with hfail | ⟨-, hrec', -⟩ | ⟨hmore, -⟩
          · exact Or.inl hfail
          · exact Or.inr hrec'
          · cases hmore
        | false =>
          rw [if_neg Bool.false_ne_true, wp_pure]
          refine ⟨_, hin', ?_⟩
          rcases hround with hfail | ⟨hmore, -⟩ | ⟨-, hshort⟩
          · exact Or.inl hfail
          · cases hmore
          · exact Or.inr (Or.inl hshort)
      · rintro e w' ⟨ys, hin'⟩
        exact ⟨_, hin'⟩
    · rw [if_neg hloop, wp_pure]
      exact ⟨xs, hin, h.imp_right Or.inr⟩

theorem downloadRounds_stopped {pcPath : List Byte} {slot xFileSize : Nat} {d : Download e}
    (h : ¬ (d.xStatus = true ∧ d.xCurByte < xFileSize)) (rounds : Nat) :
    downloadRounds p e pcPath xFileSize slot rounds d = pure d := by
  cases rounds with
  | zero => rfl
  | succ rounds => rw [downloadRounds, if_neg h]

/-- More rounds than the bytes left to the size limit are never used. -/
theorem downloadRounds_more {pcPath : List Byte} {slot xFileSize : Nat} (hslot : SlotAt slot)
    {rounds : Nat} (more : Nat) {d : Download e} {w₀ w : World} {xs : List Exchange}
    (hin : InSlot slot w₀ w xs) (hrec : Received slot d w xs)
    (hrounds : aknanoMaxFirmwareSize - d.xCurByte < rounds) :
    downloadRounds p e pcPath xFileSize slot (rounds + more) d w
      = downloadRounds p e pcPath xFileSize slot rounds d w := by
  induction rounds generalizing d w xs with
  | zero => exact absurd hrounds (Nat.not_lt_zero _)
  | succ rounds ih =>
    by_cases hloop : d.xStatus = true ∧ d.xCurByte < xFileSize
    · rw [Nat.succ_add, downloadRounds, downloadRounds, if_pos hloop, if_pos hloop]
      refine bind_congr (wp_mono (downloadRound_spec hslot hin hrec hloop.1 hloop.2) ?_
        fun _ _ _ => trivial)
      rintro ⟨d', again⟩ w' ⟨x, hin', hround⟩
      dsimp only at hround ⊢
      cases again with
      | false => rfl
      | true =>
        rw [if_pos rfl, if_pos rfl]
        rcases hround with hfail | ⟨-, hrec', hlt, hmax⟩ | ⟨hmore, -⟩
        · have hstop : ¬ (d'.xStatus = true ∧ d'.xCurByte < xFileSize) := by simp [hfail]
          rw [downloadRounds_stopped hstop, downloadRounds_stopped hstop]
        -- the download has moved on by a byte at least
        · exact ih hin' hrec' (by omega)
        · cases hmore
    · rw [downloadRounds_stopped hloop, downloadRounds_stopped hloop]

/-- The bound on the rounds of `aknanoDownloadImage` is no restriction. -/
theorem downloadRounds_enough (pcPath : List Byte) (imagePosition : BitVec 8)
    (xFileSize more : Nat) (w : World) :
    downloadRounds p e pcPath xFileSize (aknanoGetTargetSlotAddress p imagePosition)
        (aknanoMaxFirmwareSize + 1 + more) (Download.start e) w
      = downloadRounds p e pcPath xFileSize (aknanoGetTargetSlotAddress p imagePosition)
        (aknanoMaxFirmwareSize + 1) (Download.start e) w :=
  downloadRounds_more (targetSlot_slotAt p imagePosition) more (InSlot.refl _ w)
    (Received.start _ w) (Nat.lt_succ_self _)

/-- **Contract of `aknano_download_image`.**  However it ends, the flash was
touched in the slot only; and a true result means that the slot holds exactly
what was received, and that it is what was asked for. -/
theorem downloadImage_spec {pcPath : List Byte} {imagePosition : BitVec 8}
    {selectedTarget : AknanoTarget} (w : World) :
    wp (aknanoDownloadImage p e pcPath imagePosition selectedTarget)
      (fun r w' => ∃ xs, InSlot (aknanoGetTargetSlotAddress p imagePosition) w w' xs ∧
        (r = true →
          (received xs).length = selectedTarget.expectedSize.toNat ∧
          e.sha256.digest (received xs) = selectedTarget.expectedHash ∧
          (∀ x ∈ xs, x.reply.httpCode = httpStatusCodePartialContent) ∧
          (∃ w₁, aknanoVerifyImage e selectedTarget.expectedSize.toNat w₁ = .ok true w') ∧
          NorFlash.read w'.flash.mem (aknanoGetTargetSlotAddress p imagePosition)
            selectedTarget.expectedSize.toNat = received xs))
      (fun _ w' => ∃ xs, InSlot (aknanoGetTargetSlotAddress p imagePosition) w w' xs) w := by
  have hslot := targetSlot_slotAt p imagePosition
  unfold aknanoDownloadImage
  generalize aknanoGetTargetSlotAddress p imagePosition = slot at hslot
  rw [wp_bind]
  refine wp_mono (downloadRounds_spec hslot _ (InSlot.refl slot w)
    (Or.inr (Received.start slot w))) ?_ fun _ _ hE => hE
  rintro d w₁ ⟨xs, hin, hafter⟩
  refine still_mtlsDisconnect.wp_bind (fun _ w₂ hstill => ?_) fun _ _ hstill =>
    ⟨xs, hin.still hstill⟩
  have hin₂ := hin.still hstill
  have hmem₂ : w₂.flash.mem = w₁.flash.mem := by rw [hstill]
  dsimp only
  by_cases hsize : d.stored ≠ selectedTarget.expectedSize.toNat
  · rw [if_pos hsize, if_neg Bool.false_ne_true, wp_pure]
    exact ⟨xs, hin₂, nofun⟩
  rw [if_neg hsize]
  by_cases hstatus : d.xStatus = true
  · rw [if_pos hstatus]
    have hstored : d.stored = selectedTarget.expectedSize.toNat := not_not.mp hsize
    by_cases hhash : selectedTarget.expectedHash ≠ e.sha256.finish d.sha256Context
    · rw [if_pos hhash, wp_pure]
      exact ⟨xs, hin₂, nofun⟩
    · rw [if_neg hhash]
      -- neither a failure nor a short download: the loop's knowledge is complete
      have hrec : Received slot d w₁ xs := by
        rcases hafter with hfail | hshort | hrec
        · rw [hfail] at hstatus; cases hstatus
        · omega
        · exact hrec
      have hlen : (received xs).length = selectedTarget.expectedSize.toNat :=
        hrec.stored.symm.trans hstored
      refine wp_mono (wp_and wp_self (still_verifyImage d.stored w₂)) ?_
        fun _ _ hE => ⟨xs, hin₂.still hE.2⟩
      rintro r w₃ ⟨hverify, hstill₃⟩
      refine ⟨xs, hin₂.still hstill₃, ?_⟩
      rintro rfl
      refine ⟨hlen, ?_, hrec.partialContent hstatus, ⟨w₂, hstored ▸ hverify⟩, ?_⟩
      · rw [not_not.mp hhash, hrec.hashed, e.sha256.finish_foldl]
        rfl
      · have hmem₃ : w₃.flash.mem = w₂.flash.mem := by rw [hstill₃]
        rw [hmem₃, hmem₂, ← hlen]
        exact hrec.inPlace
  · rw [if_neg hstatus, wp_pure]
    exact ⟨xs, hin₂, nofun⟩

theorem InSlot.quiet {slot : Nat} {w w' : World} {xs : List Exchange} (hslot : SlotAt slot)
    (h : InSlot slot w w' xs) : Quiet w w' := by
  refine ⟨h.boot, h.log, sameSector_of_sameOutside h.frame ?_⟩
  rcases hslot.clear with hbelow | habove
  · exact Or.inl (hbelow.trans (by decide))
  · exact Or.inr (le_trans (by decide) habove)

/-- A download concerns neither the bootloader nor the settings. -/
theorem quiet_downloadAndFlashImage (imagePosition : BitVec 8) (selectedTarget : AknanoTarget) :
    Keeps Quiet (aknanoDownloadAndFlashImage p e imagePosition selectedTarget) := by
  refine ((still_mtlsConnect _).mono fun _ _ => Still.quiet).bind fun connected => ?_
  split
  · intro w
    refine wp_mono (downloadImage_spec w) ?_ ?_
    · rintro r w' ⟨xs, hin, -⟩
      exact hin.quiet (targetSlot_slotAt p imagePosition)
    · rintro h w' ⟨xs, hin⟩
      exact hin.quiet (targetSlot_slotAt p imagePosition)
  · exact .pure Quiet.refl _

/-- A download sends nothing but its own requests. -/
theorem sends_downloadAndFlashImage {P : Exchange → Prop}
    (hP : ∀ pcPath xCurByte xNumReqBytes reply,
      P ⟨downloadRequest p pcPath xCurByte xNumReqBytes, reply⟩)
    (imagePosition : BitVec 8) (selectedTarget : AknanoTarget) :
    Keeps (Sends P) (aknanoDownloadAndFlashImage p e imagePosition selectedTarget) := by
  have hreceived : ∀ data offset dataLen partitionPhysAddr,
      Keeps (Sends P) (handleReceivedData e data offset dataLen partitionPhysAddr) := by
    intro data offset dataLen partitionPhysAddr
    unfold handleReceivedData
    split
    · exact .pure Sends.refl _
    · exact sends_onFlash _
  have hround : ∀ pcPath xFileSize dst (d : Download e),
      Keeps (Sends P) (downloadRound p e pcPath xFileSize dst d) := by
    intro pcPath xFileSize dst d
    unfold downloadRound
    refine (sends_mtlsSendHttpRequest (hP _ _ _)).bind fun reply => ?_
    split
    · exact .pure Sends.refl _
    · refine (hreceived _ _ _ _).bind fun ret => ?_
      split
      · exact .pure Sends.refl _
      · split
        · exact .pure Sends.refl _
        · exact .pure Sends.refl _
  have hrounds : ∀ pcPath xFileSize dst rounds (d : Download e),
      Keeps (Sends P) (downloadRounds p e pcPath xFileSize dst rounds d) := by
    intro pcPath xFileSize dst rounds
    induction rounds with
    | zero => exact fun d => .pure Sends.refl _
    | succ rounds ih =>
      intro d
      rw [downloadRounds]
      split
      · refine (hround _ _ _ d).bind fun r => ?_
        obtain ⟨d', more⟩ := r
        dsimp only
        split
        · exact ih d'
        · exact .pure Sends.refl _
      · exact .pure Sends.refl _
  have hverify : ∀ (xStatus : Bool) (d : Download e), Keeps (Sends P)
      (if xStatus then
        if selectedTarget.expectedHash ≠ e.sha256.finish d.sha256Context then pure false
        else aknanoVerifyImage e d.stored
      else pure false) := by
    intro xStatus d
    split
    · split
      · exact .pure Sends.refl _
      · exact (still_verifyImage _).mono fun _ _ h => h.sends
    · exact .pure Sends.refl _
  unfold aknanoDownloadAndFlashImage
  refine ((still_mtlsConnect _).mono fun _ _ h => h.sends).bind fun connected => ?_
  split
  · unfold aknanoDownloadImage
    exact (hrounds _ _ _ _ _).bind fun d =>
      (still_mtlsDisconnect.mono fun _ _ h => h.sends).bind fun _ => hverify _ d
  · exact .pure Sends.refl _

/-- **Download integrity.**  A true result means: what the server sent has the
size and the hash that were asked for, every reply carried code 206, the
bootloader accepted the image, and the slot holds what was sent. -/
theorem downloadImage_integrity {pcPath : List Byte} {imagePosition : BitVec 8}
    {selectedTarget : AknanoTarget} {w w' : World}
    (h : aknanoDownloadImage p e pcPath imagePosition selectedTarget w = .ok true w') :
    ∃ xs : List Exchange, w'.net = xs.reverse ++ w.net ∧
      (received xs).length = selectedTarget.expectedSize.toNat ∧
      e.sha256.digest (received xs) = selectedTarget.expectedHash ∧
      (∀ x ∈ xs, x.reply.httpCode = httpStatusCodePartialContent) ∧
      (∃ w₁, aknanoVerifyImage e selectedTarget.expectedSize.toNat w₁ = .ok true w') ∧
      NorFlash.read w'.flash.mem (aknanoGetTargetSlotAddress p imagePosition)
        selectedTarget.expectedSize.toNat = received xs := by
  obtain ⟨xs, hin, hall⟩ := (downloadImage_spec w).of_ok h
  exact ⟨xs, hin.net, hall rfl⟩

/-- Three bytes, fetched in one reply. -/
theorem downloadImage_integrity_abc :
    let e := { Env.sample with reply := fun _ _ => ⟨true, 206, some (ascii "abc"), by decide⟩ }
    ∃ w', aknanoDownloadImage .sample e (relativePath sha256Abc.bytes) 1 ⟨3, 7, sha256Abc⟩
        (.factory 5) = .ok true w' ∧
      NorFlash.read w'.flash.mem 0x200000 3 = ascii "abc" := by
  intro e
  obtain ⟨w', hrun⟩ : ∃ w', aknanoDownloadImage .sample e (relativePath sha256Abc.bytes) 1
      ⟨3, 7, sha256Abc⟩ (.factory 5) = .ok true w' :=
    ⟨_, eq_ok_of_returned (by decide)⟩
  obtain ⟨xs, -, -, hdigest, -, -, hread⟩ := downloadImage_integrity hrun
  have habc : received xs = ascii "abc" := by
    by_contra hne
    have hzero : e.sha256.digest (received xs) = .zero _ := if_neg hne
    rw [hzero] at hdigest
    exact absurd hdigest (by decide)
  exact ⟨w', hrun, by rw [← habc]; exact hread⟩

/-- **The download stays in the inactive slot.**  However it ends, the flash is
changed in the slot alone, and every address passed to the flash is the exact
sum of the slot's and of the bytes received before.  For positions 1 and 2 the
slot is the one that is not running. -/
theorem downloadImage_inSlot (pcPath : List Byte) (imagePosition : BitVec 8)
    (selectedTarget : AknanoTarget) (w : World) :
    (∃ xs, InSlot (aknanoGetTargetSlotAddress p imagePosition) w
      (final (aknanoDownloadImage p e pcPath imagePosition selectedTarget) w) xs) ∧
    (imagePosition = 1 → aknanoGetTargetSlotAddress p imagePosition = p.flashAreaImage2Offset ∧
      (p.flashAreaImage1Offset + aknanoMaxFirmwareSize ≤ p.flashAreaImage2Offset ∨
        p.flashAreaImage2Offset + aknanoMaxFirmwareSize ≤ p.flashAreaImage1Offset)) ∧
    (imagePosition = 2 → aknanoGetTargetSlotAddress p imagePosition = p.flashAreaImage1Offset ∧
      (p.flashAreaImage1Offset + aknanoMaxFirmwareSize ≤ p.flashAreaImage2Offset ∨
        p.flashAreaImage2Offset + aknanoMaxFirmwareSize ≤ p.flashAreaImage1Offset)) := by
  refine ⟨(wp_mono (downloadImage_spec w) ?_ fun _ _ h => h).final, ?_, ?_⟩
  · rintro r w' ⟨xs, hin, -⟩
    exact ⟨xs, hin⟩
  · rintro rfl
    exact ⟨rfl, p.apart⟩
  · rintro rfl
    exact ⟨rfl, p.apart⟩

end AktualizrNano
