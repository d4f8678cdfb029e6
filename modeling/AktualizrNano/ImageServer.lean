/-
AktualizrNano/ImageServer.lean

The download loop and the server it talks to.  The server decides how long
each reply is, and the next chunk goes to the slot's address plus all that was
received so far, while the flash writer needs a sector boundary.

`Handing` follows which replies are handed to the writer and at which address.
From it: the writer's precondition is met exactly as long as every reply that
is followed by another one fills whole sectors.  A server that answers each
range in full does that, and against such a server the download completes
(`downloadImage_conforming`).
-/
import AktualizrNano.FlashWriter
import AktualizrNano.ImageDownload

namespace AktualizrNano

open CLib NorFlash Outcome

variable {p : Platform} {e : Env}

/-! ### Which replies are handed on -/

/-- A reply that arrives behind `pre` is handed to the flash writer. -/
def HandedOn (pre : List Exchange) (x : Exchange) : Prop :=
  x.reply.passed = true ∧
    (received pre).length + x.reply.bytes.length < aknanoMaxFirmwareSize

/-- The exchanges `xs` have taken place, and the writes noted since are those
of the replies handed on, each at the slot's address plus the bytes received
before it. -/
structure Handing (slot : Nat) (w w' : World) (xs : List Exchange) : Prop where
  net : w'.net = xs.reverse ++ w.net
  writes : ∃ new, w'.flash.calls = new ++ w.flash.calls ∧ ∀ (offset : Int) dataLen,
    .write offset dataLen ∈ new ↔ ∃ pre x post, xs = pre ++ x :: post ∧ HandedOn pre x ∧
      offset = (slot + (received pre).length : Nat) ∧ dataLen = x.reply.bytes.length

theorem Handing.refl (slot : Nat) (w : World) : Handing slot w w [] :=
  ⟨rfl, [], rfl, by simp⟩

theorem Handing.still {slot : Nat} {w w' w'' : World} {xs : List Exchange}
    (h : Handing slot w w' xs) (h' : Still w' w'') : Handing slot w w'' xs := by
  rw [h']
  exact ⟨h.net, h.writes⟩

/-- Some element of a list and those in front of it, after one more. -/
theorem exists_split_concat {α : Type} {P : List α → α → Prop} {xs : List α} {x : α} :
    (∃ pre y post, xs ++ [x] = pre ++ y :: post ∧ P pre y) ↔
      (∃ pre y post, xs = pre ++ y :: post ∧ P pre y) ∨ P xs x := by
  constructor
  · rintro ⟨pre, y, post, heq, hP⟩
    by_contra hnone
    push Not at hnone
    exact forall_split_concat (P := fun pre y => ¬ P pre y) hnone.1 hnone.2 pre y post heq hP
  · rintro (⟨pre, y, post, rfl, hP⟩ | hP)
    · exact ⟨pre, y, post ++ [x], by simp, hP⟩
    · exact ⟨xs, x, [], rfl, hP⟩

/-- A reply that was not handed on. -/
theorem Handing.exchange {slot : Nat} {w w' : World} {xs : List Exchange} {x : Exchange}
    (h : Handing slot w w' xs) (hnot : ¬ HandedOn xs x) (t : Nat) :
    Handing slot w { w' with tick := t, net := x :: w'.net } (xs ++ [x]) := by
  obtain ⟨new, hnew, hwrites⟩ := h.writes
  refine ⟨by simp [h.net], new, hnew, fun offset dataLen => ?_⟩
  rw [hwrites, exists_split_concat]
  simp [hnot]

/-- A reply that was: `f` is the flash after the write. -/
theorem Handing.wrote {slot : Nat} {w w' : World} {xs : List Exchange} {x : Exchange} {f : Flash}
    {new' : List FlashCall} (h : Handing slot w w' xs) (hon : HandedOn xs x)
    (hcalls : f.calls = new' ++ w'.flash.calls)
    (hnew' : ∀ (offset : Int) dataLen, .write offset dataLen ∈ new' ↔
      offset = (slot + (received xs).length : Nat) ∧ dataLen = x.reply.bytes.length) (t : Nat) :
    Handing slot w { w' with tick := t, net := x :: w'.net, flash := f } (xs ++ [x]) := by
  obtain ⟨new, hnew, hwrites⟩ := h.writes
  refine ⟨by simp [h.net], new' ++ new, by simp [hcalls, hnew], fun offset dataLen => ?_⟩
  rw [List.mem_append, hwrites, hnew', exists_split_concat]
  simp only [hon, true_and]
  exact or_comm

/-! ### The loop -/

/-- Every reply so far was handed on. -/
def AllHanded (xs : List Exchange) : Prop := ∀ pre x post, xs = pre ++ x :: post → HandedOn pre x

/-- Every reply but perhaps the last one was handed on. -/
def EarlierHanded (xs : List Exchange) : Prop :=
  ∀ pre x y post, xs = pre ++ x :: y :: post → HandedOn pre x

theorem AllHanded.earlier {xs : List Exchange} (h : AllHanded xs) : EarlierHanded xs :=
  fun pre x y post heq => h pre x (y :: post) heq

theorem AllHanded.earlier_concat {xs : List Exchange} (h : AllHanded xs) (x : Exchange) :
    EarlierHanded (xs ++ [x]) := by
  intro pre y z post heq
  obtain ⟨post', b, hpost⟩ := (List.eq_nil_or_concat (z :: post)).resolve_left (by simp)
  rw [hpost, List.concat_eq_append, ← List.cons_append, ← List.append_assoc] at heq
  exact h pre y post' (List.append_inj' heq rfl).1

/-- **One round**, as the writer sees it.  A reply that is not handed on ends
the loop. -/
theorem downloadRound_handing {pcPath : List Byte} {slot xFileSize : Nat} (hslot : SlotAt slot)
    {d : Download e} {w₀ w : World} {xs : List Exchange} (hin : Handing slot w₀ w xs)
    (hall : AllHanded xs) (hcur : d.xCurByte = (received xs).length)
    (hle : (received xs).length ≤ aknanoMaxFirmwareSize) :
    wp (downloadRound p e pcPath xFileSize slot d)
      (fun r w' => ∃ x, Handing slot w₀ w' (xs ++ [x]) ∧
        (r.2 = true → r.1.xStatus = true → HandedOn xs x ∧
          r.1.xCurByte = (received (xs ++ [x])).length))
      (fun _ w' => ∃ ys, Handing slot w₀ w' ys ∧ EarlierHanded ys) w := by
  rw [downloadRound, wp_bind]
  refine wp_mono (mtlsSendHttpRequest_spec w) ?_ ?_
  · intro reply w₁ hsent
    replace hsent := hsent (Or.inr rfl)
    generalize hx : (⟨_, reply⟩ : Exchange) = x at hsent
    obtain rfl : x.reply = reply := by rw [← hx]
    by_cases hpassed : ¬ x.reply.passed
    · rw [if_pos hpassed, wp_pure]
      exact ⟨x, hsent ▸ hin.exchange (fun h => hpassed h.1) _, by rintro - ⟨⟩⟩
    · rw [if_neg hpassed, wp_bind]
      dsimp only
      rw [hcur, handleReceivedData_eq hslot hle x.reply.bytes_length]
      by_cases hn : (received xs).length + x.reply.bytes.length < aknanoMaxFirmwareSize
      · have hon : HandedOn xs x := ⟨not_not.mp hpassed, hn⟩
        have hwrote : ∀ f : Flash, (∃ new, f.calls = new ++ w₁.flash.calls ∧
            ∀ (offset : Int) dataLen, .write offset dataLen ∈ new ↔
              offset = (slot + (received xs).length : Nat) ∧ dataLen = x.reply.bytes.length) →
            Handing slot w₀ { w₁ with flash := f } (xs ++ [x]) := by
          rintro f ⟨new, hcalls, hnew⟩
          have hflash : w₁.flash = w.flash := by rw [hsent]
          rw [hflash] at hcalls
          rw [hsent]
          exact hin.wrote hon hcalls hnew _
        rw [if_pos hn, onFlash, wp_zoom]
        refine wp_mono (writeDataToFlash_noted _ x.reply.bytes w₁.flash) ?_ ?_
        · intro r f hnoted
          split
          · rw [wp_pure]
            exact ⟨x, hwrote f hnoted, by rintro ⟨⟩⟩
          · split
            · rw [wp_pure]
              exact ⟨x, hwrote f hnoted, by rintro ⟨⟩⟩
            · rw [wp_pure]
              refine ⟨x, hwrote f hnoted, fun _ _ => ⟨hon, ?_⟩⟩
              have hmax : aknanoMaxFirmwareSize = 1048576 := rfl
              rw [received_concat, List.length_append]
              show uint32 ((received xs).length + x.reply.bytes.length) = _
              rw [uint32_eq (by omega) (by omega)]
              omega
        · intro h f hnoted
          exact ⟨_, hwrote f hnoted, hall.earlier_concat x⟩
      · rw [if_neg hn, wp_pure, if_pos (by decide), wp_pure]
        exact ⟨x, hsent ▸ hin.exchange (fun h => hn h.2) _, by rintro ⟨⟩⟩
  · intro h w₁ hstill
    exact ⟨xs, hin.still hstill, hall.earlier⟩

/-- **The loop**, as the writer sees it. -/
theorem downloadRounds_handing {pcPath : List Byte} {slot xFileSize : Nat} (hslot : SlotAt slot)
    (rounds : Nat) {d : Download e} {w₀ w : World} {xs : List Exchange}
    (hin : Handing slot w₀ w xs) (hall : AllHanded xs) (hcur : d.xCurByte = (received xs).length)
    (hle : (received xs).length ≤ aknanoMaxFirmwareSize) :
    wp (downloadRounds p e pcPath xFileSize slot rounds d)
      (fun _ w' => ∃ ys, Handing slot w₀ w' ys ∧ EarlierHanded ys)
      (fun _ w' => ∃ ys, Handing slot w₀ w' ys ∧ EarlierHanded ys) w := by
  induction rounds generalizing d w xs with
  | zero => exact (wp_pure d).mpr ⟨xs, hin, hall.earlier⟩
  | succ rounds ih =>
    rw [downloadRounds]
    by_cases hloop : d.xStatus = true ∧ d.xCurByte < xFileSize
    · rw [if_pos hloop, wp_bind]
      refine wp_mono (downloadRound_handing hslot hin hall hcur hle) ?_ fun _ _ h => h
      rintro ⟨d', more⟩ w' ⟨x, hin', hround⟩
      dsimp only at hround ⊢
      cases more with
      | true =>
        rw [if_pos rfl]
        cases hstatus : d'.xStatus with
        | true =>
          obtain ⟨hon, hcur'⟩ := hround rfl hstatus
          apply ih hin' (forall_split_concat hall hon) hcur'
          rw [received_concat, List.length_append]
          exact hon.2.le
        | false =>
          have hstop : ¬ (d'.xStatus = true ∧ d'.xCurByte < xFileSize) := by simp [hstatus]
          rw [downloadRounds_stopped hstop, wp_pure]
          exact ⟨_, hin', hall.earlier_concat x⟩
      | false =>
        rw [if_neg Bool.false_ne_true, wp_pure]
        exact ⟨_, hin', hall.earlier_concat x⟩
    · rw [if_neg hloop, wp_pure]
      exact ⟨xs, hin, hall.earlier⟩

theorem downloadImage_handing (pcPath : List Byte) (imagePosition : BitVec 8)
    (selectedTarget : AknanoTarget) (w : World) :
    ∃ xs, Handing (aknanoGetTargetSlotAddress p imagePosition) w
      (final (aknanoDownloadImage p e pcPath imagePosition selectedTarget) w) xs ∧
      EarlierHanded xs := by
  have hslot := targetSlot_slotAt p imagePosition
  unfold aknanoDownloadImage
  generalize aknanoGetTargetSlotAddress p imagePosition = slot at hslot
  refine wp.final (P := fun w' => ∃ xs, Handing slot w w' xs ∧ EarlierHanded xs) ?_
  have hnone : AllHanded [] := fun pre x post h => by simp at h
  rw [wp_bind]
  refine wp_mono (downloadRounds_handing hslot _ (Handing.refl slot w) hnone rfl
    (Nat.zero_le _)) ?_ fun _ _ h => h
  rintro d w₁ ⟨xs, hin, hearlier⟩
  have hstill : ∀ {w'}, Still w₁ w' → ∃ xs, Handing slot w w' xs ∧ EarlierHanded xs :=
    fun h => ⟨xs, hin.still h, hearlier⟩
  refine still_mtlsDisconnect.wp_bind (fun _ w₂ h₂ => ?_) fun _ _ h₂ => hstill h₂
  dsimp only
  generalize (if d.stored ≠ selectedTarget.expectedSize.toNat then false else d.xStatus) = xStatus
  split
  · split
    · rw [wp_pure]
      exact hstill h₂
    · exact wp_mono (still_verifyImage d.stored w₂) (fun _ _ h₃ => hstill (Trans.trans h₂ h₃))
        fun _ _ h₃ => hstill (Trans.trans h₂ h₃)
  · rw [wp_pure]
    exact hstill h₂

/-! ### The writer's precondition -/

/-- All that came before a reply that was handed on fills whole sectors, if
each reply followed by one that is handed on does. -/
theorem received_dvd {xs : List Exchange} (hearlier : EarlierHanded xs)
    (hfull : ∀ pre x y post, xs = pre ++ x :: y :: post → HandedOn (pre ++ [x]) y →
      mflashSectorSize ∣ x.reply.bytes.length) (pre : List Exchange) {x : Exchange}
    {post : List Exchange} (heq : xs = pre ++ x :: post) (hon : HandedOn pre x) :
    mflashSectorSize ∣ (received pre).length := by
  induction pre using List.reverseRecOn generalizing x post with
  | nil => exact Nat.dvd_zero _
  | append_singleton pre y ih =>
    have heq' : xs = pre ++ y :: x :: post := by simpa using heq
    rw [received_concat, List.length_append]
    exact Nat.dvd_add (ih heq' (hearlier pre y x post heq')) (hfull pre y x post heq' hon)

/-- **The writer's precondition, and when the downloader meets it.**  However
a download ends: every address it has handed to the writer is a multiple of
the sector size if and only if every reply that was followed by one handed on
carried a multiple of the sector size. -/
theorem downloadImage_aligned_iff (pcPath : List Byte) (imagePosition : BitVec 8)
    (selectedTarget : AknanoTarget) (w : World) :
    ∃ xs new, (final (aknanoDownloadImage p e pcPath imagePosition selectedTarget) w).net
        = xs.reverse ++ w.net ∧
      (final (aknanoDownloadImage p e pcPath imagePosition selectedTarget) w).flash.calls
        = new ++ w.flash.calls ∧
      ((∀ (offset : Int) dataLen, .write offset dataLen ∈ new → (mflashSectorSize : Int) ∣ offset) ↔
        ∀ pre x y post, xs = pre ++ x :: y :: post → HandedOn (pre ++ [x]) y →
          mflashSectorSize ∣ x.reply.bytes.length) := by
  obtain ⟨xs, hin, hearlier⟩ := downloadImage_handing (p := p) (e := e) pcPath imagePosition
    selectedTarget w
  have hslot := (targetSlot_slotAt p imagePosition).aligned
  obtain ⟨new, hnew, hwrites⟩ := hin.writes
  refine ⟨xs, new, hin.net, hnew, fun haligned => ?_, fun hfull => ?_⟩
  · -- both ends of the reply are addresses that were handed on
    intro pre x y post heq hon
    have hstart := haligned _ _ ((hwrites _ _).mpr
      ⟨pre, x, y :: post, heq, hearlier pre x y post heq, rfl, rfl⟩)
    have hend := haligned _ _ ((hwrites _ _).mpr
      ⟨pre ++ [x], y, post, by simpa using heq, hon, rfl, rfl⟩)
    rw [Int.natCast_dvd_natCast] at hstart hend
    rw [received_concat, List.length_append, ← Nat.add_assoc] at hend
    exact (Nat.dvd_add_right hstart).mp hend
  · intro offset dataLen hwrite
    obtain ⟨pre, x, post, heq, hon, rfl, -⟩ := (hwrites offset dataLen).mp hwrite
    rw [Int.natCast_dvd_natCast]
    exact Nat.dvd_add hslot (received_dvd hearlier hfull pre heq hon)

/-- A server that sends the six bytes of an image three at a time: the second
chunk goes to an address inside a sector, and the driver refuses to erase
there. -/
theorem downloadImage_misaligned :
    let e := { Env.sample with reply := fun _ _ => ⟨true, 206, some (ascii "abc"), by decide⟩ }
    let w := final (aknanoDownloadImage .sample e (relativePath sha256Abc.bytes) 1
      ⟨6, 7, sha256Abc⟩) (.factory 5)
    w.net.reverse.map (fun x => (x.request.rangeStart, x.request.rangeEnd, x.reply.bytes))
        = [(0, 16383, ascii "abc"), (3, 5, ascii "abc")] ∧
      .write (0x200000 + 3) 3 ∈ w.flash.calls ∧ ¬ (mflashSectorSize : Int) ∣ 0x200000 + 3 := by
  decide +kernel

/-! ### A server that answers in full -/

/-- The server has this image: every range that fits a reply is answered with
code 206 and the bytes of the range, up to the end of the image. -/
def Serves (p : Platform) (e : Env) (pcPath image : List Byte) : Prop :=
  ∀ t (r : Request), r.hostname = aknanoDownloadEndpoint p → r.path = pcPath →
    r.rangeStart ≤ r.rangeEnd → r.rangeStart < image.length →
    r.rangeEnd < r.rangeStart + aknanoImageDownloadRequestLength →
    (e.reply t r).passed = true ∧ (e.reply t r).httpCode = httpStatusCodePartialContent ∧
      (e.reply t r).bytes = (image.take (r.rangeEnd + 1)).drop r.rangeStart

/-- Power is never lost and the flash works. -/
structure Env.Works (e : Env) : Prop where
  power : ∀ t, e.cut t = false
  flash : e.faults.Reliable

/-- The piece of the image that the `i`-th request is for. -/
def piece (image : List Byte) (i : Nat) : List Byte :=
  (image.drop (aknanoImageDownloadRequestLength * i)).take aknanoImageDownloadRequestLength

/-- The exchanges are those for the first pieces, in their order. -/
def Pieces (image : List Byte) (xs : List Exchange) : Prop :=
  ∀ i x, xs[i]? = some x →
    x.request.rangeStart = aknanoImageDownloadRequestLength * i ∧ x.reply.bytes = piece image i

theorem Pieces.concat {image : List Byte} {xs : List Exchange} {x : Exchange}
    (h : Pieces image xs)
    (hstart : x.request.rangeStart = aknanoImageDownloadRequestLength * xs.length)
    (hbytes : x.reply.bytes = piece image xs.length) : Pieces image (xs ++ [x]) := by
  intro i y hy
  rcases lt_trichotomy i xs.length with hi | rfl | hi
  · rw [List.getElem?_append_left hi] at hy
    exact h i y hy
  · rw [List.getElem?_concat_length] at hy
    cases hy
    exact ⟨hstart, hbytes⟩
  · rw [List.getElem?_eq_none (by simp; omega)] at hy
    cases hy

/-- A chunk at a sector boundary is accepted by a flash that works. -/
theorem handleReceivedData_works (hworks : e.Works) {slot k : Nat} (hslot : SlotAt slot)
    (hk : mflashSectorSize ∣ k) {data : List Byte} (hn : k + data.length < aknanoMaxFirmwareSize)
    (hdata : data.length ≤ aknanoImageDownloadBufferLength) (w : World) :
    wp (handleReceivedData e data (int32 k) (int32 data.length) (int32 slot))
      (fun r w' => r = 0 ∧ w'.net = w.net) (fun _ _ => False) w := by
  rw [handleReceivedData_eq hslot (by omega) hdata, if_pos hn, onFlash, wp_zoom]
  refine wp_mono (writeDataToFlash_spec (slot_write_fits hslot hn) w.flash) ?_ ?_
  · rintro r f ⟨-, -, -, -, hok⟩
    exact ⟨hok hworks.flash (Nat.dvd_add hslot.aligned hk), rfl⟩
  · rintro h f ⟨-, -, hfail⟩
    exact hfail hworks.flash

/-- Where the loop is after some requests, all of them answered in full. -/
structure Fetching (image : List Byte) (slot : Nat) (d : Download e) (w₀ w : World)
    (xs : List Exchange) : Prop where
  inSlot : InSlot slot w₀ w xs
  received : Received slot d w xs
  xStatus : d.xStatus = true
  pieces : Pieces image xs
  front : AktualizrNano.received xs
    = image.take (aknanoImageDownloadRequestLength * xs.length)
  /-- the last request was needed -/
  needed : xs = [] ∨ aknanoImageDownloadRequestLength * (xs.length - 1) < image.length
  /-- either a whole request is left, or exactly what is left is asked for next -/
  xNumReqBytes : d.xNumReqBytes = aknanoImageDownloadRequestLength ∨
    d.xCurByte + d.xNumReqBytes = image.length ∧
      d.xNumReqBytes ≤ aknanoImageDownloadRequestLength

theorem Fetching.start (image : List Byte) (slot : Nat) (w : World) :
    Fetching image slot (Download.start e) w w [] :=
  ⟨.refl slot w, .start slot w, rfl, fun i x h => by simp at h, by simp, Or.inl rfl, Or.inl rfl⟩

theorem Fetching.xCurByte {image : List Byte} {slot : Nat} {d : Download e} {w₀ w : World}
    {xs : List Exchange} (h : Fetching image slot d w₀ w xs) :
    d.xCurByte = min (aknanoImageDownloadRequestLength * xs.length) image.length := by
  rw [h.received.xCurByte, h.front, List.length_take]

/-- The reply to the next request. -/
theorem Fetching.reply {pcPath image : List Byte} (hserves : Serves p e pcPath image) {slot : Nat}
    {d : Download e} {w₀ w : World} {xs : List Exchange} (h : Fetching image slot d w₀ w xs)
    (hmax : image.length < aknanoMaxFirmwareSize) (hlt : d.xCurByte < image.length) (t : Nat) :
    let reply := e.reply t (downloadRequest p pcPath d.xCurByte d.xNumReqBytes)
    reply.passed = true ∧ reply.httpCode = httpStatusCodePartialContent ∧
      reply.bytes = piece image xs.length := by
  have hlen : aknanoImageDownloadRequestLength = 16384 := rfl
  have hmax' : aknanoMaxFirmwareSize = 1048576 := rfl
  have hcur := h.xCurByte
  have hask := h.xNumReqBytes
  have hend : (downloadRequest p pcPath d.xCurByte d.xNumReqBytes).rangeEnd
      = d.xCurByte + d.xNumReqBytes - 1 := by
    show uint32 _ = _
    rw [uint32_eq (by omega) (by omega)]
    omega
  have hstart : (downloadRequest p pcPath d.xCurByte d.xNumReqBytes).rangeStart = d.xCurByte := rfl
  obtain ⟨hpassed, hcode, hbytes⟩ := hserves t
    (downloadRequest p pcPath d.xCurByte d.xNumReqBytes) rfl rfl (by omega) hlt (by omega)
  refine ⟨hpassed, hcode, ?_⟩
  have hbehind : d.xCurByte + d.xNumReqBytes - 1 + 1 = d.xCurByte + d.xNumReqBytes := by omega
  rw [hbytes, hend, hstart, hbehind, List.drop_take, Nat.add_sub_cancel_left, piece,
    ← show d.xCurByte = aknanoImageDownloadRequestLength * xs.length by omega]
  -- asking for what is left or for more is the same
  rcases hask with hask | ⟨hask, hle⟩
  · rw [hask]
  · rw [List.take_of_length_le (by rw [List.length_drop]; omega),
      List.take_of_length_le (by rw [List.length_drop]; omega)]

/-- What a round that works does to the variables of the loop. -/
theorem Fetching.round {pcPath image : List Byte} (hserves : Serves p e pcPath image)
    (hworks : e.Works) {slot : Nat} (hslot : SlotAt slot) {d : Download e} {w₀ w : World}
    {xs : List Exchange} (h : Fetching image slot d w₀ w xs)
    (hmax : image.length < aknanoMaxFirmwareSize) (hlt : d.xCurByte < image.length) :
    wp (downloadRound p e pcPath image.length slot d)
      (fun r w' => r.2 = true ∧ r.1.xStatus = true ∧
        r.1.xNumReqBytes = min (uint32 (image.length - r.1.xCurByte)) d.xNumReqBytes ∧
        ∃ reply, w'.net = ⟨downloadRequest p pcPath d.xCurByte d.xNumReqBytes, reply⟩ :: w.net ∧
          reply.bytes = piece image xs.length)
      (fun _ _ => False) w := by
  have hlen : aknanoImageDownloadRequestLength = 16384 := rfl
  have hcur := h.xCurByte
  have hstart : d.xCurByte = aknanoImageDownloadRequestLength * xs.length := by omega
  have hreply := h.reply hserves hmax hlt
  rw [downloadRound, wp_bind]
  refine wp_mono (mtlsSendHttpRequest_ascii rfl) ?_ ?_
  · rintro reply w₁ ⟨hreply₁, hsent⟩
    obtain ⟨hpassed, hcode, hbytes⟩ := hreply w.tick
    rw [← hreply₁] at hpassed hcode hbytes
    have hpiece : reply.bytes.length
        = min aknanoImageDownloadRequestLength (image.length - d.xCurByte) := by
      rw [hbytes, piece, List.length_take, List.length_drop, ← hstart]
    have hnonempty : ¬ reply.bytes.length = 0 := by omega
    have haligned : mflashSectorSize ∣ d.xCurByte := by
      rw [hstart]
      exact Nat.dvd_trans (by decide) (Nat.dvd_mul_right ..)
    rw [if_neg (not_not_intro hpassed), wp_bind]
    refine wp_mono (handleReceivedData_works hworks hslot haligned (by omega)
      reply.bytes_length w₁) ?_ fun _ _ h => h
    rintro r w₂ ⟨rfl, hnet⟩
    rw [if_neg (by decide), if_neg hnonempty, wp_pure]
    refine ⟨rfl, decide_eq_true hcode, ?_, reply, by rw [hnet, hsent], hbytes⟩
    dsimp only
    split <;> omega
  · rintro h w₁ ⟨hcut, -⟩
    rw [hworks.power] at hcut
    cases hcut

/-- **One round** against a server that answers in full. -/
theorem Fetching.step {pcPath image : List Byte} (hserves : Serves p e pcPath image)
    (hworks : e.Works) {slot : Nat} (hslot : SlotAt slot) {d : Download e} {w₀ w : World}
    {xs : List Exchange} (h : Fetching image slot d w₀ w xs)
    (hmax : image.length < aknanoMaxFirmwareSize) (hlt : d.xCurByte < image.length) :
    wp (downloadRound p e pcPath image.length slot d)
      (fun r w' => r.2 = true ∧ d.xCurByte < r.1.xCurByte ∧
        ∃ x, Fetching image slot r.1 w₀ w' (xs ++ [x]))
      (fun _ _ => False) w := by
  have hlen : aknanoImageDownloadRequestLength = 16384 := rfl
  have hmax' : aknanoMaxFirmwareSize = 1048576 := rfl
  have hcur := h.xCurByte
  have hstart : d.xCurByte = aknanoImageDownloadRequestLength * xs.length := by omega
  refine wp_mono (wp_and (h.round hserves hworks hslot hmax hlt)
    (downloadRound_spec hslot h.inSlot h.received h.xStatus hlt)) ?_ fun _ _ hE => hE.1
  rintro ⟨d', more⟩ w' ⟨⟨hmore, hstatus, hask, reply, hnet, hbytes⟩, x, hin, hround⟩
  dsimp only at hmore hstatus hask hround ⊢
  obtain ⟨-, hreceived, hprogress, -⟩ : more = true ∧ Received slot d' w' (xs ++ [x]) ∧
      d.xCurByte < d'.xCurByte ∧ d'.xCurByte < aknanoMaxFirmwareSize := by
    rcases hround with hfail | hgood | ⟨hstop, -⟩
    · rw [hstatus] at hfail; cases hfail
    · exact hgood
    · rw [hmore] at hstop; cases hstop
  -- the exchange on record is the request that was sent and its reply
  have hx : x = ⟨downloadRequest p pcPath d.xCurByte d.xNumReqBytes, reply⟩ := by
    have hnet' := hin.net
    rw [hnet, h.inSlot.net, List.reverse_append, List.reverse_singleton, List.singleton_append,
      List.cons_append] at hnet'
    exact (List.cons.inj hnet').1.symm
  subst hx
  have hfront : AktualizrNano.received (xs ++ [⟨downloadRequest p pcPath d.xCurByte d.xNumReqBytes,
      reply⟩]) = image.take (aknanoImageDownloadRequestLength * (xs.length + 1)) := by
    rw [received_concat, h.front, hbytes, Nat.mul_succ, List.take_add, piece]
  have hcur' : d'.xCurByte
      = min (aknanoImageDownloadRequestLength * (xs.length + 1)) image.length := by
    rw [hreceived.xCurByte, hfront, List.length_take]
  refine ⟨hmore, hprogress, _, hin, hreceived, hstatus, h.pieces.concat hstart hbytes, ?_,
    Or.inr ?_, ?_⟩
  · rw [List.length_append]
    exact hfront
  · rw [List.length_append, List.length_singleton, Nat.add_sub_cancel, ← hstart]
    exact hlt
  · rw [uint32_eq (by omega) (by omega)] at hask
    have := h.xNumReqBytes
    omega

/-- **The loop** against a server that answers in full: it ends when the image
is complete. -/
theorem Fetching.rounds {pcPath image : List Byte} (hserves : Serves p e pcPath image)
    (hworks : e.Works) {slot : Nat} (hslot : SlotAt slot)
    (hmax : image.length < aknanoMaxFirmwareSize) (rounds : Nat) {d : Download e} {w₀ w : World}
    {xs : List Exchange} (h : Fetching image slot d w₀ w xs)
    (hrounds : image.length < d.xCurByte + rounds) :
    wp (downloadRounds p e pcPath image.length slot rounds d)
      (fun d' w' => image.length ≤ d'.xCurByte ∧ ∃ ys, Fetching image slot d' w₀ w' ys)
      (fun _ _ => False) w := by
  induction rounds generalizing d w xs with
  | zero => exact (wp_pure d).mpr ⟨by omega, xs, h⟩
  | succ rounds ih =>
    rw [downloadRounds]
    by_cases hlt : d.xCurByte < image.length
    · rw [if_pos ⟨h.xStatus, hlt⟩, wp_bind]
      refine wp_mono (h.step hserves hworks hslot hmax hlt) ?_ fun _ _ hE => hE
      rintro ⟨d', more⟩ w' ⟨rfl, hprogress, x, h'⟩
      dsimp only at hprogress ⊢
      rw [if_pos rfl]
      exact ih h' (by omega)
    · rw [if_neg fun hloop => hlt hloop.2, wp_pure]
      exact ⟨by omega, xs, h⟩

/-- With power, a call that leaves the agent returns. -/
theorem Env.Works.tick (hworks : e.Works) (w : World) :
    wp (AktualizrNano.tick e) (fun _ w' => Still w w') (fun _ _ => False) w := by
  unfold wp AktualizrNano.tick
  rw [hworks.power]
  exact Still.refl _

theorem Env.Works.verifyImage (hworks : e.Works) (imageSize : Nat) (w : World) :
    wp (aknanoVerifyImage e imageSize) (fun _ w' => Still w w') (fun _ _ => False) w := by
  unfold aknanoVerifyImage
  rw [wp_bind]
  refine wp_mono (hworks.tick w) (fun t w₁ h₁ => ?_) fun _ _ h => h
  split
  · rw [wp_pure]
    exact h₁
  · rw [wp_bind]
    refine wp_mono (hworks.tick w₁) (fun t w₂ h₂ => ?_) fun _ _ h => h
    rw [wp_bind, wp_get, wp_pure]
    exact Trans.trans h₁ h₂

/-- **The download completes.**  With a server that has the image, with power
and with a flash that works, `aknano_download_image` sends one request for
each piece of 16384 bytes, in order, gets exactly the image and leaves it in
the slot; its result is that of `aknano_verify_image`. -/
theorem downloadImage_conforming {pcPath image : List Byte} (hserves : Serves p e pcPath image)
    (hworks : e.Works) (hmax : image.length < aknanoMaxFirmwareSize) (imagePosition : BitVec 8)
    {selectedTarget : AknanoTarget} (hsize : selectedTarget.expectedSize.toNat = image.length)
    (hhash : selectedTarget.expectedHash = e.sha256.digest image) (w : World) :
    ∃ r w' xs, aknanoDownloadImage p e pcPath imagePosition selectedTarget w = .ok r w' ∧
      w'.net = xs.reverse ++ w.net ∧
      xs.length = (image.length + (aknanoImageDownloadRequestLength - 1))
        / aknanoImageDownloadRequestLength ∧
      Pieces image xs ∧ received xs = image ∧
      NorFlash.read w'.flash.mem (aknanoGetTargetSlotAddress p imagePosition) image.length
        = image ∧
      ∃ w₁, aknanoVerifyImage e image.length w₁ = .ok r w' := by
  have hlen : aknanoImageDownloadRequestLength = 16384 := rfl
  have hslot := targetSlot_slotAt p imagePosition
  have hdone : wp (aknanoDownloadImage p e pcPath imagePosition selectedTarget)
      (fun r w' => ∃ xs, w'.net = xs.reverse ++ w.net ∧
        xs.length = (image.length + (aknanoImageDownloadRequestLength - 1))
          / aknanoImageDownloadRequestLength ∧
        Pieces image xs ∧ received xs = image ∧
        NorFlash.read w'.flash.mem (aknanoGetTargetSlotAddress p imagePosition) image.length
          = image ∧ ∃ w₁, aknanoVerifyImage e image.length w₁ = .ok r w')
      (fun _ _ => False) w := by
    unfold aknanoDownloadImage
    generalize aknanoGetTargetSlotAddress p imagePosition = slot at hslot
    rw [wp_bind, hsize]
    refine wp_mono (Fetching.rounds hserves hworks hslot hmax _ (.start image slot w)
      (by omega)) ?_ fun _ _ hE => hE
    rintro d w₁ ⟨hcomplete, xs, h⟩
    have hcur := h.xCurByte
    have hneeded := h.needed
    have hfront : received xs = image := by
      rw [h.front, List.take_of_length_le (by omega)]
    have hcount : xs.length = (image.length + (aknanoImageDownloadRequestLength - 1))
        / aknanoImageDownloadRequestLength := by
      show xs.length = (image.length + 16383) / 16384
      replace hcur : d.xCurByte = min (16384 * xs.length) image.length := hcur
      rcases hneeded with rfl | (hneeded : 16384 * (xs.length - 1) < image.length)
      · rw [List.length_nil] at hcur ⊢
        omega
      · omega
    have hstored : d.stored = image.length := by rw [h.received.stored, hfront]
    have hplace := h.received.inPlace
    rw [hfront] at hplace
    have hhashed : selectedTarget.expectedHash = e.sha256.finish d.sha256Context := by
      rw [hhash, h.received.hashed, e.sha256.finish_foldl, ← hfront]
      rfl
    rw [wp_bind, aknanoMtlsDisconnect, wp_bind]
    refine wp_mono (hworks.tick w₁) (fun _ w₂ h₂ => ?_) fun _ _ hE => hE
    rw [wp_pure, hstored, if_neg (not_not_intro rfl), if_pos h.xStatus,
      if_neg (not_not_intro hhashed)]
    refine wp_mono (wp_and wp_self (hworks.verifyImage image.length w₂)) ?_ fun _ _ hE => hE.2
    rintro r w₃ ⟨hverify, h₃⟩
    have hstill : Still w₁ w₃ := Trans.trans h₂ h₃
    refine ⟨xs, ?_, hcount, h.pieces, hfront, ?_, w₂, hverify⟩
    · rw [hstill]
      exact h.inSlot.net
    · rw [hstill]
      exact hplace
  obtain ⟨r, w', hrun⟩ := hdone.returns
  obtain ⟨xs, hall⟩ := hdone.of_ok hrun
  exact ⟨r, w', xs, hrun, hall⟩

/-- A server that has this image. -/
def Env.serving (image : List Byte) (h : image.length ≤ aknanoImageDownloadBufferLength) : Env :=
  { Env.sample with
    reply := fun _ r =>
      { passed := true
        httpCode := httpStatusCodePartialContent
        body := some ((image.take (r.rangeEnd + 1)).drop r.rangeStart)
        fits := by
          rintro _ ⟨⟩
          rw [List.length_drop, List.length_take]
          omega } }

theorem Env.serves_serving {image : List Byte}
    (h : image.length ≤ aknanoImageDownloadBufferLength) (p : Platform) (pcPath : List Byte) :
    Serves p (Env.serving image h) pcPath image :=
  fun _ _ _ _ _ _ _ => ⟨rfl, rfl, rfl⟩

theorem downloadImage_conforming_abc :
    ∃ r w' xs, aknanoDownloadImage .sample (.serving (ascii "abc") (by decide))
        (relativePath sha256Abc.bytes) 1 ⟨3, 7, sha256Abc⟩ (.factory 5) = .ok r w' ∧
      w'.net = List.reverse xs ∧ xs.length = 1 ∧
      NorFlash.read w'.flash.mem 0x200000 3 = ascii "abc" := by
  obtain ⟨r, w', xs, hrun, hnet, hcount, -, -, hplace, -⟩ := downloadImage_conforming
    (Env.serves_serving (by decide) .sample (relativePath sha256Abc.bytes))
    ⟨fun _ => rfl, FlashFaults.reliable_spec⟩ (by decide) 1
    (show (⟨3, 7, sha256Abc⟩ : AknanoTarget).expectedSize.toNat = (ascii "abc").length from rfl)
    rfl (.factory 5)
  exact ⟨r, w', xs, hrun, hnet.trans (List.append_nil _), hcount, hplace⟩

end AktualizrNano
