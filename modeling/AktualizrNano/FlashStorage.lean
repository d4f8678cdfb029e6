/-
AktualizrNano/FlashStorage.lean

The flash side of `aknano_flash_storage.c`: the driver calls, the page-wise
writer `aknano_write_data_to_flash` and the reader.

The driver is the SDK's and not part of the repository.  What the code relies
on is modelled here once, in `driverCall`: an aligned erase or program either
takes effect or is reported, a misaligned one is rejected with no effect, and
power may be lost during any call.  Which calls fail is decided by a
`FlashFaults`, about which nothing is assumed; a call that fails or is cut
leaves arbitrary bytes in the one unit it was working on.

`writeDataToFlash_spec` is the only fact later modules need about the writer.
-/
import AktualizrNano.Layout
import AktualizrNano.NorFlash
import AktualizrNano.Outcome

namespace AktualizrNano

open CLib NorFlash Outcome

/-! ### The device -/

/-- Why a boot ends. -/
inductive Halt
  | powerCut
  | reboot
  /-- a copy ran over the end of its buffer -/
  | fault
  deriving DecidableEq

/-- The calls whose addresses are kept on record. -/
inductive FlashCall
  | write (offset : Int) (dataLen : Nat)
  | erase (addr : Int)
  | program (addr : Int)
  deriving DecidableEq

/-- The flash device: contents, calls so far (newest first) and their number. -/
structure Flash where
  mem : Mem
  calls : List FlashCall
  clock : Nat

/-- How the driver behaves at its `n`-th call. -/
structure FlashFaults where
  cut : Nat → Bool
  fails : Nat → Bool
  damage : Nat → Nat → Byte

/-- No call fails and power is never lost. -/
def FlashFaults.Reliable (o : FlashFaults) : Prop := ∀ n, o.cut n = false ∧ o.fails n = false

/-- A driver that always works. -/
def FlashFaults.reliable : FlashFaults := ⟨fun _ => false, fun _ => false, fun _ _ => 0xFF⟩

theorem FlashFaults.reliable_spec : FlashFaults.reliable.Reliable := fun _ => ⟨rfl, rfl⟩

/-- A device as it leaves the factory. -/
def Flash.erased : Flash := ⟨fun _ => 0xFF, [], 0⟩

/-- A program over the device. -/
abbrev FlashM := EStateM Halt Flash

variable (o : FlashFaults)

/-- One erase or program of `unit` bytes; `0` is success. -/
def driverCall (call : FlashCall) (addr : Int) (unit : Nat) (effect : Mem → Nat → Mem) :
    FlashM Int := fun f =>
  let a := uint32 addr
  let done (m : Mem) : Flash := ⟨m, call :: f.calls, f.clock + 1⟩
  -- a call that goes wrong leaves anything in the unit it worked on
  let spoiled := if a % unit = 0 then fill f.mem a unit (o.damage f.clock) else f.mem
  if o.cut f.clock then .error .powerCut (done spoiled)
  else if a % unit ≠ 0 ∨ o.fails f.clock then .ok 1 (done spoiled)
  else .ok 0 (done (effect f.mem a))

def mflashDrvSectorErase (addr : Int) : FlashM Int :=
  driverCall o (.erase addr) addr mflashSectorSize (NorFlash.erase mflashSectorSize)

def mflashDrvPageProgram (addr : Int) (page : List Byte) : FlashM Int :=
  driverCall o (.program addr) addr mflashPageSize fun m a => NorFlash.program m a page

/-- `none` when the driver reports an error. -/
def mflashDrvRead (addr : Int) (len : Nat) : FlashM (Option (List Byte)) := fun f =>
  let f' : Flash := { f with clock := f.clock + 1 }
  if o.cut f.clock then .error .powerCut f'
  else if o.fails f.clock then .ok none f'
  else .ok (some (NorFlash.read f.mem (uint32 addr) len)) f'

/-! ### Reading and writing -/

/-- `output` stands for the buffer the caller passes, so that its length is
`outputMaxLen`; only whole 4-byte words are read. -/
def aknanoReadFlashStorage (offset : Int) (output : List Byte) : FlashM (Int × List Byte) := do
  let len := output.length / 4 * 4
  match ← mflashDrvRead o (int32 (aknanoStorageFlashOffset + offset)) len with
  | none => pure (-1, output)
  | some bs => pure (0, bs ++ output.drop len)

/-- The erase at the head of a round, when the page reaches the next sector. -/
def eraseNextSector (chunkFlashAddr nextEraseAddr : Int) : FlashM (Int × Int) :=
  if chunkFlashAddr ≥ nextEraseAddr then do
    let mflashResult ← mflashDrvSectorErase o nextEraseAddr
    pure (mflashResult, int32 (nextEraseAddr + mflashSectorSize))
  else
    pure (0, nextEraseAddr)

/-- The do-while loop of `aknano_write_data_to_flash`, at most `rounds` times. -/
def writeRounds (data : List Byte) : (rounds : Nat) → (totalProcessed : Nat) →
    (chunkFlashAddr nextEraseAddr : Int) → FlashM Int
  | 0, _, _, _ => pure 0
  | rounds + 1, totalProcessed, chunkFlashAddr, nextEraseAddr => do
    let remainingBytes := int32 ((data.length : Int) - totalProcessed)
    let chunkLen :=
      if remainingBytes < mflashPageSize then uint32 remainingBytes else mflashPageSize
    let chunk := (data.drop totalProcessed).take chunkLen
    if chunkLen > 0 then
      let (mflashResult, nextEraseAddr) ← eraseNextSector o chunkFlashAddr nextEraseAddr
      if mflashResult ≠ 0 then pure (-2) else
      let mflashResult ← mflashDrvPageProgram o chunkFlashAddr (padded mflashPageSize chunk)
      if mflashResult ≠ 0 then pure (-1) else
      -- a short page is the last one
      if chunkLen = mflashPageSize then
        writeRounds data rounds (totalProcessed + chunkLen)
          (int32 (chunkFlashAddr + chunkLen)) nextEraseAddr
      else pure 0
    else pure 0

/-- Note that a call with these arguments was made. -/
def noteWrite (offset : Int) (dataLen : Nat) : FlashM Unit :=
  modify fun f => { f with calls := .write offset dataLen :: f.calls }

def aknanoWriteDataToFlash (offset : Int) (data : List Byte) : FlashM Int := do
  noteWrite offset data.length
  writeRounds o data (data.length / mflashPageSize + 1) 0 offset offset

def aknanoWriteDataToStorage (offset : Int) (data : List Byte) : FlashM Int :=
  aknanoWriteDataToFlash o (int32 (aknanoStorageFlashOffset + offset)) data

/-! ### The driver's contract -/

variable {o}

/-- **Driver contract**: success means an aligned call that took effect;
otherwise only the addressed unit can have changed, and not even that if the
address was misaligned. -/
theorem driverCall_spec {call : FlashCall} {addr unit : Nat} {effect : Mem → Nat → Mem}
    (haddr : addr < 4294967296) (f : Flash) :
    wp (driverCall o call addr unit effect)
      (fun r f' => f'.calls = call :: f.calls ∧
        (r = 0 ∧ unit ∣ addr ∧ f'.mem = effect f.mem addr ∨
          r = 1 ∧ ¬ (o.Reliable ∧ unit ∣ addr) ∧ SameOutside addr (addr + unit) f.mem f'.mem ∧
            (¬ unit ∣ addr → f'.mem = f.mem)))
      (fun _ f' => f'.calls = call :: f.calls ∧ ¬ o.Reliable ∧
        SameOutside addr (addr + unit) f.mem f'.mem ∧ (¬ unit ∣ addr → f'.mem = f.mem)) f := by
  have ha : uint32 (addr : Int) = addr := by rw [uint32_eq] <;> omega
  have hspoiled : ∀ g, SameOutside addr (addr + unit) f.mem
      (if addr % unit = 0 then fill f.mem addr unit g else f.mem) := by
    intro g
    split
    · exact SameOutside.fill le_rfl le_rfl
    · rfl
  have hkept : ∀ g, ¬ unit ∣ addr →
      (if addr % unit = 0 then fill f.mem addr unit g else f.mem) = f.mem := fun g h =>
    if_neg fun e => h (Nat.dvd_of_mod_eq_zero e)
  unfold wp driverCall
  simp only [ha]
  rcases hcut : o.cut f.clock with - | -
  · by_cases hbad : addr % unit ≠ 0 ∨ o.fails f.clock
    · simp only [if_pos hbad, Bool.false_eq_true, if_false]
      refine ⟨trivial, Or.inr ⟨trivial, ?_, hspoiled _, hkept _⟩⟩
      rintro ⟨hrel, hdvd⟩
      rcases hbad with h | h
      · exact h (Nat.mod_eq_zero_of_dvd hdvd)
      · rw [(hrel f.clock).2] at h; cases h
    · simp only [if_neg hbad, Bool.false_eq_true, if_false]
      push Not at hbad
      exact ⟨trivial, Or.inl ⟨trivial, Nat.dvd_of_mod_eq_zero hbad.1, trivial⟩⟩
  · simp only [if_true]
    refine ⟨trivial, ?_, hspoiled _, hkept _⟩
    intro hrel
    rw [(hrel f.clock).1] at hcut; cases hcut

/-! ### The writer's contract -/

/-- The call was made, with the exact mathematical address, by a write of
`n` bytes at `a`. -/
def FlashCall.Exact (a n : Nat) : FlashCall → Prop
  | .write offset dataLen => offset = a ∧ dataLen = n
  | .erase addr => ∃ j : Nat, addr = a + mflashSectorSize * j ∧ mflashSectorSize * j < n
  | .program addr => ∃ j : Nat, addr = a + mflashPageSize * j ∧ mflashPageSize * j < n

/-- What a write of `n` bytes at `a` may have done to the device, from
contents `m` and call record `cs`. -/
structure Touched (a n : Nat) (m : Mem) (cs : List FlashCall) (f' : Flash) : Prop where
  frame : SameOutside a (a + roundUp mflashSectorSize n) m f'.mem
  calls : ∃ new, f'.calls = new ++ cs ∧ ∀ c ∈ new, c.Exact a n

theorem Touched.call {a n : Nat} {m : Mem} {cs : List FlashCall} {f f' : Flash} {c : FlashCall}
    (h : Touched a n m cs f) (hc : c.Exact a n) (hcalls : f'.calls = c :: f.calls)
    (hframe : SameOutside a (a + roundUp mflashSectorSize n) f.mem f'.mem) :
    Touched a n m cs f' := by
  obtain ⟨new, hnew, hall⟩ := h.calls
  refine ⟨h.frame.trans hframe, c :: new, by rw [hcalls, hnew, List.cons_append], ?_⟩
  intro c' hc'
  rcases List.mem_cons.mp hc' with rfl | hc'
  · exact hc
  · exact hall c' hc'

/-- The end of the last touched sector is a legal address. -/
theorem le_sector_of_lt {n k : Nat} (h : k < n) (hk : mflashSectorSize ∣ k) :
    k + mflashSectorSize ≤ roundUp mflashSectorSize n := by
  obtain ⟨c, rfl⟩ := hk
  obtain ⟨d, hd⟩ := dvd_roundUp mflashSectorSize n
  have hle : n ≤ roundUp mflashSectorSize n := le_roundUp (by decide) n
  have hcd : mflashSectorSize * c < mflashSectorSize * d := by omega
  have := Nat.lt_of_mul_lt_mul_left hcd
  rw [hd, ← Nat.mul_succ]
  exact Nat.mul_le_mul_left _ this

/-- Where the loop may be after `k` bytes: their pages are in place, and the
next erase is due at the end of the touched sectors. -/
structure RoundInv (a : Nat) (data : List Byte) (m : Mem) (cs : List FlashCall) (k : Nat)
    (f : Flash) : Prop where
  page : mflashPageSize ∣ k
  le : k ≤ data.length
  mem : f.mem = written mflashSectorSize m a (data.take k)
  touched : Touched a data.length m cs f

/-- The erase at the head of a round. -/
theorem eraseNextSector_spec {a k : Nat} {data : List Byte} {m : Mem} {cs : List FlashCall}
    {f : Flash} (ha : mflashSectorSize ∣ a)
    (hfit : a + roundUp mflashSectorSize data.length < 2147483648) (hk : k < data.length)
    (h : RoundInv a data m cs k f) :
    wp (eraseNextSector o (a + k : Nat) (a + roundUp mflashSectorSize k : Nat))
      (fun r f' => Touched a data.length m cs f' ∧ (o.Reliable → r.1 = 0) ∧
        (r.1 = 0 → r.2 = (a + roundUp mflashSectorSize (k + 1) : Nat) ∧
          f'.mem = if mflashSectorSize ∣ k
            then NorFlash.erase mflashSectorSize
              (written mflashSectorSize m a (data.take k)) (a + k)
            else written mflashSectorSize m a (data.take k)))
      (fun _ f' => Touched a data.length m cs f' ∧ ¬ o.Reliable) f := by
  have hsec : mflashSectorSize = 4096 := rfl
  by_cases hs : mflashSectorSize ∣ k
  -- the page starts a sector, so its erase is due
  · have hround : roundUp mflashSectorSize k = k := roundUp_eq_self (by decide) hs
    have hroom := le_sector_of_lt hk hs
    have hdue : ((a + k : Nat) : Int) ≥ (a + k : Nat) := le_rfl
    have hdvd : mflashSectorSize ∣ a + k := Nat.dvd_add ha hs
    have hframe : SameOutside a (a + roundUp mflashSectorSize data.length) f.mem f.mem := by rfl
    simp only [eraseNextSector, hround, if_pos hdue, wp_bind, mflashDrvSectorErase]
    have hexact : FlashCall.Exact a data.length (.erase (a + k : Nat)) := by
      obtain ⟨j, rfl⟩ := hs
      exact ⟨j, by push_cast; ring, hk⟩
    refine wp_mono (driverCall_spec (by omega) f) ?_ ?_
    · rintro r f' ⟨hcalls, ⟨rfl, -, hmem⟩ | ⟨rfl, hrel, hout, -⟩⟩
      · rw [wp_pure]
        refine ⟨h.touched.call hexact hcalls ?_, fun _ => rfl, fun _ => ⟨?_, ?_⟩⟩
        · rw [hmem]
          exact SameOutside.fill (by omega) (by omega)
        · rw [int32_eq (by push_cast; omega) (by push_cast; omega),
            roundUp_add_of_dvd hs (by decide) (by decide)]
          push_cast; ring
        · rw [hmem, if_pos hs, h.mem]
      · rw [wp_pure]
        refine ⟨h.touched.call hexact hcalls (hout.mono (by omega) (by omega)), ?_, ?_⟩
        · exact fun hr => absurd ⟨hr, hdvd⟩ hrel
        · intro h0; cases h0
    · rintro e f' ⟨hcalls, hrel, hout, -⟩
      exact ⟨h.touched.call hexact hcalls (hout.mono (by omega) (by omega)), hrel⟩
  · obtain ⟨hround, hroom⟩ := roundUp_add_of_not_dvd (by decide) (by decide) h.page hs
      (by decide : 1 ≤ mflashPageSize)
    have hdue : ¬ ((a + k : Nat) : Int) ≥ (a + roundUp mflashSectorSize k : Nat) := by
      have : mflashPageSize = 256 := rfl
      push_cast; omega
    simp only [eraseNextSector, if_neg hdue, wp_pure, if_neg hs, hround]
    exact ⟨h.touched, fun _ => trivial, fun _ => ⟨trivial, h.mem⟩⟩

/-- The program call of a round, after the erase that was due. -/
theorem pageProgram_spec {a k : Nat} {data : List Byte} {m : Mem} {cs : List FlashCall}
    {f : Flash} (ha : mflashSectorSize ∣ a)
    (hfit : a + roundUp mflashSectorSize data.length < 2147483648) (hk : k < data.length)
    (hpage : mflashPageSize ∣ k) (ht : Touched a data.length m cs f)
    (hmem : f.mem = if mflashSectorSize ∣ k
      then NorFlash.erase mflashSectorSize (written mflashSectorSize m a (data.take k)) (a + k)
      else written mflashSectorSize m a (data.take k)) :
    wp (mflashDrvPageProgram o (a + k : Nat)
        (padded mflashPageSize ((data.drop k).take mflashPageSize)))
      (fun r f' => Touched a data.length m cs f' ∧ (o.Reliable → r = 0) ∧
        (r = 0 → f'.mem = written mflashSectorSize m a (data.take (k + mflashPageSize))))
      (fun _ f' => Touched a data.length m cs f' ∧ ¬ o.Reliable) f := by
  have hsec : mflashSectorSize = 4096 := rfl
  have hpg : mflashPageSize = 256 := rfl
  have hlen : data.length ≤ roundUp mflashSectorSize data.length := le_roundUp (by decide) _
  -- both the page and the erased sectors end at page boundaries
  have hroom : k + mflashPageSize ≤ roundUp mflashSectorSize data.length := by
    obtain ⟨c, rfl⟩ := hpage
    obtain ⟨d, hd⟩ : mflashPageSize ∣ roundUp mflashSectorSize data.length :=
      Nat.dvd_trans (by decide) (dvd_roundUp ..)
    have hcd : c < d := Nat.lt_of_mul_lt_mul_left (a := mflashPageSize) (by omega)
    rw [hd, ← Nat.mul_succ]
    exact Nat.mul_le_mul_left _ hcd
  have hdvd : mflashPageSize ∣ a + k := Nat.dvd_add (Nat.dvd_trans (by decide) ha) hpage
  have hexact : FlashCall.Exact a data.length (.program (a + k : Nat)) := by
    obtain ⟨j, rfl⟩ := hpage
    exact ⟨j, by push_cast; ring, hk⟩
  have hplen : (padded mflashPageSize ((data.drop k).take mflashPageSize)).length
      = mflashPageSize := padded_length (by simp)
  refine wp_mono (driverCall_spec (by omega) f) ?_ ?_
  · rintro r f' ⟨hcalls, ⟨rfl, -, hmem'⟩ | ⟨rfl, hrel, hout, -⟩⟩
    · refine ⟨ht.call hexact hcalls ?_, fun _ => rfl, fun _ => ?_⟩
      · rw [hmem']
        exact SameOutside.fill (by omega) (by rw [hplen]; omega)
      · rw [hmem', hmem]
        exact written_step (by decide) (by decide) (by decide) m a hpage hk
    · refine ⟨ht.call hexact hcalls (hout.mono (by omega) (by omega)), ?_, ?_⟩
      · exact fun hr => absurd ⟨hr, hdvd⟩ hrel
      · intro h0; cases h0
  · rintro e f' ⟨hcalls, hrel, hout, -⟩
    exact ⟨ht.call hexact hcalls (hout.mono (by omega) (by omega)), hrel⟩

/-- How many bytes a round takes. -/
theorem chunkLen_eq {n k : Nat} (hk : k ≤ n) (hn : n < 2147483648) :
    (if int32 ((n : Int) - k) < mflashPageSize then uint32 (int32 ((n : Int) - k))
      else mflashPageSize) = min mflashPageSize (n - k) := by
  have hpg : mflashPageSize = 256 := rfl
  have hrem : int32 ((n : Int) - k) = (n - k : Nat) := by
    rw [int32_eq (by omega) (by omega)]
    omega
  rw [hrem]
  split
  · rw [uint32_eq (by omega) (by omega)]
    omega
  · omega

/-- A page never changes how far the erased sectors reach. -/
theorem roundUp_page {k : Nat} (hpage : mflashPageSize ∣ k) :
    roundUp mflashSectorSize (k + 1) = roundUp mflashSectorSize (k + mflashPageSize) := by
  by_cases hs : mflashSectorSize ∣ k
  · rw [roundUp_add_of_dvd hs (by decide) (by decide),
      roundUp_add_of_dvd hs (by decide) (by decide)]
  · rw [(roundUp_add_of_not_dvd (by decide) (by decide) hpage hs (by decide)).1,
      (roundUp_add_of_not_dvd (by decide) (by decide) hpage hs le_rfl).1]

/-- The loop, from any round. -/
theorem writeRounds_spec {a : Nat} {data : List Byte} {m : Mem} {cs : List FlashCall}
    (ha : mflashSectorSize ∣ a) (hfit : a + roundUp mflashSectorSize data.length < 2147483648)
    (rounds : Nat) {k : Nat} (hrounds : data.length < k + mflashPageSize * rounds) {f : Flash}
    (h : RoundInv a data m cs k f) :
    wp (writeRounds o data rounds k (a + k : Nat) (a + roundUp mflashSectorSize k : Nat))
      (fun r f' => Touched a data.length m cs f' ∧ (r = 0 ∨ r = -1 ∨ r = -2) ∧
        (r = 0 → f'.mem = written mflashSectorSize m a data) ∧ (o.Reliable → r = 0))
      (fun _ f' => Touched a data.length m cs f' ∧ ¬ o.Reliable) f := by
  have hsec : mflashSectorSize = 4096 := rfl
  have hpg : mflashPageSize = 256 := rfl
  have hlen : data.length ≤ roundUp mflashSectorSize data.length := le_roundUp (by decide) _
  induction rounds generalizing k f with
  | zero => have := h.le; omega
  | succ rounds ih =>
    have hle := h.le
    rw [writeRounds, chunkLen_eq hle (hlen.trans_lt (by omega))]
    generalize hchunk : min mflashPageSize (data.length - k) = chunkLen
    by_cases hk : k < data.length
    · have hpos : chunkLen > 0 := by omega
      have htake : (data.drop k).take chunkLen = (data.drop k).take mflashPageSize := by
        rw [← hchunk, List.take_eq_take_iff]; simp
      simp only [if_pos hpos, wp_bind, htake]
      refine wp_mono (eraseNextSector_spec ha hfit hk h) ?_ fun _ _ hE => hE
      rintro ⟨r, next⟩ f₁ ⟨ht₁, hrel₁, hok₁⟩
      dsimp only at hrel₁ hok₁ ⊢
      by_cases hr : r = 0
      · subst hr
        obtain ⟨rfl, hmem₁⟩ := hok₁ rfl
        simp only [ne_eq, not_true_eq_false, if_false, wp_bind]
        refine wp_mono (pageProgram_spec ha hfit hk h.page ht₁ hmem₁) ?_ fun _ _ hE => hE
        rintro r f₂ ⟨ht₂, hrel₂, hok₂⟩
        by_cases hr : r = 0
        · subst hr
          have hmem₂ := hok₂ rfl
          simp only [not_true_eq_false, if_false]
          by_cases hfull : chunkLen = mflashPageSize
          · -- a full page: next round
            rw [if_pos hfull, hfull, roundUp_page h.page]
            rw [int32_add (by omega), Nat.add_assoc]
            exact ih (by rw [Nat.mul_succ] at hrounds; omega)
              ⟨Nat.dvd_add h.page (dvd_refl _), by omega, hmem₂, ht₂⟩
          · -- the last, short page
            rw [if_neg hfull, wp_pure]
            refine ⟨ht₂, Or.inl rfl, fun _ => ?_, fun _ => rfl⟩
            rw [hmem₂, List.take_of_length_le (by omega)]
        · rw [if_pos hr, wp_pure]
          exact ⟨ht₂, by simp, by simp, fun hrel => absurd (hrel₂ hrel) hr⟩
      · simp only [if_pos hr, wp_pure]
        exact ⟨ht₁, by simp, by simp, fun hrel => absurd (hrel₁ hrel) hr⟩
    · -- the extra empty round after a multiple of the page size
      have hend : data.length = k := by omega
      have hzero : ¬ chunkLen > 0 := by omega
      simp only [if_neg hzero, wp_pure]
      refine ⟨h.touched, Or.inl trivial, fun _ => ?_, fun _ => trivial⟩
      rw [h.mem, ← hend, List.take_length]

theorem wp_noteWrite {offset : Int} {dataLen : Nat} {Q : Unit → Flash → Prop}
    {E : Halt → Flash → Prop} {f : Flash} :
    wp (noteWrite offset dataLen) Q E f ↔
      Q () { f with calls := .write offset dataLen :: f.calls } := by
  unfold wp; rfl

/-- At an address that is not a sector boundary the first erase is rejected. -/
theorem writeRounds_misaligned {a : Nat} {data : List Byte} {m : Mem} {cs : List FlashCall}
    (ha : ¬ mflashSectorSize ∣ a)
    (hfit : a + roundUp mflashSectorSize data.length < 2147483648)
    (rounds : Nat) (hrounds : 0 < rounds) {f : Flash} (h : Touched a data.length m cs f) :
    wp (writeRounds o data rounds 0 a a)
      (fun r f' => Touched a data.length m cs f' ∧ f'.mem = f.mem ∧
        (data ≠ [] ↔ r = -2) ∧ (r = 0 ∨ r = -2))
      (fun _ f' => Touched a data.length m cs f' ∧ f'.mem = f.mem ∧ ¬ o.Reliable) f := by
  have hlen : data.length ≤ roundUp mflashSectorSize data.length := le_roundUp (by decide) _
  obtain ⟨rounds, rfl⟩ : ∃ n, rounds = n + 1 := ⟨rounds - 1, by omega⟩
  rw [writeRounds, chunkLen_eq (Nat.zero_le _) (by omega), Nat.sub_zero]
  generalize hchunk : min mflashPageSize data.length = chunkLen
  rcases data with - | ⟨b, bs⟩
  · have hzero : ¬ chunkLen > 0 := by simp [← hchunk]
    rw [if_neg hzero, wp_pure]
    exact ⟨h, rfl, by simp, Or.inl rfl⟩
  · have hpos : chunkLen > 0 := by simp [← hchunk]
    have hexact : FlashCall.Exact a (b :: bs).length (.erase a) := ⟨0, by simp, by simp⟩
    have hdue : (a : Int) ≥ a := le_rfl
    have hframe : ∀ {m'}, f.mem = m' →
        SameOutside a (a + roundUp mflashSectorSize (b :: bs).length) f.mem m' := by
      rintro _ rfl; rfl
    simp only [if_pos hpos, wp_bind, eraseNextSector, if_pos hdue, mflashDrvSectorErase]
    refine wp_mono (driverCall_spec (by omega) f) ?_ ?_
    · rintro r f' ⟨hcalls, ⟨-, hdvd, -⟩ | ⟨rfl, -, -, hkept⟩⟩
      · exact absurd hdvd ha
      · have hmem := hkept ha
        simp only [wp_pure, ne_eq, one_ne_zero, not_false_eq_true, if_true]
        exact ⟨h.call hexact hcalls (hframe hmem.symm), hmem, by simp, by simp⟩
    · rintro e f' ⟨hcalls, hrel, -, hkept⟩
      have hmem := hkept ha
      exact ⟨h.call hexact hcalls (hframe hmem.symm), hmem, hrel⟩

/-- **Contract of the writer.**  Whatever the driver does, only the sectors
of `[a, a + n)` are touched, by calls with exact addresses, and nothing at all
is changed when `a` is not a sector boundary.  A zero result means the data is
in place; it is certain on a reliable device, and it is impossible for data at
an address that is not a sector boundary. -/
theorem writeDataToFlash_spec {a : Nat} {data : List Byte}
    (hfit : a + roundUp mflashSectorSize data.length < 2147483648) (f : Flash) :
    wp (aknanoWriteDataToFlash o a data)
      (fun r f' => Touched a data.length f.mem f.calls f' ∧
        (¬ mflashSectorSize ∣ a → f'.mem = f.mem) ∧ (r = 0 ∨ r = -1 ∨ r = -2) ∧
        (r = 0 → f'.mem = written mflashSectorSize f.mem a data ∧
          (data ≠ [] → mflashSectorSize ∣ a)) ∧
        (o.Reliable → mflashSectorSize ∣ a → r = 0))
      (fun _ f' => Touched a data.length f.mem f.calls f' ∧
        (¬ mflashSectorSize ∣ a → f'.mem = f.mem) ∧ ¬ o.Reliable) f := by
  have hstart : Touched a data.length f.mem f.calls
      ({ f with calls := .write a data.length :: f.calls } : Flash) :=
    ⟨by rfl, [.write a data.length], rfl, by simp [FlashCall.Exact]⟩
  rw [aknanoWriteDataToFlash, wp_bind, wp_noteWrite]
  by_cases ha : mflashSectorSize ∣ a
  · have hinv : RoundInv a data f.mem f.calls 0
        ({ f with calls := .write a data.length :: f.calls } : Flash) :=
      ⟨Nat.dvd_zero _, Nat.zero_le _, by rw [List.take_zero, written_nil], hstart⟩
    have hround : roundUp mflashSectorSize 0 = 0 := rfl
    have hspec := writeRounds_spec (o := o) ha hfit (data.length / mflashPageSize + 1)
      (by have := Nat.div_add_mod data.length mflashPageSize
          have := Nat.mod_lt data.length (show mflashPageSize > 0 by decide)
          rw [Nat.mul_succ]; omega) hinv
    rw [hround, Nat.add_zero] at hspec
    refine wp_mono hspec ?_ fun _ _ hE => ⟨hE.1, fun ha' => absurd ha ha', hE.2⟩
    rintro r f' ⟨ht, hres, hok, hrel⟩
    exact ⟨ht, fun ha' => absurd ha ha', hres, fun h0 => ⟨hok h0, fun _ => ha⟩, fun hr _ => hrel hr⟩
  · refine wp_mono (writeRounds_misaligned ha hfit _ (Nat.succ_pos _) hstart) ?_
      fun _ _ hE => ⟨hE.1, fun _ => hE.2.1, hE.2.2⟩
    rintro r f' ⟨ht, hmem, hne, hres⟩
    refine ⟨ht, fun _ => hmem, by omega, fun h0 => ?_, fun _ ha' => absurd ha' ha⟩
    have hnil : data = [] := by
      by_contra h
      have := hne.mp h
      omega
    subst hnil
    exact ⟨by rw [hmem, written_nil], fun hne => absurd rfl hne⟩

/-! ### The reader's contract -/

theorem mflashDrvRead_spec {addr : Int} {len : Nat} (f : Flash) :
    wp (mflashDrvRead o addr len)
      (fun r f' => f'.mem = f.mem ∧ f'.calls = f.calls ∧
        (r = some (NorFlash.read f.mem (uint32 addr) len) ∨ r = none ∧ ¬ o.Reliable))
      (fun _ f' => f'.mem = f.mem ∧ f'.calls = f.calls ∧ ¬ o.Reliable) f := by
  unfold wp mflashDrvRead
  rcases hcut : o.cut f.clock with - | -
  · rcases hfail : o.fails f.clock with - | -
    · exact ⟨rfl, rfl, Or.inl rfl⟩
    · refine ⟨rfl, rfl, Or.inr ⟨rfl, fun hrel => ?_⟩⟩
      rw [(hrel f.clock).2] at hfail; cases hfail
  · refine ⟨rfl, rfl, fun hrel => ?_⟩
    rw [(hrel f.clock).1] at hcut; cases hcut

/-- **Contract of the reader**: the device is not changed; a zero result
means that the leading words of the buffer are those of the device, any other
that the buffer is as it was. -/
theorem readFlashStorage_spec {offset : Nat} {output : List Byte}
    (hfit : aknanoStorageFlashOffset + offset < 2147483648) (f : Flash) :
    wp (aknanoReadFlashStorage o offset output)
      (fun r f' => f'.mem = f.mem ∧ f'.calls = f.calls ∧
        (r = (0, NorFlash.read f.mem (aknanoStorageFlashOffset + offset)
            (output.length / 4 * 4) ++ output.drop (output.length / 4 * 4)) ∨
          r = (-1, output) ∧ ¬ o.Reliable))
      (fun _ f' => f'.mem = f.mem ∧ f'.calls = f.calls ∧ ¬ o.Reliable) f := by
  rw [aknanoReadFlashStorage, wp_bind]
  refine wp_mono (mflashDrvRead_spec f) ?_ fun _ _ hE => hE
  rintro r f' ⟨hmem, hcalls, rfl | ⟨rfl, hrel⟩⟩
  · rw [wp_pure, uint32_int32_add hfit]
    exact ⟨hmem, hcalls, Or.inl rfl⟩
  · rw [wp_pure]
    exact ⟨hmem, hcalls, Or.inr ⟨rfl, hrel⟩⟩

/-! ### Which calls matter -/

/-- From its `c`-th call on the one driver behaves like the other. -/
def AlikeFrom (c : Nat) (o o' : FlashFaults) : Prop :=
  ∀ n, c ≤ n → o.cut n = o'.cut n ∧ o.fails n = o'.fails n ∧ o.damage n = o'.damage n

/-- Started after `c` calls, the programs do the same, and count on. -/
def SameFrom {α : Type} (c : Nat) (x x' : FlashM α) : Prop :=
  ∀ f : Flash, c ≤ f.clock → x f = x' f ∧ c ≤ (final x f).clock

theorem SameFrom.pure {α : Type} {c : Nat} (a : α) :
    SameFrom c (pure a : FlashM α) (pure a) := fun _ hc => ⟨rfl, hc⟩

theorem SameFrom.bind {α β : Type} {c : Nat} {x x' : FlashM α} {k k' : α → FlashM β}
    (hx : SameFrom c x x') (hk : ∀ a, SameFrom c (k a) (k' a)) :
    SameFrom c (x >>= k) (x' >>= k') := by
  intro f hc
  obtain ⟨heq, hclock⟩ := hx f hc
  simp only [Bind.bind, EStateM.bind, final, ← heq] at hclock ⊢
  rcases hrun : x f with ⟨a, f₁⟩ | ⟨e, f₁⟩
  · rw [hrun] at hclock
    exact hk a f₁ hclock
  · rw [hrun] at hclock
    exact ⟨rfl, hclock⟩

section SameFrom

variable {c : Nat} {o' : FlashFaults}

theorem sameFrom_driverCall (h : AlikeFrom c o o') (call : FlashCall) (addr : Int) (unit : Nat)
    (effect : Mem → Nat → Mem) :
    SameFrom c (driverCall o call addr unit effect) (driverCall o' call addr unit effect) := by
  intro f hc
  obtain ⟨hcut, hfails, hdamage⟩ := h f.clock hc
  have hclock : c ≤ f.clock + 1 := by omega
  unfold driverCall final
  rw [hcut, hfails, hdamage]
  refine ⟨rfl, ?_⟩
  dsimp only
  split
  · next hrun =>
    split at hrun
    · cases hrun
    · split at hrun <;> cases hrun <;> exact hclock
  · next hrun =>
    split at hrun
    · cases hrun
      exact hclock
    · split at hrun <;> cases hrun

theorem sameFrom_eraseNextSector (h : AlikeFrom c o o') (chunkFlashAddr nextEraseAddr : Int) :
    SameFrom c (eraseNextSector o chunkFlashAddr nextEraseAddr)
      (eraseNextSector o' chunkFlashAddr nextEraseAddr) := by
  unfold eraseNextSector
  split
  · exact (sameFrom_driverCall h _ _ _ _).bind fun _ => .pure _
  · exact .pure _

theorem sameFrom_writeRounds (h : AlikeFrom c o o') (data : List Byte)
    (rounds totalProcessed : Nat) (chunkFlashAddr nextEraseAddr : Int) :
    SameFrom c (writeRounds o data rounds totalProcessed chunkFlashAddr nextEraseAddr)
      (writeRounds o' data rounds totalProcessed chunkFlashAddr nextEraseAddr) := by
  induction rounds generalizing totalProcessed chunkFlashAddr nextEraseAddr with
  | zero => exact .pure _
  | succ rounds ih =>
    unfold writeRounds
    dsimp only
    generalize (if int32 ((data.length : Int) - totalProcessed) < mflashPageSize
      then uint32 (int32 ((data.length : Int) - totalProcessed)) else mflashPageSize) = chunkLen
    split
    · refine (sameFrom_eraseNextSector h _ _).bind fun erased => ?_
      split
      · exact .pure _
      · refine (sameFrom_driverCall h _ _ _ _).bind fun mflashResult => ?_
        split
        · exact .pure _
        · split
          · exact ih _ _ _
          · exact .pure _
    · exact .pure _

/-- What a write does depends on the calls it makes itself. -/
theorem sameFrom_writeDataToFlash (h : AlikeFrom c o o') (offset : Int) (data : List Byte) :
    SameFrom c (aknanoWriteDataToFlash o offset data) (aknanoWriteDataToFlash o' offset data) := by
  have hnote : SameFrom c (noteWrite offset data.length) (noteWrite offset data.length) :=
    fun _ hc => ⟨rfl, hc⟩
  exact hnote.bind fun _ => sameFrom_writeRounds h _ _ _ _ _

end SameFrom

end AktualizrNano
