/-
AktualizrNano/FlashWriter.lean

Which driver calls `aknano_write_data_to_flash` makes, and in which order.
`FlashStorage` says what a write leaves in the flash; this module adds the
calls themselves.

`writerCalls a n` lists the calls of an undisturbed write of `n` bytes at
`a`: page by page, a sector's erase in front of the first of its pages.
`Ran o cs f r f'` is a run through such a list that ends at the first call
that fails, and `writeRounds_ran` says that the loop is one.  Everything about
order and number of the erases is then a fact about the list alone.

The last section puts a write and a read together.  The reader works in
words of four bytes and leaves the rest of the caller's buffer as it was.
-/
import AktualizrNano.FlashStorage

namespace AktualizrNano

open CLib NorFlash Outcome

/-! ### The calls of a write -/

/-- The number of pages of `n` bytes. -/
def pages (n : Nat) : Nat := (n + (mflashPageSize - 1)) / mflashPageSize

/-- The calls of the round that writes page `j`. -/
def pageCalls (a j : Nat) : List FlashCall :=
  if mflashSectorSize ∣ mflashPageSize * j
    then [.erase (a + mflashPageSize * j : Nat), .program (a + mflashPageSize * j : Nat)]
    else [.program (a + mflashPageSize * j : Nat)]

/-- The calls of the rounds from page `j` on. -/
def callsFrom (a n j : Nat) : List FlashCall :=
  (List.range' j (pages n - j)).flatMap (pageCalls a)

/-- The calls of a write of `n` bytes at `a`, the first one first. -/
def writerCalls (a n : Nat) : List FlashCall := callsFrom a n 0

theorem lt_pages {n j : Nat} : j < pages n ↔ mflashPageSize * j < n := by
  show j < (n + 255) / 256 ↔ 256 * j < n
  omega

theorem callsFrom_end {a n j : Nat} (h : n ≤ mflashPageSize * j) : callsFrom a n j = [] := by
  have hj : pages n - j = 0 := by
    have := (lt_pages (n := n) (j := j)).not.mpr (by omega)
    omega
  rw [callsFrom, hj]
  rfl

theorem callsFrom_round {a n j : Nat} (h : mflashPageSize * j < n) :
    callsFrom a n j = pageCalls a j ++ callsFrom a n (j + 1) := by
  obtain ⟨m, hm⟩ : ∃ m, pages n - j = m + 1 := ⟨pages n - j - 1, by
    have := lt_pages.mpr h
    omega⟩
  have hm' : pages n - (j + 1) = m := by omega
  rw [callsFrom, callsFrom, hm, hm', List.range'_succ, List.flatMap_cons]

/-! ### A run through a list of calls -/

/-- A run makes the calls `cs` one after the other, up to the first that
fails: the result is then negative, and `0` if none does. -/
inductive Ran (o : FlashFaults) : List FlashCall → Flash → Int → Flash → Prop
  | done (f : Flash) : Ran o [] f 0 f
  | failed {c : FlashCall} (cs : List FlashCall) {f f' : Flash} {r : Int}
      (fails : o.fails f.clock = true) (calls : f'.calls = c :: f.calls)
      (clock : f'.clock = f.clock + 1) (negative : r < 0) : Ran o (c :: cs) f r f'
  | step {c : FlashCall} {cs : List FlashCall} {f f₁ f' : Flash} {r : Int}
      (works : o.fails f.clock = false) (calls : f₁.calls = c :: f.calls)
      (clock : f₁.clock = f.clock + 1) (rest : Ran o cs f₁ r f') : Ran o (c :: cs) f r f'

/-- What a run has done: `made` are the calls it got to. -/
structure Made (o : FlashFaults) (cs made : List FlashCall) (f : Flash) (r : Int)
    (f' : Flash) : Prop where
  calls : f'.calls = made.reverse ++ f.calls
  clock : f'.clock = f.clock + made.length
  all_work : (∀ i < made.length, o.fails (f.clock + i) = false) → r = 0 ∧ made = cs
  one_fails : ∀ i < made.length, o.fails (f.clock + i) = true → r < 0 ∧ i + 1 = made.length

theorem Ran.made {o : FlashFaults} {cs : List FlashCall} {f f' : Flash} {r : Int}
    (h : Ran o cs f r f') : ∃ made, Made o cs made f r f' := by
  induction h with
  | done f => exact ⟨[], rfl, rfl, fun _ => ⟨rfl, rfl⟩, fun i hi => absurd hi (Nat.not_lt_zero i)⟩
  | @failed c cs f f' r fails calls clock negative =>
    refine ⟨[c], calls, clock, fun hall => ?_, fun i hi _ => ⟨negative, ?_⟩⟩
    · have := hall 0 (by simp)
      rw [Nat.add_zero, fails] at this
      cases this
    · simp only [List.length_singleton] at hi ⊢
      omega
  | @step c cs f f₁ f' r works calls clock _ ih =>
    obtain ⟨made, hmade⟩ := ih
    have hlater : ∀ i, f₁.clock + i = f.clock + (i + 1) := by
      intro i
      rw [clock]
      omega
    refine ⟨c :: made, ?_, ?_, fun hall => ?_, fun i hi hfail => ?_⟩
    · rw [hmade.calls, calls, List.reverse_cons, List.append_assoc, List.singleton_append]
    · rw [hmade.clock, clock, List.length_cons]
      omega
    · obtain ⟨hr, rfl⟩ := hmade.all_work fun i hi => by
        rw [hlater]
        exact hall (i + 1) (Nat.succ_lt_succ hi)
      exact ⟨hr, rfl⟩
    · cases i with
      | zero =>
        rw [Nat.add_zero, works] at hfail
        cases hfail
      | succ i =>
        rw [← hlater] at hfail
        obtain ⟨hr, hlast⟩ := hmade.one_fails i (Nat.lt_of_succ_lt_succ hi) hfail
        exact ⟨hr, congrArg (· + 1) hlast⟩

/-! ### The loop is such a run -/

section Loop

variable {o : FlashFaults}

/-- Power was lost in a call since `f`. -/
def CutSince (o : FlashFaults) (f f' : Flash) : Prop :=
  ∃ t, f.clock ≤ t ∧ t < f'.clock ∧ o.cut t = true

theorem CutSince.later {f f₁ f' : Flash} (h : CutSince o f₁ f') (hclock : f.clock ≤ f₁.clock) :
    CutSince o f f' := by
  obtain ⟨t, hlo, hhi, hcut⟩ := h
  exact ⟨t, by omega, hhi, hcut⟩

/-- An aligned call fails exactly where the driver says so. -/
theorem driverCall_ran {call : FlashCall} {addr unit : Nat} {effect : Mem → Nat → Mem}
    (haddr : addr < 4294967296) (hdvd : unit ∣ addr) (f : Flash) :
    wp (driverCall o call addr unit effect)
      (fun r f' => f'.calls = call :: f.calls ∧ f'.clock = f.clock + 1 ∧
        (r = 0 ∧ o.fails f.clock = false ∨ r ≠ 0 ∧ o.fails f.clock = true))
      (fun _ f' => CutSince o f f') f := by
  have ha : uint32 (addr : Int) = addr := by rw [uint32_eq] <;> omega
  have halign : addr % unit = 0 := Nat.mod_eq_zero_of_dvd hdvd
  unfold wp driverCall
  simp only [ha, halign]
  rcases hcut : o.cut f.clock with - | -
  · rcases hfails : o.fails f.clock with - | -
    · exact ⟨rfl, rfl, Or.inl ⟨rfl, rfl⟩⟩
    · exact ⟨rfl, rfl, Or.inr ⟨one_ne_zero, rfl⟩⟩
  · exact ⟨f.clock, le_rfl, Nat.lt_succ_self _, hcut⟩

/-- The erase at the head of the round that writes page `j`, in front of what
the round goes on with. -/
theorem eraseNextSector_ran {a n j k : Nat} (hjk : mflashPageSize * j = k)
    (ha : mflashSectorSize ∣ a) (hfit : a + roundUp mflashSectorSize n < 2147483648) (hk : k < n)
    {go : Int × Int → FlashM Int} {cs : List FlashCall} (f : Flash)
    (hstop : ∀ r next, r ≠ 0 → go (r, next) = pure (-2))
    (hgo : ∀ f₁, f.clock ≤ f₁.clock →
      wp (go (0, (a + roundUp mflashSectorSize (k + 1) : Nat)))
        (fun r f' => Ran o (.program (a + k : Nat) :: cs) f₁ r f')
        (fun _ f' => CutSince o f f') f₁) :
    wp (eraseNextSector o (a + k : Nat) (a + roundUp mflashSectorSize k : Nat) >>= go)
      (fun r f' => Ran o (pageCalls a j ++ cs) f r f') (fun _ f' => CutSince o f f') f := by
  have hsec : mflashSectorSize = 4096 := rfl
  have hpg : mflashPageSize = 256 := rfl
  rw [wp_bind, pageCalls, hjk]
  by_cases hs : mflashSectorSize ∣ k
  · have hround := roundUp_eq_self (by decide) hs
    have hroom := le_sector_of_lt hk hs
    have haddr : a + k < 4294967296 := by omega
    have hdue : ((a + k : Nat) : Int) ≥ (a + k : Nat) := le_rfl
    have hnext : int32 ((a + k : Nat) + mflashSectorSize)
        = (a + roundUp mflashSectorSize (k + 1) : Nat) := by
      rw [int32_eq (by push_cast; omega) (by push_cast; omega),
        roundUp_add_of_dvd hs (by decide) (by decide)]
      push_cast; ring
    simp only [hround, eraseNextSector, if_pos hdue, wp_bind, mflashDrvSectorErase, if_pos hs,
      hnext]
    refine wp_mono (driverCall_ran haddr (Nat.dvd_add ha hs) f) ?_ fun _ _ h => h
    rintro r f₁ ⟨hcalls, hclock, ⟨rfl, hworks⟩ | ⟨hr, hfails⟩⟩
    · rw [wp_pure]
      exact wp_mono (hgo f₁ (by omega)) (fun _ _ h => .step hworks hcalls hclock h) fun _ _ h => h
    · rw [wp_pure, hstop r _ hr, wp_pure]
      exact .failed _ hfails hcalls hclock (by decide)
  · obtain ⟨hround, hroom⟩ := roundUp_add_of_not_dvd (by decide) (by decide)
      (Dvd.intro _ hjk) hs (by decide : 1 ≤ mflashPageSize)
    have hdue : ¬ ((a + k : Nat) : Int) ≥ (a + roundUp mflashSectorSize k : Nat) := by
      push_cast; omega
    rw [eraseNextSector, if_neg hdue, wp_pure, if_neg hs, ← hround]
    exact hgo f le_rfl

/-- The loop, from the round that writes page `j`. -/
theorem writeRounds_ran {a : Nat} {data : List Byte} (ha : mflashSectorSize ∣ a)
    (hfit : a + roundUp mflashSectorSize data.length < 2147483648) (rounds : Nat) {j k : Nat}
    (hjk : mflashPageSize * j = k) (hk : k ≤ data.length)
    (hrounds : data.length < k + mflashPageSize * rounds) (f : Flash) :
    wp (writeRounds o data rounds k (a + k : Nat) (a + roundUp mflashSectorSize k : Nat))
      (fun r f' => Ran o (callsFrom a data.length j) f r f') (fun _ f' => CutSince o f f') f := by
  have hsec : mflashSectorSize = 4096 := rfl
  have hpg : mflashPageSize = 256 := rfl
  have hlen : data.length ≤ roundUp mflashSectorSize data.length := le_roundUp (by decide) _
  induction rounds generalizing j k f with
  | zero => omega
  | succ rounds ih =>
    rw [writeRounds, chunkLen_eq hk (hlen.trans_lt (by omega))]
    generalize hchunk : min mflashPageSize (data.length - k) = chunkLen
    have hpage : mflashPageSize ∣ k := Dvd.intro _ hjk
    have hnext : mflashPageSize * (j + 1) = k + mflashPageSize := by rw [Nat.mul_succ, hjk]
    by_cases hmore : k < data.length
    · have hpos : chunkLen > 0 := by omega
      simp only [if_pos hpos]
      rw [callsFrom_round (hjk.trans_lt hmore)]
      refine eraseNextSector_ran hjk ha hfit hmore f (fun r next hr => if_pos hr) fun f₁ hf₁ => ?_
      -- the page, then the next round or the end
      have hdvd : mflashPageSize ∣ a + k := Nat.dvd_add (Nat.dvd_trans (by decide) ha) hpage
      simp only [ne_eq, not_true_eq_false, if_false, wp_bind, mflashDrvPageProgram]
      refine wp_mono (driverCall_ran (by omega) hdvd f₁) ?_ fun _ _ h => h.later hf₁
      rintro r f₂ ⟨hcalls, hclock, ⟨rfl, hworks⟩ | ⟨hr, hfails⟩⟩
      · simp only [not_true_eq_false, if_false]
        by_cases hfull : chunkLen = mflashPageSize
        · rw [if_pos hfull, hfull, roundUp_page hpage, int32_add (by omega), Nat.add_assoc]
          refine wp_mono (ih hnext (by omega) (by rw [Nat.mul_succ] at hrounds; omega) f₂)
            (fun _ _ h => .step hworks hcalls hclock h) fun _ _ h => h.later (by omega)
        · rw [if_neg hfull, wp_pure, callsFrom_end (by omega)]
          exact .step hworks hcalls hclock (.done f₂)
      · rw [if_pos hr, wp_pure]
        exact .failed _ hfails hcalls hclock (by decide)
    · -- the extra empty round after a multiple of the page size
      have hzero : ¬ chunkLen > 0 := by omega
      simp only [if_neg hzero, wp_pure]
      rw [callsFrom_end (by omega)]
      exact .done f

end Loop

/-! ### What is noted of a write -/

/-- Driver calls were made, but no write was begun. -/
def NoWrite (f f' : Flash) : Prop :=
  ∃ new, f'.calls = new ++ f.calls ∧ ∀ offset dataLen, .write offset dataLen ∉ new

section NoWrite

variable {o : FlashFaults}

theorem NoWrite.refl (f : Flash) : NoWrite f f := ⟨[], rfl, by simp⟩

instance : Trans NoWrite NoWrite NoWrite where
  trans := by
    rintro f f' f'' ⟨new, hnew, hno⟩ ⟨new', hnew', hno'⟩
    refine ⟨new' ++ new, by rw [hnew', hnew, List.append_assoc], fun offset dataLen h => ?_⟩
    rcases List.mem_append.mp h with h | h
    · exact hno' offset dataLen h
    · exact hno offset dataLen h

theorem noWrite_driverCall {call : FlashCall}
    (hcall : ∀ offset dataLen, call ≠ .write offset dataLen)
    (addr : Int) (unit : Nat) (effect : Mem → Nat → Mem) :
    Keeps NoWrite (driverCall o call addr unit effect) := by
  intro f
  have hno : ∀ m, NoWrite f ⟨m, call :: f.calls, f.clock + 1⟩ := by
    refine fun m => ⟨[call], rfl, fun offset dataLen h => ?_⟩
    exact hcall offset dataLen (List.mem_singleton.mp h).symm
  unfold wp driverCall
  rcases o.cut f.clock with - | -
  · simp only [Bool.false_eq_true, if_false]
    by_cases hbad : uint32 addr % unit ≠ 0 ∨ o.fails f.clock = true
    · simp only [if_pos hbad]
      exact hno _
    · simp only [if_neg hbad]
      exact hno _
  · simp only [if_true]
    exact hno _

theorem noWrite_writeRounds (data : List Byte) (rounds totalProcessed : Nat)
    (chunkFlashAddr nextEraseAddr : Int) :
    Keeps NoWrite (writeRounds o data rounds totalProcessed chunkFlashAddr nextEraseAddr) := by
  induction rounds generalizing totalProcessed chunkFlashAddr nextEraseAddr with
  | zero => exact .pure NoWrite.refl _
  | succ rounds ih =>
    have herase : Keeps NoWrite (eraseNextSector o chunkFlashAddr nextEraseAddr) := by
      unfold eraseNextSector
      split
      · exact (noWrite_driverCall (by simp) _ _ _).bind fun _ => .pure NoWrite.refl _
      · exact .pure NoWrite.refl _
    unfold writeRounds
    dsimp only
    generalize (if int32 ((data.length : Int) - totalProcessed) < mflashPageSize
      then uint32 (int32 ((data.length : Int) - totalProcessed)) else mflashPageSize) = chunkLen
    split
    · refine herase.bind fun erased => ?_
      split
      · exact .pure NoWrite.refl _
      · refine (noWrite_driverCall (by simp) _ _ _).bind fun mflashResult => ?_
        split
        · exact .pure NoWrite.refl _
        · split
          · exact ih _ _ _
          · exact .pure NoWrite.refl _
    · exact .pure NoWrite.refl _

/-- However a write ends, its own arguments are the only ones it has noted. -/
theorem writeDataToFlash_noted (offset : Int) (data : List Byte) :
    Keeps (fun f f' : Flash => ∃ new, f'.calls = new ++ f.calls ∧
      ∀ offset' dataLen, .write offset' dataLen ∈ new ↔ offset' = offset ∧ dataLen = data.length)
      (aknanoWriteDataToFlash o offset data) := by
  have hnoted : ∀ f f' : Flash,
      NoWrite { f with calls := .write offset data.length :: f.calls } f' →
      ∃ new, f'.calls = new ++ f.calls ∧ ∀ offset' dataLen,
        .write offset' dataLen ∈ new ↔ offset' = offset ∧ dataLen = data.length := by
    rintro f f' ⟨new, hnew, hno⟩
    refine ⟨new ++ [.write offset data.length], by simp [hnew], fun offset' dataLen => ?_⟩
    simp [hno offset' dataLen]
  intro f
  rw [aknanoWriteDataToFlash, wp_bind, wp_noteWrite]
  exact wp_mono (noWrite_writeRounds data _ _ _ _ _) (fun _ f' h => hnoted f f' h)
    fun _ f' h => hnoted f f' h

end NoWrite

/-! ### Erase before program -/

/-- The sectors that `n` bytes at `a` reach are erased once each, and a page
is programmed only after the erase of its sector. -/
structure ErasesFirst (a n : Nat) (cs : List FlashCall) : Prop where
  exact : ∀ c ∈ cs, c.Exact a n
  once : ∀ s, mflashSectorSize * s < n → cs.count (.erase (a + mflashSectorSize * s : Nat)) = 1
  before : ∀ pre (addr : Nat) post, cs = pre ++ .program addr :: post →
    ∃ s, .erase (a + mflashSectorSize * s : Nat) ∈ pre ∧
      a + mflashSectorSize * s ≤ addr ∧ addr < a + mflashSectorSize * (s + 1)

theorem mem_pageCalls {a j : Nat} {c : FlashCall} :
    c ∈ pageCalls a j ↔ mflashSectorSize ∣ mflashPageSize * j ∧
      c = .erase (a + mflashPageSize * j : Nat) ∨ c = .program (a + mflashPageSize * j : Nat) := by
  unfold pageCalls
  split <;> simp_all

theorem writerCalls_eq (a n : Nat) :
    writerCalls a n = (List.range (pages n)).flatMap (pageCalls a) := by
  rw [writerCalls, callsFrom, List.range_eq_range', Nat.sub_zero]

theorem mem_writerCalls {a n : Nat} {c : FlashCall} :
    c ∈ writerCalls a n ↔ ∃ j, mflashPageSize * j < n ∧ c ∈ pageCalls a j := by
  simp only [writerCalls_eq, List.mem_flatMap, List.mem_range, lt_pages]

/-- No call is made twice. -/
theorem writerCalls_nodup (a n : Nat) : (writerCalls a n).Nodup := by
  rw [writerCalls_eq, List.nodup_flatMap]
  constructor
  · intro j _
    unfold pageCalls
    split <;> simp
  · apply List.nodup_range.imp
    intro j j' hne c hc hc'
    have hne' : ((a + mflashPageSize * j : Nat) : Int) ≠ (a + mflashPageSize * j' : Nat) := by
      intro h
      exact hne (Nat.eq_of_mul_eq_mul_left (by decide) (Nat.add_left_cancel (Int.ofNat.inj h)))
    rcases mem_pageCalls.mp hc with ⟨-, rfl⟩ | rfl <;>
      rcases mem_pageCalls.mp hc' with ⟨-, h⟩ | h <;> injection h <;> contradiction

/-- The erase of the sector of page `j` is made by the round of page `j` or
an earlier one. -/
theorem erase_mem_rounds {a j : Nat} {c : FlashCall}
    (hc : c = .erase (a + mflashSectorSize * (j / 16) : Nat)) :
    c ∈ (List.range j).flatMap (pageCalls a) ∨
      mflashSectorSize ∣ mflashPageSize * j ∧ c = .erase (a + mflashPageSize * j : Nat) := by
  have hsector : mflashSectorSize * (j / 16) = mflashPageSize * (j / 16 * 16) := by
    show 4096 * (j / 16) = 256 * (j / 16 * 16)
    omega
  have hdvd : mflashSectorSize ∣ mflashPageSize * (j / 16 * 16) := ⟨j / 16, hsector.symm⟩
  rw [hsector] at hc
  rcases (Nat.div_mul_le_self j 16).lt_or_eq with hlt | heq
  · refine Or.inl (List.mem_flatMap.mpr ⟨_, List.mem_range.mpr hlt, ?_⟩)
    exact mem_pageCalls.mpr (Or.inl ⟨hdvd, hc⟩)
  · rw [heq] at hdvd hc
    exact Or.inr ⟨hdvd, hc⟩

/-- What holds of every call and those in front of it, after one more call. -/
theorem forall_split_concat {α : Type} {P : List α → α → Prop} {cs : List α} {c : α}
    (h : ∀ pre x post, cs = pre ++ x :: post → P pre x) (hc : P cs c) :
    ∀ pre x post, cs ++ [c] = pre ++ x :: post → P pre x := by
  intro pre x post heq
  rcases List.eq_nil_or_concat post with rfl | ⟨post, y, rfl⟩
  · obtain ⟨rfl, hx⟩ := List.append_inj' heq rfl
    cases hx
    exact hc
  · have heq' : cs ++ [c] = (pre ++ x :: post) ++ [y] := by simpa using heq
    obtain ⟨rfl, -⟩ := List.append_inj' heq' rfl
    exact h pre x post rfl

/-- The rounds up to page `m`: whatever they program they have erased. -/
theorem rounds_before (a m : Nat) : ∀ pre c post,
    (List.range m).flatMap (pageCalls a) = pre ++ c :: post → ∀ addr : Nat, c = .program addr →
      ∃ s, .erase (a + mflashSectorSize * s : Nat) ∈ pre ∧
        a + mflashSectorSize * s ≤ addr ∧ addr < a + mflashSectorSize * (s + 1) := by
  induction m with
  | zero =>
    intro pre c post h
    simp at h
  | succ m ih =>
    have hin : a + 4096 * (m / 16) ≤ a + 256 * m ∧ a + 256 * m < a + 4096 * (m / 16 + 1) := by
      omega
    rw [List.range_succ, List.flatMap_append, List.flatMap_singleton, pageCalls]
    split
    · next hs =>
      -- the sector's erase is the call just made
      rw [List.append_cons]
      refine forall_split_concat (forall_split_concat ih fun addr h => by cases h) ?_
      intro addr h
      cases h
      refine ⟨m / 16, ?_, hin.1, hin.2⟩
      rcases erase_mem_rounds rfl with hmem | ⟨-, hlast⟩
      · exact List.mem_append_left _ hmem
      · rw [hlast]
        exact List.mem_append_right _ (List.mem_singleton.mpr rfl)
    · next hs =>
      refine forall_split_concat ih fun addr h => ?_
      cases h
      refine ⟨m / 16, ?_, hin.1, hin.2⟩
      rcases erase_mem_rounds rfl with hmem | ⟨hs', -⟩
      · exact hmem
      · exact absurd hs' hs

theorem writerCalls_erasesFirst (a n : Nat) : ErasesFirst a n (writerCalls a n) where
  exact := by
    intro c hc
    obtain ⟨j, hj, hc⟩ := mem_writerCalls.mp hc
    rcases mem_pageCalls.mp hc with ⟨⟨s, hs⟩, rfl⟩ | rfl
    · exact ⟨s, by rw [hs]; push_cast; rfl, by omega⟩
    · exact ⟨j, by push_cast; rfl, hj⟩
  once := by
    intro s hs
    refine List.count_eq_one_of_mem (writerCalls_nodup a n) (mem_writerCalls.mpr ⟨16 * s, ?_, ?_⟩)
    · show 256 * (16 * s) < n
      have : 4096 * s < n := hs
      omega
    · have hpage : mflashPageSize * (16 * s) = mflashSectorSize * s := by
        show 256 * (16 * s) = 4096 * s
        omega
      exact mem_pageCalls.mpr (Or.inl ⟨hpage ▸ Nat.dvd_mul_right .., by rw [hpage]⟩)
  before := by
    intro pre addr post h
    rw [writerCalls_eq] at h
    exact rounds_before a (pages n) pre _ post h addr rfl

/-! ### The writer on NOR flash -/

/-- **The flash writer is correct on NOR flash.**  If none of its driver
calls `cs` fails it returns `0`, the data stands in the flash with `0xFF` up
to the end of the last sector, nothing outside the touched sectors has changed
and every one of them was erased once, before its pages.  A call that fails is
the last one, and the result is negative.  Only a power cut keeps the writer
from returning. -/
theorem writeDataToFlash_onNor {o : FlashFaults} {a : Nat} {data : List Byte}
    (ha : mflashSectorSize ∣ a) (hfit : a + roundUp mflashSectorSize data.length < 2147483648)
    (f : Flash) :
    wp (aknanoWriteDataToFlash o a data)
      (fun r f' => ∃ cs, f'.calls = cs.reverse ++ .write a data.length :: f.calls ∧
        f'.clock = f.clock + cs.length ∧
        ((∀ i < cs.length, o.fails (f.clock + i) = false) →
          r = 0 ∧ Holds mflashSectorSize f'.mem a data ∧
            SameOutside a (a + roundUp mflashSectorSize data.length) f.mem f'.mem ∧
            ErasesFirst a data.length cs) ∧
        (∀ i < cs.length, o.fails (f.clock + i) = true → r < 0 ∧ i + 1 = cs.length))
      (fun _ f' => CutSince o f f') f := by
  have hcalls : wp (aknanoWriteDataToFlash o a data)
      (fun r f' => Ran o (writerCalls a data.length)
        { f with calls := .write a data.length :: f.calls } r f')
      (fun _ f' => CutSince o f f') f := by
    have hrounds : data.length < 0 + mflashPageSize * (data.length / mflashPageSize + 1) := by
      have := Nat.div_add_mod data.length mflashPageSize
      have := Nat.mod_lt data.length (show mflashPageSize > 0 by decide)
      rw [Nat.mul_succ]; omega
    have hround : roundUp mflashSectorSize 0 = 0 := rfl
    have hloop := writeRounds_ran (o := o) ha hfit _ (Nat.mul_zero _) (Nat.zero_le _) hrounds
      { f with calls := .write a data.length :: f.calls }
    rw [hround, Nat.add_zero] at hloop
    rw [aknanoWriteDataToFlash, wp_bind, wp_noteWrite]
    exact hloop
  refine wp_mono (wp_and hcalls (writeDataToFlash_spec hfit f)) ?_ fun _ _ h => h.1
  rintro r f' ⟨hran, htouched, -, -, hplaced, -⟩
  obtain ⟨cs, hmade⟩ := hran.made
  refine ⟨cs, hmade.calls, hmade.clock, fun hall => ?_, hmade.one_fails⟩
  obtain ⟨rfl, rfl⟩ := hmade.all_work hall
  have hmem := (hplaced rfl).1
  refine ⟨rfl, ⟨?_, fun x hlo hhi => ?_⟩, htouched.frame, writerCalls_erasesFirst a _⟩
  · rw [hmem]
    exact read_written f.mem a data
  · rw [hmem, written, if_neg (by omega), if_pos (by omega)]

theorem writeDataToFlash_onNor_threeBytes : ∃ f',
    aknanoWriteDataToFlash .reliable (0x601000 : Nat) [1, 2, 3] .erased = .ok 0 f' ∧
      NorFlash.read f'.mem 0x601000 3 = [1, 2, 3] := by
  have h : wp (aknanoWriteDataToFlash .reliable (0x601000 : Nat) [1, 2, 3]) _ _ .erased :=
    writeDataToFlash_onNor (by decide) (by decide) .erased
  have hpower : ∀ f', ¬ CutSince .reliable .erased f' := by
    rintro f' ⟨t, -, -, hcut⟩
    cases hcut
  obtain ⟨r, f', hrun⟩ := (wp_mono h (fun _ _ h => h) fun _ f' hcut => hpower f' hcut).returns
  obtain ⟨cs, -, -, hall, -⟩ := h.of_ok hrun
  obtain ⟨rfl, hholds, -⟩ := hall fun _ _ => rfl
  exact ⟨f', hrun, hholds.inPlace⟩

/-! ### Written and read back -/

section RoundTrip

variable {o : FlashFaults} {offset : Nat} {data : List Byte}

/-- A write to storage that succeeds has put the data in place. -/
theorem writeDataToStorage_placed
    (hfit : aknanoStorageFlashOffset + offset + roundUp mflashSectorSize data.length < 2147483648)
    {f f₁ : Flash} (hwrite : aknanoWriteDataToStorage o offset data f = .ok 0 f₁) :
    f₁.mem = written mflashSectorSize f.mem (aknanoStorageFlashOffset + offset) data := by
  rw [aknanoWriteDataToStorage, int32_add (by omega)] at hwrite
  exact (((writeDataToFlash_spec hfit f).of_ok hwrite).2.2.2.1 rfl).1

/-- What a read gives back: the whole words of the data, and the end of the
buffer as it was. -/
theorem readFlashStorage_placed
    (hfit : aknanoStorageFlashOffset + offset + roundUp mflashSectorSize data.length < 2147483648)
    {f₁ : Flash} {m : Mem}
    (hmem : f₁.mem = written mflashSectorSize m (aknanoStorageFlashOffset + offset) data)
    (hworks : o.cut f₁.clock = false ∧ o.fails f₁.clock = false) {buf : List Byte}
    (hbuf : buf.length = data.length) : ∃ f₂,
    aknanoReadFlashStorage o offset buf f₁ =
      .ok (0, data.take (data.length / 4 * 4) ++ buf.drop (data.length / 4 * 4)) f₂ := by
  have haddr := uint32_int32_add (a := aknanoStorageFlashOffset) (b := offset) (by omega)
  have hread : NorFlash.read f₁.mem (aknanoStorageFlashOffset + offset) (data.length / 4 * 4)
      = data.take (data.length / 4 * 4) := by
    rw [hmem, ← Nat.add_zero (aknanoStorageFlashOffset + offset)]
    exact read_written_slice m _ (by omega)
  refine ⟨{ f₁ with clock := f₁.clock + 1 }, ?_⟩
  simp only [aknanoReadFlashStorage, mflashDrvRead, bind, EStateM.bind, pure, EStateM.pure,
    hworks.1, hworks.2, hbuf, haddr, hread, Bool.false_eq_true, if_false]

/-- **Written data is read back exactly when it fills whole words.**  After a
write of `data` that succeeded, and with the driver working at the next call:
whatever the buffer held, the read returns `0` and leaves `data` in it, if and
only if the length is a multiple of four. -/
theorem readFlashStorage_eq_written_iff
    (hfit : aknanoStorageFlashOffset + offset + roundUp mflashSectorSize data.length < 2147483648)
    {f f₁ : Flash} (hwrite : aknanoWriteDataToStorage o offset data f = .ok 0 f₁)
    (hworks : o.cut f₁.clock = false ∧ o.fails f₁.clock = false) :
    (∀ buf, buf.length = data.length →
        ∃ f₂, aknanoReadFlashStorage o offset buf f₁ = .ok (0, data) f₂) ↔
      4 ∣ data.length := by
  have hmem := writeDataToStorage_placed hfit hwrite
  constructor
  · intro hall
    by_contra hdvd
    -- a buffer that differs from the data in every byte
    have hbuf : (data.map (· + 1)).length = data.length := List.length_map _
    obtain ⟨f₂, hrun⟩ := hall _ hbuf
    obtain ⟨f₂', hrun'⟩ := readFlashStorage_placed hfit hmem hworks hbuf
    rw [hrun'] at hrun
    injection hrun with hout
    have hout := (Prod.mk.inj hout).2
    have hlast : data.length / 4 * 4 < data.length := by omega
    have htake : (data.take (data.length / 4 * 4)).length = data.length / 4 * 4 := by
      rw [List.length_take]; omega
    have hget := congrArg (·[data.length / 4 * 4]?) hout
    simp only [List.getElem?_append, htake, lt_irrefl, if_false, Nat.sub_self, List.getElem?_drop,
      Nat.add_zero, List.getElem?_map, List.getElem?_eq_getElem hlast, Option.map_some,
      Option.some.injEq] at hget
    simp at hget
  · rintro hdvd buf hbuf
    obtain ⟨f₂, hrun⟩ := readFlashStorage_placed hfit hmem hworks hbuf
    have hwhole : data.length / 4 * 4 = data.length := Nat.div_mul_cancel hdvd
    rw [hwhole, List.take_length, ← hbuf, List.drop_length, List.append_nil] at hrun
    exact ⟨f₂, hrun⟩

theorem readFlashStorage_eq_written_fourBytes : ∃ f₁ f₂,
    aknanoWriteDataToStorage .reliable (4096 : Nat) [1, 2, 3, 4] .erased = .ok 0 f₁ ∧
      aknanoReadFlashStorage .reliable (4096 : Nat) [9, 9, 9, 9] f₁ = .ok (0, [1, 2, 3, 4]) f₂ := by
  have hwrite := eq_ok_of_returned (show returned (aknanoWriteDataToStorage .reliable (4096 : Nat)
    [1, 2, 3, 4]) .erased = some 0 by decide +kernel)
  obtain ⟨f₂, hread⟩ := (readFlashStorage_eq_written_iff (by decide) hwrite ⟨rfl, rfl⟩).mpr
    (by decide) [9, 9, 9, 9] rfl
  exact ⟨_, f₂, hwrite, hread⟩

/-- A serial number of 50 bytes comes back without its last two. -/
theorem readFlashStorage_ne_written_serial :
    let serial : List Byte := List.replicate aknanoMaxSerialLength 0x41
    let run : FlashM (Int × Int × List Byte) := do
      let wret ← aknanoWriteDataToStorage .reliable (aknanoFlashOffDevUuid : Nat) serial
      let (rret, output) ← aknanoReadFlashStorage .reliable (aknanoFlashOffDevUuid : Nat)
        (List.replicate aknanoMaxSerialLength 0)
      pure (wret, rret, output)
    returned run .erased = some (0, 0, List.replicate 48 0x41 ++ [0, 0]) ∧
      List.replicate 48 0x41 ++ [0, 0] ≠ serial := by
  decide +kernel

end RoundTrip

end AktualizrNano
