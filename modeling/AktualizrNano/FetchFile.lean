/-
AktualizrNano/FetchFile.lean

What `tuf_client_fetch_file` does to memory once the reply is there.  The
caller's buffer, the reply's body and everything else lie in one memory, so
that the body may overlap the buffer, as it does for both callers.

`tufClientFetchFile` says what the rest of the agent gets to know of a call;
`fetchFile_agrees` connects the two.  The buffer is respected except in one
case: a body that fills it exactly is moved there, and its NUL is stored
behind the end.  And an HTTP code of 0 is returned as success.
-/
import AktualizrNano.Checkin

namespace AktualizrNano

open CLib NorFlash

/-! ### The function over memory -/

/-- What a request leaves in `dg_network_context`: the transport status, the
code, and where the body stands. -/
structure NetworkContext where
  passed : Bool
  replyHttpCode : Nat
  replyBody : Nat
  replyBodyLen : Nat

/-- What the function leaves: its result, `*file_size`, the memory, and the
addresses it has stored to. -/
structure Fetched where
  ret : Int
  fileSize : Nat
  mem : Mem
  stores : List Nat

/-- `memmove`: the bytes arrive as if by way of a copy. -/
def memmove (m : Mem) (dst src n : Nat) : Mem := fill m dst n fun i => m (src + i)

/-- An exit that has touched nothing. -/
def Fetched.refused (ret : Int) (m : Mem) : Fetched := ⟨ret, 0, m, []⟩

/-- The exit with the file: the body is moved and its NUL is stored. -/
def Fetched.delivered (targetBuffer : Nat) (c : NetworkContext) (m : Mem) : Fetched where
  ret := tufSuccess
  fileSize := c.replyBodyLen
  mem := fill (memmove m targetBuffer c.replyBody c.replyBodyLen)
    (targetBuffer + c.replyBodyLen) 1 fun _ => 0
  stores := (List.range c.replyBodyLen).map (targetBuffer + ·) ++ [targetBuffer + c.replyBodyLen]

/-- `tuf_client_fetch_file`, from the reply on. -/
def fetchFile (dataExceedsBufferSize : Int) (targetBuffer targetBufferLen : Nat)
    (c : NetworkContext) (m : Mem) : Fetched :=
  if c.passed then
    if c.replyHttpCode / 100 = 2 then
      if c.replyBodyLen > targetBufferLen then .refused dataExceedsBufferSize m
      else .delivered targetBuffer c m
    else .refused (-c.replyHttpCode) m
  else .refused (-1) m

/-- The body arrives whole, also where it overlaps the buffer. -/
theorem read_memmove (m : Mem) (dst src n : Nat) :
    NorFlash.read (memmove m dst src n) dst n = NorFlash.read m src n := by
  refine List.map_congr_left fun i hi => ?_
  have hlt := List.mem_range.mp hi
  rw [memmove, fill, if_pos (by omega), Nat.add_sub_cancel_left]

theorem Fetched.delivered_mem (targetBuffer : Nat) (c : NetworkContext) (m : Mem) :
    (delivered targetBuffer c m).mem = fill (memmove m targetBuffer c.replyBody c.replyBodyLen)
      (targetBuffer + c.replyBodyLen) 1 fun _ => 0 := rfl

/-- The NUL stands behind the body and leaves it alone. -/
theorem Fetched.read_delivered (targetBuffer : Nat) (c : NetworkContext) (m : Mem) :
    NorFlash.read (delivered targetBuffer c m).mem targetBuffer c.replyBodyLen
      = NorFlash.read m c.replyBody c.replyBodyLen := by
  have hnul : SameOutside (targetBuffer + c.replyBodyLen) (targetBuffer + c.replyBodyLen + 1)
      (memmove m targetBuffer c.replyBody c.replyBodyLen) (delivered targetBuffer c m).mem := by
    rw [delivered_mem]
    exact SameOutside.fill le_rfl le_rfl
  rw [hnul.read (Or.inl le_rfl), read_memmove]

theorem Fetched.delivered_nul (targetBuffer : Nat) (c : NetworkContext) (m : Mem) :
    (delivered targetBuffer c m).mem (targetBuffer + c.replyBodyLen) = 0 := by
  simp [delivered, fill]

theorem Fetched.mem_stores_delivered {targetBuffer a : Nat} {c : NetworkContext} {m : Mem} :
    a ∈ (delivered targetBuffer c m).stores ↔
      targetBuffer ≤ a ∧ a ≤ targetBuffer + c.replyBodyLen := by
  have hmem : a ∈ (delivered targetBuffer c m).stores ↔
      (∃ i, i < c.replyBodyLen ∧ targetBuffer + i = a) ∨ a = targetBuffer + c.replyBodyLen := by
    simp [delivered]
  rw [hmem]
  constructor
  · rintro (⟨i, hi, rfl⟩ | rfl) <;> omega
  · rintro ⟨hlo, hhi⟩
    rcases hhi.lt_or_eq with hlt | rfl
    · exact Or.inl ⟨a - targetBuffer, by omega, by omega⟩
    · exact Or.inr rfl

/-! ### Agreement with the agent's view -/

/-- The result as an `int`. -/
def FetchRet.toInt (dataExceedsBufferSize : Int) : FetchRet → Int
  | .success _ => tufSuccess
  | .dataExceedsBufferSize => dataExceedsBufferSize
  | .httpCode code => -code
  | .failed => -1

/-- The file that was delivered. -/
def FetchRet.file : FetchRet → List Byte
  | .success targetBuffer => targetBuffer
  | _ => []

/-- What `tufClientFetchFile` makes of a reply. -/
def fetchRet (targetBufferLen : Nat) (reply : Reply) : FetchRet :=
  if reply.passed then
    if reply.httpCode / 100 = 2 then
      if reply.bytes.length > targetBufferLen then .dataExceedsBufferSize
      else .success reply.bytes
    else .httpCode reply.httpCode
  else .failed

theorem tufClientFetchFile_eq (p : Platform) (e : Env) (s : Settings) (fileBaseName : List Byte)
    (targetBufferLen : Nat) :
    tufClientFetchFile p e s fileBaseName targetBufferLen =
      aknanoSendHttpRequest p e (ascii "GET") (printed 300 (ascii "/repo/" ++ fileBaseName)) [] s
        >>= fun reply => pure (fetchRet targetBufferLen reply) := rfl

/-- The context describes a reply whose body stands in memory. -/
structure NetworkContext.Holds (c : NetworkContext) (reply : Reply) (m : Mem) : Prop where
  passed : c.passed = reply.passed
  replyHttpCode : c.replyHttpCode = reply.httpCode
  replyBodyLen : c.replyBodyLen = reply.bytes.length
  replyBody : NorFlash.read m c.replyBody c.replyBodyLen = reply.bytes

/-- The two views of a call agree in the result and in the file. -/
theorem fetchFile_agrees (dataExceedsBufferSize : Int) (targetBuffer targetBufferLen : Nat)
    {c : NetworkContext} {reply : Reply} {m : Mem} (h : c.Holds reply m) :
    let out := fetchFile dataExceedsBufferSize targetBuffer targetBufferLen c m
    let ret := fetchRet targetBufferLen reply
    out.ret = ret.toInt dataExceedsBufferSize ∧
      NorFlash.read out.mem targetBuffer out.fileSize = ret.file := by
  unfold fetchFile fetchRet
  rw [h.passed, h.replyHttpCode, h.replyBodyLen]
  split
  · split
    · split
      · exact ⟨rfl, rfl⟩
      · refine ⟨rfl, ?_⟩
        have hread := Fetched.read_delivered targetBuffer c m
        rw [h.replyBody] at hread
        exact hread
    · exact ⟨rfl, rfl⟩
  · exact ⟨rfl, rfl⟩

/-! ### The caller's buffer -/

/-- A call respects the caller's buffer. -/
structure RespectsBuffer (dataExceedsBufferSize : Int) (targetBuffer targetBufferLen : Nat)
    (c : NetworkContext) (m : Mem) (out : Fetched) : Prop where
  inside : ∀ a ∈ out.stores, targetBuffer ≤ a ∧ a < targetBuffer + targetBufferLen
  /-- success is a 2xx reply, and its body stands in the buffer with a NUL -/
  success : out.ret = tufSuccess → c.passed = true ∧ c.replyHttpCode / 100 = 2 ∧
    out.fileSize = c.replyBodyLen ∧
    NorFlash.read out.mem targetBuffer out.fileSize = NorFlash.read m c.replyBody c.replyBodyLen ∧
    out.mem (targetBuffer + out.fileSize) = 0 ∧ out.fileSize < targetBufferLen
  otherwise : out.ret ≠ tufSuccess → out.fileSize = 0 ∧ out.stores = [] ∧ out.mem = m ∧
    (out.ret < 0 ∨ out.ret = dataExceedsBufferSize)

section

variable {dataExceedsBufferSize : Int} {targetBuffer targetBufferLen : Nat} {c : NetworkContext}
  {m : Mem}

/-- An exit that has touched nothing respects the buffer if its result says
that there is no file. -/
theorem respectsBuffer_refused {ret : Int} (hret : ret < 0 ∨ ret = dataExceedsBufferSize)
    (hne : ret ≠ tufSuccess) :
    RespectsBuffer dataExceedsBufferSize targetBuffer targetBufferLen c m (.refused ret m) :=
  ⟨fun _ ha => absurd ha List.not_mem_nil, fun h => absurd h hne, fun _ => ⟨rfl, rfl, rfl, hret⟩⟩

/-- With the body, the NUL has to fit as well. -/
theorem respectsBuffer_delivered_iff (hpassed : c.passed = true) (hok : c.replyHttpCode / 100 = 2) :
    RespectsBuffer dataExceedsBufferSize targetBuffer targetBufferLen c m
      (.delivered targetBuffer c m) ↔ c.replyBodyLen < targetBufferLen := by
  constructor
  · intro h
    exact (h.success rfl).2.2.2.2.2
  · intro hlt
    refine ⟨fun a ha => ?_, fun _ => ?_, fun h => absurd rfl h⟩
    · have := Fetched.mem_stores_delivered.mp ha
      omega
    · exact ⟨hpassed, hok, rfl, Fetched.read_delivered .., Fetched.delivered_nul .., hlt⟩

/-- **`tuf_client_fetch_file` respects the buffer, with two exceptions**: the
body of a 2xx reply fills the buffer exactly, or the code of a reply is 0. -/
theorem fetchFile_respectsBuffer_iff (herror : dataExceedsBufferSize ≠ tufSuccess) :
    RespectsBuffer dataExceedsBufferSize targetBuffer targetBufferLen c m
        (fetchFile dataExceedsBufferSize targetBuffer targetBufferLen c m) ↔
      ¬ (c.passed = true ∧ c.replyHttpCode / 100 = 2 ∧ c.replyBodyLen = targetBufferLen) ∧
        ¬ (c.passed = true ∧ c.replyHttpCode = 0) := by
  unfold fetchFile
  by_cases hpassed : c.passed = true
  · rw [if_pos hpassed]
    by_cases hok : c.replyHttpCode / 100 = 2
    · rw [if_pos hok]
      by_cases hbig : c.replyBodyLen > targetBufferLen
      · rw [if_pos hbig]
        exact iff_of_true (respectsBuffer_refused (Or.inr rfl) herror) (by omega)
      · rw [if_neg hbig, respectsBuffer_delivered_iff hpassed hok]
        simp only [hpassed, hok, true_and]
        omega
    · rw [if_neg hok]
      by_cases hzero : c.replyHttpCode = 0
      · -- minus zero is success, but nothing was delivered
        refine iff_of_false (fun h => ?_) fun h => h.2 ⟨hpassed, hzero⟩
        have hret : (Fetched.refused (-(c.replyHttpCode : Int)) m).ret = tufSuccess := by
          rw [hzero]
          rfl
        exact hok (h.success hret).2.1
      · have hret : (-(c.replyHttpCode : Int)) < 0 := by omega
        exact iff_of_true (respectsBuffer_refused (Or.inl hret) hret.ne)
          ⟨fun h => hok h.2.1, fun h => hzero h.2⟩
  · rw [if_neg hpassed]
    exact iff_of_true (respectsBuffer_refused (Or.inl (by decide)) (by decide))
      ⟨fun h => hpassed h.1, fun h => hpassed h.1⟩

end

/-- A body of two bytes in a buffer of sixteen, from further up in it. -/
theorem fetchFile_respectsBuffer_twoBytes :
    RespectsBuffer 7 0 16 ⟨true, 200, 1, 2⟩ (fun _ => 0x7B)
      (fetchFile 7 0 16 ⟨true, 200, 1, 2⟩ fun _ => 0x7B) :=
  (fetchFile_respectsBuffer_iff (by decide)).mpr (by decide)

/-- A body of exactly the 16384 bytes that `tuf_refresh` is given: the NUL is
stored at index 16384. -/
theorem not_respectsBuffer_full :
    aknanoTufMetadataMaxSize ∈ (fetchFile 7 0 aknanoTufMetadataMaxSize
        ⟨true, 200, 1024, aknanoTufMetadataMaxSize⟩ fun _ => 0x7B).stores ∧
      ¬ RespectsBuffer 7 0 aknanoTufMetadataMaxSize
        ⟨true, 200, 1024, aknanoTufMetadataMaxSize⟩ (fun _ => 0x7B)
        (fetchFile 7 0 aknanoTufMetadataMaxSize
          ⟨true, 200, 1024, aknanoTufMetadataMaxSize⟩ fun _ => 0x7B) := by
  have hstore : aknanoTufMetadataMaxSize ∈ (Fetched.delivered 0
      ⟨true, 200, 1024, aknanoTufMetadataMaxSize⟩ fun _ => 0x7B).stores :=
    Fetched.mem_stores_delivered.mpr (by decide)
  refine ⟨hstore, fun h => ?_⟩
  have hinside := h.inside _ hstore
  exact absurd hinside.2 (by decide)

end AktualizrNano
