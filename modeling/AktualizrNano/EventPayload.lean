/-
AktualizrNano/EventPayload.lean

The payload of an event as JSON.  `fill_event_payload` prints its texts one into
the other through bounded buffers, and escapes none of them.

All buffers are large enough (`report_length_lt`), so the payload is the text
of a value whose strings are printed as they are (`EventReport.value_raw`), and
what such a text decodes to is known: the value itself, exactly if its strings
are plain (`eventPayload_wellFormed_iff`).
-/
import AktualizrNano.Checkin
import AktualizrNano.Identity
import AktualizrNano.JsonText

namespace AktualizrNano

open CLib NorFlash Outcome JsonText

/-! ### What is reported -/

/-- The texts of an event. -/
structure EventReport where
  evtUuid : List Byte
  deviceTime : List Byte
  eventType : EventType
  correlationId : List Byte
  targetName : List Byte
  version : Version
  success : Bool
  details : List Byte

/-- The version of the format. -/
def formatVersion : Number :=
  ⟨ascii "0", [], ascii "0", [], [], rfl, .inl rfl, .inl rfl, .inl rfl, .inl rfl⟩

def EventReport.value (x : EventReport) : Value :=
  .array [.object [
    (ascii "id", .string x.evtUuid),
    (ascii "deviceTime", .string x.deviceTime),
    (ascii "eventType", .object [
      (ascii "id", .string x.eventType.text),
      (ascii "version", .number formatVersion)]),
    (ascii "event", .object [
      (ascii "correlationId", .string x.correlationId),
      (ascii "targetName", .string x.targetName),
      (ascii "version", .string (decimal x.version.toNat)),
      (ascii "success", .bool x.success),
      (ascii "details", .string x.details)])]]

/-- What stands between a key and its value. -/
abbrev colon : List Byte := [0x22, 0x3A, 0x20]

/-- The format of the payload is that of the value. -/
theorem EventReport.value_raw (x : EventReport) :
    x.value.raw = ascii "[\x7b\"id\": \"" ++ x.evtUuid
      ++ ascii "\",\"deviceTime\": \"" ++ x.deviceTime
      ++ ascii "\",\"eventType\": \x7b\"id\": \"" ++ x.eventType.text
      ++ ascii "\",\"version\": 0\x7d,\"event\": \x7b\"correlationId\": \"" ++ x.correlationId
      ++ ascii "\",\"targetName\": \"" ++ x.targetName
      ++ ascii "\",\"version\": \"" ++ decimal x.version.toNat ++ ascii "\","
      ++ (if x.success then ascii "\"success\": true," else ascii "\"success\": false,")
      ++ ascii "\"details\": \"" ++ x.details ++ ascii "\"\x7d\x7d]" := by
  -- the texts of the format, cut at the keys and the quotation marks of the strings
  have hid : ascii "[\x7b\"id\": \"" = 0x5B :: 0x7B :: 0x22 :: ascii "id" ++ colon ++ [0x22] := by
    decide
  have htime : ascii "\",\"deviceTime\": \""
      = 0x22 :: 0x2C :: 0x22 :: ascii "deviceTime" ++ colon ++ [0x22] := by decide
  have htype : ascii "\",\"eventType\": \x7b\"id\": \""
      = 0x22 :: 0x2C :: 0x22 :: ascii "eventType" ++ colon ++ 0x7B :: 0x22 :: ascii "id" ++ colon
        ++ [0x22] := by decide
  have hevent : ascii "\",\"version\": 0\x7d,\"event\": \x7b\"correlationId\": \""
      = 0x22 :: 0x2C :: 0x22 :: ascii "version" ++ colon ++ ascii "0" ++ 0x7D :: 0x2C :: 0x22
        :: ascii "event" ++ colon ++ 0x7B :: 0x22 :: ascii "correlationId" ++ colon ++ [0x22] := by
    decide
  have htarget : ascii "\",\"targetName\": \""
      = 0x22 :: 0x2C :: 0x22 :: ascii "targetName" ++ colon ++ [0x22] := by decide
  have hversion : ascii "\",\"version\": \""
      = 0x22 :: 0x2C :: 0x22 :: ascii "version" ++ colon ++ [0x22] := by decide
  have hnext : ascii "\"," = [0x22, 0x2C] := by decide
  have hsuccess : (if x.success then ascii "\"success\": true," else ascii "\"success\": false,")
      = 0x22 :: ascii "success" ++ colon
        ++ (if x.success then ascii "true" else ascii "false") ++ [0x2C] := by
    cases x.success <;> decide
  have hdetails : ascii "\"details\": \"" = 0x22 :: ascii "details" ++ colon ++ [0x22] := by decide
  have hend : ascii "\"\x7d\x7d]" = [0x22, 0x7D, 0x7D, 0x5D] := by decide
  rw [hid, htime, htype, hevent, htarget, hversion, hnext, hsuccess, hdetails, hend]
  simp only [EventReport.value, Value.raw, rawElements, rawMembers, formatVersion, colon,
    List.append_assoc, List.cons_append, List.nil_append]

/-- An event at the end of an update is about the running version. -/
def reportedVersion (s : Settings) (eventType : EventType) (newVersion : Version) : Version :=
  if eventType = .installationCompleted then s.runningVersion else newVersion

def previousVersion (s : Settings) (eventType : EventType) : Version :=
  if eventType = .installationCompleted then s.lastConfirmedVersion else s.runningVersion

def targetName (s : Settings) (version : Version) : List Byte :=
  s.hwidStr ++ ascii "-v" ++ decimal version.toNat

/-- The id of the settings; without one, target and uuid. -/
def correlationId (s : Settings) (version : Version) : List Byte :=
  if s.ongoingUpdateCorrelationId.str = [] then targetName s version ++ ascii "-" ++ s.uuidStr
  else s.ongoingUpdateCorrelationId.str

/-- What an event is to say. -/
def reportOf (s : Settings) (eventType : EventType) (newVersion : Version) (success : Bool)
    (evtUuid deviceTime : List Byte) : EventReport where
  evtUuid := evtUuid
  deviceTime := deviceTime
  eventType := eventType
  correlationId := correlationId s (reportedVersion s eventType newVersion)
  targetName := targetName s (reportedVersion s eventType newVersion)
  version := reportedVersion s eventType newVersion
  success := success
  details := eventDetails s eventType (previousVersion s eventType)
    (reportedVersion s eventType newVersion) success

/-! ### The buffers -/

/-- The strings of the settings end within their arrays, and the name of the
board is one of at most 20 characters. -/
structure StringsEnd (s : Settings) : Prop where
  tag : 0 ∈ s.tag.bytes
  uuid : 0 ∈ s.uuid.bytes
  id : 0 ∈ s.ongoingUpdateCorrelationId.bytes
  hwid : ∀ b ∈ s.hwidStr, b ≠ 0
  hwid_length : s.hwidStr.length ≤ aknanoMaxHwidLength

/-- `struct tm` as `gmtime` fills it, with the year and the month as they are
printed: the year is an `int`, the others have at most two digits. -/
structure Tm where
  year : Int
  month : Nat
  day : Nat
  hour : Nat
  min : Nat
  sec : Nat
  year_range : -2 ^ 31 ≤ year ∧ year < 2 ^ 31
  ranges : month < 100 ∧ day < 100 ∧ hour < 100 ∧ min < 100 ∧ sec < 100

/-- `%0*d`. -/
def padded (width n : Nat) : List Byte :=
  List.replicate (width - (decimal n).length) 0x30 ++ decimal n

/-- The format of `get_time_str`. -/
def Tm.text (tm : Tm) : List Byte :=
  (if tm.year < 0 then ascii "-" ++ padded 3 tm.year.natAbs else padded 4 tm.year.natAbs)
    ++ ascii "-" ++ padded 2 tm.month ++ ascii "-" ++ padded 2 tm.day ++ ascii "T"
    ++ padded 2 tm.hour ++ ascii ":" ++ padded 2 tm.min ++ ascii ":" ++ padded 2 tm.sec
    ++ ascii "." ++ padded 3 0 ++ ascii "Z"

theorem version_length_le (version : Version) : (decimal version.toNat).length ≤ 10 :=
  decimal_length_le (by decide) (lt_of_lt_of_le version.isLt (by decide))

theorem padded_length_le {width n k : Nat} (hwidth : width ≤ k) (hk : 0 < k) (h : n < 10 ^ k) :
    (padded width n).length ≤ k := by
  have hlength := decimal_length_le hk h
  rw [padded, List.length_append, List.length_replicate]
  omega

/-- The time fits its buffer. -/
theorem Tm.text_length_le (tm : Tm) : tm.text.length ≤ 31 := by
  obtain ⟨hmonth, hday, hhour, hmin, hsec⟩ := tm.ranges
  have hrange := tm.year_range
  have hyear : (if tm.year < 0 then ascii "-" ++ padded 3 tm.year.natAbs
      else padded 4 tm.year.natAbs).length ≤ 11 := by
    have hten : tm.year.natAbs < 10 ^ 10 := by omega
    split
    · have hlength : (padded 3 tm.year.natAbs).length ≤ 10 :=
        padded_length_le (by decide) (by decide) hten
      rw [List.length_append]
      exact Nat.add_le_add (show (ascii "-").length ≤ 1 by decide) hlength
    · exact (padded_length_le (by decide) (by decide) hten).trans (by decide)
  have htwo : ∀ n < 100, (padded 2 n).length ≤ 2 := fun n hn =>
    padded_length_le le_rfl (by decide) hn
  have hmonth := htwo _ hmonth
  have hday := htwo _ hday
  have hhour := htwo _ hhour
  have hmin := htwo _ hmin
  have hsec := htwo _ hsec
  have hmilli : (padded 3 0).length ≤ 3 := padded_length_le le_rfl (by decide) (by decide)
  have hmarks : (ascii "-").length = 1 ∧ (ascii "T").length = 1 ∧ (ascii ":").length = 1 ∧
      (ascii ".").length = 1 ∧ (ascii "Z").length = 1 := by decide
  rw [Tm.text]
  simp only [List.length_append] at hyear ⊢
  omega

variable {s : Settings}

theorem uuidStr_length_lt (hs : StringsEnd s) : s.uuidStr.length < aknanoMaxUuidLength := by
  have hstr : s.uuidStr = s.uuid.str := by
    have hlt := CharArray.str_length_lt hs.uuid
    have hends : ¬ (s.uuid.bytes.takeWhile (· ≠ 0)).length = s.uuid.bytes.length :=
      fun h => absurd (h.trans s.uuid.length_eq) hlt.ne
    rw [Settings.uuidStr, List.takeWhile_append, if_neg hends]
    rfl
  rw [hstr]
  exact CharArray.str_length_lt hs.uuid

theorem targetName_length_le (hs : StringsEnd s) (version : Version) :
    (targetName s version).length ≤ 32 := by
  have hhwid : s.hwidStr.length ≤ 20 := hs.hwid_length
  have hversion := version_length_le version
  have hmark : (ascii "-v").length = 2 := rfl
  rw [targetName, List.length_append, List.length_append]
  omega

theorem correlationId_length_lt (hs : StringsEnd s) (version : Version) :
    (correlationId s version).length < aknanoMaxUpdateCorrelationIdLength := by
  have hid := CharArray.str_length_lt hs.id
  have htarget := targetName_length_le hs version
  have huuid : s.uuidStr.length < 40 := uuidStr_length_lt hs
  have hdash : (ascii "-").length = 1 := rfl
  rw [correlationId]
  split
  · rw [List.length_append, List.length_append]
    show _ < 102
    omega
  · exact hid

theorem eventDetails_length_le (hs : StringsEnd s) (eventType : EventType)
    (oldVersion newVersion : Version) (success : Bool) :
    (eventDetails s eventType oldVersion newVersion success).length ≤ 121 := by
  have htag : s.tag.str.length < 40 := CharArray.str_length_lt hs.tag
  have hold := version_length_le oldVersion
  have hnew := version_length_le newVersion
  have hlast := version_length_le s.lastAppliedVersion
  have htexts : (ascii "Updating from v").length ≤ 15 ∧ (ascii " to v").length ≤ 5 ∧
      (ascii " tag: ").length ≤ 6 ∧ (ascii ". Image written to flash. Rebooting.").length ≤ 36 ∧
      (ascii ".").length ≤ 1 := by decide
  have hends : (ascii "Rollback to v").length ≤ 15 ∧
      (ascii " after failed update to v").length ≤ 25 ∧ (ascii "Updated from v").length ≤ 15 ∧
      (ascii ". Image confirmed. Running on ").length ≤ 30 ∧ (ascii " slot.").length ≤ 6 := by decide
  have hposition : (if s.imagePosition = 1 then ascii "PRIMARY"
      else ascii "SECONDARY").length ≤ 9 := by
    split <;> decide
  cases eventType with
  | installationCompleted =>
    rw [eventDetails]
    split
    · simp only [List.length_append]
      omega
    · simp only [List.length_append]
      omega
  | _ =>
    simp only [eventDetails, List.length_append]
    omega

/-- The payload fits its buffer, with whatever identifier and time. -/
theorem report_length_lt (hs : StringsEnd s) (eventType : EventType) (newVersion : Version)
    (success : Bool) {evtUuid deviceTime : List Byte} (huuid : evtUuid.length = 36)
    (htime : deviceTime.length ≤ 31) :
    (reportOf s eventType newVersion success evtUuid deviceTime).value.raw.length < 1000 := by
  have hid : (correlationId s (reportedVersion s eventType newVersion)).length < 102 :=
    correlationId_length_lt hs _
  have htarget := targetName_length_le hs (reportedVersion s eventType newVersion)
  have hversion := version_length_le (reportedVersion s eventType newVersion)
  have htype := eventType.text_length_le
  have hdetails := eventDetails_length_le hs eventType (previousVersion s eventType)
    (reportedVersion s eventType newVersion) success
  have hsuccess : (if success then ascii "\"success\": true,"
      else ascii "\"success\": false,").length ≤ 17 := by
    cases success <;> decide
  have htexts : (ascii "[\x7b\"id\": \"").length ≤ 50 ∧
      (ascii "\",\"deviceTime\": \"").length ≤ 50 ∧
      (ascii "\",\"eventType\": \x7b\"id\": \"").length ≤ 50 ∧
      (ascii "\",\"version\": 0\x7d,\"event\": \x7b\"correlationId\": \"").length ≤ 50 ∧
      (ascii "\",\"targetName\": \"").length ≤ 50 ∧ (ascii "\",\"version\": \"").length ≤ 50 ∧
      (ascii "\",").length ≤ 50 ∧ (ascii "\"details\": \"").length ≤ 50 ∧
      (ascii "\"\x7d\x7d]").length ≤ 50 := by decide
  rw [EventReport.value_raw, reportOf]
  simp only [List.length_append]
  omega

/-! ### The printed payload -/

variable {p : Platform} {e : Env}

theorem eventDetails_fillCorrelationId (target : List Byte) (eventType : EventType)
    (oldVersion newVersion : Version) (success : Bool) :
    eventDetails (fillCorrelationId s target) eventType oldVersion newVersion success
      = eventDetails s eventType oldVersion newVersion success := by
  rw [fillCorrelationId]
  split <;> rfl

theorem printed_of_lt {size : Nat} {text : List Byte} (h : text.length < size) :
    printed size text = text :=
  List.take_of_length_le (Nat.le_sub_one_of_lt h)

theorem targetName_clean (hs : StringsEnd s) (version : Version) :
    ∀ b ∈ targetName s version, b ≠ 0 := by
  rintro b hb rfl
  rcases List.mem_append.mp hb with hb | hb
  · rcases List.mem_append.mp hb with hb | hb
    · exact hs.hwid 0 hb rfl
    · exact absurd hb (by decide)
  · exact absurd (decimal_digits 0 hb).1 (by decide)

/-- The id that is printed, once it has been filled in. -/
theorem fillCorrelationId_correlationId (hs : StringsEnd s) (version : Version) :
    (fillCorrelationId s (targetName s version)).ongoingUpdateCorrelationId.str
      = correlationId s version := by
  have htarget := targetName_length_le hs version
  have huuid : s.uuidStr.length < 40 := uuidStr_length_lt hs
  by_cases hid : s.ongoingUpdateCorrelationId.str = []
  · have hfits : (targetName s version).length + s.uuidStr.length + 1
        < aknanoMaxUpdateCorrelationIdLength := by
      show _ < 102
      omega
    rw [correlationId, if_pos hid, fillCorrelationId_str hid (targetName_clean hs version) hfits]
  · have hpos : ¬ s.ongoingUpdateCorrelationId.str.length = 0 := fun h =>
      hid (List.length_eq_zero_iff.mp h)
    rw [correlationId, if_neg hid, fillCorrelationId, strnlen_bytes, if_neg hpos]

theorem tick_cut (w : World) : wp (tick e) (fun _ _ => True) (fun _ _ => ∃ t, e.cut t = true) w := by
  unfold wp tick
  cases hcut : e.cut w.tick with
  | true => exact ⟨w.tick, hcut⟩
  | false => trivial

theorem genSerialAndUuid_cut (w : World) :
    wp (aknanoGenSerialAndUuid e) (fun _ _ => True) (fun _ _ => ∃ t, e.cut t = true) w := by
  rw [aknanoGenSerialAndUuid, aknanoCliGenRandomBytes, wp_bind, wp_bind]
  refine wp_mono (tick_cut w) (fun _ _ _ => ?_) fun _ _ h => h
  rw [wp_pure, wp_pure]
  trivial

/-- Unless power is lost, the payload is the whole text of the report. -/
theorem fillEventPayload_report (hs : StringsEnd s)
    (htime : ∀ epoch, ∃ tm : Tm, p.timeStr epoch = tm.text) (eventType : EventType)
    (newVersion : Version) (success : Bool) (w : World) :
    wp (fillEventPayload p e s eventType newVersion success)
      (fun r _ => ∃ evtUuid, ∃ tm : Tm, evtUuid.length = 36 ∧
        (∀ b ∈ evtUuid, 0x2D ≤ b ∧ b ≤ 0x46) ∧
        r.2 = (reportOf s eventType newVersion success evtUuid tm.text).value.raw)
      (fun _ _ => ∃ t, e.cut t = true) w := by
  rw [fillEventPayload, wp_bind]
  refine wp_mono (wp_and (genSerialAndUuid_text w) (genSerialAndUuid_cut w)) ?_ fun _ _ h => h.2
  rintro _ w₁ ⟨⟨evtUuid, serial, rfl, hlength, -, hchars, -⟩, -⟩
  rw [wp_bind, aknanoCliGetCurrentEpoch, wp_bind]
  refine wp_mono (tick_cut w₁) ?_ fun _ _ h => h
  rintro t w₂ -
  rw [wp_pure, wp_pure]
  obtain ⟨tm, htm⟩ := htime (e.epoch t)
  have hclean : ∀ b ∈ evtUuid, b ≠ 0 := by
    rintro b hb rfl
    exact absurd (hchars 0 hb).1 (by decide)
  have hlt := report_length_lt hs eventType newVersion success hlength tm.text_length_le
  have htarget : (targetName s (reportedVersion s eventType newVersion)).length
      < aknanoMaxTargetNameLength :=
    lt_of_le_of_lt (targetName_length_le hs _) (by decide)
  have hdetails := eventDetails_length_le hs eventType (previousVersion s eventType)
    (reportedVersion s eventType newVersion) success
  have hreported : (if eventType = .installationCompleted then s.runningVersion else newVersion)
      = reportedVersion s eventType newVersion := rfl
  have hprevious : (if eventType = .installationCompleted then s.lastConfirmedVersion
      else s.runningVersion) = previousVersion s eventType := rfl
  have hname : s.hwidStr ++ ascii "-v" ++ decimal (reportedVersion s eventType newVersion).toNat
      = targetName s (reportedVersion s eventType newVersion) := rfl
  refine ⟨evtUuid, tm, hlength, hchars, ?_⟩
  dsimp only
  rw [← printed_of_lt hlt, EventReport.value_raw, takeWhile_string hclean, htm, hreported, hprevious,
    hname, printed_of_lt htarget, fillCorrelationId_correlationId hs,
    eventDetails_fillCorrelationId, printed_of_lt (lt_of_le_of_lt hdetails (by decide))]
  rfl

/-! ### Which texts are plain -/

theorem decimal_plain {n : Nat} : ∀ b ∈ decimal n, PlainByte b := by
  intro b hb
  have hdigit := decimal_digits b hb
  exact ⟨by omega, by omega, by omega, by omega⟩

theorem padded_plain {width n : Nat} : ∀ b ∈ padded width n, PlainByte b := by
  intro b hb
  rcases List.mem_append.mp hb with hb | hb
  · exact List.eq_of_mem_replicate hb ▸ by decide
  · exact decimal_plain b hb

theorem Tm.text_plain (tm : Tm) : Plain tm.text := by
  have hpadded : ∀ width n, Plain (padded width n) := fun _ _ => plain_of_bytes padded_plain
  have hyear : Plain (if tm.year < 0 then ascii "-" ++ padded 3 tm.year.natAbs
      else padded 4 tm.year.natAbs) := by
    split
    · exact (plain_of_bytes (plainBytes_of_all rfl)).append (hpadded _ _)
    · exact hpadded _ _
  have hdash : Plain (ascii "-") := plain_of_bytes (plainBytes_of_all rfl)
  have hcolon : Plain (ascii ":") := plain_of_bytes (plainBytes_of_all rfl)
  have hdate := (((hyear.append hdash).append (hpadded 2 tm.month)).append hdash).append
    (hpadded 2 tm.day)
  have htime := ((((hdate.append (plain_of_bytes (plainBytes_of_all rfl) : Plain (ascii "T"))).append
    (hpadded 2 tm.hour)).append hcolon).append (hpadded 2 tm.min)).append hcolon
  exact (((htime.append (hpadded 2 tm.sec)).append (plain_of_bytes (plainBytes_of_all rfl))).append
    (hpadded 3 0)).append (plain_of_bytes (plainBytes_of_all rfl))

/-- What the texts of the settings must be. -/
structure PlainTexts (s : Settings) (eventType : EventType) : Prop where
  hwid : Plain s.hwidStr
  id : Plain s.ongoingUpdateCorrelationId.str
  /-- an id is made up of target and uuid -/
  uuid : s.ongoingUpdateCorrelationId.str = [] → Plain s.uuidStr
  /-- the end of an update is reported without the tag -/
  tag : eventType ≠ .installationCompleted → Plain s.tag.str

theorem targetName_plain_iff (s : Settings) (version : Version) :
    Plain (targetName s version) ↔ Plain s.hwidStr := by
  rw [targetName, plain_append_bytes_iff decimal_plain]
  exact plain_append_bytes_iff (plainBytes_of_all rfl)

theorem correlationId_plain_iff (s : Settings) (version : Version) :
    Plain s.hwidStr ∧ Plain (correlationId s version) ↔
      Plain s.hwidStr ∧ Plain s.ongoingUpdateCorrelationId.str ∧
        (s.ongoingUpdateCorrelationId.str = [] → Plain s.uuidStr) := by
  refine and_congr_right fun hhwid => ?_
  have htarget := (targetName_plain_iff s version).mpr hhwid
  rw [correlationId]
  split
  · next hid =>
    rw [List.append_assoc]
    constructor
    · intro h
      exact ⟨hid ▸ Plain.nil, fun _ => (h.split (b := 0x2D) (by decide)).2⟩
    · rintro ⟨-, huuid⟩
      exact htarget.append ((plain_bytes_append_iff (plainBytes_of_all rfl)).mpr (huuid hid))
  · next hid => exact ⟨fun h => ⟨h, fun hnil => absurd hnil hid⟩, fun h => h.1⟩

theorem eventDetails_plain_iff (s : Settings) (eventType : EventType)
    (oldVersion newVersion : Version) (success : Bool) :
    Plain (eventDetails s eventType oldVersion newVersion success) ↔
      (eventType ≠ .installationCompleted → Plain s.tag.str) := by
  have hfront : ∀ b ∈ ascii "Updating from v" ++ decimal oldVersion.toNat ++ ascii " to v"
      ++ decimal newVersion.toNat ++ ascii " tag: ", PlainByte b := by
    simp only [List.forall_mem_append]
    exact ⟨⟨⟨⟨plainBytes_of_all rfl, decimal_plain⟩, plainBytes_of_all rfl⟩, decimal_plain⟩,
      plainBytes_of_all rfl⟩
  have hnamed : ∀ text : List Byte, (∀ b ∈ text, PlainByte b) →
      (Plain (ascii "Updating from v" ++ decimal oldVersion.toNat ++ ascii " to v"
        ++ decimal newVersion.toNat ++ ascii " tag: " ++ s.tag.str ++ text) ↔ Plain s.tag.str) :=
    fun text htext => (plain_append_bytes_iff htext).trans (plain_bytes_append_iff hfront)
  cases eventType with
  | installationCompleted =>
    refine iff_of_true ?_ fun hne => absurd rfl hne
    rw [eventDetails]
    split
    · apply plain_of_bytes
      simp only [List.forall_mem_append]
      exact ⟨⟨⟨⟨plainBytes_of_all rfl, decimal_plain⟩, plainBytes_of_all rfl⟩, decimal_plain⟩,
        plainBytes_of_all rfl⟩
    · have hposition : ∀ b ∈ (if s.imagePosition = 1 then ascii "PRIMARY" else ascii "SECONDARY"),
          PlainByte b := by
        split <;> exact plainBytes_of_all rfl
      apply plain_of_bytes
      simp only [List.forall_mem_append]
      exact ⟨⟨⟨⟨⟨⟨plainBytes_of_all rfl, decimal_plain⟩, plainBytes_of_all rfl⟩, decimal_plain⟩,
        plainBytes_of_all rfl⟩, hposition⟩, plainBytes_of_all rfl⟩
  | installationApplied =>
    exact (hnamed _ (plainBytes_of_all rfl)).trans ⟨fun h _ => h, fun h => h (by decide)⟩
  | _ => exact (hnamed _ (plainBytes_of_all rfl)).trans ⟨fun h _ => h, fun h => h (by decide)⟩

/-! ### Well-formed events -/

/-- The payload is complete, with the texts it was made of, and is the JSON of
what was to be said. -/
structure WellFormedEvent (s : Settings) (eventType : EventType) (newVersion : Version)
    (success : Bool) (payload : List Byte) : Prop where
  target : (targetName s (reportedVersion s eventType newVersion)).length
    < aknanoMaxTargetNameLength
  correlationId : (correlationId s (reportedVersion s eventType newVersion)).length
    < aknanoMaxUpdateCorrelationIdLength
  details : (eventDetails s eventType (previousVersion s eventType)
    (reportedVersion s eventType newVersion) success).length < 200
  length : payload.length < 1000
  decodes : ∃ evtUuid deviceTime, evtUuid.length < aknanoMaxUuidLength ∧ deviceTime.length < 50 ∧
    payload = (reportOf s eventType newVersion success evtUuid deviceTime).value.raw ∧
    Decodes payload (reportOf s eventType newVersion success evtUuid deviceTime).value

theorem EventReport.strings_eq (x : EventReport) : x.value.strings =
    [ascii "id", x.evtUuid, ascii "deviceTime", x.deviceTime, ascii "eventType", ascii "id",
      x.eventType.text, ascii "version", ascii "event", ascii "correlationId", x.correlationId,
      ascii "targetName", x.targetName, ascii "version", decimal x.version.toNat, ascii "success",
      ascii "details", x.details] := rfl

/-- Of all the strings of a payload three can fail to be plain. -/
theorem report_plain_iff {evtUuid deviceTime : List Byte} (huuid : Plain evtUuid)
    (htime : Plain deviceTime) (eventType : EventType) (newVersion : Version) (success : Bool) :
    (∀ text ∈ (reportOf s eventType newVersion success evtUuid deviceTime).value.strings,
      Plain text) ↔ PlainTexts s eventType := by
  have hkeys : Plain (ascii "id") ∧ Plain (ascii "deviceTime") ∧ Plain (ascii "eventType") ∧
      Plain (ascii "version") ∧ Plain (ascii "event") ∧ Plain (ascii "correlationId") ∧
      Plain (ascii "targetName") ∧ Plain (ascii "success") ∧ Plain (ascii "details") := by
    refine ⟨?_, ?_, ?_, ?_, ?_, ?_, ?_, ?_, ?_⟩ <;> exact plain_of_bytes (plainBytes_of_all rfl)
  obtain ⟨hid, hdeviceTime, heventType, hversion, hevent, hcorrelationId, htargetName, hsuccess,
    hdetails⟩ := hkeys
  have htype : Plain eventType.text := plain_of_bytes (by cases eventType <;> exact plainBytes_of_all rfl)
  have hnumber : ∀ version : Version, Plain (decimal version.toNat) :=
    fun _ => plain_of_bytes decimal_plain
  rw [EventReport.strings_eq]
  simp only [reportOf, List.forall_mem_cons, huuid, htime, hid, hdeviceTime, heventType, hversion,
    hevent, hcorrelationId, htargetName, hsuccess, hdetails, htype, hnumber, true_and,
    targetName_plain_iff, eventDetails_plain_iff, List.not_mem_nil]
  have hids := correlationId_plain_iff s (reportedVersion s eventType newVersion)
  constructor
  · rintro ⟨hid, hhwid, htag, -⟩
    obtain ⟨-, hstored, huuid⟩ := hids.mp ⟨hhwid, hid⟩
    exact ⟨hhwid, hstored, huuid, htag⟩
  · intro h
    exact ⟨(hids.mpr ⟨h.hwid, h.id, h.uuid⟩).2, h.hwid, h.tag, by rintro _ ⟨⟩⟩

/-- The text of a report is a well-formed event if the settings are plain. -/
theorem wellFormedEvent_iff (hs : StringsEnd s) {evtUuid payload : List Byte} {tm : Tm}
    (hlength : evtUuid.length = 36) (hchars : ∀ b ∈ evtUuid, 0x2D ≤ b ∧ b ≤ 0x46)
    {eventType : EventType} {newVersion : Version} {success : Bool}
    (hpayload : payload = (reportOf s eventType newVersion success evtUuid tm.text).value.raw) :
    WellFormedEvent s eventType newVersion success payload ↔ PlainTexts s eventType := by
  constructor
  · intro h
    obtain ⟨evtUuid', deviceTime', -, -, hraw, hdecodes⟩ := h.decodes
    rw [hraw] at hdecodes
    have hplain := (decodes_raw_iff _).mp hdecodes
    have huuid : Plain evtUuid' := hplain _ (by rw [EventReport.strings_eq]; simp [reportOf])
    have htime : Plain deviceTime' := hplain _ (by rw [EventReport.strings_eq]; simp [reportOf])
    exact (report_plain_iff huuid htime eventType newVersion success).mp hplain
  · intro h
    have hbyte : ∀ b : Byte, 0x2D ≤ b ∧ b ≤ 0x46 → PlainByte b := by decide
    have huuid : Plain evtUuid := plain_of_bytes fun b hb => hbyte b (hchars b hb)
    have hplain := (report_plain_iff huuid tm.text_plain eventType newVersion success).mpr h
    refine ⟨lt_of_le_of_lt (targetName_length_le hs _) (by decide), correlationId_length_lt hs _,
      lt_of_le_of_lt (eventDetails_length_le hs ..) (by decide), ?_, evtUuid, tm.text, ?_,
      lt_of_le_of_lt tm.text_length_le (by decide), hpayload, ?_⟩
    · rw [hpayload]
      exact report_length_lt hs eventType newVersion success hlength tm.text_length_le
    · rw [hlength]
      decide
    · rw [hpayload]
      exact (decodes_raw_iff _).mpr hplain

/-- **Every event is well-formed** whose texts are plain, and no other one.
Power may be lost while it is printed. -/
theorem eventPayload_wellFormed_iff {p : Platform} {e : Env} {s : Settings} (hs : StringsEnd s)
    (htime : ∀ epoch, ∃ tm : Tm, p.timeStr epoch = tm.text) (eventType : EventType)
    (newVersion : Version) (success : Bool) (w : World) :
    wp (fillEventPayload p e s eventType newVersion success)
      (fun r _ => WellFormedEvent s eventType newVersion success r.2 ↔ PlainTexts s eventType)
      (fun _ _ => ∃ t, e.cut t = true) w := by
  refine wp_mono (fillEventPayload_report hs htime eventType newVersion success w) ?_
    fun _ _ h => h
  rintro r w' ⟨evtUuid, tm, hlength, hchars, hpayload⟩
  exact wellFormedEvent_iff hs hlength hchars hpayload

/-! ### Two devices -/

/-- A registered device that follows the tag `main`. -/
def followsMain : Settings :=
  { Settings.zero with
    hwid := some (ascii "MIMXRT1060-EVK")
    tag := (CharArray.zero _).store (ascii "main")
    uuid := (CharArray.zero _).store (ascii "00000000-0000-4000-8000-000000000000") }

theorem followsMain_stringsEnd : StringsEnd followsMain where
  tag := by decide
  uuid := by decide
  id := by decide
  hwid := by decide
  hwid_length := by decide

theorem sample_timeStr (epoch : BitVec 64) :
    ∃ tm : Tm, Platform.sample.timeStr epoch = tm.text := by
  refine ⟨⟨2023, 3, 29, 20, 5, 13, by decide, by decide⟩, ?_⟩
  show ascii "2023-03-29T20:05:13.000Z" = _
  decide

theorem eventPayload_followsMain :
    wp (fillEventPayload Platform.sample Env.sample followsMain .downloadStarted 3 true)
      (fun r _ => WellFormedEvent followsMain .downloadStarted 3 true r.2)
      (fun _ _ => ∃ t, Env.sample.cut t = true) (World.factory 1) := by
  have hplain : PlainTexts followsMain .downloadStarted :=
    ⟨plain_of_bytes (plainBytes_of_all rfl), plain_of_bytes (plainBytes_of_all rfl), fun _ => plain_of_bytes (plainBytes_of_all rfl),
      fun _ => plain_of_bytes (plainBytes_of_all rfl)⟩
  refine wp_mono (eventPayload_wellFormed_iff followsMain_stringsEnd sample_timeStr .downloadStarted
    3 true (World.factory 1)) (fun _ _ h => h.mpr hplain) fun _ _ h => h

/-- The same device, when the tag it is to follow has a quotation mark in it. -/
def followsQuoted : Settings :=
  { followsMain with tag := (CharArray.zero _).store (ascii "ma\"in") }

theorem followsQuoted_stringsEnd : StringsEnd followsQuoted :=
  ⟨by decide, followsMain_stringsEnd.uuid, followsMain_stringsEnd.id, followsMain_stringsEnd.hwid,
    followsMain_stringsEnd.hwid_length⟩

/-- A tag as it comes from the configuration, and an event that is not what was
to be said. -/
theorem eventPayload_quoted :
    tomlHandler followsMain (ascii "pacman", ascii "tags", ascii "\"ma\"in\"" ++ [0])
      = some followsQuoted ∧
    wp (fillEventPayload Platform.sample Env.sample followsQuoted .downloadStarted 3 true)
      (fun r _ => ¬ WellFormedEvent followsQuoted .downloadStarted 3 true r.2)
      (fun _ _ => False) (World.factory 1) := by
  have hnot : ¬ PlainTexts followsQuoted .downloadStarted := by
    intro h
    exact absurd ((h.tag (by decide)).plainByte (b := 0x22) (by decide) (by decide)) (by decide)
  refine ⟨rfl, ?_⟩
  refine wp_mono (fillEventPayload_report followsQuoted_stringsEnd sample_timeStr .downloadStarted 3
    true (World.factory 1)) ?_ ?_
  · rintro r w' ⟨evtUuid, tm, hlength, hchars, hpayload⟩ h
    exact hnot ((wellFormedEvent_iff followsQuoted_stringsEnd hlength hchars hpayload).mp h)
  · rintro _ _ ⟨t, hcut⟩
    exact Bool.noConfusion hcut

end AktualizrNano
