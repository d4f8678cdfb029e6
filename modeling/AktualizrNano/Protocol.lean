/-
AktualizrNano/Protocol.lean

The update protocol of the agent, as an abstract machine.  Of the settings it
keeps the two versions and whether there is a correlation id, once as stored
and once in RAM; of the loop it keeps how far the current iteration has come.
Its steps are labelled by the events of the record.

The machine is this development's own statement of what the agent does; that
the code follows it is proved in `Refinement`.  Everything that can go wrong is
a step: settings that cannot be read or written, a bootloader that refuses,
a loss of power in the middle of an installation.
-/
import AktualizrNano.SampleLoop
import AktualizrNano.Trace

namespace AktualizrNano

open CLib NorFlash Trace

/-! ### The machine -/

/-- What the settings sector holds, as a boot reads it. -/
structure Stored where
  applied : Version
  confirmed : Version
  ongoing : Bool
  deriving DecidableEq

/-- What the agent goes by while it runs. -/
structure Ram where
  running : Version
  applied : Version
  confirmed : Version
  ongoing : Bool
  rolledBack : Bool
  /-- the completion handler has run in this boot -/
  finished : Bool
  deriving DecidableEq

/-- How far the current iteration has come. -/
inductive Task
  | idle
  | checking
  /-- refreshed from these metadata; whether a confirmation was refused -/
  | refreshed (metadata : List Byte) (refused : Bool)
  | downloading (target : AknanoTarget)
  | fetched (target : AknanoTarget)
  | closing (target : AknanoTarget) (armed : Bool)

/-- A reset at this point loses nothing but RAM. -/
def Task.Free : Task → Prop
  | .idle | .checking | .refreshed _ _ => True
  | .downloading _ | .fetched _ | .closing _ _ => False

/-- What a loss of power can interrupt at this point: once the refresh is over
and the image confirmed, or refused, the settings are saved; the rest belongs to
an installation. -/
def Task.Busy (b : Boot) : Task → Activity → Prop
  | .refreshed _ refused, .saving => refused = false → b.fallback = none
  | .downloading _, .installing | .fetched _, .installing | .closing _ _, .installing => True
  | _, _ => False

inductive Phase
  | off
  | loading
  | awake (ram : Ram) (task : Task)

def Phase.Free : Phase → Prop
  | .off | .loading => True
  | .awake _ task => task.Free

structure Machine where
  stored : Stored
  boot : Boot
  phase : Phase

/-- A version above this bound is read as 0. -/
def checkedVersion (v : Version) : Version := if v > 999999999 then 0 else v

/-- A build number of `UINT_MAX` is read as 0. -/
def runningVersionOf (buildNum : Version) : Version :=
  if buildNum = 0xFFFFFFFF then 0 else buildNum

/-- What a save of the settings stores. -/
def Ram.stored (r : Ram) : Stored :=
  ⟨checkedVersion r.applied, checkedVersion r.confirmed, r.ongoing⟩

/-- The test of `aknano_init_settings`. -/
def Stored.indicatesRollback (s : Stored) (running : Version) : Bool :=
  s.applied ≠ 0 ∧ s.applied ≠ running ∧ s.ongoing

/-- The settings after a boot that read `s`. -/
def Stored.load (s : Stored) (running : Version) : Ram where
  running := running
  applied := s.applied
  confirmed := s.confirmed
  ongoing := s.ongoing
  rolledBack := s.indicatesRollback running
  finished := false

/-- The update that was last under way has come to its end. -/
def Ram.completed (r : Ram) : Ram :=
  { r with
    applied := if r.rolledBack then r.applied else 0
    confirmed := if r.rolledBack then r.confirmed else r.running
    ongoing := false
    finished := true }

section Steps

variable (p : Platform) (e : Env)

/-- The metadata of a `tuf_refresh` that returned `TUF_SUCCESS`. -/
def Refreshed (metadata : List Byte) : Prop :=
  ∃ t, (e.tufRefresh t).ret = tufSuccess ∧
    metadata = (e.tufRefresh t).userBuffer.takeWhile (· ≠ 0)

/-- A target that the metadata offer to this board. -/
def Offered (metadata : List Byte) (target : AknanoTarget) : Prop :=
  ∃ tag, target = (parseTargetsMetadata p.overflow (e.json metadata)
    (some (aknanoGetBoardName p)) tag .zero).2 ∧ target.version ≠ 0

/-- A save of `ram` that left `s`. -/
def Saved (ram : Ram) (saved : Bool) (s : Stored) : Prop := saved = true → s = ram.stored

/-- The steps of the protocol. -/
inductive Step : Machine → Event → Machine → Prop
  | reset {m : Machine} (hfree : m.phase.Free) :
      Step m (.reset m.boot.pick m.boot.reset.permanent) ⟨m.stored, m.boot.reset, .loading⟩
  | loaded {s read : Stored} {b : Boot} {running : Version} {readsOk : Bool}
      (hrunning : running = runningVersionOf b.running) (hread : readsOk = true → read = s) :
      Step ⟨s, b, .loading⟩ (.loaded readsOk running (read.indicatesRollback running))
        ⟨s, b, .awake (read.load running) .idle⟩
  | iteration {s : Stored} {b : Boot} {ram : Ram} {task : Task} (hfree : task.Free) :
      Step ⟨s, b, .awake ram task⟩ .iteration ⟨s, b, .awake ram .checking⟩
  | refreshed {s : Stored} {b : Boot} {ram : Ram} {metadata : List Byte}
      (hfresh : Refreshed e metadata) :
      Step ⟨s, b, .awake ram .checking⟩ (.refreshed metadata)
        ⟨s, b, .awake ram (.refreshed metadata false)⟩
  | confirmed {s : Stored} {b b' : Boot} {ram : Ram} {metadata : List Byte} {ok : Bool}
      (hboot : b' = if ok then b.confirm else b) :
      Step ⟨s, b, .awake ram (.refreshed metadata false)⟩
        (.confirmed ok b.fallback.isSome b'.permanent)
        ⟨s, b', .awake ram (.refreshed metadata !ok)⟩
  | settled {s : Stored} {b : Boot} {ram : Ram} {metadata : List Byte} {refused : Bool}
      (hperm : refused = false → b.fallback = none) (hfinished : ram.finished = false)
      (hrolled : ram.rolledBack = false) (hreported : ram.confirmed = ram.running) :
      Step ⟨s, b, .awake ram (.refreshed metadata refused)⟩ .settled
        ⟨s, b, .awake { ram with finished := true } (.refreshed metadata refused)⟩
  | completed {s s' : Stored} {b : Boot} {ram : Ram} {metadata : List Byte} {refused saved : Bool}
      (hperm : refused = false → b.fallback = none) (hfinished : ram.finished = false)
      (hdue : ram.rolledBack = true ∨ ram.confirmed ≠ ram.running)
      (hsaved : Saved ram.completed saved s') :
      Step ⟨s, b, .awake ram (.refreshed metadata refused)⟩
        (.completed ram.rolledBack ram.applied saved)
        ⟨s', b, .awake ram.completed (.refreshed metadata refused)⟩
  | install {s : Stored} {b : Boot} {ram : Ram} {metadata : List Byte} {refused : Bool}
      {target : AknanoTarget} (hperm : refused = false → b.fallback = none)
      (hfinished : ram.finished = true) (hoffered : Offered p e metadata target)
      (hnewer : ram.running < target.version) (hother : target.version ≠ ram.applied) :
      Step ⟨s, b, .awake ram (.refreshed metadata refused)⟩ (.install target ram.running)
        ⟨s, b, .awake { ram with ongoing := true } (.downloading target)⟩
  | downloaded {s : Stored} {b : Boot} {ram : Ram} {target : AknanoTarget} {ok : Bool} :
      Step ⟨s, b, .awake ram (.downloading target)⟩ (.downloaded target.version ok ram.applied)
        ⟨s, { b with inactive := if ok then some target.version else none },
          .awake ram (if ok then .fetched target else .closing target false)⟩
  | readyForTest {s : Stored} {b : Boot} {ram : Ram} {target : AknanoTarget} {ok : Bool}
      (hheld : b.inactive = some target.version) :
      Step ⟨s, b, .awake ram (.fetched target)⟩ (.readyForTest target.version ok)
        ⟨s, if ok then b.arm else b,
          .awake { ram with applied := target.version } (.closing target ok)⟩
  | installed {s s' : Stored} {b : Boot} {ram : Ram} {target : AknanoTarget} {armed saved : Bool}
      (hsaved : Saved ram saved s') :
      Step ⟨s, b, .awake ram (.closing target armed)⟩ (.installed target.version armed saved)
        ⟨s', b, if armed then .off else .awake ram .idle⟩
  | cut {s s' : Stored} {b : Boot} {ram : Ram} {task : Task} {activity : Activity}
      (hbusy : task.Busy b activity) :
      Step ⟨s, b, .awake ram task⟩ (.cut activity) ⟨s', b, .off⟩

end Steps

end AktualizrNano
