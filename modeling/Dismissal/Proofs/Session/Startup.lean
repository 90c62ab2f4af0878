import Dismissal.Session.Basic

/-!
# Starting a service

What a service is made of asks something of its setup: some time between two purges, room for an
item, a lifetime that time arithmetic knows, and a channel of at least one and at most half of 64
bits of events. Variables can say any number of 64 bits. Of the first three both ends are seen to:
no sweep goes by zero milliseconds, no cache is without room, and lifetimes above the longest span
count as that one. Of a channel the lower end alone is: a number in the upper half of 64 bits is
asked for as it stands, and the service does not start.

Whether a backend opens is another matter: its files may be out of reach, what is given as an
address may not be one, and a table knows no patience above `Place.maxPatience`, though variables
can ask for more. Nothing is said here of a service whose backend does not open, and memory is taken
to be there for all the events of a channel.

* `Place.sane_ofStorage`: whatever the variables say, a cache that they ask for can be had.
* `Setup.admissible_ofSettings_iff`: which variables ask for a channel that cannot be had.
* `Session.start_ofLookup`: once its backend is open, nothing but such a channel stops a service.
-/

namespace Dismissal

namespace Text

theorem le_of_whole? {limit n : Nat} {cs : List Char} (h : whole? limit cs = some n) :
    n ≤ limit := by
  simp only [whole?, Option.ite_none_left_eq_some, Option.ite_none_right_eq_some,
    Option.some.injEq] at h
  obtain ⟨-, hle, rfl⟩ := h
  exact hle

end Text

theorem Span.cap_le_longest (d : Span) : d.cap.nanos ≤ longest.nanos := by
  unfold cap
  split
  · assumption
  · exact Nat.le_refl _

namespace Settings

variable {lookup : String → Option String} {limit default : Nat}

/-- What a variable says is within the limit of its kind. -/
theorem numberOr_le (name : String) (h : default ≤ limit) :
    numberOr lookup name limit default ≤ limit := by
  unfold numberOr
  cases lookup name with
  | none => exact h
  | some raw =>
    show (Text.whole? limit (Text.trim raw).toList).getD default ≤ limit
    cases hwhole : Text.whole? limit (Text.trim raw).toList with
    | none => exact h
    | some n => exact Text.le_of_whole? hwhole

/-- Nothing but what a variable says can be above the default. -/
theorem lt_numberOr_iff (name : String) {bound : Nat} (h : default ≤ bound) :
    bound < numberOr lookup name limit default ↔
      ∃ raw n, lookup name = some raw ∧ Text.whole? limit (Text.trim raw).toList = some n ∧
        bound < n := by
  have hdefault : ¬bound < default := Nat.not_lt.2 h
  unfold numberOr
  cases lookup name with
  | none => simp [hdefault]
  | some raw =>
    cases hwhole : Text.whole? limit (Text.trim raw).toList with
    | none => simp [hwhole, hdefault]
    | some n => simp [hwhole]

/-- The variables ask for a channel of more events than half of 64 bits can count. -/
def AsksTooMuch (lookup : String → Option String) : Prop :=
  ∃ raw n, lookup "DISMISSIBLE_EVENT_BUFFER" = some raw ∧
    Text.whole? max64 (Text.trim raw).toList = some n ∧ 9223372036854775807 < n

end Settings

/-! ## Places -/

namespace Place

/-- What a cache asks of a place in memory, and what its sweep does. -/
structure Sane (place : Place) : Prop where
  /-- Some time lies between two purges. -/
  sweep : ∀ {capacity lifetime every}, place = memory capacity lifetime (some every) → 0 < every
  /-- There is room for an item. -/
  room : ∀ {capacity lifetime sweep}, place = memory capacity lifetime sweep →
    1 ≤ (freshCache capacity lifetime sweep).capacity
  /-- A lifetime is 64 bits of milliseconds at most, and counts as a span of time arithmetic. -/
  lifetime : ∀ {capacity lifetime sweep}, place = memory capacity lifetime sweep →
    lifetime.nanos ≤ (Span.ofMillis Settings.max64).nanos ∧
      lifetime.cap.nanos ≤ Span.longest.nanos

theorem capacity_freshCache (capacity : Nat) (lifetime : Span) (sweep : Option Nat) :
    (freshCache capacity lifetime sweep).capacity = max capacity 1 := by
  unfold freshCache Cache.startSweep
  split <;> rfl

theorem Sane.memory {capacity ttl : Nat} {sweep : Option Nat} (httl : ttl ≤ Settings.max64)
    (hsweep : ∀ every, sweep = some every → 0 < every) :
    Sane (.memory capacity (Span.ofMillis ttl) sweep) where
  sweep h := by
    cases h
    exact hsweep _ rfl
  room _ := by
    rw [capacity_freshCache]
    exact Nat.le_max_right ..
  lifetime h := by
    cases h
    exact ⟨Nat.mul_le_mul_right _ httl, Span.cap_le_longest _⟩

theorem Sane.tree (path : String) : Sane (.tree path) := ⟨nofun, nofun, nofun⟩

theorem Sane.table (url : String) (patience : Nat) : Sane (.table url patience) :=
  ⟨nofun, nofun, nofun⟩

/-- **Whatever the variables say, a cache that they ask for can be had.** -/
theorem sane_ofStorage (lookup : String → Option String) :
    Sane (ofStorage (Settings.ofLookup lookup).storage) := by
  unfold Settings.ofLookup Settings.storageOf
  split
  · exact .tree ..
  · exact .table ..
  · refine .memory (Settings.numberOr_le _ (by decide)) fun every h => ?_
    split at h
    · cases h
    · rename_i hpos
      cases h
      exact Nat.pos_of_ne_zero hpos

end Place

/-! ## Channels -/

namespace Setup

variable {lookup : String → Option String} {disk : Disk}

theorem place_ofSettings (settings : Settings) :
    (ofSettings settings disk).place = .ofStorage settings.storage := rfl

/-- The cache of a service of which nothing is said. -/
def defaultCache : Cache := Place.freshCache 5000 (.ofMillis 21600000) none

theorem opens_default {settings : Settings} (h : settings.storage = .memoryDefault) :
    (ofSettings settings disk).place.start disk {} = .ok (.cache defaultCache) := by
  rw [place_ofSettings, h]
  rfl

/-- **A channel can be had unless the variables ask for too much of it.** -/
theorem admissible_ofSettings_iff :
    Channel.Admissible (ofSettings (.ofLookup lookup) disk).buffer ↔
      ¬Settings.AsksTooMuch lookup := by
  have hbuffer : (ofSettings (.ofLookup lookup) disk).buffer =
      max (Settings.ofLookup lookup).eventBuffer 1 := rfl
  have htoo : 9223372036854775807 < (Settings.ofLookup lookup).eventBuffer ↔
      Settings.AsksTooMuch lookup := Settings.lt_numberOr_iff _ (by decide)
  rw [hbuffer, ← htoo, Channel.Admissible]
  omega

end Setup

namespace Session

variable {setup : Setup}

/-- What becomes of a service whose backend opens. -/
theorem start_of_opened {backend : Backend}
    (h : setup.place.start setup.disk setup.seed = .ok backend) :
    (Channel.Admissible setup.buffer → ∃ s, start setup = .ok s ∧ s.bench.backend = backend) ∧
      (¬Channel.Admissible setup.buffer → start setup = .error (.capacity setup.buffer)) := by
  unfold start
  rw [h]
  exact ⟨fun hbuffer => ⟨_, if_pos hbuffer, rfl⟩, fun hbuffer => if_neg hbuffer⟩

/-- **A service whose backend opens starts on it unless the variables ask for a channel of 2^63 or
more events.** A cache that they ask for has room for an item, a lifetime that time arithmetic
knows, and some time between two purges if there are any. What may keep a backend from opening, such
as too much patience asked of a table, is left out, and so is the memory that a channel takes. -/
theorem start_ofLookup (lookup : String → Option String) (disk : Disk) :
    let setup := Setup.ofSettings (.ofLookup lookup) disk
    setup.place.Sane ∧
      (Channel.Admissible setup.buffer ↔ ¬Settings.AsksTooMuch lookup) ∧
      ∀ backend, setup.place.start setup.disk setup.seed = .ok backend →
        (¬Settings.AsksTooMuch lookup → ∃ s, start setup = .ok s ∧ s.bench.backend = backend) ∧
          (Settings.AsksTooMuch lookup → start setup = .error (.capacity setup.buffer)) := by
  intro setup
  have hplace : setup.place.Sane := by
    rw [Setup.place_ofSettings]
    exact Place.sane_ofStorage lookup
  have hchannel : Channel.Admissible setup.buffer ↔ ¬Settings.AsksTooMuch lookup :=
    Setup.admissible_ofSettings_iff
  refine ⟨hplace, hchannel, fun backend hopen => ?_⟩
  obtain ⟨hstarts, hstops⟩ := start_of_opened hopen
  exact ⟨fun hfew => hstarts (hchannel.2 hfew), fun hmany => hstops fun h => hchannel.1 h hmany⟩

/-- A disk with nothing on it. -/
def emptyDisk : Disk := .ofFolder [] [] []

/-- Without any variables a service starts, on a cache. -/
theorem start_ofLookup_unset :
    ∃ s, start (.ofSettings (.ofLookup fun _ => none) emptyDisk) = .ok s ∧
      s.bench.backend = .cache Setup.defaultCache := by
  have hstorage : (Settings.ofLookup fun _ => none).storage = .memoryDefault := by decide +kernel
  have hfew : ¬Settings.AsksTooMuch fun _ => none := fun ⟨_, _, hraw, _⟩ => nomatch hraw
  exact ((start_ofLookup (fun _ => none) emptyDisk).2.2 _ (Setup.opens_default hstorage)).1 hfew

/-- Variables that ask for a channel of 2^63 events, and for nothing else. -/
def hugeBuffer (name : String) : Option String :=
  if name = "DISMISSIBLE_EVENT_BUFFER" then some "9223372036854775808" else none

/-- **Variables can keep a service from starting.** Its cache opens, its channel cannot be had. -/
theorem not_start_ofLookup : ¬∀ (lookup : String → Option String) (disk : Disk) (size : Nat),
    start (.ofSettings (.ofLookup lookup) disk) ≠ .error (.capacity size) := by
  intro h
  have hmany : Settings.AsksTooMuch hugeBuffer :=
    ⟨"9223372036854775808", 9223372036854775808, rfl, by decide +kernel, by decide⟩
  have hstorage : (Settings.ofLookup hugeBuffer).storage = .memoryDefault := by decide +kernel
  have hnot : ¬Channel.Admissible (Setup.ofSettings (.ofLookup hugeBuffer) emptyDisk).buffer :=
    fun hchannel => Setup.admissible_ofSettings_iff.1 hchannel hmany
  exact h _ _ _ ((start_of_opened (Setup.opens_default hstorage)).2 hnot)

end Session

end Dismissal
