namespace Epidemic

structure Instant where
  seconds : Int
  nanos : Nat
  deriving DecidableEq, Repr

namespace Instant

def nanosPerSecond : Nat := 1000000000

def secondsPerDay : Nat := 86400

def firstSecond : Int := -8334601228800

def lastSecond : Int := 8210266876799

def ofSeconds (s : Int) : Instant :=
  ⟨s, 0⟩

def inRange (s : Int) : Bool :=
  firstSecond ≤ s && s ≤ lastSecond

def ofSeconds? (s : Int) : Option Instant :=
  if inRange s then some (ofSeconds s) else none

def isLeap (t : Instant) : Bool :=
  nanosPerSecond ≤ t.nanos

def Valid (t : Instant) : Prop :=
  inRange t.seconds = true ∧
    (t.nanos < nanosPerSecond ∨ (t.nanos < 2 * nanosPerSecond ∧ t.seconds % 60 = 59))

instance (t : Instant) : Decidable t.Valid :=
  inferInstanceAs (Decidable (_ ∧ _))

-- Every instant there can be: nothing keeps a leap second to the end of a minute.
def Representable (t : Instant) : Prop :=
  inRange t.seconds = true ∧ t.nanos < 2 * nanosPerSecond

instance (t : Instant) : Decidable t.Representable :=
  inferInstanceAs (Decidable (_ ∧ _))

def secondOfDay (t : Instant) : Int :=
  t.seconds % secondsPerDay

-- A leap second in between two times of day counts once.
def leapCorrection (later earlier : Instant) : Int :=
  if earlier.secondOfDay < later.secondOfDay ∧ earlier.isLeap then 1
  else if later.secondOfDay < earlier.secondOfDay ∧ later.isLeap then -1
  else 0

def nanosSince (later earlier : Instant) : Int :=
  (later.seconds - earlier.seconds + leapCorrection later earlier) * nanosPerSecond +
    (later.nanos - earlier.nanos)

def secondsSince (later earlier : Instant) : Int :=
  Int.tdiv (nanosSince later earlier) nanosPerSecond

end Instant

end Epidemic
