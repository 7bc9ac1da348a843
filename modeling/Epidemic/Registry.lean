import Epidemic.Registry.Roster

namespace Epidemic

structure Registry extends Roster where
  sound : toRoster.Sound
  deriving DecidableEq, Repr

namespace Registry

def ofSelf (owned : Peer) : Registry :=
  ⟨.ofSelf owned, .ofSelf owned⟩

def insert (r : Registry) (p : Peer) : Except Fault Registry :=
  (r.toRoster.insert p).2.map fun _ => ⟨(r.toRoster.insert p).1, r.sound.insert p⟩

def update (r : Registry) (p : Peer) : Except Fault Registry :=
  (r.toRoster.update p).2.map fun _ => ⟨(r.toRoster.update p).1, r.sound.update p⟩

def merge (r : Registry) (candidate : Peer) (allowInsert : Bool) (rule : Peer → Peer → Bool) :
    Registry × Outcome :=
  (⟨(r.toRoster.merge candidate allowInsert rule).1, r.sound.merge candidate allowInsert rule⟩,
    (r.toRoster.merge candidate allowInsert rule).2)

def addSeed (r : Registry) (seed : Endpoint) : Registry :=
  ⟨r.toRoster.addSeed seed, r.sound.addSeed seed⟩

end Registry

end Epidemic
