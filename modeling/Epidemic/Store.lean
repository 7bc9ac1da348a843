import Epidemic.Identity.Keypair
import Epidemic.Wire.Stored

namespace Epidemic

structure Store where
  entries : List (Bytes × Bytes)
  ascending : entries.Pairwise fun e f => e.1.Before f.1
  deriving DecidableEq, Repr

namespace Store

inductive Fault where
  | openFailed (cause : String)
  | badPeer (cause : Wire.Fault)
  | badSecret (cause : Keypair.Fault)
  deriving DecidableEq, Repr

def Fault.message : Fault → String
  | .openFailed cause => "Failed to open database: " ++ cause
  | .badPeer cause => "Deserialization failed: " ++ cause.message
  | .badSecret cause => "Deserialization failed: " ++ cause.message

inductive Place where
  | nothing
  | directory (s : Store)
  | file
  deriving DecidableEq, Repr

def empty : Store :=
  ⟨[], .nil⟩

def openAt : Place → Except Fault Store
  | .nothing => .ok empty
  | .directory s => .ok s
  | .file => .error (.openFailed "Not a directory")

def insertEntry (key value : Bytes) : List (Bytes × Bytes) → List (Bytes × Bytes)
  | [] => [(key, value)]
  | (k, v) :: rest =>
      match Bytes.order key k with
      | .lt => (key, value) :: (k, v) :: rest
      | .eq => (key, value) :: rest
      | .gt => (k, v) :: insertEntry key value rest

theorem mem_insertEntry {key value : Bytes} {es : List (Bytes × Bytes)} {e : Bytes × Bytes}
    (h : e ∈ insertEntry key value es) : e = (key, value) ∨ e ∈ es := by
  induction es with
  | nil => exact .inl (List.mem_singleton.mp h)
  | cons f es ih =>
      simp only [insertEntry] at h
      split at h
      · exact List.mem_cons.mp h
      · exact (List.mem_cons.mp h).imp_right (List.mem_cons_of_mem _)
      · rcases List.mem_cons.mp h with rfl | h
        · exact .inr (List.mem_cons_self ..)
        · exact (ih h).imp_right (List.mem_cons_of_mem _)

theorem ascending_insertEntry {key value : Bytes} {es : List (Bytes × Bytes)}
    (h : es.Pairwise fun e f => e.1.Before f.1) :
    (insertEntry key value es).Pairwise fun e f => e.1.Before f.1 := by
  induction es with
  | nil => exact List.pairwise_singleton ..
  | cons f es ih =>
      obtain ⟨first, rest⟩ := List.pairwise_cons.mp h
      simp only [insertEntry]
      split
      · rename_i before
        refine .cons (fun e he => ?_) h
        rcases List.mem_cons.mp he with rfl | he
        · exact before
        · exact Bytes.Before.trans before (first e he)
      · rename_i same
        rw [Bytes.eq_of_order_eq same]
        exact .cons first rest
      · rename_i after
        refine .cons (fun e he => ?_) (ih rest)
        rcases mem_insertEntry he with rfl | he
        · exact Bytes.before_of_order_gt after
        · exact first e he

def put (s : Store) (key value : Bytes) : Store :=
  ⟨insertEntry key value s.entries, ascending_insertEntry s.ascending⟩

def delete (s : Store) (key : Bytes) : Store :=
  ⟨s.entries.filter fun e => e.1 ≠ key, s.ascending.filter _⟩

def get? (s : Store) (key : Bytes) : Option Bytes :=
  s.entries.lookup key

def peerTag : Bytes :=
  [0x70, 0x65, 0x65, 0x72, 0x3a]

def secretKey : Bytes :=
  [0x69, 0x64, 0x65, 0x6e, 0x74, 0x69, 0x74, 0x79, 0x3a, 0x73, 0x65, 0x63, 0x72, 0x65, 0x74]

def isPeerKey (key : Bytes) : Bool :=
  peerTag.isPrefixOf key

def peerKey (k : Key) : Bytes :=
  peerTag ++ k.bytes

def peerEntries (s : Store) : List (Bytes × Bytes) :=
  s.entries.filter fun e => isPeerKey e.1

def peerCount (s : Store) : Nat :=
  s.peerEntries.length

def change (s : Store) (c : Bytes × Option Bytes) : Store :=
  match c.2 with
  | some value => s.put c.1 value
  | none => s.delete c.1

def apply (s : Store) (changes : List (Bytes × Option Bytes)) : Store :=
  changes.foldl change s

def save (s : Store) (peers : List Peer) : Store × Nat :=
  let remote := peers.filter fun p => !p.isSelf
  let removals := s.peerEntries.map fun e => (e.1, none)
  let writes := remote.map fun p => (peerKey p.key, some (Wire.Format.peer.write p))
  (s.apply (removals ++ writes), remote.length)

def load (s : Store) : Except Fault (List Peer) :=
  s.peerEntries.mapM fun e => (Wire.Format.peer.decode e.2).mapError .badPeer

def keypair (s : Store) (fresh : Keypair) : Store × Except Fault Keypair :=
  match s.get? secretKey with
  | some secret => (s, (Keypair.ofBytes secret).mapError .badSecret)
  | none => (s.put secretKey fresh.secret, .ok fresh)

end Store

end Epidemic
