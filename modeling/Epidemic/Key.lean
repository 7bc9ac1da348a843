import Epidemic.Bytes

namespace Epidemic

structure Key where
  bytes : Bytes
  deriving DecidableEq, Repr

namespace Key

def isEmpty (k : Key) : Bool :=
  k.bytes.isEmpty

def size (k : Key) : Nat :=
  k.bytes.length

def hex (k : Key) : String :=
  Hex.encode k.bytes

def short (k : Key) : String :=
  Hex.encode (k.bytes.take 8)

def label (k : Key) : String :=
  "PeerKey(" ++ k.short ++ ")"

def ofHex (text : Bytes) : Except Hex.Fault Key :=
  (Hex.decode text).map Key.mk

def order (a b : Key) : Ordering :=
  Bytes.order a.bytes b.bytes

end Key

end Epidemic
