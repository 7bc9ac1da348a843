import Epidemic.Identity.Edwards
import Epidemic.Identity.Sha512
import Epidemic.Key
import Epidemic.Text.Blank
import Epidemic.Text.Utf8

namespace Epidemic

structure Keypair where
  secret : Bytes
  size_secret : secret.length = 32
  deriving DecidableEq, Repr

namespace Keypair

inductive Fault where
  | invalidLength (found : Nat)
  | invalidEncoding (cause : Hex.Fault)
  deriving DecidableEq, Repr

def Fault.message : Fault → String
  | .invalidLength n => "Invalid key length: expected 32, got " ++ Numeral.decimal n
  | .invalidEncoding cause => "Invalid key encoding: " ++ cause.message

def ofBytes (secret : Bytes) : Except Fault Keypair :=
  if h : secret.length = 32 then .ok ⟨secret, h⟩ else .error (.invalidLength secret.length)

def ofHex (text : String) : Except Fault Keypair :=
  match Hex.decode (Text.utf8 (String.ofList (Text.trim text.toList))) with
  | .ok secret => ofBytes secret
  | .error cause => .error (.invalidEncoding cause)

def scalar (k : Keypair) : Nat :=
  let n := Edwards.ofLittleEndian ((Sha512.hash k.secret).take 32)
  n % Nat.pow 2 254 / 8 * 8 + Nat.pow 2 254

def publicKey (k : Keypair) : Key :=
  ⟨Edwards.encode (Edwards.scale 255 k.scalar Edwards.base)⟩

end Keypair

end Epidemic
