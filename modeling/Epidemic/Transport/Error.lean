import Epidemic.Wire.Message

namespace Epidemic

inductive MessageFault where
  | undecodable
  | tooLarge (size limit : Nat)
  | unexpected (response : Wire.Response)
  deriving DecidableEq, Repr

inductive TransportError where
  | invalidLimits (cause : String)
  | connectionFailed (target : Endpoint) (cause : String)
  | timedOut (target : Endpoint)
  | unreachable (target : Endpoint)
  | sendFailed (cause : String)
  | receiveFailed (cause : String)
  | rejected (target : Endpoint) (reason : String)
  | content (fault : MessageFault)
  deriving DecidableEq, Repr

def Wire.Response.account : Wire.Response → String
  | .synAck answer =>
      "SynAck with " ++ Numeral.decimal answer.fresh.length ++ " new and " ++
        Numeral.decimal answer.wanted.length ++ " unknown peers"
  | .empty => "Empty"
  | .rejected reason => "Rejected(" ++ Text.quoted reason ++ ")"

def MessageFault.message : MessageFault → String
  | .undecodable => "Deserialization failed"
  | .tooLarge size limit =>
      "Message too large: " ++ Numeral.decimal size ++ " bytes (limit " ++
        Numeral.decimal limit ++ ")"
  | .unexpected response => "Unexpected response: " ++ response.account

namespace TransportError

def message : TransportError → String
  | .invalidLimits cause => "Invalid configuration: " ++ cause
  | .connectionFailed a cause => "Connection to " ++ a.text ++ " failed: " ++ cause
  | .timedOut a => "Timed out talking to " ++ a.text
  | .unreachable a => "Peer " ++ a.text ++ " is unreachable"
  | .sendFailed cause => "Send failed: " ++ cause
  | .receiveFailed cause => "Receive failed: " ++ cause
  | .rejected a reason => "Peer " ++ a.text ++ " rejected the request: " ++ reason
  | .content fault => fault.message

end TransportError

structure Limits where
  connectMs : Nat := 2000
  messageMs : Nat := 5000
  frameSize : Nat := 4 * 1024 * 1024
  deriving DecidableEq, Repr

def Limits.validate (l : Limits) : Except TransportError Unit :=
  if l.connectMs = 0 ∨ l.messageMs = 0 then .error (.invalidLimits "timeouts must be non-zero")
  else if l.frameSize = 0 then .error (.invalidLimits "max_frame_size cannot be 0")
  else .ok ()

end Epidemic
