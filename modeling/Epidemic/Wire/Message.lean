import Epidemic.Wire.Record

namespace Epidemic.Wire

structure Syn where
  initiator : Record
  receiver : Record
  known : List Record
  deriving DecidableEq, Repr

structure SynAck where
  initiator : Record
  receiver : Record
  fresh : List Record
  wanted : List Record
  deriving DecidableEq, Repr

structure Ack where
  initiator : Record
  receiver : Record
  details : List Record
  deriving DecidableEq, Repr

inductive Request where
  | synchronize (syn : Syn)
  | acknowledge (ack : Ack)
  deriving DecidableEq, Repr

inductive Response where
  | synAck (answer : SynAck)
  | empty
  | rejected (reason : String)
  deriving DecidableEq, Repr

namespace Format

def syn : Format Syn :=
  (record.pair (record.pair (list record))).iso
    (fun m => (m.initiator, m.receiver, m.known))
    (fun (initiator, receiver, known) => ⟨initiator, receiver, known⟩)

def synAck : Format SynAck :=
  (record.pair (record.pair ((list record).pair (list record)))).iso
    (fun m => (m.initiator, m.receiver, m.fresh, m.wanted))
    (fun (initiator, receiver, fresh, wanted) => ⟨initiator, receiver, fresh, wanted⟩)

def ack : Format Ack :=
  (record.pair (record.pair (list record))).iso
    (fun m => (m.initiator, m.receiver, m.details))
    (fun (initiator, receiver, details) => ⟨initiator, receiver, details⟩)

def request : Format Request where
  write
    | .synchronize m => writeVarint 0 ++ syn.write m
    | .acknowledge m => writeVarint 1 ++ ack.write m
  read bs := do
    let (tag, bs) ← (natural .w32).read bs
    match tag with
    | 0 =>
        let (m, bs) ← syn.read bs
        .ok (.synchronize m, bs)
    | 1 =>
        let (m, bs) ← ack.read bs
        .ok (.acknowledge m, bs)
    | _ => .error .badValue

def response : Format Response where
  write
    | .synAck m => writeVarint 0 ++ synAck.write m
    | .empty => writeVarint 1
    | .rejected reason => writeVarint 2 ++ text.write reason
  read bs := do
    let (tag, bs) ← (natural .w32).read bs
    match tag with
    | 0 =>
        let (m, bs) ← synAck.read bs
        .ok (.synAck m, bs)
    | 1 => .ok (.empty, bs)
    | 2 =>
        let (reason, bs) ← text.read bs
        .ok (.rejected reason, bs)
    | _ => .error .badValue

end Format

def Request.toBytes (m : Request) : Bytes :=
  Format.request.write m

def Request.ofBytes? (bs : Bytes) : Option Request :=
  (Format.request.decode bs).toOption

def Response.toBytes (m : Response) : Bytes :=
  Format.response.write m

def Response.ofBytes? (bs : Bytes) : Option Response :=
  (Format.response.decode bs).toOption

end Epidemic.Wire
