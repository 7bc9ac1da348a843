import Epidemic.Network
import Epidemic.Proofs.Transport.Frame
import Epidemic.Proofs.Wire.Message
import Epidemic.Transport.Switchboard

namespace Epidemic

open Epidemic.Frame (Fits frame)
open Wire (Syn SynAck Ack Request Response)

variable {σ : Type}

namespace Service

def recorded (service : Service σ) : Service (σ × List Request) where
  synchronize syn s :=
    let (answer, after) := service.synchronize syn s.1
    (answer, after, s.2 ++ [.synchronize syn])
  acknowledge ack s := (service.acknowledge ack s.1, s.2 ++ [.acknowledge ack])

@[simp] theorem respond_synchronize (service : Service σ) (syn : Syn) (s : σ) :
    service.respond (.synchronize syn) s =
      (.synAck (service.synchronize syn s).1, (service.synchronize syn s).2) := rfl

@[simp] theorem respond_acknowledge (service : Service σ) (ack : Ack) (s : σ) :
    service.respond (.acknowledge ack) s = (.empty, service.acknowledge ack s) := rfl

theorem respond_ne_rejected (service : Service σ) (request : Request) (s : σ) (reason : String) :
    (service.respond request s).1 ≠ .rejected reason := by
  cases request <;> simp [respond]

theorem serve_eq (service : Service σ) {limit : Nat} {stream payload : Bytes}
    (arrived : (Frame.read limit stream).1 = .ok payload) (s : σ) :
    service.serve limit stream s =
      (if Fits limit (service.respondTo payload s).1.toBytes then
          frame (service.respondTo payload s).1.toBytes
        else [],
        (service.respondTo payload s).2) := by
  simp only [serve, arrived]
  split
  · rename_i h
    by_cases fits : Fits limit (service.respondTo payload s).1.toBytes
    · rw [Frame.write_of_fits fits] at h
      rw [if_pos fits, Except.ok.inj h]
    · rw [Frame.write_of_not_fits fits] at h
      cases h
  · rename_i h
    by_cases fits : Fits limit (service.respondTo payload s).1.toBytes
    · rw [Frame.write_of_fits fits] at h
      cases h
    · rw [if_neg fits]

theorem respondTo_toBytes (service : Service σ) {limit : Nat} {request : Request}
    (fits : Fits limit request.toBytes) (s : σ) :
    service.respondTo request.toBytes s = service.respond request s := by
  have short : request.toBytes.length < UInt64.size := Nat.lt_trans fits.2 (by decide)
  have back := Request.ofBytes?_toBytes short []
  rw [List.append_nil] at back
  rw [respondTo, back]

theorem respondTo_of_undecodable (service : Service σ) {payload : Bytes}
    (undecodable : Request.ofBytes? payload = none) (s : σ) :
    service.respondTo payload s = (.rejected "Deserialization failed", s) := by
  rw [respondTo, undecodable]
  rfl

end Service

namespace Line

variable {limit : Nat} {target : Endpoint} {request : Request}

theorem call_of_fits (serve : Bytes → σ → Bytes × σ) (fits : Fits limit request.toBytes) (s : σ) :
    (served serve).call limit target request s =
      (readResponse limit target (serve (frame request.toBytes) s).1,
        (serve (frame request.toBytes) s).2) := by
  simp only [call, Frame.write_of_fits fits]

theorem call_of_not_fits (serve : Bytes → σ → Bytes × σ) (beyond : ¬Fits limit request.toBytes)
    (s : σ) :
    (served serve).call limit target request s =
      (.error (.content (.tooLarge request.toBytes.length limit)), s) := by
  simp only [call, Frame.write_of_not_fits beyond]

theorem call_serve (target : Endpoint) (service : Service σ) (fits : Fits limit request.toBytes)
    (s : σ) :
    (served (service.serve limit)).call limit target request s =
      (if Fits limit (service.respond request s).1.toBytes then .ok (service.respond request s).1
        else .error (.receiveFailed "unexpected end of file"),
        (service.respond request s).2) := by
  have arrived : (Frame.read limit (frame request.toBytes)).1 = .ok request.toBytes := by
    have whole := Frame.read_frame fits []
    rw [List.append_nil] at whole
    rw [whole]
  rw [call_of_fits _ fits, service.serve_eq arrived, service.respondTo_toBytes fits]
  by_cases answered : Fits limit (service.respond request s).1.toBytes
  · have short : (service.respond request s).1.toBytes.length < UInt64.size :=
      Nat.lt_trans answered.2 (by decide)
    have back := Response.ofBytes?_toBytes short []
    have whole := Frame.read_frame answered []
    rw [List.append_nil] at back whole
    simp only [if_pos answered, readResponse, whole, back]
    cases given : (service.respond request s).1 with
    | rejected reason => exact absurd given (service.respond_ne_rejected request s reason)
    | synAck _ => rfl
    | empty => rfl
  · rw [if_neg answered, if_neg answered]
    rfl

theorem readResponse_ok {stream payload : Bytes} {response : Response}
    (arrived : (Frame.read limit stream).1 = .ok payload) :
    readResponse limit target stream = .ok response ↔
      Response.ofBytes? payload = some response ∧ ∀ reason, response ≠ .rejected reason := by
  simp only [readResponse, arrived]
  cases Response.ofBytes? payload with
  | none => simp
  | some found =>
      cases found with
      | rejected reason =>
          constructor
          · intro h
            cases h
          · rintro ⟨same, kind⟩
            exact absurd (Option.some.inj same).symm (kind reason)
      | synAck answer =>
          simp only [Except.ok.injEq, Option.some.injEq, iff_self_and]
          rintro rfl reason ⟨⟩
      | empty =>
          simp only [Except.ok.injEq, Option.some.injEq, iff_self_and]
          rintro rfl reason ⟨⟩

theorem synchronize_ok (line : Line σ) (syn : Syn) (s : σ) (answer : SynAck) :
    (line.synchronize limit target syn s).1 = .ok answer ↔
      (line.call limit target (.synchronize syn) s).1 = .ok (.synAck answer) := by
  unfold synchronize
  split <;> rename_i h <;> simp_all

theorem acknowledge_ok (line : Line σ) (ack : Ack) (s : σ) :
    (line.acknowledge limit target ack s).1 = .ok () ↔
      (line.call limit target (.acknowledge ack) s).1 = .ok .empty := by
  unfold acknowledge
  split <;> rename_i h <;> simp_all

end Line

namespace Switchboard

variable {b : Switchboard σ} {target : Endpoint} {service : Service σ}

theorem synchronize_of_service (routed : b.service target = .ok service) (syn : Syn) (s : σ) :
    b.synchronize target syn s =
      (.ok (service.synchronize syn s).1, (service.synchronize syn s).2) := by
  simp only [synchronize, routed]

theorem acknowledge_of_service (routed : b.service target = .ok service) (ack : Ack) (s : σ) :
    b.acknowledge target ack s = (.ok (), service.acknowledge ack s) := by
  simp only [acknowledge, routed]

end Switchboard

structure Line.Follows {α : Type} (limit : Nat) (request : Request) (answer : Response) (before : σ)
    (direct called : Except TransportError α × σ) : Prop where
  delivered : Fits limit request.toBytes → Fits limit answer.toBytes → called = direct
  refused : ¬Fits limit request.toBytes →
    called = (.error (.content (.tooLarge request.toBytes.length limit)), before)
  lost : Fits limit request.toBytes → ¬Fits limit answer.toBytes →
    ∃ e, called = (.error e, direct.2)

def Line.Hears (limit : Nat) (stream : Bytes) (response : Response) : Prop :=
  ∃ payload, (Frame.read limit stream).1 = .ok payload ∧ Response.ofBytes? payload = some response

namespace Line

variable {limit : Nat} {target : Endpoint}

theorem readResponse_ok_iff {stream : Bytes} {response : Response}
    (kind : ∀ reason, response ≠ .rejected reason) :
    readResponse limit target stream = .ok response ↔ Hears limit stream response := by
  constructor
  · intro h
    cases arrived : (Frame.read limit stream).1 with
    | error e => simp [readResponse, arrived] at h
    | ok payload => exact ⟨payload, arrived, ((readResponse_ok arrived).mp h).1⟩
  · rintro ⟨payload, arrived, decoded⟩
    exact (readResponse_ok arrived).mpr ⟨decoded, kind⟩

theorem synchronize_follows (service : Service σ) (syn : Syn) (s : σ) :
    Follows limit (.synchronize syn) (.synAck (service.synchronize syn s).1) s
      (.ok (service.synchronize syn s).1, (service.synchronize syn s).2)
      ((served (service.serve limit)).synchronize limit target syn s) where
  delivered fits answered := by
    have called := call_serve target service fits s
    rw [Service.respond_synchronize, if_pos answered] at called
    simp only [synchronize, called]
  refused beyond := by
    simp only [synchronize, call_of_not_fits _ beyond]
  lost fits unanswered := by
    have called := call_serve target service fits s
    rw [Service.respond_synchronize, if_neg unanswered] at called
    exact ⟨_, by simp only [synchronize, called]; rfl⟩

theorem acknowledge_follows (service : Service σ) (ack : Ack) (s : σ) :
    Follows limit (.acknowledge ack) .empty s (.ok (), service.acknowledge ack s)
      ((served (service.serve limit)).acknowledge limit target ack s) where
  delivered fits answered := by
    have called := call_serve target service fits s
    rw [Service.respond_acknowledge, if_pos answered] at called
    simp only [acknowledge, called]
  refused beyond := by
    simp only [acknowledge, call_of_not_fits _ beyond]
  lost fits unanswered := by
    have called := call_serve target service fits s
    rw [Service.respond_acknowledge, if_neg unanswered] at called
    exact ⟨_, by simp only [acknowledge, called]; rfl⟩

end Line

theorem Service.calls_over_streams (service : Service σ) (limit : Nat) (target : Endpoint)
    (board : Switchboard (σ × List Request))
    (routed : board.service target = .ok service.recorded) (s : σ) (log : List Request) :
    let line := Line.served (service.recorded.serve limit)
    (∀ syn,
      let request := Request.synchronize syn
      let answer := (service.synchronize syn s).1
      let direct := board.synchronize target syn (s, log)
      direct = (.ok answer, (service.synchronize syn s).2, log ++ [request]) ∧
        Line.Follows limit request (.synAck answer) (s, log) direct
          (line.synchronize limit target syn (s, log))) ∧
      (∀ ack,
        let request := Request.acknowledge ack
        let direct := board.acknowledge target ack (s, log)
        direct = (.ok (), service.acknowledge ack s, log ++ [request]) ∧
          Line.Follows limit request .empty (s, log) direct
            (line.acknowledge limit target ack (s, log))) ∧
      (∀ stream payload, (Frame.read limit stream).1 = .ok payload →
        Request.ofBytes? payload = none →
          let answer := Response.rejected "Deserialization failed"
          service.recorded.respondTo payload (s, log) = (answer, s, log) ∧
            service.recorded.serve limit stream (s, log) =
              (if Fits limit answer.toBytes then frame answer.toBytes else [], s, log)) ∧
      (∀ stream e, (Frame.read limit stream).1 = .error e →
        service.recorded.serve limit stream (s, log) = ([], s, log)) ∧
      ∀ serve : Bytes → σ → Bytes × σ,
        (∀ syn answer, Fits limit (Request.synchronize syn).toBytes →
          (((Line.served serve).synchronize limit target syn s).1 = .ok answer ↔
            Line.Hears limit (serve (frame (Request.synchronize syn).toBytes) s).1
              (.synAck answer))) ∧
          ∀ ack, Fits limit (Request.acknowledge ack).toBytes →
            (((Line.served serve).acknowledge limit target ack s).1 = .ok () ↔
              Line.Hears limit (serve (frame (Request.acknowledge ack).toBytes) s).1 .empty) := by
  intro line
  refine ⟨fun syn => ?_, fun ack => ?_, fun stream payload arrived undecodable => ?_,
    fun stream e failed => ?_, fun serve => ⟨fun syn answer fits => ?_, fun ack fits => ?_⟩⟩
  · intro request answer direct
    have same : direct = _ := Switchboard.synchronize_of_service routed syn (s, log)
    refine ⟨same, ?_⟩
    rw [same]
    exact Line.synchronize_follows service.recorded syn (s, log)
  · intro request direct
    have same : direct = _ := Switchboard.acknowledge_of_service routed ack (s, log)
    refine ⟨same, ?_⟩
    rw [same]
    exact Line.acknowledge_follows service.recorded ack (s, log)
  · have answered := service.recorded.respondTo_of_undecodable undecodable (s, log)
    refine ⟨answered, ?_⟩
    rw [serve_eq _ arrived, answered]
  · simp only [serve, failed]
  · rw [Line.synchronize_ok, Line.call_of_fits serve fits]
    exact Line.readResponse_ok_iff (by simp)
  · rw [Line.acknowledge_ok, Line.call_of_fits serve fits]
    exact Line.readResponse_ok_iff (by simp)

theorem Service.calls_over_streams_lost :
    let service : Service Nat :=
      ⟨fun syn n => (⟨syn.initiator, syn.receiver, syn.known, syn.known⟩, n + 1), fun _ n => n + 1⟩
    let target : Endpoint := .v4 ⟨10, 0, 0, 1⟩ 7000
    let board : Switchboard (Nat × List Request) := ⟨[(target, service.recorded)], []⟩
    let record := Wire.Record.ofAddress target (.ofSeconds 100)
    let syn : Syn := ⟨record, record, [record, record]⟩
    let line (limit : Nat) := Line.served (service.recorded.serve limit)
    board.service target = .ok service.recorded ∧
      (line 200).synchronize 200 target syn (0, []) = board.synchronize target syn (0, []) ∧
      (∃ e, (line 80).synchronize 80 target syn (0, []) = (.error e, 1, [.synchronize syn])) ∧
      ((line 60).synchronize 60 target syn (0, [])).2 = (0, []) := by
  intro service target board record syn line
  have routed : board.service target = .ok service.recorded := rfl
  obtain ⟨direct, wide⟩ := (service.calls_over_streams 200 target board routed 0 []).1 syn
  obtain ⟨-, narrow⟩ := (service.calls_over_streams 80 target board routed 0 []).1 syn
  obtain ⟨-, tiny⟩ := (service.calls_over_streams 60 target board routed 0 []).1 syn
  obtain ⟨e, lost⟩ := narrow.lost (by decide +kernel) (by decide +kernel)
  refine ⟨routed, wide.delivered (by decide +kernel) (by decide +kernel), ⟨e, ?_⟩, ?_⟩
  · rw [lost, direct]
    rfl
  · rw [tiny.refused (by decide +kernel)]

variable {size : Nat}

def Route.service (r : Route size) (address : Endpoint) : Service (Network size) where
  synchronize body w :=
    let (w, answer) := w.serveSyn address r body
    (answer, w)
  acknowledge body w := w.serveAck r body

def Network.switchboard (w : Network size) : Switchboard (Network size) where
  services := w.routes.map fun (address, r) => (address, r.service address)
  unreachable := w.unreachable

theorem Network.service_switchboard (w : Network size) (address : Endpoint) :
    w.switchboard.service address = (w.route address).map fun r => r.service address := by
  have lookup (routes : List (Endpoint × Route size)) :
      (routes.map fun (a, r) => (a, r.service a)).lookup address =
        (routes.lookup address).map fun r => r.service address := by
    induction routes with
    | nil => rfl
    | cons entry routes ih =>
        obtain ⟨a, r⟩ := entry
        simp only [List.map_cons, List.lookup_cons, ih]
        by_cases same : address == a
        · rw [same]
          rw [eq_of_beq same]
          rfl
        · rw [Bool.not_eq_true] at same
          rw [same]
  simp only [Switchboard.service, switchboard, Network.route, lookup]
  split
  · rfl
  · cases w.routes.lookup address <;> rfl

end Epidemic
