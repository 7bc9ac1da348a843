import Epidemic.Proofs.Transport.Frame

namespace Epidemic.Frame

def number (bytes : Bytes) : Nat :=
  bytes.foldl (fun n b => 256 * n + b.toNat) 0

structure Heads (header : Bytes) (n : Nat) : Prop where
  size : header.length = 4
  spells : number header = n

theorem number_eq (a b c d : UInt8) : number [a, b, c, d] = lengthOf a b c d := by
  simp only [number, List.foldl_cons, List.foldl_nil, lengthOf]
  omega

theorem heads_iff {header : Bytes} {n : Nat} :
    Heads header n ↔ ∃ a b c d, header = [a, b, c, d] ∧ lengthOf a b c d = n := by
  constructor
  · rintro ⟨size, spells⟩
    match header, size with
    | [a, b, c, d], _ => exact ⟨a, b, c, d, rfl, by rw [← number_eq, spells]⟩
  · rintro ⟨a, b, c, d, rfl, rfl⟩
    exact ⟨rfl, number_eq a b c d⟩

theorem heads_lengthBytes {n : Nat} (counted : n < 0x100000000) : Heads (lengthBytes n) n :=
  heads_iff.mpr ⟨_, _, _, _, rfl, lengthOf_lengthBytes counted⟩

theorem Heads.lt {header : Bytes} {n : Nat} (h : Heads header n) : n < 0x100000000 := by
  obtain ⟨a, b, c, d, -, rfl⟩ := heads_iff.mp h
  have := a.toNat_lt
  have := b.toNat_lt
  have := c.toNat_lt
  have := d.toNat_lt
  simp only [lengthOf]
  omega

theorem Heads.eq_lengthBytes {header : Bytes} {n : Nat} (h : Heads header n) :
    header = lengthBytes n := by
  obtain ⟨a, b, c, d, rfl, rfl⟩ := heads_iff.mp h
  have := a.toNat_lt
  have := b.toNat_lt
  have := c.toNat_lt
  have := d.toNat_lt
  simp only [lengthBytes, lengthOf, List.cons.injEq, and_true]
  refine ⟨?_, ?_, ?_, ?_⟩ <;>
  · rw [← UInt8.toNat_inj, UInt8.toNat_ofNat']
    omega

inductive Reading (limit : Nat) : Bytes → Except TransportError Bytes × Bytes → Prop
  | whole {header payload : Bytes} (rest : Bytes) :
      Heads header payload.length → payload.length ≤ limit →
        Reading limit (header ++ payload ++ rest) (.ok payload, rest)
  | beyond {header : Bytes} {n : Nat} (rest : Bytes) :
      Heads header n → limit < n →
        Reading limit (header ++ rest) (.error (.content (.tooLarge n limit)), rest)
  | headless {stream : Bytes} :
      stream.length < 4 →
        Reading limit stream (.error (.receiveFailed "unexpected end of file"), [])
  | short {header part : Bytes} {n : Nat} :
      Heads header n → n ≤ limit → part.length < n →
        Reading limit (header ++ part) (.error (.receiveFailed "early eof"), [])

variable {limit : Nat} {stream payload rest : Bytes} {payloads : List Bytes}

theorem reading_read (limit : Nat) (stream : Bytes) : Reading limit stream (read limit stream) := by
  unfold read
  split
  · rename_i a b c d rest
    have heads : Heads [a, b, c, d] (lengthOf a b c d) := ⟨rfl, number_eq a b c d⟩
    simp only []
    split
    · exact .beyond rest heads ‹_›
    · split
      · exact .short heads (by omega) ‹_›
      · have whole : (rest.take (lengthOf a b c d)).length = lengthOf a b c d := by
          rw [List.length_take]
          omega
        have parts : a :: b :: c :: d :: rest =
            [a, b, c, d] ++ rest.take (lengthOf a b c d) ++ rest.drop (lengthOf a b c d) := by
          simp
        rw [parts]
        exact .whole _ (whole.symm ▸ heads) (by omega)
  · rename_i few
    refine .headless (Nat.lt_of_not_le fun four => ?_)
    match stream, four with
    | a :: b :: c :: d :: rest, _ => exact few a b c d rest rfl

theorem read_iff {result : Except TransportError Bytes × Bytes} :
    read limit stream = result ↔ Reading limit stream result := by
  constructor
  · rintro rfl
    exact reading_read limit stream
  · intro h
    cases h with
    | whole rest heads within =>
        rw [heads.eq_lengthBytes]
        exact read_frame ⟨within, heads.lt⟩ rest
    | beyond rest heads beyond =>
        obtain ⟨a, b, c, d, rfl, rfl⟩ := heads_iff.mp heads
        exact if_pos beyond
    | headless few =>
        match stream, few with
        | [], _ | [_], _ | [_, _], _ | [_, _, _], _ => rfl
    | short heads within short =>
        obtain ⟨a, b, c, d, rfl, rfl⟩ := heads_iff.mp heads
        exact (if_neg (Nat.not_lt.mpr within)).trans (if_pos short)

theorem send_of_fits (h : Fits limit payload) : send limit false payload = .ok (frame payload) := by
  rw [send, write_of_fits h]
  rfl

theorem send_of_not_fits (h : ¬Fits limit payload) (closed : Bool) :
    send limit closed payload = .error (.content (.tooLarge payload.length limit)) := by
  rw [send, write_of_not_fits h]

theorem heads_frame (h : Fits limit payload) :
    ∃ header, Heads header payload.length ∧ frame payload = header ++ payload :=
  ⟨_, heads_lengthBytes h.2, rfl⟩

def put (limit : Nat) (written payload : Bytes) : Bytes × Except TransportError Unit :=
  match send limit false payload with
  | .ok bytes => (written ++ bytes, .ok ())
  | .error e => (written, .error e)

def putAll (limit : Nat) (written : Bytes) : List Bytes → Bytes × Except TransportError Unit
  | [] => (written, .ok ())
  | p :: ps =>
      match put limit written p with
      | (written, .ok ()) => putAll limit written ps
      | (written, .error e) => (written, .error e)

def frames (payloads : List Bytes) : Bytes :=
  payloads.flatMap frame

@[simp] theorem frames_nil : frames [] = [] := rfl

@[simp] theorem frames_cons (payload : Bytes) (payloads : List Bytes) :
    frames (payload :: payloads) = frame payload ++ frames payloads :=
  List.flatMap_cons ..

theorem put_of_fits (h : Fits limit payload) (written : Bytes) :
    put limit written payload = (written ++ frame payload, .ok ()) := by
  rw [put, send_of_fits h]

theorem put_of_not_fits (h : ¬Fits limit payload) (written : Bytes) :
    put limit written payload =
      (written, .error (.content (.tooLarge payload.length limit))) := by
  rw [put, send_of_not_fits h]

theorem put_ok_iff {written after : Bytes} :
    put limit written payload = (after, .ok ()) ↔
      Fits limit payload ∧ ∃ header, Heads header payload.length ∧
        after = written ++ (header ++ payload) := by
  constructor
  · intro h
    by_cases fits : Fits limit payload
    · obtain ⟨header, heads, parts⟩ := heads_frame fits
      rw [put_of_fits fits] at h
      exact ⟨fits, header, heads, by rw [← parts, (Prod.mk.inj h).1]⟩
    · rw [put_of_not_fits fits] at h
      cases (Prod.mk.inj h).2
  · rintro ⟨fits, header, heads, rfl⟩
    rw [put_of_fits fits, heads.eq_lengthBytes, frame]

theorem putAll_of_fits (fits : ∀ p ∈ payloads, Fits limit p) (written : Bytes) :
    putAll limit written payloads = (written ++ frames payloads, .ok ()) := by
  induction payloads generalizing written with
  | nil => simp [putAll]
  | cons p ps ih =>
      obtain ⟨first, others⟩ := List.forall_mem_cons.mp fits
      rw [putAll, put_of_fits first]
      simp only [ih others, frames_cons, List.append_assoc]

def payloadsOf (limit : Nat) (stream : Bytes) : List Bytes :=
  (readAll limit stream).1.map Prod.fst

theorem payloadsOf_of_error {e : TransportError} (h : read limit stream = (.error e, rest)) :
    payloadsOf limit stream = [] ∧ (readAll limit stream).2 = e := by
  have ended : readAll limit stream = ([], e) := by
    rw [readAll]
    split <;> rename_i h'
    · cases h.symm.trans h'
      rfl
    · cases h.symm.trans h'
  rw [payloadsOf, ended]
  exact ⟨rfl, rfl⟩

theorem payloadsOf_of_ok (h : read limit stream = (.ok payload, rest)) :
    payloadsOf limit stream = payload :: payloadsOf limit rest ∧
      (readAll limit stream).2 = (readAll limit rest).2 := by
  have goes : readAll limit stream =
      ((payload, rest.length) :: (readAll limit rest).1, (readAll limit rest).2) := by
    rw [readAll]
    split <;> rename_i h'
    · cases h.symm.trans h'
    · cases h.symm.trans h'
      rfl
  rw [payloadsOf, goes]
  exact ⟨rfl, rfl⟩

theorem read_nil (limit : Nat) :
    read limit [] = (.error (.receiveFailed "unexpected end of file"), []) :=
  rfl

theorem payloadsOf_frames (fits : ∀ p ∈ payloads, Fits limit p) :
    payloadsOf limit (frames payloads) = payloads ∧
      (readAll limit (frames payloads)).2 = .receiveFailed "unexpected end of file" := by
  induction payloads with
  | nil => exact payloadsOf_of_error (read_nil limit)
  | cons p ps ih =>
      obtain ⟨first, others⟩ := List.forall_mem_cons.mp fits
      obtain ⟨tail, ended⟩ := ih others
      obtain ⟨head, last⟩ := payloadsOf_of_ok (read_frame first (frames ps))
      rw [frames_cons, head, last, tail]
      exact ⟨rfl, ended⟩

theorem read_cut (h : Fits limit payload) {cut : Nat} (inside : cut < (frame payload).length) :
    ∃ cause, read limit ((frame payload).take cut) = (.error (.receiveFailed cause), []) := by
  obtain ⟨header, heads, parts⟩ := heads_frame h
  have size : (frame payload).length = 4 + payload.length := by
    rw [parts, List.length_append, heads.size]
  by_cases few : cut < 4
  · exact ⟨_, read_iff.mpr (.headless (by rw [List.length_take]; omega))⟩
  · have left : (frame payload).take cut = header ++ payload.take (cut - 4) := by
      rw [parts, List.take_append, heads.size, List.take_of_length_le (by rw [heads.size]; omega)]
    rw [left]
    exact ⟨_, read_iff.mpr (.short heads h.1 (by rw [List.length_take]; omega))⟩

structure WholeBefore (payloads : List Bytes) (cut n : Nat) : Prop where
  le : n ≤ payloads.length
  iff : ∀ m ≤ payloads.length, m ≤ n ↔ (frames (payloads.take m)).length ≤ cut

namespace WholeBefore

variable {cut n : Nat}

theorem nil (cut : Nat) : WholeBefore [] cut 0 where
  le := Nat.le_refl 0
  iff m none := by simp_all

theorem outside (inside : cut < (frame payload).length) :
    WholeBefore (payload :: payloads) cut 0 where
  le := Nat.zero_le _
  iff m _ := by
    cases m with
    | zero => simp
    | succ m =>
        simp only [List.take_succ_cons, frames_cons, List.length_append]
        omega

theorem cons (whole : (frame payload).length ≤ cut)
    (h : WholeBefore payloads (cut - (frame payload).length) n) :
    WholeBefore (payload :: payloads) cut (n + 1) where
  le := Nat.succ_le_succ h.le
  iff m le := by
    cases m with
    | zero => simp
    | succ m =>
        have others := h.iff m (Nat.le_of_succ_le_succ le)
        simp only [List.take_succ_cons, frames_cons, List.length_append]
        omega

end WholeBefore

theorem payloadsOf_take (fits : ∀ p ∈ payloads, Fits limit p) (cut : Nat) :
    ∃ n cause, WholeBefore payloads cut n ∧
      payloadsOf limit ((frames payloads).take cut) = payloads.take n ∧
      (readAll limit ((frames payloads).take cut)).2 = .receiveFailed cause := by
  induction payloads generalizing cut with
  | nil =>
      rw [frames_nil, List.take_nil]
      exact ⟨0, _, .nil cut, payloadsOf_of_error (read_nil limit)⟩
  | cons p ps ih =>
      obtain ⟨first, others⟩ := List.forall_mem_cons.mp fits
      rw [frames_cons, List.take_append]
      -- The cut goes through the first frame, or it cuts the others by what is left of it.
      by_cases inside : cut < (frame p).length
      · obtain ⟨cause, failed⟩ := read_cut first inside
        refine ⟨0, cause, .outside inside, ?_⟩
        rw [Nat.sub_eq_zero_of_le (Nat.le_of_lt inside), List.take_zero, List.append_nil]
        exact payloadsOf_of_error failed
      · have whole : (frame p).length ≤ cut := Nat.le_of_not_lt inside
        obtain ⟨n, cause, before, tail, ended⟩ := ih others (cut - (frame p).length)
        rw [List.take_of_length_le whole]
        obtain ⟨head, last⟩ := payloadsOf_of_ok
          (read_frame first ((frames ps).take (cut - (frame p).length)))
        refine ⟨n + 1, cause, before.cons whole, ?_⟩
        rw [head, last, tail, List.take_succ_cons]
        exact ⟨rfl, ended⟩

theorem streams_exact (limit : Nat) :
    (∀ stream result, read limit stream = result ↔ Reading limit stream result) ∧
      (∀ written payload after,
        (put limit written payload = (after, .ok ()) ↔
          Fits limit payload ∧ ∃ header, Heads header payload.length ∧
            after = written ++ (header ++ payload)) ∧
        (¬Fits limit payload → put limit written payload =
          (written, .error (.content (.tooLarge payload.length limit))))) ∧
      ∀ (sending : Nat) (payloads : List Bytes),
        (∀ p ∈ payloads, Fits sending p ∧ p.length ≤ limit) →
          ∃ stream, putAll sending [] payloads = (stream, .ok ()) ∧
            stream = frames payloads ∧
            payloadsOf limit stream = payloads ∧
            (readAll limit stream).2 = .receiveFailed "unexpected end of file" ∧
            ∀ cut, ∃ n cause, WholeBefore payloads cut n ∧
              payloadsOf limit (stream.take cut) = payloads.take n ∧
              (readAll limit (stream.take cut)).2 = .receiveFailed cause := by
  refine ⟨fun stream result => read_iff,
    fun written payload after => ⟨put_ok_iff, fun beyond => put_of_not_fits beyond written⟩,
    fun sending payloads within => ?_⟩
  have sent : ∀ p ∈ payloads, Fits sending p := fun p hp => (within p hp).1
  have fits : ∀ p ∈ payloads, Fits limit p := fun p hp => ⟨(within p hp).2, (within p hp).1.2⟩
  obtain ⟨all, ended⟩ := payloadsOf_frames fits
  exact ⟨frames payloads, putAll_of_fits sent [], rfl, all, ended, payloadsOf_take fits⟩

theorem streams_exact_cut :
    let payloads : List Bytes := [[1, 2, 3], [], [4]]
    put 2 [9] [1, 2, 3] = ([9], .error (.content (.tooLarge 3 2))) ∧
      ∃ stream, putAll 5 [] payloads = (stream, .ok ()) ∧
        payloadsOf 3 stream = payloads ∧
        payloadsOf 3 (stream.take 12) = [[1, 2, 3], []] := by
  intro payloads
  obtain ⟨-, writes, -⟩ := streams_exact 2
  obtain ⟨-, -, reads⟩ := streams_exact 3
  obtain ⟨stream, sent, rfl, all, -, cuts⟩ := reads 5 payloads (by decide)
  obtain ⟨n, cause, before, left, -⟩ := cuts 12
  have two : n = 2 := by
    have whole : 2 ≤ n := (before.iff 2 (by decide)).mpr (by decide)
    have beyond : ¬3 ≤ n := fun three => absurd ((before.iff 3 (by decide)).mp three) (by decide)
    omega
  rw [two] at left
  exact ⟨(writes [9] [1, 2, 3] []).2 (by decide), frames payloads, sent, all, left⟩

end Epidemic.Frame
