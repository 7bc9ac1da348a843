import Epidemic.Proofs.Wire.Format
import Epidemic.Wire.Message

namespace Epidemic.Wire

namespace Format

theorem binary32_lawful : binary32.Lawful :=
  word32_lawful.iso (fun _ => rfl) fun _ => rfl

theorem stateRecord_lawful : stateRecord.Lawful :=
  (int32_lawful.pair (text_lawful.pair (binary32_lawful.pair (binary32_lawful.pair
    (text_lawful.pair (binary32_lawful.pair (binary32_lawful.pair int32_lawful))))))).iso
    (fun _ => rfl) fun _ => rfl

theorem record_lawful : record.Lawful :=
  (bytes_lawful.pair (text_lawful.pair (int32_lawful.pair (int64_lawful.pair
    (int64_lawful.pair stateRecord_lawful.option))))).iso (fun _ => rfl) fun _ => rfl

theorem record_ne_nil (r : Record) : record.write r ≠ [] :=
  List.append_ne_nil_of_left_ne_nil (bytes_ne_nil r.key) _

theorem records_lawful : (list record).Lawful :=
  record_lawful.list record_ne_nil

theorem syn_lawful : syn.Lawful :=
  (record_lawful.pair (record_lawful.pair records_lawful)).iso (fun _ => rfl) fun _ => rfl

theorem synAck_lawful : synAck.Lawful :=
  (record_lawful.pair (record_lawful.pair (records_lawful.pair records_lawful))).iso
    (fun _ => rfl) fun _ => rfl

theorem ack_lawful : ack.Lawful :=
  (record_lawful.pair (record_lawful.pair records_lawful)).iso (fun _ => rfl) fun _ => rfl

theorem spells_tag {n : Nat} (small : n < 128) :
    Spells Width.w32.room.2 Width.w32.room.1 (writeVarint n) n :=
  spells_writeVarint (by decide) (reach_w32 ▸ Nat.lt_trans small (by decide))

theorem read_request {bs rest : Bytes} {m : Request} :
    request.read bs = .ok (m, rest) ↔
      ∃ n tag body, bs = tag ++ body ∧ Spells Width.w32.room.2 Width.w32.room.1 tag n ∧
        ((n = 0 ∧ ∃ s, m = .synchronize s ∧ syn.read body = .ok (s, rest)) ∨
          (n = 1 ∧ ∃ a, m = .acknowledge a ∧ ack.read body = .ok (a, rest))) := by
  simp only [request, bind_ok, Prod.exists, read_natural]
  constructor
  · rintro ⟨n, body, ⟨tag, rfl, spells⟩, read⟩
    refine ⟨n, tag, body, rfl, spells, ?_⟩
    split at read
    · obtain ⟨⟨s, _⟩, inner, same⟩ := bind_ok.mp read
      cases same
      exact .inl ⟨rfl, s, rfl, inner⟩
    · obtain ⟨⟨a, _⟩, inner, same⟩ := bind_ok.mp read
      cases same
      exact .inr ⟨rfl, a, rfl, inner⟩
    · cases read
  · rintro ⟨n, tag, body, rfl, spells, ⟨rfl, s, rfl, read⟩ | ⟨rfl, a, rfl, read⟩⟩
    all_goals exact ⟨_, body, ⟨tag, rfl, spells⟩, bind_ok.mpr ⟨_, read, rfl⟩⟩

theorem request_lawful : request.Lawful where
  read_write m rest short := by
    cases m with
    | synchronize s =>
        have size : (syn.write s).length < UInt64.size := by
          simp only [request, List.length_append] at short
          omega
        refine read_request.mpr ⟨0, _, _, List.append_assoc .., spells_tag (by decide), .inl ?_⟩
        exact ⟨rfl, s, rfl, syn_lawful.read_write s rest size⟩
    | acknowledge a =>
        have size : (ack.write a).length < UInt64.size := by
          simp only [request, List.length_append] at short
          omega
        refine read_request.mpr ⟨1, _, _, List.append_assoc .., spells_tag (by decide), .inr ?_⟩
        exact ⟨rfl, a, rfl, ack_lawful.read_write a rest size⟩
  read_append bs m rest more got := by
    obtain ⟨n, tag, body, rfl, spells, how⟩ := read_request.mp got
    refine read_request.mpr ⟨n, tag, body ++ more, List.append_assoc .., spells, ?_⟩
    rcases how with ⟨rfl, s, rfl, read⟩ | ⟨rfl, a, rfl, read⟩
    · exact .inl ⟨rfl, s, rfl, syn_lawful.read_append body s rest more read⟩
    · exact .inr ⟨rfl, a, rfl, ack_lawful.read_append body a rest more read⟩
  shortest bs m rest got := by
    obtain ⟨n, tag, body, rfl, spells, how⟩ := read_request.mp got
    have front := spells.length_le
    rcases how with ⟨rfl, s, rfl, read⟩ | ⟨rfl, a, rfl, read⟩
    · obtain ⟨used, rfl, le⟩ := syn_lawful.shortest body s rest read
      refine ⟨tag ++ used, (List.append_assoc ..).symm, ?_⟩
      simpa only [request, List.length_append] using Nat.add_le_add front le
    · obtain ⟨used, rfl, le⟩ := ack_lawful.shortest body a rest read
      refine ⟨tag ++ used, (List.append_assoc ..).symm, ?_⟩
      simpa only [request, List.length_append] using Nat.add_le_add front le

theorem read_response {bs rest : Bytes} {m : Response} :
    response.read bs = .ok (m, rest) ↔
      ∃ n tag body, bs = tag ++ body ∧ Spells Width.w32.room.2 Width.w32.room.1 tag n ∧
        ((n = 0 ∧ ∃ a, m = .synAck a ∧ synAck.read body = .ok (a, rest)) ∨
          (n = 1 ∧ m = .empty ∧ rest = body) ∨
          (n = 2 ∧ ∃ reason, m = .rejected reason ∧ text.read body = .ok (reason, rest))) := by
  simp only [response, bind_ok, Prod.exists, read_natural]
  constructor
  · rintro ⟨n, body, ⟨tag, rfl, spells⟩, read⟩
    refine ⟨n, tag, body, rfl, spells, ?_⟩
    split at read
    · obtain ⟨⟨a, _⟩, inner, same⟩ := bind_ok.mp read
      cases same
      exact .inl ⟨rfl, a, rfl, inner⟩
    · cases read
      exact .inr (.inl ⟨rfl, rfl, rfl⟩)
    · obtain ⟨⟨reason, _⟩, inner, same⟩ := bind_ok.mp read
      cases same
      exact .inr (.inr ⟨rfl, reason, rfl, inner⟩)
    · cases read
  · rintro ⟨n, tag, body, rfl, spells,
      ⟨rfl, a, rfl, read⟩ | ⟨rfl, rfl, rfl⟩ | ⟨rfl, reason, rfl, read⟩⟩
    · exact ⟨_, body, ⟨tag, rfl, spells⟩, bind_ok.mpr ⟨_, read, rfl⟩⟩
    · exact ⟨_, rest, ⟨tag, rfl, spells⟩, rfl⟩
    · exact ⟨_, body, ⟨tag, rfl, spells⟩, bind_ok.mpr ⟨_, read, rfl⟩⟩

theorem response_lawful : response.Lawful where
  read_write m rest short := by
    cases m with
    | synAck a =>
        have size : (synAck.write a).length < UInt64.size := by
          simp only [response, List.length_append] at short
          omega
        refine read_response.mpr ⟨0, _, _, List.append_assoc .., spells_tag (by decide), .inl ?_⟩
        exact ⟨rfl, a, rfl, synAck_lawful.read_write a rest size⟩
    | empty =>
        refine read_response.mpr ⟨1, _, rest, rfl, spells_tag (by decide), .inr (.inl ?_)⟩
        exact ⟨rfl, rfl, rfl⟩
    | rejected reason =>
        have size : (text.write reason).length < UInt64.size := by
          simp only [response, List.length_append] at short
          omega
        refine read_response.mpr
          ⟨2, _, _, List.append_assoc .., spells_tag (by decide), .inr (.inr ?_)⟩
        exact ⟨rfl, reason, rfl, text_lawful.read_write reason rest size⟩
  read_append bs m rest more got := by
    obtain ⟨n, tag, body, rfl, spells, how⟩ := read_response.mp got
    refine read_response.mpr ⟨n, tag, body ++ more, List.append_assoc .., spells, ?_⟩
    rcases how with ⟨rfl, a, rfl, read⟩ | ⟨rfl, rfl, rfl⟩ | ⟨rfl, reason, rfl, read⟩
    · exact .inl ⟨rfl, a, rfl, synAck_lawful.read_append body a rest more read⟩
    · exact .inr (.inl ⟨rfl, rfl, rfl⟩)
    · exact .inr (.inr ⟨rfl, reason, rfl, text_lawful.read_append body reason rest more read⟩)
  shortest bs m rest got := by
    obtain ⟨n, tag, body, rfl, spells, how⟩ := read_response.mp got
    have front := spells.length_le
    rcases how with ⟨rfl, a, rfl, read⟩ | ⟨rfl, rfl, rfl⟩ | ⟨rfl, reason, rfl, read⟩
    · obtain ⟨used, rfl, le⟩ := synAck_lawful.shortest body a rest read
      refine ⟨tag ++ used, (List.append_assoc ..).symm, ?_⟩
      simpa only [response, List.length_append] using Nat.add_le_add front le
    · exact ⟨tag, rfl, front⟩
    · obtain ⟨used, rfl, le⟩ := text_lawful.shortest body reason rest read
      refine ⟨tag ++ used, (List.append_assoc ..).symm, ?_⟩
      simpa only [response, List.length_append] using Nat.add_le_add front le

end Format

theorem Request.ofBytes?_eq_some {bs : Bytes} {m : Request} :
    ofBytes? bs = some m ↔ Format.request.decode bs = .ok m := by
  rw [ofBytes?]
  cases Format.request.decode bs <;> simp [Except.toOption]

theorem Response.ofBytes?_eq_some {bs : Bytes} {m : Response} :
    ofBytes? bs = some m ↔ Format.response.decode bs = .ok m := by
  rw [ofBytes?]
  cases Format.response.decode bs <;> simp [Except.toOption]

theorem Request.ofBytes?_toBytes {m : Request} (short : m.toBytes.length < UInt64.size)
    (rest : Bytes) : ofBytes? (m.toBytes ++ rest) = some m :=
  ofBytes?_eq_some.mpr (Format.request_lawful.decode_write short rest)

theorem Response.ofBytes?_toBytes {m : Response} (short : m.toBytes.length < UInt64.size)
    (rest : Bytes) : ofBytes? (m.toBytes ++ rest) = some m :=
  ofBytes?_eq_some.mpr (Format.response_lawful.decode_write short rest)

theorem messages_read_back :
    (∀ m : Request, m.toBytes.length < UInt64.size →
      (∀ rest, Request.ofBytes? (m.toBytes ++ rest) = some m) ∧
        ∀ bs, bs <+: m.toBytes → bs ≠ m.toBytes → Request.ofBytes? bs = none) ∧
      (∀ m : Response, m.toBytes.length < UInt64.size →
        (∀ rest, Response.ofBytes? (m.toBytes ++ rest) = some m) ∧
          ∀ bs, bs <+: m.toBytes → bs ≠ m.toBytes → Response.ofBytes? bs = none) ∧
      (∀ bs (m : Request), Request.ofBytes? bs = some m →
        ∃ used rest, bs = used ++ rest ∧ Format.request.read bs = .ok (m, rest) ∧
          m.toBytes.length ≤ used.length) ∧
      ∀ bs (m : Response), Response.ofBytes? bs = some m →
        ∃ used rest, bs = used ++ rest ∧ Format.response.read bs = .ok (m, rest) ∧
          m.toBytes.length ≤ used.length := by
  refine ⟨fun m short => ⟨Request.ofBytes?_toBytes short, fun bs cut proper => ?_⟩,
    fun m short => ⟨Response.ofBytes?_toBytes short, fun bs cut proper => ?_⟩,
    fun bs m got => ?_, fun bs m got => ?_⟩
  · obtain ⟨e, failed⟩ := Format.request_lawful.decode_prefix short cut proper
    rw [Request.ofBytes?, failed]
    rfl
  · obtain ⟨e, failed⟩ := Format.response_lawful.decode_prefix short cut proper
    rw [Response.ofBytes?, failed]
    rfl
  · exact Format.request_lawful.decode_shortest (Request.ofBytes?_eq_some.mp got)
  · exact Format.response_lawful.decode_shortest (Response.ofBytes?_eq_some.mp got)

theorem messages_read_back_extremes :
    let state : StateRecord :=
      ⟨-1, "NaN", ⟨0x7fc00001⟩, ⟨0xff800002⟩, "α", ⟨0x80000000⟩, ⟨0⟩, Int32.maxValue⟩
    let record : Record := ⟨[0, 255], "::1", 70000, Int64.minValue, Int64.maxValue, some state⟩
    let answer : Response := .synAck ⟨record, record, [record], []⟩
    answer.toBytes.length < UInt64.size ∧ Response.ofBytes? (answer.toBytes ++ [7]) = some answer ∧
      Response.ofBytes? answer.toBytes.dropLast = none := by
  intro state record answer
  have short : answer.toBytes.length < UInt64.size := by decide +kernel
  have proper : answer.toBytes.dropLast ≠ answer.toBytes := by decide +kernel
  obtain ⟨-, back, -, -⟩ := messages_read_back
  exact ⟨short, (back answer short).1 [7], (back answer short).2 _ (List.dropLast_prefix _) proper⟩

end Epidemic.Wire
