import Epidemic.Proofs.Time.Stamp
import Epidemic.Proofs.Wire.Message
import Epidemic.Wire.Stored

namespace Epidemic

def Peer.stored (p : Peer) : Peer :=
  { p with address := p.address.bare, generated := p.generated.spelled }

structure Peer.Storable (p : Peer) : Prop where
  dated : p.generated.Representable
  short : (Wire.Format.peer.write p).length < UInt64.size

instance (p : Peer) : Decidable p.Storable :=
  decidable_of_iff (p.generated.Representable ∧ (Wire.Format.peer.write p).length < UInt64.size)
    ⟨fun h => ⟨h.1, h.2⟩, fun h => ⟨h.1, h.2⟩⟩

theorem Ipv6.pairOctets_octets (ip : Ipv6) : pairOctets ip.octets = ip.groups := by
  have group (g : UInt16) : UInt16.ofNat (256 * (UInt8.ofNat (g.toNat / 256)).toNat +
      (UInt8.ofNat (g.toNat % 256)).toNat) = g := by
    have bound := g.toNat_lt
    rw [Wire.Format.toNat_ofNat_of_lt (by omega), Wire.Format.toNat_ofNat_of_lt (by omega),
      Nat.div_add_mod, UInt16.ofNat_toNat]
  rw [octets]
  induction ip.groups with
  | nil => rfl
  | cons g gs ih =>
      rw [List.flatMap_cons, List.cons_append, List.cons_append, List.nil_append, pairOctets, ih, group]

theorem Ipv6.length_octets (ip : Ipv6) : ip.octets.length = 16 := by
  simp [octets, List.length_flatMap, List.map_const', ip.size_groups]

namespace Wire.Format

variable {α β : Type} {f : Format α} {g : Format β}

def Keeps (f : Format α) (a b : α) : Prop :=
  (f.write a).length < UInt64.size → ∀ rest, f.read (f.write a ++ rest) = .ok (b, rest)

theorem Lawful.keeps (h : f.Lawful) (a : α) : f.Keeps a a :=
  fun short rest => h.read_write a rest short

theorem Keeps.pair {a a' : α} {b b' : β} (first : f.Keeps a a') (second : g.Keeps b b') :
    (f.pair g).Keeps (a, b) (a', b') := by
  intro short rest
  have size : (f.write a).length + (g.write b).length < UInt64.size := by
    simpa only [Format.pair, List.length_append] using short
  refine read_pair.mpr ⟨g.write b ++ rest, ?_, second (by omega) rest⟩
  rw [Format.pair, List.append_assoc]
  exact first (by omega) _

theorem Keeps.via {a : α} {b c : β} {back : β → α} {make : α → Option β}
    (h : f.Keeps (back b) a) (made : make a = some c) : (f.via back make).Keeps b c :=
  fun short rest => read_via.mpr ⟨a, h short rest, made⟩

theorem status_lawful : status.Lawful := by
  refine .natural (fun s => ?_) (fun s => ?_) fun n s _ made => ?_
  · rw [reach_w32]
    cases s <;> decide
  · cases s <;> rfl
  · unfold statusOfNumber? at made
    split at made <;> cases made <;> rfl

theorem peerState_lawful : peerState.Lawful :=
  (status_lawful.pair (text_lawful.pair (binary32_lawful.pair (binary32_lawful.pair
    (uint32_lawful.pair (binary32_lawful.pair (binary32_lawful.pair binary32_lawful))))))).iso
    (fun _ => rfl) fun _ => rfl

theorem key_lawful : key.Lawful :=
  bytes_lawful.iso (fun _ => rfl) fun _ => rfl

theorem ipv4_keeps (ip : Ipv4) : ipv4.Keeps ip ip := fun _ _ => rfl

theorem ipv6_keeps (ip : Ipv6) : ipv6.Keeps ip ip := by
  have octets : (octets 16).Keeps ip.octets ip.octets := fun _ rest =>
    takeBytes_iff.mpr ⟨rfl, ip.length_octets.symm⟩
  refine octets.via ?_
  rw [Ipv6.pairOctets_octets, Ipv6.ofGroups?, dif_pos ip.size_groups]

theorem read_endpoint {bs rest : Bytes} {e : Endpoint} :
    endpoint.read bs = .ok (e, rest) ↔
      ∃ n tag body, bs = tag ++ body ∧ Spells Width.w32.room.2 Width.w32.room.1 tag n ∧
        ((n = 0 ∧ ∃ v, e = .v4 v.1 v.2 ∧ (ipv4.pair uint16).read body = .ok (v, rest)) ∨
          (n = 1 ∧ ∃ v, e = .v6 v.1 v.2 0 0 ∧ (ipv6.pair uint16).read body = .ok (v, rest))) := by
  simp only [endpoint, bind_ok, Prod.exists, read_natural]
  constructor
  · rintro ⟨n, body, ⟨tag, rfl, spells⟩, read⟩
    refine ⟨n, tag, body, rfl, spells, ?_⟩
    split at read
    · obtain ⟨⟨v, _⟩, inner, same⟩ := bind_ok.mp read
      cases same
      exact .inl ⟨rfl, v.1, v.2, rfl, inner⟩
    · obtain ⟨⟨v, _⟩, inner, same⟩ := bind_ok.mp read
      cases same
      exact .inr ⟨rfl, v.1, v.2, rfl, inner⟩
    · cases read
  · rintro ⟨n, tag, body, rfl, spells, ⟨rfl, ip, port, rfl, read⟩ | ⟨rfl, ip, port, rfl, read⟩⟩
    all_goals exact ⟨_, body, ⟨tag, rfl, spells⟩, bind_ok.mpr ⟨_, read, rfl⟩⟩

theorem endpoint_keeps (e : Endpoint) : endpoint.Keeps e e.bare := by
  intro short rest
  cases e with
  | v4 ip port =>
      have size : ((ipv4.pair uint16).write (ip, port)).length < UInt64.size := by
        simp only [endpoint, List.length_append] at short
        simpa only [pair, List.length_append] using by omega
      have read := (ipv4_keeps ip).pair (uint16_lawful.keeps port) size rest
      exact read_endpoint.mpr ⟨0, _, _, List.append_assoc .., spells_tag (by decide),
        .inl ⟨rfl, (ip, port), rfl, read⟩⟩
  | v6 ip port flow scope =>
      have size : ((ipv6.pair uint16).write (ip, port)).length < UInt64.size := by
        simp only [endpoint, List.length_append] at short
        simpa only [pair, List.length_append] using by omega
      have read := (ipv6_keeps ip).pair (uint16_lawful.keeps port) size rest
      exact read_endpoint.mpr ⟨1, _, _, List.append_assoc .., spells_tag (by decide),
        .inr ⟨rfl, (ip, port), rfl, read⟩⟩

theorem instant_keeps {t : Instant} (h : t.Representable) : instant.Keeps t t.spelled := by
  refine (text_lawful.keeps _).via ?_
  rw [String.toList_ofList]
  exact Stamp.read?_text_spelled h

theorem write_spelled {t : Instant} (h : t.Representable) :
    instant.write t.spelled = instant.write t :=
  congrArg (fun cs => text.write (String.ofList cs)) (Stamp.text_spelled h)

theorem peer_keeps {p : Peer} (h : p.generated.Representable) : peer.Keeps p p.stored := by
  have fields := (key_lawful.keeps p.key).pair ((endpoint_keeps p.address).pair
    ((instant_keeps h).pair ((bool_lawful.keeps p.isSelf).pair
      (peerState_lawful.option.keeps p.state))))
  exact fun short rest => read_iso.mpr ⟨_, fields short rest, rfl⟩

theorem read_ipv4 {bs rest : Bytes} {ip : Ipv4} :
    ipv4.read bs = .ok (ip, rest) ↔ bs = ip.octets ++ rest := by
  simp only [ipv4, bind_ok, Prod.exists, takeBytes_iff]
  constructor
  · rintro ⟨os, mid, ⟨rfl, -⟩, made⟩
    split at made
    · cases made
      rfl
    · cases made
  · rintro rfl
    exact ⟨ip.octets, rest, ⟨rfl, rfl⟩, rfl⟩

theorem ipv4_stable : ipv4.Stable := by
  intro bs ip rest more got
  rw [read_ipv4] at got ⊢
  rw [got, List.append_assoc]

theorem ipv6_stable : ipv6.Stable := by
  refine Stable.via fun bs os rest more got => ?_
  obtain ⟨rfl, length⟩ := takeBytes_iff.mp got
  exact takeBytes_iff.mpr ⟨List.append_assoc .., length⟩

theorem endpoint_stable : endpoint.Stable := by
  intro bs e rest more got
  obtain ⟨n, tag, body, rfl, spells, how⟩ := read_endpoint.mp got
  refine read_endpoint.mpr ⟨n, tag, body ++ more, List.append_assoc .., spells, ?_⟩
  rcases how with ⟨rfl, v, rfl, read⟩ | ⟨rfl, v, rfl, read⟩
  · exact .inl ⟨rfl, v, rfl, ipv4_stable.pair uint16_lawful.read_append body v rest more read⟩
  · exact .inr ⟨rfl, v, rfl, ipv6_stable.pair uint16_lawful.read_append body v rest more read⟩

theorem instant_stable : instant.Stable :=
  Stable.via text_lawful.read_append

theorem peer_stable : peer.Stable :=
  Stable.iso (Stable.pair key_lawful.read_append (endpoint_stable.pair
    (instant_stable.pair (Stable.pair bool_lawful.read_append peerState_lawful.option.read_append))))

theorem decode_peer_append {p : Peer} (h : p.Storable) (rest : Bytes) :
    peer.decode (peer.write p ++ rest) = .ok p.stored := by
  rw [decode, peer_keeps h.dated h.short rest]
  rfl

theorem decode_peer {p : Peer} (h : p.Storable) : peer.decode (peer.write p) = .ok p.stored := by
  have read := decode_peer_append h []
  rwa [List.append_nil] at read

theorem decode_peer_prefix {p : Peer} (h : p.Storable) {cut : Bytes} (part : cut <+: peer.write p)
    (proper : cut ≠ peer.write p) : ∃ e, peer.decode cut = .error e := by
  have read := peer_keeps h.dated h.short []
  rw [List.append_nil] at read
  exact peer_stable.decode_prefix read part proper

end Wire.Format

namespace Peer

@[simp] theorem key_stored (p : Peer) : p.stored.key = p.key := rfl

theorem write_stored {p : Peer} (h : p.Storable) :
    Wire.Format.peer.write p.stored = Wire.Format.peer.write p := by
  have address : Wire.Format.endpoint.write p.address.bare = Wire.Format.endpoint.write p.address := by
    cases p.address <;> rfl
  exact congrArg₂ (fun place time => Wire.Format.key.write p.key ++ (place ++ (time ++
    (Wire.Format.bool.pair (Wire.Format.option Wire.Format.peerState)).write (p.isSelf, p.state))))
    address (Wire.Format.write_spelled h.dated)

theorem Storable.stored {p : Peer} (h : p.Storable) : p.stored.Storable where
  dated := h.dated.spelled.representable
  short := by
    rw [write_stored h]
    exact h.short

end Peer

end Epidemic
