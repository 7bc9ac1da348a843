import Epidemic.Proofs.Exchange.Roles
import Epidemic.Proofs.Time.Order

namespace Epidemic

open Wire (Record Syn SynAck Ack)

namespace Peer

variable {p q : Peer}

def relayed? (p : Peer) : Option Peer :=
  (Record.ofPeer p.generated p).toPeer.toOption

theorem relayed?_eq (p : Peer) (now : Instant) :
    p.relayed? = (Record.ofPeer now p).toPeer.toOption := by
  rw [relayed?, Wire.toPeer_ofPeer_congr (q := p) rfl p.generated now]

theorem relayed?_eq_some_iff (now : Instant) :
    p.relayed? = some q ↔ (Record.ofPeer now p).toPeer = .ok q := by
  rw [relayed?_eq p now]
  cases (Record.ofPeer now p).toPeer <;> simp [Except.toOption]

theorem WireValid.relayed? (h : p.WireValid) : p.relayed? = some p.image :=
  (relayed?_eq_some_iff p.generated).mpr (Wire.toPeer_ofPeer h p.generated)

theorem accepted_of_relayed? (h : p.relayed? = some q) :
    Wire.Accepted (Record.ofPeer p.generated p) q :=
  Wire.accepted_of_toPeer ((relayed?_eq_some_iff _).mp h)

theorem key_of_relayed? (h : p.relayed? = some q) : q.key = p.key :=
  (accepted_of_relayed? h).key

theorem toRemote_of_relayed? (h : p.relayed? = some q) : q.toRemote = q :=
  toRemote_eq_self (accepted_of_relayed? h).isSelf

theorem relayed?_again (h : p.relayed? = some q) : q.relayed? = some q :=
  (relayed?_eq_some_iff p.generated).mpr
    (Wire.toPeer_ofPeer_again ((relayed?_eq_some_iff p.generated).mp h) p.generated)

theorem isDiscovered_of_relayed? (h : p.relayed? = some q) : q.isDiscovered = p.isDiscovered := by
  have read : Except.ok (p.state.map .image) = .ok q.state :=
    (Wire.state?_map_ofState p.state).symm.trans (accepted_of_relayed? h).state
  have state : q.state = p.state.map .image := (Except.ok.inj read).symm
  rw [isDiscovered, isDiscovered, state]
  cases p.state <;> rfl

theorem not_supersedes_of_relayed? (dated : Instant.inRange p.generated.seconds = true)
    (h : p.relayed? = some q) (now : Instant) : q.supersedes p now = false := by
  have whole := Wire.generated_of_toPeer dated ((relayed?_eq_some_iff now).mp h)
  have le := now.secondsSince_le_ofSeconds p.generated
  simp only [supersedes, elapsed, whole, decide_eq_false_iff_not]
  omega

end Peer

theorem Wire.toPeers_ofPeers_eq (now : Instant) (ps : List Peer) :
    Record.toPeers (Record.ofPeers now ps) = ps.filterMap Peer.relayed? := by
  rw [Record.toPeers, Record.ofPeers, List.filterMap_map]
  exact congrArg (List.filterMap · ps) (funext fun p => (p.relayed?_eq now).symm)

section Lists

variable {ps : List Peer} {k : Key}

theorem find?_filter_key (g : Key → Bool) (ps : List Peer) (k : Key) :
    ((ps.filter fun p => g p.key).find? fun p => p.key = k) =
      if g k then ps.find? fun p => p.key = k else none := by
  induction ps with
  | nil => simp
  | cons p ps ih =>
      rw [List.filter_cons]
      by_cases same : p.key = k
      · subst same
        by_cases kept : g p.key = true
        · simp [kept]
        · simp only [kept, Bool.false_eq_true, if_false] at ih ⊢
          exact ih
      · rw [List.find?_cons_of_neg (by simpa using same), ← ih]
        split
        · rw [List.find?_cons_of_neg (by simpa using same)]
        · rfl

theorem find?_relayed (distinct : (ps.map Peer.key).Nodup) (k : Key) :
    ((ps.filterMap Peer.relayed?).find? fun p => p.key = k) =
      (ps.find? fun p => p.key = k).bind Peer.relayed? := by
  induction ps with
  | nil => rfl
  | cons p ps ih =>
      obtain ⟨apart, distinct⟩ := List.nodup_cons.mp distinct
      have rest := ih distinct
      by_cases same : p.key = k
      · have none := Registry.find?_key_eq_none (same ▸ apart)
        rw [none, Option.bind_none] at rest
        cases read : p.relayed? with
        | none => simp [same, read, rest]
        | some q => simp [same, read, Peer.key_of_relayed? read]
      · cases read : p.relayed? with
        | none => simp [same, read, rest]
        | some q => simp [same, read, rest, Peer.key_of_relayed? read]

theorem nodup_relayed (distinct : (ps.map Peer.key).Nodup) :
    ((ps.filterMap Peer.relayed?).map Peer.key).Nodup := by
  induction ps with
  | nil => exact .nil
  | cons p ps ih =>
      obtain ⟨apart, distinct⟩ := List.nodup_cons.mp distinct
      cases read : p.relayed? with
      | none => simpa [read] using ih distinct
      | some q =>
          rw [List.filterMap_cons_some read, List.map_cons, List.nodup_cons]
          refine ⟨fun again => apart ?_, ih distinct⟩
          obtain ⟨x, hx, e⟩ := List.mem_map.mp again
          obtain ⟨y, hy, read'⟩ := List.mem_filterMap.mp hx
          rw [← Peer.key_of_relayed? read, ← e, Peer.key_of_relayed? read']
          exact List.mem_map_of_mem hy

end Lists

namespace Registry

variable {a b : Registry} {k : Key}

def relayed? (r : Registry) (k : Key) : Option Peer :=
  (r.get? k).bind Peer.relayed?

def taught (a b : Registry) (k : Key) : Option Peer :=
  match a.relayed? k with
  | some _ => none
  | none => b.relayed? k

def handed (a b : Registry) (k : Key) : Option Peer :=
  match b.get? k with
  | some _ => none
  | none => (a.relayed? k).filter Peer.isDiscovered

structure Traded (now later : Instant) (a b a' b' : Registry) : Prop where
  owned : a'.owned = a.owned
  received : b'.owned = b.owned
  initiator : ∀ k, k ≠ a.selfKey → a'.get? k = met now true (taught a b k) (a.get? k)
  receiver : ∀ k, k ≠ b.selfKey →
    b'.get? k = met later true (handed a b k) (met now false (a.relayed? k) (b.get? k))

variable {a b : Registry} {k : Key} {opened now later : Instant}

theorem toRemote_of_relayed? {p : Peer} (h : a.relayed? k = some p) : p.toRemote = p := by
  obtain ⟨q, -, read⟩ := Option.bind_eq_some_iff.mp h
  exact Peer.toRemote_of_relayed? read

theorem taught_eq_some_iff {p : Peer} :
    taught a b k = some p ↔ a.relayed? k = none ∧ b.relayed? k = some p := by
  unfold taught
  cases a.relayed? k <;> simp

theorem handed_eq_some_iff {p : Peer} :
    handed a b k = some p ↔ b.get? k = none ∧ a.relayed? k = some p ∧ p.isDiscovered = true := by
  unfold handed
  cases b.get? k <;> simp [Option.filter_eq_some_iff]

namespace Traded

variable {a' b' : Registry} {p : Peer}

theorem selfKey (h : Traded now later a b a' b') :
    a'.selfKey = a.selfKey ∧ b'.selfKey = b.selfKey := by
  simp only [selfKey_eq, h.owned, h.received, and_self]

theorem initiator_own (h : Traded now later a b a' b') :
    a'.get? a.selfKey = a.get? a.selfKey :=
  get?_selfKey_of_owned h.owned

theorem receiver_own (h : Traded now later a b a' b') :
    b'.get? b.selfKey = b.get? b.selfKey :=
  get?_selfKey_of_owned h.received

theorem initiator_source (h : Traded now later a b a' b') (found : a'.get? k = some p) :
    a.get? k = some p ∨ b.relayed? k = some p := by
  by_cases own : k = a.selfKey
  · subst own
    exact .inl (h.initiator_own.symm.trans found)
  · rw [h.initiator k own] at found
    rcases met_cases found with old | ⟨c, new, rfl⟩
    · exact .inl old
    · obtain ⟨-, source⟩ := taught_eq_some_iff.mp new
      exact .inr (by rwa [toRemote_of_relayed? source])

theorem receiver_source (h : Traded now later a b a' b') (found : b'.get? k = some p) :
    b.get? k = some p ∨ a.relayed? k = some p := by
  by_cases own : k = b.selfKey
  · subst own
    exact .inl (h.receiver_own.symm.trans found)
  · rw [h.receiver k own] at found
    rcases met_cases found with kept | ⟨c, new, rfl⟩
    · rcases met_cases kept with old | ⟨c, told, rfl⟩
      · exact .inl old
      · exact .inr (by rwa [toRemote_of_relayed? told])
    · obtain ⟨-, source, -⟩ := handed_eq_some_iff.mp new
      exact .inr (by rwa [toRemote_of_relayed? source])

end Traded

theorem find?_list_relayed (r : Registry) (k : Key) :
    ((r.list.filterMap Peer.relayed?).find? fun p => p.key = k) = r.relayed? k := by
  rw [find?_relayed r.nodup_keys, ← get?_eq_find?, relayed?]

theorem mem_key_relayed (r : Registry) (k : Key) :
    k ∈ (r.list.filterMap Peer.relayed?).map Peer.key ↔ (r.relayed? k).isSome := by
  rw [← find?_list_relayed, List.find?_isSome, List.mem_map]
  simp

theorem WireValid.relayed? (h : a.WireValid) (k : Key) :
    a.relayed? k = (a.get? k).map Peer.image := by
  rw [Registry.relayed?]
  cases found : a.get? k with
  | none => rfl
  | some p => exact (h p (get?_eq_some_iff.mp found).1).relayed?

theorem taught_of_some {p : Peer} (h : a.relayed? k = some p) : taught a b k = none := by
  rw [taught, h]

theorem received_eq (a : Registry) (opened : Instant) (t : Target) :
    Record.toPeers (a.opening opened t).known = a.list.filterMap Peer.relayed? :=
  Wire.toPeers_ofPeers_eq opened a.list

def answerTo (b a : Registry) (opened now : Instant) (t : Target) : SynAck :=
  (b.sort (a.opening opened t)).reply now b.owned (a.opening opened t)

theorem find?_refresh (a b : Registry) (opened : Instant) (t : Target) (k : Key) :
    ((b.sort (a.opening opened t)).refresh.find? fun p => p.key = k) =
      if k ∈ b.keys then a.relayed? k else none := by
  have sorted : (b.sort (a.opening opened t)).refresh =
      (a.list.filterMap Peer.relayed?).filter fun p => decide (p.key ∈ b.keys) := by
    simp only [sort, received_eq, Member.refresh_eq]
    rfl
  rw [sorted, find?_filter_key (fun k => decide (k ∈ b.keys)), find?_list_relayed]
  simp

theorem nodup_refresh (a b : Registry) (opened : Instant) (t : Target) :
    ((b.sort (a.opening opened t)).refresh.map Peer.key).Nodup := by
  have received : ((Record.toPeers (a.opening opened t).known).map Peer.key).Nodup := by
    rw [received_eq]
    exact nodup_relayed a.nodup_keys
  exact received.sublist (List.filter_sublist.map Peer.key)

theorem fresh_eq (a b : Registry) (opened now : Instant) (t : Target) :
    Record.toPeers (answerTo b a opened now t).fresh =
      (b.list.filter fun p => !(a.relayed? p.key).isSome).filterMap Peer.relayed? := by
  have teach : (b.sort (a.opening opened t)).teach =
      b.list.filter fun p => !(a.relayed? p.key).isSome := by
    simp only [sort, received_eq, missingFrom_eq_filter, mem_key_relayed]
    refine List.filter_congr fun p _ => ?_
    cases a.relayed? p.key <;> rfl
  rw [← teach]
  exact Wire.toPeers_ofPeers_eq now _

theorem nodup_fresh (a b : Registry) (opened now : Instant) (t : Target) :
    ((Record.toPeers (answerTo b a opened now t).fresh).map Peer.key).Nodup := by
  rw [fresh_eq]
  exact nodup_relayed (nodup_key_filter b _)

theorem find?_fresh (a b : Registry) (opened now : Instant) (t : Target) (k : Key) :
    ((Record.toPeers (answerTo b a opened now t).fresh).find? fun p => p.key = k) =
      taught a b k := by
  rw [fresh_eq, find?_relayed (nodup_key_filter b _),
    find?_filter_key (fun k => !(a.relayed? k).isSome), ← get?_eq_find?, taught]
  cases a.relayed? k <;> rfl

theorem mem_wantedKeys (a b : Registry) (opened now : Instant) (t : Target) (k : Key) :
    k ∈ (answerTo b a opened now t).wantedKeys ↔ (a.relayed? k).isSome ∧ k ∉ b.keys := by
  have unknown : (b.sort (a.opening opened t)).unknown =
      (a.list.filterMap Peer.relayed?).filter fun p => p.key ∉ b.keys := by
    simp only [sort, received_eq, missingFrom_eq_filter]
    rfl
  have wanted : (answerTo b a opened now t).wantedKeys =
      (((a.list.filterMap Peer.relayed?).filter fun p => p.key ∉ b.keys).map
        Peer.key).eraseDups := by
    rw [← unknown, ← map_key_ofPeers now]
    rfl
  rw [wanted, List.mem_eraseDups, ← mem_key_relayed, List.mem_map, List.mem_map]
  constructor
  · rintro ⟨p, hp, rfl⟩
    obtain ⟨told, new⟩ := List.mem_filter.mp hp
    exact ⟨⟨p, told, rfl⟩, of_decide_eq_true new⟩
  · rintro ⟨⟨p, told, rfl⟩, new⟩
    exact ⟨p, List.mem_filter.mpr ⟨told, decide_eq_true new⟩, rfl⟩

end Registry

namespace Member

open Registry

variable {k : Key}

theorem registry_learn (m : Member) (now : Instant) (t : Target) (owned : Peer)
    (answer : SynAck) : (m.learn now t owned answer).1.registry =
      (m.registry.offerAll now true {} (Record.toPeers answer.fresh)).1 := rfl

theorem learn_eq (m : Member) (now : Instant) (t : Target) (owned : Peer) (answer : SynAck) :
    m.learn now t owned answer =
      ((m.reconcile now (Record.toPeers answer.fresh)).1,
        (m.reconcile now (Record.toPeers answer.fresh)).1.registry.conclude now t owned answer
          (m.reconcile now (Record.toPeers answer.fresh)).2) := rfl

theorem registry_absorb (m : Member) (now : Instant) (ack : Ack) :
    (m.absorb now ack).registry =
      (m.registry.offerAll now true {} (Record.toPeers ack.details)).1 := rfl

theorem answer_eq (m : Member) (now : Instant) (syn : Syn) :
    m.answer now syn =
      ((m.refreshKnown now (m.registry.sort syn).refresh).1,
        (m.registry.sort syn).reply now m.registry.owned syn) := by
  have owned := owned_offerAll m.registry now false {} (m.registry.sort syn).refresh
  simp only [answer, refreshKnown, apply, owned]

theorem owned_answer (m : Member) (now : Instant) (syn : Syn) :
    (m.answer now syn).1.registry.owned = m.registry.owned := by
  rw [answer_eq, refreshKnown, registry_apply, owned_offerAll]

theorem get?_answer (m : Member) (a : Registry) (opened now : Instant) (t : Target)
    (other : k ≠ m.registry.selfKey) :
    (m.answer now (a.opening opened t)).1.registry.get? k =
      met now false (a.relayed? k) (m.registry.get? k) := by
  rw [answer_eq, refreshKnown, registry_apply, get?_offerAll _ _ _ _ (nodup_refresh ..) other]
  simp only [find?_refresh, mem_keys_iff_isSome]
  cases m.registry.get? k <;> cases a.relayed? k <;> rfl

theorem get?_learn (m : Member) (b : Registry) (opened now : Instant) (t : Target) (owned : Peer)
    (other : k ≠ m.registry.selfKey) :
    (m.learn now t owned (b.answerTo m.registry opened now t)).1.registry.get? k =
      met now true (taught m.registry b k) (m.registry.get? k) := by
  rw [registry_learn, get?_offerAll _ _ _ _ (nodup_fresh ..) other, find?_fresh]

theorem owned_learn (m : Member) (now : Instant) (t : Target) (owned : Peer) (answer : SynAck) :
    (m.learn now t owned answer).1.registry.owned = m.registry.owned := by
  rw [registry_learn, owned_offerAll]

theorem get?_learn_of_told (m : Member) (b : Registry) (opened now : Instant) (t : Target)
    (owned : Peer) {p : Peer} (told : m.registry.relayed? k = some p) :
    (m.learn now t owned (b.answerTo m.registry opened now t)).1.registry.get? k =
      m.registry.get? k := by
  by_cases own : k = m.registry.selfKey
  · rw [own]
    exact get?_selfKey_of_owned (owned_learn m now t owned _)
  · rw [get?_learn m b opened now t owned own, taught_of_some told]
    rfl

theorem find?_details (r : Registry) (wanted : List Key) (k : Key) :
    ((r.details wanted).find? fun p => p.key = k) =
      if k ∈ wanted then (r.get? k).filter Peer.isDiscovered else none := by
  rw [details, find?_filter]
  cases found : r.get? k with
  | none => simp
  | some p =>
      obtain rfl := key_of_get? found
      by_cases asked : p.key ∈ wanted
      · simp [asked, Option.filter_some]
      · simp [asked, Option.filter_some]

theorem find?_handed (m : Member) (b : Registry) (opened now : Instant) (t : Target)
    (owned : Peer) (k : Key) :
    let answer := b.answerTo m.registry opened now t
    let details := (m.learn now t owned answer).1.registry.details answer.wantedKeys
    (details.filterMap Peer.relayed?).find? (fun p => p.key = k) = handed m.registry b k := by
  intro answer details
  have distinct : (details.map Peer.key).Nodup := nodup_key_filter _ _
  rw [find?_relayed distinct, find?_details]
  simp only [answer, mem_wantedKeys, handed, mem_keys_iff_isSome]
  cases held : b.get? k with
  | some q => simp
  | none =>
      cases told : m.registry.relayed? k with
      | none => simp
      | some x =>
          obtain ⟨p, found, read⟩ := Option.bind_eq_some_iff.mp told
          rw [get?_learn_of_told m b opened now t owned told, found]
          simp only [Option.isSome_some, Option.isSome_none, Bool.false_eq_true, not_false_eq_true,
            and_self, if_true, Option.filter_some, ← Peer.isDiscovered_of_relayed? read]
          split
          · exact read
          · rfl

theorem get?_closed (m : Member) (now later : Instant) {ack : Option Ack} {body : Ack}
    {details : List Peer} (distinct : (details.map Peer.key).Nodup)
    (sent : ack = if details.isEmpty then none else some body)
    (carries : body.details = Record.ofPeers now details) :
    let closed := match ack with
      | none => m
      | some body => m.absorb later body
    closed.registry.owned = m.registry.owned ∧
      ∀ k, k ≠ m.registry.selfKey → closed.registry.get? k =
        met later true ((details.filterMap Peer.relayed?).find? fun p => p.key = k)
          (m.registry.get? k) := by
  -- With nothing to pass on no closing is sent, which is all the same to the receiver.
  cases details with
  | nil =>
      obtain rfl : ack = none := sent
      exact ⟨rfl, fun k _ => rfl⟩
  | cons p ps =>
      obtain rfl : ack = some body := sent
      intro closed
      have stored : closed.registry =
          (m.registry.offerAll later true {} ((p :: ps).filterMap Peer.relayed?)).1 := by
        rw [← Wire.toPeers_ofPeers_eq now, ← carries]
        exact m.registry_absorb later body
      rw [stored]
      refine ⟨owned_offerAll .., fun k other => ?_⟩
      exact get?_offerAll _ _ _ _ (nodup_relayed distinct) other

theorem traded (later : Instant) {first second heard told : Member} {opened now : Instant}
    {t : Target} {owned : Peer} {reply : SynAck} {report : ExchangeReport} {ack : Option Ack}
    (answered : second.answer now (first.registry.opening opened t) = (heard, reply))
    (learned : first.learn now t owned reply = (told, report, ack)) :
    Traded now later first.registry second.registry told.registry
      (match ack with
        | none => heard
        | some body => heard.absorb later body).registry := by
  have answer : reply = second.registry.answerTo first.registry opened now t := by
    rw [answer_eq] at answered
    exact (congrArg Prod.snd answered).symm
  have kept : heard.registry.owned = second.registry.owned := by
    rw [← owned_answer second now (first.registry.opening opened t), answered]
  have closing : ack = if (told.registry.details reply.wantedKeys).isEmpty then none else some
      { initiator := Record.ofPeer now owned
        receiver := reply.receiver
        details := Record.ofPeers now (told.registry.details reply.wantedKeys) } := by
    rw [learn_eq] at learned
    cases learned
    rfl
  obtain ⟨same, receiver⟩ :=
    heard.get?_closed now later (nodup_key_filter told.registry _) closing rfl
  refine ⟨?_, same.trans kept, fun k other => ?_, fun k other => ?_⟩
  · rw [← owned_learn first now t owned reply, learned]
  · rw [← get?_learn first second.registry opened now t owned other, ← answer, learned]
  · have handed := find?_handed first second.registry opened now t owned k
    simp only [← answer, learned] at handed
    rw [← get?_answer second first.registry opened now t other, answered, ← handed]
    exact receiver k (by rwa [selfKey_eq, kept, ← selfKey_eq])

end Member

end Epidemic
