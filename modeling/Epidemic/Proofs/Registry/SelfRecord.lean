import Epidemic.Proofs.Registry.Calls
import Epidemic.Proofs.Registry.Operations
import Epidemic.Round

namespace Epidemic

namespace Registry

variable {r : Registry} {p : Peer}

theorem update_own (own : p.key = r.selfKey) (isSelf : p.isSelf = true) :
    ∃ after, r.update p = .ok after ∧ after.toRoster = { r.toRoster with owned := p } := by
  have admitted : r.toRoster.admissible p = .ok p := by
    rw [Roster.admissible, if_pos own, if_pos isSelf]
  have slot : r.toRoster.slot? p.key = some 0 := own ▸ r.sound.slot?_selfKey
  have written : r.toRoster.update p = (r.toRoster.put p 0, .ok ()) := by
    simp only [Roster.update, admitted, Roster.replace, slot]
  refine ⟨⟨(r.toRoster.update p).1, r.sound.update p⟩, ?_, congrArg Prod.fst written⟩
  simp only [update, written, Except.map]

theorem update_unknown (unknown : p.key ∉ r.keys) :
    r.toRoster.update p = (r.toRoster, .error (.peerNotFound p.key)) ∧
      r.update p = .error (.peerNotFound p.key) := by
  have other : p.key ≠ r.selfKey := fun own => unknown (own ▸ r.sound.selfKey_mem_keys)
  have admitted : r.toRoster.admissible p = .ok p.toRemote := by
    rw [Roster.admissible, if_neg other]
  have slot : r.toRoster.slot? p.toRemote.key = none :=
    Option.not_isSome_iff_eq_none.mp fun held => unknown (r.sound.slot?_isSome_iff.mp held)
  have refused : r.toRoster.update p = (r.toRoster, .error (.peerNotFound p.key)) := by
    simp only [Roster.update, admitted, Roster.replace, slot]
  exact ⟨refused, by simp only [update, refused, Except.map]⟩

theorem update_known (known : p.key ∈ r.keys) (isSelf : p.isSelf = true) :
    ∃ after, r.update p = .ok after := by
  obtain ⟨q, admitted⟩ : ∃ q, r.toRoster.admissible p = .ok q := by
    rw [Roster.admissible, if_pos isSelf]
    split <;> exact ⟨_, rfl⟩
  have key : q.key = p.key := (congrArg Peer.key (toRemote_of_admissible admitted) :)
  obtain ⟨i, slot⟩ := Option.isSome_iff_exists.mp (r.sound.slot?_isSome_iff.mpr (key ▸ known))
  refine ⟨⟨(r.toRoster.update p).1, r.sound.update p⟩, ?_⟩
  simp only [update, Roster.update, admitted, Roster.replace, slot, Except.map]

theorem mem_keys_iff_of_apart {k : Key} (apart : ∀ q ∈ r.others, q.key ≠ k) :
    k ∈ r.keys ↔ k = r.selfKey := by
  have other : ¬∃ q ∈ r.others, q.key = k := fun ⟨q, hq, same⟩ => apart q hq same
  simp only [Roster.keys, Roster.list, List.map_cons, List.mem_cons, List.mem_map,
    r.sound.key_owned, other, or_false]

end Registry

def fault? {ε α : Type} : Except ε α → Option ε
  | .ok _ => none
  | .error e => some e

namespace Refresher

def faults (f : Refresher) : List ProbeError :=
  [fault? f.location, fault? (f.probes.status.mapError .metricsUnavailable),
    fault? (f.probes.cpuLoad.mapError .metricsUnavailable),
    fault? (f.probes.ioWait.mapError .metricsUnavailable),
    fault? (f.probes.freeDisk.mapError .metricsUnavailable)].filterMap id

structure Finds (f : Refresher) (ip : Ip) (s : PeerState) : Prop where
  enabled : f.lookupDisabled = false
  location : f.probes.location = .ok (ip, s.position)
  status : f.probes.status = .ok s.status
  cpuLoad : f.probes.cpuLoad = .ok s.cpuLoad
  ioWait : f.probes.ioWait = .ok s.ioWait
  freeDisk : f.probes.freeDisk = .ok s.freeDisk
  version : s.version = f.version
  fanout : s.fanout = f.fanout

structure Renews (f : Refresher) (now : Instant) (r : Registry) (p : Peer) (after : Registry) :
    Prop where
  key : p.key = r.selfKey
  isSelf : p.isSelf = true
  generated : p.generated = now
  values : ∃ ip s, f.Finds ip s ∧ p.address = .ofIp ip f.port ∧ p.state = some s
  registry : after.toRoster = { r.toRoster with owned := p }

variable {f : Refresher} {now : Instant} {r after : Registry} {ip : Ip} {s : PeerState}
  {e : ProbeError} {p : Peer}

theorem location_eq_ok_iff {found : Ip × Position} :
    f.location = .ok found ↔ f.lookupDisabled = false ∧ f.probes.location = .ok found := by
  unfold location
  split <;> rename_i setting <;> simp [setting, mapError_eq_ok]

theorem finds_of_measure (h : f.measure = .ok (ip, s)) : f.Finds ip s := by
  simp only [measure, bind_ok, mapError_eq_ok, Prod.exists, location_eq_ok_iff, Except.ok.injEq,
    Prod.mk.injEq] at h
  obtain ⟨_, _, ⟨enabled, location⟩, _, status, _, cpuLoad, _, ioWait, _, freeDisk, rfl, rfl⟩ := h
  exact ⟨enabled, location, status, cpuLoad, ioWait, freeDisk, rfl, rfl⟩

theorem measure_of_finds (h : f.Finds ip s) : f.measure = .ok (ip, s) := by
  obtain ⟨status, version, position, fanout, cpuLoad, ioWait, freeDisk⟩ := s
  obtain ⟨enabled, location, status, cpuLoad, ioWait, freeDisk, rfl, rfl⟩ := h
  have located := location_eq_ok_iff.mpr ⟨enabled, location⟩
  simp only [measure, bind_ok, mapError_eq_ok]
  exact ⟨_, located, _, status, _, cpuLoad, _, ioWait, _, freeDisk, rfl⟩

theorem measure_eq_error_iff : f.measure = .error e ↔ f.faults.head? = some e := by
  simp only [measure, faults, bind, Except.bind]
  cases f.location with
  | error _ => simp [fault?]
  | ok found =>
  cases f.probes.status with
  | error _ => simp [fault?, mapError_error]
  | ok status =>
  cases f.probes.cpuLoad with
  | error _ => simp [fault?, mapError_ok, mapError_error]
  | ok cpuLoad =>
  cases f.probes.ioWait with
  | error _ => simp [fault?, mapError_ok, mapError_error]
  | ok ioWait =>
  cases f.probes.freeDisk <;> simp [fault?, mapError_ok, mapError_error]

theorem refresh_of_fault (failed : f.measure = .error e) : f.refresh now r = .error e := by
  simp only [refresh, failed]
  rfl

theorem refresh_own (now : Instant) (own : f.key = r.selfKey) (found : f.Finds ip s) :
    ∃ after, f.refresh now r = .ok (f.refreshed now ip s, after) ∧
      f.Renews now r (f.refreshed now ip s) after := by
  obtain ⟨after, written, registry⟩ := r.update_own (p := f.refreshed now ip s) own rfl
  exact ⟨after, refresh_eq_ok_iff.mpr ⟨ip, s, measure_of_finds found, rfl, written⟩,
    ⟨own, rfl, rfl, ⟨ip, s, found, rfl, rfl⟩, registry⟩⟩

theorem refresh_unknown (unknown : f.key ∉ r.keys) (found : f.Finds ip s) :
    f.refresh now r = .error (.selfRejected (.peerNotFound f.key)) := by
  have refused := (r.update_unknown (p := f.refreshed now ip s) unknown).2
  simp only [refresh, measure_of_finds found, refused, bind, Except.bind]
  rfl

theorem faults_of_finds (found : f.Finds ip s) : f.faults = [] := by
  cases first : f.faults.head? with
  | none => exact List.head?_eq_none_iff.mp first
  | some e =>
      rw [← measure_eq_error_iff, measure_of_finds found] at first
      cases first

theorem refresh_cases (f : Refresher) (now : Instant) (r : Registry) :
    (∃ e, f.faults.head? = some e ∧ f.refresh now r = .error e) ∨
    ∃ ip s, f.Finds ip s ∧
      ((f.key ∈ r.keys ∧ ∃ after, f.refresh now r = .ok (f.refreshed now ip s, after)) ∨
        (f.key ∉ r.keys ∧ f.refresh now r = .error (.selfRejected (.peerNotFound f.key)))) := by
  cases measured : f.measure with
  | error e => exact .inl ⟨e, measure_eq_error_iff.mp measured, refresh_of_fault measured⟩
  | ok found =>
      obtain ⟨ip, s⟩ := found
      have found := finds_of_measure measured
      refine .inr ⟨ip, s, found, ?_⟩
      by_cases known : f.key ∈ r.keys
      · obtain ⟨after, written⟩ := r.update_known (p := f.refreshed now ip s) known rfl
        exact .inl ⟨known, after, refresh_eq_ok_iff.mpr ⟨ip, s, measured, rfl, written⟩⟩
      · exact .inr ⟨known, refresh_unknown known found⟩

theorem refresh_eq_error_iff :
    f.refresh now r = .error e ↔
      f.faults.head? = some e ∨
        f.faults = [] ∧ f.key ∉ r.keys ∧ e = .selfRejected (.peerNotFound f.key) := by
  obtain ⟨e', first, failed⟩ | ⟨ip, s, found, ⟨known, after, done⟩ | ⟨unknown, failed⟩⟩ :=
    refresh_cases f now r
  · have some : f.faults ≠ [] := fun none => by simp [none] at first
    simp [failed, first, some]
  · simp [done, faults_of_finds found, known]
  · simp [failed, faults_of_finds found, unknown, eq_comm]

theorem update_of_error (failed : f.refresh now r = .error e) (found : f.Finds ip s) :
    (r.toRoster.update (f.refreshed now ip s)).1 = r.toRoster := by
  rcases refresh_eq_error_iff.mp failed with first | ⟨-, unknown, -⟩
  · rw [faults_of_finds found] at first
    cases first
  · exact congrArg Prod.fst (r.update_unknown (p := f.refreshed now ip s) unknown).1

theorem renews_of_refresh (apart : ∀ q ∈ r.others, q.key ≠ f.key)
    (done : f.refresh now r = .ok (p, after)) : f.Renews now r p after := by
  obtain ⟨e, -, failed⟩ | ⟨ip, s, found, ⟨known, -⟩ | ⟨-, failed⟩⟩ := refresh_cases f now r
  · cases done.symm.trans failed
  · have own := (Registry.mem_keys_iff_of_apart apart).mp known
    obtain ⟨after', done', renews⟩ := refresh_own now own found
    cases done.symm.trans done'
    exact renews
  · cases done.symm.trans failed

theorem refresh_confined (f : Refresher) (now : Instant) (r : Registry) :
    (∀ e, f.refresh now r = .error e ↔
      f.faults.head? = some e ∨
        f.faults = [] ∧ f.key ∉ r.keys ∧ e = .selfRejected (.peerNotFound f.key)) ∧
    (∀ e, f.refresh now r = .error e →
      (∀ ip s, f.Finds ip s → (r.toRoster.update (f.refreshed now ip s)).1 = r.toRoster) ∧
        ∀ n : Node, n.refresher = some f → n.registry = r → n.refreshed now = n) ∧
    ((∀ q ∈ r.others, q.key ≠ f.key) →
      (f.key ∈ r.keys ↔ f.key = r.selfKey) ∧
      ∀ p after, f.refresh now r = .ok (p, after) →
        f.Renews now r p after ∧
          ∀ n : Node, n.refresher = some f → n.registry = r →
            n.refreshed now = n.withRegistry after) := by
  refine ⟨fun e => refresh_eq_error_iff, fun e failed => ⟨fun ip s => update_of_error failed, ?_⟩,
    fun apart => ⟨Registry.mem_keys_iff_of_apart apart,
      fun p after done => ⟨renews_of_refresh apart done, ?_⟩⟩⟩
  · rintro n set rfl
    simp only [Node.refreshed, set, failed]
  · rintro n set rfl
    simp only [Node.refreshed, set, done]

theorem refresh_confined_probed :
    let owned := Peer.starting ⟨[1]⟩ (.v4 ⟨10, 0, 0, 1⟩ 7000) ⟨900, 0⟩ "1" 2
    let stored := Peer.stub ⟨[2]⟩ (.v4 ⟨10, 0, 0, 2⟩ 7000) ⟨950, 0⟩
    let r := ((Registry.ofSelf owned).offer ⟨1000, 0⟩ true stored).1
    let s : PeerState := .bootstrapping "2" 3
    let probes : Probes :=
      ⟨.ok (.v4 ⟨10, 0, 0, 9⟩, {}), .ok .bootstrapping, .ok .zero, .ok .zero, .ok .zero⟩
    let f (k : UInt8) : Refresher := ⟨⟨[k]⟩, 7000, "2", 3, probes, false⟩
    let broken (k : UInt8) : Refresher :=
      { f k with probes := { probes with cpuLoad := .error "none" } }
    r.others = [stored] ∧
      (∃ after, (f 1).refresh ⟨1000, 5⟩ r =
          .ok ((f 1).refreshed ⟨1000, 5⟩ (.v4 ⟨10, 0, 0, 9⟩) s, after) ∧ after.others = [stored]) ∧
      (f 3).refresh ⟨1000, 5⟩ r = .error (.selfRejected (.peerNotFound ⟨[3]⟩)) ∧
      (broken 1).refresh ⟨1000, 5⟩ r = .error (.metricsUnavailable "none") ∧
      (broken 2).refresh ⟨1000, 5⟩ r = .error (.metricsUnavailable "none") := by
  intro owned stored r s probes f broken
  have found : (f 1).Finds (.v4 ⟨10, 0, 0, 9⟩) s := ⟨rfl, rfl, rfl, rfl, rfl, rfl, rfl, rfl⟩
  obtain ⟨after, done, -⟩ := refresh_own (r := r) ⟨1000, 5⟩ rfl found
  have renews := (((refresh_confined (f 1) ⟨1000, 5⟩ r).2.2 (by decide)).2 _ after done).1
  have others : after.others = r.others := by rw [renews.registry]
  refine ⟨by decide, ⟨after, done, others.trans (by decide)⟩, ?_, ?_, ?_⟩
  · exact ((refresh_confined (f 3) ⟨1000, 5⟩ r).1 _).mpr (.inr ⟨rfl, by decide, rfl⟩)
  · exact ((refresh_confined (broken 1) ⟨1000, 5⟩ r).1 _).mpr (.inl rfl)
  · exact ((refresh_confined (broken 2) ⟨1000, 5⟩ r).1 _).mpr (.inl rfl)

theorem refresh_confined_foreign :
    let owned := Peer.starting ⟨[1]⟩ (.v4 ⟨10, 0, 0, 1⟩ 7000) ⟨900, 0⟩ "1" 2
    let stored := Peer.stub ⟨[2]⟩ (.v4 ⟨10, 0, 0, 2⟩ 7000) ⟨950, 0⟩
    let r := ((Registry.ofSelf owned).offer ⟨1000, 0⟩ true stored).1
    let s : PeerState := .bootstrapping "2" 3
    let probes : Probes :=
      ⟨.ok (.v4 ⟨10, 0, 0, 1⟩, {}), .ok .bootstrapping, .ok .zero, .ok .zero, .ok .zero⟩
    let f : Refresher := ⟨⟨[2]⟩, 7000, "2", 3, probes, false⟩
    let p := f.refreshed ⟨1000, 5⟩ (.v4 ⟨10, 0, 0, 1⟩) s
    f.key ≠ r.selfKey ∧ r.others = [stored] ∧ p.isSelf = true ∧
      (f.refresh ⟨1000, 5⟩ r).toOption.map (fun found => (found.1, found.2.list)) =
        some (p, [owned, p.toRemote]) := by
  decide +kernel

end Refresher

end Epidemic
