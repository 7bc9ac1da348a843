import Epidemic.Network
import Epidemic.Proofs.Exchange.Answer
import Epidemic.Proofs.Exchange.Traded
import Epidemic.Proofs.Interleaving.Freshness
import Epidemic.Proofs.Mesh.Provenance
import Epidemic.Proofs.Registry.SelfRecord

namespace Epidemic

open Wire (Record Syn SynAck Ack)

variable {size : Nat} {k : Key} {q y : Peer} {t : Instant} {now : Instant}

theorem Later.mem_keys {r after : Registry} (later : Later k r after) (known : k ∈ r.keys) :
    k ∈ after.keys := by
  obtain ⟨y, found⟩ := Option.isSome_iff_exists.mp (Registry.mem_keys_iff_isSome.mp known)
  obtain ⟨z, found', -⟩ := later y found
  exact Registry.mem_keys_of_get? found'

namespace Registry

def AtLeast (r : Registry) (k : Key) (t : Instant) : Prop :=
  ∃ y, r.get? k = some y ∧ t ≤ y.generated

def Whole (r : Registry) (k : Key) : Prop :=
  ∀ y, r.get? k = some y → y.generated.nanos = 0

variable {r after : Registry}

theorem AtLeast.later (h : r.AtLeast k t) (later : Later k r after) : after.AtLeast k t := by
  obtain ⟨y, found, le⟩ := h
  obtain ⟨z, found', le'⟩ := later y found
  exact ⟨z, found', Instant.le_trans le le'⟩

theorem Whole.isLeap (h : r.Whole k) (found : r.get? k = some y) : y.generated.isLeap = false := by
  rw [Instant.isLeap_eq_false, h y found]
  decide

theorem atLeast_offer (allowInsert : Bool) (other : q.key ≠ r.selfKey) (known : q.key ∈ r.keys)
    (whole : r.Whole q.key) (hq : q.generated.nanos = 0) (hn : now.isLeap = false)
    (past : q.generated ≤ now) : (r.offer now allowInsert q).1.AtLeast q.key q.generated := by
  obtain ⟨y, found⟩ := Option.isSome_iff_exists.mp (mem_keys_iff_isSome.mp known)
  have met := get?_offer r now allowInsert q other
  rw [if_pos rfl, found] at met
  cases fresh : q.supersedes y now with
  | true => exact ⟨q.toRemote, by simpa [Registry.met, fresh] using met, Instant.le_refl _⟩
  | false =>
      have leapless : q.generated.isLeap = false := by
        rw [Instant.isLeap_eq_false, hq]
        decide
      have tie := Instant.nanosSince_lt_of_secondsSince_le (.of_not_leap hn) leapless
        (whole.isLeap found) (Peer.supersedes_eq_false.mp fresh)
      exact ⟨y, by simpa [Registry.met, fresh] using met,
        Instant.le_of_nanosSince_lt hq (whole y found) (tie.2 past)⟩

end Registry

theorem Peer.relayed?_congr {p : Peer} (same : p.toRemote = q.toRemote) :
    p.relayed? = q.relayed? := by
  rw [Peer.relayed?, Peer.relayed?, Wire.toPeer_ofPeer_congr same p.generated q.generated]

section Activities

variable {placed : List (Fin size × Peer)} {i : Fin size} {a : Activity} {m : Member}

def Copied (placed : List (Fin size × Peer)) (i : Fin size) (k : Key) : Prop :=
  ∀ x ∈ placed, x.1 = i → x.2.key = k → x.2.relayed? = some x.2.toRemote

theorem Held.relayed? (h : Held placed i y) (copied : Copied placed i y.key) :
    y.relayed? = some y.toRemote := by
  rcases h with ⟨x, member, same⟩ | image
  · have key : x.key = y.key := (congrArg Peer.key same.symm :)
    rw [Peer.relayed?_congr same, same]
    exact copied (i, x) member rfl key
  · obtain ⟨j, x, -, -, read⟩ := id image
    rw [image.toRemote]
    exact Peer.relayed?_again ((Peer.relayed?_eq_some_iff y.generated).mpr (read y.generated))

theorem Activity.Genuine.later (h : a.Genuine placed i) (hn : now.isLeap = false)
    (whole : m.registry.Whole k) : Later k m.registry (a.advance now m).1.registry := by
  have touched := a.touched now m
  generalize (a.advance now m).1.registry = after at touched ⊢
  generalize (a.advance now m).2.2 = seen at touched
  cases touched with
  | untouched none => exact .refl
  | offered how =>
      obtain ⟨j, x, -, -, read⟩ := h.1 _ (List.mem_cons_self ..)
      exact how.later hn (fun y found => whole.isLeap found)
        (Wire.Record.isLeap_of_toPeer (read now))
  | inserted absent selfKey list => exact h.elim
  | refreshed key generated selfKey list => exact h.elim

def Activity.Lists (q : Peer) : Activity → Prop
  | .naming _ known => q ∈ known.filterMap Peer.relayed?
  | .awaiting _ _ body => q ∈ Record.toPeers body.known
  | _ => True

theorem Activity.lists_activity (job : Job) : job.activity.Lists q := by
  cases job <;> trivial

theorem Activity.Lists.hear (h : a.Lists q) (answer : SynAck) : (a.hear answer).Lists q := by
  cases a with
  | awaiting target owned body => trivial
  | _ => exact h

theorem Activity.Lists.of_sends (h : a.Lists q) {body : Syn} (sends : a.sends = some (.syn body)) :
    q ∈ Record.toPeers body.known := by
  cases a with
  | awaiting target owned body =>
      cases sends
      exact h
  | ended result =>
      simp only [Activity.sends] at sends
      split at sends
      · rename_i none
        cases none
      all_goals cases sends
  | _ => cases sends

theorem Activity.Lists.advance (h : a.Lists q) (own : m.registry.owned.relayed? = some q)
    (now : Instant) : (a.advance now m).2.1.Lists q := by
  cases a with
  | listing target => exact List.mem_filterMap.mpr ⟨_, List.mem_cons_self .., own⟩
  | naming target known =>
      have listed : q ∈ Record.toPeers (Record.ofPeers now known) :=
        (Wire.toPeers_ofPeers_eq now known).symm ▸ h
      exact listed
  | awaiting target owned body => exact h
  | merging allowInsert ahead report next => cases ahead <;> trivial
  | notifying ahead report next =>
      cases ahead with
      | nil => trivial
      | cons k ahead =>
          simp only [Activity.advance]
          split <;> trivial
  | inserting p =>
      simp only [Activity.advance]
      split <;> trivial
  | refreshing f =>
      simp only [Activity.advance]
      split <;> trivial
  | _ => trivial

def Activity.Brings (q : Peer) (r : Registry) : Activity → Prop
  | .sorting body => q ∈ Record.toPeers body.known
  | .merging _ ahead _ _ => q ∈ ahead ∨ r.AtLeast q.key q.generated
  | .notifying _ _ _ => r.AtLeast q.key q.generated
  | .following _ _ => r.AtLeast q.key q.generated
  | .ended (some _) => r.AtLeast q.key q.generated
  | .ended none => True
  | _ => False

namespace Activity.Brings

variable {r after : Registry}

theorem later (h : a.Brings q r) (later : Later q.key r after) : a.Brings q after := by
  cases a with
  | sorting body => exact h
  | merging allowInsert ahead report next => exact h.imp_right fun stored => stored.later later
  | notifying ahead report next => exact Registry.AtLeast.later h later
  | following report next => exact Registry.AtLeast.later h later
  | ended result =>
      cases result with
      | none => trivial
      | some result => exact Registry.AtLeast.later h later
  | _ => exact h.elim

theorem of_sends (h : a.Brings q r) {answer : SynAck} (sends : a.sends = some (.answer answer)) :
    r.AtLeast q.key q.generated := by
  cases a with
  | ended result =>
      cases result with
      | none => cases sends
      | some result => exact h
  | awaiting target owned body => exact h.elim
  | _ => cases sends

theorem hear (h : a.Brings q r) (answer : SynAck) : (a.hear answer).Brings q r := by
  cases a <;> first | exact h | exact h.elim

theorem advance (h : a.Brings q m.registry) (genuine : a.Genuine placed i)
    (other : q.key ≠ m.registry.selfKey) (known : q.key ∈ m.registry.keys)
    (whole : m.registry.Whole q.key) (hq : q.generated.nanos = 0) (hn : now.isLeap = false)
    (past : q.generated ≤ now) :
    (a.advance now m).2.1.Brings q (a.advance now m).1.registry := by
  have kept := genuine.later hn whole
  cases a with
  | sorting body =>
      have sorted := congrArg Sorted.refresh (m.registry.sort_eq body)
      have ahead : q ∈ (m.registry.sort body).refresh :=
        sorted ▸ List.mem_filter.mpr ⟨h, decide_eq_true known⟩
      exact .inl ahead
  | merging allowInsert ahead report next =>
      cases ahead with
      | nil => exact h.resolve_left (List.not_mem_nil)
      | cons c ahead =>
          rcases h with offered | stored
          · rcases List.mem_cons.mp offered with rfl | later
            · exact .inr (Registry.atLeast_offer allowInsert other known whole hq hn past)
            · exact .inl later
          · exact .inr (stored.later kept)
  | notifying ahead report next =>
      cases ahead with
      | nil => exact h
      | cons k ahead =>
          simp only [Activity.advance]
          split <;> exact h
  | following report next => exact h
  | ended result => exact h
  | _ => exact h.elim

end Activity.Brings

end Activities

namespace Pool

variable {placed : List (Fin size × Peer)} {i : Fin size} {p : Pool} {e : Event} {j n : Nat}

theorem length_step_le (p : Pool) (e : Event) :
    p.activities.length ≤ (p.step e).activities.length := by
  cases e with
  | start job => simp [step]
  | advance i now =>
      simp only [step]
      split <;> simp
  | hear i answer =>
      simp only [step]
      split <;> simp
  | cancel i => simp [step]

theorem member_hear (p : Pool) (i : Nat) (answer : SynAck) :
    (p.step (.hear i answer)).member = p.member := by
  simp only [step]
  split <;> rfl

theorem Traced.later_step (h : Traced placed i p)
    (leapless : ∀ j now, e = .advance j now → now.isLeap = false)
    (whole : p.member.registry.Whole k) :
    Later k p.member.registry (p.step e).member.registry := by
  rcases p.member_step_cases e with same | ⟨j, now, a, rfl, there, moved⟩
  · exact same ▸ .refl
  · exact moved ▸ (h.activities a there).later (leapless j now rfl) whole

theorem Traced.lists_step (h : Traced placed i p) (genuine : e.Genuine placed i)
    (own : p.member.registry.owned.relayed? = some q)
    (lists : ∀ j a, n ≤ j → p.activities[j]? = some a → a.Lists q) :
    (p.step e).member.registry.owned.relayed? = some q ∧
      ∀ j a, n ≤ j → (p.step e).activities[j]? = some a → a.Lists q := by
  refine ⟨(h.step genuine).2 ▸ own, fun j a late here => ?_⟩
  cases becomes here with
  | kept there => exact lists j a late there
  | begun next => exact Activity.lists_activity _
  | advanced there => exact (lists j _ late there).advance own _
  | heard there => exact (lists j _ late there).hear _
  | ended => trivial

theorem Traced.brings_step (h : Traced placed i p) (other : q.key ≠ p.member.registry.selfKey)
    (known : q.key ∈ p.member.registry.keys) (whole : p.member.registry.Whole q.key)
    (hq : q.generated.nanos = 0)
    (clock : ∀ j now, e = .advance j now → now.isLeap = false ∧ q.generated ≤ now)
    (there : j < p.activities.length)
    (brings : ∀ a, p.activities[j]? = some a → a.Brings q p.member.registry) :
    ∀ a, (p.step e).activities[j]? = some a → a.Brings q (p.step e).member.registry := by
  intro b here
  have later := h.later_step (fun j now e => (clock j now e).1) whole
  cases becomes here with
  | kept old => exact (brings b old).later later
  | begun next => omega
  | advanced old =>
      obtain ⟨hn, past⟩ := clock j _ rfl
      rw [step_advance old]
      exact (brings _ old).advance (h.activities _ (List.mem_of_getElem? old)) other known whole hq
        hn past
  | heard old =>
      rw [member_hear]
      exact (brings _ old).hear _
  | ended => trivial

end Pool

namespace Mesh

variable {w : Mesh size} {a b m : Fin size} {d : Deed size} {deeds : List (Deed size)}

def Passes (b : Fin size) (k : Key) (w : Mesh size) : Deed size → Prop
  | .tick now => w.clock ≤ now ∧ now.isLeap = false
  | .place i how =>
      i = b → ((w.registry b).place w.clock how).1.get? k = (w.registry b).get? k
  | _ => True

def Keeps (a : Fin size) (w : Mesh size) : Deed size → Prop
  | .place i how => i = a → ((w.registry a).place w.clock how).1.owned = (w.registry a).owned
  | _ => True

def Along (w : Mesh size) (P : Mesh size → Deed size → Prop) : List (Deed size) → Prop
  | [] => True
  | d :: deeds => P w d ∧ (w.step d).Along P deeds

inductive Moves (w : Mesh size) (m : Fin size) : Deed size → Pool → Prop where
  | still {d : Deed size} : Moves w m d (w.pools m)
  | worked {d : Deed size} {e : Event} (genuine : e.Genuine w.placed m)
      (clock : ∀ j now, e = .advance j now → now = w.clock) : Moves w m d ((w.pools m).step e)
  | placed {how : Placement} : Moves w m (.place m how)
      ((w.pools m).withRegistry ((w.registry m).place w.clock how).1)

theorem moves_work {e : Event} (i : Fin size) (genuine : e.Genuine w.placed i)
    (clock : ∀ j now, e = .advance j now → now = w.clock) (m : Fin size) (d : Deed size) :
    w.Moves m d ((w.work i e).pools m) := by
  rw [work, pools_setPool]
  split
  · rename_i same
    subst same
    exact .worked genuine clock
  · exact .still

theorem Traced.moves (h : w.Traced) (d : Deed size) (m : Fin size) :
    w.Moves m d ((w.step d).pools m) := by
  cases d with
  | tick now => exact .still
  | contact i target => exact moves_work (e := .start (.exchange target)) i trivial (by simp) m _
  | serve i n =>
      rw [Mesh.step]
      split
      · rename_i job sent
        exact moves_work (e := .start job) i (h.job sent) (by simp) m _
      · exact .still
  | hear i j n =>
      rw [Mesh.step]
      split
      · rename_i body sent
        exact moves_work (e := .hear j body) i (h.messages _ (List.mem_of_getElem? sent)) (by simp)
          m _
      · exact .still
  | advance i j => exact moves_work (e := .advance j w.clock) i trivial (by simp) m _
  | cancel i j => exact moves_work (e := .cancel j) i trivial (by simp) m _
  | place i how =>
      rw [pools_place]
      split
      · rename_i same
        subst same
        exact .placed
      · exact .still

theorem placed_step (w : Mesh size) (d : Deed size) : w.placed ⊆ (w.step d).placed := by
  cases d with
  | place i how => exact List.subset_append_left ..
  | serve i n =>
      simp only [step]
      split <;> exact List.Subset.refl _
  | hear i j n =>
      simp only [step]
      split <;> exact List.Subset.refl _
  | _ => exact List.Subset.refl _

theorem placed_run (w : Mesh size) (deeds : List (Deed size)) :
    w.placed ⊆ (w.run deeds).placed := by
  induction deeds generalizing w with
  | nil => exact List.Subset.refl _
  | cons d deeds ih => exact List.Subset.trans (w.placed_step d) (ih _)

structure Meets (w : Mesh size) (b : Fin size) (q : Peer) : Prop where
  traced : w.Traced
  other : q.key ≠ (w.registry b).selfKey
  known : q.key ∈ (w.registry b).keys
  leapless : w.clock.isLeap = false
  past : q.generated ≤ w.clock

theorem Meets.whole (h : w.Meets b q) (copied : Copied w.placed b q.key) :
    (w.registry b).Whole q.key := by
  intro y found
  obtain ⟨member, key⟩ := Registry.get?_eq_some_iff.mp found
  have read := ((h.traced.pools b).held y member).relayed? (key ▸ copied)
  have whole : y.generated = .ofSeconds _ := (Peer.accepted_of_relayed? read).whole
  rw [whole]
  rfl

theorem Meets.clock_step (h : w.Meets b q) (passes : Passes b q.key w d) :
    q.generated ≤ (w.step d).clock ∧ (w.step d).clock.isLeap = false := by
  cases d with
  | tick now => exact ⟨Instant.le_trans h.past passes.1, passes.2⟩
  | serve i n =>
      rw [Mesh.step]
      split <;> exact ⟨h.past, h.leapless⟩
  | hear i j n =>
      rw [Mesh.step]
      split <;> exact ⟨h.past, h.leapless⟩
  | _ => exact ⟨h.past, h.leapless⟩

theorem Meets.later_step (h : w.Meets b q) (copied : Copied w.placed b q.key)
    (passes : Passes b q.key w d) :
    Later q.key (w.registry b) ((w.step d).registry b) := by
  have moved := h.traced.moves d b
  rw [registry, registry]
  generalize (w.step d).pools b = p at moved ⊢
  cases moved with
  | still => exact .refl
  | worked genuine clock =>
      exact (h.traced.pools b).later_step (fun j now e => clock j now e ▸ h.leapless)
        (h.whole copied)
  | placed =>
      intro y found
      exact ⟨y, (passes rfl).trans found, Instant.le_refl _⟩

theorem Meets.step (h : w.Meets b q) (copied : Copied w.placed b q.key)
    (passes : Passes b q.key w d) : (w.step d).Meets b q where
  traced := h.traced.step d
  other := selfKey_step h.traced d b ▸ h.other
  known := Later.mem_keys (h.later_step copied passes) h.known
  leapless := (h.clock_step passes).2
  past := (h.clock_step passes).1

structure Serves (w : Mesh size) (b : Fin size) (j : Nat) (q : Peer) : Prop where
  there : j < (w.pools b).activities.length
  brings : ∀ x, (w.pools b).activities[j]? = some x → x.Brings q (w.registry b)

theorem Serves.step {j : Nat} (s : w.Serves b j q) (h : w.Meets b q)
    (copied : Copied w.placed b q.key) (hq : q.generated.nanos = 0)
    (passes : Passes b q.key w d) : (w.step d).Serves b j q := by
  have later := h.later_step copied passes
  have moved := h.traced.moves d b
  unfold registry at later
  suffices ∀ p, w.Moves b d p → Later q.key (w.registry b) p.member.registry →
      j < p.activities.length ∧ ∀ x, p.activities[j]? = some x → x.Brings q p.member.registry by
    obtain ⟨there, brings⟩ := this _ moved later
    exact ⟨there, brings⟩
  rintro p moved later
  cases moved with
  | still => exact ⟨s.there, s.brings⟩
  | @worked _ e genuine clock =>
      refine ⟨Nat.lt_of_lt_of_le s.there (Pool.length_step_le ..), ?_⟩
      exact (h.traced.pools b).brings_step h.other h.known (h.whole copied) hq
        (fun j now e => clock j now e ▸ ⟨h.leapless, h.past⟩) s.there s.brings
  | placed => exact ⟨s.there, fun x here => (s.brings x here).later later⟩

theorem Meets.run (h : w.Meets b q) (deeds : List (Deed size))
    (copied : Copied (w.run deeds).placed b q.key) (passes : w.Along (Passes b q.key) deeds) :
    (w.run deeds).Meets b q ∧ ∀ j, q.generated.nanos = 0 → w.Serves b j q →
      (w.run deeds).Serves b j q := by
  induction deeds generalizing w with
  | nil => exact ⟨h, fun _ _ serves => serves⟩
  | cons d deeds ih =>
      have copied' : Copied w.placed b q.key := fun x hx =>
        copied x (placed_run w (d :: deeds) hx)
      obtain ⟨meets, serves⟩ := ih (h.step copied' passes.1) copied passes.2
      exact ⟨meets, fun j hq s => serves j hq (s.step h copied' hq passes.1)⟩

structure Opens (w : Mesh size) (a : Fin size) (n : Nat) (q : Peer) : Prop where
  own : (w.registry a).owned.relayed? = some q
  lists : ∀ j x, n ≤ j → (w.pools a).activities[j]? = some x → x.Lists q

theorem Opens.step {n : Nat} (o : w.Opens a n q) (h : w.Traced) (keeps : Keeps a w d) :
    (w.step d).Opens a n q := by
  have moved := h.moves d a
  suffices ∀ p, w.Moves a d p → p.member.registry.owned.relayed? = some q ∧
      ∀ j x, n ≤ j → p.activities[j]? = some x → x.Lists q from
    ⟨(this _ moved).1, (this _ moved).2⟩
  rintro p moved
  cases moved with
  | still => exact ⟨o.own, o.lists⟩
  | worked genuine clock => exact (h.pools a).lists_step genuine o.own o.lists
  | placed => exact ⟨(congrArg Peer.relayed? (keeps rfl)).trans o.own, o.lists⟩

theorem Opens.run {n : Nat} (o : w.Opens a n q) (h : w.Traced)
    (keeps : w.Along (Keeps a) deeds) : (w.run deeds).Opens a n q := by
  induction deeds generalizing w with
  | nil => exact o
  | cons d deeds ih => exact ih (o.step h keeps.1) (h.step d) keeps.2

theorem opens_refresh {f : Refresher} {p : Peer} {r : Registry}
    (made : f.refresh w.clock (w.registry a) = .ok (p, r)) (own : p.key = (w.registry a).selfKey)
    (image : p.relayed? = some q) :
    (w.step (.place a (.refresh f))).Opens a (w.pools a).activities.length q := by
  have places := (w.registry a).places w.clock (.refresh f)
  simp only [Registry.place, made] at places
  have pool := w.pools_place a a (.refresh f)
  rw [if_pos rfl] at pool
  refine ⟨?_, fun j x late here => ?_⟩
  · rw [registry_place, if_pos rfl]
    simp only [Registry.place, made]
    rw [Peer.relayed?_congr (places.own p (List.mem_singleton_self p) own), image]
  · rw [pool] at here
    have there : j < (w.pools a).activities.length := (List.getElem?_eq_some_iff.mp here).1
    omega

theorem Traced.eq_of_le (h : w.Traced) (copied : Copied w.placed b q.key)
    (dated : ∀ x ∈ w.placed, x.2.key = q.key → Instant.inRange x.2.generated.seconds = true)
    (older : ∀ x ∈ w.placed, x.2.key = q.key →
      x.2.relayed? = some q ∨ x.2.generated.seconds < q.generated.seconds)
    (other : q.key ≠ (w.registry b).selfKey)
    (found : (w.registry b).get? q.key = some y) (le : q.generated ≤ y.generated) : y = q := by
  obtain ⟨member, key⟩ := Registry.get?_eq_some_iff.mp found
  have remote := Peer.toRemote_eq_self (Registry.isSelf_of_get? found other)
  obtain ⟨x, placed, key', read⟩ : ∃ x ∈ w.placed, x.2.key = q.key ∧ x.2.relayed? = some y := by
    rcases (h.pools b).held y member with ⟨x, placed, same⟩ | ⟨i, x, placed, key', read⟩
    · have key' : x.key = q.key := (congrArg Peer.key same.symm :).trans key
      refine ⟨(b, x), placed, key', ?_⟩
      rw [copied _ placed rfl key', ← same, remote]
    · exact ⟨(i, x), placed, key'.trans key, (Peer.relayed?_eq_some_iff w.clock).mpr (read _)⟩
  rcases older x placed key' with same | before
  · exact Option.some.inj (read.symm.trans same)
  · have whole := Wire.generated_of_toPeer (dated x placed key')
      ((Peer.relayed?_eq_some_iff w.clock).mp read)
    rw [whole, Instant.le_iff] at le
    simp only [Instant.ofSeconds] at le
    omega

theorem serves_serve {n : Nat} {body : Syn} (sent : w.sent[n]? = some (.syn body))
    (listed : q ∈ Record.toPeers body.known) :
    (w.step (.serve b n)).Serves b (w.pools b).activities.length q := by
  have begun : w.step (.serve b n) = w.work b (.start (.serveSyn body)) := by
    simp only [Mesh.step, sent]
    rfl
  have activities : ((w.step (.serve b n)).pools b).activities =
      (w.pools b).activities ++ [.sorting body] := by
    rw [begun, work, pools_setPool, if_pos rfl]
    rfl
  refine ⟨by simp [activities], fun x here => ?_⟩
  rw [activities, List.getElem?_concat_length] at here
  cases here
  exact listed

theorem Meets.answered {n : Nat} {body : Syn} {answer : SynAck} (h : w.Meets b q)
    (hq : q.generated.nanos = 0) (sent : w.sent[n]? = some (.syn body))
    (listed : q ∈ Record.toPeers body.known)
    (copied : Copied (w.run (.serve b n :: deeds)).placed b q.key)
    (passes : w.Along (Passes b q.key) (.serve b n :: deeds))
    (ended : ((w.run (.serve b n :: deeds)).pools b).activities[(w.pools b).activities.length]?.bind
      Activity.sends = some (.answer answer)) :
    ((w.run (.serve b n :: deeds)).registry b).AtLeast q.key q.generated := by
  have copied' : Copied w.placed b q.key := fun x hx => copied x (placed_run w _ hx)
  have served := (h.step copied' passes.1).run deeds copied passes.2
  obtain ⟨x, here, sends⟩ := Option.bind_eq_some_iff.mp ended
  exact ((served.2 _ hq (serves_serve sent listed)).brings x here).of_sends sends

theorem Traced.meets_refresh (h : w.Traced) {f : Refresher} {p : Peer} {r : Registry}
    (made : f.refresh w.clock (w.registry a) = .ok (p, r)) (own : p.key = (w.registry a).selfKey)
    (apart : p.key ≠ (w.registry b).selfKey) (known : p.key ∈ (w.registry b).keys)
    (leapless : w.clock.isLeap = false) (key : q.key = p.key)
    (whole : q.generated = .ofSeconds p.generated.seconds) :
    (w.step (.place a (.refresh f))).Meets b q := by
  have elsewhere : b ≠ a := fun same => apart (same ▸ own)
  refine ⟨h.step_place a _, ?_, ?_, leapless, ?_⟩
  · rwa [selfKey_place, key]
  · rwa [registry_place, if_neg elsewhere, key]
  · rw [whole, (Refresher.update_of_refresh made).2.2]
    exact .inr ⟨rfl, Nat.zero_le _⟩

theorem run_renewed {clock : Instant} {members : Fin size → Member}
    {before between after : List (Deed size)} {w made asked done : Mesh size} {a b : Fin size}
    {f : Refresher} {p q : Peer} {r : Registry} {j n : Nat} {body : Syn} {answer : SynAck}
    (reached : w = (start clock members).run before)
    (refreshed : f.refresh w.clock (w.registry a) = .ok (p, r))
    (own : p.key = (members a).registry.selfKey) (apart : p.key ≠ (members b).registry.selfKey)
    (known : p.key ∈ (w.registry b).keys) (leapless : w.clock.isLeap = false)
    (image : p.relayed? = some q)
    (making : made = w.step (.place a (.refresh f)))
    (asking : asked = made.run between)
    (keeps : made.Along (Keeps a) between) (passes : made.Along (Passes b p.key) between)
    (late : (made.pools a).activities.length ≤ j)
    (opened : (asked.pools a).activities[j]?.bind Activity.sends = some (.syn body))
    (sent : asked.sent[n]? = some (.syn body))
    (answering : done = asked.run (.serve b n :: after))
    (passes' : asked.Along (Passes b p.key) (.serve b n :: after))
    (answered : (done.pools b).activities[(asked.pools b).activities.length]?.bind
      Activity.sends = some (.answer answer))
    (copied : Copied done.placed b p.key)
    (dated : ∀ x ∈ done.placed, x.2.key = p.key → Instant.inRange x.2.generated.seconds = true) :
    ∃ y, (done.registry b).get? p.key = some y ∧ q.generated ≤ y.generated ∧
      ((∀ x ∈ done.placed, x.2.key = p.key →
        x.2.relayed? = some q ∨ x.2.generated.seconds < p.generated.seconds) → y = q) := by
  have traced : w.Traced := reached ▸ (traced_start clock members).run before
  have selfKey (m : Fin size) : (w.registry m).selfKey = (members m).registry.selfKey :=
    reached ▸ selfKey_run (traced_start clock members) before m
  have key : q.key = p.key := Peer.key_of_relayed? image
  have placing : (a, p) ∈ made.placed := by
    rw [making, mem_placed_place]
    exact .inr ⟨p, by simp only [Registry.place, refreshed, List.mem_singleton], rfl⟩
  have grown : made.placed ⊆ done.placed :=
    List.Subset.trans (asking ▸ placed_run made between) (answering ▸ placed_run asked _)
  have whole : q.generated = .ofSeconds p.generated.seconds :=
    Wire.generated_of_toPeer (dated _ (grown placing) rfl)
      ((Peer.relayed?_eq_some_iff w.clock).mp image)
  have nanos : q.generated.nanos = 0 := by rw [whole]; rfl
  have meets : made.Meets b q := making ▸ traced.meets_refresh refreshed
    (own.trans (selfKey a).symm) (fun same => apart (same.trans (selfKey b))) known leapless
    key whole
  have opens : made.Opens a (w.pools a).activities.length q := making ▸
    opens_refresh refreshed (own.trans (selfKey a).symm) image
  have early : (made.pools a).activities = (w.pools a).activities := by
    rw [making, pools_place, if_pos rfl]
    rfl
  rw [← key] at passes passes' copied dated ⊢
  obtain ⟨ready, -⟩ := meets.run between
    (asking ▸ fun x hx => copied x ((answering ▸ placed_run asked _) hx)) passes
  rw [← asking] at ready
  have listed : q ∈ Record.toPeers body.known := by
    have ran := opens.run meets.traced keeps
    rw [← asking] at ran
    obtain ⟨x, here, sends⟩ := Option.bind_eq_some_iff.mp opened
    exact (ran.lists j x (early ▸ late) here).of_sends sends
  have stored : (done.registry b).AtLeast q.key q.generated := by
    rw [answering] at copied answered ⊢
    exact ready.answered nanos sent listed copied passes' answered
  obtain ⟨y, found, le⟩ := stored
  refine ⟨y, found, le, fun older => ?_⟩
  have ended : done.Traced := answering ▸ ready.traced.run _
  have other : q.key ≠ (done.registry b).selfKey := by
    rw [answering, selfKey_run ready.traced]
    exact ready.other
  refine ended.eq_of_le copied dated (fun x hx same => ?_) other found le
  exact (older x hx same).imp_right fun before => by rw [whole]; exact before

theorem run_renewed_moved :
    let host (n : UInt8) := Peer.starting ⟨[n]⟩ (.v4 ⟨10, 0, 0, n⟩ 7000) ⟨90, 500⟩ "1" 2
    let members (i : Fin 2) : Member := ⟨.ofSelf (host (UInt8.ofNat i.val)), .log⟩
    let before : List (Deed 2) :=
      [.contact 0 (.seed (host 1).address), .advance 0 0, .advance 0 0, .serve 1 0, .advance 1 0,
        .advance 1 0, .advance 1 0, .advance 1 0, .hear 0 0 1, .advance 0 0, .cancel 0 0,
        .tick ⟨120, 300⟩]
    let w := (start (.ofSeconds 100) members).run before
    let s : PeerState := { PeerState.bootstrapping "2" 3 with status := .ok }
    let probes : Probes :=
      ⟨.ok (.v4 ⟨10, 0, 0, 9⟩, {}), .ok s.status, .ok s.cpuLoad, .ok s.ioWait, .ok s.freeDisk⟩
    let f : Refresher := ⟨⟨[1]⟩, 7000, s.version, s.fanout, probes, false⟩
    let made := w.step (.place 1 (.refresh f))
    let between : List (Deed 2) := [.contact 1 (.seed (host 0).address), .advance 1 1, .advance 1 1]
    let asked := made.run between
    let after : List (Deed 2) := List.replicate 5 (.advance 0 1)
    let done := asked.run (.serve 0 2 :: after)
    ((w.registry 0).get? ⟨[1]⟩).map Peer.state = some (host 1).state ∧
      (done.registry 0).get? ⟨[1]⟩ = some (f.refreshed ⟨120, 300⟩ (.v4 ⟨10, 0, 0, 9⟩) s).image := by
  intro host members before w s probes f made between asked after done
  refine ⟨by decide +kernel, ?_⟩
  let p := f.refreshed ⟨120, 300⟩ (.v4 ⟨10, 0, 0, 9⟩) s
  let opening := (Target.seed (host 0).address).opening ⟨120, 300⟩ p [p]
  let answer : SynAck :=
    { initiator := Record.ofPeer ⟨120, 300⟩ p
      receiver := Record.ofPeer ⟨120, 300⟩ (host 0)
      fresh := [Record.ofPeer ⟨120, 300⟩ (host 0)]
      wanted := [] }
  have found : f.Finds (.v4 ⟨10, 0, 0, 9⟩) s := ⟨rfl, rfl, rfl, rfl, rfl, rfl, rfl, rfl⟩
  have own : f.key = (w.registry 1).selfKey := by decide +kernel
  have clock : w.clock = ⟨120, 300⟩ := by decide +kernel
  obtain ⟨r, result, -⟩ := Refresher.refresh_own w.clock own found
  have refreshed : f.refresh w.clock (w.registry 1) = .ok (p, r) := result.trans (by rw [clock])
  have image : p.relayed? = some p.image := Peer.WireValid.relayed? (by decide)
  have known : p.key ∈ (w.registry 0).keys := by decide +kernel
  have keeps : made.Along (Keeps 1) between := ⟨trivial, trivial, trivial, trivial⟩
  have passes : made.Along (Passes 0 p.key) between := ⟨trivial, trivial, trivial, trivial⟩
  have late : (made.pools 1).activities.length ≤ 1 := by decide +kernel
  have sent : asked.sent[2]? = some (.syn opening) := by decide +kernel
  have opened : (asked.pools 1).activities[1]?.bind Activity.sends = some (.syn opening) := by
    decide +kernel
  have passes' : asked.Along (Passes 0 p.key) (.serve 0 2 :: after) :=
    ⟨trivial, trivial, trivial, trivial, trivial, trivial, trivial⟩
  have answered : (done.pools 0).activities[(asked.pools 0).activities.length]?.bind
      Activity.sends = some (.answer answer) := by decide +kernel
  have copied : Copied done.placed 0 p.key := by
    unfold Copied
    decide +kernel
  have dated : ∀ x ∈ done.placed, x.2.key = p.key →
      Instant.inRange x.2.generated.seconds = true := by decide +kernel
  have older : ∀ x ∈ done.placed, x.2.key = p.key →
      x.2.relayed? = some p.image ∨ x.2.generated.seconds < p.generated.seconds := by
    decide +kernel
  have leapless : w.clock.isLeap = false := by rw [clock]; rfl
  have reached : w = (start (.ofSeconds 100) members).run before := rfl
  have making : made = w.step (.place 1 (.refresh f)) := rfl
  have asking : asked = made.run between := rfl
  have answering : done = asked.run (.serve 0 2 :: after) := rfl
  -- The states are not to be evaluated again.
  clear_value done asked made w
  obtain ⟨y, stored, -, same⟩ := run_renewed reached refreshed (by decide) (by decide) known
    leapless image making asking keeps passes late opened sent answering passes' answered copied
    dated
  rw [same older] at stored
  exact stored

end Mesh

theorem Network.exchange_renewed_tie :
    let now : Instant := ⟨1000, 100000000⟩
    let later : Instant := ⟨1000, 900000000⟩
    let address (n : UInt8) : Endpoint := .v4 ⟨10, 0, 0, n⟩ 7000
    let s : PeerState := { PeerState.bootstrapping "1" 2 with status := .ok }
    let host (n : UInt8) : Peer := ⟨⟨[n]⟩, address n, now, true, some s⟩
    let probes : Probes := ⟨.ok (.v4 ⟨10, 0, 0, 1⟩, {}), .ok .ok, .ok .zero, .ok .zero, .ok .zero⟩
    let f : Refresher := ⟨⟨[1]⟩, 7000, "2", 2, probes, false⟩
    let node (n : UInt8) : Node := ⟨⟨.ofSelf (host n), .log⟩, some f, .fixed 0, {}, {}⟩
    let w : Network 2 :=
      { clock := now, nodes := #v[node 1, node 2], routes := [(address 2, { handler := .node 1 })] }
    let met := { (w.exchange 0 (.seed (address 2))).1 with clock := later }
    let renewed := met.setNode 0 ((met.node 0).refreshed later)
    let again := renewed.exchange 0 (.seed (address 2))
    let own := (renewed.member 0).registry.owned
    (met.member 1).registry.get? ⟨[1]⟩ = some (host 1).image ∧
      ¬later ≤ now ∧ own.generated = later ∧ own.state = some { s with version := "2" } ∧
      again.2.toOption.isSome ∧
      (again.1.member 1).registry.get? ⟨[1]⟩ = some (host 1).image ∧
      (host 1).image ≠ own.image := by
  decide +kernel

end Epidemic
