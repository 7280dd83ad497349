import Akita.Mem.Protocol

/-!
# Memory services

A memory that accepts reads and writes in one order and answers them in another. Data moves when a request is answered.

* `Settles s k` : no earlier accepted write to a byte of request `k` is still to be answered;
* `Ordered s k` : no earlier accepted request that conflicts with request `k` is;
* `settled_of_reaches`, `ordered_of_reaches` : what the reads return and what the memory holds in the end when every answer is
  given so.
-/

namespace Akita.Mem
open Option
open List hiding getElem?_eq_some_iff

/-- An access to the bytes of a flat memory. -/
inductive Access
  | read (address size : Nat)
  | write (address : Nat) (data : Bytes) (mask : Option Mask)
deriving DecidableEq

namespace Access

/-- The access changes byte `a`. -/
def writes : Access → Nat → Bool
  | read _ _, _ => false
  | write address data mask, a => covers address data mask a

/-- The access reads or changes byte `a`. -/
def touches : Access → Nat → Bool
  | read address size, a => address ≤ a && a < address + size
  | write address data mask, a => covers address data mask a

/-- The value a write gives to byte `a`. -/
def value : Access → Nat → UInt8
  | read _ _, _ => 0
  | write address data _, a => data.getD (a - address) 0

def effect (r : Access) (m : Nat → UInt8) : Nat → UInt8 := fun a => if r.writes a then r.value a else m a

/-- The bytes an access returns. -/
def data (r : Access) (m : Nat → UInt8) : Bytes :=
  match r with
  | read address size => (range size).map fun i => m (address + i)
  | write _ _ _ => []

theorem touches_of_writes {r : Access} {a : Nat} (h : r.writes a = true) : r.touches a = true := by
  cases r with
  | read => cases h
  | write => exact h

/-- The two accesses have a byte in common, and one of them writes it. -/
def Conflict (r q : Access) : Prop := ∃ a, (r.writes a = true ∧ q.touches a = true) ∨ (r.touches a = true ∧ q.writes a = true)

end Access

structure Service where
  initial : Nat → UInt8
  memory : Nat → UInt8
  accepted : List Access := []
  /-- The requests answered, by their places among the accepted ones, with the bytes returned. -/
  answered : List (Nat × Bytes) := []

namespace Service

def new (initial : Nat → UInt8) : Service := { initial, memory := initial }

def accept (s : Service) (r : Access) : Service := { s with accepted := s.accepted ++ [r] }

def answer (s : Service) (k : Nat) (r : Access) : Service :=
  { s with memory := r.effect s.memory, answered := s.answered ++ [(k, r.data s.memory)] }

/-- Request `k` was answered. -/
def Answered (s : Service) (k : Nat) : Prop := k ∈ s.answered.map Prod.fst

/-- The service accepts a request or answers one that was not answered, under a condition on the answer. -/
inductive Step (ok : Service → Nat → Prop) : Service → Service → Prop
  | accept (s : Service) (r : Access) : Step ok s (s.accept r)
  | answer (s : Service) (k : Nat) (r : Access) (hk : s.accepted[k]? = some r) (hnew : ¬ s.Answered k) (hok : ok s k) :
      Step ok s (s.answer k r)

/-- Every earlier write to a byte of request `k` was answered. -/
def Settles (s : Service) (k : Nat) : Prop :=
  ∀ j r q a, j < k → s.accepted[j]? = some r → s.accepted[k]? = some q → r.writes a = true → q.touches a = true → s.Answered j

/-- Every earlier request that conflicts with request `k` was answered. -/
def Ordered (s : Service) (k : Nat) : Prop :=
  ∀ j r q, j < k → s.accepted[j]? = some r → s.accepted[k]? = some q → r.Conflict q → s.Answered j

variable {s : Service} {k : Nat}

theorem Ordered.settles (h : s.Ordered k) : s.Settles k :=
  fun j r q a hj hr hq hw ht => h j r q hj hr hq ⟨a, .inl ⟨hw, ht⟩⟩

/-- Byte `a` has the value `v` of the last write among the requests of `p`, or the initial value. -/
def Last (s : Service) (p : Nat → Prop) (a : Nat) (v : UInt8) : Prop :=
  (∃ k r, p k ∧ s.accepted[k]? = some r ∧ r.writes a = true ∧ v = r.value a ∧
    ∀ j q, p j → s.accepted[j]? = some q → q.writes a = true → j ≤ k) ∨
  ((∀ j q, p j → s.accepted[j]? = some q → q.writes a = false) ∧ v = s.initial a)

variable {a : Nat}

theorem Last.congr {s t : Service} {p p' : Nat → Prop} {v : UInt8} (h : s.Last p a v) (hinitial : t.initial = s.initial)
    (hp : ∀ k r, s.accepted[k]? = some r → p k → r.writes a = true → p' k ∧ t.accepted[k]? = some r)
    (hp' : ∀ k r, t.accepted[k]? = some r → p' k → r.writes a = true → p k ∧ s.accepted[k]? = some r) : t.Last p' a v := by
  rcases h with ⟨k, r, hk, hr, hw, hv, hmax⟩ | ⟨hnone, hv⟩
  · refine .inl ⟨k, r, (hp k r hr hk hw).1, (hp k r hr hk hw).2, hw, hv, fun j q hj hq hqw => ?_⟩
    obtain ⟨hpj, hsj⟩ := hp' j q hq hj hqw
    exact hmax j q hpj hsj hqw
  · refine .inr ⟨fun j q hj hq => ?_, hinitial ▸ hv⟩
    cases hqw : q.writes a with
    | false => rfl
    | true =>
      obtain ⟨hpj, hsj⟩ := hp' j q hq hj hqw
      rw [hnone j q hpj hsj] at hqw
      cases hqw

/-- The answered requests are accepted ones, and the memory holds at each byte the last answered write. -/
structure Settled (s : Service) : Prop where
  accepted : ∀ k, s.Answered k → k < s.accepted.length
  once : (s.answered.map Prod.fst).Nodup
  settles : ∀ k, s.Answered k → s.Settles k
  memory : ∀ a, s.Last s.Answered a (s.memory a)

theorem Settled.new (initial : Nat → UInt8) : Settled (new initial) where
  accepted k hk := by cases hk
  once := nodup_nil
  settles k hk := by cases hk
  memory a := .inr ⟨fun _ _ hj => absurd hj not_mem_nil, rfl⟩

variable {initial : Nat → UInt8}

variable {ok : Service → Nat → Prop}

theorem initial_of_reaches (h : Relation.ReflTransGen (Step ok) (new initial) s) : s.initial = initial := by
  induction h with
  | refl => rfl
  | tail _ hstep ih =>
    cases hstep with
    | accept | answer => exact ih

theorem answered_answer (s : Service) (i : Nat) (r : Access) (k : Nat) :
    (s.answer i r).Answered k ↔ s.Answered k ∨ k = i := by
  simp [Answered, answer]

theorem getElem?_accept {r q : Access} (hk : k < s.accepted.length) :
    (s.accept r).accepted[k]? = some q ↔ s.accepted[k]? = some q := by
  rw [accept, getElem?_append_left hk]

variable {r : Access}

theorem lt_of_getElem? (h : s.accepted[k]? = some r) : k < s.accepted.length :=
  (List.getElem?_eq_some_iff.1 h).1

theorem Settled.accept (h : Settled s) (r : Access) : Settled (s.accept r) where
  accepted k hk := by
    have := h.accepted k hk
    simp only [Service.accept, length_append, length_singleton]
    omega
  once := h.once
  settles k hk j q p a hj hq hp hw ht := by
    have hk' := h.accepted k hk
    exact h.settles k hk j q p a hj ((getElem?_accept (by omega)).1 hq) ((getElem?_accept hk').1 hp) hw ht
  memory a := by
    refine (h.memory a).congr rfl (fun k q hq hk _ => ⟨hk, ?_⟩) fun k q hq hk _ => ⟨hk, ?_⟩
    · exact (getElem?_accept (h.accepted k hk)).2 hq
    · exact (getElem?_accept (h.accepted k hk)).1 hq

theorem Settled.le_of_answered (h : Settled s) {k j : Nat} {r q : Access} (hk : s.accepted[k]? = some r)
    (hnew : ¬ s.Answered k) (hr : r.writes a = true) (hj : s.Answered j) (hq : s.accepted[j]? = some q)
    (hqa : q.touches a = true) : j ≤ k := by
  by_contra hlt
  exact hnew (h.settles j hj k r q a (by omega) hk hq hr hqa)

theorem Settled.answer (h : Settled s) (hk : s.accepted[k]? = some r) (hnew : ¬ s.Answered k)
    (hok : s.Settles k) : Settled (s.answer k r) where
  accepted j hj := by
    rcases (answered_answer ..).1 hj with hj | rfl
    · exact h.accepted j hj
    · exact lt_of_getElem? hk
  once := by
    simp only [Service.answer, map_append, map_cons, map_nil]
    exact h.once.append (nodup_singleton _) fun j hj hmem => hnew (mem_singleton.1 hmem ▸ hj)
  settles j hj i q p a hi hq hp hw ht := by
    rcases (answered_answer ..).1 hj with hj | rfl
    · exact (answered_answer ..).2 (.inl (h.settles j hj i q p a hi hq hp hw ht))
    · exact (answered_answer ..).2 (.inl (hok i q p a hi hq hp hw ht))
  memory a := by
    by_cases hw : r.writes a = true
    · -- `k` is the last answered write to `a`
      refine .inl ⟨k, r, (answered_answer ..).2 (.inr rfl), hk,
        hw, by simp [Service.answer, Access.effect, hw], fun j q hj hq hqw => ?_⟩
      rcases (answered_answer ..).1 hj with hj | rfl
      · exact h.le_of_answered hk hnew hw hj hq (Access.touches_of_writes hqw)
      · exact Nat.le_refl _
    · have hsame : (s.answer k r).memory a = s.memory a := by simp [Service.answer, Access.effect, hw]
      rw [hsame]
      refine (h.memory a).congr rfl (fun j q hq hj _ => ⟨(answered_answer ..).2 (.inl hj), hq⟩) fun j q hq hj hqw => ⟨?_, hq⟩
      rcases (answered_answer ..).1 hj with hj | rfl
      · exact hj
      · have hkj : s.accepted[j]? = some q := hq
        rw [hk, some.injEq] at hkj
        exact absurd (hkj ▸ hqw) hw

/-- A request answered with its conditions met sees at each byte the last of the earlier writes, or a later one. -/
theorem Settled.byte_value (h : Settled s) {q : Access} (hq : s.accepted[k]? = some q) (hok : s.Settles k)
    (ha : q.touches a = true) {j : Nat} (hj : j < k) (hr : s.accepted[j]? = some r) (hw : r.writes a = true) :
    ∃ i p, j ≤ i ∧ s.accepted[i]? = some p ∧ p.writes a = true ∧ s.memory a = p.value a := by
  have hanswered := hok j r q a hj hr hq hw ha
  rcases h.memory a with ⟨i, p, -, hp, hpw, hv, hmax⟩ | ⟨hnone, -⟩
  · exact ⟨i, p, hmax j r hanswered hr hw, hp, hpw, hv⟩
  · rw [hnone j r hanswered hr] at hw
    cases hw

/-- Every read that was answered has at each byte the value of any write accepted before it, or of a later one. -/
def ReadsLater (s : Service) : Prop :=
  ∀ k d address size, (k, d) ∈ s.answered → s.accepted[k]? = some (.read address size) → d.length = size ∧
    ∀ i < size, ∀ j r, j < k → s.accepted[j]? = some r → r.writes (address + i) = true →
      ∃ m p, j ≤ m ∧ s.accepted[m]? = some p ∧ p.writes (address + i) = true ∧ d.getD i 0 = p.value (address + i)

/-- Every read that was answered has at each byte the value of the last write accepted before it. -/
def ReadsExact (s : Service) : Prop :=
  ∀ k d address size, (k, d) ∈ s.answered → s.accepted[k]? = some (.read address size) → d.length = size ∧
    ∀ i < size, s.Last (· < k) (address + i) (d.getD i 0)

/-- When all requests are answered, the memory has at each byte the value of the last accepted write. -/
def Final (s : Service) : Prop := (∀ k < s.accepted.length, s.Answered k) → ∀ a, s.Last (fun _ => True) a (s.memory a)

/-- What was returned is the data of the access in some memory. -/
theorem data_of_reaches (h : Relation.ReflTransGen (Step ok) (new initial) s) {d : Bytes} (hd : (k, d) ∈ s.answered) :
    ∃ r m, s.accepted[k]? = some r ∧ d = r.data m := by
  induction h with
  | refl => cases hd
  | tail _ hstep ih =>
    cases hstep with
    | accept =>
      obtain ⟨r, m, hr, hm⟩ := ih hd
      exact ⟨r, m, (getElem?_accept (lt_of_getElem? hr)).2 hr, hm⟩
    | @answer j q hq _ _ =>
      rcases mem_append.1 hd with hd | hd
      · exact ih hd
      · obtain ⟨rfl, rfl⟩ := Prod.mk.inj (mem_singleton.1 hd)
        exact ⟨q, _, hq, rfl⟩

theorem Settled.final (h : Settled s) : s.Final := by
  intro hall a
  exact (h.memory a).congr rfl (fun k r hr _ _ => ⟨trivial, hr⟩) fun k r hr _ _ => ⟨hall k (lt_of_getElem? hr), hr⟩

theorem getD_data {m : Nat → UInt8} {address size i : Nat} (hi : i < size) :
    ((Access.read address size).data m).getD i 0 = m (address + i) := by
  rw [Access.data, getD_eq_getElem?_getD, getElem?_map, getElem?_range hi]
  rfl

theorem touches_read {address size i : Nat} (hi : i < size) : (Access.read address size).touches (address + i) = true := by
  simp [Access.touches, hi]

theorem lt_length_of_mem (h : Settled s) {d : Bytes} (hk : (k, d) ∈ s.answered) : k < s.accepted.length :=
  h.accepted k (mem_map_of_mem hk)

theorem ReadsLater.accept (h : ReadsLater s) (hs : Settled s) (r : Access) : ReadsLater (s.accept r) := by
  intro k d address size hk hread
  have hlt := lt_length_of_mem hs hk
  obtain ⟨hlen, hbytes⟩ := h k d address size hk ((getElem?_accept hlt).1 hread)
  refine ⟨hlen, fun i hi j q hj hq hw => ?_⟩
  obtain ⟨m, p, hm, hp, hpw, hv⟩ := hbytes i hi j q hj ((getElem?_accept (by omega)).1 hq) hw
  exact ⟨m, p, hm, (getElem?_accept (lt_of_getElem? hp)).2 hp, hpw, hv⟩

theorem ReadsLater.answer (h : ReadsLater s) (hs : Settled s) (hk : s.accepted[k]? = some r)
    (hok : s.Settles k) : ReadsLater (s.answer k r) := by
  intro j d address size hj hread
  rcases mem_append.1 hj with hj | hj
  · exact h j d address size hj hread
  · obtain ⟨rfl, rfl⟩ := Prod.mk.inj (mem_singleton.1 hj)
    have hr : s.accepted[j]? = some (.read address size) := hread
    rw [hk, some.injEq] at hr
    subst hr
    refine ⟨by simp [Access.data], fun i hi m q hm hq hw => ?_⟩
    rw [getD_data hi]
    exact hs.byte_value hk hok (touches_read hi) hm hq hw

/-- A memory that answers only what is settled: each request at most once, reads not behind the writes accepted before them,
and in the end the last accepted writes. -/
theorem settled_of_reaches (h : Relation.ReflTransGen (Step Settles) (new initial) s) :
    Settled s ∧ ReadsLater s := by
  induction h with
  | refl => exact ⟨Settled.new initial, fun _ _ _ _ hk => absurd hk not_mem_nil⟩
  | tail _ hstep ih =>
    cases hstep with
    | accept r => exact ⟨ih.1.accept r, ih.2.accept ih.1 r⟩
    | answer _ _ hk hnew hok => exact ⟨ih.1.answer hk hnew hok, ih.2.answer ih.1 hk hok⟩

/-! ## Answers in order -/

/-- Every answered request was answered after the earlier requests it conflicts with. -/
def InOrder (s : Service) : Prop := ∀ k, s.Answered k → s.Ordered k

theorem InOrder.accept (h : InOrder s) (hs : Settled s) (r : Access) : InOrder (s.accept r) := by
  intro k hk j q p hj hq hp hconflict
  have hlt := hs.accepted k hk
  exact h k hk j q p hj ((getElem?_accept (by omega)).1 hq) ((getElem?_accept hlt).1 hp) hconflict

theorem InOrder.answer (h : InOrder s) (r : Access) (hok : s.Ordered k) : InOrder (s.answer k r) := by
  intro j hj i q p hi hq hp hconflict
  rcases (answered_answer ..).1 hj with hj | rfl
  · exact (answered_answer ..).2 (.inl (h j hj i q p hi hq hp hconflict))
  · exact (answered_answer ..).2 (.inl (hok i q p hi hq hp hconflict))

theorem InOrder.byte_exact (h : InOrder s) (hs : Settled s) {k address size : Nat}
    (hk : s.accepted[k]? = some (.read address size)) (hnew : ¬ s.Answered k) (hok : s.Ordered k)
    (ha : (Access.read address size).touches a = true) : s.Last (· < k) a (s.memory a) := by
  refine (hs.memory a).congr rfl (fun j q hq hj hw => ⟨?_, hq⟩) fun j q hq hj hw => ⟨?_, hq⟩
  · -- a later write that was answered would have waited for the read
    rcases Nat.lt_trichotomy j k with hlt | rfl | hgt
    · exact hlt
    · exact absurd hj hnew
    · exact absurd (h j hj k _ q hgt hk hq ⟨a, .inr ⟨ha, hw⟩⟩) hnew
  · exact hok j q _ hj hq hk ⟨a, .inl ⟨hw, ha⟩⟩

theorem ReadsExact.accept (h : ReadsExact s) (hs : Settled s) (r : Access) : ReadsExact (s.accept r) := by
  intro k d address size hk hread
  have hlt := lt_length_of_mem hs hk
  obtain ⟨hlen, hbytes⟩ := h k d address size hk ((getElem?_accept hlt).1 hread)
  refine ⟨hlen, fun i hi => (hbytes i hi).congr rfl (fun j q hq hj _ => ⟨hj, ?_⟩) fun j q hq hj _ => ⟨hj, ?_⟩⟩
  · exact (getElem?_accept (lt_of_getElem? hq)).2 hq
  · have hlt' : j < k := hj
    exact (getElem?_accept (by omega)).1 hq

theorem ReadsExact.answer (h : ReadsExact s) (hs : Settled s) (ho : InOrder s)
    (hk : s.accepted[k]? = some r) (hnew : ¬ s.Answered k) (hok : s.Ordered k) : ReadsExact (s.answer k r) := by
  intro j d address size hj hread
  rcases mem_append.1 hj with hj | hj
  · exact h j d address size hj hread
  · obtain ⟨rfl, rfl⟩ := Prod.mk.inj (mem_singleton.1 hj)
    have hr : s.accepted[j]? = some (.read address size) := hread
    rw [hk, some.injEq] at hr
    subst hr
    refine ⟨by simp [Access.data], fun i hi => ?_⟩
    rw [getD_data hi]
    exact ho.byte_exact hs hk hnew hok (touches_read hi)

/-- A memory that answers conflicting requests in the order of their acceptance: reads return the last earlier writes. -/
theorem ordered_of_reaches (h : Relation.ReflTransGen (Step Ordered) (new initial) s) :
    Settled s ∧ InOrder s ∧ ReadsExact s := by
  induction h with
  | refl =>
    exact ⟨Settled.new initial, forall_mem_nil _, fun _ _ _ _ hk => absurd hk not_mem_nil⟩
  | tail _ hstep ih =>
    obtain ⟨hs, ho, hr⟩ := ih
    cases hstep with
    | accept r => exact ⟨hs.accept r, ho.accept hs r, hr.accept hs r⟩
    | answer _ r hk hnew hok => exact ⟨hs.answer hk hnew hok.settles, ho.answer r hok, hr.answer hs ho hk hnew hok⟩

/-! ## One request at a time -/

/-- Requests answered in the order of their acceptance were answered in order. -/
theorem ordered_of_range (h : Relation.ReflTransGen (Step ok) (new initial) s) {n : Nat}
    (hn : s.answered.map Prod.fst = range n) : Relation.ReflTransGen (Step Ordered) (new initial) s := by
  induction h generalizing n with
  | refl => exact .refl
  | @tail s _ _ hstep ih =>
    cases hstep with
    | accept r => exact (ih hn).tail (.accept s r)
    | answer k r hk hnew _ =>
      cases n with
      | zero => simp [answer] at hn
      | succ n =>
        simp only [answer, map_append, map_cons, map_nil, range_succ] at hn
        obtain ⟨hbefore, hlast⟩ := append_inj' hn rfl
        obtain rfl : k = n := by simpa using hlast
        refine (ih hbefore).tail (.answer s k r hk hnew fun j q p hj _ _ _ => ?_)
        rw [Answered, hbefore]
        exact mem_range.2 hj

theorem Last.unique {p : Nat → Prop} {v v' : UInt8} (h : s.Last p a v) (h' : s.Last p a v') : v = v' := by
  rcases h with ⟨k, r, hk, hr, hw, rfl, hmax⟩ | ⟨hnone, rfl⟩
  · rcases h' with ⟨k', r', hk', hr', hw', rfl, hmax'⟩ | ⟨hnone, -⟩
    · obtain rfl := Nat.le_antisymm (hmax' k r hk hr hw) (hmax k' r' hk' hr' hw')
      rw [hr, some.injEq] at hr'
      rw [hr']
    · rw [hnone k r hk hr] at hw
      cases hw
  · rcases h' with ⟨k', r', hk', hr', hw', -, -⟩ | ⟨-, rfl⟩
    · rw [hnone k' r' hk' hr'] at hw'
      cases hw'
    · rfl

theorem ReadsExact.data_eq {s t : Service} (hs : s.ReadsExact) (ht : t.ReadsExact) (hinitial : s.initial = t.initial)
    (haccepted : s.accepted = t.accepted) {d d' : Bytes} {address size : Nat}
    (hread : s.accepted[k]? = some (.read address size)) (hd : (k, d) ∈ s.answered) (hd' : (k, d') ∈ t.answered) :
    d = d' := by
  obtain ⟨hlen, hbytes⟩ := hs k d address size hd hread
  obtain ⟨hlen', hbytes'⟩ := ht k d' address size hd' (haccepted ▸ hread)
  refine ext_getElem (hlen.trans hlen'.symm) fun i hi hi' => ?_
  have hlast := (hbytes i (hlen ▸ hi)).congr (t := t) hinitial.symm (fun j r hr hj _ => ⟨hj, haccepted ▸ hr⟩)
    fun j r hr hj _ => ⟨hj, haccepted ▸ hr⟩
  have := hlast.unique (hbytes' i (hlen' ▸ hi'))
  simpa [getD_eq_getElem?_getD, hi, hi'] using this

/-- Two memories that answered the same requests in order returned the same bytes. -/
theorem data_eq_of_ordered {s t : Service} (hs : Relation.ReflTransGen (Step Ordered) (new initial) s)
    (ht : Relation.ReflTransGen (Step Ordered) (new initial) t) (haccepted : s.accepted = t.accepted) {d d' : Bytes}
    (hd : (k, d) ∈ s.answered) (hd' : (k, d') ∈ t.answered) : d = d' := by
  obtain ⟨r, _, hr, hm⟩ := data_of_reaches hs hd
  obtain ⟨_, _, hr', hm'⟩ := data_of_reaches ht hd'
  rw [← haccepted, hr, some.injEq] at hr'
  subst hr'
  cases r with
  | read =>
    have hinitial : s.initial = t.initial := (initial_of_reaches hs).trans (initial_of_reaches ht).symm
    exact (ordered_of_reaches hs).2.2.data_eq (ordered_of_reaches ht).2.2 hinitial haccepted hr hd hd'
  | write _ data => rw [hm, hm', Access.data, Access.data]

/-- When all requests are answered the memories are the same. -/
theorem Final.memory_eq {s t : Service} (hs : s.Final) (ht : t.Final) (hinitial : s.initial = t.initial)
    (haccepted : s.accepted = t.accepted) (hall : ∀ k < s.accepted.length, s.Answered k)
    (hall' : ∀ k < t.accepted.length, t.Answered k) : s.memory = t.memory := by
  funext a
  have hlast := (hs hall a).congr (t := t) hinitial.symm (fun j r hr hj _ => ⟨hj, haccepted ▸ hr⟩)
    fun j r hr hj _ => ⟨hj, haccepted ▸ hr⟩
  exact hlast.unique (ht hall' a)

end Service

end Akita.Mem
