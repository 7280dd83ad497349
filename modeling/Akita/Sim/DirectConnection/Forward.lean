import Akita.Sim.DirectConnection

/-!
# What a direct connection moves

The operations of a direct connection without the schedulers.

* `State.Forwarded` : `forwardMany` moves the first messages of a buffer to their ports, and stops at a blocked one;
* `State.Carried` : the messages of each source are, in order, in the ports of their destinations and then in its buffer.
  `Carried.forwardAll` : the loop of a tick keeps it.
-/

namespace Akita.Sim
open Function List

variable {C K P : Type} {sys : System C K P}

/-- A message as it was sent. -/
def Msg.plain (m : Msg P) : Msg P := { m with recvTime := 0 }

namespace State

variable [DecidableEq C] [DecidableEq K] [DecidableEq P] {s s' : State sys} {p : P} {now : ℚ}

omit [DecidableEq P] in
theorem notify_eq {c : C} (h : s.notify c now = .ok s') :
    ∃ clock, s' = { s with clock, notified := update s.notified c true } := by
  obtain ⟨clock, -, h⟩ := eq_ok_of_bind h
  cases h
  exact ⟨clock, rfl⟩

omit [DecidableEq P] in
theorem notifyAvailable_eq {k : K} (h : s.notifyAvailable k now = .ok s') :
    ∃ clock, s' = { s with clock } ∧ now ≤ clock.nextTickTime (.inr k) := by
  obtain ⟨clock, hclock, h⟩ := eq_ok_of_bind h
  cases h
  refine ⟨clock, rfl, ?_⟩
  rcases Clock.tickAt_eq_ok hclock with ⟨hle, rfl⟩ | ⟨-, -, _, -, rfl⟩
  · exact hle
  · change now ≤ update s.clock.nextTickTime (Sum.inr k) now (Sum.inr k)
    rw [update_self]

variable {msg : Msg P}

theorem recv_cases {taken : Bool} (h : s.recv p msg = .ok (taken, s')) :
    (taken = true ∧ (s.ports p).buf.canPush = true ∧ ∃ clock, s' = { s with
      clock
      ports := update s.ports p { s.ports p with buf := ⟨(s.ports p).buf.elements ++ [msg]⟩ }
      notified := update s.notified (sys.comp p) true }) ∨
    (taken = false ∧ (s.ports p).buf.canPush = false ∧
      s' = { s with ports := update s.ports p { s.ports p with portBusy := true } }) := by
  unfold State.recv at h
  simp only at h
  split at h
  · next hpush =>
    obtain ⟨_, ht, h⟩ := eq_ok_of_bind h
    cases h
    obtain ⟨clock, rfl⟩ := notify_eq ht
    exact .inl ⟨rfl, hpush, clock, rfl⟩
  · next hfull =>
    cases h
    exact .inr ⟨rfl, Bool.eq_false_iff.mpr hfull, rfl⟩

theorem notifySource_cases (h : s.notifySource p now = .ok s') :
    ((s.ends p).busy = true ∧ ∃ clock, s' = { s with
      clock
      ends := update s.ends p { s.ends p with busy := false }
      notified := update s.notified (sys.comp p) true }) ∨
    ((s.ends p).busy = false ∧ s' = s) := by
  unfold State.notifySource at h
  split at h
  · next hbusy =>
    obtain ⟨_, ht, h⟩ := eq_ok_of_bind h
    cases h
    obtain ⟨clock, rfl⟩ := notify_eq ht
    exact .inl ⟨hbusy, clock, rfl⟩
  · next hidle =>
    cases h
    exact .inr ⟨Bool.eq_false_iff.mpr hidle, rfl⟩

/-! ## A source -/

/-- The first message of a source goes to its port, and the source is notified if it waits. -/
structure Moved (p : P) (msg : Msg P) (rest : List (Msg P)) (s s' : State sys) : Prop where
  buf : (s'.ends p).buf = rest
  busy : (s'.ends p).busy = false
  others : ∀ q, q ≠ p → s'.ends q = s.ends q
  ports : ∀ d, (s'.ports d).buf.elements = (s.ports d).buf.elements ++ if msg.dst = d then [msg] else []
  portBusy : ∀ d, (s'.ports d).portBusy = (s.ports d).portBusy
  pushed : (s.ports msg.dst).buf.canPush = true
  notified : ∀ c, s.notified c = true → s'.notified c = true
  source : (s.ends p).busy = true → s'.notified (sys.comp p) = true
  nextPortID : s'.nextPortID = s.nextPortID

theorem Moved.of_recv {rest : List (Msg P)} {t : State sys} (ht : s.recv msg.dst msg = .ok (true, t))
    (hs' : { t with ends := update t.ends p { t.ends p with buf := rest } }.notifySource p now = .ok s') :
    Moved p msg rest s s' := by
  rcases recv_cases ht with ⟨-, hpush, _, rfl⟩ | ⟨hfalse, -⟩
  · have hports : ∀ d, (update s.ports msg.dst
        { s.ports msg.dst with buf := ⟨(s.ports msg.dst).buf.elements ++ [msg]⟩ } d).buf.elements =
          (s.ports d).buf.elements ++ (if msg.dst = d then [msg] else []) ∧
        (update s.ports msg.dst
          { s.ports msg.dst with buf := ⟨(s.ports msg.dst).buf.elements ++ [msg]⟩ } d).portBusy = (s.ports d).portBusy := by
      intro d
      by_cases hd : msg.dst = d
      · subst hd
        rw [update_self, if_pos rfl]
        exact ⟨rfl, rfl⟩
      · rw [update_of_ne (Ne.symm hd), if_neg hd, append_nil]
        exact ⟨rfl, rfl⟩
    have hnotified : ∀ (f : C → Bool) c c', f c = true → update f c' true c = true := by
      intro f c c' hc
      by_cases hcc : c = c'
      · rw [hcc, update_self]
      · rwa [update_of_ne hcc]
    rcases notifySource_cases hs' with ⟨-, _, rfl⟩ | ⟨hidle, rfl⟩
    · refine ⟨by simp, by simp, fun q hq => ?_, fun d => (hports d).1, fun d => (hports d).2, hpush,
        fun c hc => hnotified _ _ _ (hnotified _ _ _ hc), fun _ => update_self .., rfl⟩
      exact (update_of_ne hq ..).trans (update_of_ne hq ..)
    · refine ⟨by simp, hidle, fun q hq => update_of_ne hq .., fun d => (hports d).1, fun d => (hports d).2, hpush,
        fun c hc => hnotified _ _ _ hc, fun hbusy => ?_, rfl⟩
      simp only [update_self] at hidle
      rw [hidle] at hbusy
      cases hbusy
  · cases hfalse

variable {m : Msg P}

omit [DecidableEq C] [DecidableEq K] in
theorem Moved.blocked {rest : List (Msg P)} (h : Moved p msg rest s s') (hm : s.Blocked m) : s'.Blocked m := by
  -- a full port is not the one that takes the message
  have hne : msg.dst ≠ m.dst := by
    intro heq
    have hpush := h.pushed
    rw [heq, hm.1] at hpush
    cases hpush
  have helements := h.ports m.dst
  rw [if_neg hne, append_nil] at helements
  refine ⟨?_, (h.portBusy m.dst).trans hm.2⟩
  rw [Buffer.canPush, helements]
  exact hm.1

/-- The messages `sent` of a source go to their ports, the messages `rest` stay. -/
structure Forwarded (p : P) (now : ℚ) (sent rest : List (Msg P)) (s s' : State sys) : Prop where
  buf : (s'.ends p).buf.map Msg.plain = rest.map Msg.plain
  others : ∀ q, q ≠ p → s'.ends q = s.ends q
  ports : ∀ d, (s'.ports d).buf.elements =
    (s.ports d).buf.elements ++ (sent.filter fun m => decide (m.dst = d)).map fun m => { m with recvTime := now }
  room : ∀ d, (s.ports d).buf.elements.length ≤ sys.capacity d → (s'.ports d).buf.elements.length ≤ sys.capacity d
  blocked : ∀ m, s.Blocked m → s'.Blocked m
  head : ∀ m, (s'.ends p).buf.head? = some m → s'.Blocked m
  notified : ∀ c, s.notified c = true → s'.notified c = true
  source : (s.ends p).busy = true → sent ≠ [] → s'.notified (sys.comp p) = true
  waits : (s.ends p).busy = true → sent = [] → (s'.ends p).busy = true
  nextPortID : s'.nextPortID = s.nextPortID

omit [DecidableEq C] [DecidableEq K] in
theorem Forwarded.cons {head : Msg P} {sent rest msgs : List (Msg P)} {u : State sys}
    (hu : Moved p { head with recvTime := now } msgs s u) (h : Forwarded p now sent rest u s') :
    Forwarded p now (head :: sent) rest s s' := by
  refine ⟨h.buf, fun q hq => (h.others q hq).trans (hu.others q hq), fun d => ?_, fun d hd => h.room d ?_,
    fun m hm => h.blocked m (hu.blocked hm), h.head, fun c hc => h.notified c (hu.notified c hc),
    fun hbusy _ => h.notified _ (hu.source hbusy), fun _ hnil => absurd hnil (cons_ne_nil _ _),
    h.nextPortID.trans hu.nextPortID⟩
  · rw [h.ports d, hu.ports d, append_assoc, filter_cons]
    by_cases hd : head.dst = d
    · rw [if_pos hd, if_pos (decide_eq_true hd), map_cons, singleton_append]
    · rw [if_neg hd, if_neg (by simpa using hd), nil_append]
  · rw [hu.ports d]
    split
    · next heq =>
      have hpush := hu.pushed
      rw [heq, Buffer.canPush, decide_eq_true_eq] at hpush
      rw [length_append]
      exact hpush
    · rw [append_nil]
      exact hd

omit [DecidableEq C] [DecidableEq K] in
theorem elements_busy (ports : (p : P) → LimitNumMsgPort (sys.capacity p) P) (p d : P) :
    (update ports p { ports p with portBusy := true } d).buf.elements = (ports d).buf.elements := by
  by_cases hd : d = p
  · subst hd
    rw [update_self]
  · rw [update_of_ne hd]

omit [DecidableEq C] [DecidableEq K] in
theorem blocked_busy (hfull : (s.ports p).buf.canPush = false) (hm : s.Blocked m) :
    Blocked { s with ports := update s.ports p { s.ports p with portBusy := true } } m := by
  by_cases hd : m.dst = p
  · subst hd
    exact ⟨by simpa using hfull, by simp⟩
  · simpa [Blocked, update_of_ne hd] using hm

variable {progress : Bool}

theorem forwardMany_eq {msgs : List (Msg P)} (hbuf : (s.ends p).buf = msgs)
    (h : forwardMany p now msgs s = .ok (progress, s')) :
    ∃ sent rest, msgs = sent ++ rest ∧ Forwarded p now sent rest s s' ∧
      ∀ m, msgs.head? = some m → (s.ports m.dst).buf.canPush = true → sent ≠ [] := by
  induction msgs generalizing s progress with
  | nil =>
    cases h
    refine ⟨[], [], rfl, ⟨by rw [hbuf], fun _ _ => rfl, fun d => (append_nil _).symm, fun _ hd => hd, fun _ hm => hm,
      fun m hm => ?_, fun _ hc => hc, fun _ hne => absurd rfl hne, fun hbusy _ => hbusy, rfl⟩, fun m hm => by cases hm⟩
    rw [hbuf] at hm
    cases hm
  | cons head msgs ih =>
    obtain ⟨⟨taken, _⟩, ht, h⟩ := eq_ok_of_bind h
    cases taken with
    | true =>
      obtain ⟨u, hu, h⟩ := eq_ok_of_bind h
      obtain ⟨⟨_, _⟩, hv, h⟩ := eq_ok_of_bind h
      cases h
      have hmoved : Moved p { head with recvTime := now } msgs s u := Moved.of_recv ht hu
      obtain ⟨sent, rest, rfl, hforwarded, -⟩ := ih hmoved.buf hv
      exact ⟨head :: sent, rest, rfl, hforwarded.cons hmoved, fun _ _ _ => cons_ne_nil _ _⟩
    | false =>
      cases h
      rcases recv_cases ht with ⟨htrue, -⟩ | ⟨-, hfull, rfl⟩
      · cases htrue
      refine ⟨[], head :: msgs, rfl, ⟨?_, fun q hq => update_of_ne hq .., fun d => ?_, fun d hd => ?_, fun m hm => ?_,
        fun m hm => ?_, fun _ hc => hc, fun _ hne => absurd rfl hne, fun hbusy _ => ?_, rfl⟩, fun m hm hpush => ?_⟩
      · change (update s.ends p { s.ends p with buf := _ } p).buf.map Msg.plain = _
        rw [update_self]
        rfl
      · rw [filter_nil, map_nil, append_nil]
        exact elements_busy ..
      · rw [← elements_busy s.ports head.dst d] at hd
        exact hd
      · exact blocked_busy hfull hm
      · simp only [update_self, head?_cons, Option.some.injEq] at hm
        subst hm
        exact ⟨by simpa [Buffer.canPush] using hfull, by simp⟩
      · simpa using hbusy
      · cases hm
        rw [hfull] at hpush
        cases hpush

/-! ## All sources -/

/-- The messages of each source are, in the order they were accepted, in the ports of their destinations (or retrieved from
there) and then in its buffer. -/
structure Carried (accepted retrieved : P → List (Msg P)) (s : State sys) : Prop where
  own : ∀ p, ∀ m ∈ accepted p, m.src = p ∧ sys.conn m.dst = sys.conn p ∧ m.dst ≠ p
  order : ∀ p, ∃ out, accepted p = out ++ (s.ends p).buf.map Msg.plain ∧
    ∀ d, ((retrieved d ++ (s.ports d).buf.elements).filter fun m => decide (m.src = p)).map Msg.plain =
      out.filter fun m => decide (m.dst = d)
  room : ∀ p, (s.ends p).buf.length ≤ sys.bufSize p
  ports : ∀ d, (s.ports d).buf.elements.length ≤ sys.capacity d

variable {accepted retrieved : P → List (Msg P)} {sent rest : List (Msg P)}

omit [DecidableEq C] [DecidableEq K] in
theorem Carried.src (h : Carried accepted retrieved s) (hm : m ∈ (s.ends p).buf) : m.src = p := by
  obtain ⟨_, hout, -⟩ := h.order p
  refine (h.own p m.plain ?_).1
  rw [hout]
  exact mem_append_right _ (mem_map_of_mem hm)

omit [DecidableEq C] [DecidableEq K] in
theorem Carried.forwarded (h : Carried accepted retrieved s) (hbuf : (s.ends p).buf = sent ++ rest)
    (hf : Forwarded p now sent rest s s') : Carried accepted retrieved s' := by
  have hsrc : ∀ m ∈ sent, m.src = p := fun m hm => h.src (by rw [hbuf]; exact mem_append_left _ hm)
  have hlen := congrArg length hf.buf
  rw [length_map, length_map] at hlen
  refine ⟨h.own, fun q => ?_, fun q => ?_, fun d => hf.room d (h.ports d)⟩
  · obtain ⟨out, hout, hports⟩ := h.order q
    by_cases hq : q = p
    · subst hq
      refine ⟨out ++ sent.map Msg.plain, ?_, fun d => ?_⟩
      · rw [hout, hbuf, hf.buf, map_append, append_assoc]
      · rw [hf.ports d, ← append_assoc, filter_append, map_append, hports d, filter_append]
        congr 1
        rw [filter_map, map_map, filter_map, filter_filter]
        refine congrArg₂ map rfl (filter_congr fun m hm => ?_)
        simp [hsrc m hm]
        rfl
    · refine ⟨out, by rw [hf.others q hq, hout], fun d => ?_⟩
      rw [hf.ports d, ← append_assoc, filter_append, map_append, hports d]
      have hnone : (((sent.filter fun m => decide (m.dst = d)).map fun m => { m with recvTime := now }).filter
          fun m => decide (m.src = q)) = [] := by
        rw [filter_eq_nil_iff]
        intro m hm
        obtain ⟨m', hm', rfl⟩ := mem_map.mp hm
        simpa [hsrc m' (mem_of_mem_filter hm')] using Ne.symm hq
      rw [hnone, map_nil, append_nil]
  · by_cases hq : q = p
    · subst hq
      have hle := h.room q
      rw [hbuf, length_append] at hle
      omega
    · rw [hf.others q hq]
      exact h.room q

/-- What a tick does: it keeps the order, and each source that it looks at stops at a blocked message. -/
structure Swept (ports : List P) (s s' : State sys) : Prop where
  others : ∀ p, p ∉ ports → s'.ends p = s.ends p
  carried : ∀ accepted retrieved, Carried accepted retrieved s → Carried accepted retrieved s'
  blocked : ∀ m, s.Blocked m → s'.Blocked m
  head : ∀ p ∈ ports, ∀ m, (s'.ends p).buf.head? = some m → s'.Blocked m
  fewer : ∀ p, (s'.ends p).buf.length ≤ (s.ends p).buf.length
  notified : ∀ c, s.notified c = true → s'.notified c = true
  source : ∀ p, (s.ends p).busy = true →
    ((s'.ends p).buf.length = (s.ends p).buf.length ∧ (s'.ends p).busy = true) ∨
    ((s'.ends p).buf.length < (s.ends p).buf.length ∧ s'.notified (sys.comp p) = true)
  nextPortID : s'.nextPortID = s.nextPortID

theorem Swept.forwardMany (h : forwardMany p now (s.ends p).buf s = .ok (progress, s')) :
    Swept [p] s s' ∧ ∀ m, (s.ends p).buf.head? = some m → (s.ports m.dst).buf.canPush = true →
      (s'.ends p).buf.length < (s.ends p).buf.length := by
  obtain ⟨sent, _, hbuf, hf, hfirst⟩ := forwardMany_eq rfl h
  have hlen := congrArg length hf.buf
  have hall := congrArg length hbuf
  rw [length_map, length_map] at hlen
  rw [length_append] at hall
  refine ⟨⟨fun q hq => hf.others q (ne_of_not_mem_cons hq), fun accepted retrieved hc => hc.forwarded hbuf hf, hf.blocked,
    fun q hq m hm => ?_, fun q => ?_, hf.notified, fun q hbusy => ?_, hf.nextPortID⟩, fun m hm hpush => ?_⟩
  · rw [mem_singleton.mp hq] at hm
    exact hf.head m hm
  · by_cases hq : q = p
    · subst hq
      omega
    · rw [hf.others q hq]
  · by_cases hq : q = p
    · subst hq
      by_cases hnil : sent = []
      · refine .inl ⟨?_, hf.waits hbusy hnil⟩
        rw [hnil, length_nil] at hall
        omega
      · have hpos := length_pos_iff.mpr hnil
        exact .inr ⟨by omega, hf.source hbusy hnil⟩
    · rw [hf.others q hq]
      exact .inl ⟨rfl, hbusy⟩
  · have hpos := length_pos_iff.mpr (hfirst m hm hpush)
    omega

omit [DecidableEq C] [DecidableEq K] in
theorem Swept.refl (s : State sys) : Swept [] s s :=
  ⟨fun _ _ => rfl, fun _ _ hc => hc, fun _ hm => hm, forall_mem_nil _, fun _ => le_refl _, fun _ hc => hc,
    fun _ hbusy => .inl ⟨rfl, hbusy⟩, rfl⟩

omit [DecidableEq C] [DecidableEq K] in
theorem Swept.trans {ports ports' : List P} {t : State sys} (h : Swept ports s t) (h' : Swept ports' t s') :
    Swept (ports ++ ports') s s' := by
  refine ⟨fun p hp => ?_, fun accepted retrieved hc => h'.carried _ _ (h.carried _ _ hc),
    fun m hm => h'.blocked m (h.blocked m hm),
    fun p hp m hm => ?_, fun p => (h'.fewer p).trans (h.fewer p), fun c hc => h'.notified c (h.notified c hc),
    fun p hbusy => ?_, h'.nextPortID.trans h.nextPortID⟩
  · rw [mem_append, not_or] at hp
    exact (h'.others p hp.2).trans (h.others p hp.1)
  · by_cases hp' : p ∈ ports'
    · exact h'.head p hp' m hm
    · rw [h'.others p hp'] at hm
      exact h'.blocked m (h.head p ((mem_append.mp hp).resolve_right hp') m hm)
  · rcases h.source p hbusy with ⟨hlen, hbusy'⟩ | ⟨hlen, hnote⟩
    · rcases h'.source p hbusy' with ⟨hlen', hbusy''⟩ | ⟨hlen', hnote⟩
      · exact .inl ⟨hlen'.trans hlen, hbusy''⟩
      · exact .inr ⟨by omega, hnote⟩
    · exact .inr ⟨Nat.lt_of_le_of_lt (h'.fewer p) hlen, h'.notified _ hnote⟩

theorem Swept.forwardAll {ports : List P} (h : forwardAll now ports s = .ok (progress, s')) : Swept ports s s' := by
  induction ports generalizing s progress with
  | nil =>
    cases h
    exact Swept.refl s'
  | cons _ _ ih =>
    obtain ⟨⟨_, _⟩, ht, h⟩ := eq_ok_of_bind h
    obtain ⟨⟨_, _⟩, hu, h⟩ := eq_ok_of_bind h
    cases h
    exact (Swept.forwardMany ht).1.trans (ih hu)

/-- The source that is looked at first moves a message, if it has one and there is room for it. -/
theorem Swept.first {ports : List P} (h : State.forwardAll now (p :: ports) s = .ok (progress, s'))
    (hm : (s.ends p).buf.head? = some m) (hpush : (s.ports m.dst).buf.canPush = true) :
    (s'.ends p).buf.length < (s.ends p).buf.length := by
  obtain ⟨⟨_, _⟩, ht, h⟩ := eq_ok_of_bind h
  obtain ⟨⟨_, _⟩, hu, h⟩ := eq_ok_of_bind h
  cases h
  exact Nat.lt_of_le_of_lt ((Swept.forwardAll hu).fewer p) ((Swept.forwardMany ht).2 m hm hpush)

/-- A tick looks at all sources of the connection, and the next one begins with the next port. -/
theorem tick_eq {k : K} (h : s.tick k now = .ok (progress, s')) :
    ∃ t, forwardAll now ((sys.ports k).rotate (s.nextPortID k)) s = .ok (progress, t) ∧
      s' = { t with nextPortID := update t.nextPortID k ((t.nextPortID k + 1) % (sys.ports k).length) } := by
  obtain ⟨⟨_, t⟩, ht, h⟩ := eq_ok_of_bind h
  simp only at h
  split at h
  · cases h
  · cases h
    exact ⟨t, ht, rfl⟩

end State

end Akita.Sim
