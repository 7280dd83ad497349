import Akita.WriteBack.Discard
import Akita.WriteBack.Copies

/-!
# Evictions carry the dirty bytes

The request that writes a victim back has the victim's line, a mask of the bytes written to the block since it was last
filled or allocated, and at these bytes the data of the block when it was chosen. The mask is the array of the block itself
and the data may be that of an MSHR entry, so this is so only while nobody writes to the two arrays again.

* `Exact` : what a request carries is what the block was when it was chosen;
* `EvictionsExact` : so it is for every request that has been sent, now and when it left;
* `Flow.Guarded` : what each step of a careful run keeps.

`evictions_change` : two runs in which a request changes after it has left. `evictions_exact` : in runs of careful steps all
evictions are exact.
-/

namespace Akita.WriteBack
open Sim Pipelining Mem Mem.Cache List
open WriteBack.System (init)
open Event (bottomSend reqInitiate)
open DirectoryStage (isWritingFullLine)

variable {cfg : Config}

/-- A request with this data and this mask writes back what was chosen. -/
structure Exact (cfg : Config) (c : Choice) (req : EvictionReq) (data : Bytes) (mask : Mask) : Prop where
  pid : req.pid = c.pid
  address : req.address = c.tag
  lengths : data.length = cfg.blockSize ∧ mask.length = cfg.blockSize
  mask : ∀ i < cfg.blockSize, mask.getD i false = true ↔ i ∈ c.written
  data : ∀ i < cfg.blockSize, i ∈ c.written → data.getD i 0 = c.data i

/-- Each choice is of one transaction, and the eviction of each request that was sent was chosen; the request is exact, and it
was when it left. -/
structure EvictionsExact (cfg : Config) (log : List Event) (s : Slices) (H : History) : Prop where
  chosen : Set.InjOn Choice.id H.chosen
  initiated : ∀ req, reqInitiate (.write req) ∈ log → ∃ t ∈ H.sent, t.evictionWriteReq = some req
  left : ∀ req payload, bottomSend (.write req) payload ∈ log → reqInitiate (.write req) ∈ log
  exact : ∀ t ∈ H.sent, ∃ c ∈ H.chosen, c.id = t.id ∧ ∃ req m, t.evictionWriteReq = some req ∧ req.dirtyMask = some m ∧
    Exact cfg c req (s.bytes req.data) (s.masks m) ∧
    ∀ payload, bottomSend (.write req) payload ∈ log → ∃ data mask, payload = some (data, some mask) ∧
    Exact cfg c req data mask

/-- The mask of a request is what it was when the request left, and so is the data where the mask is set. -/
theorem EvictionsExact.unchanged {log : List Event} {s : Slices} {H : History} (h : EvictionsExact cfg log s H)
    {req : EvictionReq}
    {data : Bytes} {mask : Mask} (hleft : bottomSend (.write req) (some (data, some mask)) ∈ log) {i : Nat}
    (hi : i < cfg.blockSize) : (∀ m, req.dirtyMask = some m → (s.masks m).getD i false = mask.getD i false) ∧
      (mask.getD i false = true → (s.bytes req.data).getD i 0 = data.getD i 0) := by
  obtain ⟨t, ht, hreq⟩ := h.initiated req (h.left req _ hleft)
  obtain ⟨_, -, -, _, _, hreq', hm, hnow, hthen⟩ := h.exact t ht
  cases hreq.symm.trans hreq'
  obtain ⟨_, _, hpayload, hthen⟩ := hthen _ hleft
  cases hpayload
  constructor
  · intro m' hm'
    cases hm.symm.trans hm'
    rw [Bool.eq_iff_iff, hnow.mask i hi, hthen.mask i hi]
  · intro hset
    have hwritten := (hthen.mask i hi).mp hset
    rw [hnow.data i hi hwritten, hthen.data i hi hwritten]

/-! ## A mask that changes, and data that changes -/

/-- A write of one byte of line 0, whose block is then the victim of a write of the whole of line 2. -/
def replacedLine : List Input :=
  [Input.request (.write { id := 101, src := 1, pid := 0, address := 0, data := [1], dirtyMask := none }),
    Input.connect [] [true, true] []] ++ replicate 8 Input.tick ++ [Input.apply 0, Input.answer 0] ++
    replicate 8 Input.tick ++
    [Input.request (.write { id := 102, src := 1, pid := 0, address := 2, data := [3, 4], dirtyMask := none })] ++
    replicate 9 Input.tick

/-- A write of one byte of line 0, whose block is then the victim of a read of line 2, and another write of the byte. -/
def rewrittenByte : List Input :=
  [Input.request (.write { id := 101, src := 1, pid := 0, address := 0, data := [1], dirtyMask := none }),
    Input.connect [] [true, true, true] []] ++ replicate 8 Input.tick ++ [Input.apply 0, Input.answer 0] ++
    replicate 8 Input.tick ++
    [Input.request (.read { id := 102, src := 0, pid := 0, address := 2, accessByteSize := 1 })] ++
    replicate 8 Input.tick ++ [Input.apply 1, Input.answer 0] ++ replicate 8 Input.tick ++
    [Input.request (.write { id := 103, src := 1, pid := 0, address := 0, data := [7], dirtyMask := none })] ++
    replicate 8 Input.tick

/-- What a write-back carried when it left, and what it carries now. -/
structure Carried where
  before : Option (Bytes × Option Mask)
  now : Option (Bytes × Option Mask)
deriving DecidableEq

/-- The write-backs that have left the cache. -/
def leftOf (c : Cache cfg) : List Carried := c.log.filterMap fun
  | .bottomSend (.write req) before => some ⟨before, payload c.slices (.write req)⟩
  | _ => none

theorem EvictionsExact.unchanged_of_left {c : Cache cfg} {H : History} (h : EvictionsExact cfg c.log c.slices H)
    {data data' : Bytes} {mask mask' : Mask} (hleft : ⟨some (data, some mask), some (data', some mask')⟩ ∈ leftOf c) {i : Nat}
    (hi : i < cfg.blockSize) :
    mask'.getD i false = mask.getD i false ∧ (mask.getD i false = true → data'.getD i 0 = data.getD i 0) := by
  obtain ⟨_, he, hmatch⟩ := mem_filterMap.mp hleft
  split at hmatch
  · next req old =>
    simp only [payload, Option.some.injEq, Carried.mk.injEq, Prod.mk.injEq] at hmatch
    obtain ⟨rfl, rfl, hmask⟩ := hmatch
    obtain ⟨m, hm, rfl⟩ := Option.map_eq_some_iff.mp hmask
    obtain ⟨hsame, hdata⟩ := h.unchanged he hi
    exact ⟨hsame m hm, hdata⟩
  · cases hmatch

/-- **Not every eviction is exact.** The mask of the first run's request is set for a byte that was not written; the data of
the second run's request is that of a later write. -/
theorem evictions_change :
    (∀ req ∈ requestsOf (replacedLine ++ rewrittenByte), Legal tiny req) ∧
    (∃ s, (init tiny fun _ _ => 0).run replacedLine = .ok s ∧ ∀ H, ¬ EvictionsExact tiny s.cache.log s.cache.slices H) ∧
    ∃ s, (init tiny fun _ _ => 0).run rewrittenByte = .ok s ∧ ∀ H, ¬ EvictionsExact tiny s.cache.log s.cache.slices H := by
  have hrun : ∀ (is : List Input) left, ((init tiny fun _ _ => 0).run is).map (fun s => leftOf s.cache) = .ok left →
      ∃ s, (init tiny fun _ _ => 0).run is = .ok s ∧ leftOf s.cache = left := by
    intro is left hleft
    cases hs : (init tiny fun _ _ => 0).run is with
    | error =>
      rw [hs] at hleft
      cases hleft
    | ok s =>
      rw [hs] at hleft
      exact ⟨s, rfl, Except.ok.inj hleft⟩
  refine ⟨fun req hreq => ?_, ?_, ?_⟩
  · have hreqs : requestsOf (replacedLine ++ rewrittenByte) =
        [.write { id := 101, src := 1, pid := 0, address := 0, data := [1], dirtyMask := none },
          .write { id := 102, src := 1, pid := 0, address := 2, data := [3, 4], dirtyMask := none },
          .write { id := 101, src := 1, pid := 0, address := 0, data := [1], dirtyMask := none },
          .read { id := 102, src := 0, pid := 0, address := 2, accessByteSize := 1 },
          .write { id := 103, src := 1, pid := 0, address := 0, data := [7], dirtyMask := none }] := rfl
    rw [hreqs] at hreq
    simp only [mem_cons, not_mem_nil, or_false] at hreq
    rcases hreq with rfl | rfl | rfl | rfl | rfl
    · exact legal_tiny_byte 101 1
    · exact legal_tiny_write 102 1 3 4
    · exact legal_tiny_byte 101 1
    · exact legal_tiny_read 102 2
    · exact legal_tiny_byte 103 7
  · obtain ⟨s, hs, hleft⟩ := hrun replacedLine [⟨some ([1, 0], some [true, false]), some ([1, 0], some [true, true])⟩]
      (by decide +kernel)
    refine ⟨s, hs, fun H h => ?_⟩
    have hmask := (h.unchanged_of_left (hleft ▸ mem_singleton_self _) (i := 1) (by decide)).1
    cases hmask
  · obtain ⟨s, hs, hleft⟩ := hrun rewrittenByte [⟨some ([1, 0], some [true, false]), some ([7, 0], some [true, false])⟩]
      (by decide +kernel)
    refine ⟨s, hs, fun H h => ?_⟩
    have hdata := (h.unchanged_of_left (hleft ▸ mem_singleton_self _) (i := 0) (by decide)).2 rfl
    cases hdata

namespace Flow

variable {a a' : Flow cfg} {l : Label} {H : History} {t : Transaction} {c : Choice} {req : EvictionReq}

/-! ## The requests of evictions -/

/-- The request was made of the fields of the transaction. -/
structure Made (t : Transaction) (req : EvictionReq) : Prop where
  request : t.evictionWriteReq = some req
  pid : req.pid = t.evictingPID
  address : req.address = t.evictingAddr
  data : t.evictingData = some req.data
  mask : req.dirtyMask = t.evictingDirtyMask

/-- The request of a transaction that has a copy of what was chosen is exact. -/
theorem Follows.exact {arr : ArrayRef} (hfollows : a.Follows t c) (hdata : a.HasData t c arr) (hmade : Made t req) :
    ∃ m, req.dirtyMask = some m ∧ Exact cfg c req (a.slices.bytes req.data) (a.slices.masks m) := by
  obtain ⟨m, hm, hline, -, hbits⟩ := hfollows.mask
  cases hdata.evictingData.symm.trans hmade.data
  exact ⟨m, hmade.mask.trans hm, hmade.pid.trans hfollows.pid, hmade.address.trans hfollows.address, ⟨hdata.line.2, hline.2⟩,
    hbits, hdata.data⟩

/-- What the log says of the requests of evictions: each is of a transaction whose request was sent, with an ID of its own,
and was exact when it left. -/
structure Logged (a : Flow cfg) (H : History) : Prop where
  sent : ∀ t ∈ H.sent, ∃ req, Made t req
  initiated : ∀ req, reqInitiate (.write req) ∈ logOf a.trace → req.id < a.nextID ∧
    ∃ t ∈ H.sent, t.evictionWriteReq = some req
  chan : ∀ req, .write req ∈ a.chan → reqInitiate (.write req) ∈ logOf a.trace
  left : ∀ req payload, bottomSend (.write req) payload ∈ logOf a.trace → reqInitiate (.write req) ∈ logOf a.trace
  exact : ∀ t ∈ H.sent, ∀ c ∈ H.chosen, c.id = t.id → ∀ req payload, t.evictionWriteReq = some req →
    bottomSend (.write req) payload ∈ logOf a.trace → ∃ data mask, payload = some (data, some mask) ∧
    Exact cfg c req data mask

/-- The event is about no request of an eviction. -/
def Aside : Event → Prop
  | .reqInitiate (.write _) => False
  | .bottomSend (.write _) _ => False
  | _ => True

/-- The step initiates and sends no request of an eviction. -/
structure Quiet (a a' : Flow cfg) : Prop where
  log : ∃ es, logOf a'.trace = logOf a.trace ++ es ∧ ∀ e ∈ es, Aside e
  chan : ∀ req, .write req ∈ a'.chan → .write req ∈ a.chan
  inflight : ∀ t ∈ a'.inflight, t ∈ a.inflight

/-- The step initiates the request of the eviction `t`. -/
structure Initiates (a a' : Flow cfg) (t : Transaction) (req : EvictionReq) : Prop where
  made : Made { t with evictionWriteReq := some req } req
  id : req.id = a.nextID
  nextID : a'.nextID = a.nextID + 1
  log : logOf a'.trace = logOf a.trace ++ [.reqInitiate (.write req)]
  chan : a'.chan = a.chan ++ [.write req]
  inflight : a'.inflight = a.inflight ++ [{ t with evictionWriteReq := some req }]

/-- The message leaves the cache. -/
structure Departs (a a' : Flow cfg) (msg : BottomReq) : Prop where
  waits : msg ∈ a.chan
  nextID : a'.nextID = a.nextID
  log : logOf a'.trace = logOf a.trace ++ [.bottomSend msg (payload a.slices msg)]
  chan : a'.chan = a.chan
  inflight : a'.inflight = a.inflight

/-- **What a step does with the requests of evictions.** -/
theorem Step.writeBacks (hs : Step a l a') : a.Quiet a' ∨ (∃ t req, a.Initiates a' t req) ∨ ∃ msg, a.Departs a' msg := by
  have hevent : ∀ {e : Event}, Aside e → ∃ es, logOf (a.trace ++ [Moment.event e]) = logOf a.trace ++ es ∧
      ∀ e ∈ es, Aside e := by
    intro e he
    refine ⟨[e], logOf_concat _ _, fun x hx => ?_⟩
    rwa [mem_singleton.mp hx]
  have hnone : ∃ es, logOf a.trace = logOf a.trace ++ es ∧ ∀ e ∈ es, Aside e :=
    ⟨[], (append_nil _).symm, forall_mem_nil _⟩
  have heffects : ∀ ws : List TopWrite, ∃ es, logOf (a.trace ++ ws.map .effect) = logOf a.trace ++ es ∧ ∀ e ∈ es, Aside e :=
    fun ws => (logOf_effects a.trace ws).symm ▸ hnone
  have hstay : ∀ req, BottomReq.write req ∈ a.chan → BottomReq.write req ∈ a.chan := fun _ h => h
  cases hs with
  | accept | topSend | finishRead | respondRead | respondWrite | startFlush | discardFlush | finishFlush =>
    exact .inl ⟨hevent trivial, hstay, fun _ h => h⟩
  | bottomSend msg hmsg => exact .inr (.inr ⟨msg, hmsg, rfl, logOf_concat _ _, rfl, rfl⟩)
  | finishWrite _ _ w =>
    refine .inl ⟨⟨[.reqComplete (.write w)], logOf_effect _ _ _, fun x hx => ?_⟩, hstay, fun _ h => h⟩
    cases mem_singleton.mp hx
    trivial
  | sendEviction t _ _ req _ hdata hreq =>
    refine .inr (.inl ⟨t, req, ?_, hreq ▸ rfl, rfl, logOf_concat _ _, rfl, rfl⟩)
    subst hreq
    exact ⟨rfl, rfl, rfl, hdata, rfl⟩
  | writeDone =>
    exact .inl ⟨hnone, hstay, fun x hx => mem_reverse.mp (mem_of_mem_eraseP (mem_reverse.mp hx))⟩
  | dataReady | fetchLocal => exact .inl ⟨heffects _, hstay, fun _ h => h⟩
  | fetchBottom =>
    refine .inl ⟨hevent trivial, fun x hx => ?_, fun _ h => h⟩
    rcases mem_append.mp hx with hx | hx
    · exact hx
    · cases mem_singleton.mp hx
  | serve => exact .inl ⟨hnone, fun _ hx => mem_of_mem_eraseIdx hx, fun _ h => h⟩
  | _ => exact .inl ⟨hnone, hstay, fun _ h => h⟩

theorem Copied.chosen_of_sent (hcopied : a.Copied H) (hinj : Set.InjOn Choice.id (H.next a a').chosen) (ht : t ∈ H.sent)
    (hc : c ∈ (H.next a a').chosen) (hid : c.id = t.id) : c ∈ H.chosen := by
  obtain ⟨c₀, hc₀, hfollows, -⟩ := hcopied.hasRead t (.inr (.inr ht))
  have heq : c = c₀ := hinj hc (History.chosen_next hc₀) (hid.trans hfollows.id.symm)
  exact heq ▸ hc₀

theorem Copied.exact (hcopied : a.Copied H) (hids : a.Identified H) (ht : t ∈ H.sent) (hmade : Made t req) (hc : c ∈ H.chosen)
    (hid : c.id = t.id) : ∃ m, req.dirtyMask = some m ∧ Exact cfg c req (a.slices.bytes req.data) (a.slices.masks m) := by
  obtain ⟨c₀, hc₀, hfollows, _, hdata⟩ := hcopied.hasRead t (.inr (.inr ht))
  have heq : c = c₀ := hids.injOn hc hc₀ (hid.trans hfollows.id.symm)
  exact heq ▸ hfollows.exact hdata hmade

theorem Logged.quiet (hlog : a.Logged H) (hq : a.Quiet a') (hnext : a.nextID ≤ a'.nextID) (hcopied : a.Copied H)
    (hinj : Set.InjOn Choice.id (H.next a a').chosen) : a'.Logged (H.next a a') := by
  obtain ⟨_, hes, haside⟩ := hq.log
  have hsent : ∀ t ∈ (H.next a a').sent, t ∈ H.sent :=
    fun t ht => ht.elim id fun ht => hcopied.inflight t (hq.inflight t ht)
  have hinitiate : ∀ {req}, reqInitiate (.write req) ∈ logOf a'.trace → reqInitiate (.write req) ∈ logOf a.trace := by
    intro req h
    rw [hes] at h
    exact (mem_append.mp h).resolve_right (haside _)
  have hleft : ∀ {req payload}, bottomSend (.write req) payload ∈ logOf a'.trace →
      bottomSend (.write req) payload ∈ logOf a.trace := by
    intro req payload h
    rw [hes] at h
    exact (mem_append.mp h).resolve_right (haside _)
  have hold : ∀ {e}, e ∈ logOf a.trace → e ∈ logOf a'.trace := fun h => hes ▸ mem_append_left _ h
  constructor
  case sent => exact fun t ht => hlog.sent t (hsent t ht)
  case initiated =>
    intro req h
    obtain ⟨hlt, t, ht, hreq⟩ := hlog.initiated req (hinitiate h)
    exact ⟨hlt.trans_le hnext, t, History.sent_next ht, hreq⟩
  case chan => exact fun req h => hold (hlog.chan req (hq.chan req h))
  case left => exact fun req payload h => hold (hlog.left req payload (hleft h))
  case exact =>
    intro t ht c hc hid req payload hreq h
    exact hlog.exact t (hsent t ht) c (hcopied.chosen_of_sent hinj (hsent t ht) hc hid) hid req payload hreq (hleft h)

theorem Logged.initiate {t₀ : Transaction} {req₀ : EvictionReq} (hlog : a.Logged H) (hi : a.Initiates a' t₀ req₀)
    (hcopied : a.Copied H) (hinj : Set.InjOn Choice.id (H.next a a').chosen) : a'.Logged (H.next a a') := by
  have hsent : ∀ t ∈ (H.next a a').sent, t ∈ H.sent ∨ t = { t₀ with evictionWriteReq := some req₀ } := by
    rintro t (ht | ht)
    · exact .inl ht
    · change t ∈ a'.inflight at ht
      rw [hi.inflight] at ht
      exact (mem_append.mp ht).imp (hcopied.inflight t) mem_singleton.mp
  have hleft : ∀ {req payload}, bottomSend (.write req) payload ∈ logOf a'.trace →
      bottomSend (.write req) payload ∈ logOf a.trace := by
    intro req payload h
    rw [hi.log] at h
    exact (mem_append.mp h).resolve_right fun h => nomatch mem_singleton.mp h
  have hold : ∀ {e}, e ∈ logOf a.trace → e ∈ logOf a'.trace := fun h => hi.log ▸ mem_append_left _ h
  have hnew : reqInitiate (.write req₀) ∈ logOf a'.trace := hi.log ▸ mem_append_right _ (mem_singleton_self _)
  constructor
  case sent =>
    intro t ht
    rcases hsent t ht with ht | rfl
    · exact hlog.sent t ht
    · exact ⟨req₀, hi.made⟩
  case initiated =>
    intro req h
    rw [hi.log] at h
    rcases mem_append.mp h with h | h
    · obtain ⟨hlt, t, ht, hreq⟩ := hlog.initiated req h
      exact ⟨hlt.trans_le (hi.nextID ▸ Nat.le_succ _), t, History.sent_next ht, hreq⟩
    · cases mem_singleton.mp h
      refine ⟨by rw [hi.id, hi.nextID]; exact Nat.lt_succ_self _, _, .inr ?_, hi.made.request⟩
      exact hi.inflight ▸ mem_append_right _ (mem_singleton_self _)
  case chan =>
    intro req h
    rw [hi.chan] at h
    rcases mem_append.mp h with h | h
    · exact hold (hlog.chan req h)
    · cases mem_singleton.mp h
      exact hnew
  case left => exact fun req payload h => hold (hlog.left req payload (hleft h))
  case exact =>
    intro t ht c hc hid req payload hreq h
    rcases hsent t ht with ht | rfl
    · exact hlog.exact t ht c (hcopied.chosen_of_sent hinj ht hc hid) hid req payload hreq (hleft h)
    · -- no request with a new ID has left
      cases hreq
      have hlt := (hlog.initiated _ (hlog.left _ _ (hleft h))).1
      rw [hi.id] at hlt
      exact absurd hlt (Nat.lt_irrefl _)

theorem Logged.depart {msg : BottomReq} (hlog : a.Logged H) (hd : a.Departs a' msg) (hcopied : a.Copied H)
    (hids : a.Identified H) (hinj : Set.InjOn Choice.id (H.next a a').chosen) : a'.Logged (H.next a a') := by
  have hsent : ∀ t ∈ (H.next a a').sent, t ∈ H.sent := by
    rintro t (ht | ht)
    · exact ht
    · exact hcopied.inflight t (hd.inflight ▸ ht)
  have hinitiate : ∀ {req}, reqInitiate (.write req) ∈ logOf a'.trace → reqInitiate (.write req) ∈ logOf a.trace := by
    intro req h
    rw [hd.log] at h
    exact (mem_append.mp h).resolve_right fun h => nomatch mem_singleton.mp h
  have hleft : ∀ {req p}, bottomSend (.write req) p ∈ logOf a'.trace →
      bottomSend (.write req) p ∈ logOf a.trace ∨ .write req ∈ a.chan ∧ p = payload a.slices (.write req) := by
    intro req p h
    rw [hd.log] at h
    refine (mem_append.mp h).imp_right fun h => ?_
    cases mem_singleton.mp h
    exact ⟨hd.waits, rfl⟩
  have hold : ∀ {e}, e ∈ logOf a.trace → e ∈ logOf a'.trace := fun h => hd.log ▸ mem_append_left _ h
  constructor
  case sent => exact fun t ht => hlog.sent t (hsent t ht)
  case initiated =>
    intro req h
    obtain ⟨hlt, t, ht, hreq⟩ := hlog.initiated req (hinitiate h)
    exact ⟨hd.nextID ▸ hlt, t, History.sent_next ht, hreq⟩
  case chan => exact fun req h => hold (hlog.chan req (hd.chan ▸ h))
  case left =>
    intro req p h
    rcases hleft h with h | ⟨h, -⟩
    · exact hold (hlog.left req p h)
    · exact hold (hlog.chan req h)
  case exact =>
    intro t ht c hc hid req p hreq h
    have hc := hcopied.chosen_of_sent hinj (hsent t ht) hc hid
    rcases hleft h with h | ⟨-, rfl⟩
    · exact hlog.exact t (hsent t ht) c hc hid req p hreq h
    · obtain ⟨_, hmade⟩ := hlog.sent t (hsent t ht)
      cases hreq.symm.trans hmade.request
      obtain ⟨_, hm, hexact⟩ := hcopied.exact hids (hsent t ht) hmade hc hid
      exact ⟨_, _, by rw [payload, hm]; rfl, hexact⟩

theorem Logged.step (hlog : a.Logged H) (hcopied : a.Copied H) (hids : a.Identified H) (hids' : a'.Identified (H.next a a'))
    (hs : Step a l a') : a'.Logged (H.next a a') := by
  rcases hs.writeBacks with hq | ⟨_, _, hi⟩ | ⟨_, hd⟩
  · exact hlog.quiet hq hs.nextID_le hcopied hids'.injOn
  · exact hlog.initiate hi hcopied hids'.injOn
  · exact hlog.depart hd hcopied hids hids'.injOn

/-! ## Runs -/

/-- What every step of a careful run keeps. -/
structure Guarded (a : Flow cfg) (H : History) : Prop where
  calm : a.Calm
  accounted : a.Accounted H
  copied : a.Copied H
  identified : a.Identified H
  logged : a.Logged H

theorem Guarded.step (hg : a.Guarded H) (hcareful : a.Careful l a') (hs : Step a l a') : a'.Guarded (H.next a a') := by
  have hids := hg.identified.step hg.calm hcareful.unflushed hs
  exact {
    calm := hg.calm.step hcareful.unflushed hs
    accounted := hg.accounted.step hg.calm hcareful.unflushed hs
    copied := hg.copied.step hg.calm hg.accounted hcareful hs
    identified := hids
    logged := hg.logged.step hg.copied hg.identified hids hs }

theorem init_guarded {m : Memory} : ((init cfg m).flow []).Guarded {} where
  calm := init_calm
  accounted := init_accounted
  copied := init_copied
  identified := init_identified
  logged := {
    sent _ ht := ht.elim
    initiated _ h := absurd h not_mem_nil
    chan _ h := absurd h not_mem_nil
    left _ _ h := absurd h not_mem_nil
    exact _ ht := ht.elim }

theorem Guarded.noted {H' : History} (hg : a.Guarded H) (hn : Noted Careful a H a' H') : a'.Guarded H' := by
  induction hn with
  | refl => exact hg
  | step _ hcareful hs ih => exact ih.step hcareful hs

theorem Guarded.evictionsExact (hg : a.Guarded H) : EvictionsExact cfg (logOf a.trace) a.slices H where
  chosen := hg.identified.injOn
  initiated req h := (hg.logged.initiated req h).2
  left := hg.logged.left
  exact t ht := by
    obtain ⟨c, hc, hfollows, _, hdata⟩ := hg.copied.hasRead t (.inr (.inr ht))
    obtain ⟨req, hmade⟩ := hg.logged.sent t ht
    obtain ⟨m, hm, hexact⟩ := hfollows.exact hdata hmade
    exact ⟨c, hc, hfollows.id, req, m, hmade.request, hm, hexact,
      fun payload hleft => hg.logged.exact t ht c hc hfollows.id req payload hmade.request hleft⟩

end Flow

variable {m : Memory} {s : System cfg} {ks : List Call}

/-- **Evictions are exact in careful runs.** Every run without flushes can be watched; if none of its steps gives a full write
a dirty victim whose mask is not full, or serves a fetch from an eviction with writes to its dirty bytes, then each request
that was sent for an eviction is exact, and it was when it left. -/
theorem evictions_exact (h : Reaches (Rules.unflushed cfg) m s ks) :
    (∃ τ H, Watched (Rules.unflushed cfg) (fun a l _ => Flow.Unflushed a l) m s ks τ H) ∧
    ∀ τ H, Watched (Rules.unflushed cfg) Flow.Careful m s ks τ H → EvictionsExact cfg s.cache.log s.cache.slices H := by
  constructor
  · obtain ⟨τ, H, -, hw⟩ := h.watched ensures_unflushed
    exact ⟨τ, H, hw⟩
  · intro τ H hw
    have hexact := (Flow.init_guarded.noted hw.noted).evictionsExact
    rw [show ((s.flow τ).trace : List Moment) = τ from rfl, hw.log] at hexact
    exact hexact

/-! ## Writes of parts of lines

A run that never writes a whole line, and fetches nothing that it evicts, is careful. -/

/-- The request writes part of a line, or nothing. -/
def Piecemeal (cfg : Config) (req : AccessReq) : Prop := ∀ w, req = .write w → isWritingFullLine cfg w = false

/-- What comes is legal and piecemeal, and no flush; no fetch is served from an eviction. -/
def Rules.piecemeal (cfg : Config) : Rules cfg where
  request _ req := Legal cfg req ∧ Piecemeal cfg req
  control _ req := ∀ f, req ≠ .flush f
  apply _ _ := True
  call c k := k = .writeBufferNew → ∀ t ∈ c.writeBufferBuffer.peek, WriteBufferStage.findDataLocally c t = none

namespace Flow

variable {a a' : Flow cfg} {l : Label}

def Unshared (a : Flow cfg) : Label → Prop
  | .request req => Legal cfg req ∧ Piecemeal cfg req
  | .localFetch => ∀ t rest, a.wb = t :: rest → a.find t = none
  | l => a.Unflushed l

/-- No write of a whole line is asked for. -/
structure Partly (a : Flow cfg) : Prop where
  calm : a.Calm
  top : ∀ req ∈ a.top, Piecemeal cfg req
  dir : ∀ t ∈ a.dir, ∀ w, t.write = some w → isWritingFullLine cfg w = false

theorem Unshared.unflushed (h : a.Unshared l) : a.Unflushed l := by
  cases l with
  | request => exact h.1
  | localFetch => trivial
  | _ => exact h

theorem Partly.step (h : a.Partly) (hl : a.Unshared l) (hs : Step a l a') : a.Careful l a' ∧ a'.Partly := by
  have hdir : ∀ {t d}, a.dir = t ::ₘ d → ∀ t ∈ d, ∀ w, t.write = some w → isWritingFullLine cfg w = false :=
    fun heq x hx => h.dir x (heq ▸ Multiset.mem_cons_of_mem hx)
  have hcareful : a.Careful l a' := by
    refine ⟨hl.unflushed, fun t b m hchooses haction _ => ?_, fun heq t rest ev m e w hwb hfind => ?_⟩
    · obtain ⟨_, -, hwhole⟩ := h.calm.evicts hl.unflushed hs hchooses.enters hchooses.evicts
      obtain ⟨x, hx, w, hw, hfull⟩ := hwhole haction
      rw [h.dir x hx w hw] at hfull
      cases hfull
    · subst heq
      rw [hl t rest hwb] at hfind
      cases hfind
  refine ⟨hcareful, h.calm.step hl.unflushed hs, ?_, ?_⟩
  · cases hs with
    | request req => exact forall_mem_append.mpr ⟨h.top, forall_mem_singleton.mpr hl.2⟩
    | accept _ _ _ htop => exact fun req hreq => h.top req (htop ▸ mem_cons_of_mem _ hreq)
    | discardFlush | restart => exact fun _ hreq => nomatch hreq
    | _ => exact h.top
  · cases hs with
    | accept req _ _ htop =>
      intro t ht w hw
      rcases Multiset.mem_cons.mp ht with rfl | ht
      · cases req with
        | read => cases hw
        | write =>
          cases hw
          exact h.top _ (htop ▸ mem_cons_self) _ rfl
      · exact h.dir t ht w hw
    | join _ _ _ _ heq | readHit _ _ _ _ heq | writeHit _ _ _ _ heq | evictAndFetch _ _ _ _ heq | evictAndWrite _ _ _ _ heq
    | fetch _ _ _ _ heq => exact hdir heq
    | discardFlush => exact fun _ ht => absurd ht (Multiset.notMem_zero _)
    | _ => exact h.dir

end Flow

theorem ensures_unshared : Ensures (Rules.piecemeal cfg) m Flow.Unshared where
  allowed _ _ h := h.unflushed.gentle.allowed
  silent _ := trivial
  request _ _ _ h _ _ := h
  control _ _ _ h _ _ := h
  apply _ _ _ _ _ _ := trivial
  call := by
    intro s τ k hk hlog hreach
    have hl := ensures_unflushed.call s τ k trivial hlog (hreach.mono fun _ _ => Flow.Unshared.unflushed)
    cases k with
    | writeBufferNew =>
      intro t rest hwb
      have hnone := hk rfl t (by rw [Buffer.peek, show s.cache.writeBufferBuffer.elements = t :: rest from hwb]; rfl)
      exact hnone
    | flusher =>
      change Flow.Unshared _ (if _ then _ else _)
      change Flow.Unflushed _ (if _ then _ else _) at hl
      split at hl
      · exact hl.elim
      · next h => rw [if_neg h]; trivial
    | _ => trivial

/-- Runs without writes of whole lines can be watched, and are careful. -/
theorem Reaches.careful (h : Reaches (Rules.piecemeal cfg) m s ks) :
    ∃ τ H, Watched (Rules.unflushed cfg) Flow.Careful m s ks τ H := by
  obtain ⟨τ, H, -, hw⟩ := h.watched ensures_unshared
  have hcareful : Watched (Rules.unflushed cfg) Flow.Careful m s ks τ H ∧ (s.flow τ).Partly :=
    hw.mono (fun _ _ h => h.1) (fun _ _ h => h) (fun _ _ h => h) (fun _ _ _ => trivial) (fun ha hc hs => ha.step hc hs)
      ⟨Flow.init_calm, fun _ h => (not_mem_nil h).elim, by simp [Flow.init_dir]⟩
  exact ⟨τ, H, hcareful.1⟩

/-- No fetch meets an eviction. -/
def Apart (c : Cache cfg) (_ : Call) : Prop := ∀ t ∈ c.writeBufferBuffer.peek, WriteBufferStage.findDataLocally c t = none

instance (c : Cache cfg) (k : Call) : Decidable (Apart c k) :=
  inferInstanceAs (Decidable (∀ t ∈ c.writeBufferBuffer.peek, WriteBufferStage.findDataLocally c t = none))

/-- The eviction of line 0 has left, with the byte that was written and its mask. -/
theorem evictions_exact_evicted : let s := play Apart (evictedByte ++ replicate 4 .tick)
    (∃ req, bottomSend (.write req) (some ([1, 0], some [true, false])) ∈ s.cache.log) ∧
      ∃ H, EvictionsExact tiny s.cache.log s.cache.slices H := by
  have hallows : ∀ {R : Rules tiny}, (∀ i ∈ evictedByte, R.Allows i) → ∀ i ∈ evictedByte ++ replicate 4 .tick, R.Allows i :=
    fun h => forall_mem_append.mpr ⟨h, by simp [Rules.Allows]⟩
  have hpiecemeal := reaches_play (R := Rules.piecemeal tiny) (fun _ _ h _ => h)
    (hallows (allows_evictedByte (fun _ _ => trivial)
    fun _ _ hlegal hlen => ⟨hlegal, fun w hw => by simp [isWritingFullLine, hlen w hw, tiny, Config.blockSize]⟩))
  obtain ⟨τ, H, hw⟩ := hpiecemeal.careful
  have hexact := (evictions_exact (reaches_play (R := Rules.unflushed tiny) (G := Apart) (fun _ _ _ => trivial)
    (hallows (allows_evictedByte (fun _ _ => trivial) fun _ _ h _ => h)))).2 τ H hw
  refine ⟨⟨{ id := 4, src := 0, dst := 0, pid := 0, address := 0, data := 2, dirtyMask := some 1 }, ?_⟩, H, hexact⟩
  decide +kernel

end Akita.WriteBack
