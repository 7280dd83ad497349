import Akita.WriteBack.Refinement.Basic

/-!
# The directory stage refines the flow

`DirectoryStage.processHead_refines` follows the branches of the stage: a request joins an entry, hits, evicts a block or
fetches into a clean one, and each branch is one step of the flow.
-/

namespace Akita.WriteBack
open Sim Pipelining Mem Mem.Cache
open WriteBack.Flow (Silent Moves)
open Multiset (add_cons cons_add cons_coe)
open WriteBack.System (become flow)

variable {cfg : Config} {s : System cfg} {τ : List Moment} {l : Flow.Label}

/-- A hand-over inside a stage, and then the stage. -/
theorem Refines.after {c : Cache cfg} {r : Result cfg} (hflow : s.flow τ = (s.become c).flow τ)
    (hr : Refines (s.become c) τ l r) : Refines s τ l r := by
  obtain ⟨p, c', τ', hok, hw, hlog, hm⟩ := hr
  exact ⟨p, c', τ', hok, hw, hlog, hflow ▸ hm⟩

namespace DirectoryStage

theorem acceptNewTransaction_refines (i : Nat) {c : Cache cfg} (hw : Wired c) (hlog : logOf τ = c.log) :
    Refines (s.become c) τ l (acceptNewTransaction i c) := by
  induction i generalizing c with
  | zero => exact .refl hw hlog false
  | succ _ ih =>
    unfold acceptNewTransaction
    split
    · exact .refl hw hlog false
    next hcan =>
    split
    · exact .refl hw hlog false
    next t ht =>
    obtain ⟨⟨dirPipeline, dirBuf⟩, hok⟩ := PipelineImpl.accept_ok (p := c.dirPipeline) (by simpa using hcan) t
    simp only [hok, bind_ok]
    have hitems := items_accept hok
    have helems := Buffer.peek_eq_some ht
    refine .after ?_ ((ih (c := { c with dirPipeline, dirBuf, dirStageBuffer := c.dirStageBuffer.pop })
      (hw.of_eq rfl rfl rfl rfl) hlog).report fun _ => true)
    simp only [flow, become, hitems]
    rw [helems, ← cons_coe, cons_add, add_cons]

theorem tickPipeline_refines (hw : Wired s.cache) (hlog : logOf τ = s.cache.log) :
    Refines s τ l (.ok (tickPipeline s.cache)) := by
  have hitems := items_tick s.cache.dirPipeline s.cache.dirBuf
  unfold tickPipeline
  generalize s.cache.dirPipeline.tick s.cache.dirBuf = r at hitems ⊢
  obtain ⟨_, _, _⟩ := r
  refine .same (hw.of_eq rfl rfl rfl rfl) hlog rfl ?_
  simp only at hitems
  simp only [flow, become, hitems]

/-! ## One transaction -/

section
variable {t : Transaction}

/-- The transaction at the head of the buffer, among those in the stage. -/
theorem dir_eq (ht : s.cache.dirBuf.peek = some t) (τ : List Moment) :
    (s.flow τ).dir = t ::ₘ (↑s.cache.dirStageBuffer.elements +
      (s.cache.dirPipeline.items + ↑s.cache.dirBuf.pop.elements)) := by
  have helems := Buffer.peek_eq_some ht
  show (↑s.cache.dirStageBuffer.elements + (s.cache.dirPipeline.items + ↑s.cache.dirBuf.elements) :
    Multiset Transaction) = _
  rw [helems, ← cons_coe, add_cons, add_cons]

variable {req : AccessReq}

theorem joinMSHREntry_refines (hw : Wired s.cache) (hlog : logOf τ = s.cache.log) (ht : s.cache.dirBuf.peek = some t)
    {e : EntryRef} (hreq : t.accessReq = some req) (hentry : s.cache.mshr.query req.pid (lineOf cfg req.address) = some e) :
    Refines s τ l (joinMSHREntry s.cache t e) :=
  .silent τ (hw.of_eq rfl rfl rfl rfl) hlog (.join t _ req e (dir_eq ht τ) hreq hentry)

variable {b : BlockRef}

theorem readFromBank_refines (hw : Wired s.cache) (hlog : logOf τ = s.cache.log) (ht : s.cache.dirBuf.peek = some t)
    {r : ReadReq} (hreq : t.accessReq = some (.read r)) (hread : t.read = some r)
    (hnone : s.cache.mshr.query r.pid (lineOf cfg r.address) = none)
    (hset : Flow.InSet cfg s.cache.directory.gen (lineOf cfg r.address) b)
    (hb : Flow.Holds s.cache.directory.blocks b r.pid (lineOf cfg r.address)) :
    Refines s τ l (handleReadHit s.cache t b) := by
  unfold handleReadHit
  split
  · exact .refl hw hlog false
  next hlock =>
  unfold readFromBank
  split
  · exact .refl hw hlog false
  next hpush =>
  simp only [Buffer.push_of_canPush (b := s.cache.dirToBankBuffer) (by simpa using hpush), bind_ok]
  refine .silent τ ⟨(hw.directory.visit hset.2.1 hset.2.2).of_eq rfl rfl, hw.counted, hw.noFetch, hw.sent⟩ hlog ?_
  convert Flow.Step.readHit (a := s.flow τ) t _ r b (dir_eq ht τ) hreq hread hnone hset hb
    (Bool.eq_false_iff.mpr hlock) using 1
  simp only [flow, become, coe_concat, cons_add]
  rfl

variable {w : TopWrite}

theorem writeToBank_refines (hw : Wired s.cache) (hlog : logOf τ = s.cache.log) (ht : s.cache.dirBuf.peek = some t)
    (hread : t.read = none) (hwrite : t.write = some w)
    (hnone : s.cache.mshr.query w.pid (lineOf cfg w.address) = none)
    (hset : Flow.InSet cfg s.cache.directory.gen (lineOf cfg w.address) b) (hidle : (s.flow τ).Idle b)
    (hev : s.cache.evictingList (lineOf cfg w.address) = false)
    (hb : Flow.Holds s.cache.directory.blocks b w.pid (lineOf cfg w.address) ∨
      (s.flow τ).Absent w.pid (lineOf cfg w.address) ∧ isWritingFullLine cfg w = true ∧ ¬ (s.flow τ).Dirty b) :
    Refines s τ l (writeToBank s.cache t w b) := by
  unfold writeToBank
  split
  · exact .refl hw hlog false
  next hpush =>
  simp only [Buffer.push_of_canPush (b := s.cache.dirToBankBuffer) (by simpa using hpush), bind_ok]
  refine .silent τ ⟨(hw.directory.visit hset.2.1 hset.2.2).of_eq rfl rfl, hw.counted, hw.noFetch, hw.sent⟩ hlog ?_
  convert Flow.Step.writeHit (a := s.flow τ) t _ w b (dir_eq ht τ) hread hwrite hnone hset hidle hev hb using 1
  simp only [flow, become, coe_concat, cons_add]
  rfl

variable {line : Nat} {pid : PID}

theorem add_eq {m : MSHR cfg.numMSHREntry Transaction} (hnone : m.query pid line = none)
    (hfull : m.isFull = false) : ∃ m', m.add pid line = .ok (m.nextRef, m') ∧ ∀ b t,
      (m'.modify m.nextRef fun entry => { entry with block := some b, requests := entry.requests ++ [t] }) =
        Flow.allocate m pid line b t := by
  unfold MSHR.add
  rw [hnone, hfull]
  exact ⟨_, rfl, fun b t => by simp [MSHR.modify, Flow.allocate]⟩

variable {c : Cache cfg}

/-- The transaction that evicts a block and then fetches its own line, as the first request of a new entry. -/
theorem updateTransForEviction_fetch
    (hnone : c.mshr.query pid line = none) (hfull : c.mshr.isFull = false) (hfetch : evictionNeedFetch cfg t = true) :
    updateTransForEviction c t b pid line =
      .ok (Flow.asFetch (withVictim cfg t (c.directory.blocks b) b) .bankEvictAndFetch pid line b c.mshr.nextRef,
        { c with
          mshr := Flow.allocate c.mshr pid line b (Flow.asFetch (withVictim cfg t (c.directory.blocks b) b)
            .bankEvictAndFetch pid line b c.mshr.nextRef) }) := by
  obtain ⟨_, hadd, hm⟩ := add_eq hnone hfull
  have hfetch' : evictionNeedFetch cfg (withVictim cfg t (c.directory.blocks b) b) = true := hfetch
  unfold updateTransForEviction
  simp only [hfetch', if_true, hadd, bind_ok, hm]
  rfl

theorem updateTransForEviction_write (hfetch : evictionNeedFetch cfg t = false) :
    updateTransForEviction c t b pid line =
      .ok ({ withVictim cfg t (c.directory.blocks b) b with action := .bankEvictAndWrite }, c) := by
  have hfetch' : evictionNeedFetch cfg (withVictim cfg t (c.directory.blocks b) b) = false := hfetch
  unfold updateTransForEviction
  simp only [hfetch', Bool.false_eq_true, if_false]

section
variable (hw : Wired s.cache) (hlog : logOf τ = s.cache.log) (ht : s.cache.dirBuf.peek = some t)
  (hreq : t.accessReq = some req) (hmiss : (s.flow τ).Misses req)
  (hset : Flow.InSet cfg s.cache.directory.gen (lineOf cfg req.address) b) (hidle : (s.flow τ).Idle b)
include hw hlog ht hreq hmiss hset hidle

theorem evict_refines
   
   
    (hdirty : (s.flow τ).Dirty b) (hneed : evictionNeedFetch cfg t = true ∧ s.cache.mshr.isFull = false ∨
      ∃ w, req = .write w ∧ t.read = none ∧ t.write = some w ∧ isWritingFullLine cfg w = true) :
    Refines s τ l (evict s.cache t req b) := by
  have hwhole := hw.directory.visit hset.2.1 hset.2.2
  unfold evict
  split
  · exact .refl hw hlog false
  next hpush =>
  have hpush : ∀ x, s.cache.dirToBankBuffer.push x = .ok ⟨s.cache.dirToBankBuffer.elements ++ [x]⟩ :=
    Buffer.push_of_canPush (by simpa using hpush)
  have hline : s.cache.cacheLineID req.address = lineOf cfg req.address := rfl
  rcases hneed with ⟨hfetch, hfull⟩ | ⟨w, rfl, hread, hwrite, hfullLine⟩
  · -- the line is fetched after the eviction
    have hupdate := updateTransForEviction_fetch (c := s.cache) (b := b) hmiss.noEntry hfull hfetch
    simp only [hline, hupdate, bind_ok, updateVictimBlockMetaData, hpush]
    refine .silent τ ⟨hwhole.of_eq rfl rfl, hw.counted, hw.noFetch, hw.sent⟩ hlog ?_
    convert Flow.Step.evictAndFetch (a := s.flow τ) t _ req b (dir_eq ht τ) hreq hmiss hset hidle hdirty hfetch using 1
    simp only [flow, become, coe_concat, cons_add]
    rfl
  · -- the write needs nothing of the line
    have hfetch : evictionNeedFetch cfg t = false := by simp [evictionNeedFetch, hwrite, hfullLine]
    simp only [updateTransForEviction_write hfetch, bind_ok, updateVictimBlockMetaData, hpush]
    refine .silent τ ⟨hwhole.of_eq rfl rfl, hw.counted, hw.noFetch, hw.sent⟩ hlog ?_
    convert Flow.Step.evictAndWrite (a := s.flow τ) t _ w b (dir_eq ht τ) hread hwrite hmiss hset hidle hdirty hfullLine
      using 1
    simp only [flow, become, coe_concat, cons_add]
    rfl

theorem fetch_refines
   
   
    (hclean : ¬ (s.flow τ).Dirty b) (hfull : s.cache.mshr.isFull = false) : Refines s τ l (fetch s.cache t req b) := by
  have hwhole := hw.directory.visit hset.2.1 hset.2.2
  unfold fetch
  split
  · exact .refl hw hlog false
  next hpush =>
  obtain ⟨m, hadd, hm⟩ := add_eq (m := s.cache.mshr) hmiss.noEntry hfull
  have hline : s.cache.cacheLineID req.address = lineOf cfg req.address := rfl
  simp only [hline, hadd, bind_ok, Buffer.push_of_canPush (b := s.cache.dirToBankBuffer) (by simpa using hpush), hm]
  refine .silent τ ⟨hwhole.of_eq rfl rfl, hw.counted, hw.noFetch, hw.sent⟩ hlog ?_
  convert Flow.Step.fetch (a := s.flow τ) t _ req b (dir_eq ht τ) hreq hmiss hset hidle hclean using 1
  simp only [flow, become, coe_concat, cons_add]
  rfl

end

theorem inSet_of_mem {addr i : Nat} (hset : Directory.getSet cfg.geometry addr = .ok i)
    (hb : b ∈ waysOf cfg.geometry s.cache.directory.gen i) : Flow.InSet cfg s.cache.directory.gen addr b := by
  obtain ⟨hgen, rfl, hway⟩ := mem_waysOf.mp hb
  exact ⟨hset, hgen, hway⟩

theorem ways_pos {addr i : Nat} (hset : Directory.getSet cfg.geometry addr = .ok i) : 0 < cfg.geometry.numWays := by
  have hlt : i < cfg.byteSize / (cfg.wayAssociativity * cfg.blockSize) := Directory.getSet_lt hset
  show 0 < cfg.wayAssociativity
  rcases Nat.eq_zero_or_pos cfg.wayAssociativity with h | h
  · rw [h, Nat.zero_mul, Nat.div_zero] at hlt
    omega
  · exact h

theorem idle_of_not_busy (h : ¬ victimBusy s.cache b = true) (τ : List Moment) : (s.flow τ).Idle b := by
  simp only [victimBusy, Bool.or_eq_true, decide_eq_true_eq, not_or, Bool.not_eq_true] at h
  exact ⟨h.1, not_lt.mp h.2⟩

theorem dirty_iff (τ : List Moment) : needEviction s.cache b = true ↔ (s.flow τ).Dirty b := by
  simp only [needEviction, Bool.and_eq_true]
  rfl

theorem missWithFetch_refines (hw : Wired s.cache) (hlog : logOf τ = s.cache.log) (ht : s.cache.dirBuf.peek = some t)
    (hreq : t.accessReq = some req) (hlegal : Legal cfg req) (hmiss : (s.flow τ).Misses req)
    (hfetch : evictionNeedFetch cfg t = true) : Refines s τ l (missWithFetch s.cache t req) := by
  obtain ⟨_, hset⟩ := hlegal.mapped
  unfold missWithFetch
  split
  · exact .refl hw hlog false
  next hfull =>
  have hfull : s.cache.mshr.isFull = false := Bool.eq_false_iff.mpr hfull
  obtain ⟨_, hvictim, hb⟩ := hw.directory.findVictim hset (ways_pos hset)
  have hline : s.cache.cacheLineID req.address = lineOf cfg req.address := rfl
  simp only [hline, hvictim, bind_ok]
  split
  · exact .refl hw hlog false
  next hbusy =>
  have hidle := idle_of_not_busy hbusy τ
  split
  · next hneed =>
    exact evict_refines hw hlog ht hreq hmiss (inSet_of_mem hset hb) hidle ((dirty_iff τ).mp hneed) (.inl ⟨hfetch, hfull⟩)
  · next hneed =>
    exact fetch_refines hw hlog ht hreq hmiss (inSet_of_mem hset hb) hidle (fun hd => hneed ((dirty_iff τ).mpr hd)) hfull

theorem writeFullLineMiss_refines (hw : Wired s.cache) (hlog : logOf τ = s.cache.log) (ht : s.cache.dirBuf.peek = some t)
    (hread : t.read = none) (hwrite : t.write = some w) (hlegal : Legal cfg (.write w)) (hmiss : (s.flow τ).Misses (.write w))
    (hfull : isWritingFullLine cfg w = true) : Refines s τ l (writeFullLineMiss s.cache t w) := by
  obtain ⟨_, hset⟩ := hlegal.mapped
  unfold writeFullLineMiss
  obtain ⟨_, hvictim, hb⟩ := hw.directory.findVictim hset (ways_pos hset)
  have hline : s.cache.cacheLineID w.address = lineOf cfg (AccessReq.write w).address := rfl
  simp only [hline, hvictim, bind_ok]
  split
  · exact .refl hw hlog false
  next hbusy =>
  have hidle := idle_of_not_busy hbusy τ
  split
  · next hneed =>
    exact evict_refines hw hlog ht (by simp [Transaction.accessReq, hread, hwrite]) hmiss (inSet_of_mem hset hb) hidle
      ((dirty_iff τ).mp hneed) (.inr ⟨w, rfl, hread, hwrite, hfull⟩)
  · next hneed =>
    exact writeToBank_refines hw hlog ht hread hwrite hmiss.noEntry (inSet_of_mem hset hb) hidle hmiss.notEvicting
      (.inr ⟨hmiss.absent, hfull, fun hd => hneed ((dirty_iff τ).mpr hd)⟩)

theorem misses_of_lookup {i : Nat} (hset : Directory.getSet cfg.geometry (lineOf cfg req.address) = .ok i)
    (hnone : s.cache.mshr.query req.pid (lineOf cfg req.address) = none)
    (hlookup : ∀ b ∈ waysOf cfg.geometry s.cache.directory.gen i, ¬ ((s.cache.directory.blocks b).isValid = true ∧
      (s.cache.directory.blocks b).tag = lineOf cfg req.address ∧ (s.cache.directory.blocks b).pid = req.pid))
    (hev : s.cache.evictingList (lineOf cfg req.address) = false) (τ : List Moment) : (s.flow τ).Misses req := by
  refine ⟨hnone, fun b hb => ?_, hev⟩
  have hsame : b.setID = i := Except.ok.inj (hb.1.symm.trans hset)
  exact hlookup b (mem_waysOf.mpr ⟨hb.2.1, hsame, hb.2.2⟩)

section
variable (hw : Wired s.cache) (hlog : logOf τ = s.cache.log) (ht : s.cache.dirBuf.peek = some t)
include hw hlog ht

theorem doRead_refines {r : ReadReq} (hasks : t.Asks (.read r)) (hlegal : Legal cfg (.read r))
    (hev : s.cache.evictingList (lineOf cfg r.address) = false) : Refines s τ l (doRead s.cache t r) := by
  have hreq := Transaction.accessReq_of_asks hasks
  obtain ⟨_, hset⟩ := hlegal.mapped
  have hline : s.cache.cacheLineID r.address = lineOf cfg r.address := rfl
  simp only [doRead, hline]
  split
  · next e he => exact joinMSHREntry_refines hw hlog ht hreq he
  next hnone =>
  rcases hw.directory.lookup r.pid hset with ⟨b, hlookup, hb, hholds⟩ | ⟨hlookup, hb⟩
  · have hlookup : s.cache.directory.lookup r.pid (lineOf cfg r.address) = .ok (some b) := hlookup
    simp only [hlookup, bind_ok]
    exact readFromBank_refines hw hlog ht hreq hasks.1 hnone (inSet_of_mem hset hb) hholds
  · have hlookup : s.cache.directory.lookup r.pid (lineOf cfg r.address) = .ok none := hlookup
    simp only [hlookup, bind_ok]
    exact missWithFetch_refines hw hlog ht hreq hlegal (misses_of_lookup hset hnone hb hev τ)
      (by simp [evictionNeedFetch, hasks.2])

theorem doWrite_refines (hasks : t.Asks (.write w)) (hlegal : Legal cfg (.write w))
    (hev : s.cache.evictingList (lineOf cfg w.address) = false) : Refines s τ l (doWrite s.cache t w) := by
  have hreq := Transaction.accessReq_of_asks hasks
  obtain ⟨_, hset⟩ := hlegal.mapped
  have hline : s.cache.cacheLineID w.address = lineOf cfg w.address := rfl
  simp only [doWrite, hline]
  split
  · next e he => exact joinMSHREntry_refines hw hlog ht hreq he
  next hnone =>
  rcases hw.directory.lookup w.pid hset with ⟨b, hlookup, hb, hholds⟩ | ⟨hlookup, hb⟩
  · have hlookup : s.cache.directory.lookup w.pid (lineOf cfg w.address) = .ok (some b) := hlookup
    simp only [hlookup, bind_ok, doWriteHit]
    split
    · exact .refl hw hlog false
    next hbusy =>
    exact writeToBank_refines hw hlog ht hasks.1 hasks.2 hnone (inSet_of_mem hset hb) (idle_of_not_busy hbusy τ) hev
      (.inl hholds)
  · have hlookup : s.cache.directory.lookup w.pid (lineOf cfg w.address) = .ok none := hlookup
    have hmiss : (s.flow τ).Misses (.write w) := misses_of_lookup hset hnone hb hev τ
    simp only [hlookup, bind_ok, doWriteMiss]
    split
    · next hfull => exact writeFullLineMiss_refines hw hlog ht hasks.1 hasks.2 hlegal hmiss hfull
    · next hpart =>
      exact missWithFetch_refines hw hlog ht hreq hlegal hmiss (by simp [evictionNeedFetch, hasks.2, hpart])

theorem processHead_refines (hasks : t.Asks req) (hlegal : Legal cfg req)
    (hev : s.cache.evictingList (lineOf cfg req.address) = false) : Refines s τ l (processHead s.cache t) := by
  unfold processHead
  cases req with
  | read =>
    simp only [hasks.1]
    exact doRead_refines hw hlog ht hasks hlegal hev
  | write =>
    simp only [hasks.1, hasks.2]
    exact doWrite_refines hw hlog ht hasks hlegal hev

end

theorem processTransaction_refines (i : Nat) (hw : Wired c) (hlog : logOf τ = c.log)
    (hinv : ((s.become c).flow τ).Inv) : Refines (s.become c) τ .silent (processTransaction i c) := by
  induction i generalizing c τ with
  | zero => exact .refl hw hlog false
  | succ _ ih =>
    unfold processTransaction
    split
    · exact .refl hw hlog false
    next t ht =>
    obtain ⟨req, hasks, hlegal⟩ := hinv.shaped.dir t (dir_eq (s := s.become c) ht τ ▸ Multiset.mem_cons_self t _)
    have hderef : deref t.accessReq = .ok req := by rw [Transaction.accessReq_of_asks hasks]; rfl
    simp only [hderef, bind_ok]
    split
    · exact .refl hw hlog false
    next hev =>
    refine (processHead_refines (s := s.become c) hw hlog ht hasks hlegal (Bool.eq_false_iff.mpr hev)).bind hinv ?_
    exact fun p c' τ' hw' hlog' hinv' => (ih hw' hlog' hinv').report fun p' => p || p'

end

end DirectoryStage

end Akita.WriteBack
