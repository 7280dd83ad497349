import Akita.Vm.Control
import Akita.Vm.TlbCf.Steps
import Akita.Vm.TlbGmmu.Filter

/-!
# What the stages of the TLBs leave alone

No stage of a TLB but `performCtrlReq` touches the control port, and all of them keep its sets sound.

* `invalidateSets setID` : the loop of `handleTLBFlush`, the same in all TLBs; `invalidateSets_iff` : when it does not panic;
* `TlbCf.Framed t t'`, `TlbCf.exec_framed` : for every call of the cuckoo filter TLB, careful or not, which do not pause it
  either. `TlbCf.tick_eq_calls` : a tick of it is its calls in a row.
-/

namespace Akita.Vm
open Mem Sim Function
open Vm.Tlb (SetImpl Sound sound_update)
open Returns (error ok)

/-! ## Sets -/

/-- The sets are sound, whatever pages they hold. -/
def SoundSets (n : Nat) (sets : Nat → SetImpl) : Prop := ∀ i, Sound n (fun _ => True) (sets i)

section
variable {n i w : Nat} {sets sets' : Nat → SetImpl} {set : SetImpl} {page : Page}

theorem SoundSets.visit (h : SoundSets n sets) (hvisit : (sets i).visit w = .ok set) : SoundSets n (update sets i set) := by
  have hw : w < n := (h i).numWays ▸ TlbGmmu.lt_of_visit hvisit
  obtain ⟨_, hvisit', hsound⟩ := (h i).visit hw
  rw [hvisit, Except.ok.injEq] at hvisit'
  subst hvisit'
  exact sound_update h hsound

theorem SoundSets.fill (h : SoundSets n sets) (hfill : (sets i).fill page = .ok (w, set)) :
    SoundSets n (update sets i set) := by
  obtain ⟨_, _, hfill', hsound⟩ := @Sound.fill _ _ _ page (h i) ((h i).pos_of_fill hfill) fun _ => trivial
  rw [hfill, Except.ok.injEq, Prod.mk.injEq] at hfill'
  obtain ⟨-, rfl⟩ := hfill'
  exact sound_update h hsound

theorem SoundSets.invalidate (h : SoundSets n sets) (i : Nat) (pid : PID) (vAddr : VAddr) :
    ∃ set hist, (sets i).invalidate pid vAddr = .ok (set, hist) ∧ SoundSets n (update sets i set) := by
  obtain ⟨set, hist, hinv, hsound⟩ := (h i).invalidate pid vAddr
  exact ⟨set, hist, hinv, sound_update h (hsound.imp fun _ _ => trivial)⟩

theorem soundSets_new (h : SetImpl.new n = .ok set) : SoundSets n fun _ => set := by
  obtain ⟨_, hnew, hsound⟩ := Tlb.new_sound n fun _ => True
  rw [h, Except.ok.injEq] at hnew
  subst hnew
  exact fun _ => hsound

end

/-- `vAddrToSetID`. -/
def setIDOf (pageSize : UInt64) (numSets : Nat) (vAddr : VAddr) : Except String Nat :=
  if pageSize = 0 ∨ numSets = 0 then .error "runtime error: integer divide by zero"
  else .ok ((vAddr / pageSize).toNat % numSets)

/-- The loop of `handleTLBFlush`. -/
def invalidateSets (setID : VAddr → Except String Nat) (pid : PID) : List VAddr → (Nat → SetImpl) →
    Except String (Nat → SetImpl)
  | [], sets => .ok sets
  | vAddr :: vAddrs, sets => do
    let setID₁ ← setID vAddr
    let (set, _) ← (sets setID₁).invalidate pid vAddr
    invalidateSets setID pid vAddrs (update sets setID₁ set)

/-- The loops of the three TLBs are this one. -/
theorem eq_invalidateSets {setID : VAddr → Except String Nat} {pid : PID}
    {loop : List VAddr → (Nat → SetImpl) → Except String (Nat → SetImpl)} (hnil : ∀ sets, loop [] sets = .ok sets)
    (hcons : ∀ vAddr vAddrs sets, loop (vAddr :: vAddrs) sets = do
      let setID₁ ← setID vAddr
      let (set, _) ← (sets setID₁).invalidate pid vAddr
      loop vAddrs (update sets setID₁ set)) (vAddrs : List VAddr) (sets : Nat → SetImpl) :
    loop vAddrs sets = invalidateSets setID pid vAddrs sets := by
  induction vAddrs generalizing sets with
  | nil => exact hnil sets
  | cons _ _ ih =>
    rw [hcons, invalidateSets]
    simp only [ih]

section
variable {n : Nat} {sets sets' : Nat → SetImpl} {pageSize : UInt64} {numSets : Nat}

theorem invalidateSets_sound {setID : VAddr → Except String Nat} {pid : PID} {vAddrs : List VAddr} (h : SoundSets n sets)
    (hinv : invalidateSets setID pid vAddrs sets = .ok sets') : SoundSets n sets' := by
  induction vAddrs generalizing sets with
  | nil =>
    cases hinv
    exact h
  | cons vAddr _ ih =>
    obtain ⟨i, -, hinv⟩ := eq_ok_of_bind hinv
    obtain ⟨_, _, hone, hsound⟩ := h.invalidate i pid vAddr
    simp only [hone, bind, Except.bind] at hinv
    exact ih hsound hinv

/-- The loop divides by the page size and by the number of sets for each address. -/
theorem invalidateSets_iff (pid : PID) (vAddrs : List VAddr) (h : SoundSets n sets) :
    (∃ sets', invalidateSets (setIDOf pageSize numSets) pid vAddrs sets = .ok sets') ↔
      vAddrs = [] ∨ pageSize ≠ 0 ∧ numSets ≠ 0 := by
  by_cases hzero : pageSize = 0 ∨ numSets = 0
  · have hnot : ¬ (pageSize ≠ 0 ∧ numSets ≠ 0) := fun hne => hzero.elim hne.1 hne.2
    cases vAddrs with
    | nil => exact iff_of_true ⟨sets, rfl⟩ (.inl rfl)
    | cons =>
      refine iff_of_false ?_ fun hor => hor.elim nofun hnot
      rintro ⟨sets', hinv⟩
      obtain ⟨_, hi, -⟩ := eq_ok_of_bind hinv
      rw [setIDOf, if_pos hzero] at hi
      cases hi
  · refine iff_of_true ?_ (.inr (not_or.mp hzero))
    induction vAddrs generalizing sets with
    | nil => exact ⟨sets, rfl⟩
    | cons vAddr _ ih =>
      obtain ⟨_, _, hone, hsound⟩ := h.invalidate ((vAddr / pageSize).toNat % numSets) pid vAddr
      obtain ⟨sets', hinv⟩ := ih hsound
      refine ⟨sets', ?_⟩
      unfold invalidateSets
      simp only [setIDOf, if_neg hzero, bind, Except.bind, hone]
      exact hinv

end

/-! ## `tlb` -/

namespace Tlb

variable {cfg : Config}

theorem invalidateAll_eq (pid : PID) (vAddrs : List VAddr) (sets : Nat → SetImpl) :
    invalidateAll cfg pid vAddrs sets = invalidateSets (setIDOf cfg.pageSize cfg.numSets) pid vAddrs sets :=
  eq_invalidateSets (fun _ => rfl) (fun _ _ _ => rfl) vAddrs sets

/-- What a call other than `performCtrlReq` leaves alone. -/
theorem exec_framed {t t' : TLB cfg} {k : Call} {p : Bool} (hk : k ≠ .ctrl) (hsets : SoundSets cfg.numWays t.sets)
    (h : k.exec t = .ok (p, t')) : SoundSets cfg.numWays t'.sets ∧ t'.controlPort = t.controlPort := by
  rcases Call.step h with ⟨rfl, -⟩ | rfl | ⟨-, hstep⟩
  · exact absurd rfl hk
  · exact ⟨hsets, rfl⟩
  · cases hstep with
    | hit _ _ _ _ _ _ _ _ _ _ hvisit => exact ⟨hsets.visit hvisit, rfl⟩
    | parse _ _ _ _ _ _ _ _ _ hfill => exact ⟨hsets.fill hfill, rfl⟩
    | _ => exact ⟨hsets, rfl⟩

end Tlb

/-! ## `tlb_gmmu` -/

namespace TlbGmmu

variable {cfg : Config}

theorem invalidateAll_eq (pid : PID) (vAddrs : List VAddr) (sets : Nat → SetImpl) :
    invalidateAll cfg pid vAddrs sets = invalidateSets (setIDOf cfg.pageSize cfg.numSets) pid vAddrs sets :=
  eq_invalidateSets (fun _ => rfl) (fun _ _ _ => rfl) vAddrs sets

/-- The control port and the sets are left alone. -/
def Same (t t' : GMMUTLB cfg) : Prop := t'.sets = t.sets ∧ t'.controlPort = t.controlPort

theorem same_retrieveReq (t : GMMUTLB cfg) (r : MshrRequest) : Same t (t.retrieveReq r) := by
  unfold GMMUTLB.retrieveReq
  split
  · exact ⟨rfl, rfl⟩
  · split <;> exact ⟨rfl, rfl⟩

theorem same_answered (t : GMMUTLB cfg) (r : MshrRequest) (toTop toOutside : TranslationRsp) (conn : List Bool) :
    Same t (answered t r toTop toOutside conn) := by
  unfold answered
  split <;> exact ⟨rfl, rfl⟩

theorem same_retrieveRsp (t : GMMUTLB cfg) (bottom : Bool) : Same t (retrieveRsp t bottom) := by
  cases bottom <;> exact ⟨rfl, rfl⟩

theorem install_framed {t t' : GMMUTLB cfg} {page : Page} {deletes : Page → Bool} (hsets : SoundSets cfg.numWays t.sets)
    (h : install t page deletes = .ok t') : SoundSets cfg.numWays t'.sets ∧ t'.controlPort = t.controlPort := by
  obtain ⟨_, -, h⟩ := eq_ok_of_bind h
  obtain ⟨⟨_, _⟩, hreplace, h⟩ := eq_ok_of_bind h
  obtain ⟨_, -, -, hfill⟩ := replace_eq_fill hreplace
  cases h
  exact ⟨hsets.fill hfill, rfl⟩

/-- What a call other than `performCtrlReq` leaves alone. -/
theorem exec_framed {t t' : GMMUTLB cfg} {k : Call} {p : Bool} (hk : k ≠ .ctrl) (hsided : Sided t)
    (hsets : SoundSets cfg.numWays t.sets) (h : k.exec t = .ok (p, t')) :
    (Sided t' ∧ SoundSets cfg.numWays t'.sets) ∧ t'.controlPort = t.controlPort := by
  rcases Call.step (fun e he => hsided e (.inr he)) h with ⟨rfl, -⟩ | rfl | ⟨-, hstep⟩
  · exact absurd rfl hk
  · exact ⟨⟨hsided, hsets⟩, rfl⟩
  · rw [and_assoc]
    refine ⟨hsided.step hstep, ?_⟩
    have hsame : ∀ {t₁ : GMMUTLB cfg}, Same t t₁ → SoundSets cfg.numWays t₁.sets ∧ t₁.controlPort = t.controlPort := by
      rintro t₁ ⟨hs, hport⟩
      exact ⟨hs ▸ hsets, hport⟩
    cases hstep with
    | idle => exact ⟨hsets, rfl⟩
    | respond _ _ r _ conn => exact hsame (same_answered t r _ _ conn)
    | hit _ r _ _ page _ conn _ _ _ _ hvisit =>
      have hport := (same_retrieveReq (answered t r (rspToTop r.request page) (rspToOutsideHit r.request page) conn) r).2
      exact ⟨hsets.visit hvisit, hport.trans (same_answered t r _ _ conn).2⟩
    | join _ r => exact hsame (same_retrieveReq { t with mshr := t.mshr.join r } r)
    | fetch _ r => exact hsame (same_retrieveReq _ r)
    | fetchRemote _ dst conn => exact hsame (same_retrieveReq (sentOn t _ dst conn) _)
    | pass _ dst conn => exact hsame (same_retrieveReq (sentOn t _ dst conn) _)
    | drop _ _ bottom => exact hsame (same_retrieveRsp t bottom)
    | fill _ rsp bottom e t₁ _ _ hinstall =>
      obtain ⟨hsound, hport⟩ := install_framed hsets hinstall
      obtain ⟨hs, hp⟩ := @same_retrieveRsp cfg { t₁ with
        respondingMSHREntry := t₁.respondingMSHREntry ++ [{ e with page := rsp.page }]
        mshr := ⟨t₁.mshr.entries.eraseP (MshrEntry.isFor rsp.page.pid rsp.page.vAddr)⟩ } bottom
      exact ⟨hs ▸ hsound, hp.trans hport⟩
    | load _ t₁ _ hinstall =>
      show SoundSets cfg.numWays t₁.sets ∧ t₁.controlPort = t.controlPort
      exact install_framed hsets hinstall

end TlbGmmu

/-! ## `tlb_cf` -/

namespace TlbCf

variable {cfg : Config}

theorem invalidateAll_eq (pid : PID) (vAddrs : List VAddr) (sets : Nat → SetImpl) :
    invalidateAll cfg pid vAddrs sets = invalidateSets (setIDOf cfg.pageSize cfg.numSets) pid vAddrs sets :=
  eq_invalidateSets (fun _ => rfl) (fun _ _ _ => rfl) vAddrs sets

/-- The control port and the pause are left alone, and sound sets stay sound. -/
structure Framed (t t' : TLB cfg) : Prop where
  controlPort : t'.controlPort = t.controlPort
  isPaused : t'.isPaused = t.isPaused
  sets : SoundSets cfg.numWays t.sets → SoundSets cfg.numWays t'.sets

namespace Framed

variable {t t' t₁ : TLB cfg}

theorem of_eq (hport : t'.controlPort = t.controlPort) (hpaused : t'.isPaused = t.isPaused) (hsets : t'.sets = t.sets) :
    Framed t t' :=
  ⟨hport, hpaused, fun h => hsets ▸ h⟩

theorem refl (t : TLB cfg) : Framed t t := of_eq rfl rfl rfl

theorem trans (h : Framed t t₁) (h' : Framed t₁ t') : Framed t t' :=
  ⟨h'.controlPort.trans h.controlPort, h'.isPaused.trans h.isPaused, fun hs => h'.sets (h.sets hs)⟩

theorem retrieveReq (t : TLB cfg) (r : MshrRequest) : Framed t (t.retrieveReq r) := by
  unfold TLB.retrieveReq
  split
  · exact of_eq rfl rfl rfl
  · split <;> exact of_eq rfl rfl rfl

theorem sendRsp (t : TLB cfg) (r : MshrRequest) (rsp : TranslationRsp) : Framed t (TlbCf.sendRsp t r rsp).2 := by
  unfold TlbCf.sendRsp
  have hfirst : Framed t (if r.localFlag then t.sendTop rsp else (true, t)).2 := by
    split <;> exact of_eq rfl rfl rfl
  generalize (if r.localFlag then t.sendTop rsp else (true, t)) = x at hfirst ⊢
  obtain ⟨_, _⟩ := x
  dsimp only
  split
  · exact hfirst
  · split
    · exact hfirst.trans (of_eq rfl rfl rfl)
    · exact hfirst

end Framed

section
variable {t : TLB cfg} {x : Result cfg}

/-- What a result leaves alone. -/
abbrev Leaves (t : TLB cfg) (x : Result cfg) : Prop := Returns (fun y => Framed t y.2) x

theorem handled_framed {m : Message} (h : Leaves t x) : Leaves t (handled m x) := by
  cases x with
  | error => exact error _
  | ok y =>
    obtain ⟨p, _⟩ := y
    have hframed := h _ rfl
    cases p with
    | true => exact ok (hframed.trans (.of_eq rfl rfl rfl))
    | false => exact ok hframed

theorem filtered_framed {req : TranslationReq} {y : Result cfg} (hx : Leaves t x) (hy : Leaves t y) :
    Leaves t (filtered t req x y) := by
  unfold filtered
  split
  · split
    · exact error _
    · split
      · exact hx
      · exact hy
  · exact hx

theorem respondMSHREntry_framed (t : TLB cfg) : Leaves t (respondMSHREntry t) := by
  unfold respondMSHREntry
  split
  · exact ok (.refl t)
  · split
    · exact error _
    · next r requests hreqs =>
      dsimp only
      have hframed := Framed.sendRsp t r
      split
      · exact ok (hframed _)
      · exact ok ((hframed _).trans (.of_eq rfl rfl rfl))

theorem processTLBMSHRHit_framed (t : TLB cfg) (e : Option MshrEntry) (r : MshrRequest) :
    Leaves t (processTLBMSHRHit t e r) := by
  unfold processTLBMSHRHit
  split
  · exact error _
  · have hjoin : Framed t (TLB.record { t with mshr := t.mshr.join r } (.join r)) := .of_eq rfl rfl rfl
    exact ok (hjoin.trans (.retrieveReq _ r))

theorem fetch_framed (t : TLB cfg) (r : MshrRequest) (toCmp : Bool) (req : TranslationReq) :
    Leaves t (fetch t r toCmp req) := by
  unfold fetch
  have hframed : Framed t (if toCmp then t.sendCmp req else t.sendBottom req).2 := by
    split <;> exact .of_eq rfl rfl rfl
  generalize (if toCmp then t.sendCmp req else t.sendBottom req) = x at hframed ⊢
  obtain ⟨_, _⟩ := x
  dsimp only
  split
  · exact ok hframed
  · exact Returns.bind fun mshr _ => ok (hframed.trans (.of_eq rfl rfl rfl))

theorem miss_framed {fetch : TLB cfg → MshrRequest → Result cfg} (t : TLB cfg) (r : MshrRequest)
    (h : Leaves t (fetch t r)) : Leaves t (miss t r fetch) := by
  unfold miss
  split
  · exact ok (.refl t)
  · refine Returns.bind fun y hy => ?_
    obtain ⟨p, t'⟩ := y
    have hframed := h _ hy
    cases p with
    | true => exact ok (hframed.trans (.retrieveReq t' r))
    | false => exact ok hframed

theorem handleTranslationHit_framed (t : TLB cfg) (r : MshrRequest) (setID wayID : Nat) (page : Page) :
    Leaves t (handleTranslationHit t r setID wayID page) := by
  unfold handleTranslationHit
  have hframed := Framed.sendRsp t r (rspOfHit r.request page)
  dsimp only
  split
  · exact ok hframed
  · refine Returns.bind fun set hvisit => ok ?_
    have hset : Framed t { (sendRsp t r (rspOfHit r.request page)).2 with
        sets := update (sendRsp t r (rspOfHit r.request page)).2.sets setID set } :=
      ⟨hframed.controlPort, hframed.isPaused, fun hs => (hframed.sets hs).visit hvisit⟩
    exact (hset.trans (.retrieveReq _ r)).trans (.of_eq rfl rfl rfl)

theorem processTranslation_framed (t : TLB cfg) (req : TranslationReq) : Leaves t (processTranslation t req) := by
  unfold processTranslation
  have hmiss : Leaves t (handleTranslationMiss t { request := req, localFlag := true, remoteFlag := false }) :=
    miss_framed t _ (fetch_framed _ _ _ _)
  dsimp only
  split
  · exact processTLBMSHRHit_framed _ _ _
  · refine Returns.bind fun setID _ => Returns.bind fun found _ => ?_
    cases found with
    | none => exact hmiss
    | some =>
      dsimp only
      split
      · exact handleTranslationHit_framed _ _ _ _ _
      · exact hmiss

theorem handleLocalCF_framed (t : TLB cfg) (req : TranslationReq) : Leaves t (handleLocalCF t req) := by
  unfold handleLocalCF
  dsimp only
  split
  · exact processTLBMSHRHit_framed _ _ _
  · exact miss_framed t _ (fetch_framed _ _ _ _)

theorem insertFilter_framed (t : TLB cfg) (page : Page) : Returns (Framed t) (insertFilter t page) := by
  unfold insertFilter
  split
  · split
    · exact error _
    · exact Returns.bind fun y _ => ok (.of_eq rfl rfl rfl)
  · exact ok (.refl t)

theorem processRsp_framed (t : TLB cfg) (rsp : TranslationRsp) : Leaves t (processRsp t rsp) := by
  unfold processRsp
  split
  · exact ok (.of_eq rfl rfl rfl)
  · next e he =>
    refine Returns.bind fun setID _ => Returns.bind fun y hfill => Returns.bind fun mshr _ => Returns.bind fun t' ht' => ok ?_
    obtain ⟨_, _⟩ := y
    refine Framed.trans ?_ (insertFilter_framed _ _ t' ht')
    exact ⟨rfl, rfl, fun hs => hs.fill hfill⟩

theorem processRemoveMSHRReq_framed (t : TLB cfg) (req : RemoveMSHRReq) : Leaves t (processRemoveMSHRReq t req) := by
  unfold processRemoveMSHRReq
  split
  · exact ok (.of_eq rfl rfl rfl)
  · exact Returns.bind fun mshr _ => ok (.of_eq rfl rfl rfl)

theorem lookupFromTopPort_framed (t : TLB cfg) : Leaves t (lookupFromTopPort t) := by
  unfold lookupFromTopPort
  split
  · exact ok (.refl t)
  · exact handled_framed (filtered_framed (processTranslation_framed _ _) (handleLocalCF_framed _ _))

theorem handleRemoteCFMiss_framed (t : TLB cfg) (req : TranslationReq) : Leaves t (handleRemoteCFMiss t req) := by
  unfold handleRemoteCFMiss
  dsimp only
  split <;> exact ok (.of_eq rfl rfl rfl)

theorem processRemoteTranslation_framed (t : TLB cfg) (req : TranslationReq) : Leaves t (processRemoteTranslation t req) := by
  unfold processRemoteTranslation processRemoteTranslationReq
  split
  · exact ok (.refl t)
  · refine filtered_framed ?_ (handleRemoteCFMiss_framed _ _)
    dsimp only
    split
    · exact processTLBMSHRHit_framed _ _ _
    · exact miss_framed t _ (fetch_framed _ _ _ _)

theorem lookupFromOutsidePort_framed (t : TLB cfg) : Leaves t (lookupFromOutsidePort t) := by
  unfold lookupFromOutsidePort
  split
  · exact ok (.refl t)
  · exact handled_framed (processRemoteTranslation_framed _ _)
  · exact handled_framed (processRsp_framed _ _)

theorem parseBottom_framed (t : TLB cfg) : Leaves t (parseBottom t) := by
  unfold parseBottom
  split
  · exact ok (.refl t)
  · split
    · exact ok (.refl t)
    · exact handled_framed (processRsp_framed _ _)
    · exact handled_framed (processRemoveMSHRReq_framed _ _)

/-- What a call other than `performCtrlReq` leaves alone. -/
theorem exec_framed {k : Call} (hk : k ≠ .ctrl) (t : TLB cfg) : Leaves t (k.exec t) := by
  have hguard : ∀ {x : Result cfg}, Leaves t x → Leaves t (if t.isPaused then .ok (false, t) else x) := by
    intro x hx
    split
    · exact ok (.refl t)
    · exact hx
  cases k with
  | ctrl => exact absurd rfl hk
  | respond => exact hguard (respondMSHREntry_framed t)
  | top => exact hguard (lookupFromTopPort_framed t)
  | outside => exact hguard (lookupFromOutsidePort_framed t)
  | bottom => exact hguard (parseBottom_framed t)

theorem splits_stage {k : Call} {f : Stage (TLB cfg)} (hf : ∀ t, Leaves t (f t))
    (hk : ∀ t : TLB cfg, k.exec t = if t.isPaused then .ok (false, t) else f t) :
    Splits (·.isPaused = false) Call.exec f [k] :=
  .call (fun t x ht hx => (hf t x hx).isPaused.trans ht) fun t ht => by rw [hk, if_neg (by simp [ht])]

theorem splits_lookups : Splits (fun t : TLB cfg => t.isPaused = false) Call.exec lookupFromPorts [.top, .outside] :=
  (splits_stage lookupFromTopPort_framed fun _ => rfl).bind fun _ =>
    (splits_stage lookupFromOutsidePort_framed fun _ => rfl).last fun _ => rfl

/-- A tick is its calls in a row. -/
theorem tick_eq_calls (t : TLB cfg) :
    (tick t).map Prod.snd = calls Call.exec (schedule cfg.numReqPerCycle) t := by
  have hsched : schedule cfg.numReqPerCycle = [Call.ctrl] ++ ((List.replicate cfg.numReqPerCycle [Call.respond]).flatten ++
      ((List.replicate cfg.numReqPerCycle [Call.top, .outside]).flatten ++
        (List.replicate cfg.numReqPerCycle [Call.bottom]).flatten)) := by
    simp [schedule]
  rw [hsched, tick]
  refine map_snd_bind (map_snd_exec Call.exec .ctrl t) fun (p, t) _ => ?_
  apply Splits.gated
  · intro p
    refine ((splits_stage respondMSHREntry_framed fun _ => rfl).times _).bind fun _ => ?_
    refine (splits_lookups.times _).bind fun _ => ?_
    exact ((splits_stage parseBottom_framed fun _ => rfl).times _).last fun _ => rfl
  · intro t ht k hk
    have hne : k ≠ .ctrl := by
      rintro rfl
      simp [List.mem_replicate] at hk
    cases k with
    | ctrl => exact absurd rfl hne
    | _ => exact if_pos ht

end

end TlbCf

end Akita.Vm
