import Akita.Vm.TlbGmmu.Conservation

/-!
# Entries and the answers under way

* `Kept.step` : what the calls rely on stays, `Kept.raises` : so no entry is empty or missing when it is read;
* `Covered s` : an entry has a request or an answer for its page under way;
* `answers_of_reaches` : every run of wary calls without control requests conserves its requests, and when nothing is under
  way all are answered;
* `never_answered` : a remote request for an address inside a page waits forever.
-/

namespace Akita.Vm.TlbGmmu
open Mem Sim List
open Vm.Tlb (SetImpl Sound ControlReq ControlRsp sound_update new_sound)
open Multiset (mem_add mem_coe)
open Raises (error of_ok ok)

variable {cfg : Config}

section
variable {t t' : GMMUTLB cfg} {k : Call} {r : MshrRequest}

/-! ## What is kept -/

theorem Step.frame (hs : Step t k t') :
    (∀ req ∈ t'.topPort.buf.elements, req ∈ t.topPort.buf.elements) ∧ t'.controlPort = t.controlPort := by
  have htail : ∀ req ∈ t.topPort.buf.elements.tail, req ∈ t.topPort.buf.elements := fun req hreq => mem_of_mem_tail hreq
  cases hs with
  | idle => exact ⟨fun _ h => h, rfl⟩
  | respond =>
    dsimp only [GMMUTLB.record]
    unfold answered
    split <;> exact ⟨fun _ h => h, rfl⟩
  | hit | join | fetch =>
    cases ‹_› with
    | top => exact ⟨htail, rfl⟩
    | outside => exact ⟨fun _ h => h, rfl⟩
  | fetchRemote => exact ⟨htail, rfl⟩
  | pass => exact ⟨fun _ h => h, rfl⟩
  | drop _ _ bottom => cases bottom <;> exact ⟨fun _ h => h, rfl⟩
  | fill _ _ bottom _ _ _ _ hinstall =>
    obtain ⟨_, _, _, -, -, rfl⟩ := install_eq hinstall
    cases bottom <;> exact ⟨fun _ h => h, rfl⟩
  | load _ _ _ hinstall =>
    obtain ⟨_, _, _, -, -, rfl⟩ := install_eq hinstall
    exact ⟨fun _ h => h, rfl⟩

theorem sound_install (hsets : ∀ i, Sound cfg.numWays (fun _ => True) (t.sets i)) {page : Page} {deletes : Page → Bool}
    (hinstall : install t page deletes = .ok t') (i : Nat) : Sound cfg.numWays (fun _ => True) (t'.sets i) := by
  obtain ⟨setID, _, _, -, hreplace, rfl⟩ := install_eq hinstall
  obtain ⟨_, -, -, hfill⟩ := replace_eq_fill hreplace
  obtain ⟨_, _, hfill', hsound⟩ := (hsets setID).fill ((hsets setID).pos_of_fill hfill) fun (_ : page.valid = true) => trivial
  rw [hfill, Except.ok.injEq, Prod.mk.injEq] at hfill'
  obtain ⟨rfl, rfl⟩ := hfill'
  exact sound_update (P := fun _ _ => True) hsets hsound i

theorem sets_retrieveRsp (t : GMMUTLB cfg) (bottom : Bool) : (retrieveRsp t bottom).sets = t.sets := by
  cases bottom <;> rfl

theorem Step.sound (hs : Step t k t') (hsets : ∀ i, Sound cfg.numWays (fun _ => True) (t.sets i)) (i : Nat) :
    Sound cfg.numWays (fun _ => True) (t'.sets i) := by
  cases hs with
  | idle => exact hsets i
  | respond _ _ r _ conn =>
    show Sound _ _ ((answered t r _ _ conn).sets i)
    rw [answered_sets]
    exact hsets i
  | hit _ r setID wayID page _ _ _ _ hlook _ hvisit =>
    obtain ⟨_, hlook', hpage⟩ := (hsets setID).lookup r.request.pid r.request.vAddr
    rw [hlook, Except.ok.injEq] at hlook'
    subst hlook'
    obtain ⟨_, hvisit', hsound⟩ := (hsets setID).visit (hpage wayID page rfl).1
    rw [hvisit, Except.ok.injEq] at hvisit'
    subst hvisit'
    exact sound_update (P := fun _ _ => True) hsets hsound i
  | join =>
    rw [retrieveReq_sets]
    exact hsets i
  | fetch _ r =>
    show Sound _ _ ((GMMUTLB.retrieveReq _ r).sets i)
    rw [retrieveReq_sets]
    exact hsets i
  | fetchRemote | pass => exact hsets i
  | drop =>
    rw [sets_retrieveRsp]
    exact hsets i
  | fill _ _ _ _ _ _ _ hinstall =>
    rw [filled, sets_retrieveRsp]
    exact sound_install hsets hinstall i
  | load _ _ _ hinstall => exact sound_install hsets hinstall i

theorem Kept.quiet (h : Kept t) (hs : Step t k t') (hmshr : t'.mshr = t.mshr)
    (hresp : t'.respondingMSHREntry = t.respondingMSHREntry) : Kept t' := by
  obtain ⟨htop, hcontrol⟩ := hs.frame
  refine ⟨hs.sound h.sets, ?_, ?_, ?_, fun req hreq => h.arriving req (htop req hreq), ?_, ?_, hs.isPaused.trans h.running⟩
  · rw [hmshr]
    exact h.entries
  · rw [hmshr]
    exact h.keys
  · rw [hresp]
    exact h.responding
  · rw [waiting_congr hmshr hresp]
    exact h.aligned
  · rw [hcontrol]
    exact h.control

theorem Kept.open (h : Kept t) (hs : Step t k t') (hside : r.remoteFlag = !r.localFlag)
    (habsent : t.mshr.query r.request.pid r.request.vAddr = none) (haligned : Aligned cfg r.request.vAddr)
    (fetch : TranslationReq) (hmshr : t'.mshr = ⟨t.mshr.entries ++ [missEntry r fetch]⟩)
    (hresp : t'.respondingMSHREntry = t.respondingMSHREntry) : Kept t' := by
  obtain ⟨htop, hcontrol⟩ := hs.frame
  refine ⟨hs.sound h.sets, ?_, ?_, ?_, fun req hreq => h.arriving req (htop req hreq), ?_, ?_, hs.isPaused.trans h.running⟩
  · intro e he
    rw [hmshr] at he
    rcases mem_append.mp he with he | he
    · exact h.entries e he
    · rw [mem_singleton.mp he]
      refine ⟨⟨cons_ne_nil _ _, fun r' hr' => ?_, fun r' hr' => ?_⟩, rfl⟩
      · rw [mem_singleton.mp hr']
        exact hside
      · rw [mem_singleton.mp hr']
        exact ⟨rfl, rfl⟩
  · rw [hmshr, Mshr.keys_add]
    refine nodup_append.mpr ⟨h.keys, nodup_singleton _, fun key hkey key' hkey' heq => ?_⟩
    rw [mem_singleton.mp hkey'] at heq
    subst heq
    exact Mshr.query_eq_none.mp habsent hkey
  · rw [hresp]
    exact h.responding
  · rw [waiting_missEntry hmshr hresp]
    intro r' hr'
    rcases Multiset.mem_cons.mp hr' with rfl | hr'
    · exact haligned
    · exact h.aligned r' hr'
  · rw [hcontrol]
    exact h.control

theorem mem_waiting {e : MshrEntry} (he : e ∈ t.mshr.entries) (hr : r ∈ e.requests) : r ∈ waiting t :=
  mem_add.mpr (.inl (mem_coe.mpr (mem_flatMap.mpr ⟨e, he, hr⟩)))

theorem Kept.aligned_entry (h : Kept t) {e : MshrEntry} (he : e ∈ t.mshr.entries) : Aligned cfg e.vAddr := by
  obtain ⟨hwell, -⟩ := h.entries e he
  obtain ⟨r, requests, hreqs⟩ := exists_cons_of_ne_nil hwell.nonempty
  have hr : r ∈ e.requests := by rw [hreqs]; exact mem_cons_self
  rw [← (hwell.pages r hr).2]
  exact h.aligned r (mem_waiting he hr)

theorem Kept.step (h : Kept t) (hwary : Wary t k) (hs : Step t k t') : Kept t' := by
  obtain ⟨htop, hcontrol⟩ := hs.frame
  have harriving : ∀ req ∈ t'.topPort.buf.elements, Aligned cfg req.vAddr := fun req hreq => h.arriving req (htop req hreq)
  have hcontrol' : t'.controlPort.buf.elements = [] := by
    rw [hcontrol]
    exact h.control
  have hrunning := hs.isPaused.trans h.running
  have hsound := hs.sound h.sets
  cases hs with
  | idle k top bottom outside id hid => exact h.quiet (.idle k top bottom outside id hid) rfl rfl
  | respond e es r requests conn he hreqs =>
    obtain ⟨hmshr, -⟩ := answered_mshr t r (rspToTop r.request e.page) (rspToOutside r.request e.page) conn
    have hentries : ∀ e' ∈ (answered t r (rspToTop r.request e.page) (rspToOutside r.request e.page) conn).mshr.entries,
        e'.WellFormed ∧ e'.reqToBottom.isSome = true := by
      rw [hmshr]
      exact h.entries
    obtain ⟨hwell, hpage⟩ := h.responding e (by rw [he]; exact mem_cons_self)
    refine ⟨hsound, hentries, hmshr ▸ h.keys, fun e' he' => ?_, harriving, fun r' hr' => h.aligned r' ?_, hcontrol', hrunning⟩
    · change e' ∈ (if requests.isEmpty then es else { e with requests } :: es) at he'
      cases requests with
      | nil => exact h.responding e' (by rw [he]; exact mem_cons_of_mem _ he')
      | cons r₁ requests =>
        rcases mem_cons.mp he' with rfl | he'
        · have hmem : ∀ r₂ ∈ r₁ :: requests, r₂ ∈ e.requests := by
            intro r₂ hr₂
            rw [hreqs]
            exact mem_cons_of_mem _ hr₂
          exact ⟨⟨cons_ne_nil _ _, fun r₂ hr₂ => hwell.sides r₂ (hmem r₂ hr₂), fun r₂ hr₂ => hwell.pages r₂ (hmem r₂ hr₂)⟩,
            hpage⟩
        · exact h.responding e' (by rw [he]; exact mem_cons_of_mem _ he')
    · -- what waits after the answer waited before
      change r' ∈ (answered t r (rspToTop r.request e.page) (rspToOutside r.request e.page) conn).mshr.waiting +
        ↑((if requests.isEmpty then es else { e with requests } :: es).flatMap MshrEntry.requests) at hr'
      rw [hmshr] at hr'
      rw [waiting, he, flatMap_cons, hreqs]
      rcases mem_add.mp hr' with hr' | hr'
      · exact mem_add.mpr (.inl hr')
      · refine mem_add.mpr (.inr ?_)
        have hrest : (if requests.isEmpty then es else { e with requests } :: es).flatMap MshrEntry.requests =
            requests ++ es.flatMap MshrEntry.requests := by
          cases requests <;> simp
        rw [hrest] at hr'
        exact mem_cons_of_mem _ hr'
  | hit k r setID wayID page set conn hhead hset hlook hvalid hvisit hfilter habsent =>
    obtain ⟨hmshr, hresp⟩ := retrieveReq_mshr (answered t r (rspToTop r.request page) (rspToOutsideHit r.request page) conn) r
    obtain ⟨hmshr', hresp'⟩ := answered_mshr t r (rspToTop r.request page) (rspToOutsideHit r.request page) conn
    exact h.quiet (.hit k r setID wayID page set conn hhead hset hlook hvalid hvisit hfilter habsent) (hmshr.trans hmshr')
      (hresp.trans hresp')
  | join _ r _ hhead he =>
    obtain ⟨hmshr, hresp⟩ := retrieveReq_mshr { t with mshr := t.mshr.join r } r
    have hentry := Mshr.mem_of_query he
    obtain ⟨hpid, haddr⟩ := Mshr.key_of_query he
    refine ⟨hsound, ?_, ?_, ?_, harriving, ?_, hcontrol', hrunning⟩
    · rw [hmshr]
      intro e' he'
      refine ⟨Mshr.wellFormed_join (fun e' he' => (h.entries e' he').1) hhead.side e' he', ?_⟩
      rcases Mshr.mem_joinEntries he' with he' | ⟨e₀, he₀, -, -, rfl⟩
      · exact (h.entries e' he').2
      · exact (h.entries e₀ he₀).2
    · rw [hmshr, Mshr.keys_join]
      exact h.keys
    · rw [hresp]
      exact h.responding
    · have hwaiting : waiting ({ t with mshr := t.mshr.join r }.retrieveReq r) = r ::ₘ waiting t := by
        rw [waiting, hmshr, hresp, Mshr.waiting_join he, Multiset.cons_add]
        rfl
      rw [hwaiting]
      intro r' hr'
      rcases Multiset.mem_cons.mp hr' with rfl | hr'
      · rw [← haddr]
        exact h.aligned_entry hentry
      · exact h.aligned r' hr'
  | fetch k r conn hhead habsent hfilter hmiss hdevice =>
    have haligned : Aligned cfg r.request.vAddr := by
      cases hhead with
      | top req hreq => exact h.arriving req (by rw [Buffer.peek_eq_some hreq]; exact mem_cons_self)
      | outside req hreq => exact (hwary rfl req hreq (hfilter rfl) habsent).fetch hmiss hdevice
    exact h.open (.fetch k r conn hhead habsent hfilter hmiss hdevice) hhead.side habsent haligned _ (fetched_mshr t r conn).1
      (fetched_mshr t r conn).2
  | fetchRemote req dst conn hhead hdst habsent =>
    have haligned : Aligned cfg req.vAddr := h.arriving req (by rw [Buffer.peek_eq_some hhead]; exact mem_cons_self)
    exact h.open (r := { request := req, localFlag := true, remoteFlag := false })
      (.fetchRemote req dst conn hhead hdst habsent) rfl
      habsent haligned _ rfl (passed_mshr t _ dst conn).2
  | pass req dst conn hhead hdst =>
    exact h.quiet (.pass req dst conn hhead hdst) (passed_mshr t _ dst conn).1 (passed_mshr t _ dst conn).2
  | drop k rsp bottom hhead habsent =>
    exact h.quiet (.drop k rsp bottom hhead habsent) (retrieveRsp_mshr t bottom).1 (retrieveRsp_mshr t bottom).2
  | fill _ rsp bottom e _ _ he hinstall =>
    obtain ⟨setID, oldPage, set, -, -, rfl⟩ := install_eq hinstall
    obtain ⟨hmshr, hresp⟩ := filled_mshr (installed t rsp.page setID set oldPage (filterAfter t (!oldPage.valid) oldPage))
      e rsp bottom
    obtain ⟨hpid, haddr⟩ := Mshr.key_of_query he
    refine ⟨hsound, ?_, ?_, ?_, harriving, ?_, hcontrol', hrunning⟩
    · rw [hmshr]
      exact fun e' he' => h.entries e' (mem_of_mem_eraseP he')
    · rw [hmshr]
      exact (Mshr.keys_remove h.keys he).1
    · rw [hresp]
      intro e' he'
      rcases mem_append.mp he' with he' | he'
      · exact h.responding e' he'
      · rw [mem_singleton.mp he']
        obtain ⟨hnonempty, hsides, hpages⟩ := (h.entries e (Mshr.mem_of_query he)).1
        exact ⟨⟨hnonempty, hsides, hpages⟩, hpid.symm, haddr.symm⟩
    · have hmshr₁ : (installed t rsp.page setID set oldPage (filterAfter t (!oldPage.valid) oldPage)).mshr = t.mshr := rfl
      rw [waiting_filled he hmshr₁ rfl]
      exact h.aligned
  | load page t₁ hhead hinstall =>
    have hs := Step.load page t₁ hhead hinstall
    obtain ⟨_, _, _, -, -, rfl⟩ := install_eq hinstall
    exact h.quiet hs rfl rfl

/-! ## Panics -/

/-- The panics that the code raises itself, and those of a TLB without pages, sets or layers. -/
def Panic (cfg : Config) (e : String) : Prop :=
  e = "page not found" ∨ e = "device not found" ∨ e = "No port found for device" ∨
    e = "runtime error: integer divide by zero" ∨
    e = "failed to evict" ∧ cfg.numWays = 0

theorem raises_vAddrToSetID (vAddr : VAddr) : Raises (Panic cfg) (vAddrToSetID cfg vAddr) := by
  unfold vAddrToSetID
  split
  · exact error (.inr (.inr (.inr (.inl rfl))))
  · exact ok _

theorem raises_findPort (deviceID : UInt64) : Raises (Panic cfg) (findPort cfg deviceID) := by
  unfold findPort
  split
  · exact ok _
  · exact error (.inr (.inr (.inl rfl)))

theorem raises_getNextLayerGPUID (vAddr : VAddr) (totalID : Nat) : Raises (Panic cfg) (getNextLayerGPUID vAddr totalID) := by
  unfold getNextLayerGPUID
  split
  · exact error (.inr (.inr (.inr (.inl rfl))))
  · exact ok _

theorem raises_nextLayer (vAddr : VAddr) : Raises (Panic cfg) (nextLayer cfg vAddr) := by
  unfold nextLayer
  split
  · exact Raises.bind (raises_getNextLayerGPUID _ _) fun _ _ => raises_findPort _
  · split
    · exact Raises.bind (raises_getNextLayerGPUID _ _) fun _ _ => raises_findPort _
    · split
      · exact ok _
      · exact error (.inr (.inl rfl))

theorem raises_sendToNextLayer (t : GMMUTLB cfg) (r : MshrRequest) : Raises (Panic cfg) (sendToNextLayer t r) := by
  refine Raises.bind (raises_nextLayer _) fun dst _ => ?_
  dsimp only
  split <;> exact ok _

theorem raises_fetchBottom (hside : r.remoteFlag = !r.localFlag) (habsent : t.mshr.query r.request.pid r.request.vAddr = none)
    (hfull : t.mshr.isFull = false) : Raises (Panic cfg) (fetchBottom t r) := by
  have hadd : ∀ fetch, t.mshr.add (missEntry r fetch) = .ok ⟨t.mshr.entries ++ [missEntry r fetch]⟩ :=
    fun fetch => Mshr.add_ok habsent hfull
  unfold fetchBottom
  cases t.pageTable.find r.request.pid r.request.vAddr with
  | none => exact error (.inl rfl)
  | some page =>
    by_cases hdevice : page.deviceID ≠ cfg.deviceID
    · simp only [if_pos hdevice]
      have hraises := raises_sendToNextLayer t r
      cases hsend : sendToNextLayer t r with
      | error e => exact error (hraises e hsend)
      | ok x =>
        rcases sendToNextLayer_cases t hside x hsend with ⟨conn, rfl⟩ | ⟨dst, conn, -, rfl⟩
        · exact ok _
        · dsimp only
          split
          · rw [(passed_mshr t r dst conn).1, hadd]
            exact ok _
          · exact ok _
    · simp only [if_neg hdevice]
      rcases t.bottomPort.send_eq (reqToBottom cfg t.nextID r.request) with ⟨hsent, conn, hport⟩ | ⟨hsent, conn, hport⟩
      · simp only [hsent, hport, if_bnot_true, hadd]
        exact ok _
      · simp only [hsent, hport, if_bnot_false]
        exact ok _

theorem raises_handleTranslationMiss (hside : r.remoteFlag = !r.localFlag)
    (habsent : t.mshr.query r.request.pid r.request.vAddr = none) : Raises (Panic cfg) (handleTranslationMiss t r) := by
  unfold handleTranslationMiss
  by_cases hfull : t.mshr.isFull = true
  · rw [if_pos hfull]
    exact ok _
  · rw [if_neg hfull]
    exact raises_fetchBottom hside habsent (by simpa using hfull)

theorem raises_processTranslation (hsets : ∀ i, Sound cfg.numWays (fun _ => True) (t.sets i)) (req : TranslationReq)
    {localFlag remoteFlag : Bool} (hside : remoteFlag = !localFlag) :
    Raises (Panic cfg) (processTranslation t req localFlag remoteFlag) := by
  unfold processTranslation
  cases he : t.mshr.query req.pid req.vAddr with
  | some => exact ok _
  | none =>
    have hmiss : Raises (Panic cfg) (handleTranslationMiss t { request := req, localFlag, remoteFlag }) :=
      raises_handleTranslationMiss hside he
    refine Raises.bind (raises_vAddrToSetID _) fun setID hset => ?_
    obtain ⟨found, hlook, hpage⟩ := (hsets setID).lookup req.pid req.vAddr
    refine Raises.bind (of_ok hlook) fun found' hfound => ?_
    rw [hlook, Except.ok.injEq] at hfound
    subst hfound
    cases found with
    | none => exact hmiss
    | some x =>
      obtain ⟨wayID, page⟩ := x
      obtain ⟨_, hvisit, -⟩ := (hsets setID).visit (hpage wayID page rfl).1
      dsimp only
      split
      · unfold handleTranslationHit
        rcases sendRsp_cases t (r := { request := req, localFlag, remoteFlag }) hside (rspToTop req page)
          (rspToOutsideHit req page) with
          ⟨conn, hsend⟩ | ⟨top, outside, hsend⟩
        · simp only [hsend, if_bnot_true, answered_sets]
          exact Raises.bind (of_ok hvisit) fun _ _ => ok _
        · simp only [hsend, if_bnot_false]
          exact ok _
      · exact hmiss

theorem raises_replace {set : SetImpl} (hset : Sound cfg.numWays (fun _ => True) set) (page : Page) :
    Raises (Panic cfg) (replace set page) := by
  rcases Nat.eq_zero_or_pos cfg.numWays with hzero | hpos
  · have hnil : set.visitList = [] := perm_nil.mp (by simpa [hzero] using hset.visitList)
    rw [replace, SetImpl.evict, hnil]
    exact error (.inr (.inr (.inr (.inr ⟨rfl, hzero⟩))))
  · obtain ⟨w, set', hfill, -⟩ : ∃ w set', set.fill page = .ok (w, set') ∧ Sound cfg.numWays (fun _ => True) set' :=
      hset.fill hpos fun _ => trivial
    unfold SetImpl.fill at hfill
    unfold replace
    cases hevict : set.evict with
    | none =>
      rw [hevict] at hfill
      cases hfill
    | some =>
      rw [hevict] at hfill
      obtain ⟨_, hupdate, hrest⟩ := eq_ok_of_bind hfill
      obtain ⟨_, hvisit, -⟩ := eq_ok_of_bind hrest
      refine Raises.bind (of_ok hupdate) fun s₁' hs₁' => ?_
      rw [hupdate, Except.ok.injEq] at hs₁'
      subst hs₁'
      exact Raises.bind (of_ok hvisit) fun _ _ => ok _

theorem raises_install (hsets : ∀ i, Sound cfg.numWays (fun _ => True) (t.sets i)) (page : Page) (deletes : Page → Bool) :
    Raises (Panic cfg) (install t page deletes) :=
  Raises.bind (raises_vAddrToSetID _) fun setID _ => Raises.bind (raises_replace (hsets setID) _) fun _ _ => ok _

theorem raises_processRsp (hsets : ∀ i, Sound cfg.numWays (fun _ => True) (t.sets i)) (rsp : TranslationRsp) (bottom : Bool) :
    Raises (Panic cfg) (processRsp t rsp bottom) := by
  unfold processRsp
  cases he : t.mshr.query rsp.page.pid rsp.page.vAddr with
  | none => exact ok _
  | some =>
    refine Raises.bind (raises_install hsets _ _) fun t₁ hinstall => ?_
    have hremove : t₁.mshr.remove rsp.page.pid rsp.page.vAddr =
        .ok ⟨t.mshr.entries.eraseP (MshrEntry.isFor rsp.page.pid rsp.page.vAddr)⟩ := by
      rw [install_mshr hinstall]
      exact Mshr.remove_of_query he
    exact Raises.bind (of_ok hremove) fun _ _ => ok _

/-- **No entry is empty or missing when it is read.** A call panics only as the code means it to, or for want of pages, sets
or layers. -/
theorem Kept.raises (h : Kept t) (k : Call) : Raises (Panic cfg) (k.exec t) := by
  cases k with
  | ctrl =>
    have hpeek : t.controlPort.peek = none := by
      rw [Port.peek, Buffer.peek, h.control]
      rfl
    rw [Call.exec, performCtrlReq, hpeek]
    exact ok _
  | respond =>
    rw [Call.exec, exec_running h.running]
    unfold respondMSHREntry
    cases hresp : t.respondingMSHREntry with
    | nil => exact ok _
    | cons e =>
      obtain ⟨hwell, -⟩ := h.responding e (by rw [hresp]; exact mem_cons_self)
      obtain ⟨r, requests, hreqs⟩ := exists_cons_of_ne_nil hwell.nonempty
      dsimp only
      rw [hreqs]
      dsimp only
      split <;> exact ok _
  | top =>
    rw [Call.exec, exec_running h.running]
    unfold lookupFromTopPort
    split
    · exact ok _
    · exact raises_processTranslation h.sets _ rfl
  | outside =>
    rw [Call.exec, exec_running h.running]
    unfold lookupFromOutsidePort
    split
    · exact ok _
    · split
      · exact raises_processTranslation h.sets _ rfl
      · rename_i req _ _
        have hraises := raises_sendToNextLayer t { request := req, localFlag := false, remoteFlag := true }
        split
        next e hsend => exact error (hraises e hsend)
        next => exact ok _
        next => exact ok _
    · exact raises_processRsp h.sets _ _
    · exact Raises.bind (raises_install h.sets _ _) fun _ _ => ok _
  | bottom =>
    rw [Call.exec, exec_running h.running]
    unfold parseBottom
    split
    · exact ok _
    · split
      · exact ok _
      · exact raises_processRsp h.sets _ _

/-! ## What is under way -/

/-- What a request asks for. -/
def reqKey (req : TranslationReq) : PID × VAddr := (req.pid, req.vAddr)

/-- What a response brings. -/
def rspKey (rsp : TranslationRsp) : PID × VAddr := (rsp.page.pid, rsp.page.vAddr)

/-- What the TLB asks the next layer for. A request passed on for another asks nothing for the TLB. -/
def askedBy (cfg : Config) : OutsideOut → Option (PID × VAddr)
  | .req req => if req.src = cfg.outsidePort then some (reqKey req) else none
  | .rsp _ => none

/-- What a response at the outside port brings. -/
def broughtBy : OutsideMsg → Option (PID × VAddr)
  | .rsp rsp => some (rspKey rsp)
  | _ => none

/-- The pages of the requests that have not been answered. -/
def asked (t : GMMUTLB cfg) : List (PID × VAddr) :=
  t.bottomPort.outgoing.map reqKey ++ t.outsidePort.outgoing.filterMap (askedBy cfg)

/-- The pages of the responses that have arrived. -/
def brought (t : GMMUTLB cfg) : List (PID × VAddr) :=
  t.bottomPort.buf.elements.map rspKey ++ t.outsidePort.buf.elements.filterMap broughtBy

variable {key : PID × VAddr}

theorem mem_asked : key ∈ asked t ↔ (∃ req ∈ t.bottomPort.outgoing, reqKey req = key) ∨
    ∃ msg ∈ t.outsidePort.outgoing, askedBy cfg msg = some key := by
  simp [asked]

theorem mem_brought : key ∈ brought t ↔ (∃ rsp ∈ t.bottomPort.buf.elements, rspKey rsp = key) ∨
    ∃ msg ∈ t.outsidePort.buf.elements, broughtBy msg = some key := by
  simp [brought]

theorem asked_mono (hbottom : ∃ l, t'.bottomPort.outgoing = t.bottomPort.outgoing ++ l)
    (houtside : ∃ l, t'.outsidePort.outgoing = t.outsidePort.outgoing ++ l) (hkey : key ∈ asked t) : key ∈ asked t' := by
  obtain ⟨_, hbottom⟩ := hbottom
  obtain ⟨_, houtside⟩ := houtside
  rw [mem_asked, hbottom, houtside]
  rcases mem_asked.mp hkey with ⟨req, hreq, hkey⟩ | ⟨msg, hmsg, hkey⟩
  · exact .inl ⟨req, mem_append_left _ hreq, hkey⟩
  · exact .inr ⟨msg, mem_append_left _ hmsg, hkey⟩

theorem retrieveReq_outgoing (t : GMMUTLB cfg) (r : MshrRequest) :
    (t.retrieveReq r).bottomPort = t.bottomPort ∧ (t.retrieveReq r).outsidePort.outgoing = t.outsidePort.outgoing := by
  unfold GMMUTLB.retrieveReq
  split
  · exact ⟨rfl, rfl⟩
  · split <;> exact ⟨rfl, rfl⟩

theorem retrieveRsp_outgoing (t : GMMUTLB cfg) (bottom : Bool) :
    (retrieveRsp t bottom).bottomPort.outgoing = t.bottomPort.outgoing ∧
      (retrieveRsp t bottom).outsidePort.outgoing = t.outsidePort.outgoing := by
  cases bottom <;> exact ⟨rfl, rfl⟩

theorem Step.outgoing (hs : Step t k t') : (∃ l, t'.bottomPort.outgoing = t.bottomPort.outgoing ++ l) ∧
    ∃ l, t'.outsidePort.outgoing = t.outsidePort.outgoing ++ l := by
  have hanswered : ∀ r toTop toOutside conn, (answered t r toTop toOutside conn).bottomPort = t.bottomPort ∧
      ∃ l, (answered t r toTop toOutside conn).outsidePort.outgoing = t.outsidePort.outgoing ++ l := by
    intro r toTop toOutside conn
    unfold answered
    split
    · exact ⟨rfl, [], (append_nil _).symm⟩
    · exact ⟨rfl, _, rfl⟩
  have hsame : ∀ {α : Type} (l : List α), ∃ l', l = l ++ l' := fun l => ⟨[], (append_nil l).symm⟩
  cases hs with
  | idle => exact ⟨hsame _, hsame _⟩
  | respond e _ r _ conn =>
    obtain ⟨hbottom, houtside⟩ := hanswered r (rspToTop r.request e.page) (rspToOutside r.request e.page) conn
    refine ⟨?_, houtside⟩
    show ∃ l, (answered t r _ _ conn).bottomPort.outgoing = _
    rw [hbottom]
    exact hsame _
  | hit _ r _ _ page _ conn =>
    obtain ⟨hbottom, houtside⟩ := hanswered r (rspToTop r.request page) (rspToOutsideHit r.request page) conn
    obtain ⟨hbottom', houtside'⟩ :=
      retrieveReq_outgoing (answered t r (rspToTop r.request page) (rspToOutsideHit r.request page) conn) r
    refine ⟨?_, ?_⟩
    · show ∃ l, (GMMUTLB.retrieveReq _ r).bottomPort.outgoing = _
      rw [hbottom', hbottom]
      exact hsame _
    · show ∃ l, (GMMUTLB.retrieveReq _ r).outsidePort.outgoing = _
      rw [houtside']
      exact houtside
  | join _ r =>
    obtain ⟨hbottom, houtside⟩ := retrieveReq_outgoing { t with mshr := t.mshr.join r } r
    rw [hbottom, houtside]
    exact ⟨hsame _, hsame _⟩
  | fetch _ _ _ hhead =>
    cases hhead with
    | top | outside => exact ⟨⟨_, rfl⟩, hsame _⟩
  | fetchRemote | pass => exact ⟨hsame _, _, rfl⟩
  | drop _ _ bottom =>
    obtain ⟨hbottom, houtside⟩ := retrieveRsp_outgoing t bottom
    rw [hbottom, houtside]
    exact ⟨hsame _, hsame _⟩
  | fill _ _ bottom _ _ _ _ hinstall =>
    obtain ⟨_, _, _, -, -, rfl⟩ := install_eq hinstall
    cases bottom <;> exact ⟨hsame _, hsame _⟩
  | load _ _ _ hinstall =>
    obtain ⟨_, _, _, -, -, rfl⟩ := install_eq hinstall
    exact ⟨hsame _, hsame _⟩

theorem brought_pop {msg : OutsideMsg} (hmsg : t.outsidePort.peek = some msg) (hnone : broughtBy msg = none)
    (hbottom : t'.bottomPort.buf = t.bottomPort.buf) (houtside : t'.outsidePort.buf = t.outsidePort.buf.pop) :
    brought t' = brought t := by
  unfold brought
  rw [hbottom, houtside, Buffer.peek_eq_some hmsg, filterMap_cons_none hnone]

theorem brought_congr (hbottom : t'.bottomPort.buf = t.bottomPort.buf) (houtside : t'.outsidePort.buf = t.outsidePort.buf) :
    brought t' = brought t := by
  rw [brought, brought, hbottom, houtside]

theorem brought_of_rsp {rsp : TranslationRsp} {bottom : Bool} (hhead : HeadsRsp t k rsp bottom)
    (hbottom : t'.bottomPort.buf = (retrieveRsp t bottom).bottomPort.buf)
    (houtside : t'.outsidePort.buf = (retrieveRsp t bottom).outsidePort.buf) (hkey : key ∈ brought t)
    (hne : key ≠ rspKey rsp) :
    key ∈ brought t' := by
  rw [brought_congr hbottom houtside]
  cases hhead with
  | outside rsp hrsp =>
    unfold brought at hkey
    rw [Buffer.peek_eq_some hrsp, filterMap_cons_some (rfl : broughtBy (.rsp rsp) = some (rspKey rsp))] at hkey
    rcases mem_append.mp hkey with hkey | hkey
    · exact mem_append_left _ hkey
    · exact mem_append_right _ ((mem_cons.mp hkey).resolve_left hne)
  | bottom _ hrsp =>
    unfold brought at hkey
    rw [Buffer.peek_eq_some hrsp, map_cons, cons_append] at hkey
    exact (mem_cons.mp hkey).resolve_left hne

/-- An entry of the state after a call is new and asked for, or was there and what has arrived for it is still there. -/
theorem Step.keys (hs : Step t k t') (hkeys : t.mshr.keys.Nodup) (key : PID × VAddr) (hkey : key ∈ t'.mshr.keys) :
    key ∈ asked t' ∨ key ∈ t.mshr.keys ∧ (key ∈ brought t → key ∈ brought t') := by
  have hsame : t'.mshr = t.mshr → brought t' = brought t → key ∈ t.mshr.keys ∧ (key ∈ brought t → key ∈ brought t') := by
    intro hmshr hbrought
    rw [hmshr] at hkey
    rw [hbrought]
    exact ⟨hkey, id⟩
  cases hs with
  | idle => exact .inr (hsame rfl rfl)
  | respond _ _ r _ conn =>
    refine .inr (hsame (answered_mshr t r _ _ conn).1 ?_)
    unfold answered
    split <;> rfl
  | hit _ r _ _ _ _ conn hhead =>
    refine .inr (hsame ((retrieveReq_mshr _ r).1.trans (answered_mshr t r _ _ conn).1) ?_)
    cases hhead with
    | top => rfl
    | outside _ hreq => exact brought_pop hreq rfl rfl rfl
  | join _ r _ hhead =>
    refine .inr ⟨?_, ?_⟩
    · rw [(retrieveReq_mshr _ r).1, Mshr.keys_join] at hkey
      exact hkey
    · cases hhead with
      | top => exact id
      | outside req hreq =>
        have hbrought : brought ({ t with
            mshr := t.mshr.join { request := req, localFlag := false, remoteFlag := true } }.retrieveReq
            { request := req, localFlag := false, remoteFlag := true }) = brought t := brought_pop hreq rfl rfl rfl
        rw [hbrought]
        exact id
  | fetch _ r conn hhead =>
    rw [(fetched_mshr t r conn).1, Mshr.keys_add] at hkey
    rcases mem_append.mp hkey with hkey | hkey
    · refine .inr ⟨hkey, ?_⟩
      cases hhead with
      | top => exact id
      | outside req hreq =>
        have hbrought : brought (fetched t { request := req, localFlag := false, remoteFlag := true } conn) = brought t :=
          brought_pop hreq rfl rfl rfl
        rw [hbrought]
        exact id
    · refine .inl (mem_asked.mpr (.inl ⟨reqToBottom cfg t.nextID r.request, ?_, (mem_singleton.mp hkey).symm⟩))
      show _ ∈ (GMMUTLB.retrieveReq _ r).bottomPort.outgoing
      rw [(retrieveReq_outgoing _ r).1]
      exact mem_append_right _ (mem_singleton.mpr rfl)
  | fetchRemote =>
    rw [Mshr.keys_add] at hkey
    rcases mem_append.mp hkey with hkey | hkey
    · exact .inr ⟨hkey, id⟩
    · refine .inl (mem_asked.mpr (.inr ⟨_, mem_append_right _ (mem_singleton.mpr rfl), ?_⟩))
      rw [mem_singleton.mp hkey]
      exact if_pos rfl
  | pass _ dst conn hhead => exact .inr (hsame (passed_mshr t _ dst conn).1 (brought_pop hhead rfl rfl rfl))
  | drop _ _ bottom hhead habsent =>
    rw [(retrieveRsp_mshr t bottom).1] at hkey
    refine .inr ⟨hkey, fun hbrought => brought_of_rsp hhead rfl rfl hbrought ?_⟩
    rintro rfl
    exact Mshr.query_eq_none.mp habsent hkey
  | fill _ rsp bottom e _ hhead he hinstall =>
    obtain ⟨_, _, _, -, -, rfl⟩ := install_eq hinstall
    rw [(filled_mshr _ e rsp bottom).1] at hkey
    obtain ⟨hkey, hne⟩ := (Mshr.keys_remove hkeys he).2 key hkey
    refine .inr ⟨hkey, fun hbrought => brought_of_rsp hhead ?_ ?_ hbrought hne⟩
    · cases bottom <;> rfl
    · cases bottom <;> rfl
  | load _ _ hhead hinstall =>
    obtain ⟨_, _, _, -, -, rfl⟩ := install_eq hinstall
    exact .inr (hsame rfl (brought_pop hhead rfl rfl rfl))

theorem brought_bottom (hkey : key ∈ brought t) (rsp : TranslationRsp) :
    key ∈ brought { t with bottomPort := { t.bottomPort with buf := ⟨t.bottomPort.buf.elements ++ [rsp]⟩ } } := by
  rcases mem_brought.mp hkey with ⟨rsp', hrsp', hkey⟩ | houtside
  · exact mem_brought.mpr (.inl ⟨rsp', mem_append_left _ hrsp', hkey⟩)
  · exact mem_brought.mpr (.inr houtside)

theorem brought_outside (hkey : key ∈ brought t) (msg : OutsideMsg) :
    key ∈ brought { t with outsidePort := { t.outsidePort with buf := ⟨t.outsidePort.buf.elements ++ [msg]⟩ } } := by
  rcases mem_brought.mp hkey with hbottom | ⟨msg', hmsg', hkey⟩
  · exact mem_brought.mpr (.inl hbottom)
  · exact mem_brought.mpr (.inr ⟨msg', mem_append_left _ hmsg', hkey⟩)

/-- The control port is not used, and the top port holds requests for the addresses of pages: the ports and the page table may
be others. -/
theorem Kept.ports (h : Kept t) {topPort : Port 90000 TranslationReq TranslationRsp}
    (htop : ∀ req ∈ topPort.buf.elements, Aligned cfg req.vAddr) {controlPort : Port 1 ControlReq ControlRsp}
    (hcontrol : controlPort.buf.elements = []) (bottomPort : Port 90000 TranslationRsp TranslationReq)
    (outsidePort : Port 90000000 OutsideMsg OutsideOut) (pageTable : PageTable) :
    Kept { t with topPort, bottomPort, outsidePort, controlPort, pageTable } :=
  ⟨h.sets, h.entries, h.keys, h.responding, htop, h.aligned, hcontrol, h.running⟩

theorem Conserved.ports (h : Conserved t) (topPort : Port 90000 TranslationReq TranslationRsp)
    (bottomPort : Port 90000 TranslationRsp TranslationReq) (outsidePort : Port 90000000 OutsideMsg OutsideOut)
    (controlPort : Port 1 ControlReq ControlRsp) (pageTable : PageTable) :
    Conserved { t with topPort, bottomPort, outsidePort, controlPort, pageTable } :=
  ⟨h.top, h.outside, h.onward, h.balance⟩

end

/-! ## Runs -/

section
variable {s s' : System cfg}

/-- The pages of the requests and of the responses of the TLB that are under way. -/
def underWay (s : System cfg) : List (PID × VAddr) :=
  asked s.tlb ++ (s.answers ++ s.outsideAnswers).map rspKey ++ brought s.tlb

theorem mem_underWay {key : PID × VAddr} : key ∈ underWay s ↔
    key ∈ asked s.tlb ∨ (∃ rsp ∈ s.answers ++ s.outsideAnswers, rspKey rsp = key) ∨ key ∈ brought s.tlb := by
  rw [underWay, append_assoc, mem_append, mem_append, mem_map]

/-- Each entry has a request or a response for its page under way. -/
def Covered (s : System cfg) : Prop := ∀ key ∈ s.tlb.mshr.keys, key ∈ underWay s

theorem mem_or_mem_eraseIdx {α : Type} {l : List α} {k : Nat} {x y : α} (hk : l[k]? = some x) (hy : y ∈ l) :
    y = x ∨ y ∈ l.eraseIdx k := by
  rw [← mem_coe, coe_eraseIdx hk] at hy
  exact Multiset.mem_cons.mp hy

variable {page : Page}

theorem rspKey_rsp {req : TranslationReq} (haligned : Aligned cfg req.vAddr) (hpid : page.pid = req.pid)
    (haddr : page.vAddr = cfg.pageTable.alignToPage req.vAddr) : rspKey (System.rsp req page) = reqKey req := by
  rw [rspKey, reqKey]
  exact Prod.ext hpid (haddr.trans haligned)

theorem Kept.aligned_key (h : Kept s.tlb) {key : PID × VAddr} (hkey : key ∈ s.tlb.mshr.keys) : Aligned cfg key.2 := by
  obtain ⟨_, he, rfl⟩ := mem_map.mp hkey
  exact h.aligned_entry he

theorem Covered.answer (h : Covered s) (hkept : Kept s.tlb) {k : Nat} {req : TranslationReq}
    (hk : s.tlb.bottomPort.outgoing[k]? = some req) (hpid : page.pid = req.pid)
    (haddr : page.vAddr = cfg.pageTable.alignToPage req.vAddr) : Covered (s.answer k page) := by
  rw [System.answer, hk]
  intro key hkey
  have haligned := hkept.aligned_key hkey
  rw [mem_underWay]
  rcases mem_underWay.mp (h key hkey) with hasked | ⟨rsp, hrsp, hkey'⟩ | hbrought
  · rcases mem_asked.mp hasked with ⟨req', hreq', rfl⟩ | houtside
    · rcases mem_or_mem_eraseIdx hk hreq' with rfl | hreq'
      · -- the request answered
        exact .inr (.inl ⟨_, mem_append_left _ (mem_append_right _ (mem_singleton.mpr rfl)), rspKey_rsp haligned hpid haddr⟩)
      · exact .inl (mem_asked.mpr (.inl ⟨req', hreq', rfl⟩))
    · exact .inl (mem_asked.mpr (.inr houtside))
  · refine .inr (.inl ⟨rsp, ?_, hkey'⟩)
    rcases mem_append.mp hrsp with hrsp | hrsp
    · exact mem_append_left _ (mem_append_left _ hrsp)
    · exact mem_append_right _ hrsp
  · exact .inr (.inr hbrought)

theorem Covered.peer (h : Covered s) (hkept : Kept s.tlb) {k : Nat} {msg : OutsideOut}
    (hk : s.tlb.outsidePort.outgoing[k]? = some msg)
    (hanswer : ∀ req, msg = .req req → page.pid = req.pid ∧ page.vAddr = cfg.pageTable.alignToPage req.vAddr) :
    Covered (s.peer k page) := by
  rw [System.peer, hk]
  intro key hkey
  have haligned := hkept.aligned_key hkey
  -- what was answered before is still among the answers
  have hanswers : ∀ rsp ∈ s.outsideAnswers, rsp ∈ (match msg with
      | .req req => if req.src = cfg.outsidePort then s.outsideAnswers ++ [System.rsp req page] else s.outsideAnswers
      | .rsp _ => s.outsideAnswers) := by
    intro rsp hrsp
    cases msg with
    | rsp => exact hrsp
    | req =>
      dsimp only
      split
      · exact mem_append_left _ hrsp
      · exact hrsp
  rw [mem_underWay]
  rcases mem_underWay.mp (h key hkey) with hasked | ⟨rsp, hrsp, hkey'⟩ | hbrought
  · rcases mem_asked.mp hasked with hbottom | ⟨msg', hmsg', hkey'⟩
    · exact .inl (mem_asked.mpr (.inl hbottom))
    · rcases mem_or_mem_eraseIdx hk hmsg' with rfl | hmsg'
      · cases msg' with
        | rsp => cases hkey'
        | req req =>
          rw [askedBy] at hkey'
          split at hkey'
          next hsrc =>
            cases hkey'
            obtain ⟨hpid, haddr⟩ := hanswer req rfl
            refine .inr (.inl ⟨System.rsp req page, mem_append_right _ ?_, rspKey_rsp haligned hpid haddr⟩)
            dsimp only
            rw [if_pos hsrc]
            exact mem_append_right _ (mem_singleton.mpr rfl)
          next => cases hkey'
      · exact .inl (mem_asked.mpr (.inr ⟨msg', hmsg', hkey'⟩))
  · refine .inr (.inl ⟨rsp, ?_, hkey'⟩)
    rcases mem_append.mp hrsp with hrsp | hrsp
    · exact mem_append_left _ hrsp
    · exact mem_append_right _ (hanswers rsp hrsp)
  · exact .inr (.inr hbrought)

theorem Covered.deliver (h : Covered s) (k : Nat) : Covered (s.deliver k) := by
  unfold System.deliver
  split
  next rsp hk =>
    split
    next bottomPort hrecv =>
      rw [Port.recv_eq hrecv]
      intro key hkey
      rw [mem_underWay]
      rcases mem_underWay.mp (h key hkey) with hasked | ⟨rsp', hrsp', hkey'⟩ | hbrought
      · exact .inl hasked
      · rcases mem_append.mp hrsp' with hrsp' | hrsp'
        · rcases mem_or_mem_eraseIdx hk hrsp' with rfl | hrsp'
          · exact .inr (.inr (mem_brought.mpr (.inl ⟨rsp', mem_append_right _ (mem_singleton.mpr rfl), hkey'⟩)))
          · exact .inr (.inl ⟨rsp', mem_append_left _ hrsp', hkey'⟩)
        · exact .inr (.inl ⟨rsp', mem_append_right _ hrsp', hkey'⟩)
      · exact .inr (.inr (brought_bottom hbrought rsp))
    next => exact h
  next => exact h

theorem Covered.deliverOutside (h : Covered s) (k : Nat) : Covered (s.deliverOutside k) := by
  unfold System.deliverOutside
  split
  next rsp hk =>
    split
    next outsidePort hrecv =>
      rw [Port.recv_eq hrecv]
      intro key hkey
      rw [mem_underWay]
      rcases mem_underWay.mp (h key hkey) with hasked | ⟨rsp', hrsp', hkey'⟩ | hbrought
      · exact .inl hasked
      · rcases mem_append.mp hrsp' with hrsp' | hrsp'
        · exact .inr (.inl ⟨rsp', mem_append_left _ hrsp', hkey'⟩)
        · rcases mem_or_mem_eraseIdx hk hrsp' with rfl | hrsp'
          · refine .inr (.inr (mem_brought.mpr (.inr ⟨.rsp rsp', mem_append_right _ (mem_singleton.mpr rfl), ?_⟩)))
            rw [← hkey']
            rfl
          · exact .inr (.inl ⟨rsp', mem_append_right _ hrsp', hkey'⟩)
      · exact .inr (.inr (brought_outside hbrought (.rsp rsp)))
    next => exact h
  next => exact h

theorem Covered.call (h : Covered s) (hkeys : s.tlb.mshr.keys.Nodup) {k : Call} {t : GMMUTLB cfg} (hs : Step s.tlb k t) :
    Covered { s with tlb := t } := by
  intro key hkey
  rw [mem_underWay]
  rcases hs.keys hkeys key hkey with hasked | ⟨hkey, hstays⟩
  · exact .inl hasked
  · rcases mem_underWay.mp (h key hkey) with hasked | hanswer | hbrought
    · exact .inl (asked_mono hs.outgoing.1 hs.outgoing.2 hasked)
    · exact .inr (.inl hanswer)
    · exact .inr (.inr (hstays hbrought))

/-- Local requests for the addresses of pages, any remote requests and loaded pages, and no control requests. The lower level
and the next layers answer a request with its page. -/
def Rules.plain (cfg : Config) : Rules cfg where
  request req := Aligned cfg req.vAddr
  outside msg := ∀ rsp, msg ≠ .rsp rsp
  control _ := False
  answer req page := page.pid = req.pid ∧ page.vAddr = cfg.pageTable.alignToPage req.vAddr
  call _ _ := True

/-- And every call is wary. -/
def Rules.wary (cfg : Config) : Rules cfg := { Rules.plain cfg with call := Wary }

theorem conserved_kept_covered {ks : List Call} (h : Reaches (Rules.wary cfg) s ks) :
    Conserved s.tlb ∧ Kept s.tlb ∧ Covered s := by
  induction h with
  | init _ hbuild =>
    obtain ⟨_, hnew, hsound⟩ := new_sound cfg.numWays fun _ => True
    simp only [build, newSets, hnew, bind, Except.bind, pure, Except.pure, Except.ok.injEq] at hbuild
    subst hbuild
    refine ⟨⟨.nil, .nil, .nil, rfl⟩, ⟨fun _ => hsound, fun e he => absurd he not_mem_nil, nodup_nil,
      fun e he => absurd he not_mem_nil, fun req hreq => absurd hreq not_mem_nil,
      fun r hr => absurd hr (Multiset.notMem_zero r), rfl, rfl⟩, fun key hkey => absurd hkey not_mem_nil⟩
  | @request s req h hreq ih =>
    obtain ⟨hconserved, hkept, hcovered⟩ := ih
    unfold System.request
    split
    next topPort hrecv =>
      rw [Port.recv_eq hrecv]
      refine ⟨hconserved.ports _ _ _ _ _, hkept.ports (fun req' hreq' => ?_) hkept.control _ _ _, hcovered⟩
      rcases mem_append.mp hreq' with hreq' | hreq'
      · exact hkept.arriving req' hreq'
      · rw [mem_singleton.mp hreq']
        exact hreq
    next => exact ⟨hconserved, hkept, hcovered⟩
  | @outside s msg h hmsg ih =>
    obtain ⟨hconserved, hkept, hcovered⟩ := ih
    unfold System.outside
    split
    next outsidePort hrecv =>
      rw [Port.recv_eq hrecv]
      refine ⟨hconserved.ports _ _ _ _ _, hkept.ports hkept.arriving hkept.control _ _ _, fun key hkey => ?_⟩
      rw [mem_underWay]
      rcases mem_underWay.mp (hcovered key hkey) with hasked | hanswer | hbrought
      · exact .inl hasked
      · exact .inr (.inl hanswer)
      · exact .inr (.inr (brought_outside hbrought msg))
    next => exact ⟨hconserved, hkept, hcovered⟩
  | control _ _ hreq => exact hreq.elim
  | connect _ _ _ control _ ih =>
    obtain ⟨hconserved, hkept, hcovered⟩ := ih
    refine ⟨hconserved.ports _ _ _ _ _, hkept.ports ?_ ?_ _ _ _, hcovered⟩
    · exact hkept.arriving
    · exact hkept.control
  | setPageTable _ _ _ ih =>
    obtain ⟨hconserved, hkept, hcovered⟩ := ih
    exact ⟨hconserved.ports _ _ _ _ _, hkept.ports hkept.arriving hkept.control _ _ _, hcovered⟩
  | @answer s k page h hk ih =>
    obtain ⟨hconserved, hkept, hcovered⟩ := ih
    cases hreq : s.tlb.bottomPort.outgoing[k]? with
    | none =>
      rw [System.answer, hreq]
      exact ⟨hconserved, hkept, hcovered⟩
    | some req =>
      have hcovered' := hcovered.answer hkept hreq (hk req hreq).1 (hk req hreq).2
      rw [System.answer, hreq] at hcovered' ⊢
      exact ⟨hconserved.ports _ _ _ _ _, hkept.ports hkept.arriving hkept.control _ _ _, hcovered'⟩
  | @peer s k page h hk ih =>
    obtain ⟨hconserved, hkept, hcovered⟩ := ih
    cases hmsg : s.tlb.outsidePort.outgoing[k]? with
    | none =>
      rw [System.peer, hmsg]
      exact ⟨hconserved, hkept, hcovered⟩
    | some =>
      have hcovered' := hcovered.peer hkept hmsg fun req hreq => hk req (by rw [hmsg, hreq])
      rw [System.peer, hmsg] at hcovered' ⊢
      exact ⟨hconserved.ports _ _ _ _ _, hkept.ports hkept.arriving hkept.control _ _ _, hcovered'⟩
  | @deliver s k h ih =>
    obtain ⟨hconserved, hkept, hcovered⟩ := ih
    have hcovered' := hcovered.deliver k
    unfold System.deliver at hcovered' ⊢
    split
    · split
      · simp only [*] at hcovered'
        exact ⟨hconserved.ports _ _ _ _ _, hkept.ports hkept.arriving hkept.control _ _ _, hcovered'⟩
      · exact ⟨hconserved, hkept, hcovered⟩
    · exact ⟨hconserved, hkept, hcovered⟩
  | @deliverOutside s k h ih =>
    obtain ⟨hconserved, hkept, hcovered⟩ := ih
    have hcovered' := hcovered.deliverOutside k
    unfold System.deliverOutside at hcovered' ⊢
    split
    · split
      · simp only [*] at hcovered'
        exact ⟨hconserved.ports _ _ _ _ _, hkept.ports hkept.arriving hkept.control _ _ _, hcovered'⟩
      · exact ⟨hconserved, hkept, hcovered⟩
    · exact ⟨hconserved, hkept, hcovered⟩
  | tick _ ih => exact ih
  | @call s k ks p t h hk hexec ih =>
    obtain ⟨hconserved, hkept, hcovered⟩ := ih
    have hsides : ∀ e ∈ s.tlb.respondingMSHREntry, ∀ r ∈ e.requests, r.remoteFlag = !r.localFlag :=
      fun e he => (hkept.responding e he).1.sides
    rcases Call.step hsides hexec with ⟨rfl, -⟩ | rfl | ⟨-, hs⟩
    · -- there is no control request
      have hpeek : s.tlb.controlPort.peek = none := by
        rw [Port.peek, Buffer.peek, hkept.control]
        rfl
      rw [Call.exec, performCtrlReq, hpeek] at hexec
      cases hexec
      exact ⟨hconserved, hkept, hcovered⟩
    · exact ⟨hconserved, hkept, hcovered⟩
    · exact ⟨hconserved.step hkept hk hs, hkept.step hk hs, hcovered.call hkept.keys hs⟩

/-- Nothing is under way for the TLB, and no entry responds. -/
structure Quiescent (s : System cfg) : Prop where
  underWay : underWay s = []
  responding : s.tlb.respondingMSHREntry = []

/-- `conserved` : each request received is answered once with its page, or passed on once, or waits in an entry; `entries`,
`responding` and `panics` : an entry has a request that waits and one that was sent for it, and no entry or page that is read
is missing; `settled` : when nothing is under way there is no entry, and every request received has been answered, or passed
on if it is remote. -/
structure Conserves (s : System cfg) : Prop where
  conserved : Conserved s.tlb
  entries : ∀ e ∈ s.tlb.mshr.entries, e.requests ≠ [] ∧ e.reqToBottom.isSome = true
  responding : ∀ e ∈ s.tlb.respondingMSHREntry, e.requests ≠ []
  panics : ∀ k : Call, Raises (Panic cfg) (k.exec s.tlb)
  settled : Quiescent s → s.tlb.mshr.entries = [] ∧ (↑(receivedOf s.tlb.log) : Multiset MshrRequest) =
    ↑(completedOf s.tlb.log) + ↑((sentOnOf s.tlb.log).filter (·.remoteFlag))

/-- **Every request is answered or passed on once** in every run of wary calls without control requests. -/
theorem answers_of_reaches {ks : List Call} (h : Reaches (Rules.wary cfg) s ks) : Conserves s := by
  obtain ⟨hconserved, hkept, hcovered⟩ := conserved_kept_covered h
  refine ⟨hconserved, fun e he => ⟨(hkept.entries e he).1.nonempty, (hkept.entries e he).2⟩,
    fun e he => (hkept.responding e he).1.nonempty, hkept.raises, fun hquiet => ?_⟩
  have hkeys : s.tlb.mshr.keys = [] := by
    refine eq_nil_iff_forall_not_mem.mpr fun key hkey => ?_
    have hunder := hcovered key hkey
    rw [hquiet.underWay] at hunder
    exact not_mem_nil hunder
  have hentries : s.tlb.mshr.entries = [] := map_eq_nil_iff.mp hkeys
  have hwaiting : waiting s.tlb = 0 := by
    rw [waiting, Mshr.waiting, hentries, hquiet.responding]
    rfl
  exact ⟨hentries, by rw [hconserved.balance, hwaiting, add_zero]⟩

/-- A request that arrives was sent by its origin, and is for the address of a page. -/
def OutsideMsg.Direct (cfg : Config) : OutsideMsg → Prop
  | .req r => r.src = r.originPort ∧ cfg.pageTable.alignToPage r.vAddr = r.vAddr
  | _ => True

instance : (msg : OutsideMsg) → Decidable (msg.Direct cfg)
  | .req r => inferInstanceAs (Decidable (r.src = r.originPort ∧ cfg.pageTable.alignToPage r.vAddr = r.vAddr))
  | .rsp _ | .pageLoad _ => inferInstanceAs (Decidable True)

def Direct (t : GMMUTLB cfg) (_ : Call) : Prop := ∀ msg ∈ t.outsidePort.peek, msg.Direct cfg

instance (t : GMMUTLB cfg) (k : Call) : Decidable (Direct t k) :=
  inferInstanceAs (Decidable (∀ msg ∈ t.outsidePort.peek, msg.Direct cfg))

theorem Direct.wary {t : GMMUTLB cfg} {k : Call} (h : Direct t k) : Wary t k :=
  fun _ req hreq _ _ => ⟨fun _ => (h (.req req) hreq).1, fun _ _ => (h (.req req) hreq).2⟩

/-- A page is loaded and a remote request for it arrives; a local request for another page is fetched. -/
def hitAndMiss : List Input :=
  [.connect [true] [true] [true] [], .outside (.pageLoad (pageAt 4096)), .tick,
    .outside (.req { reqFor 8 4096 with originPort := 9 }), .request (reqFor 7 8192), .tick]

theorem answers_of_reaches_hitAndMiss : ∃ t, build tiny (fun _ _ => 0) = .ok t ∧ ∃ s,
    [.deliver 0, .tick, .tick].foldl (System.replay Direct)
    ((hitAndMiss.foldl (System.replay Direct) { tlb := t }).answer 0 (pageAt 8192)) = s ∧
      completedOf s.tlb.log = [{ request := { reqFor 8 4096 with originPort := 9 }, localFlag := false, remoteFlag := true },
        { request := reqFor 7 8192, localFlag := true, remoteFlag := false }] ∧ Conserves s := by
  have hwary : ∀ t k, Direct t k → (Rules.wary tiny).call t k := fun _ _ => Direct.wary
  have haligned : Aligned tiny 8192 := by
    rw [Aligned]
    decide
  refine ⟨_, rfl, _, rfl, by decide +kernel,
    answers_of_reaches (.replay hwary (.answer 0 _ (.replay hwary (.init (fun _ _ => 0) rfl) ?_) ?_) ?_)⟩
  · simp [hitAndMiss, Rules.Allows, Rules.wary, Rules.plain, reqFor, haligned]
  · intro req hreq
    rw [← Option.some.inj ((by decide +kernel : _ = some (reqToBottom tiny 0 (reqFor 7 8192))).symm.trans hreq)]
    exact ⟨rfl, by decide⟩
  · simp [Rules.Allows]

/-- A remote request of process 1 for an address inside the page at 4096. -/
def reqInside : TranslationReq := { id := 8, src := 9, vAddr := 4104, pid := 1, originPort := 9 }

/-- The page at 4096 is loaded, and then a request for an address inside it is fetched. The response brings the page and finds
no entry. -/
theorem never_answered : ∃ s, Reaches (Rules.plain tiny) s [] ∧ Quiescent s ∧
    receivedOf s.tlb.log = [{ request := reqInside, localFlag := false, remoteFlag := true }] ∧ completedOf s.tlb.log = [] ∧
    sentOnOf s.tlb.log = [] ∧ ¬ Conserves s := by
  have hsent : Reaches (Rules.plain tiny) _ [] :=
    .replay (G := fun _ _ => True) (fun _ _ _ => trivial) (.init (fun _ _ => 0) rfl)
    (by simp [Rules.Allows, Rules.plain] : ∀ i ∈ [.connect [] [true] [] [], .outside (.pageLoad (pageAt 4096)), .tick,
      .outside (.req reqInside), .tick], (Rules.plain tiny).Allows i)
  have hanswered := Reaches.answer 0 (pageAt 4096) hsent fun req hreq => by
    rw [← Option.some.inj ((rfl : _ = some (reqToBottom tiny 0 reqInside)).symm.trans hreq)]
    exact ⟨rfl, by decide⟩
  have h₈ := hanswered.replay (G := fun _ _ => True) (fun _ _ _ => trivial)
    (by simp [Rules.Allows] : ∀ i ∈ [.deliver 0, .tick], (Rules.plain tiny).Allows i)
  refine ⟨_, h₈, ⟨rfl, rfl⟩, rfl, rfl, rfl, fun hconserves => ?_⟩
  obtain ⟨hentries, -⟩ := hconserves.settled ⟨rfl, rfl⟩
  cases hentries

end

end Akita.Vm.TlbGmmu
