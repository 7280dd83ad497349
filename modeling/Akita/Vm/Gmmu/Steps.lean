import Akita.Stages
import Akita.Vm.Gmmu.Gmmu

/-!
# Steps of the GMMUs

* `Step m k m'` : what a call can do, `Call.step`;
* `tick_eq_calls` : a tick is its calls in a row.
-/

namespace Akita.Vm.Gmmu
open Mem Sim Function
open Vm.Mmu (keep)
open Returns (bind error ok)
open Except (map)
open Prod (snd)

variable {cfg : Config}

/-- The GMMU after `req` was sent down for the walk `i`. -/
def forwarded (m : GMMU cfg) (i : Nat) (walking : Transaction) (conn : List Bool) : GMMU cfg :=
  { m with
    remoteMemReqs := update m.remoteMemReqs walking.req.vAddr (some walking)
    bottomPort := { m.bottomPort with outgoing := m.bottomPort.outgoing ++ [reqToBottom cfg m.nextID walking.req], conn }
    nextID := m.nextID + 1
    toRemoveFromPTW := m.toRemoveFromPTW ++ [i]
    log := m.log ++ [Event.forward walking.req] }

/-- The GMMU after the bottom port refused the request. -/
def refused (m : GMMU cfg) (walking : Transaction) (conn : List Bool) : GMMU cfg :=
  { m with
    remoteMemReqs := update m.remoteMemReqs walking.req.vAddr (some walking)
    bottomPort := { m.bottomPort with conn }
    nextID := m.nextID + 1 }

/-- The GMMU after a response was given to the top sender. -/
def answered (m : GMMU cfg) (req : TranslationReq) (rsp : TranslationRsp) : GMMU cfg :=
  { m with topSender := { buffer := ⟨m.topSender.buffer.elements ++ [rsp]⟩ }, log := m.log ++ [Event.answer req rsp] }

/-- The GMMU after it accepted the request at the head of the top port. -/
def received (m : GMMU cfg) (req : TranslationReq) : GMMU cfg :=
  { m with
    topPort := m.topPort.retrieve
    walkingTranslations := m.walkingTranslations ++ [{ req, cycleLeft := cfg.latency }]
    log := m.log ++ [Event.reqReceive req] }

/-- The response of a walk. -/
def rspOfWalk (cfg : Config) (walking : Transaction) : TranslationRsp :=
  { src := cfg.topPort, dst := walking.req.src, respondTo := walking.req.id, page := walking.page,
    taskID := walking.req.taskID, originPort := originPortOf cfg walking.req }

inductive Step (m : GMMU cfg) : Call → GMMU cfg → Prop
  | idle (k : Call) (hk : k ≠ .remove) (top bottom : List Bool) :
      Step m k { m with topPort := { m.topPort with conn := top }, bottomPort := { m.bottomPort with conn := bottom } }
  | sent (rsp : TranslationRsp) (conn : List Bool) (hrsp : m.topSender.buffer.peek = some rsp) :
      Step m .sender { m with
        topPort := { m.topPort with outgoing := m.topPort.outgoing ++ [rsp], conn }, topSender :=
          { buffer := m.topSender.buffer.pop } }
  | receive (req : TranslationReq) (hreq : m.topPort.peek = some req) : Step m .parse (received m req)
  | predict (req : TranslationReq) (conn : List Bool) (hreq : m.topPort.peek = some req)
      (hroom : m.walkingTranslations.length < cfg.maxRequestsInFlight) (hpredicts : predicts cfg = true)
      (hremote : (findPage m req).deviceID ≠ cfg.deviceID) :
      Step m .parse (removeWalked (forwarded (received m req) m.walkingTranslations.length { req, cycleLeft := cfg.latency }
        conn))
  | predictRefused (req : TranslationReq) (conn : List Bool) (hreq : m.topPort.peek = some req)
      (hroom : m.walkingTranslations.length < cfg.maxRequestsInFlight) (hpredicts : predicts cfg = true)
      (hremote : (findPage m req).deviceID ≠ cfg.deviceID) :
      Step m .parse (removeWalked (refused (received m req) { req, cycleLeft := cfg.latency } conn))
  | countdown (i : Nat) (walking : Transaction) (hwalking : m.walkingTranslations[i]? = some walking) :
      Step m (.walk i) { m with
        walkingTranslations := m.walkingTranslations.set i { walking with cycleLeft := walking.cycleLeft - 1 } }
  | stay (i : Nat) (walking : Transaction) (hwalking : m.walkingTranslations[i]? = some walking) :
      Step m (.walk i) { m with walkingTranslations := m.walkingTranslations.set i { walking with
        page := findPage m walking.req } }
  | hit (i : Nat) (walking : Transaction) (hwalking : m.walkingTranslations[i]? = some walking) :
      Step m (.walk i) (answered { m with
        walkingTranslations := m.walkingTranslations.set i { walking with page := findPage m walking.req }
        toRemoveFromPTW := m.toRemoveFromPTW ++ [i] } walking.req
          (rspOfWalk cfg { walking with page := findPage m walking.req }))
  | enqueue (i : Nat) (walking : Transaction) (pageTable : PageTable) (hwalking : m.walkingTranslations[i]? = some walking)
      (hready : walking.cycleLeft = 0) (hlocal : isLocal cfg (findPage m walking.req) = true)
      (hqueues : queues cfg { walking with page := findPage m walking.req } = true) :
      Step m (.walk i) { m with
        walkingTranslations := m.walkingTranslations.set i { walking with page := findPage m walking.req }
        toRemoveFromPTW := m.toRemoveFromPTW ++ [i]
        migrationQueue := m.migrationQueue ++ [{ walking with page := findPage m walking.req }]
        pageTable }
  | forward (i : Nat) (walking : Transaction) (conn : List Bool) (hwalking : m.walkingTranslations[i]? = some walking)
      (hready : walking.cycleLeft = 0) (hremote : isLocal cfg (findPage m walking.req) = false) :
      Step m (.walk i) (forwarded m i walking conn)
  | refuse (i : Nat) (walking : Transaction) (conn : List Bool) (hwalking : m.walkingTranslations[i]? = some walking)
      (hready : walking.cycleLeft = 0) (hremote : isLocal cfg (findPage m walking.req) = false) :
      Step m (.walk i) (refused m walking conn)
  | remove : Step m .remove (removeWalked m)
  | answer (rsp : Rsp) (tr : Transaction) (hrsp : m.bottomPort.peek = some rsp)
      (htr : m.remoteMemReqs rsp.page.vAddr = some tr) :
      Step m .fetch (answered { m with
        bottomPort := m.bottomPort.retrieve, remoteMemReqs := update m.remoteMemReqs rsp.page.vAddr none } tr.req
        (rspToTop cfg tr.req rsp))

theorem step_refl (m : GMMU cfg) {k : Call} (hk : k ≠ .remove) : Step m k m := .idle k hk m.topPort.conn m.bottomPort.conn

theorem answer_returns (m : GMMU cfg) (req : TranslationReq) (rsp : TranslationRsp) :
    Returns (fun m' => m' = answered m req rsp) (answer m req rsp) := by
  unfold answer BufferedSender.send Buffer.push
  split
  · exact error _
  · exact ok rfl

theorem processRemoteMemReq_cases (m : GMMU cfg) (i : Nat) (walking : Transaction) :
    (∃ conn, (processRemoteMemReq m i walking).2 = forwarded m i walking conn) ∨
      ∃ conn, (processRemoteMemReq m i walking).2 = refused m walking conn := by
  unfold processRemoteMemReq
  rcases m.bottomPort.send_eq (reqToBottom cfg m.nextID walking.req) with ⟨hsent, conn, hport⟩ | ⟨hsent, conn, hport⟩
  · left
    refine ⟨conn, ?_⟩
    simp only [hsent, hport, if_bnot_true]
    rfl
  · right
    refine ⟨conn, ?_⟩
    simp only [hsent, hport, if_bnot_false]
    rfl

/-! ## Every call does a step -/

theorem tickSender_step (m : GMMU cfg) : Returns (fun r => Step m .sender r.2) (tickSender m) := by
  unfold tickSender
  cases hrsp : m.topSender.buffer.peek with
  | none => exact ok (step_refl m Call.noConfusion)
  | some rsp =>
    rcases m.topPort.send_eq rsp with ⟨hsent, conn, hport⟩ | ⟨hsent, conn, hport⟩
    · simp only [hsent, hport, if_bnot_true]
      exact ok (.sent rsp conn hrsp)
    · simp only [hsent, hport, if_bnot_false]
      exact ok (.idle _ Call.noConfusion conn m.bottomPort.conn)

theorem sendReqToBottomPort_of_last {m : GMMU cfg} {walking : Transaction}
    (hlast : m.walkingTranslations[m.walkingTranslations.length - 1]? = some walking) :
    sendReqToBottomPort m = if (findPage m walking.req).deviceID = cfg.deviceID then .ok m
      else .ok (removeWalked (processRemoteMemReq m (m.walkingTranslations.length - 1) walking).2) := by
  simp only [sendReqToBottomPort, hlast]

theorem parseFromTop_step (m : GMMU cfg) : Returns (fun r => Step m .parse r.2) (parseFromTop m) := by
  unfold parseFromTop
  by_cases hfull : m.walkingTranslations.length ≥ cfg.maxRequestsInFlight
  · rw [if_pos hfull]
    exact ok (step_refl m Call.noConfusion)
  rw [if_neg hfull]
  cases hreq : m.topPort.peek with
  | none => exact ok (step_refl m Call.noConfusion)
  | some req =>
    refine bind (fun m' hm' => ok ?_)
    rw [startWalking] at hm'
    by_cases hpredicts : predicts cfg = true
    · have hlast : (received m req).walkingTranslations[(received m req).walkingTranslations.length - 1]? =
          some { req, cycleLeft := cfg.latency } := by
        simp [received]
      rw [if_pos hpredicts] at hm'
      change sendReqToBottomPort (received m req) = .ok m' at hm'
      rw [sendReqToBottomPort_of_last hlast] at hm'
      split at hm'
      next =>
        cases hm'
        exact .receive req hreq
      next hremote =>
        cases hm'
        have hlen : (received m req).walkingTranslations.length - 1 = m.walkingTranslations.length := by
          simp [received]
        change Step m .parse (removeWalked
          (processRemoteMemReq (received m req) ((received m req).walkingTranslations.length - 1)
          { req, cycleLeft := cfg.latency }).2)
        rw [hlen]
        rcases processRemoteMemReq_cases (received m req) m.walkingTranslations.length { req, cycleLeft := cfg.latency } with
          ⟨conn, heq⟩ | ⟨conn, heq⟩
        · rw [heq]
          exact .predict req conn hreq (by omega) hpredicts hremote
        · rw [heq]
          exact .predictRefused req conn hreq (by omega) hpredicts hremote
    · rw [if_neg hpredicts] at hm'
      cases hm'
      exact .receive req hreq

theorem walk_step (m : GMMU cfg) (i : Nat) : Returns (fun r => Step m (.walk i) r.2) (walk m i) := by
  unfold walk
  cases hwalking : m.walkingTranslations[i]? with
  | none => exact error _
  | some walking =>
    by_cases hleft : walking.cycleLeft > 0
    · simp only [if_pos hleft]
      exact ok (.countdown i walking hwalking)
    have hready : walking.cycleLeft = 0 := by omega
    simp only [if_neg hleft]
    cases hlocal : isLocal cfg (findPage m walking.req) with
    | true =>
      simp only [if_true, finalizePageWalk]
      cases hqueues : queues cfg { walking with page := findPage m walking.req } with
      | true =>
        simp only [if_true, addTransactionToMigrationQueue]
        split
        · exact ok (.stay i walking hwalking)
        · exact bind fun pageTable _ => ok (.enqueue i walking pageTable hwalking hready hlocal hqueues)
      | false =>
        simp only [Bool.false_eq_true, if_false, doPageWalkHit]
        refine bind fun ok _ => ?_
        cases ok with
        | false => exact ok (.stay i walking hwalking)
        | true =>
          refine bind fun m' hm' => ok ?_
          have heq := answer_returns _ _ _ m' hm'
          rw [heq]
          exact .hit i walking hwalking
    | false =>
      simp only [Bool.false_eq_true, if_false]
      apply ok
      rcases processRemoteMemReq_cases m i walking with ⟨conn, heq⟩ | ⟨conn, heq⟩
      · rw [heq]
        exact .forward i walking conn hwalking hready hlocal
      · rw [heq]
        exact .refuse i walking conn hwalking hready hlocal

theorem fetchFromBottom_step (m : GMMU cfg) : Returns (fun r => Step m .fetch r.2) (fetchFromBottom m) := by
  unfold fetchFromBottom
  refine bind fun ok _ => ?_
  cases ok with
  | false => exact ok (step_refl m Call.noConfusion)
  | true =>
    cases hrsp : m.bottomPort.peek with
    | none => exact ok (step_refl m Call.noConfusion)
    | some rsp =>
      simp only [handleTranslationRsp, if_bnot_true]
      cases htr : m.remoteMemReqs rsp.page.vAddr with
      | none => exact error _
      | some tr =>
        refine bind fun m' hm' => ok ?_
        have heq := answer_returns _ _ _ m' hm'
        rw [heq]
        exact .answer rsp tr hrsp htr

theorem Call.step {m m' : GMMU cfg} {k : Call} {p : Bool} (h : k.exec m = .ok (p, m')) : Step m k m' := by
  cases k with
  | sender => exact tickSender_step m _ h
  | parse => exact parseFromTop_step m _ h
  | walk i => exact walk_step m i _ h
  | remove =>
    cases h
    exact .remove
  | fetch => exact fetchFromBottom_step m _ h

/-! ## A tick is its calls -/

theorem walkAll_eq_calls (is : List Nat) (m : GMMU cfg) :
    (walkAll m is).map snd = calls (fun k m => Call.exec m k) (is.map .walk) m :=
  calls_loop (fun _ => rfl) (fun _ _ _ => rfl) is m

/-- A tick is its first two calls and then the walks, the removal and the response. -/
theorem tick_eq_calls (m : GMMU cfg) : (tick m).map snd =
    (calls (fun k m => Call.exec m k) [.sender, .parse] m >>= fun m => calls (fun k m => Call.exec m k) (walks m) m) := by
  rw [tick]
  show map snd (tickSender m >>= _) = ((tickSender m >>= _) >>= _)
  cases tickSender m with
  | error => rfl
  | ok r1 =>
    show map snd (parseFromTop r1.2 >>= _) = ((parseFromTop r1.2 >>= _) >>= _)
    cases parseFromTop r1.2 with
    | error => rfl
    | ok r2 =>
      show map snd (walkPageTable r2.2 >>= _) = calls _ (walks r2.2) r2.2
      rw [walks, calls_append, ← walkAll_eq_calls, walkPageTable]
      cases walkAll r2.2 (List.range r2.2.walkingTranslations.length) with
      | error => rfl
      | ok r3 =>
        show map snd (fetchFromBottom (removeWalked r3.2) >>= _) = fetchFromBottom (removeWalked r3.2) >>= _
        cases fetchFromBottom (removeWalked r3.2) <;> rfl

end Akita.Vm.Gmmu
