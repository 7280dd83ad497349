import Akita.WriteBack.Shape

/-!
# Messages under way

`Messages` : each request below the cache and each answer that has not been processed belongs to one fetch or one
eviction that waits for it. `Messages.step` : every step keeps it.
-/

namespace Akita.WriteBack
open Sim Pipelining Mem Mem.Cache
open List hiding getElem?_eq_some_iff

variable {cfg : Config}

/-- The message is a read request with ID `i`. -/
def BottomReq.isRead (i : MsgID) : BottomReq → Bool
  | read r => r.id == i
  | write _ => false

/-- The message is a write request with ID `i`. -/
def BottomReq.isWrite (i : MsgID) : BottomReq → Bool
  | read _ => false
  | write w => w.id == i

/-- The message brings the data for request `i`. -/
def isDataReady (i : MsgID) : AccessRsp Bytes → Bool
  | .dataReady r => r.respondTo == i
  | .writeDone _ => false

/-- The message says that write `i` is done. -/
def isWriteDone (i : MsgID) : AccessRsp Bytes → Bool
  | .dataReady _ => false
  | .writeDone r => r.respondTo == i

namespace Flow

/-- The messages under way that belong to read `i`. -/
def readMessages (a : Flow cfg) (i : MsgID) : Nat :=
  a.chan.countP (BottomReq.isRead i) + a.answers.countP fun m => isDataReady i m = true

/-- The messages under way that belong to write `i`. -/
def writeMessages (a : Flow cfg) (i : MsgID) : Nat :=
  a.chan.countP (BottomReq.isWrite i) + a.answers.countP fun m => isWriteDone i m = true

structure Messages (a : Flow cfg) : Prop where
  reads : ∀ i, a.readMessages i ≤ a.fetches.countP (awaitsRead i)
  writes : ∀ i, a.writeMessages i ≤ a.inflight.countP (awaitsWrite i)
  reads_le : ∀ i, a.fetches.countP (awaitsRead i) ≤ 1
  writes_le : ∀ i, a.inflight.countP (awaitsWrite i) ≤ 1
  reads_lt : ∀ i, a.nextID ≤ i → a.fetches.countP (awaitsRead i) = 0
  writes_lt : ∀ i, a.nextID ≤ i → a.inflight.countP (awaitsWrite i) = 0

theorem countP_eraseIdx {α : Type} (p : α → Bool) {l : List α} {k : Nat} {x : α} (h : l[k]? = some x) :
    ((l.eraseIdx k).countP p + if p x then 1 else 0) = l.countP p := by
  obtain ⟨hlt, rfl⟩ := List.getElem?_eq_some_iff.mp h
  rw [← (List.getElem_cons_eraseIdx_perm hlt).countP_eq, countP_cons]

theorem countP_eraseP {α : Type} (p q : α → Bool) {l : List α} {x : α} (h : l.find? q = some x) :
    ((l.eraseP q).countP p + if p x then 1 else 0) = l.countP p := by
  rw [(Multiset.coe_eq_coe.mp (coe_eraseP h)).countP_eq, countP_cons]

theorem any_id_iff {α : Type} {o : Option α} {id : α → MsgID} {i j : MsgID} (h : (o.any fun x => id x == i) = true) :
    (o.any fun x => id x == j) = true ↔ i = j := by
  simp only [Option.any_eq_true, beq_iff_eq] at h ⊢
  obtain ⟨x, rfl, rfl⟩ := h
  simp

/-- Each of the `messages` with an ID belongs to the one that waits for the ID; IDs from `n` on are not used. -/
structure Matched (n : Nat) (messages waiting : Nat → Nat) : Prop where
  le : ∀ i, messages i ≤ waiting i
  once : ∀ i, waiting i ≤ 1
  lt : ∀ i, n ≤ i → waiting i = 0

namespace Matched

variable {n n' : Nat} {messages messages' waiting waiting' : Nat → Nat}

theorem of_le (h : Matched n messages waiting) (hn : n ≤ n') (hm : ∀ i, messages' i ≤ messages i) :
    Matched n' messages' waiting :=
  ⟨fun i => (hm i).trans (h.le i), h.once, fun i hi => h.lt i (hn.trans hi)⟩

theorem send (h : Matched n messages waiting) (hm : ∀ i, messages' i = messages i + if n = i then 1 else 0)
    (hw : ∀ i, waiting' i = waiting i + if n = i then 1 else 0) : Matched (n + 1) messages' waiting' := by
  refine ⟨fun i => ?_, fun i => ?_, fun i hi => ?_⟩
  · rw [hm, hw]
    exact Nat.add_le_add_right (h.le i) _
  · rw [hw]
    have := h.once i
    have := h.lt i
    split <;> omega
  · have hi : n + 1 ≤ i := hi
    rw [hw, h.lt i (Nat.le_of_succ_le hi), if_neg (by omega)]

theorem take {j : Nat} (h : Matched n messages waiting) (hm : ∀ i, (messages' i + if j = i then 1 else 0) = messages i)
    (hw : ∀ i, (waiting' i + if j = i then 1 else 0) = waiting i) : Matched n messages' waiting' := by
  refine ⟨fun i => ?_, fun i => ?_, fun i hi => ?_⟩
  · have := h.le i
    have := hm i
    have := hw i
    omega
  · have := h.once i
    have := hw i
    omega
  · have := h.lt i hi
    have := hw i
    omega

end Matched

variable {a a' : Flow cfg} {l : Label}

theorem serve_messages (s : Slices) (m : Memory) (req : BottomReq) (i : MsgID) :
    isDataReady i (System.serve s m req).1 = req.isRead i ∧ isWriteDone i (System.serve s m req).1 = req.isWrite i := by
  cases req <;> exact ⟨rfl, rfl⟩

theorem messages_iff : a.Messages ↔ Matched a.nextID a.readMessages (fun i => a.fetches.countP (awaitsRead i)) ∧
    Matched a.nextID a.writeMessages fun i => a.inflight.countP (awaitsWrite i) :=
  ⟨fun h => ⟨⟨h.1, h.3, h.5⟩, h.2, h.4, h.6⟩, fun ⟨hr, hw⟩ => ⟨hr.le, hw.le, hr.once, hw.once, hr.lt, hw.lt⟩⟩

theorem Messages.of_less (h : a.Messages) (hfetches : a'.fetches = a.fetches) (hinflight : a'.inflight = a.inflight)
    (hid : a.nextID ≤ a'.nextID) (hreads : ∀ i, a'.readMessages i ≤ a.readMessages i)
    (hwrites : ∀ i, a'.writeMessages i ≤ a.writeMessages i) : a'.Messages := by
  obtain ⟨hr, hw⟩ := messages_iff.mp h
  rw [messages_iff, hfetches, hinflight]
  exact ⟨hr.of_le hid hreads, hw.of_le hid hwrites⟩

theorem Messages.step (h : a.Messages) (hs : Step a l a') : a'.Messages := by
  obtain ⟨hr, hw⟩ := messages_iff.mp h
  cases hs with
  | accept => exact h.of_less rfl rfl (Nat.le_succ _) (fun _ => le_rfl) fun _ => le_rfl
  | sendEviction _ _ _ req _ _ hreq =>
    have hid : req.id = a.nextID := by rw [hreq]
    refine messages_iff.mpr ⟨hr.of_le (Nat.le_succ _) fun i => ?_, hw.send (fun i => ?_) fun i => ?_⟩
    · simp [readMessages, countP_append, BottomReq.isRead]
    · simp only [writeMessages, countP_append, countP_cons, countP_nil, BottomReq.isWrite, hid, beq_iff_eq]
      omega
    · simp [countP_append, countP_cons, awaitsWrite, hid]
  | fetchBottom _ _ req _ _ _ hreq =>
    have hid : req.id = a.nextID := by rw [hreq]
    refine messages_iff.mpr ⟨hr.send (fun i => ?_) fun i => ?_, hw.of_le (Nat.le_succ _) fun i => ?_⟩
    · simp only [readMessages, countP_append, countP_cons, countP_nil, BottomReq.isRead, hid, beq_iff_eq]
      omega
    · simp [countP_append, countP_cons, awaitsRead, hid]
    · simp [writeMessages, countP_append, BottomReq.isWrite]
  | writeDone rsp _ hanswers hin =>
    obtain ⟨x, hx⟩ : ∃ x, a.inflight.reverse.find? (awaitsWrite rsp.respondTo) = some x := by
      rw [← Option.isSome_iff_exists, find?_isSome]
      obtain ⟨y, hy, hy'⟩ := any_eq_true.mp hin
      exact ⟨y, mem_reverse.mpr hy, hy'⟩
    refine messages_iff.mpr ⟨hr.of_le le_rfl fun i => ?_, hw.take (j := rsp.respondTo) (fun i => ?_) fun i => ?_⟩
    · have hno : ¬ isDataReady i (.writeDone rsp) = true := nofun
      simp only [readMessages, hanswers, Multiset.countP_cons, if_neg hno, Nat.add_zero, le_refl]
    · have hit : isWriteDone i (.writeDone rsp) = true ↔ rsp.respondTo = i := beq_iff_eq
      simp only [writeMessages, hanswers, Multiset.countP_cons, hit]
      omega
    · have hlist := countP_eraseP (awaitsWrite i) _ hx
      have hfound : awaitsWrite rsp.respondTo x = true := find?_some hx
      have hxi : awaitsWrite i x = true ↔ rsp.respondTo = i := any_id_iff hfound
      rw [countP_reverse] at hlist ⊢
      simp only [hxi] at hlist
      exact hlist
  | dataReady rsp _ t _ _ _ _ _ hanswers ht =>
    refine messages_iff.mpr ⟨hr.take (j := rsp.respondTo) (fun i => ?_) fun i => ?_, hw.of_le le_rfl fun i => ?_⟩
    · have hit : isDataReady i (.dataReady rsp) = true ↔ rsp.respondTo = i := beq_iff_eq
      simp only [readMessages, hanswers, Multiset.countP_cons, hit]
      omega
    · have hlist := countP_eraseP (awaitsRead i) _ ht
      have hfound : awaitsRead rsp.respondTo t = true := find?_some ht
      have hxi : awaitsRead i t = true ↔ rsp.respondTo = i := any_id_iff hfound
      simp only [hxi] at hlist
      exact hlist
    · have hno : ¬ isWriteDone i (.dataReady rsp) = true := nofun
      simp only [writeMessages, hanswers, Multiset.countP_cons, if_neg hno, Nat.add_zero, le_refl]
  | restart _ _ _ _ _ _ hanswers =>
    refine h.of_less rfl rfl le_rfl (fun i => ?_) fun i => ?_
    · exact Nat.add_le_add_left (Multiset.countP_le_of_le _ hanswers) _
    · exact Nat.add_le_add_left (Multiset.countP_le_of_le _ hanswers) _
  | serve _ _ hreq =>
    refine h.of_less rfl rfl le_rfl (fun i => ?_) fun i => ?_
    · have h1 := countP_eraseIdx (BottomReq.isRead i) hreq
      simp only [readMessages, Multiset.countP_cons, (serve_messages _ _ _ i).1]
      omega
    · have h1 := countP_eraseIdx (BottomReq.isWrite i) hreq
      simp only [writeMessages, Multiset.countP_cons, (serve_messages _ _ _ i).2]
      omega
  | _ => exact ⟨h.1, h.2, h.3, h.4, h.5, h.6⟩

end Flow

end Akita.WriteBack
