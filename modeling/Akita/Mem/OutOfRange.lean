import Akita.Mem.Units

/-!
# Accesses out of range

`createOrGetStorageUnit` compares the capacity with the first address of each chunk, while the loops are already copying.

* `Beyond n capacity address len` : a chunk of the range begins beyond the capacity;
* `Storage.writeLoop_refused`, `writeLoop_accepted` : what `Write` does in the one case and in the other;
* `Refuses` : an access out of range is an error, and an error changes no byte;
* `refuses_iff` : the accesses of which this is true.
-/

namespace Akita.Mem.Units
open UInt64 (le_iff_toNat_le lt_iff_toNat_lt ofNat toNat_add toNat_ofNat_of_lt')
open Units.Storage (write writeLoop)

def beyondCapacity : String := "accessing physical address beyond the storage capacity"

/-- The greatest address below `2 ^ 64` at which a chunk of the range begins is beyond the capacity. -/
def Beyond (n capacity address len : Nat) : Prop :=
  0 < len ∧ capacity < max address ((min (address + len) (2 ^ 64) - 1) / n * n)

instance (n capacity address len : Nat) : Decidable (Beyond n capacity address len) := inferInstanceAs (Decidable (_ ∧ _))

/-- The end of the unit of the capacity: where the first unit begins that is beyond it. -/
def unitEnd (n capacity : Nat) : Nat := (capacity / n + 1) * n

section

variable {n cap c len k : Nat}

theorem Beyond.next (hn : 0 < n) (hc : c ≤ cap) (h : Beyond n cap c len) :
    n - c % n < len ∧ c + (n - c % n) < 2 ^ 64 ∧ Beyond n cap (c + (n - c % n)) (len - (n - c % n)) := by
  obtain ⟨_, hcap⟩ := h
  have hmod := Nat.mod_lt c hn
  have hdiv := Nat.div_add_mod c n
  generalize hm : min (c + len) (2 ^ 64) - 1 = m at hcap
  have hlast : cap < m / n * n := by omega
  have hle := Nat.div_mul_le_self m n
  have hunit : c / n < m / n := by
    by_contra hnot
    have hmul := Nat.mul_le_mul_right n (Nat.not_lt.1 hnot)
    rw [Nat.mul_comm (c / n)] at hmul
    omega
  have hnext : (c / n + 1) * n ≤ m / n * n := Nat.mul_le_mul_right n hunit
  rw [Nat.add_mul, Nat.one_mul, Nat.mul_comm (c / n)] at hnext
  refine ⟨by omega, by omega, by omega, ?_⟩
  rw [show c + (n - c % n) + (len - (n - c % n)) = c + len by omega, hm]
  omega

theorem Beyond.of_next (hc : c ≤ cap) (hk : k < len) (hck : c + k < 2 ^ 64) (h : Beyond n cap (c + k) (len - k))
    (hunit : n ∣ c + k) : Beyond n cap c len := by
  obtain ⟨-, hcap⟩ := h
  refine ⟨by omega, ?_⟩
  rw [show c + k + (len - k) = c + len by omega] at hcap
  generalize hm : min (c + len) (2 ^ 64) - 1 = m at hcap ⊢
  obtain ⟨q, hq⟩ := hunit
  rcases Nat.eq_zero_or_pos n with rfl | hn
  · omega
  · have hle : q * n ≤ m / n * n := by
      apply Nat.mul_le_mul_right
      rw [Nat.le_div_iff_mul_le hn, Nat.mul_comm]
      omega
    rw [Nat.mul_comm] at hq
    omega

theorem not_beyond_of_le (h : c + len ≤ cap) : ¬ Beyond n cap c len := by
  rintro ⟨hlen, hcap⟩
  have hle := Nat.div_mul_le_self (min (c + len) (2 ^ 64) - 1) n
  omega

theorem unitEnd_of_next (hn : 0 < n) (hc : c ≤ cap) (hcap : cap < c + (n - c % n)) : unitEnd n cap = c + (n - c % n) := by
  have hdiv := Nat.div_add_mod c n
  have hmod := Nat.mod_lt c hn
  have hsame : cap / n = c / n := by
    apply Nat.div_eq_of_lt_le
    · rw [Nat.mul_comm]
      omega
    · rw [Nat.add_mul, Nat.mul_comm]
      omega
  rw [unitEnd, hsame, Nat.add_mul, Nat.mul_comm]
  omega

theorem le_unitEnd (hn : 0 < n) : cap < unitEnd n cap := by
  rw [unitEnd, Nat.mul_comm]
  exact Nat.lt_mul_div_succ cap hn

end

variable {n : UInt64}

namespace Storage

/-! ## The loops -/

theorem createOrGetStorageUnit_error {s : Storage n} {a : UInt64} (h : s.capacity < a) :
    s.createOrGetStorageUnit a = (.error beyondCapacity, s) := if_pos h

/-- `Write` fails at the unit that begins beyond the capacity, and the chunks before it have been written. -/
theorem writeLoop_refused (hn : 0 < n) {data : Bytes} (hlen : data.length < 2 ^ 64) (fuel : Nat) {s : Storage n}
    {c off : UInt64} (hfuel : data.length - off.toNat < fuel)
    (h : Beyond n.toNat s.capacity.toNat c.toNat (data.length - off.toNat)) :
    ∃ s', s.writeLoop data fuel c off = some (.error beyondCapacity, s') ∧ ∀ x, s'.byte x =
      if c ≤ s.capacity ∧ c.toNat ≤ x.toNat ∧ x.toNat < unitEnd n.toNat s.capacity.toNat then
        data.getD (off.toNat + (x.toNat - c.toNat)) 0
      else s.byte x := by
  have hn' : 0 < n.toNat := by simpa [lt_iff_toNat_lt] using hn
  induction fuel generalizing s c off with
  | zero => omega
  | succ fuel ih =>
    have hmore := h.1
    by_cases hcap : c ≤ s.capacity
    · have hcap' := le_iff_toNat_le.1 hcap
      obtain ⟨k, s₁, hround, _, hcap₁, hbyte⟩ := writeLoop_chunk hn hlen fuel (show off.toNat < data.length by omega) hcap
      obtain ⟨_, _, hbeyond⟩ := h.next hn' hcap'
      have hmod := Nat.mod_lt c.toNat hn'
      have hk' : k.toNat = n.toNat - c.toNat % n.toNat := by omega
      have hoffk : (off + k).toNat = off.toNat + k.toNat := by
        rw [toNat_add, Nat.mod_eq_of_lt (by omega)]
      have hck : (c + k).toNat = c.toNat + k.toNat := by
        rw [toNat_add, Nat.mod_eq_of_lt (by omega)]
      have hrest : data.length - (off + k).toNat = data.length - off.toNat - k.toNat := by omega
      obtain ⟨s₂, hloop, hbyte₂⟩ := @ih s₁ (c + k) (off + k) (by omega) (by rw [hcap₁, hck, hrest, hk']; exact hbeyond)
      refine ⟨s₂, hround.trans hloop, fun x => ?_⟩
      rw [hbyte₂ x, hbyte x, hcap₁, hck, hoffk]
      simp only [le_iff_toNat_le, hck]
      have hsub : c.toNat + k.toNat ≤ x.toNat →
          off.toNat + k.toNat + (x.toNat - (c.toNat + k.toNat)) = off.toNat + (x.toNat - c.toNat) := by omega
      -- the unit after the chunk is the one that is beyond, or it is written too
      rcases Nat.lt_or_ge s.capacity.toNat (c.toNat + k.toNat) with hlast | _
      · have hend := unitEnd_of_next hn' hcap' (hk' ▸ hlast)
        rw [if_neg (by omega), hend, ← hk']
        exact if_congr (by omega) rfl rfl
      · have hend := @le_unitEnd _ s.capacity.toNat hn'
        by_cases hbehind : c.toNat + k.toNat ≤ x.toNat
        · rw [hsub hbehind, if_neg (show ¬ (c.toNat ≤ x.toNat ∧ x.toNat < c.toNat + k.toNat) by omega)]
          exact if_congr (by omega) rfl rfl
        · rw [if_neg (by omega)]
          exact if_congr (by omega) rfl rfl
    · refine ⟨s, ?_, fun x => by rw [if_neg fun hand => hcap hand.1]⟩
      have hlt : off < ofNat data.length := by
        rw [lt_iff_toNat_lt, toNat_ofNat_of_lt' hlen]
        omega
      rw [writeLoop, if_pos hlt, createOrGetStorageUnit_error (UInt64.not_le.1 hcap)]

/-- Without such a unit `Write` ends without error, also when the addresses pass `2 ^ 64`. -/
theorem writeLoop_accepted (hn : 0 < n) {data : Bytes} (hlen : data.length < 2 ^ 64) (fuel : Nat) {s : Storage n}
    {c off : UInt64} (hfuel : data.length - off.toNat < fuel) (hoff : off.toNat ≤ data.length)
    (h : ¬ Beyond n.toNat s.capacity.toNat c.toNat (data.length - off.toNat)) :
    ∃ s', s.writeLoop data fuel c off = some (.ok (), s') := by
  have hn' : 0 < n.toNat := by simpa [lt_iff_toNat_lt] using hn
  induction fuel generalizing s c off with
  | zero => omega
  | succ fuel ih =>
    rcases Nat.lt_or_ge off.toNat data.length with hmore | _
    · have hcap : c.toNat ≤ s.capacity.toNat := by
        by_contra hnot
        exact h ⟨by omega, by omega⟩
      obtain ⟨k, s₁, hround, _, hcap₁, -⟩ := writeLoop_chunk hn hlen fuel hmore (le_iff_toNat_le.2 hcap)
      have hmod := Nat.mod_lt c.toNat hn'
      have hclt := c.toNat_lt
      have hcaplt := s.capacity.toNat_lt
      have hoffk : (off + k).toNat = off.toNat + k.toNat := by
        rw [toNat_add, Nat.mod_eq_of_lt (by omega)]
      rw [hround]
      rcases Nat.lt_or_ge (c.toNat + k.toNat) (2 ^ 64) with hck | _
      · have hck' : (c + k).toNat = c.toNat + k.toNat := by
          rw [toNat_add, Nat.mod_eq_of_lt hck]
        refine @ih s₁ (c + k) (off + k) (by omega) (by omega) fun hnext => h ?_
        rw [hcap₁, hck', hoffk, show data.length - (off.toNat + k.toNat) = data.length - off.toNat - k.toNat by omega]
          at hnext
        have hrest := hnext.1
        refine hnext.of_next hcap (by omega) hck ⟨c.toNat / n.toNat + 1, ?_⟩
        have hdiv := Nat.div_add_mod c.toNat n.toNat
        rw [Nat.mul_add, Nat.mul_one]
        omega
      · -- the rest lies below the address where the write began
        have hck' : (c + k).toNat = c.toNat + k.toNat - 2 ^ 64 := by
          rw [toNat_add]
          have hnlt := n.toNat_lt
          omega
        obtain ⟨s₂, hloop, -⟩ := @writeLoop_ok n hn data hlen fuel s₁ (c + k) (off + k) (by omega) (by omega)
          (by rw [hcap₁]; omega)
        exact ⟨s₂, hloop⟩
    · refine ⟨s, ?_⟩
      rw [writeLoop, if_neg]
      rw [lt_iff_toNat_lt, toNat_ofNat_of_lt' hlen]
      omega

/-- `Read` fails when a unit of the range begins beyond the capacity, and it does not fail otherwise. No byte changes. -/
theorem readLoop_spec (hn : 0 < n) {stop : UInt64} (fuel : Nat) {s : Storage n} {c left off : UInt64} {res : Bytes}
    (hfuel : left.toNat < fuel) (hstop : c.toNat + left.toNat = stop.toNat) (hres : off.toNat + left.toNat = res.length)
    (hlen : res.length < 2 ^ 64) :
    ∃ r s', s.readLoop stop fuel c left off res = some (r, s') ∧ (∀ x, s'.byte x = s.byte x) ∧
      if Beyond n.toNat s.capacity.toNat c.toNat left.toNat then r = .error beyondCapacity else ∃ d, r = .ok d := by
  have hn' : 0 < n.toNat := by simpa [lt_iff_toNat_lt] using hn
  induction fuel generalizing s c left off res with
  | zero => omega
  | succ fuel ih =>
    have hstoplt := stop.toNat_lt
    rcases Nat.eq_zero_or_pos left.toNat with _ | hmore
    · refine ⟨.ok res, s, ?_, fun _ => rfl, ?_⟩
      · rw [readLoop, if_neg (UInt64.not_lt.2 (le_iff_toNat_le.2 (by omega)))]
      · rw [if_neg fun hb => absurd hb.1 (by omega)]
        exact ⟨res, rfl⟩
    · by_cases hcap : c ≤ s.capacity
      · have hcap' := le_iff_toNat_le.1 hcap
        obtain ⟨k, s₁, res₁, hround, _, hcap₁, hbyte, _, -⟩ := readLoop_chunk hn fuel hmore hstop hres hlen hcap
        have hmod := Nat.mod_lt c.toNat hn'
        have hck : (c + k).toNat = c.toNat + k.toNat := by
          rw [toNat_add, Nat.mod_eq_of_lt (by omega)]
        have hoff : (off + k).toNat = off.toNat + k.toNat := by
          rw [toNat_add, Nat.mod_eq_of_lt (by omega)]
        have hleft : (left - k).toNat = left.toNat - k.toNat := UInt64.toNat_sub_of_le _ _ (le_iff_toNat_le.2 (by omega))
        obtain ⟨r, s₂, hloop, hbyte₂, hr⟩ :=
          @ih s₁ (c + k) (left - k) (off + k) res₁ (by omega) (by omega) (by omega) (by omega)
        refine ⟨r, s₂, hround.trans hloop, fun x => (hbyte₂ x).trans (hbyte x), ?_⟩
        have hsame : Beyond n.toNat s₁.capacity.toNat (c + k).toNat (left - k).toNat ↔
            Beyond n.toNat s.capacity.toNat c.toNat left.toNat := by
          rw [hcap₁, hck, hleft]
          constructor
          · intro hnext
            have hrest := hnext.1
            refine hnext.of_next hcap' (by omega) (by omega) ⟨c.toNat / n.toNat + 1, ?_⟩
            have hdiv := Nat.div_add_mod c.toNat n.toNat
            rw [Nat.mul_add, Nat.mul_one]
            omega
          · intro hb
            obtain ⟨hlt, -, _⟩ := hb.next hn' hcap'
            rwa [show k.toNat = n.toNat - c.toNat % n.toNat by omega]
        simpa only [hsame] using hr
      · have hlt : c < stop := lt_iff_toNat_lt.2 (by omega)
        have hlow := lt_iff_toNat_lt.1 (UInt64.not_le.1 hcap)
        refine ⟨.error beyondCapacity, s, ?_, fun _ => rfl, ?_⟩
        · rw [readLoop, if_pos hlt, createOrGetStorageUnit_error (UInt64.not_le.1 hcap)]
        · rw [if_pos ⟨hmore, by omega⟩]

theorem createOrGetStorageUnit_zero (s : Storage 0) (a : UInt64) :
    s.createOrGetStorageUnit a = (.error (if s.capacity < a then beyondCapacity else "integer divide by zero"), s) := by
  unfold createOrGetStorageUnit
  split
  · rfl
  · rw [if_pos rfl]

end Storage

/-! ## Refusal -/

/-- The range lies in the storage. -/
def Op.Contained (capacity : UInt64) (op : Op) : Prop :=
  ∀ a, op.address.toNat ≤ a → a < op.address.toNat + op.byteSize → a < capacity.toNat

/-- A chunk of the range begins beyond the capacity. The addresses of a read do not pass `2 ^ 64`. A write begins beyond the
capacity, or the bytes that come before the first unit beyond it are in the storage already. -/
def Op.Guarded (s : Storage n) : Op → Prop
  | .read address len => address.toNat + len.toNat < 2 ^ 64 ∧ Beyond n.toNat s.capacity.toNat address.toNat len.toNat
  | .write address data => Beyond n.toNat s.capacity.toNat address.toNat data.length ∧ (s.capacity < address ∨
      ∀ x : UInt64, address.toNat ≤ x.toNat → x.toNat < unitEnd n.toNat s.capacity.toNat →
        data.getD (x.toNat - address.toNat) 0 = s.byte x)

/-- An access out of range is an error, and an error changes no byte. -/
structure Refuses (s : Storage n) (op : Op) (r : Reply) (s' : Storage n) : Prop where
  error : ¬ op.Contained s.capacity → r = .error beyondCapacity
  unchanged : ∀ e, r = .error e → ∀ a, s'.byte a = s.byte a

variable {op : Op}

/-- A range that is contained is empty, or it ends in the storage. -/
theorem Op.contained_iff {capacity : UInt64} :
    op.Contained capacity ↔ op.byteSize = 0 ∨ op.address.toNat + op.byteSize ≤ capacity.toNat := by
  unfold Op.Contained
  constructor
  · intro h
    by_contra hnot
    have hlast := h (op.address.toNat + op.byteSize - 1) (by omega) (by omega)
    omega
  · rintro (hempty | hend) a ha hlt <;> omega

theorem Op.not_beyond {capacity : UInt64} (h : op.Contained capacity) :
    ¬ Beyond n.toNat capacity.toNat op.address.toNat op.byteSize := by
  rcases Op.contained_iff.1 h with _ | hend
  · exact fun hb => absurd hb.1 (by omega)
  · exact not_beyond_of_le hend

/-- A reply that is no error is right only for a range that is contained. -/
theorem refuses_of_done {s s' : Storage n} {r : Reply} (hr : ∀ e, r ≠ .error e) :
    Refuses s op r s' ↔ op.Contained s.capacity :=
  ⟨fun h => by_contra fun hout => hr _ (h.error hout), fun hin => ⟨fun hout => absurd hin hout, fun e he => absurd he (hr e)⟩⟩

section

variable {s s' : Storage n} {address : UInt64} {fuel : Nat}

theorem read_of_wrap {len : UInt64} (hfuel : len.toNat < fuel) (h : 2 ^ 64 ≤ address.toNat + len.toNat) :
    s.read fuel address len = some (.ok (List.replicate len.toNat 0), s) := by
  have haddr := address.toNat_lt
  have hlen := len.toNat_lt
  obtain ⟨fuel, rfl⟩ : ∃ f, fuel = f + 1 := ⟨fuel - 1, by omega⟩
  rw [Storage.read, Storage.readLoop, if_neg]
  rw [lt_iff_toNat_lt, toNat_add]
  omega

theorem refuses_read {len : UInt64} (hn : 0 < n) (hfuel : len.toNat < fuel) :
    ∃ r s', s.access fuel (.read address len) = some (r, s') ∧
      (Refuses s (.read address len) r s' ↔ (Op.read address len).Contained s.capacity ∨
        (Op.read address len).Guarded s) := by
  rcases Nat.lt_or_ge (address.toNat + len.toNat) (2 ^ 64) with hend | hwrap
  · have hstop : (address + len).toNat = address.toNat + len.toNat := by
      rw [toNat_add, Nat.mod_eq_of_lt hend]
    obtain ⟨_, s', hread, hbyte, hr⟩ :=
      @Storage.readLoop_spec n hn (address + len) fuel s address len 0 (List.replicate len.toNat 0)
      hfuel hstop.symm (by simp) (by simpa using len.toNat_lt)
    by_cases hb : Beyond n.toNat s.capacity.toNat address.toNat len.toNat
    · rw [if_pos hb] at hr
      subst hr
      refine ⟨.error beyondCapacity, s', by rw [Storage.access, Storage.read, hread]; rfl, ?_⟩
      exact ⟨fun _ => .inr ⟨hend, hb⟩, fun _ => ⟨fun _ => rfl, fun _ _ => hbyte⟩⟩
    · rw [if_neg hb] at hr
      obtain ⟨d, rfl⟩ := hr
      refine ⟨.data d, s', by rw [Storage.access, Storage.read, hread]; rfl, ?_⟩
      rw [refuses_of_done fun _ => Reply.noConfusion]
      exact ⟨.inl, fun h => h.resolve_right fun hg => hb hg.2⟩
  · refine ⟨.data (List.replicate len.toNat 0), s, by rw [Storage.access, read_of_wrap hfuel hwrap]; rfl, ?_⟩
    rw [refuses_of_done fun _ => Reply.noConfusion]
    exact ⟨.inl, fun h => h.resolve_right fun hg => absurd hg.1 (by omega)⟩

theorem refuses_write {data : Bytes} (hn : 0 < n) (hlen : data.length < 2 ^ 64) (hfuel : data.length < fuel) :
    ∃ r s', s.access fuel (.write address data) = some (r, s') ∧
      (Refuses s (.write address data) r s' ↔
        (Op.write address data).Contained s.capacity ∨ (Op.write address data).Guarded s) := by
  by_cases hb : Beyond n.toNat s.capacity.toNat address.toNat data.length
  · obtain ⟨s', hwrite, hbyte⟩ :=
      @Storage.writeLoop_refused n hn data hlen fuel s address 0 (by simpa using hfuel) (by simpa using hb)
    simp only [UInt64.toNat_zero, Nat.zero_add] at hbyte
    refine ⟨.error beyondCapacity, s', by rw [Storage.access, write, hwrite]; rfl, ?_⟩
    have hout : ¬ (Op.write address data).Contained s.capacity := fun hin => Op.not_beyond hin hb
    constructor
    · intro h
      refine .inr ⟨hb, ?_⟩
      by_cases hcap : s.capacity < address
      · exact .inl hcap
      · refine .inr fun x hx hend => ?_
        rw [← h.unchanged _ rfl x, hbyte x, if_pos ⟨UInt64.not_lt.1 hcap, hx, hend⟩]
    · rintro (hin | ⟨-, hsame⟩)
      · exact absurd hin hout
      · refine ⟨fun _ => rfl, fun _ _ x => ?_⟩
        rw [hbyte x]
        split
        · next hx => exact (hsame.resolve_left (UInt64.not_lt.2 hx.1)) x hx.2.1 hx.2.2
        · rfl
  · obtain ⟨s', hwrite⟩ := @Storage.writeLoop_accepted n hn data hlen fuel s address 0 (by simpa using hfuel)
      (by simp) (by simpa using hb)
    refine ⟨.done, s', by rw [Storage.access, write, hwrite]; rfl, ?_⟩
    rw [refuses_of_done fun _ => Reply.noConfusion]
    exact ⟨.inl, fun h => h.resolve_right fun hg => hb hg.1⟩

theorem refuses_zero {s : Storage 0} {op : Op} (hfuel : op.byteSize < fuel) (hsize : op.byteSize < 2 ^ 64) :
    ∃ r s', s.access fuel op = some (r, s') ∧ (Refuses s op r s' ↔ op.Contained s.capacity ∨ op.Guarded s) := by
  have hbeyond : Beyond 0 s.capacity.toNat op.address.toNat op.byteSize ↔ 0 < op.byteSize ∧ s.capacity < op.address := by
    unfold Beyond
    rw [Nat.mul_zero, Nat.max_zero, lt_iff_toNat_lt]
  obtain ⟨fuel, rfl⟩ : ∃ f, fuel = f + 1 := ⟨fuel - 1, by omega⟩
  -- what the first chunk fails with
  have hfail : ∀ e, e = (if s.capacity < op.address then beyondCapacity else "integer divide by zero") → 0 < op.byteSize →
      (op.Guarded s ↔ s.capacity < op.address) → (Refuses s op (.error e) s ↔ op.Contained s.capacity ∨ op.Guarded s) := by
    intro e he hpos hg
    rw [hg]
    split at he
    next hcap => exact ⟨fun _ => .inr hcap, fun _ => ⟨fun _ => congrArg Reply.error he, fun _ _ _ => rfl⟩⟩
    next hcap =>
      refine ⟨fun h => .inl (by_contra fun hout => ?_),
        fun h => ⟨fun hout => absurd (h.resolve_right hcap) hout, fun _ _ _ => rfl⟩⟩
      have hsame := Reply.error.inj (h.error hout)
      rw [he] at hsame
      exact absurd hsame (by decide)
  cases op with
  | read address len =>
    rcases Nat.lt_or_ge (address.toNat + len.toNat) (2 ^ 64) with hend | hwrap
    · rcases Nat.eq_zero_or_pos len.toNat with hzero | hpos
      · refine ⟨.data (List.replicate len.toNat 0), s, ?_, ?_⟩
        · rw [Storage.access, Storage.read, Storage.readLoop, if_neg]
          · rfl
          · rw [lt_iff_toNat_lt, toNat_add]
            omega
        · rw [refuses_of_done fun _ => Reply.noConfusion]
          exact ⟨.inl, fun _ => Op.contained_iff.2 (.inl hzero)⟩
      · refine ⟨_, s, ?_, hfail _ rfl hpos ⟨fun hg => (hbeyond.1 hg.2).2, fun hcap => ⟨hend, hbeyond.2 ⟨hpos, hcap⟩⟩⟩⟩
        rw [Storage.access, Storage.read, Storage.readLoop, if_pos, Storage.createOrGetStorageUnit_zero]
        · rfl
        · rw [lt_iff_toNat_lt, toNat_add, Nat.mod_eq_of_lt hend]
          omega
    · refine ⟨.data (List.replicate len.toNat 0), s, by rw [Storage.access, read_of_wrap hfuel hwrap]; rfl, ?_⟩
      rw [refuses_of_done fun _ => Reply.noConfusion]
      exact ⟨.inl, fun h => h.resolve_right fun hg => absurd hg.1 (by omega)⟩
  | write _ data =>
    have hlen : (ofNat data.length).toNat = data.length := toNat_ofNat_of_lt' hsize
    rcases Nat.eq_zero_or_pos data.length with hzero | hpos
    · refine ⟨.done, s, ?_, ?_⟩
      · rw [Storage.access, write, writeLoop, if_neg]
        · rfl
        · rw [lt_iff_toNat_lt, hlen]
          omega
      · rw [refuses_of_done fun _ => Reply.noConfusion]
        exact ⟨.inl, fun _ => Op.contained_iff.2 (.inl hzero)⟩
    · refine ⟨_, s, ?_, hfail _ rfl hpos ⟨fun hg => (hbeyond.1 hg.1).2, fun hcap => ⟨hbeyond.2 ⟨hpos, hcap⟩, .inl hcap⟩⟩⟩
      rw [Storage.access, write, writeLoop, if_pos, Storage.createOrGetStorageUnit_zero]
      · rfl
      · rw [lt_iff_toNat_lt, hlen]
        exact hpos

end

/-- An access out of range is refused as a whole exactly when its range is contained or the check sees the range before a byte
changes. -/
theorem refuses_iff (s : Storage n) (op : Op) (hsize : op.byteSize < 2 ^ 64) (fuel : Nat) (hfuel : op.byteSize < fuel) :
    ∃ r s', s.access fuel op = some (r, s') ∧ (Refuses s op r s' ↔ op.Contained s.capacity ∨ op.Guarded s) := by
  rcases eq_or_ne n 0 with rfl | hne
  · exact refuses_zero hfuel hsize
  · have hn : 0 < n := UInt64.pos_iff_ne_zero.2 hne
    cases op with
    | read => exact refuses_read hn hfuel
    | write => exact refuses_write hn hsize hfuel

theorem refuses_iff_units : ∃ r s', (newStorageWithUnitSize 4 8).access 9 (.write 6 [1, 2, 3, 4, 5, 6, 7, 8]) = some (r, s') ∧
    (Refuses (newStorageWithUnitSize 4 8) (.write 6 [1, 2, 3, 4, 5, 6, 7, 8]) r s' ↔
      (Op.write 6 [1, 2, 3, 4, 5, 6, 7, 8]).Contained 8 ∨ (Op.write 6 [1, 2, 3, 4, 5, 6, 7, 8]).Guarded
      (newStorageWithUnitSize 4 8)) :=
  refuses_iff (newStorageWithUnitSize 4 8) (.write 6 [1, 2, 3, 4, 5, 6, 7, 8]) (by decide) 9 (by decide)

/-- A byte at the capacity is written, a write across the end fails after it has changed byte 6, and a read across the end of
the addresses gives zeros. -/
theorem accepted_out_of_range :
    (∃ s', (newStorageWithUnitSize 4 8).access 2 (.write 8 [1]) = some (.done, s') ∧ ¬ (Op.write 8 [1]).Contained 8) ∧
    (∃ s', (newStorageWithUnitSize 4 8).access 9 (.write 6 [1, 2, 3, 4, 5, 6, 7, 8]) = some (.error beyondCapacity, s') ∧
      s'.byte 6 = 1 ∧ (newStorageWithUnitSize 4 8).byte 6 = 0) ∧
    ∃ s', (newStorageWithUnitSize 4 8).access 3 (.read 0xFFFFFFFFFFFFFFFF 2) = some (.data [0, 0], s') ∧
      ¬ (Op.read 0xFFFFFFFFFFFFFFFF 2).Contained 8 := by
  refine ⟨⟨_, rfl, fun h => absurd (h 8 (by decide) (by decide)) (by decide)⟩, ⟨_, rfl, by decide, by decide⟩, _, rfl,
    fun h => ?_⟩
  exact absurd (h 0xFFFFFFFFFFFFFFFF (by decide) (by decide)) (by decide)

end Akita.Mem.Units
