import Akita.Analysis.PerfAnalyzer
import Mathlib.Data.Finset.Card

/-!
# The live traffic table

`AddDataEntry` and `GetCurrentTraffic` of `analysis.PerfAnalyzer`.

* `addDataEntries` : the table after some entries;
* `latest` : the last entry of each stream;
* `traffic_iff` : the table shows these if no two streams have the same key.
-/

namespace Akita.Analysis
open List

variable {α κ ι : Type} [DecidableEq κ] [DecidableEq ι]

/-! ## The last entry of each key -/

def latest (key : α → κ) : List α → List α
  | [] => []
  | x :: rest => if key x ∈ rest.map key then latest key rest else x :: latest key rest

variable {key : α → κ} {l : List α}

theorem latest_concat (l : List α) (x : α) : latest key (l ++ [x]) = Keyed.delete key (key x) (latest key l) ++ [x] := by
  induction l with
  | nil => rfl
  | cons y l ih =>
    have hiff : key y ∈ (l ++ [x]).map key ↔ key y ∈ l.map key ∨ key y = key x := by
      rw [map_append, mem_append, map_singleton, mem_singleton]
    rw [cons_append, latest, latest, ih, if_congr hiff rfl rfl]
    by_cases hmem : key y ∈ l.map key
    · rw [if_pos (.inl hmem), if_pos hmem]
    · by_cases hkey : key y = key x
      · rw [if_pos (.inr hkey), if_neg hmem, Keyed.delete, Keyed.delete, filter_cons_of_neg (by simpa using hkey)]
      · rw [if_neg fun h => h.elim hmem hkey, if_neg hmem, Keyed.delete, Keyed.delete,
          filter_cons_of_pos (by simpa using hkey), cons_append]

theorem foldl_insert (l : List α) : l.foldl (fun table x => Keyed.insert key x table) [] = (latest key l).reverse := by
  induction l using reverseRecOn with
  | nil => rfl
  | append_singleton l x ih =>
    rw [foldl_append, ih, latest_concat, reverse_append, Keyed.delete, ← filter_reverse]
    rfl

theorem length_latest (l : List α) : (latest key l).length = (l.map key).toFinset.card := by
  induction l with
  | nil => rfl
  | cons x l ih =>
    rw [latest, map_cons, toFinset_cons]
    by_cases hmem : key x ∈ l.map key
    · rw [if_pos hmem, ih, Finset.insert_eq_of_mem (mem_toFinset.mpr hmem)]
    · rw [if_neg hmem, length_cons, ih, Finset.card_insert_of_notMem (mt mem_toFinset.mp hmem)]

/-- Two keys keep the same entries if they tell the same entries apart. -/
theorem latest_congr {key' : α → ι} (h : ∀ x ∈ l, ∀ y ∈ l, key x = key y ↔ key' x = key' y) :
    latest key l = latest key' l := by
  induction l with
  | nil => rfl
  | cons x l ih =>
    have hmem : key x ∈ l.map key ↔ key' x ∈ l.map key' := by
      simp only [mem_map]
      exact exists_congr fun y => and_congr_right fun hy => h y (mem_cons_of_mem _ hy) x mem_cons_self
    rw [latest, latest, ih fun y hy z hz => h y (mem_cons_of_mem _ hy) z (mem_cons_of_mem _ hz), if_congr hmem rfl rfl]

/-! ## The table -/

structure Stream where
  location : String
  remote : String
  what : String
  entryType : String
  unit : String
  deriving DecidableEq

def PerfAnalyzerEntry.stream (e : PerfAnalyzerEntry) : Stream := ⟨e.location, e.remote, e.what, e.entryType, e.unit⟩

/-- The key of the entries of a stream. -/
def Stream.tableKey (s : Stream) : String := s.location ++ s.what ++ s.entryType ++ s.unit

def addDataEntry (portDataTable : List PerfAnalyzerEntry) (entry : PerfAnalyzerEntry) : List PerfAnalyzerEntry :=
  Keyed.insert (fun e : PerfAnalyzerEntry => e.stream.tableKey) entry portDataTable

def addDataEntries (entries : List PerfAnalyzerEntry) : List PerfAnalyzerEntry := entries.foldl addDataEntry []

/-- An element of the JSON array, with the numbers that are printed. -/
structure TrafficRow where
  startTime : ℚ
  endTime : ℚ
  localPort : String
  remotePort : String
  value : Int
  unit : String
  deriving DecidableEq

/-- `strings.Contains` of one of the ports. -/
def PerfAnalyzerEntry.at (e : PerfAnalyzerEntry) (comp : String) : Bool :=
  comp.toList <:+: e.location.toList ∨ comp.toList <:+: e.remote.toList

def PerfAnalyzer.row (b : PerfAnalyzer) (time : ℚ) (data : PerfAnalyzerEntry) : TrafficRow where
  startTime := data.startTime
  endTime := data.endTime
  localPort := data.location
  remotePort := data.remote
  value := if data.endTime < time - b.period then 0 else data.value
  unit := data.unit

def PerfAnalyzer.getCurrentTraffic (b : PerfAnalyzer) (it : MapOrder PerfAnalyzerEntry)
    (portDataTable : List PerfAnalyzerEntry) (time : ℚ) (comp : String) : List TrafficRow :=
  ((it.order portDataTable).filter (·.at comp)).map (b.row time)

/-- A row for each stream at the component, with its last entry. -/
def PerfAnalyzer.traffic (b : PerfAnalyzer) (entries : List PerfAnalyzerEntry) (time : ℚ) (comp : String) : List TrafficRow :=
  ((latest PerfAnalyzerEntry.stream entries).filter (·.at comp)).map (b.row time)

/-- **The streams are kept apart** just when they have different keys. -/
theorem traffic_iff (b : PerfAnalyzer) (entries : List PerfAnalyzerEntry) :
    (∀ it time comp, (b.getCurrentTraffic it (addDataEntries entries) time comp).Perm (b.traffic entries time comp)) ↔
      ∀ s ∈ entries.map PerfAnalyzerEntry.stream, ∀ s' ∈ entries.map PerfAnalyzerEntry.stream, s.tableKey = s'.tableKey →
      s = s' := by
  have htable : addDataEntries entries = (latest (Stream.tableKey ∘ PerfAnalyzerEntry.stream) entries).reverse :=
    foldl_insert entries
  constructor
  · intro h s hs s' hs' hkey
    have hall : ∀ e : PerfAnalyzerEntry, e.at "" = true := fun e => decide_eq_true (.inl nil_infix)
    have hperm := (h ⟨id, .refl⟩ 0 "").length_eq
    simp only [PerfAnalyzer.getCurrentTraffic, PerfAnalyzer.traffic, length_map, filter_eq_self.mpr fun e _ => hall e, htable,
      id_eq, length_reverse, length_latest] at hperm
    have himage : (entries.map (Stream.tableKey ∘ PerfAnalyzerEntry.stream)).toFinset =
        (entries.map PerfAnalyzerEntry.stream).toFinset.image Stream.tableKey := by
      ext x
      simp
    rw [himage] at hperm
    exact Finset.card_image_iff.mp hperm (mem_toFinset.mpr hs) (mem_toFinset.mpr hs') hkey
  · intro h it time comp
    have hlatest : latest (Stream.tableKey ∘ PerfAnalyzerEntry.stream) entries = latest PerfAnalyzerEntry.stream entries :=
      latest_congr fun x hx y hy => ⟨h _ (mem_map_of_mem hx) _ (mem_map_of_mem hy), congrArg Stream.tableKey⟩
    refine List.Perm.map _ (List.Perm.filter _ ?_)
    rw [htable, hlatest]
    exact (it.perm _).trans (reverse_perm _)

/-- A port that talks to two others. -/
theorem not_traffic_remotes : ∃ b entries,
    ¬ (PerfAnalyzer.getCurrentTraffic b ⟨id, .refl⟩ (addDataEntries entries) 1 "L1").Perm (b.traffic entries 1 "L1") :=
  ⟨.new 1, [⟨"Traffic", 0, 1, "L1.Port", "L2", "Incoming", 64, "Byte", 0⟩,
    ⟨"Traffic", 0, 1, "L1.Port", "L3", "Incoming", 4, "Byte", 0⟩], fun h => absurd h.length_eq (by decide +kernel)⟩

end Akita.Analysis
